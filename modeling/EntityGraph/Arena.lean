import EntityGraph.Failure

/-!
# The arena of entities

Entities are stored in slots that are handed out in order (`Arena.alloc`, `Arena.reserve`). A reserved slot is empty
until it is filled, which happens once (`Arena.fill`); when all slots are filled, the arena is the list of its entities
(`Arena.freeze`).
-/

namespace EntityGraph

/-- The slots of entities; an empty slot is reserved. -/
structure Arena where
  slots : Array (Option Entity) := #[]
deriving Inhabited

namespace Arena

/-- The id of the next slot. -/
def nextId (a : Arena) : EntityId := ⟨a.slots.size⟩

/-- The content of a slot: nothing for a slot that was never handed out, an empty slot for a reserved one. -/
def get? (id : EntityId) (a : Arena) : Option (Option Entity) := a.slots[id.index]?

/-- Stores an entity in the next slot. -/
def alloc (m : Entity) (a : Arena) : EntityId × Arena := (a.nextId, ⟨a.slots.push (some m)⟩)

/-- Hands out the next slot empty. -/
def reserve (a : Arena) : EntityId × Arena := (a.nextId, ⟨a.slots.push none⟩)

/-- Fills a reserved slot. -/
def fill (id : EntityId) (m : Entity) (a : Arena) : Except Breach Arena :=
  match a.get? id with
  | none => .error (.neverReserved id)
  | some (some _) => .error (.filledTwice id)
  | some none => .ok ⟨a.slots.setIfInBounds id.index (some m)⟩

/-- The entities of slots of which the first has the given index; the first empty slot is a breach. -/
def contents (index : Nat) : List (Option Entity) → Except Breach (List Entity)
  | [] => .ok []
  | none :: _ => .error (.neverFilled ⟨index⟩)
  | some m :: rest => (contents (index + 1) rest).map (m :: ·)

/-- The entities in the order of their slots, when all slots are filled. -/
def freeze (a : Arena) : Except Breach (List Entity) := contents 0 a.slots.toList

/-! ## What the operations do to the slots -/

theorem get?_alloc (id : EntityId) (m : Entity) (a : Arena) :
    (a.alloc m).2.get? id = if id = a.nextId then some (some m) else a.get? id := by
  obtain ⟨i⟩ := id
  simp [get?, alloc, nextId, Array.getElem?_push]

theorem get?_reserve (id : EntityId) (a : Arena) :
    a.reserve.2.get? id = if id = a.nextId then some none else a.get? id := by
  obtain ⟨i⟩ := id
  simp [get?, reserve, nextId, Array.getElem?_push]

theorem get?_nextId (a : Arena) : a.get? a.nextId = none := by simp [get?, nextId]

theorem ne_nextId_of_get? {id : EntityId} {x : Option Entity} {a : Arena} (h : a.get? id = some x) :
    id ≠ a.nextId := by
  rintro rfl
  rw [get?_nextId] at h
  cases h

/-- Storing an entity leaves the slots that were handed out as they are. -/
theorem get?_alloc_of_get? {id : EntityId} {x : Option Entity} {a : Arena} (h : a.get? id = some x) (m : Entity) :
    (a.alloc m).2.get? id = some x := by
  rw [get?_alloc, if_neg (ne_nextId_of_get? h)]
  exact h

/-- Reserving a slot leaves the slots that were handed out as they are. -/
theorem get?_reserve_of_get? {id : EntityId} {x : Option Entity} {a : Arena} (h : a.get? id = some x) :
    a.reserve.2.get? id = some x := by
  rw [get?_reserve, if_neg (ne_nextId_of_get? h)]
  exact h

theorem get?_alloc_eq_empty_iff {id : EntityId} {m : Entity} {a : Arena} :
    (a.alloc m).2.get? id = some none ↔ a.get? id = some none := by
  by_cases hnew : id = a.nextId
  · simp [get?_alloc, hnew, get?_nextId]
  · simp [get?_alloc, hnew]

theorem get?_of_reserve {id : EntityId} {m : Entity} {a : Arena} (h : a.reserve.2.get? id = some (some m)) :
    a.get? id = some (some m) := by
  by_cases hnew : id = a.nextId
  · simp [get?_reserve, hnew] at h
  · simpa [get?_reserve, hnew] using h

/-- Exactly a reserved slot can be filled. -/
theorem fill_eq_ok_iff {id : EntityId} {m : Entity} {a b : Arena} :
    a.fill id m = .ok b ↔ a.get? id = some none ∧ b = ⟨a.slots.setIfInBounds id.index (some m)⟩ := by
  unfold fill
  split
  · next h => simp [h]
  · next h => simp [h]
  · next h => simp [h, eq_comm]

/-- Filling changes the slot and no other. -/
theorem get?_of_fill {id : EntityId} {m : Entity} {a b : Arena} (h : a.fill id m = .ok b) (i : EntityId) :
    b.get? i = if i = id then some (some m) else a.get? i := by
  obtain ⟨hid, rfl⟩ := fill_eq_ok_iff.mp h
  obtain ⟨i⟩ := i
  obtain ⟨j⟩ := id
  obtain ⟨hj, _⟩ := Array.getElem?_eq_some_iff.mp hid
  simp only [get?, Array.getElem?_setIfInBounds, EntityId.mk.injEq]
  by_cases h : i = j <;> simp_all [eq_comm]

/-- Filling a slot leaves what is in the others as it is. -/
theorem get?_fill_of_get? {id i : EntityId} {m x : Entity} {a b : Arena} (h : a.get? i = some (some x))
    (hfill : a.fill id m = .ok b) : b.get? i = some (some x) := by
  rw [get?_of_fill hfill, if_neg, h]
  rintro rfl
  rw [(fill_eq_ok_iff.mp hfill).1] at h
  cases h

theorem contents_eq_ok_iff {ms : List Entity} : ∀ {index : Nat} {slots : List (Option Entity)},
    contents index slots = .ok ms ↔ slots = ms.map some
  | _, [] => by cases ms <;> simp [contents]
  | _, none :: _ => by cases ms <;> simp [contents]
  | index, some m :: rest => by
    cases ms with
    | nil => cases hr : contents (index + 1) rest <;> simp [contents, hr, Except.map]
    | cons m' ms =>
      have ih := @contents_eq_ok_iff ms (index + 1) rest
      cases hr : contents (index + 1) rest <;> simp_all [contents, Except.map]

/-- An arena freezes to the entities in its slots, when all slots are filled. -/
theorem freeze_eq_ok_iff {a : Arena} {ms : List Entity} : a.freeze = .ok ms ↔ a.slots.toList = ms.map some :=
  contents_eq_ok_iff

/-- The contents fail at the first empty slot. -/
theorem contents_eq_error_iff {b : Breach} : ∀ {index : Nat} {slots : List (Option Entity)},
    contents index slots = .error b ↔
      ∃ i, slots[i]? = some none ∧ (∀ j < i, slots[j]? ≠ some none) ∧ b = .neverFilled ⟨index + i⟩
  | _, [] => by simp [contents]
  | index, none :: rest => by
    constructor
    · rintro ⟨⟩
      exact ⟨0, rfl, nofun, rfl⟩
    · rintro ⟨i, _, hfirst, rfl⟩
      cases i with
      | zero => rfl
      | succ i => exact absurd rfl (hfirst 0 (Nat.zero_lt_succ i))
  | index, some m :: rest => by
    have ih := @contents_eq_error_iff b (index + 1) rest
    have hmap : contents index (some m :: rest) = .error b ↔ contents (index + 1) rest = .error b := by
      cases hr : contents (index + 1) rest <;> simp [contents, hr, Except.map]
    rw [hmap, ih]
    constructor
    · rintro ⟨i, hi, hfirst, rfl⟩
      refine ⟨i + 1, hi, fun j hj => ?_, by rw [Nat.add_assoc, Nat.add_comm 1]⟩
      cases j with
      | zero => exact nofun
      | succ j => exact hfirst j (Nat.lt_of_succ_lt_succ hj)
    · rintro ⟨i, hi, hfirst, rfl⟩
      cases i with
      | zero => cases hi
      | succ i =>
        refine ⟨i, hi, fun j hj => hfirst (j + 1) (Nat.succ_lt_succ hj), by rw [Nat.add_assoc, Nat.add_comm 1]⟩

/-- Freezing fails with the first slot that is empty. -/
theorem freeze_eq_error_iff {b : Breach} {a : Arena} :
    a.freeze = .error b ↔ ∃ id, a.get? id = some none ∧
      (∀ i, a.get? i = some none → id.index ≤ i.index) ∧ b = .neverFilled id := by
  rw [freeze, contents_eq_error_iff]
  simp only [Array.getElem?_toList, Nat.zero_add]
  constructor
  · rintro ⟨i, hi, hfirst, rfl⟩
    exact ⟨⟨i⟩, hi, fun j hj => Nat.le_of_not_lt fun hlt => hfirst j.index hlt hj, rfl⟩
  · rintro ⟨⟨i⟩, hi, hfirst, rfl⟩
    exact ⟨i, hi, fun j hj hempty => absurd (hfirst ⟨j⟩ hempty) (Nat.not_le_of_gt hj), rfl⟩

end Arena

end EntityGraph

import Mathlib.Data.List.Nodup
import Mathlib.Data.List.Range
import EntityGraph.Resolution

/-!
# Histories of an arena

Entities are stored, slots are reserved and filled, and declarations request their slots, in whatever order
(`Store.Op`). The history of a run keeps each operation with its answer (`Store.run`), also those that are refused.

What the slots contain can be read off the history (`Recorded`): nothing where no id was issued, nothing yet where a
slot awaits its filling (`Awaits`), and else what was put there. The empty arena has the empty history, every operation
keeps this (`Recorded.step`), so every run does (`Recorded.run`). From it follows what an arena promises to whoever
works on it (`Store.run_writeOnce`): ids are issued in order, a slot is written once, exactly an awaited filling
succeeds, and freezing gives what was put in each place or names the first place where something is missing.
-/

namespace EntityGraph

/-- An arena with the table of the declarations that have requested slots in it. -/
structure Store where
  arena : Arena := {}
  resolutions : Resolutions := {}

namespace Store

/-- What is asked of a store. -/
inductive Op
  | alloc (m : Entity)
  | reserve
  | fill (id : EntityId) (m : Entity)
  | request (decl : DeclId) (kind : DeclKind)

/-- What was asked of a store, with its answer. -/
inductive Event
  | alloc (m : Entity) (id : EntityId)
  | reserve (id : EntityId)
  /-- A filling, and why it was refused if it was. -/
  | fill (id : EntityId) (m : Entity) (refusal : Option Breach)
  | request (decl : DeclId) (kind : DeclKind) (answer : Reservation)

/-- One operation. A filling that is refused leaves the store as it is. -/
def step (s : Store) : Op → Event × Store
  | .alloc m => (.alloc m (s.arena.alloc m).1, { s with arena := (s.arena.alloc m).2 })
  | .reserve => (.reserve s.arena.reserve.1, { s with arena := s.arena.reserve.2 })
  | .fill id m =>
    match s.arena.fill id m with
    | .ok arena => (.fill id m none, { s with arena })
    | .error refusal => (.fill id m (some refusal), s)
  | .request decl kind =>
    let (answer, resolutions, arena) := s.resolutions.reserve decl kind s.arena
    (.request decl kind answer, ⟨arena, resolutions⟩)

/-- Operations one after the other, with their history. -/
def run (s : Store) : List Op → List Event × Store
  | [] => ([], s)
  | op :: ops =>
    let (e, s) := s.step op
    let (rest, s) := s.run ops
    (e :: rest, s)

/-! ## What a history tells -/

/-- The slot that an operation reserved. -/
def Event.reserved? : Event → Option EntityId
  | reserve id | request _ _ (.fresh id) => some id
  | _ => none

/-- The id that an operation issued. -/
def Event.issued? : Event → Option EntityId
  | alloc _ id => some id
  | e => e.reserved?

/-- The slot that an operation filled. -/
def Event.filled? : Event → Option EntityId
  | fill id _ none => some id
  | _ => none

/-- The entity that an operation put into a slot. -/
def Event.put? : Event → Option (EntityId × Entity)
  | alloc m id | fill id m none => some (id, m)
  | _ => none

/-- The ids that were issued, in order. -/
def issued (h : List Event) : List EntityId := h.filterMap Event.issued?

/-- The entities that were put into slots. -/
def puts (h : List Event) : List (EntityId × Entity) := h.filterMap Event.put?

/-- The slot was reserved and has not been filled. -/
def Awaits (h : List Event) (id : EntityId) : Prop :=
  (∃ e ∈ h, e.reserved? = some id) ∧ ¬∃ e ∈ h, e.filled? = some id

theorem Event.issued?_of_reserved? {e : Event} {id : EntityId} (h : e.reserved? = some id) :
    e.issued? = some id ∧ e.filled? = none ∧ e.put? = none := by
  cases e with
  | reserve => exact ⟨h, rfl, rfl⟩
  | request _ _ answer => exact ⟨h, rfl, rfl⟩
  | _ => cases h

theorem issued_append (h : List Event) (e : Event) : issued (h ++ [e]) = issued h ++ e.issued?.toList := by
  cases he : e.issued? <;> simp [issued, he]

theorem puts_append (h : List Event) (e : Event) : puts (h ++ [e]) = puts h ++ e.put?.toList := by
  cases he : e.put? <;> simp [puts, he]

theorem awaits_append {h : List Event} {e : Event} {id : EntityId} :
    Awaits (h ++ [e]) id ↔
      ((∃ e ∈ h, e.reserved? = some id) ∨ e.reserved? = some id) ∧
        (¬∃ e ∈ h, e.filled? = some id) ∧ e.filled? ≠ some id := by
  simp [Awaits, or_and_right, exists_or]

/-- A slot that was filled has something put into it. -/
theorem exists_put_of_filled {h : List Event} {id : EntityId} (hid : ∃ e ∈ h, e.filled? = some id) :
    ∃ m, (id, m) ∈ puts h := by
  obtain ⟨e, he, hfilled⟩ := hid
  cases e with
  | fill i m refusal =>
    cases refusal with
    | none =>
      cases hfilled
      exact ⟨m, List.mem_filterMap.mpr ⟨_, he, rfl⟩⟩
    | some => cases hfilled
  | _ => cases hfilled

/-! ## What the slots contain -/

/-- The slots contain what the history tells. -/
structure Recorded (h : List Event) (a : Arena) : Prop where
  issued : issued h = (List.range a.slots.size).map EntityId.mk
  awaits {id : EntityId} : a.get? id = some none ↔ Awaits h id
  contains {id : EntityId} {m : Entity} : a.get? id = some (some m) ↔ (id, m) ∈ puts h
  once : ((puts h).map (·.1)).Nodup

namespace Recorded

variable {h : List Event} {a b : Arena} {e : Event} {id : EntityId} {m : Entity}

theorem mem_issued (hr : Recorded h a) : id ∈ Store.issued h ↔ id.index < a.slots.size := by
  obtain ⟨i⟩ := id
  simp [hr.issued]

/-- Where an entity was put, nothing awaits its filling. -/
theorem not_put_of_awaits (hr : Recorded h a) (hid : Awaits h id) : (id, m) ∉ puts h := by
  intro hput
  rw [← hr.contains, hr.awaits.mpr hid] at hput
  cases hput

theorem not_put_of_nextId (hr : Recorded h a) : (a.nextId, m) ∉ puts h := by
  intro hput
  rw [← hr.contains, Arena.get?_nextId] at hput
  cases hput

/-- Putting an entity where none was put. -/
theorem once_append (hr : Recorded h a) (hid : ∀ m, (id, m) ∉ puts h) (he : e.put? = some (id, m)) :
    ((puts (h ++ [e])).map (·.1)).Nodup := by
  have hnew : id ∉ (puts h).map (·.1) := by
    intro hmem
    obtain ⟨⟨_, m'⟩, hput, rfl⟩ := List.mem_map.mp hmem
    exact hid m' hput
  rw [puts_append, he, Option.toList_some, List.map_append]
  exact List.nodup_append.mpr ⟨hr.once, List.nodup_singleton _, fun i hi j hj heq => by
    obtain rfl := List.mem_singleton.mp hj
    exact hnew (heq ▸ hi)⟩

/-! ### Steps -/

/-- An operation that neither issues an id nor puts an entity anywhere. -/
theorem idle (hr : Recorded h a) (hissued : e.issued? = none) (hreserved : e.reserved? = none)
    (hfilled : e.filled? = none) (hput : e.put? = none) : Recorded (h ++ [e]) a where
  issued := by rw [issued_append, hissued, hr.issued, Option.toList_none, List.append_nil]
  awaits {id} := by
    rw [hr.awaits, awaits_append, hreserved, hfilled]
    simp [Awaits]
  contains {id m} := by rw [hr.contains, puts_append, hput, Option.toList_none, List.append_nil]
  once := by
    rw [puts_append, hput, Option.toList_none, List.append_nil]
    exact hr.once

theorem alloc (hr : Recorded h a) (m : Entity) : Recorded (h ++ [.alloc m a.nextId]) (a.alloc m).2 where
  issued := by
    rw [issued_append, hr.issued, Arena.alloc, Array.size_push, List.range_succ, List.map_append]
    rfl
  awaits {id} := by
    rw [Arena.get?_alloc_eq_empty_iff, hr.awaits, awaits_append]
    simp [Awaits, Event.reserved?, Event.filled?]
  contains {id m'} := by
    rw [puts_append, List.mem_append, Arena.get?_alloc]
    by_cases hid : id = a.nextId
    · subst hid
      simp [hr.not_put_of_nextId, Event.put?, eq_comm]
    · simp [hid, hr.contains, Event.put?]
  once := hr.once_append (fun _ => hr.not_put_of_nextId) rfl

theorem reserve (hr : Recorded h a) (he : e.reserved? = some a.nextId) : Recorded (h ++ [e]) a.reserve.2 where
  issued := by
    rw [issued_append, (Event.issued?_of_reserved? he).1, hr.issued, Arena.reserve, Array.size_push, List.range_succ,
      List.map_append]
    rfl
  awaits {id} := by
    rw [Arena.get?_reserve, awaits_append, he, (Event.issued?_of_reserved? he).2.1]
    by_cases hid : id = a.nextId
    · subst hid
      -- The slot is new: nothing was put there, so no operation has filled it.
      have hfilled : ¬∃ e ∈ h, e.filled? = some a.nextId := fun hfilled => by
        obtain ⟨m, hput⟩ := exists_put_of_filled hfilled
        exact hr.not_put_of_nextId hput
      simp [hfilled]
    · simp [hid, Ne.symm hid, hr.awaits, Awaits]
  contains {id m} := by
    rw [puts_append, (Event.issued?_of_reserved? he).2.2, Option.toList_none, List.append_nil, ← hr.contains]
    constructor
    · exact Arena.get?_of_reserve
    · exact Arena.get?_reserve_of_get?
  once := by
    rw [puts_append, (Event.issued?_of_reserved? he).2.2, Option.toList_none, List.append_nil]
    exact hr.once

theorem fill (hr : Recorded h a) (hfill : a.fill id m = .ok b) : Recorded (h ++ [.fill id m none]) b := by
  have hopen : a.get? id = some none := (Arena.fill_eq_ok_iff.mp hfill).1
  have hput : ∀ m', (id, m') ∉ puts h := fun m' => hr.not_put_of_awaits (hr.awaits.mp hopen)
  constructor
  case issued =>
    obtain ⟨_, rfl⟩ := Arena.fill_eq_ok_iff.mp hfill
    rw [issued_append, hr.issued, Array.size_setIfInBounds]
    exact List.append_nil _
  case awaits =>
    intro i
    rw [Arena.get?_of_fill hfill, awaits_append]
    by_cases hi : i = id
    · simp [hi, Event.filled?]
    · simp [hi, Ne.symm hi, hr.awaits, Awaits, Event.filled?, Event.reserved?]
  case contains =>
    intro i m'
    rw [Arena.get?_of_fill hfill, puts_append, List.mem_append]
    by_cases hi : i = id
    · subst hi
      simp [hput, Event.put?, eq_comm]
    · simp [hi, hr.contains, Event.put?]
  case once => exact hr.once_append hput rfl

end Recorded

section

variable {h : List Event} {s : Store}

/-- Every operation is recorded. -/
theorem Recorded.step (hr : Recorded h s.arena) (op : Op) :
    Recorded (h ++ [(s.step op).1]) (s.step op).2.arena := by
  cases op with
  | alloc m => exact hr.alloc m
  | reserve => exact hr.reserve rfl
  | fill id m =>
    cases hfill : s.arena.fill id m with
    | ok b =>
      simp only [Store.step, hfill]
      exact hr.fill hfill
    | error refusal =>
      simp only [Store.step, hfill]
      exact hr.idle rfl rfl rfl rfl
  | request decl kind =>
    cases hfound : s.resolutions.lookup? decl with
    | none =>
      simp only [Store.step, Resolutions.reserve_of_open hfound]
      exact hr.reserve rfl
    | some r =>
      simp only [Store.step, Resolutions.reserve_of_settled hfound]
      exact hr.idle rfl rfl rfl rfl

/-- Every run is recorded. -/
theorem Recorded.run (hr : Recorded h s.arena) (ops : List Op) :
    Recorded (h ++ (s.run ops).1) (s.run ops).2.arena := by
  induction ops generalizing h s with
  | nil => exact (List.append_nil h).symm ▸ hr
  | cons op ops ih =>
    have hrest := ih (hr.step op)
    rwa [List.append_assoc] at hrest

/-- A store in which nothing was done. -/
theorem Recorded.start : Recorded [] {} where
  issued := rfl
  awaits := by simp [Awaits, Arena.get?]
  contains := by simp [puts, Arena.get?]
  once := List.nodup_nil

end

/-! ## What an arena promises -/

/-- An entity stays where it is. -/
theorem get?_step {s : Store} {id : EntityId} {m : Entity} (h : s.arena.get? id = some (some m)) (op : Op) :
    (s.step op).2.arena.get? id = some (some m) := by
  cases op with
  | alloc m' => exact Arena.get?_alloc_of_get? h m'
  | reserve => exact Arena.get?_reserve_of_get? h
  | fill i m' =>
    cases hfill : s.arena.fill i m' with
    | ok a =>
      simp only [step, hfill]
      exact Arena.get?_fill_of_get? h hfill
    | error refusal =>
      simp only [step, hfill]
      exact h
  | request decl kind =>
    cases hfound : s.resolutions.lookup? decl with
    | none =>
      simp only [step, Resolutions.reserve_of_open hfound]
      exact Arena.get?_reserve_of_get? h
    | some r =>
      simp only [step, Resolutions.reserve_of_settled hfound]
      exact h

theorem get?_run {s : Store} {id : EntityId} {m : Entity} (h : s.arena.get? id = some (some m)) (ops : List Op) :
    (s.run ops).2.arena.get? id = some (some m) := by
  induction ops generalizing s with
  | nil => exact h
  | cons op ops ih => exact ih (get?_step h op)

/-- What an arena promises after a history, about the next operations and about its freezing. -/
structure WriteOnce (h : List Event) (s : Store) : Prop where
  /-- The ids are issued as 0, 1, 2 and so on. -/
  inOrder : issued h = (List.range (issued h).length).map EntityId.mk
  distinct : (issued h).Nodup
  /-- No two entities were put into one slot. -/
  putOnce : ((puts h).map (·.1)).Nodup
  fills (id : EntityId) (m : Entity) : (∃ a, s.arena.fill id m = .ok a) ↔ Awaits h id
  /-- A filling that succeeds changes the slot and no other. -/
  changes {id : EntityId} {m : Entity} {a : Arena} : s.arena.fill id m = .ok a →
    s.step (.fill id m) = (.fill id m none, { s with arena := a }) ∧
      ∀ i, a.get? i = if i = id then some (some m) else s.arena.get? i
  /-- A filling that is refused changes nothing. -/
  refuses {id : EntityId} (m : Entity) : ¬Awaits h id →
    s.step (.fill id m) = (.fill id m (some (if id ∈ issued h then .filledTwice id else .neverReserved id)), s)
  /-- What is in a slot stays there, whatever is done. -/
  keeps {id : EntityId} {m : Entity} (ops : List Op) : s.arena.get? id = some (some m) →
    (s.run ops).2.arena.get? id = some (some m)
  freezes : (∃ ms, s.arena.freeze = .ok ms) ↔
    ∀ id, (∃ e ∈ h, e.reserved? = some id) → ∃ e ∈ h, e.filled? = some id
  /-- In each place there is what was put there. -/
  gives {ms : List Entity} : s.arena.freeze = .ok ms →
    ms.length = (issued h).length ∧ ∀ i m, ms[i]? = some m ↔ (⟨i⟩, m) ∈ puts h
  /-- Where something is missing, the freezing fails with the first such place. -/
  names {id : EntityId} : Awaits h id →
    ∃ first, s.arena.freeze = .error (.neverFilled first) ∧ Awaits h first ∧
      ∀ i, Awaits h i → first.index ≤ i.index

namespace Recorded

variable {h : List Event} {s : Store}

/-- A filling that is refused, with its reason. -/
theorem fill_eq_error {a : Arena} {id : EntityId} (hr : Recorded h a) (hid : ¬Awaits h id) (m : Entity) :
    a.fill id m = .error (if id ∈ Store.issued h then .filledTwice id else .neverReserved id) := by
  rw [← hr.awaits] at hid
  unfold Arena.fill
  split
  · next hnone =>
    have hnew : id ∉ Store.issued h := by
      rw [hr.mem_issued, Nat.not_lt]
      exact Array.getElem?_eq_none_iff.mp hnone
    rw [if_neg hnew]
  · next m' hsome =>
    have hmem : id ∈ Store.issued h := hr.mem_issued.mpr (Array.getElem?_eq_some_iff.mp hsome).1
    rw [if_pos hmem]
  · next hopen => exact absurd hopen hid

theorem exists_error_of_awaits {a : Arena} {id : EntityId} (hr : Recorded h a) (hid : Awaits h id) :
    ∃ first, a.freeze = .error (.neverFilled first) ∧ Awaits h first ∧ ∀ i, Awaits h i → first.index ≤ i.index := by
  cases hfreeze : a.freeze with
  | ok ms =>
    -- All slots of an arena that freezes are full.
    have hopen : a.slots[id.index]? = some none := hr.awaits.mpr hid
    rw [← Array.getElem?_toList, Arena.freeze_eq_ok_iff.mp hfreeze, List.getElem?_map] at hopen
    obtain ⟨_, _, hnone⟩ := Option.map_eq_some_iff.mp hopen
    cases hnone
  | error b =>
    obtain ⟨first, hopen, hfirst, rfl⟩ := Arena.freeze_eq_error_iff.mp hfreeze
    exact ⟨first, rfl, hr.awaits.mp hopen, fun i hi => hfirst i (hr.awaits.mpr hi)⟩

theorem freeze_iff {a : Arena} (hr : Recorded h a) : (∃ ms, a.freeze = .ok ms) ↔ ∀ id, ¬Awaits h id := by
  constructor
  · rintro ⟨ms, hms⟩ id hid
    obtain ⟨_, herror, _⟩ := hr.exists_error_of_awaits hid
    rw [hms] at herror
    cases herror
  · intro hfull
    cases hfreeze : a.freeze with
    | ok ms => exact ⟨ms, rfl⟩
    | error b =>
      obtain ⟨first, hopen, _⟩ := Arena.freeze_eq_error_iff.mp hfreeze
      exact absurd (hr.awaits.mp hopen) (hfull first)

theorem getElem?_of_freeze {a : Arena} {ms : List Entity} (hr : Recorded h a) (hms : a.freeze = .ok ms) (i : Nat)
    (m : Entity) : ms[i]? = some m ↔ (⟨i⟩, m) ∈ puts h := by
  rw [← hr.contains, Arena.get?, ← Array.getElem?_toList, Arena.freeze_eq_ok_iff.mp hms, List.getElem?_map]
  simp

/-- What the history tells is all that the promises need. -/
theorem writeOnce (hr : Recorded h s.arena) : WriteOnce h s := by
  have hlength : (Store.issued h).length = s.arena.slots.size := by simp [hr.issued]
  constructor
  case inOrder => rw [hlength, ← hr.issued]
  case distinct =>
    rw [hr.issued]
    exact List.nodup_range.map fun i j hij => congrArg EntityId.index hij
  case putOnce => exact hr.once
  case fills =>
    intro id m
    rw [← hr.awaits]
    exact ⟨fun ⟨_, ha⟩ => (Arena.fill_eq_ok_iff.mp ha).1, fun hopen => ⟨_, Arena.fill_eq_ok_iff.mpr ⟨hopen, rfl⟩⟩⟩
  case changes =>
    intro id m a ha
    exact ⟨by simp only [Store.step, ha], Arena.get?_of_fill ha⟩
  case refuses =>
    intro id m hid
    simp only [Store.step, hr.fill_eq_error hid]
  case keeps => exact fun ops hm => get?_run hm ops
  case freezes =>
    rw [hr.freeze_iff]
    simp only [Awaits, not_and, not_not]
  case gives =>
    intro ms hms
    refine ⟨?_, hr.getElem?_of_freeze hms⟩
    rw [hlength, ← Array.length_toList, Arena.freeze_eq_ok_iff.mp hms, List.length_map]
  case names => exact fun hid => hr.exists_error_of_awaits hid

end Recorded

/-- Whatever is done to an empty arena, and whatever the table of declarations knows already, the arena keeps its
promises after every operation. -/
theorem run_writeOnce (t : Resolutions) (ops : List Op) :
    WriteOnce (run { resolutions := t } ops).1 (run { resolutions := t } ops).2 :=
  (Recorded.start.run (s := { resolutions := t }) ops).writeOnce

/-- The filling of a slot that was not reserved is refused, and freezing names the slot that still is. -/
example : (run {} [.reserve, .alloc (.unknown "a"), .fill ⟨1⟩ (.unknown "b")]).2.arena.freeze =
    .error (.neverFilled ⟨0⟩) := rfl

end Store

end EntityGraph

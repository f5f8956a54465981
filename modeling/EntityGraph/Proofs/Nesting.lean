import Mathlib.Data.List.MinMax
import Mathlib.Order.Nat
import EntityGraph.Json.Reader

/-!
# Nesting of values

`Json.nesting` is the greatest number of arrays and objects that are open at once in a value. What lies inside a value
is nested less (`Json.Inside.nesting_lt`), the canonical form is not nested deeper than the value
(`Json.nesting_canonical_le`), and a value that is read from a text is nested no deeper than the reader allows
(`Json.nesting_of_ofText`).
-/

namespace EntityGraph

namespace Json

/-- How many arrays and objects are open at once in a value, where they are most. -/
def nesting : Json → Nat
  | arr items => (items.map nesting).foldr max 0 + 1
  | obj fields => (fields.map fun field => field.2.nesting).foldr max 0 + 1
  | null | bool _ | num _ | str _ => 0
termination_by v => sizeOf v
decreasing_by
  · next h => exact sizeOf_lt_of_mem_parts h
  · next h => exact sizeOf_lt_of_mem_parts (List.mem_map_of_mem h)

theorem nesting_lt_of_mem_parts {part whole : Json} (h : part ∈ whole.parts) : part.nesting < whole.nesting := by
  cases whole with
  | arr items =>
    rw [nesting]
    apply Nat.lt_succ_of_le
    exact List.le_max_of_le (List.mem_map_of_mem h) (Nat.le_refl _)
  | obj fields =>
    obtain ⟨field, hfield, rfl⟩ := List.mem_map.mp h
    rw [nesting]
    apply Nat.lt_succ_of_le
    exact List.le_max_of_le (List.mem_map_of_mem hfield) (Nat.le_refl _)
  | _ => cases h

/-- A value is nested once more than its parts. -/
theorem nesting_le {v : Json} {room : Nat} (h : ∀ part ∈ v.parts, part.nesting ≤ room) : v.nesting ≤ room + 1 := by
  cases v with
  | arr items =>
    rw [nesting]
    apply Nat.succ_le_succ
    apply List.max_le_of_forall_le
    intro k hk
    obtain ⟨item, hitem, rfl⟩ := List.mem_map.mp hk
    exact h item hitem
  | obj fields =>
    rw [nesting]
    apply Nat.succ_le_succ
    apply List.max_le_of_forall_le
    intro k hk
    obtain ⟨field, hfield, rfl⟩ := List.mem_map.mp hk
    exact h field.2 (List.mem_map_of_mem hfield)
  | null | bool | num | str =>
    rw [nesting]
    omega

/-- What lies inside a value is nested less. -/
theorem Inside.nesting_lt {part whole : Json} (h : part.Inside whole) : part.nesting < whole.nesting := by
  induction h with
  | direct h => exact nesting_lt_of_mem_parts h
  | deeper _ h ih => exact Nat.lt_trans ih (nesting_lt_of_mem_parts h)

/-! ## The canonical form -/

theorem mem_putField {key : String} {value : Json} {f : String × Json} : ∀ {fields : List (String × Json)},
    f ∈ putField key value fields → f = (key, value) ∨ f ∈ fields
  | [], h => .inl (List.mem_singleton.mp h)
  | (k, v) :: rest, h => by
    unfold putField at h
    split at h
    · exact List.mem_cons.mp h
    · split at h
      · exact (List.mem_cons.mp h).imp_right (List.mem_cons_of_mem _)
      · rcases List.mem_cons.mp h with rfl | h
        · exact .inr List.mem_cons_self
        · exact (mem_putField h).imp_right (List.mem_cons_of_mem _)

/-- An object that is built from fields holds no others. -/
theorem mem_parts_ofFields {fields : List (String × Json)} {v : Json} (h : v ∈ (ofFields fields).parts) :
    v ∈ fields.map (·.2) := by
  have fold : ∀ (fields before : List (String × Json)) (f : String × Json),
      f ∈ fields.foldl (fun sorted field => putField field.1 field.2 sorted) before → f ∈ fields ∨ f ∈ before := by
    intro fields
    induction fields with
    | nil => exact fun _ _ hf => .inr hf
    | cons field rest ih =>
      intro before f hf
      rcases ih _ f hf with hrest | hput
      · exact .inl (List.mem_cons_of_mem _ hrest)
      · rcases mem_putField hput with rfl | hbefore
        · exact .inl List.mem_cons_self
        · exact .inr hbefore
  obtain ⟨f, hf, rfl⟩ := List.mem_map.mp h
  rcases fold fields [] f hf with hmem | hnone
  · exact List.mem_map_of_mem hmem
  · cases hnone

/-- The parts of a value in canonical form are those of the value, in canonical form. -/
theorem exists_part_of_mem_canonical {v w : Json} (h : w ∈ v.canonical.parts) :
    ∃ part ∈ v.parts, w = part.canonical := by
  cases v with
  | arr items =>
    rw [canonical] at h
    obtain ⟨item, hitem, rfl⟩ := List.mem_map.mp h
    exact ⟨item, hitem, rfl⟩
  | obj fields =>
    rw [canonical] at h
    have hfields := mem_parts_ofFields h
    rw [List.map_map] at hfields
    obtain ⟨field, hfield, rfl⟩ := List.mem_map.mp hfields
    exact ⟨field.2, List.mem_map_of_mem hfield, rfl⟩
  | null | bool | num | str => simp [canonical, parts] at h

/-- To sort fields and to drop those that are repeated nests nothing deeper. -/
theorem nesting_canonical_le (v : Json) : v.canonical.nesting ≤ v.nesting := by
  have container {room : Nat} (hroom : v.nesting = room + 1) : v.canonical.nesting ≤ v.nesting := by
    rw [hroom]
    apply nesting_le
    intro w hw
    obtain ⟨part, hpart, rfl⟩ := exists_part_of_mem_canonical hw
    have := nesting_canonical_le part
    have := nesting_lt_of_mem_parts hpart
    omega
  cases v with
  | arr | obj => exact container (by rw [nesting])
  | null | bool | num | str => simp [canonical]
termination_by sizeOf v
decreasing_by exact sizeOf_lt_of_mem_parts hpart

end Json

/-! ## Reading -/

namespace Reader

open Json (nesting nesting_le)

variable {α β : Type} {P : α → Prop} {room : Nat} {s start : List Char}

/-- What a step reads, if it reads anything, is such that `P`. -/
def Reads (P : α → Prop) (outcome : Outcome α s) : Prop := ∀ p, outcome = .ok p → P p.result

namespace Reads

theorem error (e : ReadError) : Reads P (.error e : Outcome α s) := fun _ h => nomatch h

theorem misplaced (t : List Char) : Reads P (misplaced t : Outcome α s) := by
  cases t with
  | nil => exact .error _
  | cons => exact .error _

theorem ok {result : α} {rest : List Char} {h : rest.length < s.length} (hresult : P result) :
    Reads P (.ok ⟨result, rest, h⟩ : Outcome α s) := by
  intro p hp
  cases hp
  exact hresult

theorem bind {x : Except ReadError β} {f : β → Outcome α s} (h : ∀ q, x = .ok q → Reads P (f q)) :
    Reads P (x >>= f) := by
  cases x with
  | error e => exact .error e
  | ok q => exact h q rfl

end Reads

/-- No more than `room` arrays and objects are open at once in a value. -/
abbrev Fits (room : Nat) (v : Json) : Prop := v.nesting ≤ room

section

variable {element : (s : List Char) → Outcome Json s} (helement : ∀ s, Reads (Fits room) (element s))

include helement

theorem itemsFrom_reads {s : List Char} {before : List Json} (hbefore : ∀ v ∈ before, Fits room v)
    (h : s.length ≤ start.length) : Reads (Fits (room + 1)) (itemsFrom element start before s h) := by
  have harray : Fits (room + 1) (.arr before.reverse) := by
    apply nesting_le
    intro v hv
    exact hbefore v (List.mem_reverse.mp hv)
  rw [itemsFrom]
  split
  · exact .ok harray
  · next rest hs =>
    refine .bind fun q hitem => ?_
    obtain ⟨item, afterItem, shorter⟩ := q
    have hblank := length_skipBlank_le s
    have hblank' := length_skipBlank_le rest
    rw [hs, List.length_cons] at hblank
    have hafter : afterItem.length < s.length := by omega
    refine itemsFrom_reads (fun v hv => ?_) _
    rcases List.mem_cons.mp hv with rfl | hv
    · exact helement _ _ hitem
    · exact hbefore v hv
  · exact .misplaced _
termination_by s.length

/-- An array is nested once more than its items. -/
theorem items_reads (s : List Char) : Reads (Fits (room + 1)) (items element s) := by
  unfold items
  split
  · exact .ok (nesting_le fun _ hv => nomatch hv)
  · refine .bind fun q hitem => ?_
    obtain ⟨item, afterItem, shorter⟩ := q
    refine itemsFrom_reads helement (fun v hv => ?_) _
    rw [List.mem_singleton.mp hv]
    exact helement _ _ hitem

theorem field_reads (s : List Char) : Reads (fun f => Fits room f.2) (field element s) := by
  unfold field
  split
  · refine .bind fun key _ => ?_
    dsimp only
    split
    · refine .bind fun q hvalue => ?_
      exact .ok (helement _ _ hvalue)
    · exact .misplaced _
  · exact .misplaced _

theorem fieldsFrom_reads {s : List Char} {before : List (String × Json)} (hbefore : ∀ f ∈ before, Fits room f.2)
    (h : s.length ≤ start.length) : Reads (Fits (room + 1)) (fieldsFrom element start before s h) := by
  have hobject : Fits (room + 1) (.obj before.reverse) := by
    apply nesting_le
    intro v hv
    obtain ⟨f, hf, rfl⟩ := List.mem_map.mp hv
    exact hbefore f (List.mem_reverse.mp hf)
  rw [fieldsFrom]
  split
  · exact .ok hobject
  · next rest hs =>
    refine .bind fun q hfield => ?_
    obtain ⟨entry, afterField, shorter⟩ := q
    have hblank := length_skipBlank_le s
    have hblank' := length_skipBlank_le rest
    rw [hs, List.length_cons] at hblank
    have hafter : afterField.length < s.length := by omega
    refine fieldsFrom_reads (fun f hf => ?_) _
    rcases List.mem_cons.mp hf with rfl | hf
    · exact field_reads helement _ _ hfield
    · exact hbefore f hf
  · exact .misplaced _
termination_by s.length

/-- An object is nested once more than the values of its fields. -/
theorem fields_reads (s : List Char) : Reads (Fits (room + 1)) (fields element s) := by
  unfold fields
  split
  · exact .ok (nesting_le fun _ hv => nomatch hv)
  · refine .bind fun q hfield => ?_
    obtain ⟨entry, afterField, shorter⟩ := q
    refine fieldsFrom_reads helement (fun f hf => ?_) _
    rw [List.mem_singleton.mp hf]
    exact field_reads helement _ _ hfield

end

theorem wordValue_reads {v : Json} (hv : Fits room v) (letters s : List Char) (c : Char) :
    Reads (Fits room) (wordValue letters v s c) :=
  .bind fun _ _ => .ok hv

theorem unsigned_reads (signed : Bool) (s : List Char) : Reads (Fits room) (unsigned signed s) := by
  refine .bind fun whole _ => .bind fun fraction _ => .bind fun power _ => ?_
  dsimp only
  split
  · exact .ok (by simp [nesting])
  · exact .error _

/-- A value other than an array or object opens nothing. -/
theorem scalar_reads (s : List Char) : Reads (Fits room) (scalar s) := by
  unfold scalar
  split
  · exact .error _
  · exact wordValue_reads (by simp [nesting]) _ _ _
  · exact wordValue_reads (by simp [nesting]) _ _ _
  · exact wordValue_reads (by simp [nesting]) _ _ _
  · exact .bind fun text _ => .ok (by simp [nesting])
  · exact .bind fun number hnumber => .ok (unsigned_reads _ _ _ hnumber)
  · split
    · exact unsigned_reads _ _
    · exact .error _

/-- No more arrays and objects are open at once than there is room for. -/
theorem value_reads (room : Nat) : ∀ s, Reads (Fits room) (value room s) := by
  induction room with
  | zero =>
    intro s
    unfold value
    split
    · exact .error _
    · exact .error _
    · exact scalar_reads _
  | succ room ih =>
    intro s
    unfold value
    split
    · exact .bind fun array harray => .ok (items_reads ih _ _ harray)
    · exact .bind fun object hobject => .ok (fields_reads ih _ _ hobject)
    · exact scalar_reads _

end Reader

theorem Json.nesting_of_asWritten {text : String} {v : Json} (h : asWritten text = .ok v) : v.nesting ≤ maxNesting := by
  unfold asWritten at h
  cases hvalue : Reader.value maxNesting (Reader.skipBlank text.toList) with
  | error e =>
    rw [hvalue] at h
    cases h
  | ok p =>
    have hread := Reader.value_reads _ _ p hvalue
    rw [hvalue] at h
    dsimp only [bind, Except.bind] at h
    split at h
    · cases h
      exact hread
    · cases h

/-- A value that is read from a text is nested no deeper than the reader allows. -/
theorem Json.nesting_of_ofText {text : String} {v : Json} (h : ofText text = .ok v) : v.nesting ≤ maxNesting := by
  unfold ofText at h
  cases hwritten : asWritten text with
  | error e =>
    rw [hwritten] at h
    cases h
  | ok w =>
    rw [hwritten] at h
    cases h
    exact Nat.le_trans (nesting_canonical_le w) (nesting_of_asWritten hwritten)

end EntityGraph

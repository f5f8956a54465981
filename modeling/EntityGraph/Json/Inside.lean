import EntityGraph.Json.Basic

/-!
# What lies inside a value

`Json.Inside` is the relation "lies properly inside". What lies inside is smaller (`Json.Inside.sizeOf_lt`), so a walk
that only descends ends; and what a look at a value finds lies inside it (`Json.inside_of_get?` and its companions).

Such a walk brings a value into canonical form (`Json.canonical`). As it is written, an object can repeat a key and has
its fields in any order. In the canonical form the fields of every object are sorted by key and none is repeated; a key
holds the value of its last field (`Json.get?_canonical`).
-/

namespace EntityGraph.Json

/-- `part` lies properly inside `whole`. -/
inductive Inside : Json → Json → Prop
  | direct {part whole : Json} : part ∈ whole.parts → Inside part whole
  | deeper {part middle whole : Json} : Inside part middle → middle ∈ whole.parts → Inside part whole

theorem sizeOf_lt_of_mem_parts {part whole : Json} (h : part ∈ whole.parts) : sizeOf part < sizeOf whole := by
  cases whole with
  | arr items =>
    have : sizeOf part < sizeOf items := List.sizeOf_lt_of_mem h
    simp only [arr.sizeOf_spec]
    omega
  | obj fields =>
    obtain ⟨⟨k, v⟩, hm, rfl⟩ := List.mem_map.mp h
    have := List.sizeOf_lt_of_mem hm
    simp only [obj.sizeOf_spec, Prod.mk.sizeOf_spec] at *
    omega
  | _ => cases h

/-- What lies inside is smaller, so a walk that only descends ends. -/
theorem Inside.sizeOf_lt {part whole : Json} (h : Inside part whole) : sizeOf part < sizeOf whole := by
  induction h with
  | direct h => exact sizeOf_lt_of_mem_parts h
  | deeper _ h ih => exact Nat.lt_trans ih (sizeOf_lt_of_mem_parts h)

theorem Inside.trans {a b c : Json} (hab : Inside a b) (hbc : Inside b c) : Inside a c := by
  induction hbc with
  | direct h => exact .deeper hab h
  | deeper _ h ih => exact .deeper ih h

/-- A field lies inside its object. -/
theorem inside_of_get? {key : String} {part whole : Json} (h : whole.get? key = some part) : Inside part whole := by
  cases whole with
  | obj fields => exact .direct (List.mem_map.mpr ⟨(key, part), mem_of_lookup h, rfl⟩)
  | _ => simp [get?] at h

/-- An item lies inside its array. -/
theorem inside_of_array? {part whole : Json} {items : List Json} (h : whole.array? = some items) (hm : part ∈ items) :
    Inside part whole := by
  cases whole with
  | arr xs =>
    obtain rfl : xs = items := Option.some.inj h
    exact .direct hm
  | _ => simp [array?] at h

/-- An item of an array that a key holds lies inside the object. -/
theorem inside_of_mem_listAt {key : String} {part whole : Json} (h : part ∈ whole.listAt key) :
    Inside part whole := by
  cases hl : whole.listAt? key with
  | none => simp [listAt, hl] at h
  | some items =>
    obtain ⟨held, hf, hi⟩ := Option.bind_eq_some_iff.mp hl
    rw [listAt, hl] at h
    exact (inside_of_array? hi h).trans (inside_of_get? hf)

/-- The object that a key holds lies inside the object that has the key. -/
theorem inside_of_objectAt? {key : String} {part whole : Json} (h : whole.objectAt? key = some part) :
    Inside part whole :=
  inside_of_get? (Option.filter_eq_some_iff.mp h).1

/-! ## The canonical form -/

/-- A value with the fields of its objects in canonical form, at any depth. -/
def canonical : Json → Json
  | arr items => arr (items.map canonical)
  | obj fields => ofFields (fields.map fun field => (field.1, field.2.canonical))
  | v => v
termination_by v => sizeOf v
decreasing_by
  · next h => exact sizeOf_lt_of_mem_parts h
  · next h => exact sizeOf_lt_of_mem_parts (List.mem_map_of_mem h)

/-- The value of a key in the canonical form of an object comes from the last field of that key. -/
theorem get?_canonical (key : String) (fields : List (String × Json)) :
    (obj fields).canonical.get? key = (fields.reverse.lookup key).map canonical := by
  have lookup_map : ∀ fields : List (String × Json),
      (fields.map fun field => (field.1, field.2.canonical)).lookup key = (fields.lookup key).map canonical := by
    intro fields
    induction fields with
    | nil => rfl
    | cons field rest ih =>
      rw [List.map_cons, lookup_cons_eq, lookup_cons_eq, ih]
      split <;> rfl
  rw [canonical, get?_ofFields, ← List.map_reverse, lookup_map]

end EntityGraph.Json

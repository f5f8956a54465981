import EntityGraph.Json.Basic
import Mathlib.Data.Option.Basic
import Mathlib.Data.List.Nodup

/-!
# Records by column

A record is written as an object that has a key for each of its columns, except that a column may leave its key out
where nothing stands (`Column`, `Column.fields`). Where the keys of the columns differ, the object shows what stands in
each of them (`Column.eq_of_lookup_eq`). So a writer loses nothing if it can be told by columns and no two values fill
the columns alike (`Column.injective_of_row`).
-/

namespace EntityGraph

/-! ## Objects without repeated keys -/

theorem lookup_eq_none_of_notMem {key : String} {fields : List (String × Json)} (h : key ∉ fields.map (·.1)) :
    fields.lookup key = none := by
  cases hlookup : fields.lookup key with
  | none => rfl
  | some v => exact absurd (List.mem_map_of_mem (mem_of_lookup hlookup)) h

/-- Where no key is repeated, the object holds each of its fields and nothing else. -/
theorem Json.get?_ofFields_eq_some_iff {key : String} {v : Json} {fields : List (String × Json)}
    (h : (fields.map (·.1)).Nodup) : (Json.ofFields fields).get? key = some v ↔ (key, v) ∈ fields := by
  rw [get?_ofFields, lookup_eq_some_iff_of_nodup (by rwa [List.map_reverse, List.nodup_reverse]), List.mem_reverse]

theorem Json.get?_ofFields_cons_eq_some_iff {key k : String} {v w : Json} {fields : List (String × Json)}
    (h : (k :: fields.map (·.1)).Nodup) :
    (Json.ofFields ((k, w) :: fields)).get? key = some v ↔ (key, v) = (k, w) ∨ (key, v) ∈ fields := by
  rw [get?_ofFields_eq_some_iff (by rwa [List.map_cons]), List.mem_cons]

/-- Where no key is repeated, the object answers as its list of fields. -/
theorem Json.get?_ofFields_of_nodup {fields : List (String × Json)} (h : (fields.map (·.1)).Nodup) (key : String) :
    (Json.ofFields fields).get? key = fields.lookup key :=
  Option.ext fun _ => (get?_ofFields_eq_some_iff h).trans (lookup_eq_some_iff_of_nodup h).symm

/-! ## Columns -/

/-- A key of a record: what may stand there and how it is written, if it is. -/
structure Column where
  key : String
  Value : Type
  write : Value → Option Json
  injective : Function.Injective write

namespace Column

variable {α : Type}

/-- A column whose key is always written. -/
def always (key : String) (encode : α → Json) (h : Function.Injective encode) : Column :=
  ⟨key, α, fun a => some (encode a), (Option.some_injective Json).comp h⟩

/-- A column whose key is left out where nothing stands. -/
def optional (key : String) (encode : α → Json) (h : Function.Injective encode) : Column :=
  ⟨key, Option α, Option.map encode, Option.map_injective h⟩

/-- What stands in each of these columns. -/
def Row : List Column → Type
  | [] => Unit
  | c :: cs => c.Value × Row cs

/-- The fields that are written for a row, in the order of the columns. -/
def fields : (cs : List Column) → Row cs → List (String × Json)
  | [], _ => []
  | c :: cs, row => Json.optionalField c.key id (c.write row.1) ++ fields cs row.2

/-- A row as an object. -/
def rowToJson (cs : List Column) (row : Row cs) : Json := .ofFields (fields cs row)

/-- The first column answers for its own key, where it writes it, and the others for the rest. -/
theorem lookup_fields_cons (c : Column) (cs : List Column) (row : Row (c :: cs)) (key : String) :
    (fields (c :: cs) row).lookup key =
      if key = c.key then (c.write row.1).or ((fields cs row.2).lookup key) else (fields cs row.2).lookup key := by
  rw [fields, List.lookup_append]
  cases c.write row.1 with
  | none => simp [Json.optionalField]
  | some v =>
    rw [Json.optionalField, lookup_cons_eq]
    split <;> rfl

/-- The keys that are written are keys of the columns, in their order. -/
theorem keys_fields_sublist : ∀ (cs : List Column) (row : Row cs),
    ((fields cs row).map (·.1)).Sublist (cs.map Column.key)
  | [], _ => .slnil
  | c :: cs, row => by
    rw [fields, List.map_append, List.map_cons, ← List.singleton_append]
    refine List.Sublist.append ?_ (keys_fields_sublist cs row.2)
    cases c.write row.1 with
    | none => exact List.nil_sublist _
    | some v => exact List.Sublist.refl _

theorem nodup_keys_fields (cs : List Column) (hcs : (cs.map Column.key).Nodup) (row : Row cs) :
    ((fields cs row).map (·.1)).Nodup :=
  hcs.sublist (keys_fields_sublist cs row)

/-- The fields of a row tell what stands in each column. -/
theorem eq_of_lookup_eq : ∀ {cs : List Column} {row row' : Row cs}, (cs.map Column.key).Nodup →
    (∀ key, (fields cs row).lookup key = (fields cs row').lookup key) → row = row'
  | [], _, _, _, _ => rfl
  | c :: cs, row, row', hcs, h => by
    obtain ⟨hc, hcs⟩ := List.nodup_cons.mp hcs
    have hrest : ∀ row : Row cs, (fields cs row).lookup c.key = none := fun row =>
      lookup_eq_none_of_notMem fun hmem => hc ((keys_fields_sublist cs row).subset hmem)
    have hhead : row.1 = row'.1 := by
      have := h c.key
      rw [lookup_fields_cons, lookup_fields_cons, if_pos rfl, if_pos rfl, hrest, hrest, Option.or_none, Option.or_none]
        at this
      exact c.injective this
    have htail : row.2 = row'.2 := by
      refine eq_of_lookup_eq hcs fun key => ?_
      by_cases hkey : key = c.key
      · rw [hkey, hrest, hrest]
      · simpa only [lookup_fields_cons, if_neg hkey] using h key
    exact Prod.ext hhead htail

/-- Where the keys of the columns differ, a row is written without loss. -/
theorem rowToJson_injective (cs : List Column) (hcs : (cs.map Column.key).Nodup) :
    Function.Injective (rowToJson cs) := by
  intro row row' h
  refine eq_of_lookup_eq hcs fun key => ?_
  rw [← Json.get?_ofFields_of_nodup (nodup_keys_fields cs hcs row),
    ← Json.get?_ofFields_of_nodup (nodup_keys_fields cs hcs row')]
  exact congrArg (Json.get? key) h

/-- What is written column by column is written without loss, if the columns show all of it. -/
theorem injective_of_row {encode : α → Json} (cs : List Column) (hcs : (cs.map Column.key).Nodup) (row : α → Row cs)
    (hrow : Function.Injective row) (h : ∀ a, encode a = rowToJson cs (row a)) : Function.Injective encode := by
  rw [funext h]
  exact (rowToJson_injective cs hcs).comp hrow

end Column

end EntityGraph

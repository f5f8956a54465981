import EntityGraph.Json.Basic

/-!
# Records

A record with a fixed list of fields is written either as an object, by key, or as an array, by position
(`Record.ofJson?`). In an object unknown keys are ignored; an array may end early but not hold more values than there
are fields. `Record.field?` reads a field with a default for its absence; `null` is a value and not an absence.
-/

namespace EntityGraph

/-- A record by what stands in each field. -/
structure Record where
  at? : String → Option Json

namespace Record

/-- The record with these fields, for an object or an array that is not too long. -/
def ofJson? (names : List String) : Json → Option Record
  | .obj fields => some ⟨fun name => fields.lookup name⟩
  | .arr items => if items.length ≤ names.length then some ⟨fun name => items[names.idxOf name]?⟩ else none
  | _ => none

/-- The field of a name as `read` reads it, or its default where it is absent. -/
def field? {α : Type} (r : Record) (name : String) (default : α) (read : Json → Option α) : Option α :=
  match r.at? name with
  | some v => read v
  | none => some default

end Record

namespace Json

/-- Reads a value that may be `null`. -/
def nullable? {α : Type} (read : Json → Option α) : Json → Option (Option α)
  | null => some none
  | v => (read v).map some

/-- Reads every item of an array. -/
def list? {α : Type} (read : Json → Option α) : Json → Option (List α)
  | arr items => items.mapM read
  | _ => none

end Json

end EntityGraph

import EntityGraph.Json.Record

/-!
# Flags of a declaration

The modifiers of a declaration, all false where nothing is said. Flags are written as an object with all nine fields
(`Flags.toJson`) and read as a record (`Flags.ofJson?`).
-/

namespace EntityGraph

/-- The modifiers of a declaration. -/
structure Flags where
  isConst : Bool := false
  isExported : Bool := false
  isExternal : Bool := false
  isOptional : Bool := false
  isPrivate : Bool := false
  isProtected : Bool := false
  isPublic : Bool := false
  isStatic : Bool := false
  isAbstract : Bool := false
deriving DecidableEq, Inhabited

namespace Flags

/-- The fields in the order in which an array gives them. -/
def fieldNames : List String :=
  ["isConst", "isExported", "isExternal", "isOptional", "isPrivate", "isProtected", "isPublic", "isStatic",
    "isAbstract"]

/-- Reads flags; one field that is no truth value spoils all. -/
def ofJson? (v : Json) : Option Flags := do
  let r ← Record.ofJson? fieldNames v
  let flag := fun name => r.field? name false Json.bool?
  return {
    isConst := ← flag "isConst"
    isExported := ← flag "isExported"
    isExternal := ← flag "isExternal"
    isOptional := ← flag "isOptional"
    isPrivate := ← flag "isPrivate"
    isProtected := ← flag "isProtected"
    isPublic := ← flag "isPublic"
    isStatic := ← flag "isStatic"
    isAbstract := ← flag "isAbstract" }

/-- Flags with all their fields. -/
def toJson (f : Flags) : Json :=
  .ofFields [("isConst", .bool f.isConst), ("isExported", .bool f.isExported), ("isExternal", .bool f.isExternal),
    ("isOptional", .bool f.isOptional), ("isPrivate", .bool f.isPrivate), ("isProtected", .bool f.isProtected),
    ("isPublic", .bool f.isPublic), ("isStatic", .bool f.isStatic), ("isAbstract", .bool f.isAbstract)]

end Flags

end EntityGraph

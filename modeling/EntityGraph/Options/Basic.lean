import EntityGraph.Json.Record

/-!
# Options

What can be chosen for a resolution. Options are read as a record with defaults (`Options.ofJson?`) and written with all
their fields (`Options.toJson`).
-/

namespace EntityGraph

/-- What can be chosen for a resolution. -/
structure Options where
  /-- Leaves out the modules at the top that are external; references still find their declarations. -/
  skipExternalModules : Bool := false
  /-- Leaves out the members that are private. -/
  skipPrivateMembers : Bool := false
  /-- How many type expressions may stand inside each other. -/
  maxTypeDepth : Nat := 256
deriving DecidableEq, Inhabited

namespace Options

/-- The fields in the order in which an array gives them. -/
def fieldNames : List String := ["skip_external_modules", "skip_private_members", "max_type_depth"]

/-- Reads options. -/
def ofJson? (v : Json) : Option Options := do
  let r ← Record.ofJson? fieldNames v
  return {
    skipExternalModules := ← r.field? "skip_external_modules" false Json.bool?
    skipPrivateMembers := ← r.field? "skip_private_members" false Json.bool?
    maxTypeDepth := ← r.field? "max_type_depth" 256 Json.natural? }

/-- Options with all their fields. -/
def toJson (o : Options) : Json :=
  .ofFields [("skip_external_modules", .bool o.skipExternalModules),
    ("skip_private_members", .bool o.skipPrivateMembers), ("max_type_depth", .ofNat o.maxTypeDepth)]

end Options

end EntityGraph

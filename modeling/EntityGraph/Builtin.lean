import EntityGraph.Arena

/-!
# Built-in entities

Every graph starts with seven entities: the six types that have a name in every document, and the unknown type, which
stands for all that cannot be resolved.
-/

namespace EntityGraph.Builtin

/-- The type `any`. -/
def any : EntityId := ⟨0⟩

/-- The type `undefined`. -/
def undefined : EntityId := ⟨1⟩

/-- The type `void`. -/
def void : EntityId := ⟨2⟩

/-- The type `string`. -/
def string : EntityId := ⟨3⟩

/-- The type `number`. -/
def number : EntityId := ⟨4⟩

/-- The type `boolean`. -/
def boolean : EntityId := ⟨5⟩

/-- The unknown type. -/
def unknown : EntityId := ⟨6⟩

/-- The built-in entities in the order of their places. -/
def entities : List Entity :=
  [.primitive "any", .primitive "undefined", .primitive "void", .primitive "string", .primitive "number",
    .primitive "boolean", .unknown "unknown"]

/-- The arena that holds the built-in entities and nothing else. -/
def arena : Arena := ⟨(entities.map some).toArray⟩

theorem get?_arena (id : EntityId) : arena.get? id = entities[id.index]?.map some := by
  rw [arena, Arena.get?, List.getElem?_toArray, List.getElem?_map]

/-- The names of the built-in entities with their places. -/
def named : List (String × EntityId) :=
  [("any", any), ("undefined", undefined), ("void", void), ("string", string), ("number", number),
    ("boolean", boolean), ("unknown", unknown)]

/-- The type that a name stands for; the unknown type for any other name. -/
def ofName (name : String) : EntityId := (named.lookup name).getD unknown

end EntityGraph.Builtin

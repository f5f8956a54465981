import EntityGraph.Graph.Basic
import EntityGraph.Entity.View

/-!
# Questions to a graph

Entities by place (`Graph.get?`) and by declaration (`Graph.entityOf?`), modules by name (`Graph.moduleId`), and the
classes of a name in any module (`Graph.classIds`). Of modules with one name the first answers.
-/

namespace EntityGraph.Graph

/-- The entity at a place. -/
def get? (g : Graph) (id : EntityId) : Option Entity := g.entities[id.index]?

/-- The number of entities. -/
def size (g : Graph) : Nat := g.entities.size

/-- The entity of the declaration with an id, if it was reached. -/
def entityOf? (g : Graph) (decl : DeclId) : Option EntityId := g.declarations.lookup decl

/-- The name of the entity at a place. -/
def nameAt? (g : Graph) (id : EntityId) : Option String := (g.get? id).bind Entity.name?

/-- The scope of the entity at a place. -/
def scopeAt? (g : Graph) (id : EntityId) : Option Scope := (g.get? id).bind Entity.scope?

/-- The names of the modules. -/
def moduleNames (g : Graph) : List String := g.modules.filterMap g.nameAt?

/-- The scopes of the modules. -/
def moduleScopes (g : Graph) : List Scope := g.modules.filterMap g.scopeAt?

/-- The first module of a name. -/
def moduleId (g : Graph) (name : String) : Except Failure EntityId :=
  match g.modules.find? fun id => g.nameAt? id = some name with
  | some id => .ok id
  | none => .error (.moduleNotFound name)

/-- The scope of the first module of a name. -/
def module (g : Graph) (name : String) : Except Failure Scope := do
  let id ← g.moduleId name
  match g.scopeAt? id with
  | some scope => return scope
  | none => .error (.breach (.moduleWithoutScope id))

/-- The classes of a name that stand directly in a module. -/
def classIds (g : Graph) (name : String) : List EntityId :=
  (g.moduleScopes.flatMap (·.classes)).filter fun id => g.nameAt? id = some name

/-- The classes of a name that stand directly in a module, as shapes. -/
def classes (g : Graph) (name : String) : List ClassShape :=
  (g.classIds name).filterMap fun id => (g.get? id).bind Entity.class?

end EntityGraph.Graph

import EntityGraph.Build.Visitor

/-!
# Scopes and shapes

The entities of declarations that hold others. The members are resolved in order and then dealt out by kind
(`Scope.withMembers`, `Shape.withMembers`); a class keeps its first constructor apart.
-/

namespace EntityGraph

namespace DeclKind

/-- Whether members of a kind are properties. -/
def isProperty : DeclKind → Bool
  | property | accessor => true
  | _ => false

/-- Whether members of a kind are literals. -/
def isLiteral : DeclKind → Bool
  | objectLiteral | interfaceLiteral => true
  | _ => false

/-- Whether members of a kind are scopes. -/
def isScope : DeclKind → Bool
  | moduleDecl | namespaceDecl => true
  | _ => false

/-- Whether members of a kind are functions of a scope. -/
def isFunction : DeclKind → Bool
  | function | method | constructor => true
  | _ => false

/-- Whether members of a kind are methods of a shape. -/
def isMethod : DeclKind → Bool
  | function | method => true
  | _ => false

/-- The position of the members of a shape of a kind. -/
def bodyPosition : DeclKind → Position
  | objectLiteral => .objectLiteralBody
  | _ => .interfaceBody

end DeclKind

/-- The scope with these members. -/
def Scope.withMembers (s : Scope) (ms : List Member) : Scope :=
  { s with
    members := ms.map (·.entity)
    namespaces := Member.entities ms DeclKind.isScope
    properties := Member.entities ms DeclKind.isProperty
    interfaces := Member.entities ms (· = .interfaceDecl)
    classes := Member.entities ms (· = .classDecl)
    enums := Member.entities ms (· = .enumDecl)
    typeAliases := Member.entities ms (· = .typeAlias)
    functions := Member.entities ms DeclKind.isFunction
    objectLiterals := Member.entities ms DeclKind.isLiteral }

/-- The shape with these members. -/
def Shape.withMembers (s : Shape) (ms : List Member) : Shape :=
  { s with
    members := ms.map (·.entity)
    namedProperties := (ms.filter fun m => m.kind.isProperty).map fun m => (m.name, m.entity)
    methods := Member.entities ms DeclKind.isMethod
    objectLiterals := Member.entities ms DeclKind.isLiteral }

/-- The first constructor among members. -/
def Member.constructor? (ms : List Member) : Option EntityId :=
  (ms.find? fun m => m.kind = .constructor).map (·.entity)

namespace Build

/-- The scope of a module or namespace. -/
def scope (n : Node) (visit : Visitor n.value) : Build Scope := do
  let members ← visit.members n.children (fun _ => Node.inside_children) .namespaceBody
  let empty : Scope :=
    { name := n.name, filePath := n.filePath?, id := n.id, flags := n.flags, comment := n.doc? }
  return empty.withMembers members

/-- An index signature: the type of its parameter, then the type of its values. What is none is recorded and left
out. -/
def indexSignature? {host : Json} (visit : Visitor host) (v : Json) (inside : v.Inside host) :
    Build (Option IndexSignature) := do
  match h : Node.ofJson? v with
  | some n =>
    if n.recognize? .interfaceBody = some .indexSignature then
      let visit := visit.within (Node.inside_of_ofJson? h inside)
      let indexType ← visit.type? n.firstParameterType? (fun _ => Node.inside_firstParameterType?) .declaredType
      let valueType ← visit.type? n.type? (fun _ => Node.inside_type?) .declaredType
      return some {
        parameterName := (n.parameters.head?.bind (Json.stringAt? "name")).getD ""
        indexType, valueType, comment := n.doc? }
    else
      report (.ofUnrecognized v)
      return none
  | none =>
    report (.ofUnrecognized v)
    return none

/-- The index signature of a node that has one. -/
def indexSignatureOf (n : Node) (visit : Visitor n.value) : Build (Option IndexSignature) :=
  match n.indexSignature?, fun v h => n.inside_indexSignature? (w := v) h with
  | some v, inside => indexSignature? visit v (inside v rfl)
  | none, _ => return none

/-- The shape of an interface, a class or a literal, and its members: first the types that it depends on, then the
members, then the index signature. -/
def shape (n : Node) (kind : DeclKind) (visit : Visitor n.value) : Build (Shape × List Member) := do
  let typeArguments ← visit.types n.typeArguments (fun _ => Node.inside_typeArguments) .declaredType
  let extendedTypes ← visit.types n.extendedTypes (fun _ => Node.inside_extendedTypes) .declaredType
  let implementedTypes ← visit.types n.implementedTypes (fun _ => Node.inside_implementedTypes) .declaredType
  let members ← visit.members n.children (fun _ => Node.inside_children) kind.bodyPosition
  let indexSignature ← indexSignatureOf n visit
  let empty : Shape := {
    name := n.name, id := n.id, flags := n.flags, comment := n.doc?, typeParameters := n.typeParameterNames
    typeArguments, extendedTypes, implementedTypes, indexSignature }
  return (empty.withMembers members, members)

/-- A class is a shape with its first constructor. -/
def classShape (n : Node) (visit : Visitor n.value) : Build Entity := do
  let (body, members) ← shape n .classDecl visit
  return .classDecl { body, isAbstract := n.flags.isAbstract, constructorId := Member.constructor? members }

end Build

end EntityGraph

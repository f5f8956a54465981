import EntityGraph.Build.Member
import EntityGraph.Build.Callable
import EntityGraph.Build.Body
import EntityGraph.Decl.TypeExpr

/-!
# Declarations and types

The two kinds of values that are resolved. `Build.declaration` makes the entity of a node by its kind, `Build.typeExpr`
the entity of a type expression; what lies inside is left to a visitor. `Build.visitType` and
`Build.visitDeclaration` close the circle: they are the visitor of the values inside, and end because these are
smaller.
-/

namespace EntityGraph.Build

/-- The entity of a node of a kind, reached at a position. -/
def declaration (n : Node) (kind : DeclKind) (position : Position) (visit : Visitor n.value) : Build Entity := do
  match kind with
  | .moduleDecl => return .moduleDecl (← scope n visit)
  | .namespaceDecl => return .namespaceDecl (← scope n visit)
  | .classDecl => classShape n visit
  | .interfaceDecl => return .interfaceDecl (← shape n kind visit).1
  | .interfaceLiteral => return .interfaceLiteral (← shape n kind visit).1
  | .objectLiteral => return .objectLiteral (← shape n kind visit).1
  | .enumDecl => enumeration n
  | .typeAlias => typeAlias n visit
  | .property => property n position visit
  | .accessor => accessor n visit
  | .function => callable n .function visit
  | .method => callable n .method visit
  | .constructor => callable n .constructor visit
  | .indexSignature => throw (.indexSignatureBody n.id)

/-- Builds the entity of an entered declaration into its slot. -/
def build (n : Node) (kind : DeclKind) (position : Position) (slot : EntityId) (visit : Visitor n.value) :
    Build Unit := do
  begin n.id
  fill slot (← declaration n kind position visit)

/-- The type arguments of a type expression. They stand for types wherever the expression itself stands. -/
def typeArguments (v : Json) (visit : Visitor v) : Build (List EntityId) :=
  visit.types (TypeExpr.argumentsOf v) (fun _ => TypeExpr.inside_of_mem_arguments) .declaredType

/-- The entity of the type expression `e` that `v` writes. Its type arguments are resolved after its other parts, and
its entity comes after theirs. -/
def ofTypeExpr (v : Json) (position : Position) (visit : Visitor v) (e : TypeExpr)
    (inside : ∀ w ∈ e.parts, w.Inside v) : Build EntityId :=
  match e, inside with
  | .intrinsic name, _ => return Builtin.ofName name
  | .internalReference id, _ => do
    let _ ← typeArguments v visit
    follow id
  | .externalReference name, _ => do
    let arguments ← typeArguments v visit
    alloc (.externalReference name arguments)
  | .malformedReference, _ => do
    report .malformedReference
    return Builtin.unknown
  | .array element, inside => do
    let element ← visit.type element (inside element List.mem_cons_self) position
    let arguments ← typeArguments v visit
    alloc (.array element arguments)
  | .union members, inside => do
    let members ← visit.types members inside position
    let arguments ← typeArguments v visit
    alloc (.union members arguments)
  | .intersection members, inside => do
    let members ← visit.types members inside position
    let arguments ← typeArguments v visit
    alloc (.intersection members arguments)
  | .reflection decl, inside => do
    let found ← visit.declaration decl (inside decl List.mem_cons_self) position
    return found.entity
  | .stringLiteral value, _ => do
    let arguments ← typeArguments v visit
    alloc (.stringLiteral value arguments)
  | .typeParameter name, _ => do
    let arguments ← typeArguments v visit
    alloc (.typeParameter name arguments)
  | .typeOperator operator form name, _ => do
    let arguments ← typeArguments v visit
    alloc (.typeOperator operator { form, name } arguments)
  | .unknown _, _ => return Builtin.unknown

/-- The entity of a type expression at a position. -/
def typeExpr (v : Json) (position : Position) (visit : Visitor v) : Build EntityId :=
  ofTypeExpr v position visit (TypeExpr.ofJson v) fun _ => TypeExpr.inside_of_mem_parts

mutual

/-- Resolves a type expression that stands inside `depth` others. -/
def visitType (depth : Nat) (v : Json) (position : Position) : Build EntityId := do
  if (← read).options.maxTypeDepth ≤ depth then
    report (.typeDepthExceeded depth)
    return Builtin.unknown
  else
    typeExpr v position
      { type := fun w _ position => visitType (depth + 1) w position
        declaration := fun w _ position => visitDeclaration (depth + 1) w position }
termination_by sizeOf v
decreasing_by all_goals exact Json.Inside.sizeOf_lt ‹_›

/-- Resolves a declaration that stands inside `depth` type expressions: it is entered, and built if it gets
a slot. -/
def visitDeclaration (depth : Nat) (v : Json) (position : Position) : Build Resolution := do
  match _h : Node.ofJson? v with
  | none => unreadable v
  | some n =>
    match ← enter n position with
    | .settled found => return found
    | .fresh kind slot =>
      build n kind position slot
        { type := fun w _ position => visitType depth w position
          declaration := fun w _ position => visitDeclaration depth w position }
      return ⟨slot, some kind⟩
termination_by sizeOf v
decreasing_by all_goals exact Json.Inside.sizeOf_lt (Node.value_of_ofJson? _h ▸ ‹_›)

end

/-- The visitor of the values inside a host that stands inside `depth` type expressions. -/
def visitor (depth : Nat) (host : Json) : Visitor host where
  type v _ position := visitType depth v position
  declaration v _ position := visitDeclaration depth v position

/-! ## One level of a visit -/

theorem visitType_eq (depth : Nat) (v : Json) (position : Position) :
    visitType depth v position = (do
      if (← read).options.maxTypeDepth ≤ depth then
        report (.typeDepthExceeded depth)
        return Builtin.unknown
      else typeExpr v position (visitor (depth + 1) v)) := by
  rw [visitType]
  rfl

theorem visitDeclaration_of_node {v : Json} {n : Node} (h : Node.ofJson? v = some n) (depth : Nat)
    (position : Position) :
    visitDeclaration depth v position = (do
      match ← enter n position with
      | .settled found => return found
      | .fresh kind slot =>
        build n kind position slot (visitor depth n.value)
        return ⟨slot, some kind⟩) := by
  rw [visitDeclaration]
  split
  · simp_all
  · next m hm =>
    obtain rfl : m = n := by simp_all
    rfl

theorem visitDeclaration_of_unreadable {v : Json} (h : Node.ofJson? v = none) (depth : Nat) (position : Position) :
    visitDeclaration depth v position = unreadable v := by
  rw [visitDeclaration]
  split
  · rfl
  · simp_all

end EntityGraph.Build

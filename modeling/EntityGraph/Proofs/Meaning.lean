import Mathlib.Data.List.Forall2
import Mathlib.Order.Basic
import EntityGraph.Build.Pass
import EntityGraph.Graph.Query

/-!
# What documents mean

A `View` says which entity stands at each place and how each declaration is settled. In a view,

- a type expression denotes an entity (`View.Denotes`), down to the depth that the options allow;
- a node of a kind shows as an entity (`View.Shows`): the entity has the node's own data, its types denote the types
  of the node, and its members are the settled children of the node.

A view grows (`View.Le`) when places get entities and declarations get settled. A finished graph is a view
(`Graph.view`), and so is each state on the way to it.
-/

namespace EntityGraph

/-- The kind of declaration that an entity stands for. -/
def Entity.declKind? : Entity → Option DeclKind
  | moduleDecl _ => some .moduleDecl
  | namespaceDecl _ => some .namespaceDecl
  | classDecl _ => some .classDecl
  | interfaceDecl _ => some .interfaceDecl
  | interfaceLiteral _ => some .interfaceLiteral
  | objectLiteral _ => some .objectLiteral
  | enumDecl _ => some .enumDecl
  | typeAlias _ => some .typeAlias
  | property p => some (if p.isAccessor then .accessor else .property)
  | callable c => some (match c.kind with | .function => .function | .method => .method | .constructor => .constructor)
  | _ => none

theorem Entity.declKind?_eq_some {e : Entity} {d : DeclId} (h : e.declId? = some d) :
    ∃ kind, e.declKind? = some kind := by
  cases e <;> first | exact ⟨_, rfl⟩ | cases h

theorem Entity.declId?_eq_some {e : Entity} {kind : DeclKind} (h : e.declKind? = some kind) :
    ∃ d, e.declId? = some d := by
  cases e <;> first | exact ⟨_, rfl⟩ | cases h

/-- What can be read of entities and declarations. -/
structure View where
  options : Options
  entity? : EntityId → Option Entity
  resolution? : DeclId → Option Resolution
  /-- No declaration has the id. -/
  Absent : DeclId → Prop

/-- The view of a finished graph. -/
def Graph.view (g : Graph) : View where
  options := g.options
  entity? := g.get?
  resolution? d := (g.entityOf? d).map fun m => ⟨m, (g.get? m).bind Entity.declKind?⟩
  Absent d := g.entityOf? d = none

namespace View

/-- `w'` has what `w` has. -/
structure Le (w w' : View) : Prop where
  options : w'.options = w.options
  entity {id : EntityId} {e : Entity} : w.entity? id = some e → w'.entity? id = some e
  resolution {d : DeclId} {r : Resolution} : w.resolution? d = some r → w'.resolution? d = some r
  absent {d : DeclId} : w.Absent d → w'.Absent d

instance : Preorder View where
  le := Le
  le_refl _ := ⟨rfl, id, id, id⟩
  le_trans _ _ _ hab hbc := ⟨hbc.options.trans hab.options, fun h => hbc.entity (hab.entity h),
    fun h => hbc.resolution (hab.resolution h), fun h => hbc.absent (hab.absent h)⟩

/-! ## Types -/

/-- What a reference to `d` stands for: the entity of the declaration, or the unknown type where there is none. -/
def Refers (w : View) (d : DeclId) (id : EntityId) : Prop :=
  (∃ r, w.resolution? d = some r ∧ r.entity = id) ∨ (w.Absent d ∧ id = Builtin.unknown)

/-- How a value in the place of a declaration is settled: as its id is, or as unknown without the base shape. -/
def Resolves (w : View) (v : Json) (r : Resolution) : Prop :=
  match Node.ofJson? v with
  | some n => w.resolution? n.id = some r
  | none => r = ⟨Builtin.unknown, none⟩

theorem resolves_of_node {w : View} {v : Json} {n : Node} (h : Node.ofJson? v = some n) {r : Resolution} :
    w.Resolves v r ↔ w.resolution? n.id = some r := by
  unfold Resolves
  rw [h]

theorem resolves_of_unreadable {w : View} {v : Json} (h : Node.ofJson? v = none) {r : Resolution} :
    w.Resolves v r ↔ r = ⟨Builtin.unknown, none⟩ := by
  unfold Resolves
  rw [h]

/-- One level of a type expression with its type arguments; `inner` says what the expressions inside it stand for. -/
def Level (w : View) (inner : Json → EntityId → Prop) (arguments : List Json) (id : EntityId) : TypeExpr → Prop
  | .intrinsic name => id = Builtin.ofName name
  | .internalReference d => w.Refers d id
  | .reflection decl => ∃ r, w.Resolves decl r ∧ id = r.entity
  | .malformedReference | .unknown _ => id = Builtin.unknown
  | .externalReference name => ∃ as, List.Forall₂ inner arguments as ∧ w.entity? id = some (.externalReference name as)
  | .array element => ∃ m as, inner element m ∧ List.Forall₂ inner arguments as ∧ w.entity? id = some (.array m as)
  | .union members => ∃ ms as, List.Forall₂ inner members ms ∧ List.Forall₂ inner arguments as ∧
      w.entity? id = some (.union ms as)
  | .intersection members => ∃ ms as, List.Forall₂ inner members ms ∧ List.Forall₂ inner arguments as ∧
      w.entity? id = some (.intersection ms as)
  | .stringLiteral value => ∃ as, List.Forall₂ inner arguments as ∧ w.entity? id = some (.stringLiteral value as)
  | .typeParameter name => ∃ as, List.Forall₂ inner arguments as ∧ w.entity? id = some (.typeParameter name as)
  | .typeOperator operator form name => ∃ as, List.Forall₂ inner arguments as ∧
      w.entity? id = some (.typeOperator operator { form, name } as)

/-- The entity that a type expression stands for inside `depth` others: the unknown type from the greatest depth on. -/
def Denotes (w : View) (depth : Nat) : Json → EntityId → Prop :=
  if _h : w.options.maxTypeDepth ≤ depth then fun _ id => id = Builtin.unknown
  else fun v id => w.Level (w.Denotes (depth + 1)) (TypeExpr.argumentsOf v) id (TypeExpr.ofJson v)
termination_by w.options.maxTypeDepth - depth

/-- What stands for a type that may be absent. -/
def DenotesOption (w : View) (depth : Nat) (v? : Option Json) (id : EntityId) : Prop :=
  match v? with
  | some v => w.Denotes depth v id
  | none => id = Builtin.unknown

theorem denotes_of_le {w : View} {depth : Nat} (h : w.options.maxTypeDepth ≤ depth) {v : Json} {id : EntityId} :
    w.Denotes depth v id ↔ id = Builtin.unknown := by
  rw [Denotes, dif_pos h]

theorem denotes_of_lt {w : View} {depth : Nat} (h : depth < w.options.maxTypeDepth) {v : Json} {id : EntityId} :
    w.Denotes depth v id ↔
      w.Level (w.Denotes (depth + 1)) (TypeExpr.argumentsOf v) id (TypeExpr.ofJson v) := by
  rw [Denotes, dif_neg (Nat.not_le.mpr h)]

/-! ## Declarations -/

/-- The member that a child gives: none where the child is not recognized. -/
def MemberOf (w : View) (v : Json) (m? : Option Member) : Prop :=
  ∃ r, w.Resolves v r ∧
    m? = r.kind.map fun kind => { name := ((Node.ofJson? v).map Node.name).getD "", kind, entity := r.entity }

/-- The members that children give, in order, without those that the options leave out. -/
def MembersOf (w : View) (children : List Json) (ms : List Member) : Prop :=
  ∃ found, List.Forall₂ w.MemberOf (children.filter fun v => !w.options.skips v) found ∧ ms = found.filterMap id

/-- The scope of a module or namespace. -/
def ScopeOf (w : View) (n : Node) (s : Scope) : Prop :=
  ∃ ms, w.MembersOf n.children ms ∧
    s = Scope.withMembers
      { name := n.name, filePath := n.filePath?, id := n.id, flags := n.flags, comment := n.doc? } ms

/-- An index signature, for a value that is one. -/
def IndexSignatureOf (w : View) (depth : Nat) (v : Json) (signature : Option IndexSignature) : Prop :=
  match (Node.ofJson? v).filter fun n => n.recognize? .interfaceBody = some .indexSignature with
  | some n => ∃ indexType valueType, w.DenotesOption depth n.firstParameterType? indexType ∧
      w.DenotesOption depth n.type? valueType ∧
      signature = some {
        parameterName := (n.parameters.head?.bind (Json.stringAt? "name")).getD ""
        indexType, valueType, comment := n.doc? }
  | none => signature = none

/-- The index signature of a node that has one. -/
def IndexSignatureOfNode (w : View) (depth : Nat) (n : Node) (signature : Option IndexSignature) : Prop :=
  match n.indexSignature? with
  | some v => w.IndexSignatureOf depth v signature
  | none => signature = none

/-- The shape of an interface, a class or a literal, and its members. -/
def ShapeOf (w : View) (depth : Nat) (n : Node) (s : Shape) (ms : List Member) : Prop :=
  ∃ typeArguments extendedTypes implementedTypes indexSignature,
    List.Forall₂ (w.Denotes depth) n.typeArguments typeArguments ∧
    List.Forall₂ (w.Denotes depth) n.extendedTypes extendedTypes ∧
    List.Forall₂ (w.Denotes depth) n.implementedTypes implementedTypes ∧
    w.MembersOf n.children ms ∧ w.IndexSignatureOfNode depth n indexSignature ∧
    s = Shape.withMembers {
      name := n.name, id := n.id, flags := n.flags, comment := n.doc?, typeParameters := n.typeParameterNames
      typeArguments, extendedTypes, implementedTypes, indexSignature } ms

/-- A parameter, for a value with the base shape of a declaration. -/
def ParameterOf (w : View) (depth : Nat) (v : Json) (parameter : Option Parameter) : Prop :=
  match Node.ofJson? v with
  | some p => ∃ type, w.DenotesOption depth p.type? type ∧
      parameter = some {
        name := if p.name.isEmpty then none else some p.name
        type, isOptional := p.flags.isOptional, defaultValue := p.defaultValue?, comment := p.doc? }
  | none => parameter = none

/-- A signature of a callable. -/
def SignatureOf (w : View) (depth : Nat) (n : Node) (s : Signature) : Prop :=
  ∃ parameters returnType, List.Forall₂ (w.ParameterOf depth) n.parameters parameters ∧
    w.DenotesOption depth n.type? returnType ∧
    s = { comment := n.doc?, typeParameters := n.typeParameterNames, parameters := parameters.filterMap id, returnType }

/-- A callable with its signatures in order. -/
def CallableOf (w : View) (depth : Nat) (n : Node) (kind : CallableKind) (c : Callable) : Prop :=
  ∃ signatures typeArguments, List.Forall₂ (w.SignatureOf depth) n.signatureNodes signatures ∧
    List.Forall₂ (w.Denotes depth) n.typeArguments typeArguments ∧
    c = { name := n.name, id := n.id, kind, flags := n.flags, comment := n.callableDoc?, signatures, typeArguments }

/-- The member of an enumeration that a child gives. -/
def enumMemberOf (v : Json) : Option EnumMember :=
  ((Node.ofJson? v).filter fun m => m.tag? = some .enumerationMember).map fun m =>
    { name := m.name, defaultValue := m.defaultValue?, comment := m.doc? }

/-- The entity as which a node of a kind shows inside `depth` type expressions. -/
def Shows (w : View) (depth : Nat) (n : Node) (kind : DeclKind) (e : Entity) : Prop :=
  match kind with
  | .moduleDecl => ∃ s, w.ScopeOf n s ∧ e = .moduleDecl s
  | .namespaceDecl => ∃ s, w.ScopeOf n s ∧ e = .namespaceDecl s
  | .classDecl => ∃ body ms, w.ShapeOf depth n body ms ∧
      e = .classDecl { body, isAbstract := n.flags.isAbstract, constructorId := Member.constructor? ms }
  | .interfaceDecl => ∃ s ms, w.ShapeOf depth n s ms ∧ e = .interfaceDecl s
  | .interfaceLiteral => ∃ s ms, w.ShapeOf depth n s ms ∧ e = .interfaceLiteral s
  | .objectLiteral => ∃ s ms, w.ShapeOf depth n s ms ∧ e = .objectLiteral s
  | .enumDecl => e = .enumDecl {
      name := n.name, id := n.id, flags := n.flags, comment := n.doc?, members := n.children.filterMap enumMemberOf }
  | .typeAlias => ∃ target, w.DenotesOption depth n.type? target ∧
      e = .typeAlias { name := n.name, id := n.id, comment := n.doc?, typeParameters := n.typeParameterNames, target }
  | .property => ∃ type, w.DenotesOption depth n.type? type ∧
      e = .property {
        name := n.name, id := n.id, flags := n.flags, comment := n.doc?, type, defaultValue := n.defaultValue?
        readable := true, writeable := !n.flags.isConst, isAccessor := false }
  | .accessor => ∃ type, w.DenotesOption depth n.accessorType? type ∧
      e = .property {
        name := n.name, id := n.id, flags := n.flags, comment := n.accessorDoc?, type, defaultValue := none
        readable := n.getter?.isSome, writeable := n.setter?.isSome, isAccessor := true }
  | .function => ∃ c, w.CallableOf depth n .function c ∧ e = .callable c
  | .method => ∃ c, w.CallableOf depth n .method c ∧ e = .callable c
  | .constructor => ∃ c, w.CallableOf depth n .constructor c ∧ e = .callable c
  | .indexSignature => False

/-- The modules of a document: the children of the root that are modules, in order, without those that the options leave
out. -/
def ModulesOf (w : View) (root : Json) (ids : List EntityId) : Prop :=
  ∃ found, List.Forall₂ w.Resolves ((root.listAt "children").filter fun v => !w.options.skipsModule v) found ∧
    ids = (found.filter fun r => r.kind = some .moduleDecl).map (·.entity)

variable {w : View} {depth : Nat} {n : Node} {kind : DeclKind} {e : Entity}

/-- An entity bears the id of the node that it shows and the kind by which it shows it. -/
theorem Shows.stamp (h : w.Shows depth n kind e) : e.declId? = some n.id ∧ e.declKind? = some kind := by
  cases kind with
  | moduleDecl | namespaceDecl =>
    obtain ⟨_, ⟨_, _, rfl⟩, rfl⟩ := h
    exact ⟨rfl, rfl⟩
  | classDecl | interfaceDecl | interfaceLiteral | objectLiteral =>
    obtain ⟨_, _, ⟨_, _, _, _, _, _, _, _, _, rfl⟩, rfl⟩ := h
    exact ⟨rfl, rfl⟩
  | enumDecl =>
    obtain rfl := h
    exact ⟨rfl, rfl⟩
  | typeAlias | property | accessor =>
    obtain ⟨_, _, rfl⟩ := h
    exact ⟨rfl, rfl⟩
  | function | method | constructor =>
    obtain ⟨_, ⟨_, _, _, _, rfl⟩, rfl⟩ := h
    exact ⟨rfl, rfl⟩
  | indexSignature => exact h.elim

/-- An entity has the name of the node that it shows. -/
theorem Shows.name (h : w.Shows depth n kind e) : e.name? = some n.name := by
  cases kind with
  | moduleDecl | namespaceDecl =>
    obtain ⟨_, ⟨_, _, rfl⟩, rfl⟩ := h
    rfl
  | classDecl | interfaceDecl | interfaceLiteral | objectLiteral =>
    obtain ⟨_, _, ⟨_, _, _, _, _, _, _, _, _, rfl⟩, rfl⟩ := h
    rfl
  | enumDecl =>
    obtain rfl := h
    rfl
  | typeAlias | property | accessor =>
    obtain ⟨_, _, rfl⟩ := h
    rfl
  | function | method | constructor =>
    obtain ⟨_, ⟨_, _, _, _, rfl⟩, rfl⟩ := h
    rfl
  | indexSignature => exact h.elim

end View

end EntityGraph

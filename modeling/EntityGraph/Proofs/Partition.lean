import EntityGraph.Proofs.Kinds

/-!
# Members by kind

The members of a scope or a shape are dealt out by the kinds by which they are settled when they are met, which is often
before their entities exist. In a finished graph these are the kinds of the entities (`Graph.kindAt?_of_membersOf`), so
each list beside `members` is `members` filtered by kinds (`Graph.entities_eq_ofKinds`), and a scope has each of its
members in exactly one list (`Graph.membersByKind_of_ofJson`).
-/

namespace EntityGraph

/-- What stands in the second of two lists that are related position by position is related to something in the
first. -/
theorem exists_rel_of_mem {α β : Type} {R : α → β → Prop} {as : List α} {bs : List β} (h : List.Forall₂ R as bs)
    {b : β} (hb : b ∈ bs) : ∃ a ∈ as, R a b := by
  induction h with
  | nil => cases hb
  | cons hab _ ih =>
    rcases List.mem_cons.mp hb with rfl | hb
    · exact ⟨_, List.mem_cons_self, hab⟩
    · obtain ⟨a, ha, hrel⟩ := ih hb
      exact ⟨a, List.mem_cons_of_mem _ ha, hrel⟩

/-- A member is a child that is recognized: it has the child's name and is what the child's id is settled as. -/
theorem View.exists_child_of_membersOf {w : View} {children : List Json} {ms : List Member}
    (h : w.MembersOf children ms) {m : Member} (hm : m ∈ ms) :
    ∃ v ∈ children, ∃ n, Node.ofJson? v = some n ∧ n.name = m.name ∧
      w.resolution? n.id = some ⟨m.entity, some m.kind⟩ := by
  obtain ⟨found, hfound, rfl⟩ := h
  obtain ⟨m?, hm?, hsome⟩ := List.mem_filterMap.mp hm
  obtain rfl : m? = some m := hsome
  obtain ⟨v, hv, r, hr, hmember⟩ := exists_rel_of_mem hfound hm?
  obtain ⟨kind, hkind, rfl⟩ := Option.map_eq_some_iff.mp hmember.symm
  cases hn : Node.ofJson? v with
  | none =>
    rw [(resolves_of_unreadable hn).mp hr] at hkind
    cases hkind
  | some n =>
    refine ⟨v, (List.mem_filter.mp hv).1, n, hn, rfl, ?_⟩
    rw [(resolves_of_node hn).mp hr, ← hkind]

theorem Entity.declId?_of_scope? {e : Entity} {s : Scope} (h : e.scope? = some s) : e.declId? = some s.id := by
  cases e <;> cases h <;> rfl

theorem Entity.declId?_of_shape? {e : Entity} {s : Shape} (h : e.shape? = some s) : e.declId? = some s.id := by
  cases e <;> cases h <;> rfl

/-- The lists of a scope beside `members`. -/
def Scope.parts (s : Scope) : List (List EntityId) :=
  [s.namespaces, s.classes, s.interfaces, s.enums, s.typeAliases, s.properties, s.functions, s.objectLiterals]

namespace Graph

variable {root : Json} {o : Options} {g : Graph}

/-- The entities of some kinds, in order and as often as they stand. -/
def ofKinds (g : Graph) (kinds : List EntityKind) (ids : List EntityId) : List EntityId :=
  ids.filter fun m => (g.kindAt? m).any kinds.contains

/-- The lists of a scope are its members by kind. -/
structure DealsOut (g : Graph) (s : Scope) : Prop where
  namespaces : s.namespaces = g.ofKinds [.moduleDecl, .namespaceDecl] s.members
  classes : s.classes = g.ofKinds [.classDecl] s.members
  interfaces : s.interfaces = g.ofKinds [.interfaceDecl] s.members
  enums : s.enums = g.ofKinds [.enumDecl] s.members
  typeAliases : s.typeAliases = g.ofKinds [.typeAlias] s.members
  properties : s.properties = g.ofKinds [.property, .accessor] s.members
  functions : s.functions = g.ofKinds [.function, .method, .constructor] s.members
  objectLiterals : s.objectLiterals = g.ofKinds [.objectLiteral, .interfaceLiteral] s.members

/-- The lists of a shape are its members by kind. -/
structure DealsOutShape (g : Graph) (s : Shape) : Prop where
  properties : s.properties = g.ofKinds [.property, .accessor] s.members
  methods : s.methods = g.ofKinds [.function, .method] s.members
  objectLiterals : s.objectLiterals = g.ofKinds [.objectLiteral, .interfaceLiteral] s.members

/-- The lists of every scope and shape of a graph are their members by the kinds of the entities, and the constructor of
a class is the first among its members. -/
structure MembersByKind (g : Graph) : Prop where
  scope {m : EntityId} {e : Entity} {s : Scope} : g.get? m = some e → e.scope? = some s → g.DealsOut s
  /-- Every member of a scope is in exactly one of the lists beside `members`. -/
  once {m i : EntityId} {e : Entity} {s : Scope} : g.get? m = some e → e.scope? = some s → i ∈ s.members →
    (s.parts.countP fun part => i ∈ part) = 1
  shape {m : EntityId} {e : Entity} {s : Shape} : g.get? m = some e → e.shape? = some s → g.DealsOutShape s
  constructorId {m : EntityId} {c : ClassShape} : g.get? m = some (.classDecl c) →
    c.constructorId = (g.ofKinds [.constructor] c.body.members).head?

/-! ## The kinds of each list -/

end Graph

namespace DeclKind

theorem isScope_eq (kind : DeclKind) :
    kind.isScope = [EntityKind.moduleDecl, .namespaceDecl].contains kind.entityKind := by cases kind <;> rfl

theorem isProperty_eq (kind : DeclKind) :
    kind.isProperty = [EntityKind.property, .accessor].contains kind.entityKind := by cases kind <;> rfl

theorem isFunction_eq (kind : DeclKind) :
    kind.isFunction = [EntityKind.function, .method, .constructor].contains kind.entityKind := by cases kind <;> rfl

theorem isMethod_eq (kind : DeclKind) :
    kind.isMethod = [EntityKind.function, .method].contains kind.entityKind := by cases kind <;> rfl

theorem isLiteral_eq (kind : DeclKind) :
    kind.isLiteral = [EntityKind.objectLiteral, .interfaceLiteral].contains kind.entityKind := by cases kind <;> rfl

theorem is_eq (k kind : DeclKind) : decide (kind = k) = [k.entityKind].contains kind.entityKind := by
  cases k <;> cases kind <;> rfl

end DeclKind

namespace Graph

variable {root : Json} {o : Options} {g : Graph}

/-! ## Members -/

variable {children : List Json} {ms : List Member}

/-- A member has the kind of its entity. -/
theorem kindAt?_of_membersOf (h : g.view.MembersOf children ms) {m : Member} (hm : m ∈ ms) :
    g.kindAt? m.entity = some m.kind.entityKind ∧ m.kind ≠ .indexSignature := by
  obtain ⟨_, _, _, _, _, hresolution⟩ := View.exists_child_of_membersOf h hm
  exact kindAt?_of_resolution? hresolution rfl

/-- The members of some kinds are those with entities of the kinds. -/
theorem entities_eq_ofKinds (h : g.view.MembersOf children ms) {p : DeclKind → Bool} {kinds : List EntityKind}
    (hp : ∀ kind, p kind = kinds.contains kind.entityKind) :
    Member.entities ms p = g.ofKinds kinds (ms.map (·.entity)) := by
  rw [Member.entities, ofKinds, List.filter_map]
  congr 1
  refine List.filter_congr fun m hm => ?_
  rw [hp, Function.comp_apply, (kindAt?_of_membersOf h hm).1, Option.any_some]

theorem mem_ofKinds_iff {m : EntityId} {ids : List EntityId} {kind : EntityKind} (hkind : g.kindAt? m = some kind)
    (hm : m ∈ ids) {kinds : List EntityKind} : m ∈ g.ofKinds kinds ids ↔ kinds.contains kind := by
  rw [ofKinds, List.mem_filter, hkind, Option.any_some]
  exact and_iff_right hm

/-! ## Scopes and shapes -/

theorem dealsOut_of_scopeOf {n : Node} {s : Scope} (h : g.view.ScopeOf n s) : g.DealsOut s := by
  obtain ⟨ms, hms, rfl⟩ := h
  exact {
    namespaces := entities_eq_ofKinds hms DeclKind.isScope_eq
    classes := entities_eq_ofKinds hms (DeclKind.is_eq .classDecl)
    interfaces := entities_eq_ofKinds hms (DeclKind.is_eq .interfaceDecl)
    enums := entities_eq_ofKinds hms (DeclKind.is_eq .enumDecl)
    typeAliases := entities_eq_ofKinds hms (DeclKind.is_eq .typeAlias)
    properties := entities_eq_ofKinds hms DeclKind.isProperty_eq
    functions := entities_eq_ofKinds hms DeclKind.isFunction_eq
    objectLiterals := entities_eq_ofKinds hms DeclKind.isLiteral_eq }

/-- The lists of a scope hold each of its members once: every kind of declaration belongs to one of them. -/
theorem countP_parts {n : Node} {s : Scope} (h : g.view.ScopeOf n s) {i : EntityId} (hi : i ∈ s.members) :
    (s.parts.countP fun part => i ∈ part) = 1 := by
  have hdeals := dealsOut_of_scopeOf h
  obtain ⟨ms, hms, rfl⟩ := h
  obtain ⟨m, hm, rfl⟩ := List.mem_map.mp hi
  obtain ⟨hkind, hne⟩ := kindAt?_of_membersOf hms hm
  simp only [Scope.parts, hdeals.namespaces, hdeals.classes, hdeals.interfaces, hdeals.enums, hdeals.typeAliases,
    hdeals.properties, hdeals.functions, hdeals.objectLiterals, List.countP_cons, List.countP_nil,
    mem_ofKinds_iff hkind hi]
  generalize m.kind = kind at hne
  cases kind <;> first | rfl | exact absurd rfl hne

theorem dealsOutShape_of_shapeOf {depth : Nat} {n : Node} {s : Shape} (h : g.view.ShapeOf depth n s ms) :
    g.DealsOutShape s := by
  obtain ⟨_, _, _, _, _, _, _, hms, _, rfl⟩ := h
  refine ⟨?_, entities_eq_ofKinds hms DeclKind.isMethod_eq, entities_eq_ofKinds hms DeclKind.isLiteral_eq⟩
  rw [Shape.properties, Shape.withMembers, List.map_map]
  exact entities_eq_ofKinds hms DeclKind.isProperty_eq

/-- The first constructor among the members of a class. -/
theorem constructor?_eq {depth : Nat} {n : Node} {s : Shape} (h : g.view.ShapeOf depth n s ms) :
    Member.constructor? ms = (g.ofKinds [.constructor] s.members).head? := by
  obtain ⟨_, _, _, _, _, _, _, hms, _, rfl⟩ := h
  have hentities := entities_eq_ofKinds hms (DeclKind.is_eq .constructor)
  rw [Member.constructor?, ← List.head?_filter, ← List.head?_map]
  exact congrArg List.head? hentities

variable {depth : Nat} {n : Node} {kind : DeclKind} {e : Entity}

/-- A scope is shown by a node of a module or namespace. -/
theorem scopeOf_of_shows (h : g.view.Shows depth n kind e) {s : Scope} (hs : e.scope? = some s) :
    g.view.ScopeOf n s := by
  cases kind with
  | moduleDecl | namespaceDecl =>
    obtain ⟨_, hscope, rfl⟩ := h
    exact Option.some.inj hs ▸ hscope
  | classDecl | interfaceDecl | interfaceLiteral | objectLiteral =>
    obtain ⟨_, _, _, rfl⟩ := h
    cases hs
  | enumDecl =>
    obtain rfl := h
    cases hs
  | typeAlias | property | accessor | function | method | constructor =>
    obtain ⟨_, _, rfl⟩ := h
    cases hs
  | indexSignature => exact h.elim

/-- A shape is shown by a node of an interface, a class or a literal. -/
theorem shapeOf_of_shows (h : g.view.Shows depth n kind e) {s : Shape} (hs : e.shape? = some s) :
    ∃ ms, g.view.ShapeOf depth n s ms := by
  cases kind with
  | classDecl | interfaceDecl | interfaceLiteral | objectLiteral =>
    obtain ⟨_, ms, hshape, rfl⟩ := h
    exact ⟨ms, Option.some.inj hs ▸ hshape⟩
  | moduleDecl | namespaceDecl | typeAlias | property | accessor | function | method | constructor =>
    obtain ⟨_, _, rfl⟩ := h
    cases hs
  | enumDecl =>
    obtain rfl := h
    cases hs
  | indexSignature => exact h.elim

/-- A class is shown by a node of a class. -/
theorem classOf_of_shows {c : ClassShape} (h : g.view.Shows depth n kind (.classDecl c)) :
    ∃ ms, g.view.ShapeOf depth n c.body ms ∧ c.constructorId = Member.constructor? ms := by
  obtain rfl : DeclKind.classDecl = kind := Option.some.inj h.stamp.2
  obtain ⟨body, ms, hshape, heq⟩ := h
  cases heq
  exact ⟨ms, hshape, rfl⟩

/-- The members of scopes, shapes and classes are dealt out by the kinds of their entities. -/
theorem membersByKind_of_ofJson (h : ofJson root o = .ok g) : g.MembersByKind := by
  obtain ⟨t, ht⟩ := endsIn_of_ofJson h
  have shows {m : EntityId} {e : Entity} {d : DeclId} (hm : g.get? m = some e) (hid : e.declId? = some d) :
      ∃ depth n kind, g.view.Shows depth n kind e := by
    obtain ⟨n, _, kind, depth, _, _, _, _, hshow, _⟩ := ht.declared hm hid
    exact ⟨depth, n, kind, hshow⟩
  have scopeOf {m : EntityId} {e : Entity} {s : Scope} (hm : g.get? m = some e) (hs : e.scope? = some s) :
      ∃ n, g.view.ScopeOf n s := by
    obtain ⟨_, n, _, hshow⟩ := shows hm (Entity.declId?_of_scope? hs)
    exact ⟨n, scopeOf_of_shows hshow hs⟩
  constructor
  case scope =>
    intro m e s hm hs
    obtain ⟨n, hscope⟩ := scopeOf hm hs
    exact dealsOut_of_scopeOf hscope
  case once =>
    intro m i e s hm hs hi
    obtain ⟨n, hscope⟩ := scopeOf hm hs
    exact countP_parts hscope hi
  case shape =>
    intro m e s hm hs
    obtain ⟨_, n, _, hshow⟩ := shows hm (Entity.declId?_of_shape? hs)
    obtain ⟨ms, hshape⟩ := shapeOf_of_shows hshow hs
    exact dealsOutShape_of_shapeOf hshape
  case constructorId =>
    intro m c hm
    obtain ⟨_, n, _, hshow⟩ := shows hm rfl
    obtain ⟨ms, hshape, hconstructor⟩ := classOf_of_shows hshow
    rw [hconstructor, constructor?_eq hshape]

theorem membersByKind_shop : ∃ g, ofJson shop { skipPrivateMembers := true } = .ok g ∧ g.MembersByKind := by
  obtain ⟨g, hg, _⟩ := ofJson_shop
  exact ⟨g, hg, membersByKind_of_ofJson hg⟩

end Graph

end EntityGraph

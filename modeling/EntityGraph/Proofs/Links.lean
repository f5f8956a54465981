import EntityGraph.Proofs.Partition

/-!
# Links

An entity refers to others by their places (`Entity.links`). In a finished graph every place that is stored anywhere
has an entity: in the entities, among the modules, for the declarations and on record for the references
(`Graph.linksClosed_of_ofJson`). So the questions to a graph that look entities up at these places always find them:
asked with look-ups that fail at a place without an entity (`Graph.askAll`), they do not fail, and have the same
answers.

That links are closed is a fact about views: where what is built in and what is settled has an entity (`View.Whole`),
what a type expression denotes has one (`View.Whole.closes_of_denotes`), and so has what an entity stores that shows a
node (`View.Whole.holds_of_shows`).
-/

namespace EntityGraph

/-! ## The links of an entity -/

/-- The links of a scope, list after list. -/
def Scope.links (s : Scope) : List EntityId :=
  s.members ++ s.namespaces ++ s.properties ++ s.interfaces ++ s.classes ++ s.enums ++ s.typeAliases ++ s.functions ++
    s.objectLiterals

/-- The links of an index signature. -/
def IndexSignature.links (s : IndexSignature) : List EntityId := [s.indexType, s.valueType]

/-- The links of a shape, list after list. -/
def Shape.links (s : Shape) : List EntityId :=
  s.typeArguments ++ s.extendedTypes ++ s.implementedTypes ++ s.members ++ s.properties ++ s.methods ++
    s.objectLiterals ++ s.indexSignature.toList.flatMap IndexSignature.links

/-- The links of a class. -/
def ClassShape.links (c : ClassShape) : List EntityId := c.body.links ++ c.constructorId.toList

/-- The links of a signature. -/
def Signature.links (s : Signature) : List EntityId := s.parameters.map (·.type) ++ [s.returnType]

/-- The links of a callable. -/
def Callable.links (c : Callable) : List EntityId := c.signatures.flatMap Signature.links ++ c.typeArguments

/-- The places that an entity stores, in all its fields, as often as it stores them. -/
def Entity.links : Entity → List EntityId
  | primitive _ | unknown _ | enumDecl _ => []
  | array element arguments => element :: arguments
  | union members arguments | intersection members arguments => members ++ arguments
  | stringLiteral _ arguments | typeParameter _ arguments | typeOperator _ _ arguments
  | externalReference _ arguments => arguments
  | moduleDecl s | namespaceDecl s => s.links
  | classDecl c => c.links
  | interfaceDecl s | interfaceLiteral s | objectLiteral s => s.links
  | typeAlias a => [a.target]
  | property p => [p.type]
  | callable c => c.links

/-! ## Types and members among the links -/

/-- The places that a shape stores as types. -/
def Shape.types (s : Shape) : List EntityId :=
  s.typeArguments ++ s.extendedTypes ++ s.implementedTypes ++ s.indexSignature.toList.flatMap IndexSignature.links

/-- The places that an entity stores as types. -/
def Entity.types : Entity → List EntityId
  | moduleDecl _ | namespaceDecl _ => []
  | classDecl c => c.body.types
  | interfaceDecl s | interfaceLiteral s | objectLiteral s => s.types
  | e => e.links

/-- The places that a shape stores for its members. -/
def Shape.memberLinks (s : Shape) : List EntityId := s.members ++ s.properties ++ s.methods ++ s.objectLiterals

/-- The places that an entity stores for its members. -/
def Entity.memberLinks : Entity → List EntityId
  | moduleDecl s | namespaceDecl s => s.links
  | classDecl c => c.body.memberLinks ++ c.constructorId.toList
  | interfaceDecl s | interfaceLiteral s | objectLiteral s => s.memberLinks
  | _ => []

theorem Shape.links_perm (s : Shape) : s.links.Perm (s.types ++ s.memberLinks) := by
  rw [List.perm_iff_count]
  intro k
  simp only [links, types, memberLinks, List.count_append]
  omega

/-- What an entity stores is stored as a type or for a member. -/
theorem Entity.links_perm (e : Entity) : e.links.Perm (e.types ++ e.memberLinks) := by
  cases e with
  | classDecl c =>
    show (c.body.links ++ c.constructorId.toList).Perm (c.body.types ++ (c.body.memberLinks ++ c.constructorId.toList))
    rw [← List.append_assoc]
    exact c.body.links_perm.append_right _
  | interfaceDecl s | interfaceLiteral s | objectLiteral s => exact s.links_perm
  | moduleDecl | namespaceDecl => exact .refl _
  | _ => exact .of_eq (List.append_nil _).symm

section

variable {ms : List Member} {m : EntityId}

/-- The members of some kinds are members. -/
theorem Member.mem_of_mem_entities {p : DeclKind → Bool} (h : m ∈ entities ms p) : m ∈ ms.map (·.entity) := by
  obtain ⟨x, hx, rfl⟩ := List.mem_map.mp h
  exact List.mem_map_of_mem (List.mem_filter.mp hx).1

theorem Member.mem_of_constructor? (h : m ∈ (constructor? ms).toList) : m ∈ ms.map (·.entity) := by
  obtain ⟨x, hx, rfl⟩ := Option.map_eq_some_iff.mp (Option.mem_toList.mp h)
  exact List.mem_map_of_mem (List.mem_of_find?_eq_some hx)

/-- Whatever list of a scope a place stands in, it is that of a member. -/
theorem Scope.mem_of_mem_links {s : Scope} (h : m ∈ (s.withMembers ms).links) : m ∈ ms.map (·.entity) := by
  simp only [links, withMembers, List.mem_append] at h
  rcases h with (((((((h | h) | h) | h) | h) | h) | h) | h) | h
  · exact h
  all_goals exact Member.mem_of_mem_entities h

theorem Shape.mem_of_mem_memberLinks {s : Shape} (h : m ∈ (s.withMembers ms).memberLinks) :
    m ∈ ms.map (·.entity) := by
  simp only [memberLinks, withMembers, properties, List.map_map, List.mem_append] at h
  rcases h with ((h | h) | h) | h
  · exact h
  all_goals exact Member.mem_of_mem_entities h

end

theorem Entity.eq_moduleDecl {e : Entity} (h : e.declKind? = some .moduleDecl) : ∃ s, e = .moduleDecl s := by
  cases e with
  | moduleDecl s => exact ⟨s, rfl⟩
  | property p => simp [declKind?, ite_eq_iff] at h
  | callable c =>
    obtain ⟨_, _, kind, _, _, _, _⟩ := c
    cases kind <;> cases h
  | _ => cases h

/-- What is built in stores no places. -/
theorem Builtin.links_of_mem : ∀ e ∈ entities, e.links = [] := by decide

/-- A name stands for a type that is built in. -/
theorem Builtin.exists_of_ofName (name : String) : ∃ e, entities[(ofName name).index]? = some e := by
  unfold ofName
  cases hname : named.lookup name with
  | none => exact ⟨_, rfl⟩
  | some m =>
    have hnamed : ∀ p ∈ named, (entities[p.2.index]?).isSome := by decide
    exact Option.isSome_iff_exists.mp (hnamed _ (mem_of_lookup hname))

/-! ## Views in which nothing is missing -/

namespace View

/-- There is an entity at a place. -/
def Holds (w : View) (m : EntityId) : Prop := ∃ e, w.entity? m = some e

/-- There is an entity at a place, and if it is no declaration, then also at the places that it stores. -/
def Closes (w : View) (m : EntityId) : Prop :=
  ∃ e, w.entity? m = some e ∧ (e.declId? = none → ∀ k ∈ e.links, w.Holds k)

theorem Closes.holds {w : View} {m : EntityId} (h : w.Closes m) : w.Holds m := by
  obtain ⟨e, he, _⟩ := h
  exact ⟨e, he⟩

/-- What is built in is in its place, and what is settled is unknown or has an entity that bears its id. -/
structure Whole (w : View) : Prop where
  builtin {m : EntityId} {e : Entity} : Builtin.entities[m.index]? = some e → w.entity? m = some e
  settled {d : DeclId} {r : Resolution} : w.resolution? d = some r →
    r.entity = Builtin.unknown ∨ ∃ e, w.entity? r.entity = some e ∧ e.declId? = some d

namespace Whole

variable {w : View} (h : w.Whole)

include h

/-! ### Types -/

theorem closes_builtin {m : EntityId} {e : Entity} (he : Builtin.entities[m.index]? = some e) : w.Closes m := by
  refine ⟨e, h.builtin he, fun _ k hk => ?_⟩
  rw [Builtin.links_of_mem e (List.mem_of_getElem? he)] at hk
  cases hk

theorem closes_unknown : w.Closes Builtin.unknown := h.closes_builtin rfl

theorem closes_ofName (name : String) : w.Closes (Builtin.ofName name) := by
  obtain ⟨_, he⟩ := Builtin.exists_of_ofName name
  exact h.closes_builtin he

theorem closes_settled {d : DeclId} {r : Resolution} (hr : w.resolution? d = some r) : w.Closes r.entity := by
  rcases h.settled hr with hunknown | ⟨e, he, hid⟩
  · rw [hunknown]
    exact h.closes_unknown
  · refine ⟨e, he, fun hnone => ?_⟩
    rw [hid] at hnone
    cases hnone

theorem closes_of_resolves {v : Json} {r : Resolution} (hr : w.Resolves v r) : w.Closes r.entity := by
  cases hn : Node.ofJson? v with
  | some n => exact h.closes_settled ((resolves_of_node hn).mp hr)
  | none =>
    rw [(resolves_of_unreadable hn).mp hr]
    exact h.closes_unknown

theorem closes_of_refers {d : DeclId} {m : EntityId} (hm : w.Refers d m) : w.Closes m := by
  rcases hm with ⟨r, hr, rfl⟩ | ⟨_, rfl⟩
  · exact h.closes_settled hr
  · exact h.closes_unknown

/-- One level of a type expression: the entity of the expression stores what the expressions inside it stand for. -/
theorem closes_of_level {inner : Json → EntityId → Prop} (hinner : ∀ v m, inner v m → w.Holds m) {arguments : List Json}
    {m : EntityId} {e : TypeExpr} (hm : w.Level inner arguments m e) : w.Closes m := by
  have holds {vs : List Json} {ms : List EntityId} (hms : List.Forall₂ inner vs ms) {k : EntityId} (hk : k ∈ ms) :
      w.Holds k := by
    obtain ⟨v, _, hv⟩ := exists_rel_of_mem hms hk
    exact hinner v k hv
  cases e with
  | intrinsic name =>
    obtain rfl := hm
    exact h.closes_ofName name
  | malformedReference | unknown =>
    obtain rfl := hm
    exact h.closes_unknown
  | internalReference d => exact h.closes_of_refers hm
  | reflection decl =>
    obtain ⟨r, hr, rfl⟩ := hm
    exact h.closes_of_resolves hr
  | array element =>
    obtain ⟨k, as, hk, has, hm⟩ := hm
    refine ⟨_, hm, fun _ k' hk' => ?_⟩
    rcases List.mem_cons.mp hk' with rfl | hk'
    · exact hinner _ _ hk
    · exact holds has hk'
  | union members | intersection members =>
    obtain ⟨ms, as, hms, has, hm⟩ := hm
    refine ⟨_, hm, fun _ k hk => ?_⟩
    rcases List.mem_append.mp hk with hk | hk
    · exact holds hms hk
    · exact holds has hk
  | externalReference | stringLiteral | typeParameter | typeOperator =>
    obtain ⟨as, has, hm⟩ := hm
    exact ⟨_, hm, fun _ k hk => holds has hk⟩

/-- What a type expression denotes has an entity. -/
theorem closes_of_denotes {depth : Nat} {v : Json} {m : EntityId} (hm : w.Denotes depth v m) : w.Closes m := by
  by_cases hdepth : w.options.maxTypeDepth ≤ depth
  · rw [(denotes_of_le hdepth).mp hm]
    exact h.closes_unknown
  · have hlt := Nat.not_le.mp hdepth
    rw [denotes_of_lt hlt] at hm
    exact h.closes_of_level (fun v k hk => (closes_of_denotes hk).holds) hm
termination_by w.options.maxTypeDepth - depth

variable {depth : Nat} {n : Node} {m : EntityId}

theorem holds_of_denotesOption {v? : Option Json} (hm : w.DenotesOption depth v? m) : w.Holds m := by
  cases v? with
  | some v => exact (h.closes_of_denotes hm).holds
  | none =>
    obtain rfl := hm
    exact h.closes_unknown.holds

theorem holds_of_types {vs : List Json} {ms : List EntityId} (hms : List.Forall₂ (w.Denotes depth) vs ms) :
    ∀ m ∈ ms, w.Holds m := by
  intro m hm
  obtain ⟨v, _, hv⟩ := exists_rel_of_mem hms hm
  exact (h.closes_of_denotes hv).holds

/-! ### Declarations -/

theorem holds_of_membersOf {children : List Json} {ms : List Member} (hms : w.MembersOf children ms) :
    ∀ m ∈ ms.map (·.entity), w.Holds m := by
  intro m hm
  obtain ⟨x, hx, rfl⟩ := List.mem_map.mp hm
  obtain ⟨_, _, _, _, _, hresolution⟩ := exists_child_of_membersOf hms hx
  exact (h.closes_settled hresolution).holds

theorem holds_of_scopeOf {s : Scope} (hs : w.ScopeOf n s) : ∀ m ∈ s.links, w.Holds m := by
  obtain ⟨ms, hms, rfl⟩ := hs
  exact fun m hm => h.holds_of_membersOf hms m (Scope.mem_of_mem_links hm)

theorem holds_of_indexSignature {signature : Option IndexSignature} (hs : w.IndexSignatureOfNode depth n signature) :
    ∀ m ∈ signature.toList.flatMap IndexSignature.links, w.Holds m := by
  unfold IndexSignatureOfNode IndexSignatureOf at hs
  split at hs
  · split at hs
    · obtain ⟨indexType, valueType, hindex, hvalue, rfl⟩ := hs
      intro m hm
      rw [Option.toList_some, List.flatMap_singleton] at hm
      rcases List.mem_cons.mp hm with rfl | hm
      · exact h.holds_of_denotesOption hindex
      · obtain rfl := List.mem_singleton.mp hm
        exact h.holds_of_denotesOption hvalue
    · subst hs
      exact fun _ hm => nomatch hm
  · subst hs
    exact fun _ hm => nomatch hm

theorem holds_of_shapeOf {s : Shape} {ms : List Member} (hs : w.ShapeOf depth n s ms) : ∀ m ∈ s.links, w.Holds m := by
  obtain ⟨typeArguments, extendedTypes, implementedTypes, indexSignature, harguments, hextended, himplemented, hms,
    hsignature, rfl⟩ := hs
  intro m hm
  rw [(Shape.links_perm _).mem_iff, List.mem_append] at hm
  rcases hm with hm | hm
  · simp only [Shape.types, Shape.withMembers, List.mem_append] at hm
    rcases hm with ((hm | hm) | hm) | hm
    · exact h.holds_of_types harguments m hm
    · exact h.holds_of_types hextended m hm
    · exact h.holds_of_types himplemented m hm
    · exact h.holds_of_indexSignature hsignature m hm
  · exact h.holds_of_membersOf hms m (Shape.mem_of_mem_memberLinks hm)

theorem holds_of_signatureOf {s : Signature} (hs : w.SignatureOf depth n s) : ∀ m ∈ s.links, w.Holds m := by
  obtain ⟨parameters, returnType, hparameters, hreturn, rfl⟩ := hs
  intro m hm
  rcases List.mem_append.mp hm with hm | hm
  · obtain ⟨p, hp, rfl⟩ := List.mem_map.mp hm
    obtain ⟨p?, hp?, hsome⟩ := List.mem_filterMap.mp hp
    obtain rfl : p? = some p := hsome
    obtain ⟨v, _, hv⟩ := exists_rel_of_mem hparameters hp?
    unfold ParameterOf at hv
    split at hv
    · obtain ⟨type, htype, heq⟩ := hv
      cases heq
      exact h.holds_of_denotesOption htype
    · cases hv
  · obtain rfl := List.mem_singleton.mp hm
    exact h.holds_of_denotesOption hreturn

theorem holds_of_callableOf {kind : CallableKind} {c : Callable} (hc : w.CallableOf depth n kind c) :
    ∀ m ∈ c.links, w.Holds m := by
  obtain ⟨signatures, typeArguments, hsignatures, harguments, rfl⟩ := hc
  intro m hm
  rcases List.mem_append.mp hm with hm | hm
  · obtain ⟨s, hs, hm⟩ := List.mem_flatMap.mp hm
    obtain ⟨x, _, hx⟩ := exists_rel_of_mem hsignatures hs
    exact h.holds_of_signatureOf hx m hm
  · exact h.holds_of_types harguments m hm

/-- What an entity stores that shows a node has an entity. -/
theorem holds_of_shows {kind : DeclKind} {e : Entity} (hshow : w.Shows depth n kind e) : ∀ m ∈ e.links, w.Holds m := by
  cases kind with
  | moduleDecl | namespaceDecl =>
    obtain ⟨s, hs, rfl⟩ := hshow
    exact h.holds_of_scopeOf hs
  | classDecl =>
    obtain ⟨body, ms, hs, rfl⟩ := hshow
    intro m hm
    rcases List.mem_append.mp hm with hm | hm
    · exact h.holds_of_shapeOf hs m hm
    · obtain ⟨_, _, _, _, _, _, _, hms, _⟩ := hs
      exact h.holds_of_membersOf hms m (Member.mem_of_constructor? hm)
  | interfaceDecl | interfaceLiteral | objectLiteral =>
    obtain ⟨s, ms, hs, rfl⟩ := hshow
    exact h.holds_of_shapeOf hs
  | enumDecl =>
    obtain rfl := hshow
    exact fun _ hm => nomatch hm
  | typeAlias | property | accessor =>
    obtain ⟨type, htype, rfl⟩ := hshow
    intro m hm
    obtain rfl := List.mem_singleton.mp hm
    exact h.holds_of_denotesOption htype
  | function | method | constructor =>
    obtain ⟨c, hc, rfl⟩ := hshow
    exact h.holds_of_callableOf hc
  | indexSignature => exact hshow.elim

end Whole

end View

/-! ## Finished graphs -/

namespace Graph

variable {root : Json} {o : Options} {g : Graph} {t : Build.State} {β : Type}

theorem holds_iff {m : EntityId} : g.view.Holds m ↔ m.index < g.size := by
  constructor
  · rintro ⟨e, he⟩
    obtain ⟨hlt, _⟩ := Array.getElem?_eq_some_iff.mp he
    exact hlt
  · intro hlt
    exact ⟨g.entities[m.index], Array.getElem?_eq_getElem hlt⟩

theorem EndsIn.whole (ht : g.EndsIn root o t) : g.view.Whole where
  builtin {m e} he := by
    have hstart : (Build.State.start root).arena.get? m = some (some e) := by
      rw [Build.State.start, Builtin.get?_arena, he, Option.map_some]
    exact ht.get?_eq_some_iff.mpr (ht.grown.filled hstart)
  settled {d r} hr := by
    obtain ⟨m, hm, rfl⟩ := Option.map_eq_some_iff.mp hr
    exact ht.answered hm

/-- Places that are stored are places of entities. -/
theorem EndsIn.holds_links (ht : g.EndsIn root o t) {m : EntityId} {e : Entity} (hm : g.get? m = some e) :
    ∀ k ∈ e.links, g.view.Holds k := by
  cases hid : e.declId? with
  | some d =>
    obtain ⟨n, _, kind, depth, _, _, _, _, hshow, _⟩ := ht.declared hm hid
    exact ht.whole.holds_of_shows hshow
  | none =>
    have hcloses : g.view.Closes m := by
      rcases ht.undeclared hm hid with hbuiltin | ⟨depth, v, _, hd⟩
      · exact ht.whole.closes_builtin hbuiltin
      · exact ht.whole.closes_of_denotes hd
    obtain ⟨e', he', hlinks⟩ := hcloses
    replace he' : g.get? m = some e' := he'
    rw [hm] at he'
    cases he'
    exact hlinks hid

/-- The modules of a graph are module entities. -/
theorem EndsIn.moduleDecl_of_mem (ht : g.EndsIn root o t) {m : EntityId} (hm : m ∈ g.modules) :
    ∃ s, g.get? m = some (.moduleDecl s) := by
  obtain ⟨found, hfound, heq⟩ := ht.ensured ht.modules
  rw [heq] at hm
  obtain ⟨r, hr, rfl⟩ := List.mem_map.mp hm
  obtain ⟨hr, hkind⟩ := List.mem_filter.mp hr
  have hkind : r.kind = some .moduleDecl := of_decide_eq_true hkind
  obtain ⟨v, _, hv⟩ := exists_rel_of_mem hfound hr
  cases hn : Node.ofJson? v with
  | some n =>
    obtain ⟨m, _, rfl⟩ := Option.map_eq_some_iff.mp ((View.resolves_of_node hn).mp hv)
    obtain ⟨e, he, hkind⟩ := Option.bind_eq_some_iff.mp hkind
    obtain ⟨s, rfl⟩ := Entity.eq_moduleDecl hkind
    exact ⟨s, he⟩
  | none =>
    rw [(View.resolves_of_unreadable hn).mp hv] at hkind
    cases hkind

/-! ## Questions that insist on entities -/

/-- What is asked of the entities at places, one place after the other; there is no answer where a place has no
entity. -/
def askAll (g : Graph) (ask : EntityId → Entity → Option β) : List EntityId → Option (List β)
  | [] => some []
  | id :: ids => do
    let e ← g.get? id
    let answers ← g.askAll ask ids
    return (ask id e).toList ++ answers

theorem askAll_eq (ask : EntityId → Entity → Option β) {ids : List EntityId} (h : ∀ id ∈ ids, g.view.Holds id) :
    g.askAll ask ids = some (ids.filterMap fun id => (g.get? id).bind (ask id)) := by
  induction ids with
  | nil => rfl
  | cons id ids ih =>
    obtain ⟨e, he⟩ := h id List.mem_cons_self
    replace he : g.get? id = some e := he
    have hrest := ih fun id' hid' => h id' (List.mem_cons_of_mem _ hid')
    rw [askAll, he, hrest, List.filterMap_cons, he]
    cases hask : ask id e <;> simp [hask]

/-- The names of the modules, each of which has to have an entity. -/
def moduleNamesM (g : Graph) : Option (List String) := g.askAll (fun _ e => e.name?) g.modules

/-- The scopes of the modules, each of which has to have an entity. -/
def moduleScopesM (g : Graph) : Option (List Scope) := g.askAll (fun _ e => e.scope?) g.modules

/-- The scope of the first module of a name, found in a list of all modules by name. -/
def moduleM (g : Graph) (name : String) : Option (Except Failure Scope) := do
  let named ← g.askAll (fun id e => e.name?.map fun name => (name, id)) g.modules
  match named.lookup name with
  | none => return .error (.moduleNotFound name)
  | some id =>
    let e ← g.get? id
    match e.scope? with
    | some scope => return .ok scope
    | none => return .error (.breach (.moduleWithoutScope id))

/-- The classes of a name that stand directly in a module, each of which has to have an entity. -/
def classIdsM (g : Graph) (name : String) : Option (List EntityId) := do
  let scopes ← g.moduleScopesM
  g.askAll (fun id e => if e.name? = some name then some id else none) (scopes.flatMap (·.classes))

/-- The classes of a name as shapes. -/
def classesM (g : Graph) (name : String) : Option (List ClassShape) := do
  let ids ← g.classIdsM name
  g.askAll (fun _ e => e.class?) ids

/-- Every place that is stored anywhere is the place of an entity, so that every question finds what it looks up. -/
structure LinksClosed (g : Graph) : Prop where
  entities {m k : EntityId} {e : Entity} : g.get? m = some e → k ∈ e.links → k.index < g.size
  modules {m : EntityId} : m ∈ g.modules → m.index < g.size
  declarations {d : DeclId} {m : EntityId} : (d, m) ∈ g.declarations → m.index < g.size
  references {d : DeclId} {m : EntityId} : (d, m) ∈ g.references → m.index < g.size
  builtins (name : String) : (Builtin.ofName name).index < g.size
  /-- Exactly at the places of the graph a look-up succeeds. -/
  found {m : EntityId} : m.index < g.size ↔ ∃ e, g.get? m = some e
  moduleNames : g.moduleNamesM = some g.moduleNames
  moduleScopes : g.moduleScopesM = some g.moduleScopes
  module (name : String) : g.moduleM name = some (g.module name) ∧ ∀ breach, g.module name ≠ .error (.breach breach)
  classIds (name : String) : g.classIdsM name = some (g.classIds name)
  classes (name : String) : g.classesM name = some (g.classes name)

/-- The first module of a name in a list of all modules by name. -/
theorem lookup_named (g : Graph) (name : String) (ids : List EntityId) :
    (ids.filterMap fun id => (g.get? id).bind fun e => e.name?.map fun name => (name, id)).lookup name =
      ids.find? fun id => g.nameAt? id = some name := by
  induction ids with
  | nil => rfl
  | cons id ids ih =>
    have hentry : ((g.get? id).bind fun e => e.name?.map fun name => (name, id)) =
        (g.nameAt? id).map fun name => (name, id) := by
      rw [nameAt?, Option.map_bind]
      rfl
    rw [List.filterMap_cons, hentry]
    cases hname : g.nameAt? id with
    | none => simp [hname, ih]
    | some found =>
      rw [Option.map_some]
      dsimp only
      rw [lookup_cons_eq, ih]
      by_cases heq : name = found
      · simp [hname, heq]
      · simp [hname, heq, Ne.symm heq]

section

variable (ht : g.EndsIn root o t)

include ht

theorem EndsIn.holds_modules : ∀ m ∈ g.modules, g.view.Holds m := by
  intro m hm
  obtain ⟨s, hs⟩ := ht.moduleDecl_of_mem hm
  exact ⟨_, hs⟩

theorem EndsIn.moduleScopesM_eq : g.moduleScopesM = some g.moduleScopes := by
  rw [moduleScopesM, g.askAll_eq _ ht.holds_modules]
  rfl

/-- Whatever a scope holds has an entity. -/
theorem EndsIn.holds_classes : ∀ m ∈ g.moduleScopes.flatMap (·.classes), g.view.Holds m := by
  intro m hm
  obtain ⟨s, hs, hm⟩ := List.mem_flatMap.mp hm
  obtain ⟨id, _, hscope⟩ := List.mem_filterMap.mp hs
  obtain ⟨e, he, hes⟩ := Option.bind_eq_some_iff.mp hscope
  apply ht.holds_links he
  have hlinks : m ∈ s.links := by simp [Scope.links, hm]
  cases e with
  | moduleDecl | namespaceDecl =>
    cases hes
    exact hlinks
  | _ => cases hes

theorem EndsIn.classIdsM_eq (name : String) : g.classIdsM name = some (g.classIds name) := by
  rw [classIdsM, ht.moduleScopesM_eq, Option.bind_eq_bind, Option.bind_some, g.askAll_eq _ ht.holds_classes, classIds,
    ← List.filterMap_eq_filter]
  congr 2
  funext id
  cases he : g.get? id with
  | none => simp [nameAt?, he, Option.guard]
  | some e => simp [nameAt?, he, Option.guard]

theorem EndsIn.classesM_eq (name : String) : g.classesM name = some (g.classes name) := by
  have hholds : ∀ m ∈ g.classIds name, g.view.Holds m := fun m hm => ht.holds_classes m (List.mem_filter.mp hm).1
  rw [classesM, ht.classIdsM_eq, Option.bind_eq_bind, Option.bind_some, g.askAll_eq _ hholds]
  rfl

/-- A module that is found by its name has a scope. -/
theorem EndsIn.module_of_find? {name : String} {id : EntityId}
    (hfind : (g.modules.find? fun id => g.nameAt? id = some name) = some id) :
    ∃ s, g.get? id = some (.moduleDecl s) ∧ g.module name = .ok s := by
  obtain ⟨s, hs⟩ := ht.moduleDecl_of_mem (List.mem_of_find?_eq_some hfind)
  have hscope : g.scopeAt? id = some s := by
    rw [scopeAt?, hs]
    rfl
  refine ⟨s, hs, ?_⟩
  rw [module, moduleId, hfind]
  show (match g.scopeAt? id with
    | some scope => Except.ok scope
    | none => .error (Failure.breach (.moduleWithoutScope id))) = .ok s
  rw [hscope]

theorem EndsIn.moduleM_eq (name : String) : g.moduleM name = some (g.module name) := by
  rw [moduleM, g.askAll_eq _ ht.holds_modules, Option.bind_eq_bind, Option.bind_some, lookup_named]
  cases hfind : g.modules.find? fun id => g.nameAt? id = some name with
  | none =>
    rw [module, moduleId, hfind]
    rfl
  | some id =>
    obtain ⟨s, hs, hmodule⟩ := ht.module_of_find? hfind
    dsimp only
    rw [hs, hmodule]
    rfl

/-- What a question for a module fails with is that there is none of the name. -/
theorem EndsIn.module_ne_breach (name : String) (breach : Breach) : g.module name ≠ .error (.breach breach) := by
  cases hfind : g.modules.find? fun id => g.nameAt? id = some name with
  | none =>
    rw [module, moduleId, hfind]
    exact fun h => nomatch h
  | some id =>
    obtain ⟨s, _, hmodule⟩ := ht.module_of_find? hfind
    rw [hmodule]
    exact fun h => nomatch h

end

/-- All places that a finished graph stores are those of its entities, and no question to it looks up another. -/
theorem linksClosed_of_ofJson (h : ofJson root o = .ok g) : g.LinksClosed := by
  obtain ⟨t, ht⟩ := endsIn_of_ofJson h
  constructor
  case entities => exact fun hm hk => holds_iff.mp (ht.holds_links hm _ hk)
  case modules => exact fun hm => holds_iff.mp (ht.holds_modules _ hm)
  case declarations =>
    intro d m hd
    have hresolution : g.view.resolution? d = some ⟨m, (g.get? m).bind Entity.declKind?⟩ := by
      show (g.entityOf? d).map _ = _
      rw [ht.mem_declarations_iff.mp hd]
      rfl
    exact holds_iff.mp (ht.whole.closes_settled hresolution).holds
  case references =>
    intro d m hd
    exact holds_iff.mp (ht.whole.closes_of_refers (ht.ensured (ht.standsFor hd).refers)).holds
  case builtins => exact fun name => holds_iff.mp (ht.whole.closes_ofName name).holds
  case found => exact fun {m} => holds_iff.symm
  case moduleNames =>
    rw [moduleNamesM, g.askAll_eq _ ht.holds_modules]
    rfl
  case moduleScopes => exact ht.moduleScopesM_eq
  case module => exact fun name => ⟨ht.moduleM_eq name, ht.module_ne_breach name⟩
  case classIds => exact ht.classIdsM_eq
  case classes => exact ht.classesM_eq

theorem linksClosed_shop : ∃ g, ofJson shop { skipPrivateMembers := true } = .ok g ∧ g.LinksClosed := by
  obtain ⟨g, hg, _⟩ := ofJson_shop
  exact ⟨g, hg, linksClosed_of_ofJson hg⟩

end Graph

end EntityGraph

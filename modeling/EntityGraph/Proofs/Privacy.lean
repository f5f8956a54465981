import EntityGraph.Proofs.Accounts
import EntityGraph.Proofs.Partition
import EntityGraph.Proofs.Reached

/-!
# Private members left out

A document can be resolved with its private members and without them. The two graphs number their entities differently
and may even disagree about the kind of a literal, but where ids are distinct each list of members without the private
ones is the list with them, less the private ids (`Graph.skipsPrivate_of_ofJson`), and what is reached without them is
reached with them.

In either graph the ids in a list of members can be read off the document: they are the ids of the children that are
kept and are recognized by a kind that belongs in the list (`Graph.EndsIn.map_declIdAt?`). The lists do not tell apart
the variants of a literal (`Uniform`), so it does not matter from where a child was reached. What is kept when private
members are left out is kept when they are not, and so are the scripts (`Node.script_subset`).
-/

namespace EntityGraph

/-! ## Private declarations -/

/-- Whether a node of the document with the id is private. -/
def Json.marksPrivate (root : Json) (d : DeclId) : Bool := root.nodes.any fun n => n.id = d && n.flags.isPrivate

theorem Json.marksPrivate_eq {root : Json} (hdistinct : root.IdsDistinct) {n : Node} (hn : n.StandsIn root) :
    root.marksPrivate n.id = n.flags.isPrivate := by
  rw [Bool.eq_iff_iff, marksPrivate, List.any_eq_true]
  constructor
  · rintro ⟨m, hm, hprivate⟩
    obtain ⟨hid, hprivate⟩ := Bool.and_eq_true_iff.mp hprivate
    rwa [← (Json.mem_nodes_iff.mp hm).eq_of_id hn hdistinct (of_decide_eq_true hid)]
  · exact fun hprivate => ⟨n, Json.mem_nodes_iff.mpr hn, by simpa using hprivate⟩

/-- The children that are kept, among those with the base shape. -/
theorem Node.keptChildren_eq (o : Options) (n : Node) :
    n.keptChildren o = (n.children.filterMap ofJson?).filter fun c => !(o.skipPrivateMembers && c.flags.isPrivate) := by
  have hskips : o.skips = fun v => (ofJson? v).any fun c => o.skipPrivateMembers && c.flags.isPrivate := by
    funext v
    cases hc : ofJson? v <;> simp [Options.skips, hc]
  rw [keptChildren, hskips, filterMap_kept]

/-- Without its private children a node keeps those that it keeps with them, less the private ones. -/
theorem Node.keptChildren_skipping (o : Options) (n : Node) :
    n.keptChildren { o with skipPrivateMembers := true } =
      (n.keptChildren { o with skipPrivateMembers := false }).filter fun c => !c.flags.isPrivate := by
  simp [keptChildren_eq]

theorem Node.standsIn_of_mem_keptChildren {root : Json} {o : Options} {n c : Node} (hn : n.StandsIn root)
    (hc : c ∈ n.keptChildren o) : c.StandsIn root := by
  obtain ⟨v, hv, hvc⟩ := List.mem_filterMap.mp hc
  exact standsIn_of_ofJson? hvc (.inr (hn.2.inside (inside_children (List.mem_filter.mp hv).1)))

namespace Graph

variable {root : Json} {o : Options} {g g' : Graph} {t t' : Build.State}

/-! ## The ids of members -/

/-- The id of the declaration that the entity at a place stands for. -/
def declIdAt? (g : Graph) (m : EntityId) : Option DeclId := (g.get? m).bind Entity.declId?

/-- A predicate on kinds that does not tell variants apart. -/
def Uniform (p : EntityKind → Bool) : Prop :=
  ∀ {kind kind' : DeclKind}, kind.Variant kind' → p kind.entityKind = p kind'.entityKind

/-- The entity of a node is unknown when the node is not recognized, and else one with its id and a kind of it. -/
theorem EndsIn.unknown_or_declIdAt? (ht : g.EndsIn root o t) (hdistinct : root.IdsDistinct) {c : Node}
    (hc : c.StandsIn root) {m : EntityId} (hm : g.entityOf? c.id = some m) :
    (m = Builtin.unknown ∧ c.entityKind? .reference = none) ∨
      (m ≠ Builtin.unknown ∧ g.declIdAt? m = some c.id ∧ ∃ kind kind', c.entityKind? .reference = some kind ∧
        g.kindAt? m = some kind'.entityKind ∧ kind.Variant kind') := by
  obtain ⟨n, position, hn, hid, hbuilt⟩ := ht.recognized hm
  obtain rfl := hn.eq_of_id hc hdistinct hid
  rcases hbuilt with ⟨hunknown, hk⟩ | ⟨hne, kind', hk, hkind⟩
  · exact .inl ⟨hunknown, (Node.entityKind?_eq_none_iff position .reference).mp hk⟩
  · obtain ⟨e, he, hid⟩ := (ht.answered hm).resolve_left hne
    have hdecl : g.declIdAt? m = some n.id := by rw [declIdAt?, he, Option.bind_some, hid]
    cases hk' : n.entityKind? .reference with
    | none =>
      rw [(Node.entityKind?_eq_none_iff .reference position).mp hk'] at hk
      cases hk
    | some kind => exact .inr ⟨hne, hdecl, kind, kind', rfl, hkind, Node.entityKind?_variant hk' hk⟩

/-- The ids of the entities of some kinds among those of nodes are the ids of the nodes of these kinds. -/
theorem EndsIn.map_declIdAt?_of_nodes (ht : g.EndsIn root o t) (hdistinct : root.IdsDistinct)
    {p : EntityKind → Bool} (hp : Uniform p) {cs : List Node} (hcs : ∀ c ∈ cs, c.StandsIn root) {ids : List EntityId}
    (hids : ids.map some = (cs.map fun c => g.entityOf? c.id).filter (· ≠ some Builtin.unknown)) :
    (ids.filter fun m => (g.kindAt? m).any p).map g.declIdAt? =
      ((cs.filter fun c => (c.entityKind? .reference).any fun kind => p kind.entityKind).map Node.id).map some := by
  induction cs generalizing ids with
  | nil =>
    obtain rfl := List.map_eq_nil_iff.mp hids
    rfl
  | cons c cs ih =>
    have hcs' : ∀ c' ∈ cs, c'.StandsIn root := fun c' hc' => hcs c' (List.mem_cons_of_mem c hc')
    cases hm : g.entityOf? c.id with
    | none =>
      rw [List.map_cons, hm, List.filter_cons_of_pos (by simp)] at hids
      obtain ⟨_, _, _, hnone, _⟩ := List.map_eq_cons_iff.mp hids
      cases hnone
    | some m =>
      rw [List.map_cons, hm] at hids
      rcases ht.unknown_or_declIdAt? hdistinct (hcs c List.mem_cons_self) hm with
        ⟨rfl, hk⟩ | ⟨hne, hdecl, kind, kind', hk, hkind, hvariant⟩
      · rw [List.filter_cons_of_neg (by simp)] at hids
        rw [List.filter_cons_of_neg (by simp [hk])]
        exact ih hcs' hids
      · rw [List.filter_cons_of_pos (by simpa using hne)] at hids
        obtain ⟨m', rest, rfl, heq, hrest⟩ := List.map_eq_cons_iff.mp hids
        obtain rfl := Option.some.inj heq
        cases hpk : p kind.entityKind with
        | true =>
          rw [List.filter_cons_of_pos (by simp [hkind, ← hp hvariant, hpk]),
            List.filter_cons_of_pos (by simp [hk, hpk]), List.map_cons, List.map_cons, List.map_cons, hdecl,
            ih hcs' hrest]
        | false =>
          rw [List.filter_cons_of_neg (by simp [hkind, ← hp hvariant, hpk]),
            List.filter_cons_of_neg (by simp [hk, hpk])]
          exact ih hcs' hrest

/-- The ids at the places `ids` of `g` are those at the places `ids'` of `g'`, in order, but for the private ones. -/
def Drops (g g' : Graph) (root : Json) (ids ids' : List EntityId) : Prop :=
  ∃ ds : List DeclId, ids'.map g'.declIdAt? = ds.map some ∧
    ids.map g.declIdAt? = (ds.filter fun d => !root.marksPrivate d).map some

/-- The lists of a scope with and without the private members. -/
structure ScopeDrops (g g' : Graph) (root : Json) (s s' : Scope) : Prop where
  members : g.Drops g' root s.members s'.members
  namespaces : g.Drops g' root s.namespaces s'.namespaces
  properties : g.Drops g' root s.properties s'.properties
  interfaces : g.Drops g' root s.interfaces s'.interfaces
  classes : g.Drops g' root s.classes s'.classes
  enums : g.Drops g' root s.enums s'.enums
  typeAliases : g.Drops g' root s.typeAliases s'.typeAliases
  functions : g.Drops g' root s.functions s'.functions
  objectLiterals : g.Drops g' root s.objectLiterals s'.objectLiterals

/-- The lists of a shape with and without the private members. -/
structure ShapeDrops (g g' : Graph) (root : Json) (s s' : Shape) : Prop where
  members : g.Drops g' root s.members s'.members
  properties : g.Drops g' root s.properties s'.properties
  methods : g.Drops g' root s.methods s'.methods
  objectLiterals : g.Drops g' root s.objectLiterals s'.objectLiterals

/-- Among the variants of kinds only those of literals differ. -/
theorem uniform_contains {kinds : List EntityKind} (hcallable : kinds.contains .function = kinds.contains .method)
    (hliteral : kinds.contains .interfaceLiteral = kinds.contains .objectLiteral) : Uniform kinds.contains := by
  intro kind kind' h
  cases h with
  | refl => rfl
  | functionMethod => exact hcallable
  | methodFunction => exact hcallable.symm
  | typeValue => exact hliteral
  | valueType => exact hliteral.symm

section

variable (hdistinct : root.IdsDistinct) (ht : g.EndsIn root { o with skipPrivateMembers := true } t)
  (ht' : g'.EndsIn root { o with skipPrivateMembers := false } t') {n : Node} (hn : n.StandsIn root)

include hdistinct ht ht' hn

section

variable {ms ms' : List Member} (hms : g.view.MembersOf n.children ms) (hms' : g'.view.MembersOf n.children ms')

include hms hms'

theorem drops_of_uniform {p : EntityKind → Bool} (hp : Uniform p) :
    g.Drops g' root ((ms.map (·.entity)).filter fun m => (g.kindAt? m).any p)
      ((ms'.map (·.entity)).filter fun m => (g'.kindAt? m).any p) := by
  have hids := ht.members_eq hms
  have hids' := ht'.members_eq hms'
  rw [ht.options] at hids
  rw [ht'.options] at hids'
  have hmap := ht.map_declIdAt?_of_nodes hdistinct hp (fun c => Node.standsIn_of_mem_keptChildren hn) hids
  have hmap' := ht'.map_declIdAt?_of_nodes hdistinct hp (fun c => Node.standsIn_of_mem_keptChildren hn) hids'
  refine ⟨_, hmap', ?_⟩
  rw [hmap, n.keptChildren_skipping, List.filter_map, List.filter_filter, List.filter_filter]
  congr 2
  refine List.filter_congr fun c hc => ?_
  rw [Function.comp_apply, Json.marksPrivate_eq hdistinct (Node.standsIn_of_mem_keptChildren hn hc), Bool.and_comm]

/-- A list of the members of some kinds. -/
theorem drops_part {kinds : List EntityKind} {part part' : List EntityId}
    (hpart : part = g.ofKinds kinds (ms.map (·.entity))) (hpart' : part' = g'.ofKinds kinds (ms'.map (·.entity)))
    (hcallable : kinds.contains .function = kinds.contains .method)
    (hliteral : kinds.contains .interfaceLiteral = kinds.contains .objectLiteral) : g.Drops g' root part part' := by
  rw [hpart, hpart']
  exact drops_of_uniform hdistinct ht ht' hn hms hms' (uniform_contains hcallable hliteral)

theorem drops_members : g.Drops g' root (ms.map (·.entity)) (ms'.map (·.entity)) := by
  have all {g : Graph} {children : List Json} {ms : List Member} (hms : g.view.MembersOf children ms) :
      ((ms.map (·.entity)).filter fun m => (g.kindAt? m).any fun _ => true) = ms.map (·.entity) := by
    refine List.filter_eq_self.mpr fun m hm => ?_
    obtain ⟨x, hx, rfl⟩ := List.mem_map.mp hm
    rw [(kindAt?_of_membersOf hms hx).1]
    rfl
  have hdrops := drops_of_uniform hdistinct ht ht' hn hms hms' (p := fun _ => true) fun _ => rfl
  rwa [all hms, all hms'] at hdrops

end

theorem scopeDrops_of_scopeOf {s s' : Scope} (hs : g.view.ScopeOf n s) (hs' : g'.view.ScopeOf n s') :
    g.ScopeDrops g' root s s' := by
  have hdeals := dealsOut_of_scopeOf hs
  have hdeals' := dealsOut_of_scopeOf hs'
  obtain ⟨ms, hms, rfl⟩ := hs
  obtain ⟨ms', hms', rfl⟩ := hs'
  have part {kinds part part'} := @drops_part _ _ _ _ _ _ hdistinct ht ht' _ hn _ _ hms hms' kinds part part'
  exact {
    members := drops_members hdistinct ht ht' hn hms hms'
    namespaces := part hdeals.namespaces hdeals'.namespaces rfl rfl
    properties := part hdeals.properties hdeals'.properties rfl rfl
    interfaces := part hdeals.interfaces hdeals'.interfaces rfl rfl
    classes := part hdeals.classes hdeals'.classes rfl rfl
    enums := part hdeals.enums hdeals'.enums rfl rfl
    typeAliases := part hdeals.typeAliases hdeals'.typeAliases rfl rfl
    functions := part hdeals.functions hdeals'.functions rfl rfl
    objectLiterals := part hdeals.objectLiterals hdeals'.objectLiterals rfl rfl }

theorem shapeDrops_of_shapeOf {depth depth' : Nat} {s s' : Shape} {ms ms' : List Member}
    (hs : g.view.ShapeOf depth n s ms) (hs' : g'.view.ShapeOf depth' n s' ms') :
    g.ShapeDrops g' root s s' ∧
      g.Drops g' root (g.ofKinds [.constructor] s.members) (g'.ofKinds [.constructor] s'.members) := by
  have hdeals := dealsOutShape_of_shapeOf hs
  have hdeals' := dealsOutShape_of_shapeOf hs'
  obtain ⟨_, _, _, _, _, _, _, hms, _, rfl⟩ := hs
  obtain ⟨_, _, _, _, _, _, _, hms', _, rfl⟩ := hs'
  have part {kinds part part'} := @drops_part _ _ _ _ _ _ hdistinct ht ht' _ hn _ _ hms hms' kinds part part'
  constructor
  · exact {
      members := drops_members hdistinct ht ht' hn hms hms'
      properties := part hdeals.properties hdeals'.properties rfl rfl
      methods := part hdeals.methods hdeals'.methods rfl rfl
      objectLiterals := part hdeals.objectLiterals hdeals'.objectLiterals rfl rfl }
  · exact part rfl rfl rfl rfl

end

/-! ## One declaration in two graphs -/

/-- The entity of a declaration. -/
def entityFor? (g : Graph) (d : DeclId) : Option Entity := (g.entityOf? d).bind g.get?

/-- An entity that bears an id and answers for one shows a node with this id. -/
theorem EndsIn.shown (ht : g.EndsIn root o t) {d d' : DeclId} {e : Entity} (h : g.entityFor? d = some e)
    (hid : e.declId? = some d') : ∃ (n : Node) (depth : Nat) (kind : DeclKind) (position : Position),
      n.StandsIn root ∧ n.id = d ∧ n.entityKind? position = some kind ∧ g.view.Shows depth n kind e := by
  obtain ⟨m, hm, he⟩ := Option.bind_eq_some_iff.mp h
  rcases ht.answered hm with rfl | ⟨e', he', hd⟩
  · rw [ht.get?_unknown] at he
    cases he
    cases hid
  · rw [he] at he'
    cases he'
    obtain ⟨n, position, kind, depth, hn, hnid, hk, _, hshow, _⟩ := ht.declared he hd
    exact ⟨n, depth, kind, position, hn, hnid, hk, hshow⟩

end Graph

/-- Exactly entities of some kinds have scopes. -/
theorem Entity.isSome_scope? (e : Entity) : e.scope?.isSome = e.kind.isScope := by
  cases e with
  | property p => cases hp : p.isAccessor <;> simp [scope?, kind, hp, EntityKind.isScope]
  | callable c =>
    obtain ⟨_, _, kind, _, _, _, _⟩ := c
    cases kind <;> rfl
  | _ => rfl

/-- Exactly entities of some kinds have shapes. -/
theorem Entity.isSome_shape? (e : Entity) : e.shape?.isSome = e.kind.isShape := by
  cases e with
  | property p => cases hp : p.isAccessor <;> simp [shape?, kind, hp, EntityKind.isShape]
  | callable c =>
    obtain ⟨_, _, kind, _, _, _, _⟩ := c
    cases kind <;> rfl
  | _ => rfl

theorem Entity.eq_classDecl {e : Entity} {c : ClassShape} (h : e.class? = some c) : e = .classDecl c := by
  cases e <;> cases h
  rfl

/-- Variants are of one form. -/
theorem DeclKind.Variant.form {kind kind' : DeclKind} (h : kind.Variant kind') :
    kind.entityKind.isScope = kind'.entityKind.isScope ∧ kind.entityKind.isShape = kind'.entityKind.isShape := by
  cases h <;> exact ⟨rfl, rfl⟩

namespace Build

variable {o o' : Options} {depth : Nat}

/-- The script of a type depends on nothing but the greatest depth among the options. -/
theorem typeScript_congr (h : o'.maxTypeDepth = o.maxTypeDepth) (depth : Nat) :
    typeScript o depth = typeScript o' depth := by
  funext position v
  by_cases hdepth : o.maxTypeDepth ≤ depth
  · rw [typeScript_of_le hdepth, typeScript_of_le (h ▸ hdepth)]
  · have hlt := Nat.not_le.mp hdepth
    rw [typeScript_of_lt hlt, typeScript_of_lt (h ▸ hlt), typeScript_congr h (depth + 1)]
termination_by o.maxTypeDepth - depth

/-- Leaving out more children asks for no other declarations. -/
theorem membersScript_subset (hskip : ∀ v, o'.skips v = true → o.skips v = true) (position : Position)
    (children : List Json) : membersScript o depth position children ⊆ membersScript o' depth position children := by
  apply List.map_subset
  intro v hv
  obtain ⟨hv, hkept⟩ := List.mem_filter.mp hv
  refine List.mem_filter.mpr ⟨hv, ?_⟩
  cases hskipped : o'.skips v with
  | true => simp [hskip v hskipped] at hkept
  | false => rfl

end Build

open Build in
/-- Without its private children a node asks for no other declarations. -/
theorem Node.script_subset {o o' : Options} (hdepth : o'.maxTypeDepth = o.maxTypeDepth)
    (hskip : ∀ v, o'.skips v = true → o.skips v = true) (depth : Nat) (n : Node) (kind : DeclKind)
    (position : Position) : n.script o depth kind position ⊆ n.script o' depth kind position := by
  have htype : typeScript o = typeScript o' := funext (typeScript_congr hdepth)
  have htype? : type?Script o = type?Script o' := by
    unfold type?Script
    rw [htype]
  have hindex : indexSignatureScript o = indexSignatureScript o' := by
    unfold indexSignatureScript
    rw [htype?]
  have hcallable : callableScript o = callableScript o' := by
    unfold callableScript signatureScript parameterScript
    rw [htype, htype?]
  have hshape (body : Position) : shapeScript o depth n body ⊆ shapeScript o' depth n body := by
    intro a ha
    simp only [shapeScript, htype, hindex, List.mem_append] at ha ⊢
    have hmembers := @membersScript_subset _ _ depth hskip body n.children a
    exact ha.imp_right (.imp_right (.imp_right (.imp_left hmembers)))
  cases kind with
  | moduleDecl | namespaceDecl => exact membersScript_subset hskip _ _
  | classDecl | interfaceDecl | interfaceLiteral | objectLiteral => exact hshape _
  | enumDecl | indexSignature => exact List.Subset.refl _
  | typeAlias | property | accessor =>
    simp only [script, htype?]
    exact List.Subset.refl _
  | function | method | constructor =>
    simp only [script, hcallable]
    exact List.Subset.refl _

/-- Options that leave out less reach all that is reached. -/
theorem DeclId.ReachedIn.mono {root : Json} {o o' : Options} {d : DeclId}
    (hdepth : o'.maxTypeDepth = o.maxTypeDepth) (hskip : ∀ v, o'.skips v = true → o.skips v = true)
    (hmodules : o'.skipsModule = o.skipsModule) (h : d.ReachedIn root o) : d.ReachedIn root o' := by
  induction h with
  | top ha hd hcarried =>
    refine .top ?_ hd hcarried
    rwa [Json.script, hmodules]
  | inner _ hn hk ha hd hcarried ih => exact .inner ih hn hk (Node.script_subset hdepth hskip _ _ _ _ ha) hd hcarried

namespace Graph

variable {root : Json} {o : Options} {g g' : Graph}

/-- A graph without the private members of a document, and the one with them. -/
structure SkipsPrivate (g g' : Graph) (root : Json) : Prop where
  scope {d : DeclId} {s s' : Scope} : (g.entityFor? d).bind Entity.scope? = some s →
    (g'.entityFor? d).bind Entity.scope? = some s' → g.ScopeDrops g' root s s'
  shape {d : DeclId} {s s' : Shape} : (g.entityFor? d).bind Entity.shape? = some s →
    (g'.entityFor? d).bind Entity.shape? = some s' → g.ShapeDrops g' root s s'
  /-- The constructor of a class is the first of those that are left. -/
  constructorId {d : DeclId} {c c' : ClassShape} : (g.entityFor? d).bind Entity.class? = some c →
    (g'.entityFor? d).bind Entity.class? = some c' →
      c.constructorId = (g.ofKinds [.constructor] c.body.members).head? ∧
        g.Drops g' root (g.ofKinds [.constructor] c.body.members) (g'.ofKinds [.constructor] c'.body.members)
  /-- What is a scope or a shape in one of the graphs is so in the other. -/
  form {d : DeclId} {e e' : Entity} : g.entityFor? d = some e → g'.entityFor? d = some e' →
    e.scope?.isSome = e'.scope?.isSome ∧ e.shape?.isSome = e'.shape?.isSome
  reached : g.Uncut → g'.Uncut → ∀ d, (∃ m, g.entityOf? d = some m) → ∃ m, g'.entityOf? d = some m
  unknown {d : DeclId} {m m' : EntityId} : g.entityOf? d = some m → g'.entityOf? d = some m' →
    (m = Builtin.unknown ↔ m' = Builtin.unknown)

section

variable {t t' : Build.State} (hdistinct : root.IdsDistinct)

include hdistinct

/-- The entities of one declaration in two graphs of a document show one node, by kinds that are variants. -/
theorem exists_node_of_entityFor? {o o' : Options} (ht : g.EndsIn root o t) (ht' : g'.EndsIn root o' t') {d : DeclId}
    {e e' : Entity} (he : g.entityFor? d = some e) (he' : g'.entityFor? d = some e') {c c' : DeclId}
    (hid : e.declId? = some c) (hid' : e'.declId? = some c') :
    ∃ (n : Node) (depth depth' : Nat) (kind kind' : DeclKind), n.StandsIn root ∧ kind.Variant kind' ∧
      g.view.Shows depth n kind e ∧ g'.view.Shows depth' n kind' e' := by
  obtain ⟨n, depth, kind, position, hn, hnid, hk, hshow⟩ := ht.shown he hid
  obtain ⟨n', depth', kind', position', hn', hnid', hk', hshow'⟩ := ht'.shown he' hid'
  obtain rfl := hn.eq_of_id hn' hdistinct (hnid.trans hnid'.symm)
  exact ⟨n, depth, depth', kind, kind', hn, Node.entityKind?_variant hk hk', hshow, hshow'⟩

/-- Whether a declaration stands for the unknown type does not depend on the options. -/
theorem unknown_iff {o o' : Options} (ht : g.EndsIn root o t) (ht' : g'.EndsIn root o' t') {d : DeclId}
    {m m' : EntityId} (hm : g.entityOf? d = some m) (hm' : g'.entityOf? d = some m') :
    m = Builtin.unknown ↔ m' = Builtin.unknown := by
  obtain ⟨n, _, hn, rfl, _⟩ := ht.recognized hm
  rcases ht.unknown_or_declIdAt? hdistinct hn hm with ⟨hunknown, hk⟩ | ⟨hne, _, kind, _, hk, _⟩
  · rcases ht'.unknown_or_declIdAt? hdistinct hn hm' with ⟨hunknown', _⟩ | ⟨_, _, kind', _, hk', _⟩
    · exact iff_of_true hunknown hunknown'
    · rw [hk] at hk'
      cases hk'
  · rcases ht'.unknown_or_declIdAt? hdistinct hn hm' with ⟨_, hk'⟩ | ⟨hne', _⟩
    · rw [hk] at hk'
      cases hk'
    · exact iff_of_false hne hne'

theorem form_of_entityFor? {o o' : Options} (ht : g.EndsIn root o t) (ht' : g'.EndsIn root o' t') {d : DeclId}
    {e e' : Entity} (he : g.entityFor? d = some e) (he' : g'.entityFor? d = some e') :
    e.scope?.isSome = e'.scope?.isSome ∧ e.shape?.isSome = e'.shape?.isSome := by
  obtain ⟨m, hm, hme⟩ := Option.bind_eq_some_iff.mp he
  obtain ⟨m', hm', hme'⟩ := Option.bind_eq_some_iff.mp he'
  have hunknown := unknown_iff hdistinct ht ht' hm hm'
  rcases ht.answered hm with rfl | ⟨e₁, he₁, hid⟩
  · obtain rfl := hunknown.mp rfl
    rw [ht.get?_unknown] at hme
    rw [ht'.get?_unknown] at hme'
    cases hme
    cases hme'
    exact ⟨rfl, rfl⟩
  · rcases ht'.answered hm' with rfl | ⟨e₂, he₂, hid'⟩
    · rw [hunknown.mpr rfl, ht.get?_unknown] at he₁
      cases he₁
      cases hid
    · rw [hme] at he₁
      rw [hme'] at he₂
      cases he₁
      cases he₂
      obtain ⟨n, _, _, kind, kind', _, hvariant, hshow, hshow'⟩ :=
        exists_node_of_entityFor? hdistinct ht ht' he he' hid hid'
      rw [Entity.isSome_scope?, Entity.isSome_scope?, Entity.isSome_shape?, Entity.isSome_shape?,
        (Entity.kind_of_declKind? hshow.stamp.2).1, (Entity.kind_of_declKind? hshow'.stamp.2).1]
      exact hvariant.form

end

/-- Leaving out private members is a filter: where ids are distinct, it takes the private ids out of every list of
members and leaves the rest in order, and it reaches nothing that is not reached otherwise. -/
theorem skipsPrivate_of_ofJson (hdistinct : root.IdsDistinct)
    (h : ofJson root { o with skipPrivateMembers := true } = .ok g)
    (h' : ofJson root { o with skipPrivateMembers := false } = .ok g') : g.SkipsPrivate g' root := by
  obtain ⟨t, ht⟩ := endsIn_of_ofJson h
  obtain ⟨t', ht'⟩ := endsIn_of_ofJson h'
  constructor
  case scope =>
    intro d s s' hs hs'
    obtain ⟨e, he, hs⟩ := Option.bind_eq_some_iff.mp hs
    obtain ⟨e', he', hs'⟩ := Option.bind_eq_some_iff.mp hs'
    obtain ⟨n, _, _, _, _, hn, _, hshow, hshow'⟩ := exists_node_of_entityFor? hdistinct ht ht' he he'
      (Entity.declId?_of_scope? hs) (Entity.declId?_of_scope? hs')
    exact scopeDrops_of_scopeOf hdistinct ht ht' hn (scopeOf_of_shows hshow hs) (scopeOf_of_shows hshow' hs')
  case shape =>
    intro d s s' hs hs'
    obtain ⟨e, he, hs⟩ := Option.bind_eq_some_iff.mp hs
    obtain ⟨e', he', hs'⟩ := Option.bind_eq_some_iff.mp hs'
    obtain ⟨n, _, _, _, _, hn, _, hshow, hshow'⟩ := exists_node_of_entityFor? hdistinct ht ht' he he'
      (Entity.declId?_of_shape? hs) (Entity.declId?_of_shape? hs')
    obtain ⟨_, hshape⟩ := shapeOf_of_shows hshow hs
    obtain ⟨_, hshape'⟩ := shapeOf_of_shows hshow' hs'
    exact (shapeDrops_of_shapeOf hdistinct ht ht' hn hshape hshape').1
  case constructorId =>
    intro d c c' hc hc'
    obtain ⟨e, he, hc⟩ := Option.bind_eq_some_iff.mp hc
    obtain ⟨e', he', hc'⟩ := Option.bind_eq_some_iff.mp hc'
    obtain rfl := Entity.eq_classDecl hc
    obtain rfl := Entity.eq_classDecl hc'
    obtain ⟨n, _, _, _, _, hn, _, hshow, hshow'⟩ := exists_node_of_entityFor? hdistinct ht ht' he he' rfl rfl
    obtain ⟨_, hshape, hconstructor⟩ := classOf_of_shows hshow
    obtain ⟨_, hshape', _⟩ := classOf_of_shows hshow'
    exact ⟨hconstructor.trans (constructor?_eq hshape), (shapeDrops_of_shapeOf hdistinct ht ht' hn hshape hshape').2⟩
  case form => exact fun he he' => form_of_entityFor? hdistinct ht ht' he he'
  case reached =>
    intro hcut hcut' d hd
    rw [reachedIn_iff h hdistinct hcut] at hd
    rw [reachedIn_iff h' hdistinct hcut']
    refine DeclId.ReachedIn.mono ?_ ?_ ?_ hd
    · rfl
    · exact fun v hv => nomatch hv
    · rfl
  case unknown => exact fun hm hm' => unknown_iff hdistinct ht ht' hm hm'

/-- A module with a class and a private class. The class has a private and a public constructor, a private property,
and a property of the type of the private class. -/
def vault : Json :=
  .obj [("children", .arr [
    nodeWith 1 .externalModule "vault" [("children", .arr [
      nodeWith 2 .classDecl "Door" [("children", .arr [
        nodeWith 3 .constructor "constructor" [("flags", .obj [("isPrivate", .bool true)]), ("signatures", .arr [
          nodeWith 4 .constructorSignature "new" [("type", voidType)]])],
        nodeWith 5 .constructor "constructor" [("signatures", .arr [
          nodeWith 6 .constructorSignature "new" [("type", voidType)]])],
        nodeWith 7 .property "code" [("flags", .obj [("isPrivate", .bool true)]), ("type", voidType)],
        nodeWith 8 .property "lock" [("type", .obj [("type", .str "reference"), ("id", .ofNat 9)])]])],
      nodeWith 9 .classDecl "Lock" [("flags", .obj [("isPrivate", .bool true)])]])]])]

/-- The private class is reached through the type of the property; of the members of the class two are left out. -/
theorem skipsPrivate_vault : ∃ g g', ofJson vault { skipPrivateMembers := true } = .ok g ∧ ofJson vault {} = .ok g' ∧
    vault.IdsDistinct ∧ g.declarations.map (·.1) = [⟨1⟩, ⟨2⟩, ⟨5⟩, ⟨8⟩, ⟨9⟩] ∧
    g'.declarations.map (·.1) = [⟨1⟩, ⟨2⟩, ⟨3⟩, ⟨5⟩, ⟨7⟩, ⟨8⟩, ⟨9⟩] ∧ g.SkipsPrivate g' vault := by
  have hrun : (ofJson vault { skipPrivateMembers := true }).toOption.map (fun g => g.declarations.map (·.1)) =
      some [⟨1⟩, ⟨2⟩, ⟨5⟩, ⟨8⟩, ⟨9⟩] := by
    decide +kernel
  have hrun' : (ofJson vault {}).toOption.map (fun g => g.declarations.map (·.1)) =
      some [⟨1⟩, ⟨2⟩, ⟨3⟩, ⟨5⟩, ⟨7⟩, ⟨8⟩, ⟨9⟩] := by
    decide +kernel
  have hdistinct : vault.IdsDistinct := by
    unfold Json.IdsDistinct
    decide +kernel
  obtain ⟨g, h⟩ := exists_ofJson (o := { skipPrivateMembers := true }) (rfl : rootFault? vault = none)
  obtain ⟨g', h'⟩ := exists_ofJson (o := {}) (rfl : rootFault? vault = none)
  rw [h] at hrun
  rw [h'] at hrun'
  exact ⟨g, g', h, h', hdistinct, Option.some.inj hrun, Option.some.inj hrun',
    skipsPrivate_of_ofJson (o := {}) hdistinct h h'⟩

end Graph

end EntityGraph

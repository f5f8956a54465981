import EntityGraph.Proofs.Plays

/-!
# No declaration is lost

A scope or a shape lists the entities of the children of its node, an enumeration its members and a signature its
parameters, each in order and without repetition or omission, but for what cannot be listed: values without the base
shape of a declaration, nodes that are not recognized, children of an enumeration that are no members. What is left out
so is on record among the diagnostics, unless the options ask for it (`Graph.nothingLost_of_ofJson`).

That the lists are complete is what their entities show; that the rest is reported is known from the scripts, since the
script of the node that an entity shows is done when the pass ends (`Graph.EndsIn.built`).
-/

namespace EntityGraph

/-- The nodes among the children of a node that the options do not leave out. -/
def Node.keptChildren (o : Options) (n : Node) : List Node :=
  (n.children.filter fun v => !o.skips v).filterMap Node.ofJson?

/-- The members of a scope or a shape. -/
def Entity.members? (e : Entity) : Option (List EntityId) :=
  (e.scope?.map Scope.members).or (e.shape?.map Shape.members)

namespace Graph

open Build (Act membersScript shapeScript enumMemberScript parameterScript signatureScript callableScript)

variable {root : Json} {o : Options} {g : Graph} {t : Build.State}

/-- A value that is not listed where it stands is reported, with its id if it has the base shape of a declaration. -/
def Accounts (g : Graph) (v : Json) : Prop :=
  ∃ kindString, Diagnostic.unrecognizedDeclaration ((Node.ofJson? v).map Node.id) kindString ∈ g.diagnostics

/-- The members of a node are the entities of the children that are kept, without those that stand for nothing known. -/
structure ListsMembers (g : Graph) (n : Node) (ids : List EntityId) : Prop where
  inOrder : ids.map some =
    ((n.keptChildren g.options).map fun c => g.entityOf? c.id).filter (· ≠ some Builtin.unknown)
  accounted {v : Json} : v ∈ n.children → g.options.skips v = false →
    (∀ c, Node.ofJson? v = some c → g.entityOf? c.id = some Builtin.unknown) → g.Accounts v

/-- The members of an enumeration are the children that are tagged so. -/
structure ListsEnumMembers (g : Graph) (n : Node) (ms : List EnumMember) : Prop where
  inOrder : ms = n.children.filterMap View.enumMemberOf
  accounted {v : Json} : v ∈ n.children → View.enumMemberOf v = none → g.Accounts v

/-- The parameters of a signature are those that have the base shape. -/
structure ListsParameters (g : Graph) (depth : Nat) (n : Node) (s : Signature) : Prop where
  inOrder : List.Forall₂ (fun v x => g.view.ParameterOf depth v (some x))
    (n.parameters.filter fun v => (Node.ofJson? v).isSome) s.parameters
  accounted {v : Json} : v ∈ n.parameters → Node.ofJson? v = none → g.Accounts v

/-- What stands in a list of a declaration is listed or reported. -/
structure NothingLost (g : Graph) (root : Json) : Prop where
  members {m : EntityId} {e : Entity} {d : DeclId} {ids : List EntityId} : g.get? m = some e → e.declId? = some d →
    e.members? = some ids → ∃ n : Node, n.StandsIn root ∧ n.id = d ∧ g.ListsMembers n ids
  enumMembers {m : EntityId} {e : Enumeration} : g.get? m = some (.enumDecl e) →
    ∃ n : Node, n.StandsIn root ∧ n.id = e.id ∧ g.ListsEnumMembers n e.members
  parameters {m : EntityId} {c : Callable} : g.get? m = some (.callable c) →
    ∃ (n : Node) (depth : Nat), n.StandsIn root ∧ n.id = c.id ∧
      List.Forall₂ (g.ListsParameters depth) n.signatureNodes c.signatures

/-! ## Members -/

/-- The entity of a declaration is the unknown type where the declaration is settled without a kind. -/
theorem EndsIn.kind_eq_none_iff (ht : g.EndsIn root o t) {d : DeclId} {r : Resolution}
    (hr : g.view.resolution? d = some r) : r.kind = none ↔ r.entity = Builtin.unknown := by
  obtain ⟨m, hm, rfl⟩ := Option.map_eq_some_iff.mp hr
  refine ⟨fun hkind => ?_, fun hm => ?_⟩
  · rcases ht.answered hm with hunknown | ⟨e, he, hid⟩
    · exact hunknown
    · obtain ⟨kind, hsome⟩ := Entity.declKind?_eq_some hid
      rw [he, Option.bind_some, hsome] at hkind
      cases hkind
  · obtain rfl : m = Builtin.unknown := hm
    rw [ht.get?_unknown]
    rfl

/-- The members that children give are the entities of the nodes among them, but for the unknown type. -/
theorem EndsIn.members_eq (ht : g.EndsIn root o t) {children : List Json} {ms : List Member}
    (h : g.view.MembersOf children ms) :
    (ms.map (·.entity)).map some =
      (((children.filter fun v => !g.options.skips v).filterMap Node.ofJson?).map fun c => g.entityOf? c.id).filter
        (· ≠ some Builtin.unknown) := by
  obtain ⟨found, hfound, rfl⟩ := h
  replace hfound : List.Forall₂ g.view.MemberOf (children.filter fun v => !g.options.skips v) found := hfound
  generalize children.filter (fun v => !g.options.skips v) = kept at hfound
  induction hfound with
  | nil => rfl
  | @cons v m? vs ms hmember _ ih =>
    obtain ⟨r, hr, rfl⟩ := hmember
    cases hn : Node.ofJson? v with
    | none =>
      obtain rfl := (View.resolves_of_unreadable hn).mp hr
      rw [List.filterMap_cons_none hn]
      exact ih
    | some c =>
      have hresolution := (View.resolves_of_node hn).mp hr
      have hentity : g.entityOf? c.id = some r.entity := by
        obtain ⟨m, hm, rfl⟩ := Option.map_eq_some_iff.mp hresolution
        exact hm
      rw [List.filterMap_cons_some hn, List.map_cons, hentity]
      cases hkind : r.kind with
      | none =>
        rw [(ht.kind_eq_none_iff hresolution).mp hkind, List.filter_cons_of_neg (by simp)]
        exact ih
      | some kind =>
        have hne : r.entity ≠ Builtin.unknown := by
          intro hunknown
          rw [(ht.kind_eq_none_iff hresolution).mpr hunknown] at hkind
          cases hkind
        rw [List.filter_cons_of_pos (by simpa using hne), ← ih]
        rfl

theorem membersScript_subset_shapeScript (depth : Nat) (n : Node) (body : Position) :
    membersScript o depth body n.children ⊆ shapeScript o depth n body :=
  List.subset_append_of_subset_right _ <| List.subset_append_of_subset_right _ <|
    List.subset_append_of_subset_right _ <| List.subset_append_left _ _

/-- The script of a node with members goes through the children that are kept. -/
theorem membersOf_of_shows {w : View} {depth : Nat} {n : Node} {kind : DeclKind} {e : Entity} {ids : List EntityId}
    (h : w.Shows depth n kind e) (hids : e.members? = some ids) (position : Position) :
    ∃ ms body, w.MembersOf n.children ms ∧ ids = ms.map (·.entity) ∧
      membersScript o depth body n.children ⊆ n.script o depth kind position := by
  cases kind with
  | moduleDecl | namespaceDecl =>
    obtain ⟨_, ⟨ms, hms, rfl⟩, rfl⟩ := h
    cases hids
    exact ⟨ms, .namespaceBody, hms, rfl, List.Subset.refl _⟩
  | classDecl | interfaceDecl | interfaceLiteral =>
    obtain ⟨_, ms, ⟨_, _, _, _, _, _, _, hms, _, rfl⟩, rfl⟩ := h
    cases hids
    exact ⟨ms, .interfaceBody, hms, rfl, membersScript_subset_shapeScript depth n _⟩
  | objectLiteral =>
    obtain ⟨_, ms, ⟨_, _, _, _, _, _, _, hms, _, rfl⟩, rfl⟩ := h
    cases hids
    exact ⟨ms, .objectLiteralBody, hms, rfl, membersScript_subset_shapeScript depth n _⟩
  | enumDecl =>
    obtain rfl := h
    cases hids
  | typeAlias | property | accessor | function | method | constructor =>
    obtain ⟨_, _, rfl⟩ := h
    cases hids
  | indexSignature => exact h.elim

theorem EndsIn.listsMembers (ht : g.EndsIn root o t) {depth : Nat} {p : Waiting} {e : Entity} {ids : List EntityId}
    (hshow : g.view.Shows depth p.node p.kind e) (hids : e.members? = some ids)
    (hdone : ∀ a ∈ p.script o depth, t.Done root a) : g.ListsMembers p.node ids := by
  obtain ⟨ms, body, hms, rfl, hsub⟩ := membersOf_of_shows (o := o) hshow hids p.position
  refine ⟨ht.members_eq hms, ?_⟩
  intro v hv hkept hunknown
  rw [ht.options] at hkept
  have hact : Act.declare depth body v ∈ membersScript o depth body p.node.children :=
    List.mem_map_of_mem (List.mem_filter.mpr ⟨hv, by simp [hkept]⟩)
  rcases hdone _ (hsub hact) with ⟨c, r, hc, hr⟩ | ⟨hnone, hx⟩
  · -- What is settled without an entity of its own has been reported when it was settled.
    have hentity := hunknown c hc
    rw [ht.entityOf?, hr, Option.map_some, Option.some.injEq] at hentity
    rcases ht.settled hr with ⟨_, n, _, _, _, _, hx⟩ | ⟨e, he, hid⟩
    · exact ⟨_, by rw [hc, Option.map_some]; exact hx⟩
    · rw [hentity, ht.get?_unknown] at he
      cases he
      cases hid
  · exact ⟨_, by rw [hnone, Option.map_none]; exact ht.mem_diagnostics hx⟩

/-! ## Enumerations -/

/-- The script of an enumeration goes through its children. -/
theorem enumeration_of_shows {w : View} {depth : Nat} {n : Node} {kind : DeclKind} {e : Enumeration}
    (h : w.Shows depth n kind (.enumDecl e)) (position : Position) :
    e.members = n.children.filterMap View.enumMemberOf ∧
      n.script o depth kind position = n.children.flatMap enumMemberScript := by
  obtain rfl : DeclKind.enumDecl = kind := Option.some.inj h.stamp.2
  unfold View.Shows at h
  cases h
  exact ⟨rfl, rfl⟩

theorem EndsIn.listsEnumMembers (ht : g.EndsIn root o t) {depth : Nat} {p : Waiting} {e : Enumeration}
    (hshow : g.view.Shows depth p.node p.kind (.enumDecl e)) (hdone : ∀ a ∈ p.script o depth, t.Done root a) :
    g.ListsEnumMembers p.node e.members := by
  obtain ⟨hmembers, hscript⟩ := enumeration_of_shows (o := o) hshow p.position
  rw [Waiting.script, hscript] at hdone
  refine ⟨hmembers, fun {v} hv hnone => ?_⟩
  have hchild (a : Act) (ha : a ∈ enumMemberScript v) : t.Done root a :=
    hdone a (List.mem_flatMap.mpr ⟨v, hv, ha⟩)
  cases hm : Node.ofJson? v with
  | none =>
    have hx := hchild (.report (.unrecognizedDeclaration none none)) (by simp [enumMemberScript, hm])
    exact ⟨_, by rw [hm]; exact ht.mem_diagnostics hx⟩
  | some c =>
    have htag : c.tag? ≠ some .enumerationMember := by
      intro htag
      simp [View.enumMemberOf, hm, htag] at hnone
    have hx := hchild (.report (.unrecognizedDeclaration (some c.id) (some c.kindString)))
      (by simp [enumMemberScript, hm, htag])
    exact ⟨_, by rw [hm]; exact ht.mem_diagnostics hx⟩

/-! ## Signatures -/

/-- The parameters that are given are those of the values with the base shape. -/
theorem parameters_of_forall₂ {w : View} {depth : Nat} {vs : List Json} {found : List (Option Parameter)}
    (h : List.Forall₂ (w.ParameterOf depth) vs found) :
    List.Forall₂ (fun v x => w.ParameterOf depth v (some x)) (vs.filter fun v => (Node.ofJson? v).isSome)
      (found.filterMap id) := by
  induction h with
  | nil => exact .nil
  | @cons v x? vs found hv _ ih =>
    cases hn : Node.ofJson? v with
    | none =>
      have hnone : x? = none := by
        unfold View.ParameterOf at hv
        rwa [hn] at hv
      rw [hnone, List.filter_cons_of_neg (by simp [hn]), List.filterMap_cons_none rfl]
      exact ih
    | some p =>
      have hsome : ∃ x, x? = some x := by
        unfold View.ParameterOf at hv
        rw [hn] at hv
        obtain ⟨_, _, heq⟩ := hv
        exact ⟨_, heq⟩
      obtain ⟨x, rfl⟩ := hsome
      rw [List.filter_cons_of_pos (by simp [hn])]
      exact .cons hv ih

theorem EndsIn.listsParameters (ht : g.EndsIn root o t) {depth : Nat} {p : Waiting} {c : Callable}
    (hshow : g.view.Shows depth p.node p.kind (.callable c)) (hdone : ∀ a ∈ p.script o depth, t.Done root a) :
    List.Forall₂ (g.ListsParameters depth) p.node.signatureNodes c.signatures := by
  obtain ⟨hkind, signatures, _, hsignatures, _, hc⟩ := hshow.callable
  have hlist : c.signatures = signatures := congrArg Callable.signatures hc
  rw [Waiting.script, Node.script_of_isFunction (hkind ▸ CallableKind.isFunction_declKind _)] at hdone
  have accounted (m : Node) (hm : m ∈ p.node.signatureNodes) (v : Json) (hv : v ∈ m.parameters)
      (hnone : Node.ofJson? v = none) : g.Accounts v := by
    have hact : Act.report (.unrecognizedDeclaration none none) ∈ signatureScript o depth m :=
      List.mem_append_left _ (List.mem_flatMap.mpr ⟨v, hv, by simp [parameterScript, hnone]⟩)
    have hx := hdone _ (List.mem_append_left _ (List.mem_flatMap.mpr ⟨m, hm, hact⟩))
    exact ⟨_, by rw [hnone]; exact ht.mem_diagnostics hx⟩
  have hboth := (List.forall₂_and_left _ _).mpr ⟨accounted, hsignatures⟩
  rw [hlist]
  refine hboth.imp fun m s hm => ?_
  obtain ⟨hreported, found, _, hfound, _, rfl⟩ := hm
  exact ⟨parameters_of_forall₂ hfound, fun hv hnone => hreported _ hv hnone⟩

/-- Whatever stands in a list of a declaration is listed or reported. -/
theorem nothingLost_of_ofJson (h : ofJson root o = .ok g) : g.NothingLost root := by
  obtain ⟨t, ht, _, hrun⟩ := exists_run h
  constructor
  case members =>
    intro m e d ids hm hid hids
    obtain ⟨depth, p, hp, hd, hshow, hdone⟩ := ht.built hrun hm hid
    exact ⟨p.node, hp.1, hd, ht.listsMembers hshow hids hdone⟩
  case enumMembers =>
    intro m e hm
    obtain ⟨depth, p, hp, hd, hshow, hdone⟩ := ht.built hrun hm rfl
    exact ⟨p.node, hp.1, hd, ht.listsEnumMembers hshow hdone⟩
  case parameters =>
    intro m c hm
    obtain ⟨depth, p, hp, hd, hshow, hdone⟩ := ht.built hrun hm rfl
    exact ⟨p.node, depth, hp.1, hd, ht.listsParameters hshow hdone⟩

theorem nothingLost_shop : ∃ g, ofJson shop { skipPrivateMembers := true } = .ok g ∧ g.NothingLost shop := by
  obtain ⟨g, hg, _⟩ := ofJson_shop
  exact ⟨g, hg, nothingLost_of_ofJson hg⟩

end Graph

end EntityGraph

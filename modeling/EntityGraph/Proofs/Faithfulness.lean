import EntityGraph.Proofs.Finished

/-!
# Graphs are faithful to their documents

What a finished graph promises, for every document and all options:

- its entities say what the document says (`Graph.faithful_of_ofJson`);
- its declarations and the entities that stand for them are in one-to-one correspondence, where no declaration stands
  for the unknown type (`Graph.oneToOne_of_ofJson`);
- references stand for what the graph answers for their ids, and only what no node carries is missing
  (`Graph.referencesAgree_of_ofJson`).

All three read off the last state of the pass (`Graph.EndsIn`).
-/

namespace EntityGraph

namespace Graph

variable {root : Json} {o : Options} {g : Graph}

/-- An alias of arrays of itself, and one of a declaration that is missing. -/
def selfAndLost : Json :=
  .obj [("children", .arr [
    .obj [("id", .ofNat 1), ("name", .str "Self"), ("kind", .ofNat 4194304), ("kindString", .str "Type alias"),
      ("type", .obj [("type", .str "array"),
        ("elementType", .obj [("type", .str "reference"), ("id", .ofNat 1)])])],
    .obj [("id", .ofNat 2), ("name", .str "Lost"), ("kind", .ofNat 4194304), ("kindString", .str "Type alias"),
      ("type", .obj [("type", .str "reference"), ("id", .ofNat 9)])]])]

/-- The first alias refers to itself; what the second refers to is unknown. -/
theorem ofJson_selfAndLost : ∃ g, ofJson selfAndLost {} = .ok g ∧ g.declarations = [(⟨1⟩, ⟨7⟩), (⟨2⟩, ⟨9⟩)] ∧
    g.references = [(⟨1⟩, ⟨7⟩), (⟨9⟩, Builtin.unknown)] := by
  have hrun : (ofJson selfAndLost {}).toOption.map (fun g => (g.declarations, g.references)) =
      some ([(⟨1⟩, ⟨7⟩), (⟨2⟩, ⟨9⟩)], [(⟨1⟩, ⟨7⟩), (⟨9⟩, Builtin.unknown)]) := by
    decide +kernel
  obtain ⟨g, hg⟩ := exists_ofJson (o := {}) (rfl : rootFault? selfAndLost = none)
  rw [hg] at hrun
  have hpair := Option.some.inj hrun
  exact ⟨g, hg, congrArg Prod.fst hpair, congrArg Prod.snd hpair⟩

/-! ## Entities -/

/-- What the entities of a graph say stands in the document, with regard to the options. -/
structure Faithful (g : Graph) (root : Json) (o : Options) : Prop where
  options : g.options = o
  /-- An entity that bears an id shows a node of the document with this id, by a kind by which the node is recognized:
  its data are those of the node, and its types denote the types of the node. -/
  declared {m : EntityId} {e : Entity} {d : DeclId} : g.get? m = some e → e.declId? = some d →
    ∃ (n : Node) (position : Position) (kind : DeclKind) (depth : Nat),
      n.StandsIn root ∧ n.id = d ∧ n.entityKind? position = some kind ∧ TypeExpr.Nested root depth n.value ∧
        g.view.Shows depth n kind e
  /-- Any other entity is built in or denotes a type expression of the document. -/
  undeclared {m : EntityId} {e : Entity} : g.get? m = some e → e.declId? = none →
    Builtin.entities[m.index]? = some e ∨
      ∃ depth v, TypeExpr.Nested root depth v ∧ g.view.Denotes depth v m

/-- Every type position of a finished graph denotes what the document writes there. -/
theorem faithful_of_ofJson (h : ofJson root o = .ok g) : g.Faithful root o := by
  obtain ⟨t, ht⟩ := endsIn_of_ofJson h
  refine ⟨ht.options, fun hm hid => ?_, fun hm hid => ht.undeclared hm hid⟩
  obtain ⟨n, position, kind, depth, hn, hd, hk, hdepth, hshow, _⟩ := ht.declared hm hid
  exact ⟨n, position, kind, depth, hn, hd, hk, hdepth, hshow⟩

theorem faithful_selfAndLost : ∃ g, ofJson selfAndLost {} = .ok g ∧ g.Faithful selfAndLost {} := by
  obtain ⟨g, hg, _⟩ := ofJson_selfAndLost
  exact ⟨g, hg, faithful_of_ofJson hg⟩

/-! ## Identity -/

/-- Ids and the entities of declarations correspond, where an id does not stand for the unknown type. -/
structure OneToOne (g : Graph) : Prop where
  /-- What a graph answers for an id is the unknown type or the entity of a declaration with this id. -/
  answered {d : DeclId} {m : EntityId} : g.entityOf? d = some m →
    m = Builtin.unknown ∨ ∃ e kind, g.get? m = some e ∧ e.declKind? = some kind ∧ e.declId? = some d
  /-- The entity of a declaration is what the graph answers for its id. -/
  reached {m : EntityId} {e : Entity} {kind : DeclKind} : g.get? m = some e → e.declKind? = some kind →
    ∃ d, e.declId? = some d ∧ g.entityOf? d = some m
  /-- No id is borne by two entities. -/
  single {m m' : EntityId} {e e' : Entity} {d : DeclId} : g.get? m = some e → g.get? m' = some e' →
    e.declId? = some d → e'.declId? = some d → m = m'
  /-- No two ids share an entity. -/
  distinct {d d' : DeclId} {m : EntityId} : g.entityOf? d = some m → g.entityOf? d' = some m →
    m = Builtin.unknown ∨ d = d'

theorem EndsIn.entityOf?_of_declId? {t : Build.State} (h : g.EndsIn root o t) {m : EntityId} {e : Entity} {d : DeclId}
    (hm : g.get? m = some e) (hid : e.declId? = some d) : g.entityOf? d = some m := by
  obtain ⟨_, _, _, _, _, _, _, _, _, hr⟩ := h.declared hm hid
  rw [h.entityOf?, hr]
  rfl

theorem EndsIn.answered {t : Build.State} (h : g.EndsIn root o t) {d : DeclId} {m : EntityId}
    (hd : g.entityOf? d = some m) : m = Builtin.unknown ∨ ∃ e, g.get? m = some e ∧ e.declId? = some d := by
  rw [h.entityOf?] at hd
  obtain ⟨r, hr, rfl⟩ := Option.map_eq_some_iff.mp hd
  rcases h.settled hr with ⟨hunknown, _⟩ | he
  · exact .inl hunknown
  · exact .inr he

/-- Each declaration has one identity. -/
theorem oneToOne_of_ofJson (h : ofJson root o = .ok g) : g.OneToOne := by
  obtain ⟨t, ht⟩ := endsIn_of_ofJson h
  constructor
  case answered =>
    intro d m hd
    rcases ht.answered hd with hunknown | ⟨e, hm, hid⟩
    · exact .inl hunknown
    · obtain ⟨kind, hkind⟩ := Entity.declKind?_eq_some hid
      exact .inr ⟨e, kind, hm, hkind, hid⟩
  case reached =>
    intro m e kind hm hkind
    obtain ⟨d, hid⟩ := Entity.declId?_eq_some hkind
    exact ⟨d, hid, ht.entityOf?_of_declId? hm hid⟩
  case single =>
    intro m m' e e' d hm hm' hid hid'
    have hd := ht.entityOf?_of_declId? hm hid
    rw [ht.entityOf?_of_declId? hm' hid'] at hd
    exact (Option.some.inj hd).symm
  case distinct =>
    intro d d' m hd hd'
    rcases ht.answered hd with hunknown | ⟨e, hm, hid⟩
    · exact .inl hunknown
    · rcases ht.answered hd' with hunknown | ⟨e', hm', hid'⟩
      · exact .inl hunknown
      · rw [hm] at hm'
        cases hm'
        rw [hid] at hid'
        exact .inr (Option.some.inj hid')

theorem oneToOne_selfAndLost : ∃ g, ofJson selfAndLost {} = .ok g ∧ g.declarations = [(⟨1⟩, ⟨7⟩), (⟨2⟩, ⟨9⟩)] ∧
    g.OneToOne := by
  obtain ⟨g, hg, hdeclarations, _⟩ := ofJson_selfAndLost
  exact ⟨g, hg, hdeclarations, oneToOne_of_ofJson hg⟩

/-! ## References -/

/-- What is said of the references of a graph agrees with the document, wherever the nodes of the document stand. -/
structure ReferencesAgree (g : Graph) (root : Json) : Prop where
  carried {d : DeclId} {m : EntityId} : g.entityOf? d = some m → d.CarriedIn root
  dangling {d : DeclId} : Diagnostic.danglingReference d ∈ g.diagnostics → ¬ d.CarriedIn root
  /-- Whenever a reference was followed to an id that a node carries, it stood for what the graph answers. -/
  followed {d : DeclId} {m : EntityId} : (d, m) ∈ g.references → d.CarriedIn root → g.entityOf? d = some m
  missing {d : DeclId} {m : EntityId} : (d, m) ∈ g.references → ¬ d.CarriedIn root →
    m = Builtin.unknown ∧ Diagnostic.danglingReference d ∈ g.diagnostics
  /-- Only a node that is not recognized, and reported so, makes a reference to an id that a node carries unknown. -/
  pinned {d : DeclId} {m : EntityId} : (d, m) ∈ g.references → d.CarriedIn root → m = Builtin.unknown →
    ∃ (n : Node) (position : Position), n.StandsIn root ∧ n.id = d ∧ n.entityKind? position = none ∧
      Diagnostic.unrecognizedDeclaration (some d) (some n.kindString) ∈ g.diagnostics

theorem EndsIn.standsFor {t : Build.State} (h : g.EndsIn root o t) {d : DeclId} {m : EntityId}
    (hd : (d, m) ∈ g.references) : t.StandsFor root d m := by
  rw [h.references, List.mem_reverse] at hd
  exact h.coherent.followed hd

/-- References, whenever they were followed, agree with the finished graph and with the document. -/
theorem referencesAgree_of_ofJson (h : ofJson root o = .ok g) : g.ReferencesAgree root := by
  obtain ⟨t, ht⟩ := endsIn_of_ofJson h
  constructor
  case carried =>
    intro d m hd
    rw [ht.entityOf?] at hd
    obtain ⟨r, hr, _⟩ := Option.map_eq_some_iff.mp hd
    exact (ht.coherent.settled hr).carriedIn
  case dangling =>
    intro d hd
    rw [ht.diagnostics, Array.mem_toList_iff] at hd
    exact ht.coherent.dangling hd
  case followed =>
    intro d m hd hcarried
    rcases ht.standsFor hd with ⟨r, hr, rfl⟩ | ⟨hmissing, _⟩
    · rw [ht.entityOf?, hr, Option.map_some]
    · exact absurd hcarried hmissing
  case missing =>
    intro d m hd hmissing
    rcases ht.standsFor hd with ⟨r, hr, _⟩ | ⟨_, hunknown, hx⟩
    · exact absurd (ht.coherent.settled hr).carriedIn hmissing
    · rw [ht.diagnostics, Array.mem_toList_iff]
      exact ⟨hunknown, hx⟩
  case pinned =>
    intro d m hd hcarried hunknown
    rcases ht.standsFor hd with ⟨r, hr, rfl⟩ | ⟨hmissing, _⟩
    · rcases ht.settled hr with ⟨_, hpinned⟩ | ⟨e, hm, hid⟩
      · exact hpinned
      · -- The unknown type bears no id, so no declaration is built in its place.
        rw [hunknown, ht.get?_unknown] at hm
        cases hm
        cases hid
    · exact absurd hcarried hmissing

theorem referencesAgree_selfAndLost : ∃ g, ofJson selfAndLost {} = .ok g ∧
    g.references = [(⟨1⟩, ⟨7⟩), (⟨9⟩, Builtin.unknown)] ∧ g.ReferencesAgree selfAndLost := by
  obtain ⟨g, hg, _, hreferences⟩ := ofJson_selfAndLost
  exact ⟨g, hg, hreferences, referencesAgree_of_ofJson hg⟩

end Graph

end EntityGraph

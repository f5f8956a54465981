import EntityGraph.Proofs.Forest

/-!
# What is built in stands once

The built-in entities of a finished graph are what they were before the document was read, and no other entity is
primitive or unknown (`Graph.singletons_of_ofJson`). So a place can be told from the places that were handed out at the
start: what is there is unknown exactly when it is the place of the unknown type. A declaration has one of these places
only when its node was not recognized, and then it is the place of the unknown type.

That nothing else is built in is what an owned state says of each of its entities (`Build.State.Owned.sorted`): it
stands for a type expression, for a declaration, or has been there from the start.
-/

namespace EntityGraph

/-! ## The places of what is built in -/

/-- The entity is what a primitive type or the unknown type is. -/
def Entity.IsBuiltin (e : Entity) : Prop := e.kind = .primitive ∨ e.kind = .unknown

theorem Builtin.map_named : named.map (·.2) = (List.range entities.length).map EntityId.mk := rfl

/-- The places that have names are those of the built-in entities. -/
theorem Builtin.mem_places_iff {m : EntityId} : m ∈ named.map (·.2) ↔ ∃ e, entities[m.index]? = some e := by
  rw [map_named, List.mem_map]
  constructor
  · rintro ⟨i, hi, rfl⟩
    exact ⟨_, List.getElem?_eq_getElem (List.mem_range.mp hi)⟩
  · rintro ⟨e, he⟩
    exact ⟨m.index, List.mem_range.mpr (List.getElem?_eq_some_iff.mp he).1, rfl⟩

theorem Builtin.isBuiltin_of_mem : ∀ e ∈ entities, e.IsBuiltin := by
  unfold Entity.IsBuiltin
  decide

/-- The unknown type is the only built-in entity of its kind. -/
theorem Builtin.eq_unknown {m : EntityId} {e : Entity} (he : entities[m.index]? = some e) (hkind : e.kind = .unknown) :
    m = unknown := by
  have honly : ∀ i < entities.length, entities[i]?.map Entity.kind = some .unknown → i = unknown.index := by decide
  have hlt : m.index < entities.length := (List.getElem?_eq_some_iff.mp he).1
  exact congrArg EntityId.mk (honly m.index hlt (by rw [he, Option.map_some, hkind]))

theorem Entity.not_isBuiltin_of_isType {e : Entity} (h : e.isType = true) : ¬ e.IsBuiltin := by
  cases e with
  | primitive | unknown | property | callable => cases h
  | _ => simp [IsBuiltin, kind]

theorem Entity.not_isBuiltin_of_declId? {e : Entity} (h : e.declId?.isSome) : ¬ e.IsBuiltin := by
  cases e with
  | primitive | unknown => cases h
  | property p => cases hp : p.isAccessor <;> simp [IsBuiltin, kind, hp]
  | callable c => cases hc : c.kind <;> simp [IsBuiltin, kind, hc, CallableKind.entityKind]
  | _ => simp [IsBuiltin, kind]

namespace Graph

variable {root : Json} {o : Options} {g : Graph} {t : Build.State} {m : EntityId} {e : Entity}

/-! ## Finished graphs -/

/-- What is built in stands in its place and nowhere else. -/
structure Singletons (g : Graph) (root : Json) : Prop where
  /-- A built-in entity is what it was before the document was read. -/
  kept {m : EntityId} {e : Entity} : Builtin.entities[m.index]? = some e → g.get? m = some e
  only {m : EntityId} {e : Entity} : g.get? m = some e → (e.IsBuiltin ↔ m ∈ Builtin.named.map (·.2))
  unknown (m : EntityId) : g.kindAt? m = some .unknown ↔ m = Builtin.unknown
  /-- A declaration has the place of a built-in entity only when its node was not recognized. -/
  pinned {d : DeclId} {m : EntityId} : g.entityOf? d = some m → m ∈ Builtin.named.map (·.2) →
    m = Builtin.unknown ∧ ∃ (n : Node) (position : Position), n.StandsIn root ∧ n.id = d ∧
      n.entityKind? position = none ∧ Diagnostic.unrecognizedDeclaration (some d) (some n.kindString) ∈ g.diagnostics

/-- The built-in entities stay where they are. -/
theorem EndsIn.get?_builtin (ht : g.EndsIn root o t) (he : Builtin.entities[m.index]? = some e) :
    g.get? m = some e := by
  refine ht.get?_eq_some_iff.mpr (ht.grown.filled ?_)
  rw [Build.State.start, Builtin.get?_arena, he, Option.map_some]

theorem EndsIn.isBuiltin_iff (ht : g.EndsIn root o t) (howned : t.Owned []) (hm : g.get? m = some e) :
    e.IsBuiltin ↔ m ∈ Builtin.named.map (·.2) := by
  rw [Builtin.mem_places_iff]
  constructor
  · intro hbuiltin
    rcases howned.sorted (ht.get?_eq_some_iff.mp hm) with htype | hdecl | hplace
    · exact absurd hbuiltin (Entity.not_isBuiltin_of_isType htype)
    · exact absurd hbuiltin (Entity.not_isBuiltin_of_declId? hdecl)
    · exact ⟨e, hplace⟩
  · rintro ⟨e', he'⟩
    have heq := ht.get?_builtin he'
    rw [hm] at heq
    cases heq
    exact Builtin.isBuiltin_of_mem e (List.mem_of_getElem? he')

theorem EndsIn.kindAt?_eq_unknown_iff (ht : g.EndsIn root o t) (howned : t.Owned []) (m : EntityId) :
    g.kindAt? m = some .unknown ↔ m = Builtin.unknown := by
  constructor
  · intro hkind
    obtain ⟨e, he, hkind⟩ := Option.map_eq_some_iff.mp hkind
    obtain ⟨e', he'⟩ := Builtin.mem_places_iff.mp ((ht.isBuiltin_iff howned he).mp (.inr hkind))
    have heq := ht.get?_builtin he'
    rw [he] at heq
    cases heq
    exact Builtin.eq_unknown he' hkind
  · rintro rfl
    rw [kindAt?, ht.get?_unknown]
    rfl

/-- No document changes what is built in or adds to it. -/
theorem singletons_of_ofJson (h : ofJson root o = .ok g) : g.Singletons root := by
  obtain ⟨ids, t, hpass, _, ht⟩ := exists_pass_of_ofJson h
  have howned : t.Owned [] := Build.pass_owns hpass
  constructor
  case kept => exact fun he => ht.get?_builtin he
  case only => exact fun hm => ht.isBuiltin_iff howned hm
  case unknown => exact ht.kindAt?_eq_unknown_iff howned
  case pinned =>
    intro d m hd hplace
    rw [ht.entityOf?] at hd
    obtain ⟨r, hr, rfl⟩ := Option.map_eq_some_iff.mp hd
    rcases ht.settled hr with hpinned | ⟨e, he, hid⟩
    · exact hpinned
    · have hdecl : e.declId?.isSome := by rw [hid, Option.isSome_some]
      exact absurd ((ht.isBuiltin_iff howned he).mpr hplace) (Entity.not_isBuiltin_of_declId? hdecl)

theorem singletons_shop : ∃ g, ofJson shop { skipPrivateMembers := true } = .ok g ∧
    g.entityOf? ⟨8⟩ = some Builtin.unknown ∧ g.Singletons shop := by
  obtain ⟨g, hg, hdeclarations⟩ := ofJson_shop
  refine ⟨g, hg, ?_, singletons_of_ofJson hg⟩
  rw [entityOf?, hdeclarations]
  rfl

end Graph

end EntityGraph

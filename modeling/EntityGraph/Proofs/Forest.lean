import Mathlib.Data.List.Chain
import Mathlib.Data.List.Perm.Basic
import EntityGraph.Proofs.Ownership

/-!
# Type expressions form a forest

In a finished graph the entity of a type expression is stored at most once, in one field of one entity, and stores only
places before its own (`Graph.forest_of_ofJson`). So a way through the graph that comes back to where it began passes a
declaration, and no two type expressions share an entity.

The places that an entity stores are those of types and those of members (`Entity.links_perm`). Members are declarations
(`Graph.EndsIn.declares_of_mem_memberLinks`), so the entity of a type expression is stored as a type; and of these it is
known that each is owned once when a pass ends (`Build.pass_owns`).
-/

namespace EntityGraph

/-! ## Kinds of entities -/

theorem Entity.types_of_isType {e : Entity} (h : e.isType = true) : e.types = e.links := by
  cases e <;> first | rfl | cases h

/-- An entity of the kind of a declaration stands for a declaration. -/
theorem Entity.isSome_declId?_of_kind {e : Entity} {kind : DeclKind} (h : e.kind = kind.entityKind) :
    e.declId?.isSome := by
  cases e with
  | primitive | unknown | array | union | intersection | stringLiteral | typeParameter | typeOperator
  | externalReference => cases kind <;> cases h
  | _ => rfl

/-! ## Lists with an element that stands once -/

/-- What occurs once in lists one after the other occurs in one of them. -/
theorem eq_of_count_flatMap_le_one {α β : Type} [DecidableEq β] {f : α → List β} {b : β} {x y : α} :
    ∀ {xs : List α}, (xs.flatMap f).count b ≤ 1 → ∀ {i j : Nat}, xs[i]? = some x → xs[j]? = some y → b ∈ f x →
      b ∈ f y → i = j
  | [], _, _, _, hi, _, _, _ => nomatch hi
  | z :: xs, hcount, i, j, hi, hj, hx, hy => by
    rw [List.flatMap_cons, List.count_append] at hcount
    have later {u : α} {k : Nat} (hk : xs[k]? = some u) (hu : b ∈ f u) : 0 < (xs.flatMap f).count b :=
      List.count_pos_iff.mpr (List.mem_flatMap.mpr ⟨u, List.mem_of_getElem? hk, hu⟩)
    cases i with
    | zero =>
      cases j with
      | zero => rfl
      | succ j =>
        cases hi
        have := List.count_pos_iff.mpr hx
        have := later hj hy
        omega
    | succ i =>
      cases j with
      | zero =>
        cases hj
        have := List.count_pos_iff.mpr hy
        have := later hi hx
        omega
      | succ j =>
        exact congrArg _ (eq_of_count_flatMap_le_one (Nat.le_trans (Nat.le_add_left _ _) hcount) hi hj hx hy)

/-- What occurs once in a list occurs at one place. -/
theorem eq_of_count_le_one {β : Type} [DecidableEq β] {bs : List β} {b : β} (h : bs.count b ≤ 1) {i j : Nat}
    (hi : bs[i]? = some b) (hj : bs[j]? = some b) : i = j := by
  refine eq_of_count_flatMap_le_one (f := fun b => [b]) ?_ hi hj List.mem_cons_self List.mem_cons_self
  rwa [List.flatMap_singleton']

namespace Graph

variable {root : Json} {o : Options} {g : Graph} {t : Build.State} {m : EntityId} {e : Entity}

/-! ## Ways through a graph -/

/-- The places that the entities of a graph store, as often as they store them. -/
def links (g : Graph) : List EntityId := g.entities.toList.flatMap Entity.links

/-- There is the entity of a declaration at a place. -/
def Declares (g : Graph) (m : EntityId) : Prop := ∃ e, g.get? m = some e ∧ e.declId?.isSome

/-- The entity at a place stores another place. -/
def Points (g : Graph) (m k : EntityId) : Prop := ∃ e, g.get? m = some e ∧ k ∈ e.links

/-- The entities of type expressions form a forest. -/
structure Forest (g : Graph) : Prop where
  /-- What is neither built in nor a declaration stands for a type expression. -/
  types {m : EntityId} {e : Entity} : g.get? m = some e →
    (e.isType = true ↔ e.declId? = none ∧ Builtin.entities[m.index]? = none)
  below {m k : EntityId} {e : Entity} : g.get? m = some e → e.isType = true → k ∈ e.links → k.index < m.index
  once {m : EntityId} {e : Entity} : g.get? m = some e → e.isType = true → g.links.count m ≤ 1
  /-- Two fields that hold the entity of a type expression are the same field of the same entity. -/
  unshared {m a b : EntityId} {e x y : Entity} {i j : Nat} : g.get? m = some e → e.isType = true →
    g.get? a = some x → x.links[i]? = some m → g.get? b = some y → y.links[j]? = some m → a = b ∧ i = j
  /-- A way back to its beginning passes a declaration. -/
  cycles {m : EntityId} {ms : List EntityId} : (m :: (ms ++ [m])).IsChain g.Points → ∃ k ∈ m :: ms, g.Declares k

/-! ## Members -/

/-- A member is a declaration. -/
theorem declares_of_membersOf {children : List Json} {ms : List Member} (h : g.view.MembersOf children ms) :
    ∀ k ∈ ms.map (·.entity), g.Declares k := by
  intro k hk
  obtain ⟨x, hx, rfl⟩ := List.mem_map.mp hk
  obtain ⟨e, he, hkind⟩ := Option.map_eq_some_iff.mp (kindAt?_of_membersOf h hx).1
  exact ⟨e, he, Entity.isSome_declId?_of_kind hkind⟩

theorem declares_of_shapeOf {depth : Nat} {n : Node} {s : Shape} {ms : List Member}
    (h : g.view.ShapeOf depth n s ms) : ∀ k ∈ s.memberLinks ++ (Member.constructor? ms).toList, g.Declares k := by
  obtain ⟨_, _, _, _, _, _, _, hms, _, rfl⟩ := h
  intro k hk
  rcases List.mem_append.mp hk with hk | hk
  · exact declares_of_membersOf hms k (Shape.mem_of_mem_memberLinks hk)
  · exact declares_of_membersOf hms k (Member.mem_of_constructor? hk)

/-- What an entity stores for its members are declarations. -/
theorem EndsIn.declares_of_mem_memberLinks (ht : g.EndsIn root o t) (hm : g.get? m = some e) :
    ∀ k ∈ e.memberLinks, g.Declares k := by
  have shows {d : DeclId} (hid : e.declId? = some d) : ∃ depth n kind, g.view.Shows depth n kind e := by
    obtain ⟨n, _, kind, depth, _, _, _, _, hshow, _⟩ := ht.declared hm hid
    exact ⟨depth, n, kind, hshow⟩
  cases e with
  | moduleDecl s | namespaceDecl s =>
    obtain ⟨_, _, _, hshow⟩ := shows rfl
    obtain ⟨ms, hms, rfl⟩ := scopeOf_of_shows hshow rfl
    exact fun k hk => declares_of_membersOf hms k (Scope.mem_of_mem_links hk)
  | interfaceDecl s | interfaceLiteral s | objectLiteral s =>
    obtain ⟨_, _, _, hshow⟩ := shows rfl
    obtain ⟨_, hshape⟩ := shapeOf_of_shows hshow rfl
    exact fun k hk => declares_of_shapeOf hshape k (List.mem_append_left _ hk)
  | classDecl c =>
    obtain ⟨_, _, _, hshow⟩ := shows rfl
    obtain ⟨ms, hshape, hconstructor⟩ := classOf_of_shows hshow
    rw [Entity.memberLinks, hconstructor]
    exact declares_of_shapeOf hshape
  | _ => exact fun _ hk => nomatch hk

/-! ## The forest -/

theorem exists_get?_of_mem (he : e ∈ g.entities.toList) : ∃ m, g.get? m = some e := by
  obtain ⟨i, hi⟩ := List.mem_iff_getElem?.mp he
  rw [Array.getElem?_toList] at hi
  exact ⟨⟨i⟩, hi⟩

/-- What is no declaration is stored as a type wherever it is stored. -/
theorem EndsIn.count_links (ht : g.EndsIn root o t) (hm : ¬ g.Declares m) :
    g.links.count m = t.arena.types.count m := by
  have htypes : t.arena.types = g.entities.toList.flatMap Entity.types := by
    rw [Arena.types, ht.entities, List.flatMap_map]
    rfl
  have hmembers : m ∉ g.entities.toList.flatMap Entity.memberLinks := by
    intro hmem
    obtain ⟨e, he, hmem⟩ := List.mem_flatMap.mp hmem
    obtain ⟨k, hk⟩ := exists_get?_of_mem he
    exact hm (ht.declares_of_mem_memberLinks hk m hmem)
  have hlinks : g.links.Perm
      (g.entities.toList.flatMap Entity.types ++ g.entities.toList.flatMap Entity.memberLinks) :=
    (List.Perm.flatMap_left _ fun e _ => e.links_perm).trans (List.flatMap_append_perm ..).symm
  rw [hlinks.count_eq, List.count_append, List.count_eq_zero.mpr hmembers, htypes, Nat.add_zero]

section

variable (ht : g.EndsIn root o t) (howned : t.Owned [])

include ht howned

theorem EndsIn.isType_iff (hm : g.get? m = some e) :
    e.isType = true ↔ e.declId? = none ∧ Builtin.entities[m.index]? = none := by
  rw [ht.get?_eq_some_iff] at hm
  constructor
  · intro htype
    refine ⟨Entity.declId?_of_isType htype, ?_⟩
    rw [Option.eq_none_iff_forall_ne_some]
    exact fun _ hb => howned.not_typeAt_builtin hb e ⟨hm, htype⟩
  · rintro ⟨hid, hb⟩
    rcases howned.sorted hm with htype | hdecl | hbuiltin
    · exact htype
    · rw [hid] at hdecl
      cases hdecl
    · rw [hb] at hbuiltin
      cases hbuiltin

theorem EndsIn.lt_of_mem_links (hm : g.get? m = some e) (htype : e.isType = true) {k : EntityId} (hk : k ∈ e.links) :
    k.index < m.index := by
  rw [← Entity.types_of_isType htype] at hk
  exact howned.below ⟨ht.get?_eq_some_iff.mp hm, htype⟩ hk

theorem EndsIn.count_links_le_one (hm : g.get? m = some e) (htype : e.isType = true) : g.links.count m ≤ 1 := by
  have hdecl : ¬ g.Declares m := by
    rintro ⟨e', he', hid⟩
    rw [hm] at he'
    cases he'
    rw [Entity.declId?_of_isType htype] at hid
    cases hid
  have honce := howned.once ⟨ht.get?_eq_some_iff.mp hm, htype⟩
  rwa [List.append_nil, ← ht.count_links hdecl] at honce

/-- What is no declaration points to places before its own. -/
theorem EndsIn.lt_of_points (hm : ¬ g.Declares m) {k : EntityId} (hmk : g.Points m k) : k.index < m.index := by
  obtain ⟨e, he, hk⟩ := hmk
  rcases howned.sorted (ht.get?_eq_some_iff.mp he) with htype | hid | hbuiltin
  · exact ht.lt_of_mem_links howned he htype hk
  · exact absurd ⟨e, he, hid⟩ hm
  · rw [Builtin.links_of_mem e (List.mem_of_getElem? hbuiltin)] at hk
    cases hk

/-- Places descend along a way without a declaration, so it does not come back. -/
theorem EndsIn.exists_declares_of_cycle {ms : List EntityId} (h : (m :: (ms ++ [m])).IsChain g.Points) :
    ∃ k ∈ m :: ms, g.Declares k := by
  by_contra hnone
  have hfree : ∀ k ∈ m :: (ms ++ [m]), ¬ g.Declares k := by
    intro k hk hdecl
    refine hnone ⟨k, ?_, hdecl⟩
    simpa [or_comm, or_assoc] using hk
  have hdescends : ((m :: (ms ++ [m])).map EntityId.index).IsChain (· > ·) := by
    rw [List.isChain_map]
    exact h.imp_of_mem_imp fun a b ha _ hab => ht.lt_of_points howned (hfree a ha) hab
  have hself : m.index > m.index :=
    hdescends.rel_cons (List.mem_map_of_mem (List.mem_append_right ms List.mem_cons_self))
  exact Nat.lt_irrefl _ hself

end

/-- The entities of type expressions are stored once and after what they store. -/
theorem forest_of_ofJson (h : ofJson root o = .ok g) : g.Forest := by
  obtain ⟨ids, t, hpass, _, ht⟩ := exists_pass_of_ofJson h
  have howned : t.Owned [] := Build.pass_owns hpass
  constructor
  case types => exact fun hm => ht.isType_iff howned hm
  case below => exact fun hm htype hk => ht.lt_of_mem_links howned hm htype hk
  case once => exact fun hm htype => ht.count_links_le_one howned hm htype
  case unshared =>
    intro m a b e x y i j hm htype hx hi hy hj
    have hcount := ht.count_links_le_one howned hm htype
    have hplace {a : EntityId} {x : Entity} (hx : g.get? a = some x) : g.entities.toList[a.index]? = some x := by
      rwa [Array.getElem?_toList]
    have hindex : a.index = b.index :=
      eq_of_count_flatMap_le_one hcount (hplace hx) (hplace hy) (List.mem_of_getElem? hi) (List.mem_of_getElem? hj)
    obtain rfl : a = b := congrArg EntityId.mk hindex
    rw [hx] at hy
    cases hy
    have hlinks : x.links.Sublist g.links :=
      List.sublist_flatten_of_mem (List.mem_map_of_mem (List.mem_of_getElem? (hplace hx)))
    exact ⟨rfl, eq_of_count_le_one (Nat.le_trans (hlinks.count_le m) hcount) hi hj⟩
  case cycles => exact fun hchain => ht.exists_declares_of_cycle howned hchain

/-- The alias and the array of itself point to each other. -/
theorem ofJson_selfAndLost_cycle : ∃ g, ofJson selfAndLost {} = .ok g ∧
    (∃ e, g.get? ⟨8⟩ = some e ∧ e.isType = true) ∧ [⟨7⟩, ⟨8⟩, ⟨7⟩].IsChain g.Points := by
  have hrun : (ofJson selfAndLost {}).toOption.map (fun g => ((g.get? ⟨7⟩).map Entity.links, g.get? ⟨8⟩)) =
      some (some [⟨8⟩], some (.array ⟨7⟩ [])) := by
    decide +kernel
  obtain ⟨g, hg⟩ := exists_ofJson (o := {}) (rfl : rootFault? selfAndLost = none)
  rw [hg] at hrun
  obtain ⟨halias, harray⟩ := Prod.mk.inj (Option.some.inj hrun)
  obtain ⟨e, he, hlinks⟩ := Option.map_eq_some_iff.mp halias
  refine ⟨g, hg, ⟨_, harray, rfl⟩, ?_⟩
  refine .cons_cons ⟨e, he, hlinks ▸ List.mem_cons_self⟩ (.cons_cons ⟨_, harray, List.mem_cons_self⟩ (.singleton _))

theorem forest_selfAndLost : ∃ g, ofJson selfAndLost {} = .ok g ∧ (∃ e, g.get? ⟨8⟩ = some e ∧ e.isType = true) ∧
    [⟨7⟩, ⟨8⟩, ⟨7⟩].IsChain g.Points ∧ g.Forest := by
  obtain ⟨g, hg, htype, hcycle⟩ := ofJson_selfAndLost_cycle
  exact ⟨g, hg, htype, hcycle, forest_of_ofJson hg⟩

end Graph

end EntityGraph

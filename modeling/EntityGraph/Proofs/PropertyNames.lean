import EntityGraph.Proofs.Partition

/-!
# Names of properties

A shape keeps the names of its properties beside the properties. Both lists grow together (`NamedLists.ofMembers`), so
they are of one length, and a property is found by the position of its name (`Shape.find?_lists`).

A name is taken from the child at which a property is met, while the entity is the one of the id. Where all nodes with
this id have the same name, it is the name of the entity, and a question for a name finds the first property that bears
it (`Graph.propertiesRead_of_ofJson`). Two children with one id and different names give a name that no property bears
(`Graph.not_propertiesNamed_relabelled`).
-/

namespace EntityGraph

/-! ## Two lists side by side -/

/-- Properties as two lists, one of names and one of entities. -/
structure NamedLists where
  names : List String := []
  entities : List EntityId := []
deriving DecidableEq, Inhabited

namespace NamedLists

/-- Adds a property at the end of both lists. -/
def push (name : String) (m : EntityId) (l : NamedLists) : NamedLists := ⟨l.names ++ [name], l.entities ++ [m]⟩

/-- Adds a member, if it is a property. -/
def take (l : NamedLists) (m : Member) : NamedLists := if m.kind.isProperty then l.push m.name m.entity else l

/-- The properties among members, added one at a time. -/
def ofMembers (ms : List Member) : NamedLists := ms.foldl take {}

/-- The entity at the first position of a name. -/
def find? (name : String) (l : NamedLists) : Option EntityId := (l.names.idxOf? name).bind fun i => l.entities[i]?

/-- Each name has its entity. -/
def Parallel (l : NamedLists) : Prop := l.names.length = l.entities.length

theorem Parallel.take {l : NamedLists} (h : l.Parallel) (m : Member) : (l.take m).Parallel := by
  unfold NamedLists.take
  split
  · show (l.names ++ [m.name]).length = (l.entities ++ [m.entity]).length
    rw [List.length_append, List.length_append, show l.names.length = l.entities.length from h]
    rfl
  · exact h

theorem parallel_ofMembers (ms : List Member) : (ofMembers ms).Parallel := by
  have keeps : ∀ (ms : List Member) (l : NamedLists), l.Parallel → (ms.foldl NamedLists.take l).Parallel := by
    intro ms
    induction ms with
    | nil => exact fun _ h => h
    | cons m ms ih => exact fun _ h => ih _ (h.take m)
  exact keeps ms {} rfl

end NamedLists

namespace Shape

/-- The properties of a shape as two lists. -/
def lists (s : Shape) : NamedLists := ⟨s.propertyNames, s.properties⟩

/-- The properties of a shape are those of its members, added one at a time. -/
theorem lists_withMembers (s : Shape) (ms : List Member) : (s.withMembers ms).lists = .ofMembers ms := by
  have adds : ∀ (ms : List Member) (l : NamedLists), ms.foldl NamedLists.take l =
      ⟨l.names ++ (s.withMembers ms).propertyNames, l.entities ++ (s.withMembers ms).properties⟩ := by
    intro ms
    induction ms with
    | nil => intro l; simp [withMembers, propertyNames, properties]
    | cons m ms ih =>
      intro l
      rw [List.foldl_cons, ih]
      cases hm : m.kind.isProperty <;>
        simp [NamedLists.take, NamedLists.push, withMembers, propertyNames, properties, hm]
  exact (adds ms {}).symm

/-- A property is found by the position of its name. -/
theorem find?_lists (s : Shape) (name : String) : s.lists.find? name = s.property? name := by
  show ((s.namedProperties.map (·.1)).idxOf? name).bind (fun i => (s.namedProperties.map (·.2))[i]?) =
    s.namedProperties.lookup name
  induction s.namedProperties with
  | nil => rfl
  | cons p rest ih =>
    rw [List.map_cons, List.map_cons, List.idxOf?_cons, lookup_cons_eq, ← ih]
    by_cases h : name = p.1
    · simp [h]
    · rw [if_neg (by simpa using Ne.symm h), if_neg h, Option.bind_map]
      rfl

end Shape

/-- All nodes with an id have one name. -/
def DeclId.NamedOnceIn (d : DeclId) (root : Json) : Prop :=
  ∀ n n' : Node, n.StandsIn root → n'.StandsIn root → n.id = d → n'.id = d → n.name = n'.name

namespace Graph

variable {root : Json} {o : Options} {g : Graph} {t : Build.State} {children : List Json} {ms : List Member}

/-! ## Where a name comes from -/

/-- A child has a name and stands for an entity. -/
def MetAt (g : Graph) (children : List Json) (name : String) (p : EntityId) : Prop :=
  ∃ v ∈ children, ∃ c, Node.ofJson? v = some c ∧ c.name = name ∧ g.entityOf? c.id = some p ∧ p ≠ Builtin.unknown

theorem EndsIn.metAt_of_membersOf (ht : g.EndsIn root o t) (h : g.view.MembersOf children ms) {m : Member}
    (hm : m ∈ ms) : g.MetAt children m.name m.entity := by
  have hne : m.entity ≠ Builtin.unknown := by
    intro hunknown
    have hkind := (kindAt?_of_membersOf h hm).1
    rw [hunknown, kindAt?, ht.get?_unknown] at hkind
    exact DeclKind.entityKind_ne_unknown _ (Option.some.inj hkind).symm
  obtain ⟨v, hv, c, hc, hname, hresolution⟩ := View.exists_child_of_membersOf h hm
  obtain ⟨p, hp, heq⟩ := Option.map_eq_some_iff.mp hresolution
  obtain rfl : p = m.entity := congrArg Resolution.entity heq
  exact ⟨v, hv, c, hc, hname, hp, hne⟩

/-- The names and the properties of a shape are those of children, position by position. -/
theorem EndsIn.metAt_properties (ht : g.EndsIn root o t) (h : g.view.MembersOf children ms) (s : Shape) :
    List.Forall₂ (g.MetAt children) (s.withMembers ms).propertyNames (s.withMembers ms).properties := by
  rw [Shape.propertyNames, Shape.properties, List.forall₂_map_left_iff, List.forall₂_map_right_iff, List.forall₂_same]
  intro p hp
  obtain ⟨m, hm, rfl⟩ := List.mem_map.mp hp
  exact ht.metAt_of_membersOf h (List.mem_filter.mp hm).1

/-- An entity that stands for an id has the name of a node with this id. -/
theorem EndsIn.exists_named (ht : g.EndsIn root o t) {d : DeclId} {p : EntityId} (hd : g.entityOf? d = some p)
    (hp : p ≠ Builtin.unknown) : ∃ n : Node, n.StandsIn root ∧ n.id = d ∧ g.nameAt? p = some n.name := by
  obtain ⟨e, he, hid⟩ := (ht.answered hd).resolve_left hp
  obtain ⟨n, _, _, _, hn, hnid, _, _, hshow, _⟩ := ht.declared he hid
  exact ⟨n, hn, hnid, by rw [nameAt?, he, Option.bind_some, hshow.name]⟩

/-! ## The names of a shape -/

/-- The names of a shape are those that its properties bear. -/
structure NamesProperties (g : Graph) (s : Shape) : Prop where
  parallel : s.propertyNames.length = s.properties.length
  named {i : Nat} {name : String} {p : EntityId} : s.propertyNames[i]? = some name → s.properties[i]? = some p →
    g.nameAt? p = some name
  /-- A question for a name is answered with the first property that bears it, if there is one. -/
  found (name : String) : s.property? name = s.properties.find? fun p => g.nameAt? p = some name

/-- Every shape has the names that its properties bear. -/
def PropertiesNamed (g : Graph) : Prop :=
  ∀ (m : EntityId) (e : Entity) (s : Shape), g.get? m = some e → e.shape? = some s → g.NamesProperties s

/-- The names of a shape are those of the children at which its properties are met. -/
structure ReadsProperties (g : Graph) (root : Json) (s : Shape) : Prop where
  parallel : s.propertyNames.length = s.properties.length
  met : ∃ n : Node, n.StandsIn root ∧ n.id = s.id ∧ List.Forall₂ (g.MetAt n.children) s.propertyNames s.properties
  /-- A question for a name is answered with the property at its first position. -/
  found (name : String) : s.property? name = s.lists.find? name
  /-- These are the names that the properties bear, where all nodes with the id of a property have one name. -/
  named : (∀ d p, p ∈ s.properties → g.entityOf? d = some p → d.NamedOnceIn root) → g.NamesProperties s

/-- The first property of a name is the first that bears the name, where the names are those of the properties. -/
theorem property?_eq_find? {s : Shape} (h : s.propertyNames.map some = s.properties.map g.nameAt?) (name : String) :
    s.property? name = s.properties.find? fun p => g.nameAt? p = some name := by
  rw [Shape.propertyNames, Shape.properties, List.map_map, List.map_map] at h
  rw [Shape.property?, Shape.properties]
  generalize s.namedProperties = ps at h
  induction ps with
  | nil => rfl
  | cons p ps ih =>
    obtain ⟨hp, hps⟩ := List.cons.inj h
    replace hp : some p.1 = g.nameAt? p.2 := hp
    rw [lookup_cons_eq, List.map_cons, List.find?_cons, ih hps, ← hp]
    by_cases hname : name = p.1
    · simp [hname]
    · simp [hname, Ne.symm hname]

/-- A shape reads its properties at the children of its node. -/
theorem EndsIn.readsProperties (ht : g.EndsIn root o t) {m : EntityId} {e : Entity} {s : Shape} (hm : g.get? m = some e)
    (hs : e.shape? = some s) : g.ReadsProperties root s := by
  obtain ⟨n, _, _, _, hn, hid, _, _, hshow, _⟩ := ht.declared hm (Entity.declId?_of_shape? hs)
  obtain ⟨ms, _, _, _, _, _, _, _, hms, _, hshape⟩ := shapeOf_of_shows hshow hs
  have hlists : s.lists = .ofMembers ms := hshape ▸ Shape.lists_withMembers _ ms
  have hparallel : s.lists.Parallel := hlists ▸ NamedLists.parallel_ofMembers ms
  have hmet : List.Forall₂ (g.MetAt n.children) s.propertyNames s.properties := hshape ▸ ht.metAt_properties hms _
  refine ⟨hparallel, ⟨n, hn, hid, hmet⟩, fun name => (s.find?_lists name).symm, fun honce => ?_⟩
  have hboth := (List.forall₂_and_left _ _).mpr ⟨fun p (hp : p ∈ s.properties) => hp, hmet.flip⟩
  have hnames : List.Forall₂ (fun p name => g.nameAt? p = some name) s.properties s.propertyNames := by
    refine hboth.imp ?_
    rintro p name ⟨hp, v, hv, c, hc, rfl, hd, hne⟩
    obtain ⟨n', hn', hid', hname⟩ := ht.exists_named hd hne
    have hstands : c.StandsIn root := Node.standsIn_of_ofJson? hc (.inr (hn.2.inside (Node.inside_children hv)))
    rw [hname, honce _ p hp hd c n' hstands hn' rfl hid']
  have hmap : s.properties.map g.nameAt? = s.propertyNames.map some := by
    rwa [← List.forall₂_eq_eq_eq, List.forall₂_map_left_iff, List.forall₂_map_right_iff]
  refine ⟨hparallel, fun {i name p} hi hp => ?_, property?_eq_find? hmap.symm⟩
  have hat := congrArg (·[i]?) hmap
  simpa only [List.getElem?_map, hi, hp, Option.map_some, Option.some.injEq] using hat

/-- Every shape reads its properties at the children of a node. -/
def PropertiesRead (g : Graph) (root : Json) : Prop :=
  ∀ (m : EntityId) (e : Entity) (s : Shape), g.get? m = some e → e.shape? = some s → g.ReadsProperties root s

/-- The names of properties are those of the children at which the properties are met. -/
theorem propertiesRead_of_ofJson (h : ofJson root o = .ok g) : g.PropertiesRead root := by
  obtain ⟨t, ht⟩ := endsIn_of_ofJson h
  exact fun m e s hm hs => ht.readsProperties hm hs

/-- A module with an interface and a class, which have these properties. -/
def withProperties (ofInterface ofClass : List Json) : Json :=
  .obj [("children", .arr [nodeWith 1 .externalModule "shapes" [("children", .arr [
    nodeWith 2 .interfaceDecl "Sized" [("children", .arr ofInterface)],
    nodeWith 3 .classDecl "Square" [("children", .arr ofClass)]])]])]

/-- The names, the properties and the names that these bear, for the shape of an id. -/
def namesOf? (g : Graph) (d : DeclId) : Option (List String × List EntityId × List (Option String)) :=
  ((g.entityOf? d).bind fun m => (g.get? m).bind Entity.shape?).map fun s =>
    (s.propertyNames, s.properties, s.properties.map g.nameAt?)

theorem exists_shape (hroot : rootFault? root = none) {d : DeclId} {names : List String} {ids : List EntityId}
    {borne : List (Option String)}
    (hrun : (ofJson root {}).toOption.map (·.namesOf? d) = some (some (names, ids, borne))) :
    ∃ g m e s, ofJson root {} = .ok g ∧ g.get? m = some e ∧ e.shape? = some s ∧ s.propertyNames = names ∧
      s.properties = ids ∧ s.properties.map g.nameAt? = borne := by
  obtain ⟨g, hg⟩ := exists_ofJson (o := {}) hroot
  rw [hg] at hrun
  obtain ⟨s, hs, hdata⟩ := Option.map_eq_some_iff.mp (Option.some.inj hrun)
  obtain ⟨m, _, hm⟩ := Option.bind_eq_some_iff.mp hs
  obtain ⟨e, he, hshape⟩ := Option.bind_eq_some_iff.mp hm
  simp only [Prod.mk.injEq] at hdata
  exact ⟨g, m, e, s, hg, he, hshape, hdata⟩

/-- A property that stands in an interface and again in a class, with the same id and name, before an accessor. -/
def inherited : Json :=
  withProperties [nodeWith 4 .property "side" [("type", voidType)]]
    [nodeWith 4 .property "side" [], nodeWith 5 .accessor "area" [
      ("getSignature", nodeWith 6 .getSignature "__get" [("type", voidType)])]]

/-- Both nodes of the property have one name, so the class has the names of its properties. -/
theorem propertiesRead_inherited : ∃ g m e s, ofJson inherited {} = .ok g ∧ g.PropertiesRead inherited ∧
    g.get? m = some e ∧ e.shape? = some s ∧ s.propertyNames = ["side", "area"] ∧ s.properties = [⟨9⟩, ⟨11⟩] ∧
      g.NamesProperties s := by
  have hrun : (ofJson inherited {}).toOption.map (·.namesOf? ⟨3⟩) =
      some (some (["side", "area"], [⟨9⟩, ⟨11⟩], [some "side", some "area"])) := by
    decide +kernel
  have hnodes : ∀ n ∈ inherited.nodes, ∀ n' ∈ inherited.nodes, n.id = n'.id → n.name = n'.name := by decide +kernel
  obtain ⟨g, m, e, s, hg, hm, hs, hnames, hids, _⟩ := exists_shape rfl hrun
  refine ⟨g, m, e, s, hg, propertiesRead_of_ofJson hg, hm, hs, hnames, hids, ?_⟩
  refine (propertiesRead_of_ofJson hg m e s hm hs).named fun d p _ _ n n' hn hn' hd hd' => ?_
  exact hnodes n (Json.mem_nodes_iff.mpr hn) n' (Json.mem_nodes_iff.mpr hn') (hd.trans hd'.symm)

/-- Two properties of a class with one id and different names. -/
def relabelled : Json :=
  withProperties [] [nodeWith 4 .property "side" [("type", voidType)], nodeWith 4 .property "edge" [("type", voidType)]]

/-- The class has a property under the second name, but no property bears it. -/
theorem not_propertiesNamed_relabelled : ∃ (g : Graph) (m : EntityId) (e : Entity) (s : Shape),
    ofJson relabelled {} = .ok g ∧ g.get? m = some e ∧ e.shape? = some s ∧ s.property? "edge" = some ⟨10⟩ ∧
      g.nameAt? ⟨10⟩ = some "side" ∧ ¬ g.PropertiesNamed := by
  have hrun : (ofJson relabelled {}).toOption.map (·.namesOf? ⟨3⟩) =
      some (some (["side", "edge"], [⟨10⟩, ⟨10⟩], [some "side", some "side"])) := by
    decide +kernel
  obtain ⟨g, m, e, s, hg, hm, hs, hnames, hids, hborne⟩ := exists_shape rfl hrun
  have hside : g.nameAt? ⟨10⟩ = some "side" := by
    rw [hids] at hborne
    exact (List.cons.inj hborne).1
  refine ⟨g, m, e, s, hg, hm, hs, ?_, hside, fun hnamed => ?_⟩
  · rw [← s.find?_lists, Shape.lists, NamedLists.find?, hnames, hids]
    rfl
  · have hedge := (hnamed m e s hm hs).named (i := 1) (by rw [hnames]; rfl) (by rw [hids]; rfl)
    rw [hside] at hedge
    exact absurd hedge (by decide)

end Graph

end EntityGraph

import EntityGraph.Proofs.Plays
import EntityGraph.Proofs.Positions

/-!
# The kinds of literals

Where a literal is written decides its kind: as long as literals and slots are asked for in place only
(`Json.PlacesDecide`), every literal with an entity of its own has the kind by which it is recognized at the one
position where it stands (`Graph.literalsFollowPlaces_of_ofJson`).

In a run, whatever is asked for in place is asked for at the position where it stands, and whatever is settled was asked
for so or through a reference (`Build.Work.Positioned`). The positions are those of the finished graph: what is settled
in a run has its kind for good.
-/

namespace EntityGraph

open Build (Act State Task Work Does Step Steps Performs tasks EveryAct)

/-- The places in a document decide what its literals are: ids are distinct, and literals and slots are not referred
to. -/
structure Json.PlacesDecide (root : Json) : Prop where
  notNode : Node.ofJson? root = none
  distinct : root.IdsDistinct
  inPlace {n : Node} : n.StandsIn root → n.tag? = some .typeLiteral ∨ n.IsSlot → ¬ root.RefersTo n.id

/-- A declaration is recognized from where it stands, or from somewhere if it is referred to. -/
def Waiting.Located (g : Graph) (root : Json) (p : Waiting) : Prop :=
  p.Recognized root ∧ (g.StandsAt root p.node.value p.position ∨ root.RefersTo p.node.id)

namespace Build

variable {g : Graph} {root : Json} {o : Options} {s t u : State} {w w' : Work} {a : Act} {more rest : List Task}

/-- What an act asks for in place stands at the position of the act. -/
def Act.Positioned (g : Graph) (root : Json) : Act → Prop
  | .declare _ position v => ∀ n : Node, Node.ofJson? v = some n → g.StandsAt root v position
  | .follow d => root.RefersTo d
  | .report _ | .store => True

/-! ## Scripts -/

theorem positioned_script (hroot : root.PlacesDecide) {p : Waiting} (hp : p.Located g root)
    (hkind : g.kindOf? p.node.id = some p.kind.entityKind) (depth : Nat) :
    EveryAct (Act.Positioned g root) (p.script o depth) := by
  obtain ⟨⟨hn, hk⟩, hplace⟩ := hp
  have hslot (hslot : p.node.IsSlot) : g.StandsAt root p.node.value p.position :=
    hplace.resolve_right (hroot.inPlace hn (.inr hslot))
  have typed {k : Nat} {q : Position} {v : Json} (hv : p.node.TypeAt o depth p.kind p.position k q v) :=
    Graph.typedAt_of_typeAt hroot.distinct hroot.notNode hn (Node.recognize?_of_entityKind? hk).1 hslot hv
  intro a ha
  cases Node.gives_of_mem_script a ha with
  | finding | cut | store => trivial
  | follow hv hd => exact ⟨_, (typed hv).1, hd⟩
  | member hbody hv => exact fun _ _ => .body hn hkind (by rw [DeclKind.bodyPosition?_entityKind, hbody]) hv
  | reflected hv _ hw =>
    obtain ⟨hwithin, htyped⟩ := typed hv
    intro m hm
    cases htyped with
    | initializer hinitial => exact .initializer hinitial hw
    | declaredType hnot =>
      have hstands := Node.standsIn_of_ofJson? hm (.inr (TypeExpr.holds_of_reflection hw).inside)
      exact .declaredType hwithin (hnot m hstands) hw

theorem positioned_rootScript (g : Graph) (root : Json) (o : Options) :
    EveryAct (Act.Positioned g root) (root.script o) :=
  .map fun _ hv _ _ => .top (List.mem_filter.mp hv).1

/-! ## Runs -/

/-- What is asked for in place is asked for where it stands, and what waits or is settled is located. -/
structure Work.Positioned (g : Graph) (root : Json) (w : Work) : Prop where
  agenda {a : Act} : .act a ∈ w.agenda → a.Positioned g root
  waits {p : Waiting} : p ∈ w.state.waiting →
    p.Located g root ∧ ∃ m, w.state.resolutions.lookup? p.node.id = some ⟨m, some p.kind⟩
  settled {d : DeclId} {m : EntityId} {kind : DeclKind} : w.state.resolutions.lookup? d = some ⟨m, some kind⟩ →
    ∃ p : Waiting, p.Located g root ∧ p.node.id = d ∧ p.kind = kind

/-- What is settled in a run has its kind in the graph in which the run ends. -/
theorem kindOf?_of_settled (ht : g.EndsIn root o u) (hgrow : s.Grows u) {d : DeclId} {m : EntityId} {kind : DeclKind}
    (hd : s.resolutions.lookup? d = some ⟨m, some kind⟩) : g.kindOf? d = some kind.entityKind := by
  have hu := hgrow.settled hd
  rw [Graph.kindOf?, ht.entityOf?, hu]
  exact ht.kindAt?_of_settled hu

theorem positioned_tasks (hroot : root.PlacesDecide) (ht : g.EndsIn root o u) (hgrow : s.Grows u) {p : Waiting}
    (hp : p.Located g root) {m : EntityId} (hm : s.resolutions.lookup? p.node.id = some ⟨m, some p.kind⟩) {depth : Nat}
    (ha : .act a ∈ tasks o depth p) : a.Positioned g root :=
  positioned_script hroot hp (kindOf?_of_settled ht hgrow hm) depth a (mem_script_of_mem_tasks ha)

/-- A declaration that is entered joins what is settled. -/
theorem Work.Positioned.located (hw : w.Positioned g root) {p : Waiting} (hp : p.Located g root) {d : DeclId}
    {m : EntityId} {kind : DeclKind}
    (hd : (w.state.resolutions.insert p.node.id ⟨p.slot, some p.kind⟩).lookup? d = some ⟨m, some kind⟩) :
    ∃ p : Waiting, p.Located g root ∧ p.node.id = d ∧ p.kind = kind := by
  rw [Resolutions.lookup?_insert] at hd
  split at hd
  · next heq =>
    cases hd
    exact ⟨p, hp, heq.symm, rfl⟩
  · exact hw.settled hd

/-- What waits is located while something else is settled. -/
theorem Work.Positioned.waits_insert (hw : w.Positioned g root) {d : DeclId} {r : Resolution}
    (hopen : w.state.resolutions.lookup? d = none) {p : Waiting} (hp : p ∈ w.state.waiting) :
    p.Located g root ∧ ∃ m, (w.state.resolutions.insert d r).lookup? p.node.id = some ⟨m, some p.kind⟩ := by
  obtain ⟨hlocated, m, hm⟩ := hw.waits hp
  exact ⟨hlocated, m, Resolutions.lookup?_insert_of_settled hopen hm⟩

theorem Does.positioned (h : Does root o a s more t) (hroot : root.PlacesDecide) (ht : g.EndsIn root o u)
    (hgrow : t.Grows u) (hw : Work.Positioned g root ⟨.act a :: rest, s⟩) :
    Work.Positioned g root ⟨more ++ rest, t⟩ := by
  have hrest {b : Act} (hb : .act b ∈ rest) : b.Positioned g root := hw.agenda (List.mem_cons_of_mem _ hb)
  have hasked := hw.agenda List.mem_cons_self
  cases h with
  | report | store | unreadable | missing | known => exact ⟨hrest, hw.waits, hw.settled⟩
  | pin _ _ hopen _ =>
    refine ⟨hrest, hw.waits_insert hopen, fun hd => ?_⟩
    rw [Resolutions.lookup?_insert] at hd
    split at hd
    · cases hd
    · exact hw.settled hd
  | @enter _ depth position v n kind hn hv hopen hk =>
    have hstands : g.StandsAt root n.value position := Node.value_of_ofJson? hv ▸ hasked n hv
    have hp : Waiting.Located g root ⟨n, kind, position, s.arena.nextId⟩ := ⟨⟨hn, hk⟩, .inl hstands⟩
    refine ⟨fun hb => ?_, hw.waits_insert hopen, hw.located hp⟩
    rcases List.mem_append.mp hb with hb | hb
    · exact positioned_tasks hroot ht hgrow hp (Resolutions.lookup?_insert_self ..) hb
    · exact hrest hb
  | @wait _ n kind hn _ hopen hk =>
    have hp : Waiting.Located g root ⟨n, kind, .reference, s.arena.nextId⟩ := ⟨⟨hn, hk⟩, .inr hasked⟩
    refine ⟨hrest, fun hmem => ?_, hw.located hp⟩
    rcases List.mem_cons.mp hmem with rfl | hmem
    · exact ⟨hp, _, Resolutions.lookup?_insert_self ..⟩
    · exact hw.waits_insert hopen hmem

theorem Step.positioned (h : Step root o w w') (hroot : root.PlacesDecide) (ht : g.EndsIn root o u)
    (hgrow : w'.state.Grows u) (hw : w.Positioned g root) : w'.Positioned g root := by
  cases h with
  | act rest h => exact h.positioned hroot ht hgrow hw
  | fill => exact ⟨fun hb => hw.agenda (List.mem_cons_of_mem _ hb), hw.waits, hw.settled⟩
  | resume rest hps =>
    refine ⟨fun hb => ?_, fun hp => hw.waits (hps ▸ List.mem_cons_of_mem _ hp), hw.settled⟩
    rcases List.mem_append.mp hb with hb | hb
    · obtain ⟨hp, _, hm⟩ := hw.waits (hps ▸ List.mem_cons_self)
      exact positioned_tasks hroot ht hgrow hp hm hb
    · exact hw.agenda hb
  | refer => exact ⟨hw.agenda, hw.waits, hw.settled⟩

/-- The positions are kept along a run that ends in the graph. -/
theorem Steps.positioned (h : Steps root o w w') (hroot : root.PlacesDecide) (ht : g.EndsIn root o u)
    (hgrow : w'.state.Grows u) (hw : w.Positioned g root) : w'.Positioned g root := by
  induction h with
  | refl => exact hw
  | tail _ hstep ih => exact hstep.positioned hroot ht hgrow (ih (hstep.grows.trans hgrow))

theorem Work.start_positioned (g : Graph) (root : Json) (o : Options) :
    Work.Positioned g root ⟨(root.script o).map .act, .start root⟩ :=
  ⟨fun ha => positioned_rootScript g root o _ (mem_of_mem_map_act ha), nofun, nofun⟩

end Build

namespace Graph

variable {root : Json} {o : Options} {g : Graph}

/-- Every literal with an entity of its own stands at one position and has the kind by which it is recognized there. -/
def LiteralsFollowPlaces (g : Graph) (root : Json) : Prop :=
  ∀ (n : Node) (m : EntityId), n.StandsIn root → n.tag? = some .typeLiteral → g.entityOf? n.id = some m →
    m ≠ Builtin.unknown → ∃ (position : Position) (kind : DeclKind), g.StandsAt root n.value position ∧
      (∀ q, g.StandsAt root n.value q → q = position) ∧ n.recognize? position = some kind ∧
        g.kindAt? m = some kind.entityKind

/-- The kinds of literals follow the places where they are written. -/
theorem literalsFollowPlaces_of_ofJson (h : ofJson root o = .ok g) (hroot : root.PlacesDecide) :
    g.LiteralsFollowPlaces root := by
  obtain ⟨t, ht, _, hrun⟩ := exists_run h
  have hend := Build.Steps.positioned hrun hroot ht (.refl t) (Build.Work.start_positioned g root o)
  intro n m hn htag hm hne
  rw [ht.entityOf?] at hm
  obtain ⟨⟨m, kind?⟩, hr, rfl⟩ := Option.map_eq_some_iff.mp hm
  cases kind? with
  | none =>
    have hsettled := ht.coherent.settled hr
    generalize n.id = d at hsettled
    cases hsettled
    exact absurd rfl hne
  | some kind =>
    obtain ⟨p, ⟨hp, hplace⟩, hid, rfl⟩ := hend.settled hr
    obtain rfl : p.node = n := hp.1.eq_of_id hn hroot.distinct hid
    have hstands := hplace.resolve_right (hroot.inPlace hn (.inl htag))
    refine ⟨p.position, p.kind, hstands, fun q hq => ?_, (Node.recognize?_of_entityKind? hp.2).1,
      ht.kindAt?_of_settled hr⟩
    exact hq.unique hroot.distinct ⟨hn.1, .inl rfl⟩ hroot.notNode hstands

/-- A type expression that reflects a literal. -/
def reflecting (id : Nat) (fields : List (String × Json)) : Json :=
  .obj [("type", .str "reflection"), ("declaration", nodeWith id .typeLiteral "__type" fields)]

/-- An interface with a property of a literal type, and an object literal. In the union that is the type of its
variable there are a literal, with a property whose type is an array of another, and a reference to the interface with a
literal among its type arguments. -/
def menu : Json :=
  .obj [("children", .arr [nodeWith 1 .externalModule "pages" [("children", .arr [
    nodeWith 2 .interfaceDecl "Link" [("children", .arr [
      nodeWith 3 .property "style" [("type", reflecting 4 [])]])],
    nodeWith 5 .objectLiteral "menu" [("children", .arr [
      nodeWith 6 .varDecl "home" [("type", .obj [("type", .str "union"), ("types", .arr [
        reflecting 7 [("children", .arr [
          nodeWith 8 .property "items" [("type", .obj [("type", .str "array"), ("elementType", reflecting 9 [])])]])],
        .obj [("type", .str "reference"), ("id", .ofNat 2), ("typeArguments", .arr [reflecting 10 []])]])])]])]])]])]

theorem placesDecide_menu : menu.PlacesDecide where
  notNode := rfl
  distinct := by
    unfold Json.IdsDistinct
    decide +kernel
  inPlace {n} hn htag hreferred := by
    have hslots : ∀ n ∈ menu.nodes, ∀ tag ∈ n.tag?.toList, tag = .typeLiteral ∨ tag.isSlot = true →
        n.id ∉ menu.referred := by
      decide +kernel
    obtain ⟨tag, htag, hslot⟩ : ∃ tag, n.tag? = some tag ∧ (tag = .typeLiteral ∨ tag.isSlot = true) := by
      rcases htag with htag | ⟨tag, htag, hslot⟩
      · exact ⟨_, htag, .inl rfl⟩
      · exact ⟨tag, htag, .inr hslot⟩
    exact hslots n (Json.mem_nodes_iff.mpr hn) tag (Option.mem_toList.mpr htag) hslot
      (Json.mem_referred_iff.mpr hreferred)

/-- The literals in the union and in the array are values, those of the interface and among the type arguments types. -/
theorem literalsFollowPlaces_menu : ∃ g, ofJson menu {} = .ok g ∧ menu.PlacesDecide ∧ g.LiteralsFollowPlaces menu ∧
    [7, 9, 4, 10].map (fun i => g.kindOf? ⟨i⟩) =
      [some .objectLiteral, some .objectLiteral, some .interfaceLiteral, some .interfaceLiteral] := by
  have hrun : (ofJson menu {}).toOption.map (fun g => [7, 9, 4, 10].map fun i => g.kindOf? ⟨i⟩) =
      some [some .objectLiteral, some .objectLiteral, some .interfaceLiteral, some .interfaceLiteral] := by
    decide +kernel
  obtain ⟨g, hg⟩ := exists_ofJson (o := {}) (rfl : rootFault? menu = none)
  rw [hg] at hrun
  exact ⟨g, hg, placesDecide_menu, literalsFollowPlaces_of_ofJson hg placesDecide_menu, Option.some.inj hrun⟩

end Graph

end EntityGraph

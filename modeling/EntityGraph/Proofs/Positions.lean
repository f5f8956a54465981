import EntityGraph.Proofs.Occurrence
import EntityGraph.Proofs.Recognition
import EntityGraph.Proofs.Script

/-!
# The positions of declarations

The position of a declaration in its document, as a relation that knows nothing of a resolution but the kinds of the
entities that it leaves (`Graph.StandsAt`). A child stands in the body of its parent. What a type expression reflects
stands in an initializer if the expression stands for a value (`Graph.Initial`): if it is written in the type of a slot
that stands in the body of an object literal or in an initializer itself (`Graph.initial_iff`).

Where ids are distinct, a declaration stands at one position at most (`Graph.StandsAt.unique`), and the type expressions
that are resolved for a node are asked for as what they stand for (`Graph.typedAt_of_typeAt`).
-/

namespace EntityGraph

/-! ## Keys of type expressions -/

namespace TypeExpr

variable {v w : Json}

/-- What a form takes over from the expression is what stands under its keys. -/
def WrittenIn (v : Json) : TypeExpr → Prop
  | array element => v.objectAt? "elementType" = some element
  | union members | intersection members => v.listAt? "types" = some members
  | reflection declaration => v.objectAt? "declaration" = some declaration
  | _ => True

theorem writtenIn_ofJson (v : Json) : (ofJson v).WrittenIn v := by
  have optional {α : Type} (x : Option α) {f : α → TypeExpr} (hf : ∀ a, x = some a → (f a).WrittenIn v) :
      ((x.map f).getD (unknown none)).WrittenIn v := by
    cases x with
    | none => trivial
    | some a => exact hf a rfl
  unfold ofJson
  split
  · unfold ofForm
    split
    · exact optional _ fun _ _ => trivial
    · unfold referenceOf
      split
      · next id _ => cases id.natural? <;> trivial
      · trivial
      · trivial
    · exact optional _ fun _ ha => ha
    · exact optional _ fun _ ha => ha
    · exact optional _ fun _ ha => ha
    · exact optional _ fun _ ha => ha
    · exact optional _ fun _ _ => trivial
    · exact optional _ fun _ _ => trivial
    · unfold operatorOf
      dsimp only
      split <;> trivial
    · trivial
  · trivial

/-- The keys under which an expression has the expressions that it is made of. -/
def componentKeys : List String := ["elementType", "types"]

theorem holds_of_reflection (h : ofJson v = .reflection w) : v.Holds "declaration" w := by
  have hwritten := writtenIn_ofJson v
  rw [h] at hwritten
  exact Json.holds_of_objectAt? hwritten

theorem exists_componentKey (h : w ∈ (ofJson v).components) : ∃ key ∈ componentKeys, v.Holds key w := by
  have hwritten := writtenIn_ofJson v
  cases he : ofJson v with
  | array element =>
    rw [he] at h hwritten
    obtain rfl := List.mem_singleton.mp h
    exact ⟨"elementType", by decide, Json.holds_of_objectAt? hwritten⟩
  | union members | intersection members =>
    rw [he] at h hwritten
    have hlist : v.listAt? "types" = some members := hwritten
    refine ⟨"types", by decide, .inr ?_⟩
    rwa [Json.listAt, hlist]
  | _ =>
    rw [he] at h
    cases h

end TypeExpr

/-! ## Slots -/

/-- A node is a plain typed slot. -/
def Node.IsSlot (n : Node) : Prop := ∃ tag, n.tag? = some tag ∧ tag.isSlot = true

/-- `v` is the type of a slot, or is what the type is made of. -/
inductive Node.SlotType (n : Node) : Json → Prop
  | type {v : Json} : n.IsSlot → n.type? = some v → SlotType n v
  | component {v w : Json} : SlotType n v → w ∈ (TypeExpr.ofJson v).components → SlotType n w

namespace Node

variable {root host v w : Json} {key : String} {n m : Node}

theorem SlotType.isSlot (h : n.SlotType v) : n.IsSlot := by
  induction h with
  | type hslot _ => exact hslot
  | component _ _ ih => exact ih

theorem SlotType.inside (h : n.SlotType v) : v.Inside n.value := by
  induction h with
  | type _ hv => exact inside_type? hv
  | component _ hw ih => exact (TypeExpr.inside_of_mem_parts (TypeExpr.mem_parts_of_mem_components hw)).trans ih

/-- Where a type in which a node stands is written, is where the slot has it. -/
theorem SlotType.host_eq (hdistinct : root.IdsDistinct) (h : n.SlotType v) (hn : n.value.Within root)
    (hm : m.StandsIn v) (hhost : host.Within root) (hv : host.Holds key v) :
    (n.value = host ∧ key = "type") ∨ (n.SlotType host ∧ key ∈ TypeExpr.componentKeys) := by
  cases h with
  | type _ htype =>
    obtain ⟨hvalue, hkey⟩ := Json.Holds.unique hdistinct hm hn hhost (Json.holds_of_objectAt? htype) hv
    exact .inl ⟨hvalue, hkey.symm⟩
  | component hu hw =>
    obtain ⟨key', hkey', hheld⟩ := TypeExpr.exists_componentKey hw
    obtain ⟨rfl, rfl⟩ := Json.Holds.unique hdistinct hm (.inr (hn.inside hu.inside)) hhost hheld hv
    exact .inr ⟨hu, hkey'⟩

end Node

/-- An alias is no slot. -/
theorem Node.not_isSlot_of_typeAlias {n : Node} {position : Position} (h : n.recognize? position = some .typeAlias) :
    ¬ n.IsSlot := by
  rintro ⟨tag, htag, hslot⟩
  obtain ⟨tag', htag', hkind⟩ := exists_tag_of_kind h rfl rfl
  rw [htag] at htag'
  obtain rfl := Option.some.inj htag'
  cases tag with
  | typeAlias => cases hslot
  | _ => cases hkind

/-- A property is a slot. -/
theorem Node.isSlot_of_property {n : Node} {position : Position} (h : n.recognize? position = some .property) :
    n.IsSlot := by
  obtain ⟨tag, htag, hkind⟩ := exists_tag_of_kind h rfl rfl
  refine ⟨tag, htag, ?_⟩
  cases tag with
  | varDecl | property | event => rfl
  | _ => cases hkind

theorem Json.BelongsTo.exists_holds {v host : Json} (h : v.BelongsTo host) :
    ∃ (middle : Json) (key : String), middle.Within host ∧ middle.Holds key v ∧ key ∈ Node.signatureKeys := by
  cases h with
  | direct hkey hv => exact ⟨host, _, .inl rfl, hv, hkey⟩
  | deeper hm hkey hv => exact ⟨_, _, .inr hm.inside, hv, hkey⟩

/-! ## Positions -/

/-- The position of the members of an entity of a kind, if such entities have members. -/
def EntityKind.bodyPosition? : EntityKind → Option Position
  | moduleDecl | namespaceDecl => some .namespaceBody
  | classDecl | interfaceDecl | interfaceLiteral => some .interfaceBody
  | objectLiteral => some .objectLiteralBody
  | _ => none

theorem DeclKind.bodyPosition?_entityKind (kind : DeclKind) :
    kind.entityKind.bodyPosition? = kind.membersPosition? := by
  cases kind <;> rfl

/-- Only the members of an object literal stand for values. -/
theorem EntityKind.eq_objectLiteral {kind : EntityKind} {position : Position} (h : kind.bodyPosition? = some position)
    (hposition : position.isInitializer = true) : kind = .objectLiteral := by
  cases kind <;> cases h <;> first | rfl | cases hposition

namespace Graph

/-- The kind of the entity of a declaration. -/
def kindOf? (g : Graph) (d : DeclId) : Option EntityKind := (g.entityOf? d).bind g.kindAt?

section

variable (g : Graph) (root : Json)

/-- A type expression stands for a value: it is written in the type of a slot that is a member of an object literal, or
that is itself reflected by such an expression. -/
inductive Initial : Json → Prop
  | member {n c : Node} {h : Json} : n.StandsIn root → g.kindOf? n.id = some .objectLiteral → c.value ∈ n.children →
      Node.ofJson? c.value = some c → c.SlotType h → Initial h
  | nested {c : Node} {h h' : Json} : Initial h' → TypeExpr.ofJson h' = .reflection c.value →
      Node.ofJson? c.value = some c → c.SlotType h → Initial h

/-- A declaration stands at a position. -/
inductive StandsAt : Json → Position → Prop
  | top {v : Json} : v ∈ root.listAt "children" → StandsAt v .namespaceBody
  | body {n : Node} {kind : EntityKind} {position : Position} {v : Json} : n.StandsIn root →
      g.kindOf? n.id = some kind → kind.bodyPosition? = some position → v ∈ n.children → StandsAt v position
  | initializer {h v : Json} : g.Initial root h → TypeExpr.ofJson h = .reflection v → StandsAt v .initializer
  | declaredType {h v : Json} : h.Within root → ¬ g.Initial root h → TypeExpr.ofJson h = .reflection v →
      StandsAt v .declaredType

end

variable {g : Graph} {root h v : Json} {n c : Node} {p q position : Position}

theorem Initial.within (h' : g.Initial root h) : h.Within root := by
  induction h' with
  | member hn _ hc _ hslot => exact .inr (hn.2.inside (hslot.inside.trans (Node.inside_children hc)))
  | nested _ hc _ hslot ih => exact .inr (ih.inside (hslot.inside.trans (TypeExpr.holds_of_reflection hc).inside))

/-- An expression stands for a value when it is written in the type of a slot in the body of an object literal or in an
initializer. -/
theorem initial_iff : g.Initial root h ↔ ∃ (c : Node) (position : Position), Node.ofJson? c.value = some c ∧
    g.StandsAt root c.value position ∧ position.isInitializer = true ∧ c.SlotType h := by
  constructor
  · intro hinitial
    cases hinitial with
    | member hn hkind hc hnode hslot => exact ⟨_, _, hnode, .body hn hkind rfl hc, rfl, hslot⟩
    | nested hinitial hc hnode hslot => exact ⟨_, _, hnode, .initializer hinitial hc, rfl, hslot⟩
  · rintro ⟨c, position, hnode, hc, hposition, hslot⟩
    cases hc with
    | top => cases hposition
    | body hn hkind hbody hc => exact .member hn (EntityKind.eq_objectLiteral hbody hposition ▸ hkind) hc hnode hslot
    | initializer hinitial hc => exact .nested hinitial hc hnode hslot
    | declaredType => cases hposition

theorem Initial.component (h' : g.Initial root h) {w : Json} (hw : w ∈ (TypeExpr.ofJson h).components) :
    g.Initial root w := by
  obtain ⟨c, position, hnode, hc, hposition, hslot⟩ := initial_iff.mp h'
  exact initial_iff.mpr ⟨c, position, hnode, hc, hposition, hslot.component hw⟩

/-- A declaration that stands somewhere is a child of something, or what an expression reflects. -/
theorem StandsAt.exists_holds (h : g.StandsAt root v p) : ∃ (host : Json) (key : String),
    host.Within root ∧ host.Holds key v ∧ key ∈ ["children", "declaration"] := by
  cases h with
  | top hv => exact ⟨root, "children", .inl rfl, .inr hv, by decide⟩
  | body hn _ _ hv => exact ⟨_, "children", hn.2, .inr hv, by decide⟩
  | initializer hinitial hv => exact ⟨_, "declaration", hinitial.within, TypeExpr.holds_of_reflection hv, by decide⟩
  | declaredType hwithin _ hv => exact ⟨_, "declaration", hwithin, TypeExpr.holds_of_reflection hv, by decide⟩

theorem StandsAt.within (h : g.StandsAt root v p) : v.Within root := by
  obtain ⟨_, _, hhost, hv, _⟩ := h.exists_holds
  exact .inr (hhost.inside hv.inside)

/-! ## Where ids are distinct -/

section

variable (hdistinct : root.IdsDistinct) {m : Node} (hm : m.StandsIn v)

include hdistinct hm

/-- A child stands in the body of its parent only. -/
theorem StandsAt.of_children (h : g.StandsAt root v p) {host : Json} (hhost : host.Within root)
    (hv : v ∈ host.listAt "children") : (host = root ∧ p = .namespaceBody) ∨
      ∃ (n : Node) (kind : EntityKind), n.StandsIn root ∧ n.value = host ∧ g.kindOf? n.id = some kind ∧
        kind.bodyPosition? = some p := by
  have reflected {h : Json} (hwithin : h.Within root) (hv' : TypeExpr.ofJson h = .reflection v) : False := by
    obtain ⟨_, hkey⟩ :=
      Json.Holds.unique hdistinct hm hhost hwithin (.inr hv) (TypeExpr.holds_of_reflection hv')
    exact absurd hkey (by decide)
  cases h with
  | top hv' =>
    obtain ⟨heq, _⟩ := Json.Holds.unique hdistinct hm hhost (.inl rfl) (.inr hv) (.inr hv')
    exact .inl ⟨heq, rfl⟩
  | body hn hkind hbody hv' =>
    obtain ⟨heq, _⟩ := Json.Holds.unique hdistinct hm hhost hn.2 (.inr hv) (.inr hv')
    exact .inr ⟨_, _, hn, heq.symm, hkind, hbody⟩
  | initializer hinitial hv' => exact (reflected hinitial.within hv').elim
  | declaredType hwithin _ hv' => exact (reflected hwithin hv').elim

/-- What an expression reflects stands in an initializer if the expression stands for a value, and nowhere else. -/
theorem StandsAt.of_reflection (h' : g.StandsAt root v p) (hwithin : h.Within root)
    (hv : TypeExpr.ofJson h = .reflection v) :
    (g.Initial root h ∧ p = .initializer) ∨ (¬ g.Initial root h ∧ p = .declaredType) := by
  have child {host : Json} (hhost : host.Within root) (hv' : v ∈ host.listAt "children") : False := by
    obtain ⟨_, hkey⟩ :=
      Json.Holds.unique hdistinct hm hhost hwithin (.inr hv') (TypeExpr.holds_of_reflection hv)
    exact absurd hkey (by decide)
  have same {h' : Json} (hwithin' : h'.Within root) (hv' : TypeExpr.ofJson h' = .reflection v) : h' = h :=
    (Json.Holds.unique hdistinct hm hwithin' hwithin (TypeExpr.holds_of_reflection hv')
      (TypeExpr.holds_of_reflection hv)).1
  cases h' with
  | top hv' => exact (child (.inl rfl) hv').elim
  | body hn _ _ hv' => exact (child hn.2 hv').elim
  | initializer hinitial hv' => exact .inl ⟨same hinitial.within hv' ▸ hinitial, rfl⟩
  | declaredType hwithin' hnot hv' => exact .inr ⟨same hwithin' hv' ▸ hnot, rfl⟩

/-- A declaration stands at one position. -/
theorem StandsAt.unique (hroot : Node.ofJson? root = none) (hp : g.StandsAt root v p) (hq : g.StandsAt root v q) :
    p = q := by
  have notRoot {n : Node} (hn : n.StandsIn root) (heq : n.value = root) : False := by
    have hnode := hn.1
    rw [heq, hroot] at hnode
    cases hnode
  cases hp with
  | top hv =>
    rcases hq.of_children hdistinct hm (.inl rfl) hv with ⟨_, rfl⟩ | ⟨n, _, hn, heq, _⟩
    · rfl
    · exact (notRoot hn heq).elim
  | body hn hkind hbody hv =>
    rcases hq.of_children hdistinct hm hn.2 hv with ⟨heq, _⟩ | ⟨n', kind', hn', heq, hkind', hbody'⟩
    · exact (notRoot hn heq).elim
    · have hnode := hn'.1
      rw [heq, hn.1] at hnode
      obtain rfl := Option.some.inj hnode
      rw [hkind] at hkind'
      obtain rfl := Option.some.inj hkind'
      rw [hbody] at hbody'
      exact Option.some.inj hbody'
  | initializer hinitial hv =>
    rcases hq.of_reflection hdistinct hm hinitial.within hv with ⟨_, rfl⟩ | ⟨hnot, _⟩
    · rfl
    · exact absurd hinitial hnot
  | declaredType hwithin hnot hv =>
    rcases hq.of_reflection hdistinct hm hwithin hv with ⟨hinitial, _⟩ | ⟨_, rfl⟩
    · exact absurd hinitial hnot
    · rfl

end

/-! ## Type expressions of a node -/

/-- Whether an expression is asked for as a value agrees with where it is written, if any node stands in it. -/
inductive TypedAt (g : Graph) (root v : Json) : Position → Prop
  | initializer : g.Initial root v → TypedAt g root v .initializer
  | declaredType : (∀ m : Node, m.StandsIn v → ¬ g.Initial root v) → TypedAt g root v .declaredType

section

variable (hdistinct : root.IdsDistinct)

include hdistinct

/-- What is not written in the type of a slot does not stand for a value. -/
theorem not_initial_of_holds {m : Node} (hm : m.StandsIn v) {host : Json} {key : String} (hhost : host.Within root)
    (hv : host.Holds key v) (hkey : key ∉ "type" :: TypeExpr.componentKeys) : ¬ g.Initial root v := by
  intro hinitial
  obtain ⟨c, _, _, hc, _, hslot⟩ := initial_iff.mp hinitial
  rcases hslot.host_eq hdistinct hc.within hm hhost hv with ⟨_, rfl⟩ | ⟨_, hcomponent⟩
  · exact hkey List.mem_cons_self
  · exact hkey (List.mem_cons_of_mem _ hcomponent)

/-- The type that a node has of its own stands for a value only if the node is a slot, in an object literal or an
initializer. -/
theorem Initial.of_type (h : g.Initial root v) {m : Node} (hm : m.StandsIn v) {host : Json} (hhost : host.Within root)
    (hv : host.objectAt? "type" = some v) : ∃ (c : Node) (position : Position), Node.ofJson? host = some c ∧ c.IsSlot ∧
      g.StandsAt root host position ∧ position.isInitializer = true := by
  obtain ⟨c, position, hnode, hc, hposition, hslot⟩ := initial_iff.mp h
  rcases hslot.host_eq hdistinct hc.within hm hhost (Json.holds_of_objectAt? hv) with ⟨rfl, _⟩ | ⟨_, hkey⟩
  · exact ⟨c, position, hnode, hslot.isSlot, hc, hposition⟩
  · exact absurd hkey (by decide)

/-- Of what an expression is made stands for a value only if the expression does. -/
theorem Initial.of_component {w : Json} (h : g.Initial root w) {m : Node} (hm : m.StandsIn w) (hv : v.Within root)
    (hw : w ∈ (TypeExpr.ofJson v).components) : g.Initial root v := by
  obtain ⟨c, position, hnode, hc, hposition, hslot⟩ := initial_iff.mp h
  obtain ⟨key, hkey, hheld⟩ := TypeExpr.exists_componentKey hw
  rcases hslot.host_eq hdistinct hc.within hm hv hheld with ⟨_, rfl⟩ | ⟨hslot, _⟩
  · exact absurd hkey (by decide)
  · exact initial_iff.mpr ⟨c, position, hnode, hc, hposition, hslot⟩

/-- A signature of a declaration, or a parameter of one, stands at no position. -/
theorem not_standsAt_of_belongsTo {m : Node} (hm : m.StandsIn v) (hn : n.value.Within root) (hv : v.BelongsTo n.value) :
    ¬ g.StandsAt root v p := by
  intro hp
  obtain ⟨host, key, hhost, hheld, hkey⟩ := hv.exists_holds
  obtain ⟨host', key', hhost', hheld', hkey'⟩ := hp.exists_holds
  have hwithin : host.Within root := by
    rcases hhost with rfl | hhost
    · exact hn
    · exact .inr (hn.inside hhost)
  obtain ⟨_, rfl⟩ := Json.Holds.unique hdistinct hm hwithin hhost' hheld hheld'
  revert hkey'
  exact (by decide : ∀ key ∈ Node.signatureKeys, key ∉ ["children", "declaration"]) key hkey

/-- The type expressions that are resolved for a node are asked for as what they stand for. -/
theorem typedAt_of_typeAt (hroot : Node.ofJson? root = none) {kind : DeclKind} (hn : n.StandsIn root)
    (hk : n.recognize? position = some kind) (hposition : n.IsSlot → g.StandsAt root n.value position)
    {o : Options} {depth k : Nat} (hv : n.TypeAt o depth kind position k q v) :
    v.Within root ∧ g.TypedAt root v q := by
  have within {w : Json} (hw : w.Inside n.value) : w.Within root := .inr (hn.2.inside hw)
  have hself : n.StandsIn n.value := ⟨hn.1, .inl rfl⟩
  induction hv with
  | @listed key v hkey hv =>
    refine ⟨within (Json.inside_of_mem_listAt hv), .declaredType fun m hm => ?_⟩
    refine not_initial_of_holds hdistinct hm hn.2 (.inr hv) ?_
    exact (by decide : ∀ key ∈ Node.typeListKeys, key ∉ "type" :: TypeExpr.componentKeys) key hkey
  | @aliased v halias hv =>
    refine ⟨within (Node.inside_type? hv), .declaredType fun m hm hinitial => ?_⟩
    obtain ⟨c, _, hnode, hslot, _⟩ := hinitial.of_type hdistinct hm hn.2 hv
    rw [hn.1] at hnode
    obtain rfl := Option.some.inj hnode
    exact n.not_isSlot_of_typeAlias (halias ▸ hk) hslot
  | @slot v hproperty hv =>
    have hslot : n.IsSlot := n.isSlot_of_property (hproperty ▸ hk)
    have hstands := hposition hslot
    refine ⟨within (Node.inside_type? hv), ?_⟩
    unfold Position.ofSlot
    split
    · next hinitial => exact .initializer (initial_iff.mpr ⟨n, position, hn.1, hstands, hinitial, .type hslot hv⟩)
    · next hnot =>
      refine .declaredType fun m hm hinitial => hnot ?_
      obtain ⟨_, position', _, _, hstands', hinitial'⟩ := hinitial.of_type hdistinct hm hn.2 hv
      rwa [hstands.unique hdistinct hself hroot hstands']
  | @signature m v hm hv =>
    refine ⟨within ((Json.inside_of_objectAt? hv).trans hm.inside), .declaredType fun m' hm' hinitial => ?_⟩
    obtain ⟨c, _, hnode, _, hstands, _⟩ := hinitial.of_type hdistinct hm' (within hm.inside) hv
    exact not_standsAt_of_belongsTo hdistinct (Node.standsIn_of_ofJson? hnode (.inl rfl)) hn.2 hm hstands
  | component _ _ hw ih =>
    obtain ⟨hwithin, htyped⟩ := ih
    have hinside := TypeExpr.inside_of_mem_parts (TypeExpr.mem_parts_of_mem_components hw)
    refine ⟨.inr (hwithin.inside hinside), ?_⟩
    cases htyped with
    | initializer hinitial => exact .initializer (hinitial.component hw)
    | declaredType hnot =>
      refine .declaredType fun m hm hinitial => hnot m (hm.mono (.inr hinside)) ?_
      exact hinitial.of_component hdistinct hm hwithin hw
  | argument _ _ hw ih =>
    obtain ⟨hwithin, _⟩ := ih
    refine ⟨.inr (hwithin.inside (TypeExpr.inside_of_mem_arguments hw)), .declaredType fun m hm => ?_⟩
    exact not_initial_of_holds hdistinct hm hwithin (.inr hw) (by decide)

end

end Graph

end EntityGraph

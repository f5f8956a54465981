import EntityGraph.Proofs.Faithfulness

/-!
# Kinds

The kind of a node depends on the place from which it is reached only for literals, and only in so far as a callable
literal is a function or a method and a literal with a body a type or a value (`Node.recognize?_variant`); whether a
node is recognized does not depend on the place at all (`Node.recognize?_eq_none_iff`).

An entity is of the kind by which the node that it shows was recognized (`Entity.kind_of_declKind?`), so the kinds of a
finished graph are those that its document writes (`Graph.kindsAgree_of_ofJson`).
-/

namespace EntityGraph

/-! ## Kinds of declarations and of entities -/

namespace DeclKind

/-- The kind of the entity of a declaration of a kind. -/
def entityKind : DeclKind → EntityKind
  | moduleDecl => .moduleDecl
  | namespaceDecl => .namespaceDecl
  | classDecl => .classDecl
  | interfaceDecl => .interfaceDecl
  | enumDecl => .enumDecl
  | typeAlias => .typeAlias
  | property => .property
  | accessor => .accessor
  | function => .function
  | method => .method
  | constructor => .constructor
  | interfaceLiteral => .interfaceLiteral
  | objectLiteral => .objectLiteral
  | indexSignature => .indexSignature

theorem label_entityKind (kind : DeclKind) : kind.entityKind.label = kind.label := by cases kind <;> rfl

theorem entityKind_ne_unknown (kind : DeclKind) : kind.entityKind ≠ .unknown := by cases kind <;> nofun

end DeclKind

/-- The kind of an entity is the kind of the declaration that it stands for. -/
theorem Entity.kind_of_declKind? {e : Entity} {kind : DeclKind} (h : e.declKind? = some kind) :
    e.kind = kind.entityKind ∧ kind ≠ .indexSignature := by
  cases e with
  | property p =>
    obtain rfl := Option.some.inj h
    simp only [Entity.kind]
    cases p.isAccessor <;> exact ⟨rfl, nofun⟩
  | callable c =>
    obtain rfl := Option.some.inj h
    simp only [Entity.kind]
    cases c.kind <;> exact ⟨rfl, nofun⟩
  | primitive | unknown | array | union | intersection | stringLiteral | typeParameter | typeOperator
  | externalReference => cases h
  | moduleDecl | namespaceDecl | classDecl | interfaceDecl | interfaceLiteral | objectLiteral | enumDecl
  | typeAlias =>
    obtain rfl := Option.some.inj h
    exact ⟨rfl, nofun⟩

/-- The kind of declaration for which a callable stands. -/
def CallableKind.declKind : CallableKind → DeclKind
  | function => .function
  | method => .method
  | constructor => .constructor

theorem CallableKind.isFunction_declKind (k : CallableKind) : k.declKind.isFunction = true := by cases k <;> rfl

theorem CallableKind.declKind_eq_constructor_iff {k : CallableKind} : k.declKind = .constructor ↔ k = .constructor := by
  cases k <;> simp [declKind]

/-- A callable is shown by a node of its kind. -/
theorem View.Shows.callable {w : View} {depth : Nat} {n : Node} {kind : DeclKind} {c : Callable}
    (h : w.Shows depth n kind (.callable c)) : kind = c.kind.declKind ∧ w.CallableOf depth n c.kind c := by
  have hkind : c.kind.declKind = kind := Option.some.inj h.stamp.2
  refine ⟨hkind.symm, ?_⟩
  subst hkind
  cases hk : c.kind <;> rw [hk] at h <;> obtain ⟨_, hc, heq⟩ := h <;> cases heq <;> exact hc

/-! ## Recognition and the place -/

/-- Two kinds that a literal can have, depending on the place. -/
inductive DeclKind.Variant : DeclKind → DeclKind → Prop
  | refl (kind : DeclKind) : Variant kind kind
  | functionMethod : Variant .function .method
  | methodFunction : Variant .method .function
  | typeValue : Variant .interfaceLiteral .objectLiteral
  | valueType : Variant .objectLiteral .interfaceLiteral

namespace Node

variable {n : Node}

/-- No rule for literals says anything of other nodes. -/
theorem recognize?_of_ne_typeLiteral (h : n.tag? ≠ some .typeLiteral) (position : Position) :
    n.recognize? position =
      (Rule.tagged n position).or ((Rule.taggedCallable n position).or (Rule.slot n position)) := by
  have callable : Rule.callableLiteral n position = none := if_neg h
  have body : Rule.bodyLiteral n position = none := by
    rw [Rule.bodyLiteral, if_neg]
    simp [h]
  simp only [recognize?, recognizeBy?, Rule.all, List.findSome?_cons, List.findSome?_nil, callable, body]
  cases Rule.tagged n position <;> cases Rule.taggedCallable n position <;> cases Rule.slot n position <;> rfl

/-- No rule but those for literals looks at the place. -/
theorem recognize?_eq_of_tag (h : n.tag? ≠ some .typeLiteral) (p q : Position) : n.recognize? p = n.recognize? q := by
  rw [recognize?_of_ne_typeLiteral h p, recognize?_of_ne_typeLiteral h q]
  rfl

/-- A literal with signatures and nothing else is callable, any other literal has a body. -/
theorem recognize?_of_typeLiteral (h : n.tag? = some .typeLiteral) (position : Position) :
    n.recognize? position = (Rule.callableLiteral n position).or (Rule.bodyLiteral n position) := by
  have tagged : Rule.tagged n position = none := by rw [Rule.tagged, h]
  have taggedCallable : Rule.taggedCallable n position = none := by rw [Rule.taggedCallable, h]
  have slot : Rule.slot n position = none := by
    rw [Rule.slot, h]
    split <;> rfl
  simp only [recognize?, recognizeBy?, Rule.all, List.findSome?_cons, List.findSome?_nil, tagged, taggedCallable, slot]
  cases Rule.callableLiteral n position <;> cases Rule.bodyLiteral n position <;> rfl

/-- The kinds of a node at two places are the same, or variants that a literal can have. -/
theorem recognize?_variant {p q : Position} {kind kind' : DeclKind} (hp : n.recognize? p = some kind)
    (hq : n.recognize? q = some kind') :
    kind = kind' ∨ n.tag? = some .typeLiteral ∧ kind.Variant kind' := by
  by_cases h : n.tag? = some .typeLiteral
  · refine .inr ⟨h, ?_⟩
    rw [recognize?_of_typeLiteral h, Rule.callableLiteral, Rule.bodyLiteral, if_pos h] at hp hq
    cases hs : n.soleSignatures? with
    | some signatures =>
      simp only [hs, Option.map_some, Option.some_or, Option.some.injEq] at hp hq
      subst hp hq
      split
      · exact .refl _
      · cases p.isMember <;> cases q.isMember <;> constructor
    | none =>
      simp only [hs, Option.map_none, Option.none_or, h, decide_true, Bool.true_and] at hp hq
      cases hfit : n.childrenFit with
      | false => simp [hfit] at hp
      | true =>
        simp only [hfit, if_true, Option.some.injEq] at hp hq
        subst hp hq
        cases p.isInitializer <;> cases q.isInitializer <;> constructor
  · rw [recognize?_eq_of_tag h p q, hq] at hp
    exact .inl (Option.some.inj hp).symm

/-- Whether a node is recognized does not depend on the place. -/
theorem recognize?_eq_none_iff (p q : Position) : n.recognize? p = none ↔ n.recognize? q = none := by
  by_cases h : n.tag? = some .typeLiteral
  · simp only [recognize?_of_typeLiteral h, Option.or_eq_none_iff, Rule.callableLiteral, Rule.bodyLiteral, h,
      if_true, Option.map_eq_none_iff, decide_true, Bool.true_and]
    cases n.childrenFit <;> simp
  · rw [recognize?_eq_of_tag h p q]

theorem entityKind?_eq_none {position : Position} :
    n.entityKind? position = none ↔
      n.recognize? position = none ∨ n.recognize? position = some .indexSignature := by
  rw [entityKind?]
  cases n.recognize? position with
  | none => simp
  | some kind => simp [Option.filter_some]

/-- Whether a node has an entity does not depend on the place. -/
theorem entityKind?_eq_none_iff (p q : Position) : n.entityKind? p = none ↔ n.entityKind? q = none := by
  have index {p q : Position} (h : n.recognize? p = some .indexSignature) :
      n.recognize? q = some .indexSignature := by
    cases hq : n.recognize? q with
    | none => simp [(recognize?_eq_none_iff q p).mp hq] at h
    | some kind =>
      rcases recognize?_variant h hq with rfl | ⟨_, hvariant⟩
      · rfl
      · cases hvariant
        rfl
  rw [entityKind?_eq_none, entityKind?_eq_none, recognize?_eq_none_iff p q]
  exact or_congr_right ⟨index, index⟩

/-- The kinds of the entities of a node, reached from two places, are variants. -/
theorem entityKind?_variant {p q : Position} {kind kind' : DeclKind} (hp : n.entityKind? p = some kind)
    (hq : n.entityKind? q = some kind') : kind.Variant kind' := by
  rcases recognize?_variant (recognize?_of_entityKind? hp).1 (recognize?_of_entityKind? hq).1 with rfl | ⟨_, h⟩
  · exact .refl kind
  · exact h

end Node

namespace Graph

variable {root : Json} {o : Options} {g : Graph}

/-! ## An example -/

/-- An object with the base shape of a declaration and these fields. -/
def nodeWith (id : Nat) (tag : Tag) (name : String) (fields : List (String × Json)) : Json :=
  .obj ([("id", .ofNat id), ("name", .str name), ("kind", .ofNat 1), ("kindString", .str tag.text)] ++ fields)

/-- The type `void`. -/
def voidType : Json := .obj [("type", .str "intrinsic"), ("name", .str "void")]

/-- A module with a class, an enumeration and an alias of a literal. The class has a private property, a property
without a type, which is not recognized, and a child without the base shape; there are values without the base shape
among the members of the enumeration and the parameters of the constructor, and a property among the former. -/
def shop : Json :=
  .obj [("children", .arr [
    nodeWith 1 .externalModule "shop" [("children", .arr [
      nodeWith 2 .classDecl "Cart" [("children", .arr [
        nodeWith 3 .property "size" [("type", voidType)],
        nodeWith 4 .constructor "constructor" [("signatures", .arr [
          nodeWith 5 .constructorSignature "new" [("type", voidType), ("parameters", .arr [
            nodeWith 6 .parameter "items" [("type", voidType)], .null])]])],
        nodeWith 7 .property "secret" [("type", voidType), ("flags", .obj [("isPrivate", .bool true)])],
        nodeWith 8 .property "untyped" [],
        .str "shapeless"])],
      nodeWith 9 .enumeration "Color" [("children", .arr [
        nodeWith 10 .enumerationMember "red" [], nodeWith 11 .property "size" [], .null])],
      nodeWith 12 .typeAlias "Empty" [("type", .obj [("type", .str "reflection"),
        ("declaration", nodeWith 13 .typeLiteral "__type" [])])]])]])]

/-- The property without a type stands for the unknown type, the private property for nothing. -/
theorem ofJson_shop : ∃ g, ofJson shop { skipPrivateMembers := true } = .ok g ∧
    g.declarations = [(⟨1⟩, ⟨7⟩), (⟨2⟩, ⟨8⟩), (⟨3⟩, ⟨9⟩), (⟨4⟩, ⟨10⟩), (⟨8⟩, Builtin.unknown), (⟨9⟩, ⟨11⟩),
      (⟨12⟩, ⟨12⟩), (⟨13⟩, ⟨13⟩)] := by
  have hrun : (ofJson shop { skipPrivateMembers := true }).toOption.map Graph.declarations =
      some [(⟨1⟩, ⟨7⟩), (⟨2⟩, ⟨8⟩), (⟨3⟩, ⟨9⟩), (⟨4⟩, ⟨10⟩), (⟨8⟩, Builtin.unknown), (⟨9⟩, ⟨11⟩), (⟨12⟩, ⟨12⟩),
        (⟨13⟩, ⟨13⟩)] := by
    decide +kernel
  obtain ⟨g, hg⟩ := exists_ofJson (o := { skipPrivateMembers := true }) (rfl : rootFault? shop = none)
  rw [hg] at hrun
  exact ⟨g, hg, Option.some.inj hrun⟩

theorem idsDistinct_shop : shop.IdsDistinct := by
  unfold Json.IdsDistinct
  decide +kernel

/-! ## The kinds of a graph -/

/-- The kind of the entity at a place. -/
def kindAt? (g : Graph) (m : EntityId) : Option EntityKind := (g.get? m).map Entity.kind

/-- What a graph holds for a declaration is of the kind by which the declaration is settled. -/
theorem kindAt?_of_resolution? {d : DeclId} {r : Resolution} {kind : DeclKind} (h : g.view.resolution? d = some r)
    (hk : r.kind = some kind) : g.kindAt? r.entity = some kind.entityKind ∧ kind ≠ .indexSignature := by
  obtain ⟨m, _, rfl⟩ := Option.map_eq_some_iff.mp h
  obtain ⟨e, he, hkind⟩ := Option.bind_eq_some_iff.mp hk
  obtain ⟨heq, hne⟩ := Entity.kind_of_declKind? hkind
  exact ⟨by rw [kindAt?, he, Option.map_some, heq], hne⟩

theorem EndsIn.kindAt?_of_settled {t : Build.State} (h : g.EndsIn root o t) {d : DeclId} {m : EntityId}
    {kind : DeclKind} (hd : t.resolutions.lookup? d = some ⟨m, some kind⟩) : g.kindAt? m = some kind.entityKind :=
  (kindAt?_of_resolution? (h.resolution? hd) rfl).1

/-- What is settled for an id is pinned to the unknown type, for a node with this id that is not recognized, or the
entity of a node with this id that is recognized. -/
theorem EndsIn.recognized {t : Build.State} (h : g.EndsIn root o t) {d : DeclId} {m : EntityId}
    (hd : g.entityOf? d = some m) : ∃ (n : Node) (position : Position), n.StandsIn root ∧ n.id = d ∧
      ((m = Builtin.unknown ∧ n.entityKind? position = none) ∨
        (m ≠ Builtin.unknown ∧ ∃ kind, n.entityKind? position = some kind ∧ g.kindAt? m = some kind.entityKind)) := by
  rw [h.entityOf?] at hd
  obtain ⟨r, hr, rfl⟩ := Option.map_eq_some_iff.mp hd
  cases h.coherent.settled hr with
  | pinned hn hk => exact ⟨_, _, hn, rfl, .inl ⟨rfl, hk⟩⟩
  | entered hn _ hk _ =>
    have hkind := h.kindAt?_of_settled hr
    refine ⟨_, _, hn, rfl, .inr ⟨?_, _, hk, hkind⟩⟩
    rintro rfl
    rw [kindAt?, h.get?_unknown] at hkind
    exact DeclKind.entityKind_ne_unknown _ (Option.some.inj hkind).symm

/-- The kinds of the entities of declarations are the kinds by which nodes of the document are recognized. -/
structure KindsAgree (g : Graph) (root : Json) : Prop where
  /-- An entity that stands for a declaration is of the kind by which a node of the declaration is recognized at some
  place, and at every place unless the node is a literal. -/
  built {d : DeclId} {m : EntityId} : g.entityOf? d = some m → m ≠ Builtin.unknown →
    ∃ (n : Node) (position : Position) (kind : DeclKind),
      n.StandsIn root ∧ n.id = d ∧ n.recognize? position = some kind ∧ kind ≠ .indexSignature ∧
        (g.kindAt? m).map EntityKind.label = some kind.label ∧
          (n.tag? ≠ some .typeLiteral → ∀ q, n.recognize? q = some kind)
  /-- Where ids are distinct, a declaration stands for the unknown type when it was reached and its node is not
  recognized, or recognized as an index signature, at one place or another. -/
  pinned {n : Node} (position : Position) : root.IdsDistinct → n.StandsIn root →
    (g.entityOf? n.id = some Builtin.unknown ↔
      (∃ m, g.entityOf? n.id = some m) ∧
        (n.recognize? position = none ∨ n.recognize? position = some .indexSignature))

/-- What a node is recognized as is what its entity is, from wherever the node was reached. -/
theorem kindsAgree_of_ofJson (h : ofJson root o = .ok g) : g.KindsAgree root := by
  obtain ⟨t, ht⟩ := endsIn_of_ofJson h
  constructor
  case built =>
    intro d m hd hm
    obtain ⟨n, position, hn, hid, ⟨hunknown, _⟩ | ⟨_, kind, hk, hkind⟩⟩ := ht.recognized hd
    · exact absurd hunknown hm
    · obtain ⟨hk, hne⟩ := Node.recognize?_of_entityKind? hk
      refine ⟨n, position, kind, hn, hid, hk, hne, ?_, fun htag q => ?_⟩
      · rw [hkind, Option.map_some, DeclKind.label_entityKind]
      · rw [Node.recognize?_eq_of_tag htag q position, hk]
  case pinned =>
    intro n position hdistinct hn
    rw [← Node.entityKind?_eq_none]
    constructor
    · intro hd
      obtain ⟨n', q, hn', hid, ⟨_, hk⟩ | ⟨hne, _⟩⟩ := ht.recognized hd
      · rw [hn'.eq_of_id hn hdistinct hid] at hk
        exact ⟨⟨_, hd⟩, (Node.entityKind?_eq_none_iff q position).mp hk⟩
      · exact absurd rfl hne
    · rintro ⟨⟨m, hd⟩, hk⟩
      obtain ⟨n', q, hn', hid, ⟨rfl, _⟩ | ⟨_, kind, hk', _⟩⟩ := ht.recognized hd
      · exact hd
      · rw [hn'.eq_of_id hn hdistinct hid, (Node.entityKind?_eq_none_iff position q).mp hk] at hk'
        cases hk'

theorem kindsAgree_shop : ∃ g, ofJson shop { skipPrivateMembers := true } = .ok g ∧ shop.IdsDistinct ∧
    g.KindsAgree shop := by
  obtain ⟨g, hg, _⟩ := ofJson_shop
  exact ⟨g, hg, idsDistinct_shop, kindsAgree_of_ofJson hg⟩

end Graph

end EntityGraph

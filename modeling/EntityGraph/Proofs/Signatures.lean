import EntityGraph.Proofs.Plays
import EntityGraph.Proofs.Recognition

/-!
# What signatures give

A callable has one signature for each entry of the `signatures` of its node, in order (`Graph.KeepsOverloads`): entries
that are no nodes would be left out, but a node with such entries is not recognized as callable, at whatever place and
whenever it is built.

An accessor has a getter or a setter as soon as its node has something in the place of one. It is readable or writeable
only as far as what stands there has the base shape of a node (`Graph.AccessorsRead`), so an accessor can be neither
(`Graph.not_accessorsAgree_unshaped`).
-/

namespace EntityGraph

open Build (Task Steps Performs)

/-- Where every item is read, nothing is left out. -/
theorem forall₂_of_filterMap {α β γ : Type} {f : α → Option β} {R : β → γ → Prop} {xs : List α} {ys : List γ}
    (hread : ∀ x ∈ xs, ∃ b, f x = some b) (h : List.Forall₂ R (xs.filterMap f) ys) :
    List.Forall₂ (fun x y => ∃ b, f x = some b ∧ R b y) xs ys := by
  induction xs generalizing ys with
  | nil =>
    cases h
    exact .nil
  | cons x xs ih =>
    obtain ⟨b, hb⟩ := hread x List.mem_cons_self
    rw [List.filterMap_cons_some hb] at h
    cases h with
    | cons hby h => exact .cons ⟨b, hb, hby⟩ (ih (fun x' hx' => hread x' (List.mem_cons_of_mem _ hx')) h)

/-! ## Overloads -/

/-- A node is an overload of a callable: it is tagged as a signature and has a type. -/
def Node.IsOverload (n : Node) : Prop :=
  (n.tag? = some .callSignature ∨ n.tag? = some .constructorSignature) ∧ n.type?.isSome = true

/-- A node lists overloads and nothing else. -/
structure Node.Overloads (n : Node) (entries : List Json) : Prop where
  listed : n.signatureList? = some entries
  nonempty : entries ≠ []
  read {v : Json} : v ∈ entries → ∃ s, Node.ofJson? v = some s ∧ s.IsOverload
  sole : n.has "children" = false ∧ n.has "indexSignature" = false

theorem Json.exists_overload {v : Json} (h : v.isSignature = true) : ∃ s, Node.ofJson? v = some s ∧ s.IsOverload := by
  rw [isSignature] at h
  cases hs : Node.ofJson? v with
  | none =>
    rw [hs] at h
    cases h
  | some s =>
    rw [hs, Option.any_some, Node.fitsSignature, Bool.and_eq_true, Bool.and_eq_true] at h
    obtain ⟨⟨htag, _⟩, htype⟩ := h
    refine ⟨s, rfl, ?_, htype⟩
    cases ht : s.tag? with
    | none => simp [ht] at htag
    | some tag => cases tag <;> simp [ht, Tag.isSignature] at htag ⊢

namespace Node

variable {n : Node} {position : Position} {kind : DeclKind} {entries : List Json}

theorem overloads_of_soleSignatures? (h : n.soleSignatures? = some entries) : n.Overloads entries := by
  obtain ⟨hlisted, hsole⟩ := Option.filter_eq_some_iff.mp h
  simp only [Bool.and_eq_true, Bool.not_eq_true', List.isEmpty_eq_false_iff, List.all_eq_true] at hsole
  obtain ⟨⟨⟨hne, hall⟩, hchildren⟩, hindex⟩ := hsole
  exact ⟨hlisted, hne, fun hv => Json.exists_overload (hall _ hv), hchildren, hindex⟩

theorem Overloads.signatureNodes (h : n.Overloads entries) : n.signatureNodes = entries.filterMap ofJson? := by
  have hlisted : n.value.listAt? "signatures" = some entries := h.listed
  rw [Node.signatureNodes, signatures, Json.listAt, hlisted, Option.getD_some]

/-- What is recognized as callable lists overloads. -/
theorem exists_overloads (h : n.recognize? position = some kind) (hkind : kind.isFunction = true) :
    ∃ entries, n.soleSignatures? = some entries ∧ n.Overloads entries := by
  have hshape := hasShape_of_recognize? h
  have hsole : n.soleSignatures?.isSome = true := by
    cases kind with
    | function | method | constructor => exact hshape
    | _ => cases hkind
  obtain ⟨entries, hentries⟩ := Option.isSome_iff_exists.mp hsole
  exact ⟨entries, hentries, overloads_of_soleSignatures? hentries⟩

/-- A literal is a constructor if all its signatures construct. -/
theorem kind_eq_constructor_iff (htag : n.tag? = some .typeLiteral) (h : n.recognize? position = some kind)
    (hentries : n.soleSignatures? = some entries) : kind = .constructor ↔ DeclKind.construct entries = true := by
  rw [recognize?_literal htag, hentries] at h
  obtain rfl : DeclKind.ofSignatures entries position = kind := Option.some.inj h
  unfold DeclKind.ofSignatures
  split
  · next hall => exact iff_of_true rfl hall
  · next hall => exact iff_of_false (by split <;> nofun) hall

end Node

namespace Graph

variable {root : Json} {o : Options} {g : Graph}

/-- Callables keep the overloads of their nodes. -/
structure KeepsOverloads (g : Graph) (root : Json) (o : Options) : Prop where
  /-- The signatures of a callable are those that its node lists. -/
  signatures {m : EntityId} {c : Callable} : g.get? m = some (.callable c) →
    ∃ (n : Node) (entries : List Json) (depth : Nat), n.StandsIn root ∧ n.id = c.id ∧ n.Overloads entries ∧
      List.Forall₂ (fun v s => ∃ signature, Node.ofJson? v = some signature ∧ g.view.SignatureOf depth signature s)
        entries c.signatures ∧
      (n.tag? = some .typeLiteral →
        (c.kind = .constructor ↔ ∀ v ∈ entries, v.stringAt? "kindString" = some Tag.constructorSignature.text))
  /-- The graph is what a run leaves. -/
  resolved : ∃ t, g.EndsIn root o t ∧ Performs root o (root.script o) (.start root) t
  /-- Whenever a callable is to be built in a run, its node lists overloads and has no body. -/
  built {w : Build.Work} {depth : Nat} {p : Waiting} : Steps root o ⟨(root.script o).map .act, .start root⟩ w →
    .fill depth p ∈ w.agenda → p.kind.isFunction = true → ∃ entries, p.node.Overloads entries

/-- No overload is lost. -/
theorem keepsOverloads_of_ofJson (h : ofJson root o = .ok g) : g.KeepsOverloads root o := by
  obtain ⟨t, ht, _, hrun⟩ := exists_run h
  constructor
  case signatures =>
    intro m c hm
    obtain ⟨depth, p, hp, hid, hshow, _⟩ := ht.built hrun hm rfl
    obtain ⟨hkind, signatures, _, hsignatures, _, hc⟩ := hshow.callable
    have hrecognized := (Node.recognize?_of_entityKind? hp.2).1
    have hfunction : p.kind.isFunction = true := hkind ▸ CallableKind.isFunction_declKind _
    obtain ⟨entries, hentries, hoverloads⟩ := Node.exists_overloads hrecognized hfunction
    refine ⟨p.node, entries, depth, hp.1, hid, hoverloads, ?_, fun htag => ?_⟩
    · have hlist : c.signatures = signatures := congrArg Callable.signatures hc
      rw [hoverloads.signatureNodes, ← hlist] at hsignatures
      exact forall₂_of_filterMap (fun v hv => (hoverloads.read hv).imp fun _ hs => hs.1) hsignatures
    · have hconstructor := Node.kind_eq_constructor_iff htag hrecognized hentries
      rw [hkind, CallableKind.declKind_eq_constructor_iff] at hconstructor
      simpa [DeclKind.construct] using hconstructor
  case resolved => exact ⟨t, ht, hrun⟩
  case built =>
    intro w depth p hw hp hkind
    have hrecognized := ((Steps.traced hw (Build.Work.start_traced root o _)).fills hp).1
    obtain ⟨entries, _, hoverloads⟩ := Node.exists_overloads (Node.recognize?_of_entityKind? hrecognized.2).1 hkind
    exact ⟨entries, hoverloads⟩

/-- An alias of a literal with two signatures that construct, and a function with two signatures. -/
def overloaded : Json :=
  .obj [("children", .arr [nodeWith 1 .externalModule "calls" [("children", .arr [
    nodeWith 2 .typeAlias "Maker" [("type", .obj [("type", .str "reflection"),
      ("declaration", nodeWith 3 .typeLiteral "__type" [("signatures", .arr [
        nodeWith 4 .constructorSignature "__type" [("type", voidType)],
        nodeWith 5 .constructorSignature "__type" [("type", voidType), ("parameters", .arr [])]])])])],
    nodeWith 6 .function "call" [("signatures", .arr [
      nodeWith 7 .callSignature "call" [("type", voidType)], nodeWith 8 .callSignature "call" [("type", voidType)]])]
    ])]])]

/-- The kind and the number of signatures of the callable that an id stands for. -/
def overloadsOf? (g : Graph) (d : DeclId) : Option (CallableKind × Nat) :=
  (((g.entityOf? d).bind g.get?).bind Entity.callable?).map fun c => (c.kind, c.signatures.length)

theorem keepsOverloads_overloaded : ∃ g, ofJson overloaded {} = .ok g ∧ g.KeepsOverloads overloaded {} ∧
    g.overloadsOf? ⟨3⟩ = some (.constructor, 2) ∧ g.overloadsOf? ⟨6⟩ = some (.function, 2) := by
  have hrun : (ofJson overloaded {}).toOption.map (fun g => (g.overloadsOf? ⟨3⟩, g.overloadsOf? ⟨6⟩)) =
      some (some (.constructor, 2), some (.function, 2)) := by
    decide +kernel
  obtain ⟨g, hg⟩ := exists_ofJson (o := {}) (rfl : rootFault? overloaded = none)
  rw [hg] at hrun
  have hpair := Option.some.inj hrun
  exact ⟨g, hg, keepsOverloads_of_ofJson hg, congrArg Prod.fst hpair, congrArg Prod.snd hpair⟩

end Graph

/-! ## Accessors -/

/-- What stands in the place of the getter and of the setter of a node has the base shape of a node. -/
def Node.SignaturesRead (n : Node) : Prop :=
  (∀ v, n.getSignature? = some v → ∃ s, Node.ofJson? v = some s) ∧
    ∀ v, n.setSignature? = some v → ∃ s, Node.ofJson? v = some s

/-- A property can be read and written as its node has something in the place of a getter and of a setter. -/
structure Node.Carries (n : Node) (p : Property) : Prop where
  readable : p.readable = true ↔ n.getSignature?.isSome = true
  writeable : p.writeable = true ↔ n.setSignature?.isSome = true
  either : p.readable = true ∨ p.writeable = true

/-- An accessor is shown by a node of an accessor. -/
theorem View.Shows.accessor {w : View} {depth : Nat} {n : Node} {kind : DeclKind} {p : Property}
    (h : w.Shows depth n kind (.property p)) (hp : p.isAccessor = true) :
    kind = .accessor ∧ p.readable = n.getter?.isSome ∧ p.writeable = n.setter?.isSome := by
  have hkind : some (if p.isAccessor then DeclKind.accessor else .property) = some kind := h.stamp.2
  rw [hp, if_pos rfl] at hkind
  obtain rfl := Option.some.inj hkind
  obtain ⟨_, _, heq⟩ := h
  cases heq
  exact ⟨rfl, rfl, rfl⟩

namespace Node

variable {n : Node}

/-- What is there is read. -/
theorem isSome_bind_ofJson? {v? : Option Json} (h : ∀ v, v? = some v → ∃ s, ofJson? v = some s) :
    (v?.bind ofJson?).isSome = v?.isSome := by
  cases v? with
  | none => rfl
  | some v =>
    obtain ⟨s, hs⟩ := h v rfl
    rw [Option.bind_some, hs]
    rfl

theorem carries_of_signaturesRead (h : n.SignaturesRead) (hshape : n.hasShape .accessor = true) {p : Property}
    (hreadable : p.readable = n.getter?.isSome) (hwriteable : p.writeable = n.setter?.isSome) : n.Carries p := by
  have hget : n.getter?.isSome = n.getSignature?.isSome := isSome_bind_ofJson? h.1
  have hset : n.setter?.isSome = n.setSignature?.isSome := isSome_bind_ofJson? h.2
  rw [hget] at hreadable
  rw [hset] at hwriteable
  refine ⟨by rw [hreadable], by rw [hwriteable], ?_⟩
  rwa [hreadable, hwriteable, ← Bool.or_eq_true]

end Node

namespace Graph

variable {root : Json} {o : Options} {g : Graph}

/-- Accessors can be read and written as their nodes have something in the place of a getter and of a setter. -/
def AccessorsAgree (g : Graph) (root : Json) : Prop :=
  ∀ (m : EntityId) (p : Property), g.get? m = some (.property p) → p.isAccessor = true →
    ∃ n : Node, n.StandsIn root ∧ n.id = p.id ∧ n.Carries p

/-- Accessors can be read and written as far as their getters and setters are read. -/
def AccessorsRead (g : Graph) (root : Json) : Prop :=
  ∀ (m : EntityId) (p : Property), g.get? m = some (.property p) → p.isAccessor = true →
    ∃ n : Node, n.StandsIn root ∧ n.id = p.id ∧ n.tag? = some .accessor ∧
      (n.getSignature?.isSome = true ∨ n.setSignature?.isSome = true) ∧
      (p.readable = true ↔ ∃ v s, n.getSignature? = some v ∧ Node.ofJson? v = some s) ∧
      (p.writeable = true ↔ ∃ v s, n.setSignature? = some v ∧ Node.ofJson? v = some s) ∧
      (n.SignaturesRead → n.Carries p)

/-- Classification and construction agree on the signatures of an accessor that have the base shape. -/
theorem accessorsRead_of_ofJson (h : ofJson root o = .ok g) : g.AccessorsRead root := by
  obtain ⟨t, ht⟩ := endsIn_of_ofJson h
  intro m p hm haccessor
  obtain ⟨n, position, kind, _, hn, hid, hk, _, hshow, _⟩ := ht.declared hm rfl
  obtain ⟨rfl, hreadable, hwriteable⟩ := hshow.accessor haccessor
  have hrecognized := (Node.recognize?_of_entityKind? hk).1
  have hshape := Node.hasShape_of_recognize? hrecognized
  refine ⟨n, hn, hid, ?_, ?_, ?_, ?_, fun hread => Node.carries_of_signaturesRead hread hshape hreadable hwriteable⟩
  · obtain ⟨tag, htag, hkind⟩ := Node.exists_tag_of_kind hrecognized rfl rfl
    cases tag with
    | accessor => exact htag
    | _ => cases hkind
  · rwa [← Bool.or_eq_true]
  · rw [hreadable, Option.isSome_iff_exists]
    simp only [Node.getter?, Option.bind_eq_some_iff]
    exact ⟨fun ⟨s, v, hv, hs⟩ => ⟨v, s, hv, hs⟩, fun ⟨v, s, hv, hs⟩ => ⟨s, v, hv, hs⟩⟩
  · rw [hwriteable, Option.isSome_iff_exists]
    simp only [Node.setter?, Option.bind_eq_some_iff]
    exact ⟨fun ⟨s, v, hv, hs⟩ => ⟨v, s, hv, hs⟩, fun ⟨v, s, hv, hs⟩ => ⟨s, v, hv, hs⟩⟩

/-- A class in a module, with an accessor that has these fields. -/
def withAccessor (fields : List (String × Json)) : Json :=
  .obj [("children", .arr [nodeWith 1 .externalModule "shapes" [("children", .arr [
    nodeWith 2 .classDecl "Square" [("children", .arr [nodeWith 3 .accessor "side" fields])]])]])]

/-- What is read of the entity of the accessor. -/
def accessorData? (g : Graph) : Option (DeclId × Bool × Bool × Bool) :=
  ((g.get? ⟨9⟩).bind Entity.property?).map fun p => (p.id, p.isAccessor, p.readable, p.writeable)

theorem exists_accessor (hroot : rootFault? root = none) {id : DeclId} {isAccessor readable writeable : Bool}
    (hrun : (ofJson root {}).toOption.map accessorData? = some (some (id, isAccessor, readable, writeable))) :
    ∃ g p, ofJson root {} = .ok g ∧ g.get? ⟨9⟩ = some (.property p) ∧ p.id = id ∧ p.isAccessor = isAccessor ∧
      p.readable = readable ∧ p.writeable = writeable := by
  obtain ⟨g, hg⟩ := exists_ofJson (o := {}) hroot
  rw [hg] at hrun
  obtain ⟨p, hp, hdata⟩ := Option.map_eq_some_iff.mp (Option.some.inj hrun)
  obtain ⟨e, he, hproperty⟩ := Option.bind_eq_some_iff.mp hp
  cases e <;> cases hproperty
  simp only [Prod.mk.injEq] at hdata
  exact ⟨g, p, hg, he, hdata⟩

/-- The getter of an accessor, in an array, and something else in the place of the setter. -/
def getterOnly : Json :=
  withAccessor [("getSignature", .arr [nodeWith 4 .getSignature "__get" [("type", voidType)]]), ("setSignature", .null)]

theorem accessorsRead_getterOnly : ∃ g p, ofJson getterOnly {} = .ok g ∧ g.AccessorsRead getterOnly ∧
    g.get? ⟨9⟩ = some (.property p) ∧ p.isAccessor = true ∧ p.readable = true ∧ p.writeable = false := by
  have hrun : (ofJson getterOnly {}).toOption.map accessorData? = some (some (⟨3⟩, true, true, false)) := by
    decide +kernel
  obtain ⟨g, p, hg, hp, _, hflags⟩ := exists_accessor rfl hrun
  exact ⟨g, p, hg, accessorsRead_of_ofJson hg, hp, hflags⟩

/-- An accessor with an object without the base shape of a node in the place of its getter. -/
def unshaped : Json :=
  withAccessor [("getSignature", .arr [.obj [
    ("id", .ofNat 4), ("name", .str "__get"), ("kindString", .str Tag.getSignature.text)]])]

/-- The object makes the node an accessor, but does not make it readable. -/
theorem not_accessorsAgree_unshaped : ∃ g, ofJson unshaped {} = .ok g ∧ ¬ g.AccessorsAgree unshaped := by
  have hrun : (ofJson unshaped {}).toOption.map accessorData? = some (some (⟨3⟩, true, false, false)) := by
    decide +kernel
  have hgetter : ∀ n ∈ unshaped.nodes, n.id = ⟨3⟩ → n.getSignature?.isSome = true := by decide +kernel
  obtain ⟨g, p, hg, hp, hid, haccessor, hreadable, _⟩ := exists_accessor rfl hrun
  refine ⟨g, hg, fun hagree => ?_⟩
  obtain ⟨n, hn, hnid, hcarries⟩ := hagree _ p hp haccessor
  have hget : n.getSignature?.isSome = true := hgetter n (Json.mem_nodes_iff.mpr hn) (hnid.trans hid)
  rw [hcarries.readable.mpr hget] at hreadable
  cases hreadable

end Graph

end EntityGraph

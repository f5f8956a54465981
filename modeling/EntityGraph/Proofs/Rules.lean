import EntityGraph.Proofs.Signatures

/-!
# The rules and their order

The first rule with an answer decides what a node is. But of the rules only the two for literals know a common tag
(`Tag.rules`, `Rule.mem_rules`), so no two others answer for one node, and the rules can be asked in any order in which
a literal is tried as a callable before it is taken to have a body (`Node.recognizeBy?_of_perm`).

So a node is recognized by its tag and its shape (`Node.rulesAgree`). Where it is reached matters for literals alone,
and there it decides only whether a callable is a method and whether a body is one of a value.
-/

namespace EntityGraph

/-! ## Which rules know a tag -/

/-- The rules that know a tag. -/
def Tag.rules : Tag → List Rule
  | externalModule | namespaceModule | classDecl | interfaceDecl | objectLiteral | enumeration | accessor
  | indexSignature => [Rule.tagged]
  | typeLiteral => [Rule.callableLiteral, Rule.bodyLiteral]
  | function | method | constructor => [Rule.taggedCallable]
  | typeAlias | varDecl | property | event => [Rule.slot]
  | enumerationMember | callSignature | constructorSignature | parameter | typeParameter | getSignature
  | setSignature => []

/-- The rules for literals, in order of precedence. -/
def Rule.literal : List Rule := [Rule.callableLiteral, Rule.bodyLiteral]

namespace Rule

variable {n : Node} {p q : Position} {rule rule' : Rule} {rules : List Rule} {kind : DeclKind}

/-- A rule that answers for a node knows its tag. -/
theorem mem_rules (hrule : rule ∈ all) (h : (rule n p).isSome = true) :
    ∃ tag, n.tag? = some tag ∧ rule ∈ tag.rules := by
  simp only [all, List.mem_cons, List.not_mem_nil, or_false] at hrule
  rcases hrule with rfl | rfl | rfl | rfl | rfl
  · cases htag : n.tag? with
    | none => simp [tagged, htag] at h
    | some tag => cases tag <;> simp [tagged, htag, Tag.rules] at h ⊢
  · refine ⟨.typeLiteral, ?_, List.mem_cons_self⟩
    by_contra htag
    simp [callableLiteral, htag] at h
  · refine ⟨.typeLiteral, ?_, List.mem_cons_of_mem _ List.mem_cons_self⟩
    by_contra htag
    simp [bodyLiteral, htag] at h
  · cases htag : n.tag? with
    | none => simp [taggedCallable, htag] at h
    | some tag => cases tag <;> simp [taggedCallable, htag, Tag.rules] at h ⊢
  · cases htag : n.tag? with
    | none => simp [slot, htag] at h
    | some tag => cases tag <;> simp [slot, htag, Tag.isSlot, Tag.rules] at h ⊢

/-- Two rules that answer for one node are the same or those for literals. -/
theorem eq_or_literal (hrule : rule ∈ all) (hrule' : rule' ∈ all) (h : (rule n p).isSome = true)
    (h' : (rule' n q).isSome = true) : rule = rule' ∨ rule ∈ literal ∧ rule' ∈ literal := by
  obtain ⟨tag, htag, hmem⟩ := mem_rules hrule h
  obtain ⟨tag', htag', hmem'⟩ := mem_rules hrule' h'
  obtain rfl : tag = tag' := Option.some.inj (htag.symm.trans htag')
  cases tag with
  | typeLiteral => exact .inr ⟨hmem, hmem'⟩
  | externalModule | namespaceModule | classDecl | interfaceDecl | objectLiteral | enumeration | accessor
  | indexSignature | function | method | constructor | typeAlias | varDecl | property | event =>
    exact .inl ((List.mem_singleton.mp hmem).trans (List.mem_singleton.mp hmem').symm)
  | enumerationMember | callSignature | constructorSignature | parameter | typeParameter | getSignature
  | setSignature => cases hmem

/-- Values for which no two rules answer the same. -/
def samples : List Json :=
  let signatures := ("signatures", Json.arr [Graph.nodeWith 2 .callSignature "call" [("type", Graph.voidType)]])
  [Graph.nodeWith 1 .classDecl "C" [], Graph.nodeWith 1 .typeLiteral "__type" [signatures],
    Graph.nodeWith 1 .function "f" [signatures], Graph.nodeWith 1 .typeAlias "A" [("type", Graph.voidType)]]

/-- The rules are different ones. -/
theorem nodup_all : all.Nodup :=
  List.Nodup.of_map (fun rule => samples.map fun v => (Node.ofJson? v).bind fun n => rule n .reference)
    (by decide +kernel)

end Rule

/-! ## The order of the rules -/

/-- Where all that answer give one answer, this answer is found. -/
theorem findSome?_eq_some_of_mem {α β : Type} {f : α → Option β} {l : List α} {a : α} {x : β} (ha : a ∈ l)
    (hx : f a = some x) (hsame : ∀ b ∈ l, (f b).isSome = true → f b = some x) : l.findSome? f = some x := by
  have hsome : (l.findSome? f).isSome = true := List.findSome?_isSome_iff.mpr ⟨a, ha, by rw [hx, Option.isSome_some]⟩
  obtain ⟨y, hy⟩ := Option.isSome_iff_exists.mp hsome
  obtain ⟨b, hb, hby⟩ := List.exists_of_findSome?_eq_some hy
  rw [hy, ← hby]
  exact hsame b hb (by rw [hby, Option.isSome_some])

namespace Node

variable {n : Node} {position : Position} {rules : List Rule}

theorem isSome_of_eq_some {rule : Rule} {kind : DeclKind} (h : rule n position = some kind) :
    (rule n position).isSome = true := by
  rw [h, Option.isSome_some]

/-- A literal that is tried as a callable first is a callable if it can be one. -/
theorem recognizeBy?_of_callableLiteral (hperm : rules.Perm Rule.all) (horder : Rule.literal.Sublist rules)
    {kind : DeclKind} (h : Rule.callableLiteral n position = some kind) :
    n.recognizeBy? rules position = some kind := by
  obtain ⟨before, after, rfl, hcallable, hbody⟩ := List.cons_sublist_iff.mp horder
  have hnodup := hperm.nodup_iff.mpr Rule.nodup_all
  rw [recognizeBy?, List.findSome?_append, findSome?_eq_some_of_mem hcallable h, Option.some_or]
  -- No other rule stands before and answers: it would be the one for bodies, which comes later.
  intro rule hrule hsome
  have hall : rule ∈ Rule.all := hperm.mem_iff.mp (List.mem_append_left _ hrule)
  rcases Rule.eq_or_literal hall (by simp [Rule.all]) hsome (isSome_of_eq_some h) with rfl | ⟨hliteral, _⟩
  · exact h
  · rcases List.mem_pair.mp hliteral with rfl | rfl
    · exact h
    · exact absurd rfl ((List.nodup_append.mp hnodup).2.2 _ hrule _ (List.singleton_sublist.mp hbody))

/-- The rules give the same kinds in every order in which a literal is tried as a callable first. -/
theorem recognizeBy?_of_perm (hperm : rules.Perm Rule.all) (horder : Rule.literal.Sublist rules) :
    n.recognizeBy? rules position = n.recognize? position := by
  cases hcallable : Rule.callableLiteral n position with
  | some kind =>
    have hall : Rule.literal.Sublist Rule.all :=
      .cons _ (.cons_cons _ (.cons_cons _ (List.nil_sublist _)))
    rw [recognizeBy?_of_callableLiteral hperm horder hcallable, recognize?,
      recognizeBy?_of_callableLiteral (List.Perm.refl _) hall hcallable]
  | none =>
    -- Of the two rules for literals only one is left, so all that answer are one rule.
    have hsole {rule rule' : Rule} (hrule : rule ∈ Rule.all) (hrule' : rule' ∈ Rule.all)
        (h : (rule n position).isSome = true) (h' : (rule' n position).isSome = true) : rule = rule' := by
      rcases Rule.eq_or_literal hrule hrule' h h' with heq | ⟨hliteral, hliteral'⟩
      · exact heq
      · rcases List.mem_pair.mp hliteral with rfl | rfl
        · simp [hcallable] at h
        · rcases List.mem_pair.mp hliteral' with rfl | rfl
          · simp [hcallable] at h'
          · rfl
    cases hkind : n.recognize? position with
    | some kind =>
      obtain ⟨rule, hrule, h⟩ := List.exists_of_findSome?_eq_some hkind
      refine findSome?_eq_some_of_mem (hperm.mem_iff.mpr hrule) h fun rule' hrule' h' => ?_
      rw [hsole (hperm.mem_iff.mp hrule') hrule h' (isSome_of_eq_some h), h]
    | none =>
      have hnone := List.findSome?_eq_none_iff.mp hkind
      exact List.findSome?_eq_none_iff.mpr fun rule hrule => hnone rule (hperm.mem_iff.mp hrule)

end Node

/-! ## Literals -/

/-- A key holds an array, if there is the key. -/
def Json.ArrayIfAny (key : String) (v : Json) : Prop := ∀ held, v.get? key = some held → ∃ items, held = .arr items

/-- A node lists overloads whose parameters are arrays, and nothing else. -/
structure Node.ListsSignatures (n : Node) (entries : List Json) : Prop extends n.Overloads entries where
  parameters {v : Json} : v ∈ entries → v.ArrayIfAny "parameters"

theorem Json.arrayIfAny_iff {key : String} {v : Json} :
    v.ArrayIfAny key ↔ (!v.has key || (v.listAt? key).isSome) = true := by
  rw [ArrayIfAny, has, listAt?]
  cases v.get? key with
  | none => simp
  | some held => cases held <;> simp [array?]

namespace Node

variable {n : Node} {position : Position} {entries : List Json}

theorem fitsSignature_iff {v : Json} {s : Node} (h : ofJson? v = some s) :
    s.fitsSignature = true ↔ s.IsOverload ∧ v.ArrayIfAny "parameters" := by
  obtain rfl := value_of_ofJson? h
  have htag : s.tag?.any Tag.isSignature = true ↔
      s.tag? = some .callSignature ∨ s.tag? = some .constructorSignature := by
    cases s.tag? with
    | none => simp
    | some tag => cases tag <;> simp [Tag.isSignature]
  rw [fitsSignature, Bool.and_eq_true, Bool.and_eq_true, htag, Json.arrayIfAny_iff, IsOverload, and_assoc,
    and_comm (a := _ = true), ← and_assoc]
  rfl

/-- The rules for callables see exactly the lists of well-formed signatures that stand alone. -/
theorem soleSignatures?_eq_some_iff : n.soleSignatures? = some entries ↔ n.ListsSignatures entries := by
  constructor
  · intro h
    have hoverloads := overloads_of_soleSignatures? h
    refine ⟨hoverloads, fun {v} hv => ?_⟩
    obtain ⟨_, hsole⟩ := Option.filter_eq_some_iff.mp h
    simp only [Bool.and_eq_true, List.all_eq_true] at hsole
    obtain ⟨s, hs, _⟩ := hoverloads.read hv
    have hfits := hsole.1.1.2 v hv
    rw [Json.isSignature, hs, Option.any_some] at hfits
    exact ((fitsSignature_iff hs).mp hfits).2
  · intro h
    refine Option.filter_eq_some_iff.mpr ⟨h.listed, ?_⟩
    have hall : entries.all Json.isSignature = true := by
      rw [List.all_eq_true]
      intro v hv
      obtain ⟨s, hs, hoverload⟩ := h.read hv
      rw [Json.isSignature, hs, Option.any_some]
      exact (fitsSignature_iff hs).mpr ⟨hoverload, h.parameters hv⟩
    simp [h.nonempty, hall, h.sole.1, h.sole.2]

/-- The kinds of a literal, by its shape and the place from which it is reached. -/
structure LiteralRecognized (n : Node) (position : Position) : Prop where
  /-- A literal is callable if it lists signatures and nothing else: a constructor if all of them construct, and else a
  method among the members of a body and a function elsewhere. -/
  constructor : n.recognize? position = some .constructor ↔ ∃ entries, n.ListsSignatures entries ∧
    ∀ v ∈ entries, v.stringAt? "kindString" = some Tag.constructorSignature.text
  method : n.recognize? position = some .method ↔ (position = .interfaceBody ∨ position = .objectLiteralBody) ∧
    ∃ entries, n.ListsSignatures entries ∧
      ¬ ∀ v ∈ entries, v.stringAt? "kindString" = some Tag.constructorSignature.text
  function : n.recognize? position = some .function ↔ ¬ (position = .interfaceBody ∨ position = .objectLiteralBody) ∧
    ∃ entries, n.ListsSignatures entries ∧
      ¬ ∀ v ∈ entries, v.stringAt? "kindString" = some Tag.constructorSignature.text
  /-- Any other literal has a body if its children are an array or absent: one of a value in an initializer and in the
  body of a value, and one of a type elsewhere. -/
  objectLiteral : n.recognize? position = some .objectLiteral ↔
    (position = .initializer ∨ position = .objectLiteralBody) ∧ (¬ ∃ entries, n.ListsSignatures entries) ∧
      n.value.ArrayIfAny "children"
  interfaceLiteral : n.recognize? position = some .interfaceLiteral ↔
    ¬ (position = .initializer ∨ position = .objectLiteralBody) ∧ (¬ ∃ entries, n.ListsSignatures entries) ∧
      n.value.ArrayIfAny "children"
  /-- The rest is not recognized. -/
  unrecognized : n.recognize? position = none ↔
    (¬ ∃ entries, n.ListsSignatures entries) ∧ ¬ n.value.ArrayIfAny "children"

theorem literalRecognized (h : n.tag? = some .typeLiteral) (position : Position) : n.LiteralRecognized position := by
  have hchildren : n.value.ArrayIfAny "children" ↔ n.childrenFit = true := Json.arrayIfAny_iff
  have hconstruct (entries : List Json) :
      (∀ v ∈ entries, v.stringAt? "kindString" = some Tag.constructorSignature.text) ↔
        DeclKind.construct entries = true := by
    simp [DeclKind.construct]
  have hrecognize := recognize?_literal h position
  constructor <;> simp only [hrecognize, ← soleSignatures?_eq_some_iff, hchildren, hconstruct]
  all_goals
    cases n.soleSignatures? with
    | some entries =>
      cases hall : DeclKind.construct entries <;> cases position <;>
        simp [DeclKind.ofSignatures, hall, Position.isMember]
    | none => cases n.childrenFit <;> cases position <;> simp [DeclKind.ofBody, Position.isInitializer]

end Node

/-! ## What decides -/

/-- A node is recognized by its tag and its shape, in whatever order the rules are asked. -/
structure Node.RulesAgree (n : Node) : Prop where
  anyOrder {rules : List Rule} (position : Position) : rules.Perm Rule.all → Rule.literal.Sublist rules →
    n.recognizeBy? rules position = n.recognize? position
  /-- At most one rule answers beside those for literals, and none beside it. -/
  sole {rule rule' : Rule} {p q : Position} : rule ∈ Rule.all → rule' ∈ Rule.all → (rule n p).isSome = true →
    (rule' n q).isSome = true → rule = rule' ∨ rule ∈ Rule.literal ∧ rule' ∈ Rule.literal
  /-- Whether a node is recognized does not depend on the place. -/
  anywhere (p q : Position) : (n.recognize? p).isSome = (n.recognize? q).isSome
  samePlace (p q : Position) : n.tag? ≠ some .typeLiteral → n.recognize? p = n.recognize? q
  literal (position : Position) : n.tag? = some .typeLiteral → n.LiteralRecognized position

/-- The rules agree on every node. -/
theorem Node.rulesAgree (n : Node) : n.RulesAgree where
  anyOrder _ hperm horder := recognizeBy?_of_perm hperm horder
  sole hrule hrule' h h' := Rule.eq_or_literal hrule hrule' h h'
  anywhere p q := by
    rw [Bool.eq_iff_iff, Option.isSome_iff_ne_none, Option.isSome_iff_ne_none, ne_eq, ne_eq, recognize?_eq_none_iff p q]
  samePlace p q h := recognize?_eq_of_tag h p q
  literal position h := literalRecognized h position

/-- A callable literal is taken to have a body where it is not tried as a callable first. -/
example : (Rule.samples.filterMap Node.ofJson?).map (fun n => n.recognizeBy? Rule.literal.reverse .reference) =
    [none, some .interfaceLiteral, none, none] := by decide +kernel

end EntityGraph

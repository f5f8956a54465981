import EntityGraph.Proofs.Kinds

/-!
# What is recognized

The rules by which nodes are recognized, told as one equation for each sort of tag. A tag that is not the one of a
literal stands for at most one kind (`Tag.kind?`), and its node is of this kind if it has the shape of the kind
(`Node.recognize?_of_tag`); a literal is callable or has a body (`Node.recognize?_literal`). Either way a node of a kind
has the shape of the kind (`Node.hasShape_of_recognize?`) and a tag that can stand for it
(`Node.exists_tag_of_recognize?`).
-/

namespace EntityGraph

/-- The kind for which a tag stands. The tag of a literal stands for none alone: its shape and place decide. -/
def Tag.kind? : Tag → Option DeclKind
  | externalModule => some .moduleDecl
  | namespaceModule => some .namespaceDecl
  | classDecl => some .classDecl
  | interfaceDecl => some .interfaceDecl
  | objectLiteral => some .objectLiteral
  | enumeration => some .enumDecl
  | accessor => some .accessor
  | indexSignature => some .indexSignature
  | function => some .function
  | method => some .method
  | constructor => some .constructor
  | typeAlias => some .typeAlias
  | varDecl | property | event => some .property
  | enumerationMember | callSignature | constructorSignature | parameter | typeLiteral | typeParameter | getSignature
  | setSignature => none

/-- Whether all signatures in a list construct. -/
def DeclKind.construct (signatures : List Json) : Bool :=
  signatures.all fun s => s.stringAt? "kindString" = some Tag.constructorSignature.text

/-- The kind of a literal that has these signatures and nothing else. -/
def DeclKind.ofSignatures (signatures : List Json) (position : Position) : DeclKind :=
  if construct signatures then .constructor else if position.isMember then .method else .function

/-- The kind of a literal with a body. -/
def DeclKind.ofBody (position : Position) : DeclKind :=
  if position.isInitializer then .objectLiteral else .interfaceLiteral

namespace Node

variable {n : Node} {tag : Tag} {position : Position} {kind : DeclKind}

/-- Whether a node has a type and neither children nor signatures. -/
def fitsSlot (n : Node) : Bool := n.type?.isSome && !n.has "children" && !n.has "signatures"

/-- Whether a node has the shape of a kind. -/
def hasShape (n : Node) : DeclKind → Bool
  | .moduleDecl | .namespaceDecl | .classDecl | .interfaceDecl | .interfaceLiteral | .objectLiteral => n.childrenFit
  | .enumDecl => n.childList?.isSome
  | .accessor => n.getSignature?.isSome || n.setSignature?.isSome
  | .indexSignature => n.fitsIndexSignature
  | .function | .method | .constructor => n.soleSignatures?.isSome
  | .typeAlias | .property => n.fitsSlot

/-! ## Tags -/

/-- A node without a tag is not recognized. -/
theorem recognize?_of_untagged (h : n.tag? = none) (position : Position) : n.recognize? position = none := by
  have hslot : Rule.slot n position = none := by
    rw [Rule.slot, h]
    split <;> rfl
  rw [recognize?_of_ne_typeLiteral (by simp [h]), Rule.tagged, Rule.taggedCallable, hslot, h]
  rfl

/-- A node with another tag than that of a literal is of the kind for which its tag stands, if it has the shape. -/
theorem recognize?_of_tag (h : n.tag? = some tag) (hne : tag ≠ .typeLiteral) (position : Position) :
    n.recognize? position = tag.kind?.filter n.hasShape := by
  rw [recognize?_of_ne_typeLiteral (by simpa [h] using hne), Rule.tagged, Rule.taggedCallable, Rule.slot, h]
  -- At most one of the three rules knows the tag.
  cases tag with
  | typeLiteral => exact absurd rfl hne
  | externalModule | namespaceModule | classDecl | interfaceDecl | objectLiteral =>
    cases hfit : n.childrenFit <;> simp [Tag.kind?, Tag.isSlot, Option.filter_some, hasShape, hfit]
  | enumeration =>
    cases hfit : n.childList? <;> simp [Tag.kind?, Tag.isSlot, Option.filter_some, hasShape, hfit]
  | accessor =>
    cases hfit : n.getSignature?.isSome || n.setSignature?.isSome <;>
      simp [Tag.kind?, Tag.isSlot, Option.filter_some, hasShape, hfit]
  | indexSignature =>
    cases hfit : n.fitsIndexSignature <;> simp [Tag.kind?, Tag.isSlot, Option.filter_some, hasShape, hfit]
  | function | method | constructor =>
    cases hfit : n.soleSignatures? <;> simp [Tag.kind?, Tag.isSlot, Option.filter_some, hasShape, hfit]
  | typeAlias | varDecl | property | event =>
    cases hfit : n.fitsSlot <;> rw [fitsSlot] at hfit <;>
      simp [Tag.kind?, Tag.isSlot, Option.filter_some, hasShape, fitsSlot, hfit]
  | enumerationMember | callSignature | constructorSignature | parameter | typeParameter | getSignature
  | setSignature => simp [Tag.kind?, Tag.isSlot]

/-- A literal with signatures and nothing else is callable; any other literal has a body. -/
theorem recognize?_literal (h : n.tag? = some .typeLiteral) (position : Position) :
    n.recognize? position =
      (n.soleSignatures?.map fun signatures => .ofSignatures signatures position).or
        (if n.childrenFit then some (.ofBody position) else none) := by
  rw [recognize?_of_typeLiteral h, Rule.callableLiteral, Rule.bodyLiteral, if_pos h]
  simp only [h, decide_true, Bool.true_and]
  rfl

/-! ## Kinds -/

/-- The kind of a literal is that of its signatures or of its body. -/
theorem kind_of_recognize?_literal (h : n.tag? = some .typeLiteral) (hk : n.recognize? position = some kind) :
    (∃ signatures, n.soleSignatures? = some signatures ∧ kind = .ofSignatures signatures position) ∨
      (n.childrenFit = true ∧ kind = .ofBody position) := by
  rw [recognize?_literal h] at hk
  cases hs : n.soleSignatures? with
  | some signatures =>
    rw [hs] at hk
    exact .inl ⟨signatures, rfl, (Option.some.inj hk).symm⟩
  | none =>
    rw [hs, Option.map_none, Option.none_or] at hk
    split at hk
    · next hfit => exact .inr ⟨hfit, (Option.some.inj hk).symm⟩
    · cases hk

/-- The tag of a node that is recognized stands for its kind, or is that of a literal, which is callable or has a
body. -/
theorem exists_tag_of_recognize? (h : n.recognize? position = some kind) :
    ∃ tag, n.tag? = some tag ∧
      ((tag ≠ .typeLiteral ∧ tag.kind? = some kind) ∨
        (tag = .typeLiteral ∧ (kind.isFunction = true ∨ kind.isLiteral = true))) := by
  cases htag : n.tag? with
  | none =>
    rw [recognize?_of_untagged htag] at h
    cases h
  | some tag =>
    refine ⟨tag, rfl, ?_⟩
    by_cases hliteral : tag = .typeLiteral
    · refine .inr ⟨hliteral, ?_⟩
      rcases kind_of_recognize?_literal (hliteral ▸ htag) h with ⟨signatures, _, rfl⟩ | ⟨_, rfl⟩
      · unfold DeclKind.ofSignatures
        split
        · exact .inl rfl
        · split <;> exact .inl rfl
      · unfold DeclKind.ofBody
        split <;> exact .inr rfl
    · rw [recognize?_of_tag htag hliteral] at h
      exact .inl ⟨hliteral, (Option.filter_eq_some_iff.mp h).1⟩

/-- The tag of a node stands for its kind, unless a literal can be of this kind. -/
theorem exists_tag_of_kind (h : n.recognize? position = some kind) (hfunction : kind.isFunction = false)
    (hliteral : kind.isLiteral = false) : ∃ tag, n.tag? = some tag ∧ tag.kind? = some kind := by
  obtain ⟨tag, htag, ⟨_, hkind⟩ | ⟨_, hcallable | hbody⟩⟩ := exists_tag_of_recognize? h
  · exact ⟨tag, htag, hkind⟩
  · rw [hfunction] at hcallable
    cases hcallable
  · rw [hliteral] at hbody
    cases hbody

/-- A node that is recognized has the shape of its kind. -/
theorem hasShape_of_recognize? (h : n.recognize? position = some kind) : n.hasShape kind = true := by
  obtain ⟨tag, htag, ⟨hne, _⟩ | ⟨rfl, _⟩⟩ := exists_tag_of_recognize? h
  · rw [recognize?_of_tag htag hne] at h
    exact (Option.filter_eq_some_iff.mp h).2
  · rcases kind_of_recognize?_literal htag h with ⟨signatures, hs, rfl⟩ | ⟨hfit, rfl⟩
    · have hsole : n.soleSignatures?.isSome = true := by rw [hs, Option.isSome_some]
      unfold DeclKind.ofSignatures
      split
      · exact hsole
      · split <;> exact hsole
    · unfold DeclKind.ofBody
      split <;> exact hfit

end Node

end EntityGraph

import Mathlib.Data.List.Forall2
import EntityGraph.Proofs.Indexing
import EntityGraph.Build.Declaration

/-!
# Fields that are not read

A document is looked at by a fixed set of keys (`Json.readKeys`). `Json.Padded added v v'` says that `v'` is `v` with
fields added to its objects, at any depth, under other keys; `added` are the values that these hold. Then every look at
`v'` finds what the look at `v` finds, up to added fields (`Json.Alike`): scalars, flags and comments are the same,
lists have alike items, a node stays the node that it is (`Node.ofJson?_alike`) and is recognized alike
(`Node.Alike.recognize?`), and a type expression has the same form (`TypeExpr.ofJson_alike`).

The nodes of `v'` are those of `v`, with those of the added values between them (`Json.Padded.nodes`).
-/

/-! ## Optional values and lists -/

namespace Option.Rel

variable {α β γ δ : Type} {r : α → β → Prop} {q : γ → δ → Prop} {x : Option α} {y : Option β}

theorem none_or_some (h : Option.Rel r x y) :
    x = Option.none ∧ y = Option.none ∨ ∃ a b, x = Option.some a ∧ y = Option.some b ∧ r a b := by
  cases h with
  | none => exact .inl ⟨rfl, rfl⟩
  | some hab => exact .inr ⟨_, _, rfl, rfl, hab⟩

theorem isSome_eq (h : Option.Rel r x y) : y.isSome = x.isSome := by
  cases h <;> rfl

theorem bind_eq (h : Option.Rel r x y) {f : α → Option γ} {g : β → Option γ} (hfg : ∀ a b, r a b → g b = f a) :
    y.bind g = x.bind f := by
  cases h with
  | none => rfl
  | some hab => exact hfg _ _ hab

theorem map_eq (h : Option.Rel r x y) {f : α → γ} {g : β → γ} (hfg : ∀ a b, r a b → g b = f a) :
    y.map g = x.map f := by
  cases h with
  | none => rfl
  | some hab => rw [Option.map_some, Option.map_some, hfg _ _ hab]

theorem any_eq (h : Option.Rel r x y) {f : α → Bool} {g : β → Bool} (hfg : ∀ a b, r a b → g b = f a) :
    y.any g = x.any f := by
  cases h with
  | none => rfl
  | some hab => exact hfg _ _ hab

theorem map (h : Option.Rel r x y) {f : α → γ} {g : β → δ} (hfg : ∀ a b, r a b → q (f a) (g b)) :
    Option.Rel q (x.map f) (y.map g) := by
  cases h with
  | none => exact .none
  | some hab => exact .some (hfg _ _ hab)

theorem bind (h : Option.Rel r x y) {f : α → Option γ} {g : β → Option δ}
    (hfg : ∀ a b, r a b → Option.Rel q (f a) (g b)) : Option.Rel q (x.bind f) (y.bind g) := by
  cases h with
  | none => exact .none
  | some hab => exact hfg _ _ hab

theorem filter (h : Option.Rel r x y) {f : α → Bool} {g : β → Bool} (hfg : ∀ a b, r a b → g b = f a) :
    Option.Rel r (x.filter f) (y.filter g) := by
  cases h with
  | none => exact .none
  | @some a b hab =>
    rw [Option.filter_some, Option.filter_some, hfg a b hab]
    split
    · exact .some hab
    · exact .none

theorem or {x' : Option α} {y' : Option β} (h : Option.Rel r x y) (h' : Option.Rel r x' y') :
    Option.Rel r (x.or x') (y.or y') := by
  cases h with
  | none => exact h'
  | some hab => exact .some hab

theorem getD (h : Option.Rel r x y) {a : α} {b : β} (hab : r a b) : r (x.getD a) (y.getD b) := by
  cases h with
  | none => exact hab
  | some hab => exact hab

end Option.Rel

theorem List.Forall₂.getElem? {α β : Type} {r : α → β → Prop} {xs : List α} {ys : List β} (h : List.Forall₂ r xs ys) :
    ∀ i : Nat, Option.Rel r xs[i]? ys[i]? := by
  induction h with
  | nil => exact fun _ => .none
  | cons hx _ ih =>
    intro i
    cases i with
    | zero => exact .some hx
    | succ i => exact ih i

namespace EntityGraph

namespace Json

/-! ## Adding fields -/

/-- The keys by which a document is looked at. -/
def readKeys : List String :=
  ["id", "name", "kind", "kindString", "flags", "comment", "originalName", "defaultValue", "children", "signatures",
    "parameters", "typeArguments", "extendedTypes", "implementedTypes", "typeParameter", "typeParameters", "type",
    "indexSignature", "getSignature", "setSignature", "elementType", "types", "declaration", "value", "operator",
    "target", "shortText", "text", "tags", "tag", "param"] ++ Flags.fieldNames

mutual

/-- `v'` is `v` with fields added under keys that are not read; these hold the values `added`, in the order in which
they stand in `v'`. -/
inductive Padded : (added : List Json) → (v v' : Json) → Prop
  | leaf {v : Json} : v.parts = [] → Padded [] v v
  | arr {added vs vs' : List Json} : PaddedItems added vs vs' → Padded added (arr vs) (arr vs')
  | obj {added : List Json} {fs fs' : List (String × Json)} : PaddedFields added fs fs' →
      Padded added (obj fs) (obj fs')

/-- The items of an array, each with fields added. -/
inductive PaddedItems : (added : List Json) → (vs vs' : List Json) → Prop
  | nil : PaddedItems [] [] []
  | cons {added more vs vs' : List Json} {v v' : Json} : Padded added v v' → PaddedItems more vs vs' →
      PaddedItems (added ++ more) (v :: vs) (v' :: vs')

/-- The fields of an object with others added between them. -/
inductive PaddedFields : (added : List Json) → (fs fs' : List (String × Json)) → Prop
  | nil : PaddedFields [] [] []
  | keep {added more : List Json} {fs fs' : List (String × Json)} {key : String} {v v' : Json} : Padded added v v' →
      PaddedFields more fs fs' → PaddedFields (added ++ more) ((key, v) :: fs) ((key, v') :: fs')
  | add {added : List Json} {fs fs' : List (String × Json)} {key : String} (v : Json) : key ∉ readKeys →
      PaddedFields added fs fs' → PaddedFields (v :: added) fs ((key, v) :: fs')

end

mutual

/-- Nothing has to be added. -/
theorem Padded.refl : ∀ v : Json, Padded [] v v
  | .arr items => .arr (PaddedItems.refl items)
  | .obj fields => .obj (PaddedFields.refl fields)
  | .null | .bool _ | .num _ | .str _ => .leaf rfl

theorem PaddedItems.refl : ∀ vs : List Json, PaddedItems [] vs vs
  | [] => .nil
  | v :: vs => .cons (Padded.refl v) (PaddedItems.refl vs)

theorem PaddedFields.refl : ∀ fs : List (String × Json), PaddedFields [] fs fs
  | [] => .nil
  | (_, v) :: fs => .keep (Padded.refl v) (PaddedFields.refl fs)

end

section

variable {added vs : List Json} {fs fs' : List (String × Json)} {v v' : Json} {key : String}

/-- All that is added stands in the first item. -/
theorem PaddedItems.first (h : Padded added v v') : PaddedItems added (v :: vs) (v' :: vs) := by
  have hitems := PaddedItems.cons h (.refl vs)
  rwa [List.append_nil] at hitems

/-- All that is added stands in the first field. -/
theorem PaddedFields.first (h : Padded added v v') : PaddedFields added ((key, v) :: fs) ((key, v') :: fs) := by
  have hfields : PaddedFields (added ++ []) ((key, v) :: fs) ((key, v') :: fs) := .keep h (.refl fs)
  rwa [List.append_nil] at hfields

/-- All that is added stands after the first field. -/
theorem PaddedFields.later (h : PaddedFields added fs fs') : PaddedFields added ((key, v) :: fs) ((key, v) :: fs') :=
  .keep (.refl v) h

end

/-- `v'` is `v` with some fields added. -/
def Alike (v v' : Json) : Prop := ∃ added, Padded added v v'

theorem PaddedItems.forall₂ : ∀ {added vs vs' : List Json}, PaddedItems added vs vs' → List.Forall₂ Alike vs vs'
  | _, _, _, .nil => .nil
  | _, _, _, .cons h hs => .cons ⟨_, h⟩ hs.forall₂

/-- What is added is not found by a key that is read. -/
theorem PaddedFields.lookup {key : String} (hkey : key ∈ readKeys) : ∀ {added : List Json}
    {fs fs' : List (String × Json)}, PaddedFields added fs fs' → Option.Rel Alike (fs.lookup key) (fs'.lookup key)
  | _, _, _, .nil => .none
  | _, _, _, .keep h hs => by
    rw [lookup_cons_eq, lookup_cons_eq]
    split
    · exact .some ⟨_, h⟩
    · exact hs.lookup hkey
  | _, _, _, .add _ hunread hs => by
    rw [lookup_cons_eq, if_neg]
    · exact hs.lookup hkey
    · rintro rfl
      exact hunread hkey

/-! ## Looking at one value -/

theorem objectOrFirst?_cons (v : Json) (vs : List Json) :
    (arr (v :: vs)).objectOrFirst? = (some v).filter isObject := by
  cases v <;> rfl

namespace Alike

variable {v v' : Json} (h : v.Alike v') {key : String}

include h

theorem isObject : v'.isObject = v.isObject := by
  obtain ⟨_, h⟩ := h
  cases h <;> rfl

theorem string? : v'.string? = v.string? := by
  obtain ⟨_, h⟩ := h
  cases h <;> rfl

theorem natural? : v'.natural? = v.natural? := by
  obtain ⟨_, h⟩ := h
  cases h <;> rfl

theorem bool? : v'.bool? = v.bool? := by
  obtain ⟨_, h⟩ := h
  cases h <;> rfl

theorem array? : Option.Rel (List.Forall₂ Alike) v.array? v'.array? := by
  obtain ⟨_, h⟩ := h
  cases h with
  | leaf h =>
    cases v with
    | arr items =>
      obtain rfl : items = [] := h
      exact .some .nil
    | _ => exact .none
  | arr h => exact .some h.forall₂
  | obj h => exact .none

theorem get? (hkey : key ∈ readKeys) : Option.Rel Alike (v.get? key) (v'.get? key) := by
  obtain ⟨_, h⟩ := h
  cases h with
  | leaf h =>
    cases v with
    | obj fields =>
      obtain rfl : fields = [] := List.map_eq_nil_iff.mp h
      exact .none
    | _ => exact .none
  | arr h => exact .none
  | obj h => exact h.lookup hkey

theorem has (hkey : key ∈ readKeys) : v'.has key = v.has key := (h.get? hkey).isSome_eq

theorem stringAt? (hkey : key ∈ readKeys) : v'.stringAt? key = v.stringAt? key :=
  (h.get? hkey).bind_eq fun _ _ hw => hw.string?

theorem naturalAt? (hkey : key ∈ readKeys) : v'.naturalAt? key = v.naturalAt? key :=
  (h.get? hkey).bind_eq fun _ _ hw => hw.natural?

theorem listAt? (hkey : key ∈ readKeys) : Option.Rel (List.Forall₂ Alike) (v.listAt? key) (v'.listAt? key) :=
  (h.get? hkey).bind fun _ _ hw => hw.array?

theorem listAt (hkey : key ∈ readKeys) : List.Forall₂ Alike (v.listAt key) (v'.listAt key) :=
  (h.listAt? hkey).getD .nil

theorem objectAt? (hkey : key ∈ readKeys) : Option.Rel Alike (v.objectAt? key) (v'.objectAt? key) :=
  (h.get? hkey).filter fun _ _ hw => hw.isObject

theorem objectOrFirst? : Option.Rel Alike v.objectOrFirst? v'.objectOrFirst? := by
  obtain ⟨added, hpad⟩ := h
  cases hpad with
  | leaf h =>
    cases v with
    | obj fields => exact .some ⟨_, .leaf h⟩
    | arr items =>
      obtain rfl : items = [] := h
      exact .none
    | _ => exact .none
  | arr hitems =>
    cases hitems with
    | nil => exact .none
    | cons hw =>
      rw [objectOrFirst?_cons, objectOrFirst?_cons]
      exact (Option.Rel.some ⟨_, hw⟩).filter fun _ _ hw => hw.isObject
  | obj hfields => exact .some ⟨_, .obj hfields⟩

theorem singleAt? (hkey : key ∈ readKeys) : Option.Rel Alike (v.singleAt? key) (v'.singleAt? key) :=
  (h.get? hkey).bind fun _ _ hw => hw.objectOrFirst?

/-- A reader that does not tell alike items apart reads the same list. -/
theorem list? {α : Type} {read : Json → Option α} (hread : ∀ w w', w.Alike w' → read w' = read w) :
    Json.list? read v' = Json.list? read v := by
  have hitems {vs vs' : List Json} (hs : List.Forall₂ Alike vs vs') : vs'.mapM read = vs.mapM read := by
    induction hs with
    | nil => rfl
    | cons hw _ ih => rw [List.mapM_cons, List.mapM_cons, hread _ _ hw, ih]
  obtain ⟨_, h⟩ := h
  cases h with
  | arr h => exact hitems h.forall₂
  | _ => rfl

theorem nullable? {α : Type} {read : Json → Option α} (hread : read v' = read v) :
    Json.nullable? read v' = Json.nullable? read v := by
  obtain ⟨_, h⟩ := h
  cases h with
  | leaf => rfl
  | arr | obj => exact congrArg (Option.map some) hread

end Alike

end Json

open Json (Alike readKeys)

/-! ## Records -/

/-- Two records have alike values in the fields of these names. -/
def Record.Alike (names : List String) (r r' : Record) : Prop :=
  ∀ name ∈ names, Option.Rel Json.Alike (r.at? name) (r'.at? name)

theorem Record.ofJson?_alike {names : List String} (hnames : names ⊆ readKeys) {v v' : Json} (h : v.Alike v') :
    Option.Rel (Record.Alike names) (ofJson? names v) (ofJson? names v') := by
  obtain ⟨_, h⟩ := h
  cases h with
  | leaf hleaf =>
    cases v with
    | obj fields =>
      obtain rfl : fields = [] := List.map_eq_nil_iff.mp hleaf
      exact .some fun _ _ => .none
    | arr items =>
      obtain rfl : items = [] := hleaf
      rw [ofJson?, if_pos (show [].length ≤ names.length from Nat.zero_le _)]
      exact .some fun _ _ => .none
    | _ => exact .none
  | arr hitems =>
    have hs := hitems.forall₂
    rw [ofJson?, ofJson?, ← hs.length_eq]
    split
    · exact .some fun name _ => hs.getElem? _
    · exact .none
  | obj hfields => exact .some fun name hname => hfields.lookup (hnames hname)

/-- A reader that does not tell alike values apart reads the same field. -/
theorem Record.Alike.field? {α : Type} {names : List String} {r r' : Record} (h : r.Alike names r') {name : String}
    (hname : name ∈ names) (default : α) {read : Json → Option α} (hread : ∀ w w', w.Alike w' → read w' = read w) :
    r'.field? name default read = r.field? name default read := by
  unfold Record.field?
  rcases (h name hname).none_or_some with ⟨hw, hw'⟩ | ⟨w, w', hw, hw', hww'⟩
  · rw [hw, hw']
  · rw [hw, hw']
    exact hread w w' hww'

theorem Flags.ofJson?_alike {v v' : Json} (h : v.Alike v') : ofJson? v' = ofJson? v := by
  refine (Record.ofJson?_alike (by decide) h).bind_eq fun r r' hr => ?_
  have hfield {name : String} (hname : name ∈ fieldNames) :
      r'.field? name false Json.bool? = r.field? name false Json.bool? :=
    hr.field? hname false fun _ _ hw => hw.bool?
  simp only [hfield (by decide : "isConst" ∈ fieldNames), hfield (by decide : "isExported" ∈ fieldNames),
    hfield (by decide : "isExternal" ∈ fieldNames), hfield (by decide : "isOptional" ∈ fieldNames),
    hfield (by decide : "isPrivate" ∈ fieldNames), hfield (by decide : "isProtected" ∈ fieldNames),
    hfield (by decide : "isPublic" ∈ fieldNames), hfield (by decide : "isStatic" ∈ fieldNames),
    hfield (by decide : "isAbstract" ∈ fieldNames)]

theorem CommentTag.ofJson?_alike {v v' : Json} (h : v.Alike v') : ofJson? v' = ofJson? v := by
  refine (Record.ofJson?_alike (by decide) h).bind_eq fun r r' hr => ?_
  rw [hr.field? (by decide : "tag" ∈ ["tag", "text", "param"]) "" fun _ _ hw => hw.string?,
    hr.field? (by decide : "text" ∈ ["tag", "text", "param"]) "" fun _ _ hw => hw.string?,
    hr.field? (by decide : "param" ∈ ["tag", "text", "param"]) none fun _ _ hw => hw.nullable? hw.string?]

theorem Comment.ofJson?_alike {v v' : Json} (h : v.Alike v') : ofJson? v' = ofJson? v := by
  refine (Record.ofJson?_alike (by decide) h).bind_eq fun r r' hr => ?_
  rw [hr.field? (by decide : "shortText" ∈ ["shortText", "text", "tags"]) "" fun _ _ hw => hw.string?,
    hr.field? (by decide : "text" ∈ ["shortText", "text", "tags"]) none fun _ _ hw => hw.nullable? hw.string?,
    hr.field? (by decide : "tags" ∈ ["shortText", "text", "tags"]) [] fun _ _ hw =>
      hw.list? fun _ _ => CommentTag.ofJson?_alike]

/-! ## Nodes -/

/-- `n'` is the node `n` with some fields added. -/
structure Node.Alike (n n' : Node) : Prop where
  id : n'.id = n.id
  name : n'.name = n.name
  kind : n'.kind = n.kind
  kindString : n'.kindString = n.kindString
  value : n.value.Alike n'.value

/-- What is a node stays one, and nothing becomes a node. -/
theorem Node.ofJson?_alike {v v' : Json} (h : v.Alike v') : Option.Rel Node.Alike (ofJson? v) (ofJson? v') := by
  unfold ofJson?
  rw [h.naturalAt? (by decide), h.stringAt? (by decide), h.naturalAt? (by decide), h.stringAt? (by decide)]
  cases v.naturalAt? "id" with
  | none => exact .none
  | some =>
    cases v.stringAt? "name" with
    | none => exact .none
    | some =>
      cases v.naturalAt? "kind" with
      | none => exact .none
      | some =>
        cases v.stringAt? "kindString" with
        | none => exact .none
        | some => exact .some ⟨rfl, rfl, rfl, rfl, h⟩

namespace Node.Alike

variable {n n' : Node} (h : n.Alike n')

include h

theorem tag? : n'.tag? = n.tag? := by rw [Node.tag?, h.kindString, Node.tag?]

theorem has {key : String} (hkey : key ∈ readKeys) : n'.has key = n.has key := h.value.has hkey

theorem flags : n'.flags = n.flags := by
  have hflags := (h.value.get? (by decide : "flags" ∈ readKeys)).bind_eq fun _ _ => Flags.ofJson?_alike
  rw [Node.flags, hflags, Node.flags]

theorem doc? : n'.doc? = n.doc? := by
  have hcomment := (h.value.get? (by decide : "comment" ∈ readKeys)).bind_eq fun _ _ => Comment.ofJson?_alike
  rw [Node.doc?, Node.comment?, hcomment, Node.doc?, Node.comment?]

theorem filePath? : n'.filePath? = n.filePath? := h.value.stringAt? (by decide)

theorem defaultValue? : n'.defaultValue? = n.defaultValue? := h.value.stringAt? (by decide)

theorem childList? : Option.Rel (List.Forall₂ Json.Alike) n.childList? n'.childList? := h.value.listAt? (by decide)

theorem children : List.Forall₂ Json.Alike n.children n'.children := h.value.listAt (by decide)

theorem signatureList? : Option.Rel (List.Forall₂ Json.Alike) n.signatureList? n'.signatureList? :=
  h.value.listAt? (by decide)

theorem signatures : List.Forall₂ Json.Alike n.signatures n'.signatures := h.value.listAt (by decide)

theorem parameters : List.Forall₂ Json.Alike n.parameters n'.parameters := h.value.listAt (by decide)

theorem typeArguments : List.Forall₂ Json.Alike n.typeArguments n'.typeArguments := h.value.listAt (by decide)

theorem extendedTypes : List.Forall₂ Json.Alike n.extendedTypes n'.extendedTypes := h.value.listAt (by decide)

theorem implementedTypes : List.Forall₂ Json.Alike n.implementedTypes n'.implementedTypes := h.value.listAt (by decide)

theorem type? : Option.Rel Json.Alike n.type? n'.type? := h.value.objectAt? (by decide)

theorem indexSignature? : Option.Rel Json.Alike n.indexSignature? n'.indexSignature? := h.value.singleAt? (by decide)

theorem getSignature? : Option.Rel Json.Alike n.getSignature? n'.getSignature? := h.value.singleAt? (by decide)

theorem setSignature? : Option.Rel Json.Alike n.setSignature? n'.setSignature? := h.value.singleAt? (by decide)

theorem getter? : Option.Rel Node.Alike n.getter? n'.getter? := h.getSignature?.bind fun _ _ => ofJson?_alike

theorem setter? : Option.Rel Node.Alike n.setter? n'.setter? := h.setSignature?.bind fun _ _ => ofJson?_alike

theorem signatureNodes : List.Forall₂ Node.Alike n.signatureNodes n'.signatureNodes :=
  List.rel_filterMap (R := Json.Alike) (fun _ _ => ofJson?_alike) h.signatures

theorem parameter? : Option.Rel Json.Alike n.parameters.head? n'.parameters.head? := by
  rw [List.head?_eq_getElem?, List.head?_eq_getElem?]
  exact h.parameters.getElem? 0

theorem firstParameterType? : Option.Rel Json.Alike n.firstParameterType? n'.firstParameterType? :=
  h.parameter?.bind fun _ _ hp => hp.objectAt? (by decide)

theorem typeParameterNames : n'.typeParameterNames = n.typeParameterNames := by
  have hlist := (h.value.listAt? (by decide : "typeParameter" ∈ readKeys)).or
    (h.value.listAt? (by decide : "typeParameters" ∈ readKeys))
  have hname {vs vs' : List Json} (hs : List.Forall₂ Json.Alike vs vs') :
      vs'.filterMap (Json.stringAt? "name") = vs.filterMap (Json.stringAt? "name") := by
    induction hs with
    | nil => rfl
    | cons hv _ ih => rw [List.filterMap_cons, List.filterMap_cons, hv.stringAt? (by decide), ih]
  exact hname (hlist.getD .nil)

theorem accessorType? : Option.Rel Json.Alike n.accessorType? n'.accessorType? :=
  (h.getter?.bind fun _ _ hg => hg.type?).or (h.setter?.bind fun _ _ hs => hs.firstParameterType?)

theorem accessorDoc? : n'.accessorDoc? = n.accessorDoc? := by
  rw [Node.accessorDoc?, Node.accessorDoc?, h.doc?, h.getter?.bind_eq fun _ _ hg => hg.doc?,
    h.setter?.bind_eq fun _ _ hs => hs.doc?]

theorem callableDoc? : n'.callableDoc? = n.callableDoc? := by
  have hhead : Option.Rel Node.Alike n.signatureNodes.head? n'.signatureNodes.head? := by
    rw [List.head?_eq_getElem?, List.head?_eq_getElem?]
    exact h.signatureNodes.getElem? 0
  rw [Node.callableDoc?, Node.callableDoc?, h.doc?, hhead.bind_eq fun _ _ hs => hs.doc?]

/-! ### Recognition -/

theorem childrenFit : n'.childrenFit = n.childrenFit := by
  rw [Node.childrenFit, h.has (by decide), h.childList?.isSome_eq, Node.childrenFit]

theorem fitsIndexSignature : n'.fitsIndexSignature = n.fitsIndexSignature := by
  have hs := h.parameters
  unfold Node.fitsIndexSignature
  rw [h.type?.isSome_eq]
  generalize n.parameters = ps at hs ⊢
  generalize n'.parameters = ps' at hs ⊢
  cases hs with
  | nil => rfl
  | cons hp hs =>
    cases hs with
    | nil => simp only [hp.stringAt? (by decide : "name" ∈ readKeys)]
    | cons => rfl

theorem fitsSignature : n'.fitsSignature = n.fitsSignature := by
  rw [Node.fitsSignature, h.tag?, h.has (by decide), (h.value.listAt? (by decide)).isSome_eq, h.type?.isSome_eq,
    Node.fitsSignature]

end Node.Alike

theorem Json.Alike.isSignature {v v' : Json} (h : v.Alike v') : v'.isSignature = v.isSignature :=
  (Node.ofJson?_alike h).any_eq fun _ _ hn => hn.fitsSignature

theorem all_alike {p : Json → Bool} (hp : ∀ v v', v.Alike v' → p v' = p v) {vs vs' : List Json}
    (h : List.Forall₂ Json.Alike vs vs') : vs'.all p = vs.all p := by
  induction h with
  | nil => rfl
  | cons hv _ ih => rw [List.all_cons, List.all_cons, hp _ _ hv, ih]

namespace Node.Alike

variable {n n' : Node} (h : n.Alike n')

include h

theorem soleSignatures? : Option.Rel (List.Forall₂ Json.Alike) n.soleSignatures? n'.soleSignatures? := by
  refine h.signatureList?.filter fun vs vs' hs => ?_
  have hempty : vs'.isEmpty = vs.isEmpty := by cases hs <;> rfl
  rw [hempty, all_alike (fun _ _ hv => hv.isSignature) hs, h.has (by decide), h.has (by decide)]

theorem recognize? (position : Position) : n'.recognize? position = n.recognize? position := by
  have htagged : Rule.tagged n' position = Rule.tagged n position := by
    rw [Rule.tagged, h.tag?, h.childrenFit, h.childList?.isSome_eq, h.getSignature?.isSome_eq,
      h.setSignature?.isSome_eq, h.fitsIndexSignature, Rule.tagged]
  have hcallable : Rule.callableLiteral n' position = Rule.callableLiteral n position := by
    rw [Rule.callableLiteral, Rule.callableLiteral, h.tag?]
    congr 1
    refine h.soleSignatures?.map_eq fun vs vs' hs => ?_
    rw [all_alike (fun v v' hv => by rw [hv.stringAt? (by decide)]) hs]
  have hbody : Rule.bodyLiteral n' position = Rule.bodyLiteral n position := by
    rw [Rule.bodyLiteral, h.tag?, h.childrenFit, Rule.bodyLiteral]
  have hsole (kind : DeclKind) : (n'.soleSignatures?.map fun _ => kind) = n.soleSignatures?.map fun _ => kind :=
    h.soleSignatures?.map_eq fun _ _ _ => rfl
  have htaggedCallable : Rule.taggedCallable n' position = Rule.taggedCallable n position := by
    simp only [Rule.taggedCallable, h.tag?, hsole]
  have hslot : Rule.slot n' position = Rule.slot n position := by
    rw [Rule.slot, h.tag?, h.type?.isSome_eq, h.has (by decide), h.has (by decide), Rule.slot]
  simp only [Node.recognize?, recognizeBy?, Rule.all, List.findSome?_cons, List.findSome?_nil, htagged, hcallable,
    hbody, htaggedCallable, hslot]

theorem entityKind? (position : Position) : n'.entityKind? position = n.entityKind? position := by
  rw [Node.entityKind?, h.recognize?, Node.entityKind?]

end Node.Alike

/-! ## The nodes of a document -/

/-- `ns'` are the nodes `ns`, with some fields added, and the nodes `added` between them; `p` tells them apart by their
ids. -/
structure Weaves (p : DeclId → Bool) (ns ns' added : List Node) : Prop where
  kept : List.Forall₂ Node.Alike ns (ns'.filter fun n => p n.id)
  added : (ns'.filter fun n => !p n.id) = added

namespace Weaves

variable {p : DeclId → Bool} {ns ns' added ms ms' more : List Node}

theorem append (h : Weaves p ns ns' added) (hm : Weaves p ms ms' more) :
    Weaves p (ns ++ ms) (ns' ++ ms') (added ++ more) where
  kept := by
    rw [List.filter_append]
    exact List.rel_append h.kept hm.kept
  added := by rw [List.filter_append, h.added, hm.added]

theorem all_kept (h : List.Forall₂ Node.Alike ns ns') (hp : ∀ n ∈ ns, p n.id = true) : Weaves p ns ns' [] := by
  have hp' : ∀ n ∈ ns', p n.id = true := by
    induction h with
    | nil => exact fun _ hn => nomatch hn
    | cons hn _ ih =>
      rw [List.forall_mem_cons] at hp ⊢
      exact ⟨hn.id ▸ hp.1, ih hp.2⟩
  constructor
  · rwa [List.filter_eq_self.mpr hp']
  · exact List.filter_eq_nil_iff.mpr fun n hn => by simp [hp' n hn]

theorem all_added (hp : ∀ n ∈ added, p n.id = false) : Weaves p [] added added where
  kept := by
    rw [List.filter_eq_nil_iff.mpr fun n hn => by simp [hp n hn]]
    exact .nil
  added := List.filter_eq_self.mpr fun n hn => by simp [hp n hn]

/-- The node that a value is comes before those of its parts. -/
theorem of_parts {v v' : Json} (h : v.Alike v') (hp : ∀ n ∈ v.nodes, p n.id = true)
    (hparts : Weaves p (v.parts.flatMap Json.nodes) (v'.parts.flatMap Json.nodes) added) :
    Weaves p v.nodes v'.nodes added := by
  rw [Json.nodes_eq] at hp
  rw [Json.nodes_eq v, Json.nodes_eq v']
  have hself : List.Forall₂ Node.Alike (Node.ofJson? v).toList (Node.ofJson? v').toList := by
    rcases (Node.ofJson?_alike h).none_or_some with ⟨hn, hn'⟩ | ⟨n, n', hn, hn', halike⟩
    · rw [hn, hn']
      exact .nil
    · rw [hn, hn']
      exact .cons halike .nil
  exact (all_kept hself fun n hn => hp n (List.mem_append_left _ hn)).append hparts

end Weaves

namespace Json

variable {p : DeclId → Bool}

mutual

/-- The nodes of the added values stand between those of the value, which have fields added. -/
theorem Padded.nodes : ∀ {added : List Json} {v v' : Json}, Padded added v v' → (∀ n ∈ v.nodes, p n.id = true) →
    (∀ n ∈ added.flatMap Json.nodes, p n.id = false) → Weaves p v.nodes v'.nodes (added.flatMap Json.nodes)
  | _, v, _, .leaf hleaf, hv, _ => by
    refine .of_parts ⟨_, .leaf hleaf⟩ hv ?_
    rw [hleaf]
    exact ⟨.nil, rfl⟩
  | _, _, _, .arr h, hv, hadded => by
    refine .of_parts ⟨_, .arr h⟩ hv (h.nodes (fun n hn => hv n ?_) hadded)
    rw [nodes_eq]
    exact List.mem_append_right _ hn
  | _, _, _, .obj h, hv, hadded => by
    refine .of_parts ⟨_, .obj h⟩ hv (h.nodes (fun n hn => hv n ?_) hadded)
    rw [nodes_eq]
    exact List.mem_append_right _ hn

theorem PaddedItems.nodes : ∀ {added vs vs' : List Json}, PaddedItems added vs vs' →
    (∀ n ∈ vs.flatMap Json.nodes, p n.id = true) → (∀ n ∈ added.flatMap Json.nodes, p n.id = false) →
      Weaves p (vs.flatMap Json.nodes) (vs'.flatMap Json.nodes) (added.flatMap Json.nodes)
  | _, _, _, .nil, _, _ => ⟨.nil, rfl⟩
  | _, _, _, .cons h hs, hv, hadded => by
    rw [List.flatMap_cons] at hv
    rw [List.flatMap_append] at hadded ⊢
    have hfirst := h.nodes (fun n hn => hv n (List.mem_append_left _ hn)) fun n hn =>
      hadded n (List.mem_append_left _ hn)
    have hrest := hs.nodes (fun n hn => hv n (List.mem_append_right _ hn)) fun n hn =>
      hadded n (List.mem_append_right _ hn)
    exact hfirst.append hrest

theorem PaddedFields.nodes : ∀ {added : List Json} {fs fs' : List (String × Json)}, PaddedFields added fs fs' →
    (∀ n ∈ (fs.map (·.2)).flatMap Json.nodes, p n.id = true) → (∀ n ∈ added.flatMap Json.nodes, p n.id = false) →
      Weaves p ((fs.map (·.2)).flatMap Json.nodes) ((fs'.map (·.2)).flatMap Json.nodes) (added.flatMap Json.nodes)
  | _, _, _, .nil, _, _ => ⟨.nil, rfl⟩
  | _, _, _, .keep h hs, hv, hadded => by
    rw [List.map_cons, List.flatMap_cons] at hv
    rw [List.flatMap_append] at hadded ⊢
    have hfirst := h.nodes (fun n hn => hv n (List.mem_append_left _ hn)) fun n hn =>
      hadded n (List.mem_append_left _ hn)
    have hrest := hs.nodes (fun n hn => hv n (List.mem_append_right _ hn)) fun n hn =>
      hadded n (List.mem_append_right _ hn)
    exact hfirst.append hrest
  | _, _, _, .add w _ hs, hv, hadded => by
    rw [List.flatMap_cons] at hadded ⊢
    exact (Weaves.all_added fun n hn => hadded n (List.mem_append_left _ hn)).append
      (hs.nodes hv fun n hn => hadded n (List.mem_append_right _ hn))

end

end Json

/-! ## Type expressions -/

/-- Two type expressions have the same form, and alike parts. -/
inductive TypeExpr.Alike : TypeExpr → TypeExpr → Prop
  | same {e : TypeExpr} : e.parts = [] → Alike e e
  | array {v v' : Json} : v.Alike v' → Alike (array v) (array v')
  | union {vs vs' : List Json} : List.Forall₂ Json.Alike vs vs' → Alike (union vs) (union vs')
  | intersection {vs vs' : List Json} : List.Forall₂ Json.Alike vs vs' → Alike (intersection vs) (intersection vs')
  | reflection {v v' : Json} : v.Alike v' → Alike (reflection v) (reflection v')

namespace TypeExpr

theorem parts_referenceOf (v : Json) : (referenceOf v).parts = [] := by
  unfold referenceOf
  split
  · next id _ => cases id.natural? <;> rfl
  · rfl
  · rfl

theorem parts_operatorOf (v : Json) : (operatorOf v).parts = [] := by
  unfold operatorOf
  dsimp only
  split <;> rfl

variable {v v' : Json} (h : v.Alike v')

include h

theorem referenceOf_alike : referenceOf v' = referenceOf v := by
  unfold referenceOf
  rw [h.stringAt? (by decide)]
  rcases (h.get? (by decide : "id" ∈ readKeys)).none_or_some with ⟨hid, hid'⟩ | ⟨id, id', hid, hid', halike⟩
  · rw [hid, hid']
  · simp only [hid, hid', halike.natural?]

theorem operatorOf_alike : operatorOf v' = operatorOf v := by
  have htarget := h.get? (by decide : "target" ∈ readKeys)
  unfold operatorOf
  simp only [h.stringAt? (by decide : "operator" ∈ readKeys),
    htarget.bind_eq fun _ _ ht => ht.stringAt? (by decide : "type" ∈ readKeys),
    htarget.bind_eq fun _ _ ht => ht.stringAt? (by decide : "name" ∈ readKeys)]

theorem ofForm_alike (form : String) : Alike (ofForm form v) (ofForm form v') := by
  have object {key : String} {f : Json → TypeExpr} (hf : ∀ w w', w.Alike w' → Alike (f w) (f w'))
      (hkey : key ∈ readKeys) : Alike (((v.objectAt? key).map f).getD (unknown none))
        (((v'.objectAt? key).map f).getD (unknown none)) :=
    ((h.objectAt? hkey).map hf).getD (.same rfl)
  have list {key : String} {f : List Json → TypeExpr}
      (hf : ∀ ws ws', List.Forall₂ Json.Alike ws ws' → Alike (f ws) (f ws')) (hkey : key ∈ readKeys) :
      Alike (((v.listAt? key).map f).getD (unknown none)) (((v'.listAt? key).map f).getD (unknown none)) :=
    ((h.listAt? hkey).map hf).getD (.same rfl)
  have text {key : String} {f : String → TypeExpr} (hf : ∀ s, (f s).parts = []) (hkey : key ∈ readKeys) :
      Alike (((v.stringAt? key).map f).getD (unknown none)) (((v'.stringAt? key).map f).getD (unknown none)) := by
    rw [h.stringAt? hkey]
    cases v.stringAt? key with
    | none => exact .same rfl
    | some s => exact .same (hf s)
  unfold ofForm
  split
  · exact text (fun _ => rfl) (by decide)
  · rw [referenceOf_alike h]
    exact .same (parts_referenceOf v)
  · exact object (fun _ _ => .array) (by decide)
  · exact list (fun _ _ => .union) (by decide)
  · exact list (fun _ _ => .intersection) (by decide)
  · exact object (fun _ _ => .reflection) (by decide)
  · exact text (fun _ => rfl) (by decide)
  · exact text (fun _ => rfl) (by decide)
  · rw [operatorOf_alike h]
    exact .same (parts_operatorOf v)
  · rw [h.stringAt? (by decide)]
    exact .same rfl

theorem ofJson_alike : Alike (ofJson v) (ofJson v') := by
  unfold ofJson
  rw [h.stringAt? (by decide)]
  split
  · exact ofForm_alike h _
  · exact .same rfl

theorem argumentsOf_alike : List.Forall₂ Json.Alike (argumentsOf v) (argumentsOf v') := h.listAt (by decide)

end TypeExpr

end EntityGraph

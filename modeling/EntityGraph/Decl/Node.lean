import EntityGraph.Decl.Tag
import EntityGraph.Decl.Flags
import EntityGraph.Decl.Comment
import EntityGraph.Json.Inside

/-!
# Declaration nodes

A JSON object is a declaration node when it has the base shape: unsigned integers `id` and `kind`, strings `name` and
`kindString` (`Node.ofJson?`). The other fields are read leniently: a field of the wrong shape counts as absent. What a
node hands out of its fields lies inside the node (`Node.inside_children` and its companions).
-/

namespace EntityGraph

/-- The number by which a document refers to a declaration. -/
structure DeclId where
  value : Nat
deriving DecidableEq, Inhabited

/-- An id as messages show it. -/
def DeclId.text (id : DeclId) : String := "#" ++ toString id.value

/-- An id as the number that it is. -/
def DeclId.toJson (id : DeclId) : Json := .ofNat id.value

/-- Reads an id: an unsigned integer. -/
def DeclId.ofJson? (v : Json) : Option DeclId := v.natural?.map DeclId.mk

/-- A declaration node: an object with the base shape. -/
structure Node where
  value : Json
  id : DeclId
  name : String
  kind : Nat
  kindString : String
deriving Inhabited

namespace Json

/-- The first item of a wrapped object, or the object itself. -/
def objectOrFirst? : Json → Option Json
  | obj fields => some (obj fields)
  | arr (obj fields :: _) => some (obj fields)
  | _ => none

theorem inside_or_eq_of_objectOrFirst? {part whole : Json} (h : whole.objectOrFirst? = some part) :
    part.Inside whole ∨ part = whole := by
  unfold objectOrFirst? at h
  split at h
  · exact .inr (Option.some.inj h).symm
  · cases h
    exact .inl (.direct List.mem_cons_self)
  · cases h

/-- The object that a key holds, perhaps as the first item of an array. -/
def singleAt? (key : String) (v : Json) : Option Json := (v.get? key).bind objectOrFirst?

theorem inside_of_singleAt? {key : String} {part whole : Json} (h : whole.singleAt? key = some part) :
    part.Inside whole := by
  obtain ⟨held, hh, hp⟩ := Option.bind_eq_some_iff.mp h
  rcases inside_or_eq_of_objectOrFirst? hp with hp | rfl
  · exact hp.trans (inside_of_get? hh)
  · exact inside_of_get? hh

end Json

namespace Node

/-- The node that a value is, if it has the base shape. -/
def ofJson? (v : Json) : Option Node := do
  let id ← v.naturalAt? "id"
  let name ← v.stringAt? "name"
  let kind ← v.naturalAt? "kind"
  let kindString ← v.stringAt? "kindString"
  return { value := v, id := ⟨id⟩, name, kind, kindString }

theorem value_of_ofJson? {v : Json} {n : Node} (h : ofJson? v = some n) : n.value = v := by
  simp only [ofJson?, Option.bind_eq_bind, Option.bind_eq_some_iff] at h
  obtain ⟨_, _, _, _, _, _, _, _, h⟩ := h
  cases h
  rfl

/-- A node lies inside what the value lies inside that it is read from. -/
theorem inside_of_ofJson? {v host : Json} {n : Node} (h : ofJson? v = some n) (inside : v.Inside host) :
    n.value.Inside host := (value_of_ofJson? h).symm ▸ inside

/-- The tag of a node, if its text is one. -/
def tag? (n : Node) : Option Tag := Tag.ofText? n.kindString

/-- Whether a node has a key at all. -/
def has (key : String) (n : Node) : Bool := n.value.has key

/-- The flags of a node; all false where they cannot be read. -/
def flags (n : Node) : Flags := ((n.value.get? "flags").bind Flags.ofJson?).getD {}

/-- The comment of a node, where it can be read. -/
def comment? (n : Node) : Option Comment := (n.value.get? "comment").bind Comment.ofJson?

/-- The documentation of a node. -/
def doc? (n : Node) : Option DocComment := n.comment?.map Comment.doc

/-- The path of the file that a module was read from. -/
def filePath? (n : Node) : Option String := n.value.stringAt? "originalName"

/-- The initial value of a declaration as text. -/
def defaultValue? (n : Node) : Option String := n.value.stringAt? "defaultValue"

/-- The array `children`. -/
def childList? (n : Node) : Option (List Json) := n.value.listAt? "children"

/-- The items of `children`. -/
def children (n : Node) : List Json := n.value.listAt "children"

/-- The array `signatures`. -/
def signatureList? (n : Node) : Option (List Json) := n.value.listAt? "signatures"

/-- The items of `signatures`. -/
def signatures (n : Node) : List Json := n.value.listAt "signatures"

/-- The items of `parameters`. -/
def parameters (n : Node) : List Json := n.value.listAt "parameters"

/-- The type arguments. -/
def typeArguments (n : Node) : List Json := n.value.listAt "typeArguments"

/-- The types that a declaration extends. -/
def extendedTypes (n : Node) : List Json := n.value.listAt "extendedTypes"

/-- The types that a declaration implements. -/
def implementedTypes (n : Node) : List Json := n.value.listAt "implementedTypes"

/-- The names of the type parameters, which stand under either of two keys. -/
def typeParameterNames (n : Node) : List String :=
  (((n.value.listAt? "typeParameter").or (n.value.listAt? "typeParameters")).getD []).filterMap (Json.stringAt? "name")

/-- The type of the declaration, where it is an object. -/
def type? (n : Node) : Option Json := n.value.objectAt? "type"

/-- The index signature, perhaps wrapped in an array. -/
def indexSignature? (n : Node) : Option Json := n.value.singleAt? "indexSignature"

/-- The signature of the getter, perhaps wrapped in an array. -/
def getSignature? (n : Node) : Option Json := n.value.singleAt? "getSignature"

/-- The signature of the setter, perhaps wrapped in an array. -/
def setSignature? (n : Node) : Option Json := n.value.singleAt? "setSignature"

/-- The type of the first parameter, where it is an object. -/
def firstParameterType? (n : Node) : Option Json := n.parameters.head?.bind (Json.objectAt? "type")

/-- The getter as a node. -/
def getter? (n : Node) : Option Node := n.getSignature?.bind ofJson?

/-- The setter as a node. -/
def setter? (n : Node) : Option Node := n.setSignature?.bind ofJson?

/-- The signatures that are nodes. -/
def signatureNodes (n : Node) : List Node := n.signatures.filterMap ofJson?

/-! ## What a node hands out lies inside -/

theorem inside_children {n : Node} {w : Json} (h : w ∈ n.children) : w.Inside n.value := Json.inside_of_mem_listAt h

theorem inside_signatures {n : Node} {w : Json} (h : w ∈ n.signatures) : w.Inside n.value :=
  Json.inside_of_mem_listAt h

theorem inside_parameters {n : Node} {w : Json} (h : w ∈ n.parameters) : w.Inside n.value :=
  Json.inside_of_mem_listAt h

theorem inside_typeArguments {n : Node} {w : Json} (h : w ∈ n.typeArguments) : w.Inside n.value :=
  Json.inside_of_mem_listAt h

theorem inside_extendedTypes {n : Node} {w : Json} (h : w ∈ n.extendedTypes) : w.Inside n.value :=
  Json.inside_of_mem_listAt h

theorem inside_implementedTypes {n : Node} {w : Json} (h : w ∈ n.implementedTypes) : w.Inside n.value :=
  Json.inside_of_mem_listAt h

theorem inside_type? {n : Node} {w : Json} (h : n.type? = some w) : w.Inside n.value := Json.inside_of_objectAt? h

theorem inside_indexSignature? {n : Node} {w : Json} (h : n.indexSignature? = some w) : w.Inside n.value :=
  Json.inside_of_singleAt? h

theorem inside_getSignature? {n : Node} {w : Json} (h : n.getSignature? = some w) : w.Inside n.value :=
  Json.inside_of_singleAt? h

theorem inside_setSignature? {n : Node} {w : Json} (h : n.setSignature? = some w) : w.Inside n.value :=
  Json.inside_of_singleAt? h

theorem inside_firstParameterType? {n : Node} {w : Json} (h : n.firstParameterType? = some w) : w.Inside n.value := by
  obtain ⟨p, hp, hw⟩ := Option.bind_eq_some_iff.mp h
  exact (Json.inside_of_objectAt? hw).trans (inside_parameters (List.mem_of_head? hp))

theorem inside_getter? {n g : Node} (h : n.getter? = some g) : g.value.Inside n.value := by
  obtain ⟨v, hv, hg⟩ := Option.bind_eq_some_iff.mp h
  exact value_of_ofJson? hg ▸ inside_getSignature? hv

theorem inside_setter? {n s : Node} (h : n.setter? = some s) : s.value.Inside n.value := by
  obtain ⟨v, hv, hs⟩ := Option.bind_eq_some_iff.mp h
  exact value_of_ofJson? hs ▸ inside_setSignature? hv

theorem inside_signatureNodes {n s : Node} (h : s ∈ n.signatureNodes) : s.value.Inside n.value := by
  obtain ⟨v, hv, hs⟩ := List.mem_filterMap.mp h
  exact value_of_ofJson? hs ▸ inside_signatures hv

end Node

end EntityGraph

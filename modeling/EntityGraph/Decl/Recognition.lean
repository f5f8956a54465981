import EntityGraph.Decl.Node
import EntityGraph.Decl.Kind

/-!
# Recognition

A node has no one key that says what it declares: one tag stands for several shapes. So the kind is found by a list of
rules (`Rule.all`), each of which looks at the tag and the shape; the first that answers decides (`Node.recognize?`).
-/

namespace EntityGraph

/-- A rule gives the kind of some nodes as seen from a position. -/
abbrev Rule := Node → Position → Option DeclKind

namespace Node

/-- Whether `children` is an array or absent. -/
def childrenFit (n : Node) : Bool := !n.has "children" || n.childList?.isSome

/-- Whether a node has one named parameter and a type, as an index signature does. -/
def fitsIndexSignature (n : Node) : Bool :=
  match n.parameters with
  | [parameter] => (parameter.stringAt? "name").isSome && n.type?.isSome
  | _ => false

/-- Whether a node is a call or constructor signature with a type, its parameters an array or absent. -/
def fitsSignature (n : Node) : Bool :=
  n.tag?.any Tag.isSignature && (!n.has "parameters" || (n.value.listAt? "parameters").isSome) && n.type?.isSome

end Node

/-- Whether a value is a well-formed call or constructor signature. -/
def Json.isSignature (v : Json) : Bool := (Node.ofJson? v).any Node.fitsSignature

/-- The signatures of a node that has at least one, only well-formed ones, and no body beside them. -/
def Node.soleSignatures? (n : Node) : Option (List Json) :=
  n.signatureList?.filter fun signatures =>
    !signatures.isEmpty && signatures.all Json.isSignature && !n.has "children" && !n.has "indexSignature"

namespace Rule

/-- A tag that stands for one shape. -/
def tagged : Rule := fun n _ =>
  match n.tag? with
  | some .externalModule => if n.childrenFit then some .moduleDecl else none
  | some .namespaceModule => if n.childrenFit then some .namespaceDecl else none
  | some .classDecl => if n.childrenFit then some .classDecl else none
  | some .interfaceDecl => if n.childrenFit then some .interfaceDecl else none
  | some .objectLiteral => if n.childrenFit then some .objectLiteral else none
  | some .enumeration => if n.childList?.isSome then some .enumDecl else none
  | some .accessor => if n.getSignature?.isSome || n.setSignature?.isSome then some .accessor else none
  | some .indexSignature => if n.fitsIndexSignature then some .indexSignature else none
  | _ => none

/-- A literal that has signatures and nothing else is callable. -/
def callableLiteral : Rule := fun n position =>
  if n.tag? = some .typeLiteral then
    n.soleSignatures?.map fun signatures =>
      if signatures.all fun s => s.stringAt? "kindString" = some Tag.constructorSignature.text then .constructor
      else if position.isMember then .method
      else .function
  else none

/-- Any other literal is a value or a type by its position. -/
def bodyLiteral : Rule := fun n position =>
  if n.tag? = some .typeLiteral && n.childrenFit then
    some (if position.isInitializer then .objectLiteral else .interfaceLiteral)
  else none

/-- A function, method or constructor has signatures and nothing else. -/
def taggedCallable : Rule := fun n _ =>
  match n.tag? with
  | some .function => n.soleSignatures?.map fun _ => .function
  | some .method => n.soleSignatures?.map fun _ => .method
  | some .constructor => n.soleSignatures?.map fun _ => .constructor
  | _ => none

/-- An alias, variable, property or event has a type and neither children nor signatures. -/
def slot : Rule := fun n _ =>
  if n.type?.isSome && !n.has "children" && !n.has "signatures" then
    match n.tag? with
    | some .typeAlias => some .typeAlias
    | some tag => if tag.isSlot then some .property else none
    | none => none
  else none

end Rule

/-- The rules in order of precedence. -/
def Rule.all : List Rule := [Rule.tagged, Rule.callableLiteral, Rule.bodyLiteral, Rule.taggedCallable, Rule.slot]

/-- The kind that the first rule with an answer gives. -/
def Node.recognizeBy? (rules : List Rule) (n : Node) (position : Position) : Option DeclKind :=
  rules.findSome? fun rule => rule n position

/-- The kind of a node as seen from a position; none for a node that is not recognized. -/
def Node.recognize? (n : Node) (position : Position) : Option DeclKind := n.recognizeBy? Rule.all position

end EntityGraph

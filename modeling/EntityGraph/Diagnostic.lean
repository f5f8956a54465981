import EntityGraph.Decl.Node

/-!
# Diagnostics

What is wrong with a document but does not stop its resolution: the place in question stands for the unknown type. A
diagnostic is written as an object with its kind, its particulars and the whole of it in words (`Diagnostic.toJson`).
-/

namespace EntityGraph

/-- A finding about a document. -/
inductive Diagnostic
  /-- A value without the base shape of a declaration, or a node that no rule recognizes. -/
  | unrecognizedDeclaration (id : Option DeclId) (kindString : Option String)
  /-- A reference to an id that no node carries. -/
  | danglingReference (id : DeclId)
  /-- A reference with neither a usable id nor a name. -/
  | malformedReference
  /-- A node with the id of an earlier node, which is the one that the index holds. -/
  | duplicateDeclarationId (id : DeclId)
  /-- A type expression inside too many others. -/
  | typeDepthExceeded (depth : Nat)
deriving DecidableEq

namespace Diagnostic

/-- The finding about a value in the place of a declaration, by what can be read of it. -/
def ofUnrecognized (v : Json) : Diagnostic :=
  unrecognizedDeclaration ((v.naturalAt? "id").map DeclId.mk) (v.stringAt? "kindString")

/-- The diagnostic in words. -/
def text : Diagnostic → String
  | unrecognizedDeclaration id kindString =>
    "unrecognized declaration " ++ (id.map DeclId.text).getD "without id" ++
      " (kindString: " ++ kindString.getD "<missing>" ++ ")"
  | danglingReference id => "reference to missing declaration " ++ id.text
  | malformedReference => "reference without id or name"
  | duplicateDeclarationId id => "duplicate declaration id " ++ id.text
  | typeDepthExceeded depth => "type nesting exceeded depth " ++ toString depth

/-- The kind and the particulars. -/
def fields : Diagnostic → List (String × Json)
  | unrecognizedDeclaration id kindString =>
    [("kind", .str "unrecognized_declaration"), ("id", .ofOption DeclId.toJson id),
      ("kind_string", .ofOption .str kindString)]
  | danglingReference id => [("kind", .str "dangling_reference"), ("id", id.toJson)]
  | malformedReference => [("kind", .str "malformed_reference")]
  | duplicateDeclarationId id => [("kind", .str "duplicate_declaration_id"), ("id", id.toJson)]
  | typeDepthExceeded depth => [("kind", .str "type_depth_exceeded"), ("depth", .ofNat depth)]

/-- A diagnostic as an object. -/
def toJson (d : Diagnostic) : Json := .ofFields (d.fields ++ [("text", .str d.text)])

end Diagnostic

end EntityGraph

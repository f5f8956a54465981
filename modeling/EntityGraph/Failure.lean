import EntityGraph.Json.Reader
import EntityGraph.Entity.Basic

/-!
# Files and failures

A file as it was found is its name and what stands there; `File.text` is the text of a file that has one.

What can go wrong, by cause: a document that cannot be read or is no declaration tree, options that do not fit, a
module that is not there. A `Breach` is a fault of the resolution itself. The words for each cause are in
`Failure.message` and `Breach.message`; a cause that lies outside, in a text or in the file system, is named by a word
in angle brackets.
-/

namespace EntityGraph

/-! ## Files -/

/-- Why a file gives no text. -/
inductive FileError
  | notFound
  | isDirectory
  /-- The bytes are not UTF-8. -/
  | invalidData
deriving DecidableEq

/-- What stands under a name. -/
inductive FileContent
  | absent
  | directory
  | bytes (data : ByteArray)

/-- A file as it was found. -/
structure File where
  name : String
  content : FileContent

namespace File

/-- The text of a file; its bytes have to be UTF-8. -/
def text (file : File) : Except FileError String :=
  match file.content with
  | .absent => .error .notFound
  | .directory => .error .isDirectory
  | .bytes data =>
    match String.fromUTF8? data with
    | some text => .ok text
    | none => .error .invalidData

end File

/-! ## Breaches and failures -/

/-- How the reservation of entities was broken. -/
inductive Breach
  | neverReserved (id : EntityId)
  | filledTwice (id : EntityId)
  | neverFilled (id : EntityId)
  | indexSignatureBody (decl : DeclId)
  | moduleWithoutScope (id : EntityId)
  | described (details : String)
deriving DecidableEq

/-- The breach in words. -/
def Breach.message : Breach → String
  | neverReserved id => id.text ++ " was never reserved"
  | filledTwice id => id.text ++ " was filled twice"
  | neverFilled id => id.text ++ " was reserved but never filled"
  | indexSignatureBody decl => "index signature " ++ decl.text ++ " reached the declaration builder"
  | moduleWithoutScope id => "module " ++ id.text ++ " is not namespace-like"
  | described details => details

/-- What can go wrong. -/
inductive Failure
  | rootNotObject
  | childrenNotArray
  | moduleNotFound (name : String)
  /-- The text of the document, perhaps from a file, is no JSON value. -/
  | malformedText (file : Option String) (cause : ReadError)
  | unreadableFile (file : String) (cause : FileError)
  | missingOptionsFile (file : String)
  | unsuitableOptions
  | breach (cause : Breach)
deriving DecidableEq

/-- The failure in words. -/
def Failure.message : Failure → String
  | rootNotObject => "invalid declaration tree root: expected a JSON object"
  | childrenNotArray => "invalid declaration tree root: \x60children\x60 is not an array"
  | moduleNotFound name => "module not found: '" ++ name ++ "'"
  | malformedText none _ => "failed to parse declaration tree: <json>"
  | malformedText (some file) _ => "failed to parse declaration tree '" ++ file ++ "': <json>"
  | unreadableFile file _ => "failed to read declaration tree '" ++ file ++ "': <io>"
  | missingOptionsFile file => "invalid reflector options: options file '" ++ file ++ "' does not exist"
  | unsuitableOptions => "invalid reflector options: <config>"
  | breach cause => "resolution invariant violated: " ++ cause.message

end EntityGraph

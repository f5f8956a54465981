import EntityGraph.Build.Pass
import EntityGraph.Failure

/-!
# Graphs of entities

A graph is what a document resolves to: its entities, which refer to each other by their places, its modules, the
entities of its declarations, the findings on the way, the references that were followed and the declarations that were
built. A graph comes from a value (`Graph.ofJson`), a text (`Graph.ofText`) or a file (`Graph.ofFile`), and does not
change.
-/

namespace EntityGraph

/-- A resolved document. -/
structure Graph where
  entities : Array Entity
  /-- The modules at the top, in order. -/
  modules : List EntityId
  /-- The entity of each declaration that was reached. -/
  declarations : List (DeclId × EntityId)
  diagnostics : List Diagnostic
  /-- The references that were followed, in order, each with the entity it was found to stand for. -/
  references : List (DeclId × EntityId)
  /-- The declarations of which the entity was begun, in order, once for each time. -/
  begun : List DeclId
  options : Options

namespace Graph

/-- The graph of a finished pass. -/
def ofPass (options : Options) (modules : List EntityId) (s : Build.State) : Except Breach Graph := do
  let entities ← s.arena.freeze
  return {
    entities := entities.toArray, modules, declarations := s.resolutions.entities
    diagnostics := s.diagnostics.toList, references := s.references.reverse, begun := s.begun.reverse, options }

/-- Resolves an object. -/
def resolve (root : Json) (options : Options) : Except Breach Graph := do
  let scan := Index.ofJson root
  let (modules, s) ← (Build.pass root).run { options, index := scan.index } |>.run { diagnostics := scan.found }
  ofPass options modules s

/-- What keeps a value from being the root of a document: a root is an object, and its children are an array. -/
def rootFault? (root : Json) : Option Failure :=
  if !root.isObject then some .rootNotObject
  else if root.has "children" && (root.listAt? "children").isNone then some .childrenNotArray
  else none

/-- The graph of a document. -/
def ofJson (root : Json) (options : Options) : Except Failure Graph :=
  match rootFault? root with
  | some fault => .error fault
  | none => (resolve root options).mapError .breach

/-- The graph of a document written as text. -/
def ofText (text : String) (options : Options) : Except Failure Graph :=
  match Json.ofText text with
  | .ok root => ofJson root options
  | .error cause => .error (.malformedText none cause)

/-- The graph of a document in a file. -/
def ofFile (file : File) (options : Options) : Except Failure Graph :=
  match file.text with
  | .error cause => .error (.unreadableFile file.name cause)
  | .ok text =>
    match Json.ofText text with
    | .ok root => ofJson root options
    | .error cause => .error (.malformedText (some file.name) cause)

end Graph

end EntityGraph

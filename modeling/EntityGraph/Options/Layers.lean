import EntityGraph.Options.Basic
import EntityGraph.Options.Setting
import EntityGraph.Failure

/-!
# Layers of options

Options come from three layers: the defaults, a file, and variables of the environment. A later layer wins key by key
(`Layer.above`), and only what remains has to fit the options (`Options.ofLayer?`).
-/

namespace EntityGraph

/-- The settings that a source gives, by key. -/
abbrev Layer := String → Option Setting

namespace Layer

/-- The settings of a layer, and of a lower one for the keys that the layer leaves open. -/
def above (upper lower : Layer) : Layer := fun key => (upper key).or (lower key)

/-- The layer with no settings. -/
def empty : Layer := fun _ => none

/-- The layer with one setting. -/
def single (key : String) (setting : Setting) : Layer := fun k => if k = key then some setting else none

/-- The settings of an object as it is written, if all its marks fit. Of settings with one key the last counts. -/
def ofJson? : Json → Option Layer
  | .obj fields =>
    if fields.all fun field => Setting.marksFit field.2 then
      some fun key => (fields.reverse.lookup key).map Setting.ofJson
    else none
  | _ => none

/-- The layer of a file. A directory has no settings. -/
def ofFile (file : File) : Except Failure Layer :=
  match file.text with
  | .error .notFound => .error (.missingOptionsFile file.name)
  | .error .isDirectory => .ok empty
  | .error .invalidData => .error .unsuitableOptions
  | .ok text =>
    match Json.asWritten text with
    | .error _ => .error .unsuitableOptions
    | .ok v =>
      match ofJson? v with
      | some layer => .ok layer
      | none => .error .unsuitableOptions

/-- What the names of the variables start with, in any case. -/
def envStart : String := "FOB_REFLECT_"

/-- A name without its start, if it starts as the variables do. -/
def afterStart? (name : String) : Option String :=
  let name := Text.trim name
  if (name.toList.take envStart.length).map Char.toLower = envStart.toList.map Char.toLower then
    some (String.ofList (name.toList.drop envStart.length))
  else none

/-- The parts of a name between its dots. -/
def parts (cs : List Char) : List (List Char) := cs.splitOn '.'

/-- The layer of one variable. A name with dots gives its first part a setting that suits no option. -/
def ofVariable (name value : String) : Layer :=
  match afterStart? name with
  | none => empty
  | some rest =>
    let parts := parts ((Text.trim rest).toList.map Char.toLower)
    if parts.any List.isEmpty then empty
    else
      match parts with
      | [key] => single (String.ofList key) (Setting.ofText value)
      | key :: _ => single (String.ofList key) .unsuitable
      | [] => empty

/-- The layer of the variables, of which a later one wins. -/
def ofEnvironment (vars : List (String × String)) : Layer :=
  vars.foldl (fun lower (name, value) => (ofVariable name value).above lower) empty

end Layer

namespace Options

/-- The options with the settings of a layer, if all its settings fit. -/
def ofLayer? (layer : Layer) : Option Options := do
  let field {α : Type} (key : String) (default : α) (read : Setting → Option α) : Option α :=
    match layer key with
    | some setting => read setting
    | none => some default
  return {
    skipExternalModules := ← field "skip_external_modules" false Setting.flag?
    skipPrivateMembers := ← field "skip_private_members" false Setting.flag?
    maxTypeDepth := ← field "max_type_depth" 256 Setting.number? }

/-- The options from an optional file and the environment, whose variables are given in order. -/
def load (file : Option File) (vars : List (String × String)) : Except Failure Options := do
  let fileLayer ← match file with
    | some file => Layer.ofFile file
    | none => pure Layer.empty
  match ofLayer? ((Layer.ofEnvironment vars).above fileLayer) with
  | some options => return options
  | none => .error .unsuitableOptions

end Options

end EntityGraph

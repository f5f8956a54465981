/-!
# Declaration tags

The tag of a node says in words what it declares. `Tag.ofText?` knows exactly the texts of `Tag.text`.
-/

namespace EntityGraph

/-- What a node says that it declares. -/
inductive Tag
  | externalModule
  | namespaceModule
  | enumeration
  | enumerationMember
  | varDecl
  | function
  | classDecl
  | interfaceDecl
  | constructor
  | property
  | method
  | callSignature
  | indexSignature
  | constructorSignature
  | parameter
  | typeLiteral
  | typeParameter
  | accessor
  | getSignature
  | setSignature
  | objectLiteral
  | typeAlias
  | event
deriving DecidableEq

namespace Tag

/-- The tag as a node writes it. -/
def text : Tag → String
  | externalModule => "External module"
  | namespaceModule => "Module"
  | enumeration => "Enumeration"
  | enumerationMember => "Enumeration member"
  | varDecl => "Variable"
  | function => "Function"
  | classDecl => "Class"
  | interfaceDecl => "Interface"
  | constructor => "Constructor"
  | property => "Property"
  | method => "Method"
  | callSignature => "Call signature"
  | indexSignature => "Index signature"
  | constructorSignature => "Constructor signature"
  | parameter => "Parameter"
  | typeLiteral => "Type literal"
  | typeParameter => "Type parameter"
  | accessor => "Accessor"
  | getSignature => "Get signature"
  | setSignature => "Set signature"
  | objectLiteral => "Object literal"
  | typeAlias => "Type alias"
  | event => "Event"

/-- Every tag. -/
def all : List Tag :=
  [externalModule, namespaceModule, enumeration, enumerationMember, varDecl, function, classDecl, interfaceDecl,
    constructor, property, method, callSignature, indexSignature, constructorSignature, parameter, typeLiteral,
    typeParameter, accessor, getSignature, setSignature, objectLiteral, typeAlias, event]

/-- The tag that a text writes. -/
def ofText? (s : String) : Option Tag := all.find? fun tag => tag.text = s

theorem mem_all (tag : Tag) : tag ∈ all := by cases tag <;> decide

theorem ofText?_text (tag : Tag) : ofText? tag.text = some tag := by cases tag <;> decide

theorem text_of_ofText? {s : String} {tag : Tag} (h : ofText? s = some tag) : tag.text = s := by
  simpa using List.find?_some h

/-- Whether the tag is one of a plain typed slot: a variable, a property or an event. -/
def isSlot : Tag → Bool
  | varDecl | property | event => true
  | _ => false

/-- Whether the tag is one of a signature in a list of signatures. -/
def isSignature : Tag → Bool
  | callSignature | constructorSignature => true
  | _ => false

end Tag

end EntityGraph

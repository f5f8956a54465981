import EntityGraph.Decl.Node

/-!
# Entities

An entity stands for a declaration or for a type expression. Entities refer to each other by `EntityId`, so they form a
graph in which a class may have a property of its own type.

- Scopes (`Scope`: modules and namespaces) hold declarations, in one list and again by what they are.
- Shapes (`Shape`: interfaces, classes and literals) hold properties, methods and what else is a member.
- The other entities are enumerations, aliases, properties, callables and type expressions.
-/

namespace EntityGraph

/-- The place of an entity among the entities of its graph. -/
structure EntityId where
  index : Nat
deriving DecidableEq, Inhabited

/-- An entity's place as messages show it. -/
def EntityId.text (id : EntityId) : String := "mirror#" ++ toString id.index

/-- A module or a namespace. Every member stands in `members` and in one of the other lists. -/
structure Scope where
  name : String
  /-- The file of a module. -/
  filePath : Option String
  id : DeclId
  flags : Flags
  comment : Option DocComment
  members : List EntityId := []
  namespaces : List EntityId := []
  properties : List EntityId := []
  interfaces : List EntityId := []
  classes : List EntityId := []
  enums : List EntityId := []
  typeAliases : List EntityId := []
  functions : List EntityId := []
  objectLiterals : List EntityId := []
deriving DecidableEq, Inhabited

/-- An index signature: `[parameterName: indexType]: valueType`. -/
structure IndexSignature where
  parameterName : String
  indexType : EntityId
  valueType : EntityId
  comment : Option DocComment
deriving DecidableEq, Inhabited

/-- The body of an interface, a class or a literal. -/
structure Shape where
  name : String
  id : DeclId
  flags : Flags
  comment : Option DocComment
  typeParameters : List String
  typeArguments : List EntityId
  extendedTypes : List EntityId
  implementedTypes : List EntityId
  /-- All members, also those that stand in none of the lists below. -/
  members : List EntityId := []
  /-- The properties and accessors, by name. -/
  namedProperties : List (String × EntityId) := []
  methods : List EntityId := []
  /-- The literals among the members. -/
  objectLiterals : List EntityId := []
  indexSignature : Option IndexSignature := none
deriving DecidableEq, Inhabited

namespace Shape

/-- The properties and accessors. -/
def properties (s : Shape) : List EntityId := s.namedProperties.map (·.2)

/-- The names of `properties`, in the same order. -/
def propertyNames (s : Shape) : List String := s.namedProperties.map (·.1)

/-- The first property or accessor of a name. -/
def property? (name : String) (s : Shape) : Option EntityId := s.namedProperties.lookup name

end Shape

/-- A class: its body and what only classes have. -/
structure ClassShape where
  body : Shape
  isAbstract : Bool
  /-- The first constructor among the members. -/
  constructorId : Option EntityId
deriving DecidableEq, Inhabited

/-- A member of an enumeration. -/
structure EnumMember where
  name : String
  defaultValue : Option String
  comment : Option DocComment
deriving DecidableEq, Inhabited

/-- An enumeration. -/
structure Enumeration where
  name : String
  id : DeclId
  flags : Flags
  comment : Option DocComment
  members : List EnumMember
deriving DecidableEq, Inhabited

/-- A name for a type. -/
structure TypeAlias where
  name : String
  id : DeclId
  comment : Option DocComment
  typeParameters : List String
  target : EntityId
deriving DecidableEq, Inhabited

/-- A property, a variable, or a pair of a getter and a setter. -/
structure Property where
  name : String
  id : DeclId
  flags : Flags
  comment : Option DocComment
  type : EntityId
  /-- The initial value as text. -/
  defaultValue : Option String
  readable : Bool
  writeable : Bool
  /-- Whether a getter and a setter stand behind the property. -/
  isAccessor : Bool
deriving DecidableEq, Inhabited

/-- A parameter of a signature. -/
structure Parameter where
  name : Option String
  type : EntityId
  isOptional : Bool
  defaultValue : Option String
  comment : Option DocComment
deriving DecidableEq, Inhabited

/-- One way to call a callable. -/
structure Signature where
  comment : Option DocComment
  typeParameters : List String
  parameters : List Parameter
  returnType : EntityId
deriving DecidableEq, Inhabited

/-- What a callable is. -/
inductive CallableKind
  | function
  | method
  | constructor
deriving DecidableEq, Inhabited

/-- A function, method or constructor with all its signatures. -/
structure Callable where
  name : String
  id : DeclId
  kind : CallableKind
  flags : Flags
  comment : Option DocComment
  signatures : List Signature
  typeArguments : List EntityId
deriving DecidableEq, Inhabited

/-- What a type operator stands before, as far as it is known. -/
structure OperatorTarget where
  /-- The form of the type, as a type expression names it. -/
  form : String
  name : Option String
deriving DecidableEq, Inhabited

/-- What stands for a declaration or a type expression. -/
inductive Entity
  | primitive (name : String)
  | unknown (name : String)
  | array (element : EntityId) (arguments : List EntityId)
  | union (members arguments : List EntityId)
  | intersection (members arguments : List EntityId)
  | stringLiteral (value : String) (arguments : List EntityId)
  | typeParameter (name : String) (arguments : List EntityId)
  | typeOperator (operator : String) (target : OperatorTarget) (arguments : List EntityId)
  | externalReference (name : String) (arguments : List EntityId)
  | moduleDecl (scope : Scope)
  | namespaceDecl (scope : Scope)
  | classDecl (shape : ClassShape)
  | interfaceDecl (shape : Shape)
  | interfaceLiteral (shape : Shape)
  | objectLiteral (shape : Shape)
  | enumDecl (enumeration : Enumeration)
  | typeAlias (definition : TypeAlias)
  | property (property : Property)
  | callable (callable : Callable)
deriving DecidableEq, Inhabited

end EntityGraph

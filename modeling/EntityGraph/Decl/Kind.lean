/-!
# Kinds and positions

A declaration is of one of fourteen kinds (`DeclKind`). Which one can depend on the place from which it is reached
(`Position`): a literal denotes a value in an initializer and a type elsewhere.
-/

namespace EntityGraph

/-- The place from which a declaration is reached. -/
inductive Position
  /-- Directly in a module or namespace. -/
  | namespaceBody
  /-- In the body of an interface, class or interface literal. -/
  | interfaceBody
  /-- In the body of an object literal. -/
  | objectLiteralBody
  /-- The type of a property, parameter, result or alias. -/
  | declaredType
  /-- The type of a value written in an object literal. -/
  | initializer
  /-- The target of a reference. -/
  | reference
deriving DecidableEq, Inhabited

namespace Position

/-- Whether a literal at this place denotes a value. -/
def isInitializer : Position → Bool
  | initializer | objectLiteralBody => true
  | _ => false

/-- Whether a signature at this place is a member of a body. -/
def isMember : Position → Bool
  | interfaceBody | objectLiteralBody => true
  | _ => false

end Position

/-- What a declaration node declares. -/
inductive DeclKind
  | moduleDecl
  | namespaceDecl
  | classDecl
  | interfaceDecl
  | enumDecl
  | typeAlias
  | property
  | accessor
  | function
  | method
  | constructor
  | interfaceLiteral
  | objectLiteral
  | indexSignature
deriving DecidableEq, Inhabited

/-- The kind in one word. -/
def DeclKind.label : DeclKind → String
  | moduleDecl => "Module"
  | namespaceDecl => "Namespace"
  | classDecl => "Class"
  | interfaceDecl => "Interface"
  | enumDecl => "Enum"
  | typeAlias => "TypeAlias"
  | property => "Property"
  | accessor => "Accessor"
  | function => "Function"
  | method => "Method"
  | constructor => "Constructor"
  | interfaceLiteral => "InterfaceLiteral"
  | objectLiteral => "ObjectLiteral"
  | indexSignature => "IndexSignature"

end EntityGraph

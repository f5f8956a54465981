import EntityGraph.Entity.Kind

/-!
# Views of an entity

What an entity has in common with others (`Entity.name?`, `Entity.typeArguments`, `Entity.comment?`) and what it is in
particular (`Entity.scope?`, `Entity.shape?` and so on, which answer for the entities of that form only).
-/

namespace EntityGraph

namespace Callable

/-- Whether a callable is a method. -/
def isMethod (c : Callable) : Bool := c.kind = .method

/-- Whether a callable is a constructor. -/
def isConstructor (c : Callable) : Bool := c.kind = .constructor

/-- Whether a callable belongs to its class and not to the instances. -/
def isStatic (c : Callable) : Bool := c.flags.isStatic

end Callable

namespace Property

/-- Whether a property belongs to its class and not to the instances. -/
def isStatic (p : Property) : Bool := p.flags.isStatic

/-- Whether a property may be missing. -/
def isOptional (p : Property) : Bool := p.flags.isOptional

end Property

namespace Entity

/-- The scope of a module or namespace. -/
def scope? : Entity → Option Scope
  | moduleDecl s | namespaceDecl s => some s
  | _ => none

/-- The body of an interface, a class or a literal. -/
def shape? : Entity → Option Shape
  | classDecl c => some c.body
  | interfaceDecl s | interfaceLiteral s | objectLiteral s => some s
  | _ => none

/-- A class. -/
def class? : Entity → Option ClassShape
  | classDecl c => some c
  | _ => none

/-- An enumeration. -/
def enumeration? : Entity → Option Enumeration
  | enumDecl e => some e
  | _ => none

/-- A type alias. -/
def alias? : Entity → Option TypeAlias
  | typeAlias a => some a
  | _ => none

/-- A property or accessor. -/
def property? : Entity → Option Property
  | property p => some p
  | _ => none

/-- A function, method or constructor. -/
def callable? : Entity → Option Callable
  | callable c => some c
  | _ => none

/-- The element and the type arguments of an array. -/
def array? : Entity → Option (EntityId × List EntityId)
  | array element arguments => some (element, arguments)
  | _ => none

/-- The members and the type arguments of a union. -/
def union? : Entity → Option (List EntityId × List EntityId)
  | union members arguments => some (members, arguments)
  | _ => none

/-- The members and the type arguments of an intersection. -/
def intersection? : Entity → Option (List EntityId × List EntityId)
  | intersection members arguments => some (members, arguments)
  | _ => none

/-- The name and the type arguments of a reference to what is not in the document. -/
def externalReference? : Entity → Option (String × List EntityId)
  | externalReference name arguments => some (name, arguments)
  | _ => none

/-- The value and the type arguments of a string literal. -/
def stringLiteral? : Entity → Option (String × List EntityId)
  | stringLiteral value arguments => some (value, arguments)
  | _ => none

/-- The name and the type arguments of a type parameter. -/
def typeParameter? : Entity → Option (String × List EntityId)
  | typeParameter name arguments => some (name, arguments)
  | _ => none

/-- The operator, its target and the type arguments of a type operator. -/
def typeOperator? : Entity → Option (String × OperatorTarget × List EntityId)
  | typeOperator operator target arguments => some (operator, target, arguments)
  | _ => none

/-- The name of an entity that has one. -/
def name? : Entity → Option String
  | primitive name | unknown name | typeParameter name _ | externalReference name _ => some name
  | moduleDecl s | namespaceDecl s => some s.name
  | classDecl c => some c.body.name
  | interfaceDecl s | interfaceLiteral s | objectLiteral s => some s.name
  | enumDecl e => some e.name
  | typeAlias a => some a.name
  | property p => some p.name
  | callable c => some c.name
  | array _ _ | union _ _ | intersection _ _ | stringLiteral _ _ | typeOperator _ _ _ => none

/-- The type arguments of an entity that can have some. -/
def typeArguments : Entity → List EntityId
  | array _ arguments | union _ arguments | intersection _ arguments | stringLiteral _ arguments
  | typeParameter _ arguments | typeOperator _ _ arguments | externalReference _ arguments => arguments
  | classDecl c => c.body.typeArguments
  | interfaceDecl s | interfaceLiteral s | objectLiteral s => s.typeArguments
  | callable c => c.typeArguments
  | primitive _ | unknown _ | moduleDecl _ | namespaceDecl _ | enumDecl _ | typeAlias _ | property _ => []

/-- The comment of a declaration, itself perhaps absent; none for what is no declaration. -/
def comment? : Entity → Option (Option DocComment)
  | moduleDecl s | namespaceDecl s => some s.comment
  | classDecl c => some c.body.comment
  | interfaceDecl s | interfaceLiteral s | objectLiteral s => some s.comment
  | enumDecl e => some e.comment
  | typeAlias a => some a.comment
  | property p => some p.comment
  | callable c => some c.comment
  | _ => none

/-- The id of the declaration that an entity stands for. -/
def declId? : Entity → Option DeclId
  | moduleDecl s | namespaceDecl s => some s.id
  | classDecl c => some c.body.id
  | interfaceDecl s | interfaceLiteral s | objectLiteral s => some s.id
  | enumDecl e => some e.id
  | typeAlias a => some a.id
  | property p => some p.id
  | callable c => some c.id
  | _ => none

/-- Whether an entity is one of the types `string`, `number`, `boolean` and `undefined`, or a string literal. -/
def isPrimitiveType : Entity → Bool
  | primitive name => ["string", "number", "boolean", "undefined"].contains name
  | stringLiteral _ _ => true
  | _ => false

end Entity

end EntityGraph

import EntityGraph.Entity.Basic

/-!
# The kinds of entities

Every entity is of one kind (`Entity.kind`). Accessors are properties of a kind of their own, and functions, methods
and constructors share the form of a callable.
-/

namespace EntityGraph

/-- What an entity stands for. -/
inductive EntityKind
  | accessor
  | array
  | classDecl
  | constructor
  | enumDecl
  | externalReference
  | function
  | indexSignature
  | interfaceDecl
  | interfaceLiteral
  | intersection
  | method
  | moduleDecl
  | namespaceDecl
  | objectLiteral
  | primitive
  | property
  | stringLiteral
  | typeAlias
  | typeOperator
  | typeParameter
  | union
  | unknown
deriving DecidableEq, Inhabited

namespace EntityKind

/-- The kind in one word. -/
def label : EntityKind → String
  | accessor => "Accessor"
  | array => "Array"
  | classDecl => "Class"
  | constructor => "Constructor"
  | enumDecl => "Enum"
  | externalReference => "ExternalTypeReference"
  | function => "Function"
  | indexSignature => "IndexSignature"
  | interfaceDecl => "Interface"
  | interfaceLiteral => "InterfaceLiteral"
  | intersection => "Intersection"
  | method => "Method"
  | moduleDecl => "Module"
  | namespaceDecl => "Namespace"
  | objectLiteral => "ObjectLiteral"
  | primitive => "Primitive"
  | property => "Property"
  | stringLiteral => "StringLiteral"
  | typeAlias => "TypeAlias"
  | typeOperator => "TypeOperator"
  | typeParameter => "TypeParameter"
  | union => "Union"
  | unknown => "Unknown"

/-- The kinds that have properties and methods. -/
def isShape : EntityKind → Bool
  | interfaceDecl | classDecl | interfaceLiteral | objectLiteral => true
  | _ => false

/-- The kinds that have signatures to call. -/
def isCallable : EntityKind → Bool
  | function | method | constructor => true
  | _ => false

/-- The kinds that hold declarations. -/
def isScope : EntityKind → Bool
  | moduleDecl | namespaceDecl => true
  | _ => false

/-- The kinds made of other types or of members. -/
def isComplex (k : EntityKind) : Bool :=
  k.isShape ||
    match k with
    | enumDecl | union | intersection | array => true
    | _ => false

/-- The kinds of types that are no declarations of a document. -/
def isBuiltin : EntityKind → Bool
  | primitive | unknown | array | union | intersection | stringLiteral | typeOperator => true
  | _ => false

end EntityKind

/-- The kind of a callable's entity. -/
def CallableKind.entityKind : CallableKind → EntityKind
  | function => .function
  | method => .method
  | constructor => .constructor

/-- The kind of an index signature. -/
def IndexSignature.kind (_ : IndexSignature) : EntityKind := .indexSignature

/-- The kind of an entity. -/
def Entity.kind : Entity → EntityKind
  | primitive _ => .primitive
  | unknown _ => .unknown
  | array _ _ => .array
  | union _ _ => .union
  | intersection _ _ => .intersection
  | stringLiteral _ _ => .stringLiteral
  | typeParameter _ _ => .typeParameter
  | typeOperator _ _ _ => .typeOperator
  | externalReference _ _ => .externalReference
  | moduleDecl _ => .moduleDecl
  | namespaceDecl _ => .namespaceDecl
  | classDecl _ => .classDecl
  | interfaceDecl _ => .interfaceDecl
  | interfaceLiteral _ => .interfaceLiteral
  | objectLiteral _ => .objectLiteral
  | enumDecl _ => .enumDecl
  | typeAlias _ => .typeAlias
  | property p => if p.isAccessor then .accessor else .property
  | callable c => c.kind.entityKind

end EntityGraph

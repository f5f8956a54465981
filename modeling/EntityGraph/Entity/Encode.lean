import EntityGraph.Entity.Kind

/-!
# Entities as JSON

An entity is written as one object that holds its fields and, under `mirrorKind`, the label of its kind
(`Entity.toJson`). An optional field that is absent is left out.
-/

namespace EntityGraph

/-- An entity's place as the number that it is. -/
def EntityId.toJson (id : EntityId) : Json := .ofNat id.index

/-- Places as an array. -/
def EntityId.listToJson (ids : List EntityId) : Json := .ofList EntityId.toJson ids

/-- Texts as an array. -/
def textsToJson (texts : List String) : Json := .ofList .str texts

/-- The fields of a scope. -/
def Scope.fields (s : Scope) : List (String × Json) :=
  [("name", .str s.name), ("decl_id", s.id.toJson), ("flags", s.flags.toJson),
    ("comment", DocComment.toJson s.comment),
    ("members", EntityId.listToJson s.members), ("namespaces", EntityId.listToJson s.namespaces),
    ("properties", EntityId.listToJson s.properties), ("interfaces", EntityId.listToJson s.interfaces),
    ("classes", EntityId.listToJson s.classes), ("enums", EntityId.listToJson s.enums),
    ("type_aliases", EntityId.listToJson s.typeAliases), ("functions", EntityId.listToJson s.functions),
    ("object_literals", EntityId.listToJson s.objectLiterals)]
  ++ Json.optionalField "original_name" .str s.filePath

/-- A scope as an object. -/
def Scope.toJson (s : Scope) : Json := .ofFields s.fields

/-- An index signature as an object. -/
def IndexSignature.toJson (s : IndexSignature) : Json :=
  .ofFields [("parameter_name", .str s.parameterName), ("index_type", s.indexType.toJson),
    ("value_type", s.valueType.toJson), ("comment", DocComment.toJson s.comment)]

/-- The fields of a shape. -/
def Shape.fields (s : Shape) : List (String × Json) :=
  [("name", .str s.name), ("decl_id", s.id.toJson), ("flags", s.flags.toJson),
    ("comment", DocComment.toJson s.comment), ("type_parameters", textsToJson s.typeParameters),
    ("type_arguments", EntityId.listToJson s.typeArguments),
    ("extended_types", EntityId.listToJson s.extendedTypes),
    ("implemented_types", EntityId.listToJson s.implementedTypes),
    ("members", EntityId.listToJson s.members), ("properties", EntityId.listToJson s.properties),
    ("methods", EntityId.listToJson s.methods), ("object_literals", EntityId.listToJson s.objectLiterals),
    ("property_names", textsToJson s.propertyNames)]
  ++ Json.optionalField "index_signature" IndexSignature.toJson s.indexSignature

/-- The fields of a class. -/
def ClassShape.fields (c : ClassShape) : List (String × Json) :=
  [("body", .ofFields c.body.fields), ("is_abstract", .bool c.isAbstract)]
  ++ Json.optionalField "constructor" EntityId.toJson c.constructorId

/-- A member of an enumeration as an object. -/
def EnumMember.toJson (m : EnumMember) : Json :=
  .ofFields ([("name", .str m.name), ("comment", DocComment.toJson m.comment)]
    ++ Json.optionalField "default_value" .str m.defaultValue)

/-- The fields of an enumeration. -/
def Enumeration.fields (e : Enumeration) : List (String × Json) :=
  [("name", .str e.name), ("decl_id", e.id.toJson), ("flags", e.flags.toJson),
    ("comment", DocComment.toJson e.comment), ("members", .ofList EnumMember.toJson e.members)]

/-- The fields of an alias. -/
def TypeAlias.fields (a : TypeAlias) : List (String × Json) :=
  [("name", .str a.name), ("decl_id", a.id.toJson), ("comment", DocComment.toJson a.comment),
    ("type_parameters", textsToJson a.typeParameters), ("target_definition", a.target.toJson)]

/-- The fields of a property. -/
def Property.fields (p : Property) : List (String × Json) :=
  [("name", .str p.name), ("decl_id", p.id.toJson), ("flags", p.flags.toJson),
    ("comment", DocComment.toJson p.comment), ("type", p.type.toJson), ("readable", .bool p.readable),
    ("writeable", .bool p.writeable), ("is_static", .bool p.flags.isStatic),
    ("is_optional", .bool p.flags.isOptional), ("is_accessor", .bool p.isAccessor)]
  ++ Json.optionalField "default_value" .str p.defaultValue

/-- A parameter as an object. -/
def Parameter.toJson (p : Parameter) : Json :=
  .ofFields ([("type", p.type.toJson), ("is_optional", .bool p.isOptional),
      ("comment", DocComment.toJson p.comment)]
    ++ Json.optionalField "name" .str p.name ++ Json.optionalField "default_value" .str p.defaultValue)

/-- A signature as an object. -/
def Signature.toJson (s : Signature) : Json :=
  .ofFields [("comment", DocComment.toJson s.comment), ("type_parameters", textsToJson s.typeParameters),
    ("parameters", .ofList Parameter.toJson s.parameters), ("return_type", s.returnType.toJson)]

/-- The fields of a callable. -/
def Callable.fields (c : Callable) : List (String × Json) :=
  [("name", .str c.name), ("decl_id", c.id.toJson), ("kind", .str c.kind.entityKind.label),
    ("flags", c.flags.toJson), ("comment", DocComment.toJson c.comment),
    ("signatures", .ofList Signature.toJson c.signatures),
    ("type_arguments", EntityId.listToJson c.typeArguments)]

/-- What an operator stands before, as an object. -/
def OperatorTarget.toJson (t : OperatorTarget) : Json :=
  .ofFields ([("type_name", .str t.form)] ++ Json.optionalField "name" .str t.name)

namespace Entity

/-- The fields of an entity without its kind. -/
def fields : Entity → List (String × Json)
  | primitive name | unknown name => [("name", .str name)]
  | array element arguments =>
    [("element_type", element.toJson), ("type_arguments", EntityId.listToJson arguments)]
  | union members arguments | intersection members arguments =>
    [("members", EntityId.listToJson members), ("type_arguments", EntityId.listToJson arguments)]
  | stringLiteral value arguments => [("value", .str value), ("type_arguments", EntityId.listToJson arguments)]
  | typeParameter name arguments | externalReference name arguments =>
    [("name", .str name), ("type_arguments", EntityId.listToJson arguments)]
  | typeOperator operator target arguments =>
    [("operator", .str operator), ("target", target.toJson), ("type_arguments", EntityId.listToJson arguments)]
  | moduleDecl s | namespaceDecl s => s.fields
  | classDecl c => c.fields
  | interfaceDecl s | interfaceLiteral s | objectLiteral s => s.fields
  | enumDecl e => e.fields
  | typeAlias a => a.fields
  | property p => p.fields
  | callable c => c.fields

/-- An entity as an object. -/
def toJson (m : Entity) : Json := .ofFields (("mirrorKind", .str m.kind.label) :: m.fields)

end Entity

end EntityGraph

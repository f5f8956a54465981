import EntityGraph.Entity.Encode
import EntityGraph.Proofs.Columns

/-!
# Writing loses nothing

An entity takes one of nineteen forms, and each form has its columns (`Form.columns`). Whatever stands in the columns of
a form (`FilledForm`), also what no builder puts there, can be read off the object that is written for it: the object
says the kind under `mirrorKind`, the kind says the form, and the other keys say what stands in the columns. Entities
are filled forms (`Entity.filled`), and so they are written without loss too (`Entity.writesWhole`).
-/

namespace EntityGraph

open Function

/-! ## The parts of entities -/

namespace Json

theorem str_injective : Injective Json.str := fun _ _ h => Json.str.inj h

theorem bool_injective : Injective Json.bool := fun _ _ h => Json.bool.inj h

theorem ofNat_injective : Injective Json.ofNat := fun _ _ h => Number.natural.inj (Json.num.inj h)

theorem ofList_injective {α : Type} {encode : α → Json} (h : Injective encode) : Injective (Json.ofList encode) :=
  fun _ _ heq => List.map_injective_iff.mpr h (Json.arr.inj heq)

end Json

theorem EntityId.toJson_injective : Injective EntityId.toJson :=
  fun ⟨_⟩ ⟨_⟩ h => congrArg EntityId.mk (Json.ofNat_injective h)

theorem DeclId.toJson_injective : Injective DeclId.toJson :=
  fun ⟨_⟩ ⟨_⟩ h => congrArg DeclId.mk (Json.ofNat_injective h)

/-- An id is told apart from the `null` that stands for no id. -/
theorem DeclId.ofOption_toJson_injective : Injective (Json.ofOption DeclId.toJson)
  | none, none, _ => rfl
  | some _, some _, h => congrArg some (DeclId.toJson_injective h)

namespace Column

def text (key : String) : Column := always key .str Json.str_injective

def optionalText (key : String) : Column := optional key .str Json.str_injective

def texts (key : String) : Column := always key textsToJson (Json.ofList_injective Json.str_injective)

def truth (key : String) : Column := always key .bool Json.bool_injective

def place (key : String) : Column := always key EntityId.toJson EntityId.toJson_injective

def optionalPlace (key : String) : Column := optional key EntityId.toJson EntityId.toJson_injective

def places (key : String) : Column := always key EntityId.listToJson (Json.ofList_injective EntityId.toJson_injective)

/-- The id of a declaration, or `null`. -/
def declared (key : String) : Column := always key (Json.ofOption DeclId.toJson) DeclId.ofOption_toJson_injective

end Column

theorem Flags.toJson_injective : Injective Flags.toJson := by
  refine Column.injective_of_row [.truth "isConst", .truth "isExported", .truth "isExternal", .truth "isOptional",
    .truth "isPrivate", .truth "isProtected", .truth "isPublic", .truth "isStatic", .truth "isAbstract"] (by decide)
    (fun f => (f.isConst, f.isExported, f.isExternal, f.isOptional, f.isPrivate, f.isProtected, f.isPublic, f.isStatic,
      f.isAbstract, ())) ?_ fun _ => rfl
  rintro ⟨⟩ ⟨⟩ h
  cases h
  rfl

theorem CommentTag.toJson_injective : Injective CommentTag.toJson := by
  refine Column.injective_of_row [.text "tag", .text "text", .optionalText "param"] (by decide)
    (fun t => (t.name, t.text, t.param, ())) ?_ ?_
  · rintro ⟨⟩ ⟨⟩ h
    cases h
    rfl
  · rintro ⟨_, _, _ | _⟩ <;> rfl

/-- A comment without text is told apart from no comment. -/
theorem DocComment.toJson_injective : Injective DocComment.toJson := by
  refine Column.injective_of_row [.truth "present", .text "short_text", .text "long_text",
    .always "tags" (Json.ofList CommentTag.toJson) (Json.ofList_injective CommentTag.toJson_injective)] (by decide)
    (fun c => (c.isSome, (c.map (·.shortText)).getD "", (c.map (·.longText)).getD "", (c.map (·.tags)).getD [], ()))
    ?_ ?_
  · rintro (_ | ⟨_, _, _⟩) (_ | ⟨_, _, _⟩) h <;> cases h
    · rfl
    · rfl
  · rintro (_ | _) <;> rfl

namespace Column

def flags (key : String) : Column := always key Flags.toJson Flags.toJson_injective

def comment (key : String) : Column := always key DocComment.toJson DocComment.toJson_injective

end Column

theorem IndexSignature.toJson_injective : Injective IndexSignature.toJson := by
  refine Column.injective_of_row
    [.text "parameter_name", .place "index_type", .place "value_type", .comment "comment"] (by decide)
    (fun s => (s.parameterName, s.indexType, s.valueType, s.comment, ())) ?_ fun _ => rfl
  rintro ⟨⟩ ⟨⟩ h
  cases h
  rfl

theorem EnumMember.toJson_injective : Injective EnumMember.toJson := by
  refine Column.injective_of_row [.text "name", .comment "comment", .optionalText "default_value"] (by decide)
    (fun m => (m.name, m.comment, m.defaultValue, ())) ?_ ?_
  · rintro ⟨⟩ ⟨⟩ h
    cases h
    rfl
  · rintro ⟨_, _ | _, _⟩ <;> rfl

theorem Parameter.toJson_injective : Injective Parameter.toJson := by
  refine Column.injective_of_row [.place "type", .truth "is_optional", .comment "comment", .optionalText "name",
    .optionalText "default_value"] (by decide)
    (fun p => (p.type, p.isOptional, p.comment, p.name, p.defaultValue, ())) ?_ ?_
  · rintro ⟨⟩ ⟨⟩ h
    cases h
    rfl
  · rintro ⟨_ | _, _, _, _ | _, _⟩ <;> rfl

theorem Signature.toJson_injective : Injective Signature.toJson := by
  refine Column.injective_of_row [.comment "comment", .texts "type_parameters",
    .always "parameters" (Json.ofList Parameter.toJson) (Json.ofList_injective Parameter.toJson_injective),
    .place "return_type"] (by decide)
    (fun s => (s.comment, s.typeParameters, s.parameters, s.returnType, ())) ?_ fun _ => rfl
  rintro ⟨⟩ ⟨⟩ h
  cases h
  rfl

theorem OperatorTarget.toJson_injective : Injective OperatorTarget.toJson := by
  refine Column.injective_of_row [.text "type_name", .optionalText "name"] (by decide)
    (fun t => (t.form, t.name, ())) ?_ ?_
  · rintro ⟨⟩ ⟨⟩ h
    cases h
    rfl
  · rintro ⟨_, _ | _⟩ <;> rfl

/-! ## Kinds by their labels -/

namespace EntityKind

/-- All kinds. -/
def all : List EntityKind :=
  [accessor, array, classDecl, constructor, enumDecl, externalReference, function, indexSignature, interfaceDecl,
    interfaceLiteral, intersection, method, moduleDecl, namespaceDecl, objectLiteral, primitive, property,
    stringLiteral, typeAlias, typeOperator, typeParameter, union, unknown]

/-- The kind of a label. -/
def ofLabel? (label : String) : Option EntityKind := all.find? fun kind => kind.label = label

theorem ofLabel?_label (kind : EntityKind) : ofLabel? kind.label = some kind := by
  cases kind <;> decide

theorem label_injective : Injective label := fun a b h => by
  rw [← Option.some_inj, ← ofLabel?_label, ← ofLabel?_label, h]

end EntityKind

namespace Column

/-- The kind of an entity, under its own key. -/
def kind : Column :=
  always "mirrorKind" (fun kind : EntityKind => .str kind.label) (Json.str_injective.comp EntityKind.label_injective)

end Column

theorem CallableKind.entityKind_injective : Injective CallableKind.entityKind := by
  rintro ⟨⟩ ⟨⟩ h <;> first | rfl | cases h

/-! ## Forms -/

/-- The forms of entities. Properties and accessors have one form, and so have all callables; some forms share their
columns. -/
inductive Form
  | primitive
  | unknown
  | array
  | union
  | intersection
  | stringLiteral
  | typeParameter
  | typeOperator
  | externalReference
  | moduleDecl
  | namespaceDecl
  | classDecl
  | interfaceDecl
  | interfaceLiteral
  | objectLiteral
  | enumDecl
  | typeAlias
  | property
  | callable
deriving DecidableEq

namespace Form

/-- The columns of a module or a namespace. -/
def scopeColumns : List Column :=
  [.text "name", .declared "decl_id", .flags "flags", .comment "comment", .places "members", .places "namespaces",
    .places "properties", .places "interfaces", .places "classes", .places "enums", .places "type_aliases",
    .places "functions", .places "object_literals", .optionalText "original_name"]

/-- The columns of an interface, a literal and the body of a class. -/
def shapeColumns : List Column :=
  [.text "name", .declared "decl_id", .flags "flags", .comment "comment", .texts "type_parameters",
    .places "type_arguments", .places "extended_types", .places "implemented_types", .places "members",
    .places "properties", .places "methods", .places "object_literals", .texts "property_names",
    .optional "index_signature" IndexSignature.toJson IndexSignature.toJson_injective]

/-- The columns of a form. -/
def columns : Form → List Column
  | primitive | unknown => [.text "name"]
  | array => [.place "element_type", .places "type_arguments"]
  | union | intersection => [.places "members", .places "type_arguments"]
  | stringLiteral => [.text "value", .places "type_arguments"]
  | typeParameter | externalReference => [.text "name", .places "type_arguments"]
  | typeOperator =>
    [.text "operator", .always "target" OperatorTarget.toJson OperatorTarget.toJson_injective, .places "type_arguments"]
  | moduleDecl | namespaceDecl => scopeColumns
  | classDecl =>
    [.always "body" (Column.rowToJson shapeColumns) (Column.rowToJson_injective shapeColumns (by decide)),
      .truth "is_abstract", .optionalPlace "constructor"]
  | interfaceDecl | interfaceLiteral | objectLiteral => shapeColumns
  | enumDecl =>
    [.text "name", .declared "decl_id", .flags "flags", .comment "comment",
      .always "members" (Json.ofList EnumMember.toJson) (Json.ofList_injective EnumMember.toJson_injective)]
  | typeAlias =>
    [.text "name", .declared "decl_id", .comment "comment", .texts "type_parameters", .place "target_definition"]
  | property =>
    [.text "name", .declared "decl_id", .flags "flags", .comment "comment", .place "type", .truth "readable",
      .truth "writeable", .truth "is_static", .truth "is_optional", .truth "is_accessor", .optionalText "default_value"]
  | callable =>
    [.text "name", .declared "decl_id",
      .always "kind" (fun kind : CallableKind => .str kind.entityKind.label)
        (Json.str_injective.comp (EntityKind.label_injective.comp CallableKind.entityKind_injective)),
      .flags "flags", .comment "comment",
      .always "signatures" (Json.ofList Signature.toJson) (Json.ofList_injective Signature.toJson_injective),
      .places "type_arguments"]

/-- The keys of a form differ from each other and from the key of the kind. -/
theorem nodup_keys (form : Form) : ("mirrorKind" :: form.columns.map Column.key).Nodup := by
  cases form <;> decide

/-- The kind that a form has by what stands in its columns. -/
def kind : (form : Form) → Column.Row form.columns → EntityKind
  | primitive, _ => .primitive
  | unknown, _ => .unknown
  | array, _ => .array
  | union, _ => .union
  | intersection, _ => .intersection
  | stringLiteral, _ => .stringLiteral
  | typeParameter, _ => .typeParameter
  | typeOperator, _ => .typeOperator
  | externalReference, _ => .externalReference
  | moduleDecl, _ => .moduleDecl
  | namespaceDecl, _ => .namespaceDecl
  | classDecl, _ => .classDecl
  | interfaceDecl, _ => .interfaceDecl
  | interfaceLiteral, _ => .interfaceLiteral
  | objectLiteral, _ => .objectLiteral
  | enumDecl, _ => .enumDecl
  | typeAlias, _ => .typeAlias
  | property, (_, _, _, _, _, _, _, _, _, isAccessor, _) => bif isAccessor then .accessor else .property
  | callable, (_, _, callableKind, _) => CallableKind.entityKind callableKind

/-- The form of the entities of a kind. -/
def ofKind? : EntityKind → Option Form
  | .primitive => some primitive
  | .unknown => some unknown
  | .array => some array
  | .union => some union
  | .intersection => some intersection
  | .stringLiteral => some stringLiteral
  | .typeParameter => some typeParameter
  | .typeOperator => some typeOperator
  | .externalReference => some externalReference
  | .moduleDecl => some moduleDecl
  | .namespaceDecl => some namespaceDecl
  | .classDecl => some classDecl
  | .interfaceDecl => some interfaceDecl
  | .interfaceLiteral => some interfaceLiteral
  | .objectLiteral => some objectLiteral
  | .enumDecl => some enumDecl
  | .typeAlias => some typeAlias
  | .property | .accessor => some property
  | .function | .method | .constructor => some callable
  | .indexSignature => none

theorem ofKind?_kind (form : Form) (row : Column.Row form.columns) : ofKind? (form.kind row) = some form := by
  cases form with
  | property =>
    obtain ⟨_, _, _, _, _, _, _, _, _, isAccessor, _⟩ := row
    cases isAccessor <;> rfl
  | callable =>
    obtain ⟨_, _, callableKind, _⟩ := row
    cases callableKind <;> rfl
  | _ => rfl

end Form

/-- A form and what stands in its columns. They are filled freely: a declaration can lack its id, a shape can have more
names than properties, a property can say something else than its flags. -/
structure FilledForm where
  form : Form
  row : Column.Row form.columns

namespace FilledForm

/-- The kind of a filled form. -/
def kind (m : FilledForm) : EntityKind := m.form.kind m.row

/-- The fields of a filled form without its kind. -/
def fields (m : FilledForm) : List (String × Json) := Column.fields m.form.columns m.row

/-- A filled form as an object. -/
def toJson (m : FilledForm) : Json := .ofFields (("mirrorKind", .str m.kind.label) :: m.fields)

theorem nodup_keys (m : FilledForm) : ("mirrorKind" :: m.fields.map (·.1)).Nodup :=
  Column.nodup_keys_fields (.kind :: m.form.columns) m.form.nodup_keys (m.kind, m.row)

/-- The kind is read first and tells the form, and with it the columns. -/
theorem toJson_injective : Injective toJson := by
  rintro ⟨form, row⟩ ⟨form', row'⟩ h
  have hkind : form.kind row = form'.kind row' := by
    have htag : ∀ m : FilledForm, m.toJson.get? "mirrorKind" = some (.str m.kind.label) := fun m =>
      (Json.get?_ofFields_cons_eq_some_iff m.nodup_keys).mpr (.inl rfl)
    have := congrArg (Json.get? "mirrorKind") h
    rw [htag, htag] at this
    exact EntityKind.label_injective (Json.str_injective (Option.some_injective _ this))
  obtain rfl : form = form' := by
    rw [← Option.some_inj, ← form.ofKind?_kind row, ← form'.ofKind?_kind row', hkind]
  have hrow : (form.kind row, row) = (form.kind row', row') :=
    Column.rowToJson_injective (.kind :: form.columns) form.nodup_keys h
  rw [(Prod.mk.inj hrow).2]

theorem row_inj {form : Form} {row row' : Column.Row form.columns} (h : FilledForm.mk form row = ⟨form, row'⟩) :
    row = row' :=
  eq_of_heq (FilledForm.mk.inj h).2

end FilledForm

/-! ## Entities as filled forms -/

/-- A scope by column. -/
def Scope.row (s : Scope) : Column.Row Form.scopeColumns :=
  (s.name, some s.id, s.flags, s.comment, s.members, s.namespaces, s.properties, s.interfaces, s.classes, s.enums,
    s.typeAliases, s.functions, s.objectLiterals, s.filePath, ())

theorem Scope.fields_row (s : Scope) : Column.fields Form.scopeColumns s.row = s.fields := by
  obtain ⟨_, _ | _, _⟩ := s <;> rfl

theorem Scope.row_injective : Injective Scope.row := by
  rintro ⟨⟩ ⟨⟩ h
  cases h
  rfl

/-- A shape by column. -/
def Shape.row (s : Shape) : Column.Row Form.shapeColumns :=
  (s.name, some s.id, s.flags, s.comment, s.typeParameters, s.typeArguments, s.extendedTypes, s.implementedTypes,
    s.members, s.properties, s.methods, s.objectLiterals, s.propertyNames, s.indexSignature, ())

theorem Shape.fields_row (s : Shape) : Column.fields Form.shapeColumns s.row = s.fields := by
  obtain ⟨_, _, _, _, _, _, _, _, _, _, _, _, _ | _⟩ := s <;> rfl

/-- The lists of names and of places together tell the pairs. -/
theorem Shape.row_injective : Injective Shape.row := by
  rintro ⟨_, _, _, _, _, _, _, _, _, named, _, _, _⟩ ⟨_, _, _, _, _, _, _, _, _, named', _, _, _⟩ h
  have hnamed : named = (named.map (·.1)).zip (named.map (·.2)) := List.zip_of_prod rfl rfl
  have hnamed' : named' = (named'.map (·.1)).zip (named'.map (·.2)) := List.zip_of_prod rfl rfl
  simp only [row, properties, propertyNames] at h
  generalize named.map (·.1) = names, named.map (·.2) = places at h hnamed
  cases h
  rw [hnamed.trans hnamed'.symm]

namespace Entity

/-- An entity as a filled form. -/
def filled : Entity → FilledForm
  | primitive name => ⟨.primitive, (name, ())⟩
  | unknown name => ⟨.unknown, (name, ())⟩
  | array element arguments => ⟨.array, (element, arguments, ())⟩
  | union members arguments => ⟨.union, (members, arguments, ())⟩
  | intersection members arguments => ⟨.intersection, (members, arguments, ())⟩
  | stringLiteral value arguments => ⟨.stringLiteral, (value, arguments, ())⟩
  | typeParameter name arguments => ⟨.typeParameter, (name, arguments, ())⟩
  | typeOperator operator target arguments => ⟨.typeOperator, (operator, target, arguments, ())⟩
  | externalReference name arguments => ⟨.externalReference, (name, arguments, ())⟩
  | moduleDecl s => ⟨.moduleDecl, s.row⟩
  | namespaceDecl s => ⟨.namespaceDecl, s.row⟩
  | classDecl c => ⟨.classDecl, (c.body.row, c.isAbstract, c.constructorId, ())⟩
  | interfaceDecl s => ⟨.interfaceDecl, s.row⟩
  | interfaceLiteral s => ⟨.interfaceLiteral, s.row⟩
  | objectLiteral s => ⟨.objectLiteral, s.row⟩
  | enumDecl e => ⟨.enumDecl, (e.name, some e.id, e.flags, e.comment, e.members, ())⟩
  | typeAlias a => ⟨.typeAlias, (a.name, some a.id, a.comment, a.typeParameters, a.target, ())⟩
  | property p =>
    ⟨.property, (p.name, some p.id, p.flags, p.comment, p.type, p.readable, p.writeable, p.flags.isStatic,
      p.flags.isOptional, p.isAccessor, p.defaultValue, ())⟩
  | callable c => ⟨.callable, (c.name, some c.id, c.kind, c.flags, c.comment, c.signatures, c.typeArguments, ())⟩

theorem kind_filled (m : Entity) : m.filled.kind = m.kind := by
  cases m with
  | property p =>
    obtain ⟨_, _, _, _, _, _, _, _, isAccessor⟩ := p
    cases isAccessor <;> rfl
  | _ => rfl

theorem fields_filled (m : Entity) : m.filled.fields = m.fields := by
  cases m with
  | moduleDecl s => exact s.fields_row
  | namespaceDecl s => exact s.fields_row
  | classDecl c =>
    obtain ⟨body, isAbstract, _ | id⟩ := c
    · exact congrArg (fun fields => [("body", Json.ofFields fields), ("is_abstract", .bool isAbstract)]) body.fields_row
    · exact congrArg (fun fields => [("body", Json.ofFields fields), ("is_abstract", .bool isAbstract),
        ("constructor", id.toJson)]) body.fields_row
  | interfaceDecl s => exact s.fields_row
  | interfaceLiteral s => exact s.fields_row
  | objectLiteral s => exact s.fields_row
  | property p => obtain ⟨_, _, _, _, _, _ | _, _⟩ := p <;> rfl
  | _ => rfl

theorem toJson_filled (m : Entity) : m.filled.toJson = m.toJson := by
  rw [FilledForm.toJson, kind_filled, fields_filled, toJson]

theorem filled_injective : Injective filled := by
  intro a b h
  -- Entities of two forms are told apart by the form alone.
  cases a <;> cases b <;> try cases congrArg FilledForm.form h
  case moduleDecl.moduleDecl.refl s s' | namespaceDecl.namespaceDecl.refl s s' =>
    rw [Scope.row_injective (FilledForm.row_inj h)]
  case interfaceDecl.interfaceDecl.refl s s' | interfaceLiteral.interfaceLiteral.refl s s'
      | objectLiteral.objectLiteral.refl s s' =>
    rw [Shape.row_injective (FilledForm.row_inj h)]
  case classDecl.classDecl.refl c c' =>
    obtain ⟨body, isAbstract, constructorId⟩ := c
    obtain ⟨body', isAbstract', constructorId'⟩ := c'
    have hrow := FilledForm.row_inj h
    obtain rfl : body = body' := Shape.row_injective (Prod.mk.inj hrow).1
    cases (Prod.mk.inj hrow).2
    rfl
  case enumDecl.enumDecl.refl x y | typeAlias.typeAlias.refl x y | property.property.refl x y
      | callable.callable.refl x y =>
    cases x
    cases y
    cases h
    rfl
  all_goals
    cases h
    rfl

theorem nodup_keys (m : Entity) : ("mirrorKind" :: m.fields.map (·.1)).Nodup := by
  rw [← fields_filled]
  exact m.filled.nodup_keys

end Entity

/-! ## What writing keeps -/

/-- A way of writing values, each with a kind and fields, as objects: no two values are written alike, and an object
holds the label of the kind under `mirrorKind` and, under the other keys, the fields of the value. -/
structure WritesWhole {α : Type} (kind : α → EntityKind) (fields : α → List (String × Json)) (toJson : α → Json) :
    Prop where
  injective : ∀ a b, toJson a = toJson b → a = b
  tag : ∀ a, (toJson a).get? "mirrorKind" = some (.str (kind a).label)
  apart : ∀ a, ∀ field ∈ fields a, field.1 ≠ "mirrorKind"
  distinct : ∀ a, ((fields a).map (·.1)).Nodup
  rest : ∀ a key v, key ≠ "mirrorKind" → ((toJson a).get? key = some v ↔ (key, v) ∈ fields a)

theorem WritesWhole.of_nodup {α : Type} {kind : α → EntityKind} {fields : α → List (String × Json)} {toJson : α → Json}
    (hinjective : Injective toJson) (hnodup : ∀ a, ("mirrorKind" :: (fields a).map (·.1)).Nodup)
    (h : ∀ a, toJson a = .ofFields (("mirrorKind", .str (kind a).label) :: fields a)) :
    WritesWhole kind fields toJson where
  injective a b hab := hinjective hab
  tag a := by
    rw [h]
    exact (Json.get?_ofFields_cons_eq_some_iff (hnodup a)).mpr (.inl rfl)
  apart a field hfield hkey := (List.nodup_cons.mp (hnodup a)).1 (hkey ▸ List.mem_map_of_mem hfield)
  distinct a := (List.nodup_cons.mp (hnodup a)).2
  rest a key v hkey := by
    rw [h, Json.get?_ofFields_cons_eq_some_iff (hnodup a), or_iff_right fun heq => hkey (Prod.mk.inj heq).1]

/-- Entities are written without loss, and so is whatever fills the columns of their forms. -/
theorem Entity.writesWhole :
    WritesWhole Entity.kind Entity.fields Entity.toJson ∧
      WritesWhole FilledForm.kind FilledForm.fields FilledForm.toJson ∧
      ∀ m : Entity, m.filled.kind = m.kind ∧ m.filled.fields = m.fields ∧ m.filled.toJson = m.toJson := by
  refine ⟨.of_nodup ?_ Entity.nodup_keys fun _ => rfl,
    .of_nodup FilledForm.toJson_injective FilledForm.nodup_keys fun _ => rfl,
    fun m => ⟨m.kind_filled, m.fields_filled, m.toJson_filled⟩⟩
  rw [← funext Entity.toJson_filled]
  exact FilledForm.toJson_injective.comp Entity.filled_injective

end EntityGraph

import EntityGraph.Build.Pass
import EntityGraph.Proofs.Kinds
import EntityGraph.Proofs.Occurrence

/-!
# Scripts

What is done to resolve a value is fixed by the value before anything is done: a script lists it in order, as acts on
the state (`Build.Act`). The script of a type expression (`Build.typeScript`) descends to the depth that the options
allow; the declarations written inside it, and those inside a node (`Node.script`), are single acts, whose own scripts
come into play only if they are not settled by then.

Depth and place leave traces in a script, but no others: where nothing is cut at the greatest depth, two scripts of the
same value are the same up to the depths and places in them (`Node.map_plain_script`).

Every act of a script comes from a type expression or a child of its node, or is a finding about it
(`Node.gives_of_mem_script`). Which type expressions are resolved for a node, and at which position, is read off the
node (`Node.TypeAt`). So a property of acts holds throughout the script of a node if it holds of the acts that a level
of a type expression and a list of children give (`Build.Pervades.script`).
-/

namespace EntityGraph.Build

/-- One thing that is done in a resolution. -/
inductive Act
  /-- A diagnostic is recorded. -/
  | report (x : Diagnostic)
  /-- The entity of a type expression is stored. -/
  | store
  /-- A reference is followed. -/
  | follow (d : DeclId)
  /-- A value in the place of a declaration is resolved, inside `depth` type expressions. -/
  | declare (depth : Nat) (position : Position) (v : Json)

namespace Act

/-- The declaration that an act asks for. -/
def target? : Act → Option DeclId
  | follow d => some d
  | declare _ _ v => (Node.ofJson? v).map Node.id
  | report _ | store => none

/-- The node that an act asks for: by a reference the one that the index holds, in place the one that stands there. -/
def Names (root : Json) (n : Node) : Act → Prop
  | follow d => (Index.ofJson root).index.lookup? d = some n
  | declare _ _ v => Node.ofJson? v = some n
  | report _ | store => False

/-- An act without its depth and its place. -/
def plain : Act → Act
  | declare _ _ v => declare 0 .reference v
  | a => a

/-- The act cuts a type expression off. -/
def Cuts (a : Act) : Prop := ∃ depth, a = report (.typeDepthExceeded depth)

@[simp]
theorem target?_plain (a : Act) : a.plain.target? = a.target? := by cases a <;> rfl

variable {root : Json} {n n' : Node} {a : Act}

theorem Names.target? (h : a.Names root n) : a.target? = some n.id := by
  cases a with
  | report | store => exact h.elim
  | follow d => exact congrArg some (Index.standsIn_of_lookup? h).2.symm
  | declare _ _ v => exact congrArg (Option.map Node.id) h

/-- An act asks for one node at most. -/
theorem Names.eq (h : a.Names root n) (h' : a.Names root n') : n = n' := by
  cases a with
  | report | store => exact h.elim
  | follow | declare => exact Option.some.inj (h.symm.trans h')

end Act

/-! ## Types -/

/-- What is done for one level of a type expression; `inner` is the script of the expressions inside it. -/
def levelScript (inner : Position → Json → List Act) (depth : Nat) (position : Position) (arguments : List Json) :
    TypeExpr → List Act
  | .intrinsic _ | .unknown _ => []
  | .malformedReference => [.report .malformedReference]
  | .internalReference d => arguments.flatMap (inner .declaredType) ++ [.follow d]
  | .reflection decl => [.declare (depth + 1) position decl]
  | .array element => inner position element ++ (arguments.flatMap (inner .declaredType) ++ [.store])
  | .union members | .intersection members =>
    members.flatMap (inner position) ++ (arguments.flatMap (inner .declaredType) ++ [.store])
  | .externalReference _ | .stringLiteral _ | .typeParameter _ | .typeOperator _ _ _ =>
    arguments.flatMap (inner .declaredType) ++ [.store]

/-- What is done for a type expression inside `depth` others: from the greatest depth on it is cut off. -/
def typeScript (o : Options) (depth : Nat) : Position → Json → List Act :=
  if _h : o.maxTypeDepth ≤ depth then fun _ _ => [.report (.typeDepthExceeded depth)]
  else fun position v =>
    levelScript (typeScript o (depth + 1)) depth position (TypeExpr.argumentsOf v) (TypeExpr.ofJson v)
termination_by o.maxTypeDepth - depth

theorem typeScript_of_le {o : Options} {depth : Nat} (h : o.maxTypeDepth ≤ depth) (position : Position) (v : Json) :
    typeScript o depth position v = [.report (.typeDepthExceeded depth)] := by
  rw [typeScript, dif_pos h]

theorem typeScript_of_lt {o : Options} {depth : Nat} (h : depth < o.maxTypeDepth) (position : Position) (v : Json) :
    typeScript o depth position v =
      levelScript (typeScript o (depth + 1)) depth position (TypeExpr.argumentsOf v) (TypeExpr.ofJson v) := by
  rw [typeScript, dif_neg (Nat.not_le.mpr h)]

/-! ## Declarations -/

section

variable (o : Options) (depth : Nat)

/-- What is done for a type that may be absent. -/
def type?Script (position : Position) (v? : Option Json) : List Act := v?.toList.flatMap (typeScript o depth position)

/-- What is done for the children that the options do not leave out. -/
def membersScript (position : Position) (children : List Json) : List Act :=
  (children.filter fun v => !o.skips v).map (.declare depth position)

/-- What is done for a value in the place of a parameter. -/
def parameterScript (v : Json) : List Act :=
  match Node.ofJson? v with
  | some p => type?Script o depth .declaredType p.type?
  | none => [.report (.unrecognizedDeclaration none none)]

/-- What is done for a signature. -/
def signatureScript (n : Node) : List Act :=
  n.parameters.flatMap (parameterScript o depth) ++ type?Script o depth .declaredType n.type?

/-- What is done for a callable. -/
def callableScript (n : Node) : List Act :=
  n.signatureNodes.flatMap (signatureScript o depth) ++ n.typeArguments.flatMap (typeScript o depth .declaredType)

/-- What is done for a value in the place of an index signature. -/
def indexSignatureScript (v : Json) : List Act :=
  match (Node.ofJson? v).filter fun n => n.recognize? .interfaceBody = some .indexSignature with
  | some n => type?Script o depth .declaredType n.firstParameterType? ++ type?Script o depth .declaredType n.type?
  | none => [.report (.ofUnrecognized v)]

/-- What is done for the body of an interface, a class or a literal, whose members stand at a position. -/
def shapeScript (n : Node) (body : Position) : List Act :=
  n.typeArguments.flatMap (typeScript o depth .declaredType) ++
    (n.extendedTypes.flatMap (typeScript o depth .declaredType) ++
      (n.implementedTypes.flatMap (typeScript o depth .declaredType) ++
        (membersScript o depth body n.children ++ n.indexSignature?.toList.flatMap (indexSignatureScript o depth))))

/-- What is done for a child of an enumeration. -/
def enumMemberScript (v : Json) : List Act :=
  match Node.ofJson? v with
  | some m =>
    if m.tag? = some .enumerationMember then []
    else [.report (.unrecognizedDeclaration (some m.id) (some m.kindString))]
  | none => [.report (.unrecognizedDeclaration none none)]

end

end Build

open Build

/-- What is done for a node of a kind that was reached at a position inside `depth` type expressions. -/
def Node.script (o : Options) (depth : Nat) (n : Node) (kind : DeclKind) (position : Position) : List Act :=
  match kind with
  | .moduleDecl | .namespaceDecl => membersScript o depth .namespaceBody n.children
  | .classDecl | .interfaceDecl | .interfaceLiteral | .objectLiteral => shapeScript o depth n kind.bodyPosition
  | .enumDecl => n.children.flatMap enumMemberScript
  | .typeAlias => type?Script o depth .declaredType n.type?
  | .property => type?Script o depth position.ofSlot n.type?
  | .accessor => type?Script o depth .declaredType n.accessorType?
  | .function | .method | .constructor => callableScript o depth n
  | .indexSignature => []

/-- The script of a callable goes through its signatures. -/
theorem Node.script_of_isFunction {o : Options} {depth : Nat} {n : Node} {kind : DeclKind} {position : Position}
    (h : kind.isFunction = true) : n.script o depth kind position = callableScript o depth n := by
  cases kind with
  | function | method | constructor => rfl
  | _ => cases h

/-- What is done for a declaration that was entered. -/
def Waiting.script (o : Options) (depth : Nat) (p : Waiting) : List Act :=
  p.node.script o depth p.kind p.position

/-- What is done for the children of the root. -/
def Json.script (root : Json) (o : Options) : List Act :=
  ((root.listAt "children").filter fun v => !o.skipsModule v).map (.declare 0 .namespaceBody)

/-! ## Depths and places -/

namespace Build

/-- Unless the first of two scripts is cut, they are the same up to depths and places. -/
def SameUnlessCut (as bs : List Act) : Prop := (∀ a ∈ as, ¬ a.Cuts) → as.map Act.plain = bs.map Act.plain

namespace SameUnlessCut

variable {as as' bs bs' : List Act}

theorem refl (as : List Act) : SameUnlessCut as as := fun _ => rfl

theorem cut (depth : Nat) (bs : List Act) : SameUnlessCut [.report (.typeDepthExceeded depth)] bs :=
  fun h => absurd ⟨depth, rfl⟩ (h _ List.mem_cons_self)

theorem append (h : SameUnlessCut as bs) (h' : SameUnlessCut as' bs') : SameUnlessCut (as ++ as') (bs ++ bs') := by
  intro hcut
  rw [List.map_append, List.map_append, h fun a ha => hcut a (List.mem_append_left _ ha),
    h' fun a ha => hcut a (List.mem_append_right _ ha)]

theorem flatMap {α : Type} {xs : List α} {f g : α → List Act} (h : ∀ x ∈ xs, SameUnlessCut (f x) (g x)) :
    SameUnlessCut (xs.flatMap f) (xs.flatMap g) := by
  intro hcut
  rw [List.map_flatMap, List.map_flatMap]
  refine List.flatMap_congr fun x hx => ?_
  exact h x hx fun a ha => hcut a (List.mem_flatMap.mpr ⟨x, hx, ha⟩)

end SameUnlessCut

variable {o : Options} {depth depth' : Nat}

theorem sameUnlessCut_levelScript {inner inner' : Position → Json → List Act} {position position' : Position}
    (h : ∀ p p' v, SameUnlessCut (inner p v) (inner' p' v)) (arguments : List Json) (e : TypeExpr) :
    SameUnlessCut (levelScript inner depth position arguments e)
      (levelScript inner' depth' position' arguments e) := by
  have harguments :
      SameUnlessCut (arguments.flatMap (inner .declaredType)) (arguments.flatMap (inner' .declaredType)) :=
    .flatMap fun v _ => h _ _ v
  cases e with
  | intrinsic | unknown | malformedReference => exact .refl _
  | reflection decl => exact fun _ => rfl
  | internalReference d => exact harguments.append (.refl _)
  | array element => exact (h _ _ element).append (harguments.append (.refl _))
  | union members | intersection members =>
    exact (SameUnlessCut.flatMap fun v _ => h _ _ v).append (harguments.append (.refl _))
  | externalReference | stringLiteral | typeParameter | typeOperator => exact harguments.append (.refl _)

/-- What is not cut off inside some type expressions is not cut off inside fewer. -/
theorem sameUnlessCut_typeScript {depth depth' : Nat} (hle : depth' ≤ depth) (position position' : Position)
    (v : Json) :
    SameUnlessCut (typeScript o depth position v) (typeScript o depth' position' v) := by
  by_cases hdepth : o.maxTypeDepth ≤ depth
  · rw [typeScript_of_le hdepth]
    exact .cut depth _
  · have hlt : depth < o.maxTypeDepth := Nat.not_le.mp hdepth
    rw [typeScript_of_lt hlt, typeScript_of_lt (Nat.lt_of_le_of_lt hle hlt)]
    exact sameUnlessCut_levelScript
      (fun p p' w => sameUnlessCut_typeScript (Nat.succ_le_succ hle) p p' w) _ _
termination_by o.maxTypeDepth - depth

theorem sameUnlessCut_types (hle : depth' ≤ depth) (position position' : Position) (vs : List Json) :
    SameUnlessCut (vs.flatMap (typeScript o depth position)) (vs.flatMap (typeScript o depth' position')) :=
  .flatMap fun v _ => sameUnlessCut_typeScript hle position position' v

theorem sameUnlessCut_membersScript (body body' : Position) (children : List Json) :
    SameUnlessCut (membersScript o depth body children) (membersScript o depth' body' children) := by
  intro _
  rw [membersScript, membersScript, List.map_map, List.map_map]
  rfl

theorem sameUnlessCut_signatureScript (hle : depth' ≤ depth) (n : Node) :
    SameUnlessCut (signatureScript o depth n) (signatureScript o depth' n) := by
  refine .append (.flatMap fun v _ => ?_) (sameUnlessCut_types hle _ _ _)
  unfold parameterScript
  split
  · exact sameUnlessCut_types hle _ _ _
  · exact .refl _

theorem sameUnlessCut_callableScript (hle : depth' ≤ depth) (n : Node) :
    SameUnlessCut (callableScript o depth n) (callableScript o depth' n) :=
  .append (.flatMap fun m _ => sameUnlessCut_signatureScript hle m) (sameUnlessCut_types hle _ _ _)

theorem sameUnlessCut_shapeScript (hle : depth' ≤ depth) (n : Node) (body body' : Position) :
    SameUnlessCut (shapeScript o depth n body) (shapeScript o depth' n body') := by
  have hindex (v : Json) : SameUnlessCut (indexSignatureScript o depth v) (indexSignatureScript o depth' v) := by
    unfold indexSignatureScript
    split
    · exact .append (sameUnlessCut_types hle _ _ _) (sameUnlessCut_types hle _ _ _)
    · exact .refl _
  have hmembers : SameUnlessCut (membersScript o depth body n.children) (membersScript o depth' body' n.children) :=
    sameUnlessCut_membersScript body body' n.children
  exact (sameUnlessCut_types hle _ _ _).append <| (sameUnlessCut_types hle _ _ _).append <|
    (sameUnlessCut_types hle _ _ _).append <| hmembers.append (.flatMap fun v _ => hindex v)

/-- Variants of a kind have the same script. -/
theorem sameUnlessCut_script (hle : depth' ≤ depth) (n : Node) {kind kind' : DeclKind} (hk : kind.Variant kind')
    (position position' : Position) :
    SameUnlessCut (n.script o depth kind position) (n.script o depth' kind' position') := by
  cases hk with
  | functionMethod | methodFunction => exact sameUnlessCut_callableScript hle n
  | typeValue | valueType => exact sameUnlessCut_shapeScript hle n _ _
  | refl =>
    cases kind with
    | moduleDecl | namespaceDecl => exact sameUnlessCut_membersScript _ _ _
    | classDecl | interfaceDecl | interfaceLiteral | objectLiteral => exact sameUnlessCut_shapeScript hle n _ _
    | enumDecl | indexSignature => exact .refl _
    | typeAlias | property | accessor => exact sameUnlessCut_types hle _ _ _
    | function | method | constructor => exact sameUnlessCut_callableScript hle n

end Build

/-- Unless the first of two scripts of a node is cut, they are the same up to depths and places. -/
theorem Node.map_plain_script {o : Options} {depth depth' : Nat} {n : Node} {kind kind' : DeclKind}
    {position position' : Position} (hk : n.entityKind? position = some kind)
    (hk' : n.entityKind? position' = some kind') (hle : depth' ≤ depth)
    (hcut : ∀ a ∈ n.script o depth kind position, ¬ a.Cuts) :
    (n.script o depth kind position).map Act.plain = (n.script o depth' kind' position').map Act.plain :=
  sameUnlessCut_script hle n (entityKind?_variant hk hk') position position' hcut

/-! ## All acts of a script -/

namespace Build

/-- All acts of a script have a property. -/
def EveryAct (P : Act → Prop) (script : List Act) : Prop := ∀ a ∈ script, P a

namespace EveryAct

variable {P : Act → Prop} {a : Act} {as bs : List Act}

theorem nil : EveryAct P [] := fun _ ha => by cases ha

theorem singleton (h : P a) : EveryAct P [a] := List.forall_mem_singleton.mpr h

theorem append (h : EveryAct P as) (h' : EveryAct P bs) : EveryAct P (as ++ bs) := List.forall_mem_append.mpr ⟨h, h'⟩

theorem flatMap {α : Type} {xs : List α} {f : α → List Act} (h : ∀ x ∈ xs, EveryAct P (f x)) :
    EveryAct P (xs.flatMap f) :=
  List.forall_mem_flatMap.mpr h

theorem map {α : Type} {xs : List α} {f : α → Act} (h : ∀ x ∈ xs, P (f x)) : EveryAct P (xs.map f) :=
  List.forall_mem_map.mpr h

end EveryAct

end Build

/-! ## Where acts come from -/

/-- The keys under which a declaration lists types. -/
def Node.typeListKeys : List String := ["typeArguments", "extendedTypes", "implementedTypes"]

/-- The keys under which a declaration has its signatures, and a signature its parameters. -/
def Node.signatureKeys : List String := ["signatures", "parameters", "getSignature", "setSignature", "indexSignature"]

/-- `v` belongs to the declaration `host` as one of its signatures, or as a parameter of one. -/
inductive Json.BelongsTo : Json → Json → Prop
  | direct {host : Json} {key : String} {v : Json} : key ∈ Node.signatureKeys → host.Holds key v → BelongsTo v host
  | deeper {host : Json} {key : String} {v w : Json} : BelongsTo v host → key ∈ Node.signatureKeys → v.Holds key w →
      BelongsTo w host

theorem Node.belongsTo_of_mem_parameters {host v : Json} {m : Node} (hm : m.value.BelongsTo host)
    (hv : v ∈ m.parameters) : v.BelongsTo host :=
  .deeper hm (by decide : "parameters" ∈ signatureKeys) (.inr hv)

theorem Json.BelongsTo.inside {host v : Json} (h : v.BelongsTo host) : v.Inside host := by
  induction h with
  | direct _ h => exact h.inside
  | deeper _ _ h ih => exact h.inside.trans ih

/-- The expressions that an expression is made of, which stand for types or values as the expression itself does. -/
def TypeExpr.components : TypeExpr → List Json
  | array element => [element]
  | union members | intersection members => members
  | _ => []

theorem TypeExpr.mem_parts_of_mem_components {e : TypeExpr} {v : Json} (h : v ∈ e.components) : v ∈ e.parts := by
  cases e with
  | array | union | intersection => exact h
  | _ => cases h

/-- The position of the members of a declaration of a kind, if such declarations have members. -/
def DeclKind.membersPosition? : DeclKind → Option Position
  | moduleDecl | namespaceDecl => some .namespaceBody
  | classDecl => some classDecl.bodyPosition
  | interfaceDecl => some interfaceDecl.bodyPosition
  | interfaceLiteral => some interfaceLiteral.bodyPosition
  | objectLiteral => some objectLiteral.bodyPosition
  | _ => none

section

variable (o : Options) (depth : Nat) (n : Node) (kind : DeclKind) (position : Position)

/-- The type expressions that are resolved for a node of a kind that stands at a position inside `depth` of them: each
inside how many, and at which position. -/
inductive Node.TypeAt : Nat → Position → Json → Prop
  | listed {key : String} {v : Json} : key ∈ Node.typeListKeys → v ∈ n.value.listAt key → TypeAt depth .declaredType v
  | aliased {v : Json} : kind = .typeAlias → n.type? = some v → TypeAt depth .declaredType v
  | slot {v : Json} : kind = .property → n.type? = some v → TypeAt depth position.ofSlot v
  | signature {m v : Json} : m.BelongsTo n.value → m.objectAt? "type" = some v → TypeAt depth .declaredType v
  | component {k : Nat} {q : Position} {v w : Json} : TypeAt k q v → k < o.maxTypeDepth →
      w ∈ (TypeExpr.ofJson v).components → TypeAt (k + 1) q w
  | argument {k : Nat} {q : Position} {v w : Json} : TypeAt k q v → k < o.maxTypeDepth →
      w ∈ TypeExpr.argumentsOf v → TypeAt (k + 1) .declaredType w

/-- What the script of a node can hold. -/
inductive Node.Gives : Act → Prop
  | finding {x : Diagnostic} : (∀ k, x ≠ .typeDepthExceeded k) → (∀ d, x ≠ .duplicateDeclarationId d) →
      Gives (.report x)
  | cut {k : Nat} {q : Position} {v : Json} : n.TypeAt o depth kind position k q v → o.maxTypeDepth ≤ k →
      Gives (.report (.typeDepthExceeded k))
  | store : Gives .store
  | follow {k : Nat} {q : Position} {v : Json} {d : DeclId} : n.TypeAt o depth kind position k q v →
      TypeExpr.ofJson v = .internalReference d → Gives (.follow d)
  | member {body : Position} {v : Json} : kind.membersPosition? = some body → v ∈ n.children →
      Gives (.declare depth body v)
  | reflected {k : Nat} {q : Position} {v w : Json} : n.TypeAt o depth kind position k q v → k < o.maxTypeDepth →
      TypeExpr.ofJson v = .reflection w → Gives (.declare (k + 1) q w)

end

namespace Build

section

variable {o : Options} {depth : Nat} {n : Node} {kind : DeclKind} {position : Position}

/-- The script of a type expression that is resolved for a node. -/
theorem typeScript_gives {k : Nat} {q : Position} {v : Json} (h : n.TypeAt o depth kind position k q v) :
    EveryAct (n.Gives o depth kind position) (typeScript o k q v) := by
  by_cases hdepth : o.maxTypeDepth ≤ k
  · rw [typeScript_of_le hdepth]
    exact .singleton (.cut h hdepth)
  · have hlt : k < o.maxTypeDepth := Nat.not_le.mp hdepth
    have harguments : EveryAct (n.Gives o depth kind position)
        ((TypeExpr.argumentsOf v).flatMap (typeScript o (k + 1) .declaredType)) :=
      .flatMap fun w hw => typeScript_gives (h.argument hlt hw)
    have hstore := harguments.append (.singleton .store)
    have hcomponent (w : Json) (hw : w ∈ (TypeExpr.ofJson v).components) :
        EveryAct (n.Gives o depth kind position) (typeScript o (k + 1) q w) :=
      typeScript_gives (h.component hlt hw)
    rw [typeScript_of_lt hlt]
    cases he : TypeExpr.ofJson v with
    | intrinsic | unknown => exact .nil
    | malformedReference => exact .singleton (.finding nofun nofun)
    | internalReference d => exact harguments.append (.singleton (.follow h he))
    | reflection decl => exact .singleton (.reflected h hlt he)
    | array element => exact (hcomponent element (he ▸ List.mem_cons_self)).append hstore
    | union members | intersection members =>
      exact (EveryAct.flatMap fun w hw => hcomponent w (he ▸ hw)).append hstore
    | externalReference | stringLiteral | typeParameter | typeOperator => exact hstore
termination_by o.maxTypeDepth - k

variable {k : Nat} {q : Position} {v : Json}

/-- The types that are written in a list of the node. -/
theorem types_give {vs : List Json} (h : ∀ v ∈ vs, n.TypeAt o depth kind position k q v) :
    EveryAct (n.Gives o depth kind position) (vs.flatMap (typeScript o k q)) :=
  .flatMap fun v hv => typeScript_gives (h v hv)

theorem type?Script_gives {v? : Option Json} (h : ∀ v, v? = some v → n.TypeAt o depth kind position k q v) :
    EveryAct (n.Gives o depth kind position) (type?Script o k q v?) :=
  types_give fun v hv => h v (Option.mem_toList.mp hv)

theorem parameterScript_gives (hv : v.BelongsTo n.value) :
    EveryAct (n.Gives o depth kind position) (parameterScript o depth v) := by
  unfold parameterScript
  split
  · next p hp =>
    refine type?Script_gives fun w hw => .signature hv ?_
    rwa [Node.type?, Node.value_of_ofJson? hp] at hw
  · exact .singleton (.finding nofun nofun)

/-- The types that a signature, or a parameter of one, has of its own. -/
theorem signature_type_gives {m : Node} (hm : m.value.BelongsTo n.value) :
    EveryAct (n.Gives o depth kind position) (type?Script o depth .declaredType m.type?) :=
  type?Script_gives fun _ hw => .signature hm hw

theorem firstParameter_type_gives {m : Node} (hm : m.value.BelongsTo n.value) {w : Json}
    (hw : m.firstParameterType? = some w) : n.TypeAt o depth kind position depth .declaredType w := by
  obtain ⟨p, hp, hw⟩ := Option.bind_eq_some_iff.mp hw
  exact .signature (Node.belongsTo_of_mem_parameters hm (List.mem_of_head? hp)) hw

theorem indexSignatureScript_gives (hv : v.BelongsTo n.value) :
    EveryAct (n.Gives o depth kind position) (indexSignatureScript o depth v) := by
  unfold indexSignatureScript
  split
  · next m hm =>
    have hm : m.value.BelongsTo n.value := by rwa [Node.value_of_ofJson? (Option.filter_eq_some_iff.mp hm).1]
    exact (type?Script_gives fun _ hw => firstParameter_type_gives hm hw).append (signature_type_gives hm)
  · exact .singleton (.finding nofun nofun)

theorem enumMemberScript_gives (v : Json) : EveryAct (n.Gives o depth kind position) (enumMemberScript v) := by
  unfold enumMemberScript
  split
  · split
    · exact .nil
    · exact .singleton (.finding nofun nofun)
  · exact .singleton (.finding nofun nofun)

theorem signatureScript_gives {m : Node} (hm : m.value.BelongsTo n.value) :
    EveryAct (n.Gives o depth kind position) (signatureScript o depth m) :=
  .append (.flatMap fun _ hv => parameterScript_gives (Node.belongsTo_of_mem_parameters hm hv))
    (signature_type_gives hm)

theorem accessorType_gives {w : Json} (hw : n.accessorType? = some w) :
    n.TypeAt o depth kind position depth .declaredType w := by
  have belongs (key : String) (hkey : key ∈ Node.signatureKeys) {m : Node}
      (hm : (n.value.singleAt? key).bind Node.ofJson? = some m) : m.value.BelongsTo n.value := by
    obtain ⟨v, hv, hm⟩ := Option.bind_eq_some_iff.mp hm
    rw [Node.value_of_ofJson? hm]
    exact .direct hkey (Json.holds_of_singleAt? hv)
  rcases Option.or_eq_some_iff.mp hw with hw | ⟨_, hw⟩
  · obtain ⟨g, hg, hw⟩ := Option.bind_eq_some_iff.mp hw
    exact .signature (belongs "getSignature" (by decide) hg) hw
  · obtain ⟨s, hs, hw⟩ := Option.bind_eq_some_iff.mp hw
    exact firstParameter_type_gives (belongs "setSignature" (by decide) hs) hw

end

end Build

/-- Every act of a script comes from a type expression or a child of its node, or is a finding. -/
theorem Node.gives_of_mem_script {o : Options} {depth : Nat} {n : Node} {kind : DeclKind} {position : Position} :
    EveryAct (n.Gives o depth kind position) (n.script o depth kind position) := by
  have listed (key : String) (hkey : key ∈ Node.typeListKeys) :
      EveryAct (n.Gives o depth kind position) ((n.value.listAt key).flatMap (typeScript o depth .declaredType)) :=
    types_give fun _ hv => .listed hkey hv
  have members {body : Position} (hbody : kind.membersPosition? = some body) :
      EveryAct (n.Gives o depth kind position) (membersScript o depth body n.children) :=
    .map fun _ hv => .member hbody (List.mem_filter.mp hv).1
  cases kind with
  | moduleDecl | namespaceDecl => exact members rfl
  | classDecl | interfaceDecl | interfaceLiteral | objectLiteral =>
    refine (listed "typeArguments" (by decide)).append ((listed "extendedTypes" (by decide)).append
      ((listed "implementedTypes" (by decide)).append ((members rfl).append (.flatMap fun v hv => ?_))))
    have hkey : "indexSignature" ∈ Node.signatureKeys := by decide
    exact indexSignatureScript_gives (.direct hkey (Json.holds_of_singleAt? (Option.mem_toList.mp hv)))
  | enumDecl => exact .flatMap fun v _ => enumMemberScript_gives v
  | typeAlias => exact type?Script_gives fun _ hv => .aliased rfl hv
  | property => exact type?Script_gives fun _ hv => .slot rfl hv
  | accessor => exact type?Script_gives fun _ hv => accessorType_gives hv
  | function | method | constructor =>
    refine .append (.flatMap fun m hm => signatureScript_gives ?_) (listed "typeArguments" (by decide))
    obtain ⟨v, hv, hm⟩ := List.mem_filterMap.mp hm
    rw [Node.value_of_ofJson? hm]
    exact .direct (by decide : "signatures" ∈ Node.signatureKeys) (.inr hv)
  | indexSignature => exact .nil

namespace Build

/-- A property that scripts have of all their acts, because of what is known of the nodes that they are read from
(`host`) and of the type expressions inside these (`type`), each inside so many other type expressions. -/
structure Pervades (o : Options) (host type : Nat → Json → Prop) (P : Act → Prop) : Prop where
  inside {depth : Nat} {v w : Json} : host depth v → w.Inside v → type depth w
  deeper {depth : Nat} {v w : Json} : type depth v → depth < o.maxTypeDepth → w.Inside v → type (depth + 1) w
  cut {depth : Nat} {v : Json} : type depth v → o.maxTypeDepth ≤ depth → P (.report (.typeDepthExceeded depth))
  report {x : Diagnostic} : (∀ depth, x ≠ .typeDepthExceeded depth) → P (.report x)
  store : P .store
  follow (d : DeclId) : P (.follow d)
  member {depth : Nat} {n : Node} {v : Json} (position : Position) : host depth n.value → v ∈ n.children →
    P (.declare depth position v)
  reflected {depth : Nat} {v w : Json} (position : Position) : type depth v → depth < o.maxTypeDepth →
    TypeExpr.ofJson v = .reflection w → P (.declare (depth + 1) position w)

namespace Pervades

variable {o : Options} {host type : Nat → Json → Prop} {P : Act → Prop} (h : Pervades o host type P) {depth : Nat}
  {n : Node}

include h

/-- What is known of the type expressions that are resolved for a node. -/
theorem typeAt (hn : host depth n.value) {kind : DeclKind} {position : Position} {k : Nat} {q : Position} {v : Json}
    (hv : n.TypeAt o depth kind position k q v) : type k v := by
  induction hv with
  | listed _ hv => exact h.inside hn (Json.inside_of_mem_listAt hv)
  | aliased _ hv | slot _ hv => exact h.inside hn (Node.inside_type? hv)
  | signature hm hv => exact h.inside hn ((Json.inside_of_objectAt? hv).trans hm.inside)
  | component _ hlt hw ih =>
    exact h.deeper ih hlt (TypeExpr.inside_of_mem_parts (TypeExpr.mem_parts_of_mem_components hw))
  | argument _ hlt hw ih => exact h.deeper ih hlt (TypeExpr.inside_of_mem_arguments hw)

/-- The script of a node. -/
theorem script (hn : host depth n.value) (kind : DeclKind) (position : Position) :
    EveryAct P (n.script o depth kind position) := by
  intro a ha
  cases Node.gives_of_mem_script a ha with
  | finding hcut _ => exact h.report hcut
  | cut hv hle => exact h.cut (h.typeAt hn hv) hle
  | store => exact h.store
  | follow => exact h.follow _
  | member _ hv => exact h.member _ hn hv
  | reflected hv hlt hw => exact h.reflected _ (h.typeAt hn hv) hlt hw

end Pervades

end Build

end EntityGraph

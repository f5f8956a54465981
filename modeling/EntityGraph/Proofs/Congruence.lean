import EntityGraph.Build.Declaration

/-!
# What builders keep

The builders only put steps together: what they do themselves is to record diagnostics, to store entities of type
expressions and to follow references. A relation between steps that holds between each of these and itself and is kept
by sequences is a `Build.Congruence`. It holds between a builder with one visitor and the same builder with another, if
it holds between what the two visitors do (`Build.Matches`): `Congruence.declaration` says this of the entity of a node,
`Congruence.ofTypeExpr` of one level of a type expression.

A property of single steps is a relation that looks at one of the two only.
-/

namespace EntityGraph.Build

/-- A relation between steps that holds between each change that builders make and itself, and is kept by sequences. -/
structure Congruence (R : {α : Type} → Build α → Build α → Prop) : Prop where
  pure {α : Type} (a : α) : R (pure a) (pure a)
  bind {α β : Type} {m m' : Build α} {f f' : α → Build β} :
    R m m' → (∀ a, R (f a) (f' a)) → R (m >>= f) (m' >>= f')
  /-- Builders may read the options, but not the greatest depth. -/
  read_bind {α : Type} {f f' : Context → Build α} :
    (∀ c limit, f { c with options := { c.options with maxTypeDepth := limit } } = f c) →
    (∀ c, R (f c) (f' c)) → R (read >>= f) (read >>= f')
  report (x : Diagnostic) : R (report x) (report x)
  alloc (e : Entity) : R (alloc e) (alloc e)
  follow (d : DeclId) : R (follow d) (follow d)

/-- The relation holds between what two visitors of a host do for a value inside it. -/
structure Matches (R : {α : Type} → Build α → Build α → Prop) {host : Json} (visit visit' : Visitor host) (v : Json) :
    Prop where
  type (inside : v.Inside host) (position : Position) : R (visit.type v inside position) (visit'.type v inside position)
  declaration (inside : v.Inside host) (position : Position) :
    R (visit.declaration v inside position) (visit'.declaration v inside position)

variable {R : {α : Type} → Build α → Build α → Prop}

theorem Matches.of_inside {host v : Json} {visit visit' : Visitor host}
    (h : v.Inside host → Matches R visit visit' v) : Matches R visit visit' v :=
  ⟨fun inside => (h inside).type inside, fun inside => (h inside).declaration inside⟩

theorem Matches.within {host part v : Json} {visit visit' : Visitor host} (h : Matches R visit visit' v)
    (hpart : part.Inside host) : Matches R (visit.within hpart) (visit'.within hpart) v :=
  ⟨fun inside => h.type (inside.trans hpart), fun inside => h.declaration (inside.trans hpart)⟩

namespace Congruence

variable (hR : Congruence R)

include hR

theorem forEach {α β : Type} {V : α → Prop} {step step' : (x : α) → V x → Build β} {xs : List α}
    {holds : ∀ x ∈ xs, V x} (h : ∀ x (hx : x ∈ xs), R (step x (holds x hx)) (step' x (holds x hx))) :
    R (forEach xs holds step) (forEach xs holds step') := by
  induction xs with
  | nil => exact hR.pure []
  | cons x xs ih =>
    refine hR.bind (h x List.mem_cons_self) fun y => hR.bind ?_ fun ys => hR.pure _
    exact ih fun x' hx' => h x' (List.mem_cons_of_mem x hx')

/-! ## Types and members -/

section

variable {host : Json} {visit visit' : Visitor host}

theorem types {vs : List Json} (h : ∀ v ∈ vs, Matches R visit visit' v) (inside : ∀ v ∈ vs, v.Inside host)
    (position : Position) : R (visit.types vs inside position) (visit'.types vs inside position) :=
  hR.forEach fun v hv => (h v hv).type (inside v hv) position

variable (h : ∀ v, Matches R visit visit' v)

include h

theorem type? (v? : Option Json) (inside : ∀ v, v? = some v → v.Inside host) (position : Position) :
    R (visit.type? v? inside position) (visit'.type? v? inside position) := by
  cases v? with
  | none => exact hR.pure _
  | some v => exact (h v).type (inside v rfl) position

theorem members (children : List Json) (inside : ∀ v ∈ children, v.Inside host) (position : Position) :
    R (visit.members children inside position) (visit'.members children inside position) := by
  refine hR.read_bind (fun _ _ => rfl) fun c => hR.bind (hR.forEach fun v hv => ?_) fun found => hR.pure _
  exact hR.bind ((h v).declaration _ position) fun r => hR.pure _

theorem parameter? (v : Json) (inside : v.Inside host) :
    R (parameter? visit v inside) (parameter? visit' v inside) := by
  unfold Build.parameter?
  split
  · next p hp =>
    have hwithin := fun w => (h w).within (Node.inside_of_ofJson? hp inside)
    exact hR.bind (hR.type? hwithin p.type? _ _) fun type => hR.pure _
  · exact hR.bind (hR.report _) fun _ => hR.pure _

theorem indexSignature? (v : Json) (inside : v.Inside host) :
    R (indexSignature? visit v inside) (indexSignature? visit' v inside) := by
  unfold Build.indexSignature?
  split
  · next n hn =>
    have hwithin := fun w => (h w).within (Node.inside_of_ofJson? hn inside)
    split
    · refine hR.bind (hR.type? hwithin n.firstParameterType? _ _) fun indexType => ?_
      exact hR.bind (hR.type? hwithin n.type? _ _) fun valueType => hR.pure _
    · exact hR.bind (hR.report _) fun _ => hR.pure _
  · exact hR.bind (hR.report _) fun _ => hR.pure _

end

/-! ## Declarations -/

section

variable {n : Node} {visit visit' : Visitor n.value} (h : ∀ v, Matches R visit visit' v)

include h

theorem indexSignatureOf : R (indexSignatureOf n visit) (indexSignatureOf n visit') := by
  unfold Build.indexSignatureOf
  split
  · exact hR.indexSignature? h _ _
  · exact hR.pure _

theorem shape (kind : DeclKind) : R (shape n kind visit) (shape n kind visit') := by
  refine hR.bind (hR.types (fun v _ => h v) _ _) fun typeArguments => ?_
  refine hR.bind (hR.types (fun v _ => h v) _ _) fun extendedTypes => ?_
  refine hR.bind (hR.types (fun v _ => h v) _ _) fun implementedTypes => ?_
  refine hR.bind (hR.members h n.children _ _) fun ms => ?_
  exact hR.bind (hR.indexSignatureOf h) fun indexSignature => hR.pure _

theorem signature : R (signature n visit) (signature n visit') := by
  refine hR.bind (hR.forEach fun v _ => hR.parameter? h v _) fun parameters => ?_
  exact hR.bind (hR.type? h n.type? _ _) fun returnType => hR.pure _

theorem callable (kind : CallableKind) : R (callable n kind visit) (callable n kind visit') := by
  refine hR.bind (hR.forEach fun m _ => ?_) fun signatures => ?_
  · exact hR.signature fun v => (h v).within _
  · exact hR.bind (hR.types (fun v _ => h v) _ _) fun typeArguments => hR.pure _

end

theorem enumMember? (v : Json) : R (enumMember? v) (enumMember? v) := by
  unfold Build.enumMember?
  split
  · split
    · exact hR.pure _
    · exact hR.bind (hR.report _) fun _ => hR.pure _
  · exact hR.bind (hR.report _) fun _ => hR.pure _

/-- The entities of a node of any kind that has entities, made with two visitors. -/
theorem declaration {n : Node} {kind : DeclKind} {visit visit' : Visitor n.value}
    (h : ∀ v, Matches R visit visit' v) (hk : kind ≠ .indexSignature) (position : Position) :
    R (declaration n kind position visit) (declaration n kind position visit') := by
  cases kind with
  | moduleDecl | namespaceDecl =>
    exact hR.bind (hR.bind (hR.members h n.children _ _) fun _ => hR.pure _) fun _ => hR.pure _
  | classDecl | interfaceDecl | interfaceLiteral | objectLiteral =>
    exact hR.bind (hR.shape h _) fun _ => hR.pure _
  | enumDecl => exact hR.bind (hR.forEach fun v _ => hR.enumMember? v) fun _ => hR.pure _
  | typeAlias => exact hR.bind (hR.type? h n.type? _ _) fun _ => hR.pure _
  | property => exact hR.bind (hR.type? h n.type? _ _) fun _ => hR.pure _
  | accessor => exact hR.bind (hR.type? h n.accessorType? _ _) fun _ => hR.pure _
  | function | method | constructor => exact hR.callable h _
  | indexSignature => exact absurd rfl hk

/-! ## Type expressions -/

/-- One level of a type expression, made with two visitors. -/
theorem ofTypeExpr {v : Json} {visit visit' : Visitor v} {e : TypeExpr} (position : Position)
    (inside : ∀ w ∈ e.parts, w.Inside v) (hparts : ∀ w ∈ e.parts, Matches R visit visit' w)
    (harguments : ∀ w ∈ TypeExpr.argumentsOf v, Matches R visit visit' w) :
    R (ofTypeExpr v position visit e inside) (ofTypeExpr v position visit' e inside) := by
  have arguments : R (typeArguments v visit) (typeArguments v visit') := hR.types harguments _ _
  cases e with
  | intrinsic | unknown => exact hR.pure _
  | malformedReference => exact hR.bind (hR.report _) fun _ => hR.pure _
  | internalReference d => exact hR.bind arguments fun _ => hR.follow d
  | reflection decl =>
    exact hR.bind ((hparts decl List.mem_cons_self).declaration _ position) fun _ => hR.pure _
  | array element =>
    refine hR.bind ((hparts element List.mem_cons_self).type _ position) fun m => ?_
    exact hR.bind arguments fun as => hR.alloc _
  | union members | intersection members =>
    refine hR.bind (hR.types hparts inside position) fun ms => ?_
    exact hR.bind arguments fun as => hR.alloc _
  | externalReference | stringLiteral | typeParameter | typeOperator => exact hR.bind arguments fun as => hR.alloc _

end Congruence

end EntityGraph.Build

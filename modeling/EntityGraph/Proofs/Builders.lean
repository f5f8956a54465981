import EntityGraph.Proofs.Steps

/-!
# What the builders give

A visitor is faithful to a value (`Build.Faithful`) when it gives what the value denotes as a type and how it is settled
as a declaration. The builders only descend through their visitor, so with a faithful one each gives what its part of
the specification asks for: `declaration_gives` for the entity of a node, `typeExpr_gives` for one level of a type
expression.
-/

namespace EntityGraph

/-- An index signature has no entity. -/
theorem Node.recognize?_of_entityKind? {n : Node} {position : Position} {kind : DeclKind}
    (h : n.entityKind? position = some kind) : n.recognize? position = some kind ∧ kind ≠ .indexSignature := by
  obtain ⟨hk, hne⟩ := Option.filter_eq_some_iff.mp h
  exact ⟨hk, of_decide_eq_true hne⟩

namespace Build

variable {root : Json} {o : Options} {K : View → Prop} {depth : Nat}

/-- A visitor gives what a value inside its host stands for, as a type inside `depth` others and as a declaration. -/
structure Faithful (root : Json) (o : Options) (depth : Nat) {host : Json} (visit : Visitor host) (v : Json) :
    Prop where
  type {K : View → Prop} (inside : v.Inside host) (position : Position) :
    Gives root o K (visit.type v inside position) fun id w => w.Denotes depth v id
  declaration {K : View → Prop} (inside : v.Inside host) (position : Position) :
    Gives root o K (visit.declaration v inside position) fun r w => w.Resolves v r

theorem Faithful.of_inside {host v : Json} {visit : Visitor host}
    (h : v.Inside host → Faithful root o depth visit v) : Faithful root o depth visit v :=
  ⟨fun inside => (h inside).type inside, fun inside => (h inside).declaration inside⟩

theorem Faithful.within {host part v : Json} {visit : Visitor host} (h : Faithful root o depth visit v)
    (hpart : part.Inside host) : Faithful root o depth (visit.within hpart) v :=
  ⟨fun inside => h.type (inside.trans hpart), fun inside => h.declaration (inside.trans hpart)⟩

/-! ## Types and members -/

section

variable {host : Json} {visit : Visitor host}

theorem types_gives {vs : List Json} (h : ∀ v ∈ vs, Faithful root o depth visit v)
    (inside : ∀ v ∈ vs, v.Inside host) (position : Position) :
    Gives root o K (visit.types vs inside position) fun ids w => List.Forall₂ (w.Denotes depth) vs ids :=
  .forEach inside fun v hv => (h v hv).type (inside v hv) position

variable (h : ∀ v, Faithful root o depth visit v)

include h

theorem type?_gives (v? : Option Json) (inside : ∀ v, v? = some v → v.Inside host) (position : Position) :
    Gives root o K (visit.type? v? inside position) fun id w => w.DenotesOption depth v? id := by
  cases v? with
  | none => exact .pure fun _ _ _ => rfl
  | some v => exact (h v).type (inside v rfl) position

theorem members_gives (children : List Json) (inside : ∀ v ∈ children, v.Inside host) (position : Position) :
    Gives root o K (visit.members children inside position) fun ms w => w.MembersOf children ms := by
  refine .read_bind (.bind (.forEach (S := View.MemberOf) _ fun v hv => ?_) fun found => ?_)
  · refine .bind ((h v).declaration _ position) fun r => ?_
    exact .pure fun w _ hw => ⟨r, hw.2, rfl⟩
  · refine .pure fun w ho hw => ⟨found, ?_, rfl⟩
    rw [ho]
    exact hw.2

theorem parameter?_gives (v : Json) (inside : v.Inside host) :
    Gives root o K (parameter? visit v inside) fun parameter w => w.ParameterOf depth v parameter := by
  unfold parameter? View.ParameterOf
  split
  · next p hp =>
    have hwithin := fun w => (h w).within (Node.inside_of_ofJson? hp inside)
    refine .bind (type?_gives hwithin p.type? _ _) fun type => ?_
    refine .pure fun w _ hw => ?_
    rw [hp]
    exact ⟨type, hw.2, rfl⟩
  · next hp =>
    refine .bind (.report fun _ hx => nomatch hx) fun _ => ?_
    refine .pure fun w _ _ => ?_
    rw [hp]

theorem indexSignature?_gives (v : Json) (inside : v.Inside host) :
    Gives root o K (indexSignature? visit v inside) fun signature w => w.IndexSignatureOf depth v signature := by
  have unrecognized
      (hx : ((Node.ofJson? v).filter fun n => n.recognize? .interfaceBody = some .indexSignature) = none) :
      Gives root o K (do report (.ofUnrecognized v); return none) fun signature w =>
        w.IndexSignatureOf depth v signature := by
    refine .bind (.report fun _ hx => nomatch hx) fun _ => ?_
    refine .pure fun w _ _ => ?_
    unfold View.IndexSignatureOf
    rw [hx]
  unfold indexSignature?
  split
  · next n hn =>
    split
    · next hk =>
      have hwithin := fun w => (h w).within (Node.inside_of_ofJson? hn inside)
      refine .bind (type?_gives hwithin n.firstParameterType? _ _) fun indexType => ?_
      refine .bind (type?_gives hwithin n.type? _ _) fun valueType => ?_
      refine .pure fun w _ hw => ?_
      unfold View.IndexSignatureOf
      rw [hn, Option.filter_some, if_pos (decide_eq_true hk)]
      exact ⟨indexType, valueType, hw.1.2, hw.2, rfl⟩
    · next hk =>
      refine unrecognized ?_
      rw [hn, Option.filter_some, if_neg]
      exact fun h => hk (of_decide_eq_true h)
  · next hn =>
    refine unrecognized ?_
    rw [hn, Option.filter_none]

end

/-! ## Declarations -/

section

variable {n : Node} {visit : Visitor n.value} (h : ∀ v, Faithful root o depth visit v)

include h

theorem scope_gives : Gives root o K (scope n visit) fun s w => w.ScopeOf n s := by
  refine .bind (members_gives h n.children _ _) fun ms => ?_
  exact .pure fun w _ hw => ⟨ms, hw.2, rfl⟩

theorem indexSignatureOf_gives :
    Gives root o K (indexSignatureOf n visit) fun signature w => w.IndexSignatureOfNode depth n signature := by
  unfold indexSignatureOf View.IndexSignatureOfNode
  split
  · next v inside hv _ =>
    refine (indexSignature?_gives h v _).imp fun signature w _ _ hw => ?_
    rw [hv]
    exact hw
  · next hv _ =>
    refine .pure fun w _ _ => ?_
    rw [hv]

theorem shape_gives (kind : DeclKind) :
    Gives root o K (shape n kind visit) fun p w => w.ShapeOf depth n p.1 p.2 := by
  refine .bind (types_gives (fun v _ => h v) _ _) fun typeArguments => ?_
  refine .bind (types_gives (fun v _ => h v) _ _) fun extendedTypes => ?_
  refine .bind (types_gives (fun v _ => h v) _ _) fun implementedTypes => ?_
  refine .bind (members_gives h n.children _ _) fun ms => ?_
  refine .bind (indexSignatureOf_gives h) fun indexSignature => ?_
  refine .pure fun w _ ⟨⟨⟨⟨⟨_, harguments⟩, hextended⟩, himplemented⟩, hmembers⟩, hsignature⟩ => ?_
  exact ⟨_, _, _, _, harguments, hextended, himplemented, hmembers, hsignature, rfl⟩

theorem classShape_gives :
    Gives root o K (classShape n visit) fun e w => w.Shows depth n .classDecl e := by
  refine .bind (shape_gives h .classDecl) fun p => ?_
  exact .pure fun w _ hw => ⟨p.1, p.2, hw.2, rfl⟩

theorem signature_gives : Gives root o K (signature n visit) fun s w => w.SignatureOf depth n s := by
  refine .bind (.forEach (S := fun w => w.ParameterOf depth) _ fun v _ => parameter?_gives h v _) fun parameters => ?_
  refine .bind (type?_gives h n.type? _ _) fun returnType => ?_
  exact .pure fun w _ hw => ⟨parameters, returnType, hw.1.2, hw.2, rfl⟩

theorem callable_gives (kind : CallableKind) :
    Gives root o K (callable n kind visit) fun e w => ∃ c, w.CallableOf depth n kind c ∧ e = .callable c := by
  refine .bind (.forEach (S := fun w => w.SignatureOf depth) _ fun m _ => ?_) fun signatures => ?_
  · exact signature_gives fun v => (h v).within _
  · refine .bind (types_gives (fun v _ => h v) _ _) fun typeArguments => ?_
    exact .pure fun w _ hw => ⟨_, ⟨signatures, typeArguments, hw.1.2, hw.2, rfl⟩, rfl⟩

theorem typeAlias_gives : Gives root o K (typeAlias n visit) fun e w => w.Shows depth n .typeAlias e := by
  refine .bind (type?_gives h n.type? _ _) fun target => ?_
  exact .pure fun w _ hw => ⟨target, hw.2, rfl⟩

theorem property_gives (position : Position) :
    Gives root o K (property n position visit) fun e w => w.Shows depth n .property e := by
  refine .bind (type?_gives h n.type? _ _) fun type => ?_
  exact .pure fun w _ hw => ⟨type, hw.2, rfl⟩

theorem accessor_gives : Gives root o K (accessor n visit) fun e w => w.Shows depth n .accessor e := by
  refine .bind (type?_gives h n.accessorType? _ _) fun type => ?_
  exact .pure fun w _ hw => ⟨type, hw.2, rfl⟩

end

theorem enumMember?_gives (v : Json) : Gives root o K (enumMember? v) fun m _ => View.enumMemberOf v = m := by
  unfold enumMember? View.enumMemberOf
  split
  · next m hm =>
    rw [hm]
    split
    · next htag =>
      refine .pure fun w _ _ => ?_
      rw [Option.filter_some, if_pos (decide_eq_true htag), Option.map_some]
    · next htag =>
      refine .bind (.report fun _ hx => nomatch hx) fun _ => .pure fun w _ _ => ?_
      rw [Option.filter_some, if_neg, Option.map_none]
      exact fun h => htag (of_decide_eq_true h)
  · next hm =>
    refine .bind (.report fun _ hx => nomatch hx) fun _ => .pure fun w _ _ => ?_
    rw [hm]
    rfl

theorem enumeration_gives (n : Node) : Gives root o K (enumeration n) fun e w => w.Shows depth n .enumDecl e := by
  refine .bind (.forEach (S := fun _ v m => View.enumMemberOf v = m) _ fun v _ => enumMember?_gives v) fun ms => ?_
  refine .pure fun w _ hw => ?_
  have hms := List.forall₂_map_left_iff.mpr hw.2
  rw [List.forall₂_eq_eq_eq] at hms
  rw [← hms, List.filterMap_map]
  rfl

/-- The entity of a node shows the node by the kind by which the node is recognized. -/
theorem declaration_gives {n : Node} {kind : DeclKind} {position : Position} {visit : Visitor n.value}
    (h : ∀ v, Faithful root o depth visit v) (hk : n.entityKind? position = some kind) :
    Gives root o K (declaration n kind position visit) fun e w => w.Shows depth n kind e := by
  cases kind with
  | moduleDecl | namespaceDecl =>
    refine .bind (scope_gives h) fun s => ?_
    exact .pure fun w _ hw => ⟨s, hw.2, rfl⟩
  | classDecl => exact classShape_gives h
  | interfaceDecl | interfaceLiteral | objectLiteral =>
    refine .bind (shape_gives h _) fun p => ?_
    exact .pure fun w _ hw => ⟨p.1, p.2, hw.2, rfl⟩
  | enumDecl => exact enumeration_gives n
  | typeAlias => exact typeAlias_gives h
  | property => exact property_gives h position
  | accessor => exact accessor_gives h
  | function | method | constructor => exact callable_gives h _
  | indexSignature => exact absurd rfl (Node.recognize?_of_entityKind? hk).2

/-! ## Type expressions -/

/-- One level of a type expression gives what the expression denotes, if the visitor is faithful to its parts and its
arguments. -/
theorem ofTypeExpr_gives {v : Json} {visit : Visitor v} {e : TypeExpr} (position : Position)
    (inside : ∀ w ∈ e.parts, w.Inside v) (he : TypeExpr.ofJson v = e) (hv : TypeExpr.Nested root depth v)
    (hdepth : depth < o.maxTypeDepth) (hparts : ∀ w ∈ e.parts, Faithful root o (depth + 1) visit w)
    (harguments : ∀ w ∈ TypeExpr.argumentsOf v, Faithful root o (depth + 1) visit w) :
    Gives root o K (ofTypeExpr v position visit e inside) fun id w => w.Denotes depth v id := by
  have level {w : View} {id : EntityId} (ho : w.options = o)
      (hw : w.Level (w.Denotes (depth + 1)) (TypeExpr.argumentsOf v) id e) : w.Denotes depth v id := by
    rw [View.denotes_of_lt (ho ▸ hdepth), he]
    exact hw
  have arguments {K : View → Prop} : Gives root o K (typeArguments v visit) fun as w =>
      List.Forall₂ (w.Denotes (depth + 1)) (TypeExpr.argumentsOf v) as :=
    types_gives harguments _ _
  cases e with
  | intrinsic | unknown => exact .pure fun w ho _ => level ho rfl
  | malformedReference =>
    refine .bind (.report fun _ hx => nomatch hx) fun _ => ?_
    exact .pure fun w ho _ => level ho rfl
  | internalReference d =>
    refine .bind arguments fun _ => ?_
    exact (Gives.follow d).imp fun id w ho _ hw => level ho hw
  | reflection decl =>
    refine .bind ((hparts decl List.mem_cons_self).declaration _ position) fun r => ?_
    exact .pure fun w ho hw => level ho ⟨r, hw.2, rfl⟩
  | array element =>
    refine .bind ((hparts element List.mem_cons_self).type _ position) fun m => ?_
    refine .bind arguments fun as => .alloc rfl hv fun w ho hw id hid => ?_
    exact level ho ⟨m, as, hw.1.2, hw.2, hid⟩
  | union members | intersection members =>
    refine .bind (types_gives hparts inside position) fun ms => ?_
    refine .bind arguments fun as => .alloc rfl hv fun w ho hw id hid => ?_
    exact level ho ⟨ms, as, hw.1.2, hw.2, hid⟩
  | externalReference | stringLiteral | typeParameter | typeOperator =>
    refine .bind arguments fun as => .alloc rfl hv fun w ho hw id hid => ?_
    exact level ho ⟨as, hw.2, hid⟩

/-- A type expression above the greatest depth gives what it denotes. -/
theorem typeExpr_gives {v : Json} {visit : Visitor v} (position : Position) (hv : TypeExpr.Nested root depth v)
    (hdepth : depth < o.maxTypeDepth)
    (h : ∀ w, w ∈ (TypeExpr.ofJson v).parts ∨ w ∈ TypeExpr.argumentsOf v → Faithful root o (depth + 1) visit w) :
    Gives root o K (typeExpr v position visit) fun id w => w.Denotes depth v id :=
  ofTypeExpr_gives position _ rfl hv hdepth (fun w hw => h w (.inl hw)) fun w hw => h w (.inr hw)

end Build

end EntityGraph

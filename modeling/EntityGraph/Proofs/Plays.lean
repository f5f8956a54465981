import EntityGraph.Proofs.Agenda

/-!
# What the builders do

`Build.Plays m script` says that wherever the step `m` ends from a coherent state, it has worked `script` off. The
builders play the scripts of what they build, if their visitor plays those of the values inside (`Build.Player`), and
the visitors of a document do (`visitor_plays`), by induction on the size of the value. So a pass over a document works
off the script of the root, with all that this puts on the agenda (`pass_performs`).
-/

namespace EntityGraph

namespace Build

variable {α β : Type} {root : Json} {o : Options} {s t : State} {held : List EntityId} {depth : Nat}

/-- Where `m` ends from a coherent state, it has worked the script off. -/
def Plays (root : Json) (o : Options) (m : Build α) (script : List Act) : Prop :=
  ∀ ⦃held s a t⦄, s.Coherent root o held → m (.ofRoot root o) s = .ok (a, t) → Performs root o script s t

/-- A step ends in one way only. -/
theorem Reaches.eq_of_run {m : Build α} {Q : α → State → Prop} (h : Reaches root o s m Q) {a : α}
    (hrun : m (.ofRoot root o) s = .ok (a, t)) : s.Advances root t ∧ Q a t := by
  obtain ⟨a', t', hrun', hst, ha⟩ := h
  rw [hrun] at hrun'
  cases hrun'
  exact ⟨hst, ha⟩

namespace Plays

variable {m : Build α} {f : α → Build β} {as bs : List Act}

theorem pure (a : α) : Plays root o (pure a) [] := by
  intro held s a t _ hrun
  cases hrun
  exact .nil s

theorem bind {P : α → View → Prop} (hg : Gives root o (fun _ => True) m P) (hm : Plays root o m as)
    (hf : ∀ a, Plays root o (f a) bs) : Plays root o (m >>= f) (as ++ bs) := by
  intro held s b u hs hrun
  obtain ⟨a, t, hrun', _, ht, _⟩ := hg hs fun _ _ => trivial
  rw [bind_run, hrun'] at hrun
  exact (hm hs hrun').append (hf a ht hrun)

theorem bind_pure (hm : Plays root o m as) (f : α → β) : Plays root o (do let a ← m; return f a) as := by
  intro held s b u hs hrun
  obtain ⟨a, t, hrun, hpure⟩ := exists_of_bind hrun
  cases hpure
  exact hm hs hrun

theorem read_bind {f : Context → Build β} (h : Plays root o (f (.ofRoot root o)) bs) :
    Plays root o (read >>= f) bs :=
  fun _ _ _ _ hs hrun => h hs hrun

theorem forEach {V : α → Prop} {P : α → β → View → Prop} {step : (x : α) → V x → Build β} {script : α → List Act}
    {xs : List α} {holds : ∀ x ∈ xs, V x}
    (hg : ∀ x (hx : x ∈ xs), Gives root o (fun _ => True) (step x (holds x hx)) (P x))
    (h : ∀ x (hx : x ∈ xs), Plays root o (step x (holds x hx)) (script x)) :
    Plays root o (forEach xs holds step) (xs.flatMap script) := by
  induction xs with
  | nil => exact .pure []
  | cons x xs ih =>
    refine .bind (hg x List.mem_cons_self) (h x List.mem_cons_self) fun y => .bind_pure ?_ _
    exact ih (fun x' hx' => hg x' (List.mem_cons_of_mem x hx')) fun x' hx' => h x' (List.mem_cons_of_mem x hx')

theorem report (x : Diagnostic) : Plays root o (report x) [.report x] := by
  intro held s _ t _ hrun
  cases hrun
  exact .act (.report s x) .refl

theorem alloc {e : Entity} (hid : e.declId? = none) : Plays root o (alloc e) [.store] := by
  intro held s _ t _ hrun
  cases hrun
  exact .act (.store s hid) .refl

end Plays

/-! ## Entering and following -/

theorem enter_of_settled {n : Node} {r : Resolution} (hr : s.resolutions.lookup? n.id = some r) (position : Position)
    (c : Context) : enter n position c s = .ok (.settled r, s) := by
  rw [enter, get_bind_run, hr]
  rfl

theorem enter_of_unrecognized {n : Node} {position : Position} (hopen : s.resolutions.lookup? n.id = none)
    (hk : n.entityKind? position = none) (c : Context) :
    enter n position c s = .ok (.settled ⟨Builtin.unknown, none⟩, { s with
      diagnostics := s.diagnostics.push (.unrecognizedDeclaration (some n.id) (some n.kindString))
      resolutions := s.resolutions.insert n.id ⟨Builtin.unknown, none⟩ }) := by
  rw [enter, get_bind_run, hopen, hk]
  show Except.ok (Entry.settled (s.resolutions.pin n.id Builtin.unknown).1, { s with
    diagnostics := s.diagnostics.push (.unrecognizedDeclaration (some n.id) (some n.kindString))
    resolutions := (s.resolutions.pin n.id Builtin.unknown).2 }) = _
  rw [Resolutions.pin_of_open hopen]

theorem enter_of_recognized {n : Node} {position : Position} {kind : DeclKind}
    (hopen : s.resolutions.lookup? n.id = none) (hk : n.entityKind? position = some kind) (c : Context) :
    enter n position c s = .ok (.fresh kind s.arena.nextId, { s with
      resolutions := s.resolutions.insert n.id ⟨s.arena.nextId, some kind⟩
      arena := s.arena.reserve.2 }) := by
  have hreserve : reserve n.id kind c s = .ok (.fresh s.arena.nextId, { s with
      resolutions := s.resolutions.insert n.id ⟨s.arena.nextId, some kind⟩
      arena := s.arena.reserve.2 }) := by
    show Except.ok ((s.resolutions.reserve n.id kind s.arena).1, { s with
      resolutions := (s.resolutions.reserve n.id kind s.arena).2.1
      arena := (s.resolutions.reserve n.id kind s.arena).2.2 }) = _
    rw [Resolutions.reserve_of_open hopen]
  rw [enter, get_bind_run, hopen, hk]
  dsimp only
  rw [bind_run, hreserve]
  rfl

/-- A reference finds what is settled, or else the declaration in the index, or else nothing. -/
theorem does_of_target (hs : s.Coherent root o held) {d : DeclId} {m : EntityId}
    (hrun : target d (.ofRoot root o) s = .ok (m, t)) : Does root o (.follow d) s [] t := by
  rw [target, get_bind_run] at hrun
  cases hd : s.resolutions.lookup? d with
  | some r =>
    rw [hd] at hrun
    cases hrun
    exact .known (hs.settled hd).carriedIn rfl hd
  | none =>
    rw [hd] at hrun
    dsimp only at hrun
    rw [read_bind_run] at hrun
    cases hn : (Context.ofRoot root o).index.lookup? d with
    | none =>
      rw [hn] at hrun
      cases hrun
      exact .missing s (Index.lookup?_eq_none_iff.mp hn)
    | some n =>
      obtain ⟨hstands, rfl⟩ := Index.standsIn_of_lookup? hn
      rw [hn] at hrun
      simp only [enterLater, bind_run] at hrun
      cases hk : n.entityKind? .reference with
      | none =>
        rw [enter_of_unrecognized hd hk] at hrun
        cases hrun
        exact .pin hstands hn hd hk
      | some kind =>
        rw [enter_of_recognized hd hk] at hrun
        cases hrun
        exact .wait hstands hn hd hk

theorem Plays.follow (d : DeclId) : Plays root o (follow d) [.follow d] := by
  intro held s m u hs hrun
  obtain ⟨m', t, htarget, _⟩ := target_reaches hs d
  rw [Build.follow, bind_run, htarget] at hrun
  cases hrun
  have hact := Step.act [] (does_of_target hs htarget)
  exact .tail (.single hact) (.refer [] t d m')

/-! ## Builders -/

/-- A visitor gives what a value inside its host stands for, and plays its script on the way. -/
structure Player (root : Json) (o : Options) (depth : Nat) {host : Json} (visit : Visitor host) (v : Json) : Prop
    extends Faithful root o depth visit v where
  playsType (inside : v.Inside host) (position : Position) :
    Plays root o (visit.type v inside position) (typeScript o depth position v)
  playsDeclaration (inside : v.Inside host) (position : Position) :
    Plays root o (visit.declaration v inside position) [.declare depth position v]

theorem Player.of_inside {host v : Json} {visit : Visitor host}
    (h : v.Inside host → Player root o depth visit v) : Player root o depth visit v where
  toFaithful := .of_inside fun inside => (h inside).toFaithful
  playsType inside := (h inside).playsType inside
  playsDeclaration inside := (h inside).playsDeclaration inside

theorem Player.within {host part v : Json} {visit : Visitor host} (h : Player root o depth visit v)
    (hpart : part.Inside host) : Player root o depth (visit.within hpart) v where
  toFaithful := h.toFaithful.within hpart
  playsType inside := h.playsType (inside.trans hpart)
  playsDeclaration inside := h.playsDeclaration (inside.trans hpart)

section

variable {host : Json} {visit : Visitor host}

theorem types_plays {vs : List Json} (h : ∀ v ∈ vs, Player root o depth visit v) (inside : ∀ v ∈ vs, v.Inside host)
    (position : Position) :
    Plays root o (visit.types vs inside position) (vs.flatMap (typeScript o depth position)) :=
  .forEach (fun v hv => (h v hv).type (inside v hv) position) fun v hv => (h v hv).playsType (inside v hv) position

variable (h : ∀ v, Player root o depth visit v)

include h

theorem type?_plays (v? : Option Json) (inside : ∀ v, v? = some v → v.Inside host) (position : Position) :
    Plays root o (visit.type? v? inside position) (type?Script o depth position v?) := by
  cases v? with
  | none => exact .pure _
  | some v =>
    have hv := (h v).playsType (inside v rfl) position
    rwa [type?Script, Option.toList_some, List.flatMap_singleton]

theorem members_plays (children : List Json) (inside : ∀ v ∈ children, v.Inside host) (position : Position) :
    Plays root o (visit.members children inside position) (membersScript o depth position children) := by
  rw [membersScript, List.map_eq_flatMap]
  refine .read_bind (.bind_pure (.forEach (P := fun _ _ _ => True) (fun v hv => ?_) fun v hv => ?_) _)
  · exact .bind ((h v).declaration _ position) fun r => .pure fun _ _ _ => trivial
  · exact .bind_pure ((h v).playsDeclaration _ position) _

theorem parameter?_plays (v : Json) (inside : v.Inside host) :
    Plays root o (parameter? visit v inside) (parameterScript o depth v) := by
  unfold parameter?
  split
  · next p hp =>
    have hscript : parameterScript o depth v = type?Script o depth .declaredType p.type? := by rw [parameterScript, hp]
    rw [hscript]
    exact .bind_pure (type?_plays (fun w => (h w).within (Node.inside_of_ofJson? hp inside)) p.type? _ _) _
  · next hp =>
    rw [parameterScript, hp]
    exact .bind_pure (.report _) _

theorem indexSignature?_plays (v : Json) (inside : v.Inside host) :
    Plays root o (indexSignature? visit v inside) (indexSignatureScript o depth v) := by
  unfold indexSignature?
  split
  · next n hn =>
    split
    · next hk =>
      have hwithin := fun w => (h w).within (Node.inside_of_ofJson? hn inside)
      have hscript : indexSignatureScript o depth v =
          type?Script o depth .declaredType n.firstParameterType? ++ type?Script o depth .declaredType n.type? := by
        rw [indexSignatureScript, hn, Option.filter_some, if_pos (decide_eq_true hk)]
      rw [hscript]
      refine .bind (type?_gives (fun w => (hwithin w).toFaithful) n.firstParameterType? _ _)
        (type?_plays hwithin n.firstParameterType? _ _) fun indexType => ?_
      exact .bind_pure (type?_plays hwithin n.type? _ _) _
    · next hk =>
      rw [indexSignatureScript, hn, Option.filter_some, if_neg fun h => hk (of_decide_eq_true h)]
      exact .bind_pure (.report _) _
  · next hn =>
    rw [indexSignatureScript, hn, Option.filter_none]
    exact .bind_pure (.report _) _

end

section

variable {n : Node} {visit : Visitor n.value} (h : ∀ v, Player root o depth visit v)

include h

theorem indexSignatureOf_plays :
    Plays root o (indexSignatureOf n visit) (n.indexSignature?.toList.flatMap (indexSignatureScript o depth)) := by
  unfold indexSignatureOf
  split
  · next v inside hv _ =>
    rw [hv, Option.toList_some, List.flatMap_singleton]
    exact indexSignature?_plays h v _
  · next hv _ =>
    rw [hv]
    exact .pure _

theorem shape_plays (kind : DeclKind) :
    Plays root o (shape n kind visit) (shapeScript o depth n kind.bodyPosition) := by
  have hf := fun v => (h v).toFaithful
  refine .bind (types_gives (fun v _ => hf v) _ _) (types_plays (fun v _ => h v) _ _) fun typeArguments => ?_
  refine .bind (types_gives (fun v _ => hf v) _ _) (types_plays (fun v _ => h v) _ _) fun extendedTypes => ?_
  refine .bind (types_gives (fun v _ => hf v) _ _) (types_plays (fun v _ => h v) _ _) fun implementedTypes => ?_
  refine .bind (members_gives hf n.children _ _) (members_plays h n.children _ _) fun ms => ?_
  exact .bind_pure (indexSignatureOf_plays h) _

theorem signature_plays : Plays root o (signature n visit) (signatureScript o depth n) := by
  have hgives (v : Json) (hv : v ∈ n.parameters) :=
    parameter?_gives (K := fun _ => True) (fun w => (h w).toFaithful) v (Node.inside_parameters hv)
  refine .bind (.forEach (S := fun w => w.ParameterOf depth) _ hgives)
    (.forEach (P := fun v p w => w.ParameterOf depth v p) hgives fun v _ => parameter?_plays h v _) fun parameters => ?_
  exact .bind_pure (type?_plays h n.type? _ _) _

theorem callable_plays (kind : CallableKind) : Plays root o (callable n kind visit) (callableScript o depth n) := by
  have hs (m : Node) (hm : m ∈ n.signatureNodes) (v : Json) :
      Player root o depth (visit.within (Node.inside_signatureNodes hm)) v :=
    (h v).within _
  have hgives (m : Node) (hm : m ∈ n.signatureNodes) :=
    signature_gives (K := fun _ => True) fun v => (hs m hm v).toFaithful
  refine .bind (.forEach (S := fun w => w.SignatureOf depth) _ hgives)
    (.forEach (P := fun m s w => w.SignatureOf depth m s) hgives fun m hm => signature_plays (hs m hm))
    fun signatures => ?_
  exact .bind_pure (types_plays (fun v _ => h v) _ _) _

end

theorem enumMember?_plays (v : Json) : Plays root o (enumMember? v) (enumMemberScript v) := by
  unfold enumMember?
  split
  · next m hm =>
    split
    · next htag =>
      have hscript : enumMemberScript v = [] := by simp only [enumMemberScript, hm, htag, if_true]
      rw [hscript]
      exact .pure _
    · next htag =>
      have hscript : enumMemberScript v = [.report (.unrecognizedDeclaration (some m.id) (some m.kindString))] := by
        simp only [enumMemberScript, hm, htag, if_false]
      rw [hscript]
      exact .bind_pure (.report _) _
  · next hm =>
    rw [enumMemberScript, hm]
    exact .bind_pure (.report _) _

/-- The entity of a node is made by the script of the node. -/
theorem declaration_plays {n : Node} {kind : DeclKind} {position : Position} {visit : Visitor n.value}
    (h : ∀ v, Player root o depth visit v) (hk : n.entityKind? position = some kind) :
    Plays root o (declaration n kind position visit) (n.script o depth kind position) := by
  cases kind with
  | moduleDecl | namespaceDecl => exact .bind_pure (.bind_pure (members_plays h n.children _ _) _) _
  | classDecl | interfaceDecl | interfaceLiteral | objectLiteral => exact .bind_pure (shape_plays h _) _
  | enumDecl => exact .bind_pure (.forEach (fun v _ => enumMember?_gives v) fun v _ => enumMember?_plays v) _
  | typeAlias => exact .bind_pure (type?_plays h n.type? _ _) _
  | property => exact .bind_pure (type?_plays h n.type? _ _) _
  | accessor => exact .bind_pure (type?_plays h n.accessorType? _ _) _
  | function | method | constructor => exact callable_plays h _
  | indexSignature => exact absurd rfl (Node.recognize?_of_entityKind? hk).2

/-! ## Type expressions -/

/-- One level of a type expression plays its script, if the visitor plays those of its parts and its arguments. -/
theorem ofTypeExpr_plays {v : Json} {visit : Visitor v} {e : TypeExpr} (position : Position)
    (inside : ∀ w ∈ e.parts, w.Inside v) (hparts : ∀ w ∈ e.parts, Player root o (depth + 1) visit w)
    (harguments : ∀ w ∈ TypeExpr.argumentsOf v, Player root o (depth + 1) visit w) :
    Plays root o (ofTypeExpr v position visit e inside)
      (levelScript (typeScript o (depth + 1)) depth position (TypeExpr.argumentsOf v) e) := by
  have gives := types_gives (K := fun _ => True) (fun w hw => (harguments w hw).toFaithful)
    (fun _ => TypeExpr.inside_of_mem_arguments) .declaredType
  have arguments : Plays root o (typeArguments v visit)
      ((TypeExpr.argumentsOf v).flatMap (typeScript o (depth + 1) .declaredType)) :=
    types_plays harguments _ _
  cases e with
  | intrinsic | unknown => exact .pure _
  | malformedReference => exact .bind_pure (.report _) _
  | internalReference d => exact .bind gives arguments fun _ => .follow d
  | reflection decl => exact .bind_pure ((hparts decl List.mem_cons_self).playsDeclaration _ position) _
  | array element =>
    have helement := hparts element List.mem_cons_self
    refine .bind (helement.type (inside element List.mem_cons_self) position) (helement.playsType _ position)
      fun m => ?_
    exact .bind gives arguments fun as => .alloc rfl
  | union members | intersection members =>
    refine .bind (types_gives (fun w hw => (hparts w hw).toFaithful) inside position)
      (types_plays hparts inside position) fun ms => ?_
    exact .bind gives arguments fun as => .alloc rfl
  | externalReference | stringLiteral | typeParameter | typeOperator =>
    exact .bind gives arguments fun as => .alloc rfl

/-! ## Visits -/

/-- Building the entity of a declaration into its slot works off the tasks of the declaration, once it is on record that
the entity is begun. -/
theorem build_steps {p : Waiting} {visit : Visitor p.node.value} (h : s.Coherent root o (p.slot :: held))
    (hp : p.Recognized root) (hplayer : ∀ v, Player root o depth visit v)
    (hrun : build p.node p.kind p.position p.slot visit (.ofRoot root o) s = .ok ((), t)) :
    Steps root o ⟨tasks o depth p, { s with begun := p.node.id :: s.begun }⟩ ⟨[], t⟩ := by
  have hbegun := h.begin p.node.id
  obtain ⟨e, u, hrun', hsu, hu, hshow⟩ :=
    declaration_gives (K := fun _ => True) (fun v => (hplayer v).toFaithful) hp.2 hbegun fun _ _ => trivial
  replace hrun : (declaration p.node p.kind p.position visit >>= fill p.slot) (.ofRoot root o)
    { s with begun := p.node.id :: s.begun } = .ok ((), t) := hrun
  rw [bind_run, hrun'] at hrun
  have hslot : u.arena.get? p.slot = some none := hu.vacant.mpr (List.mem_append_right _ List.mem_cons_self)
  obtain ⟨_, b, hb, rfl⟩ := (fill_reaches hslot e).eq_of_run hrun
  exact (declaration_plays hplayer hp.2 hbegun hrun').tasks hshow hb

theorem visitDeclaration_plays {v : Json} {n : Node} (hn : Node.ofJson? v = some n)
    (hv : TypeExpr.Nested root depth v) (h : ∀ w, Player root o depth (visitor depth n.value) w) (position : Position) :
    Plays root o (visitDeclaration depth v position) [.declare depth position v] := by
  have hstands := Node.standsIn_of_ofJson? hn hv.within
  have hdepth : TypeExpr.Nested root depth n.value := (Node.value_of_ofJson? hn).symm ▸ hv
  have htarget : (Act.declare depth position v).target? = some n.id := by rw [Act.target?, hn, Option.map_some]
  rw [visitDeclaration_of_node hn]
  intro held s r t hs hrun
  rw [bind_run] at hrun
  cases hopen : s.resolutions.lookup? n.id with
  | some found =>
    rw [enter_of_settled hopen] at hrun
    cases hrun
    exact .act (.known ⟨n, hstands, rfl⟩ htarget hopen) .refl
  | none =>
    cases hk : n.entityKind? position with
    | none =>
      rw [enter_of_unrecognized hopen hk] at hrun
      cases hrun
      exact .act (.pin hstands hn hopen hk) .refl
    | some kind =>
      rw [enter_of_recognized hopen hk] at hrun
      obtain ⟨_, u, hbuild, _⟩ := build_reaches (hs.enter hstands hdepth hk hopen) hstands hdepth hk
        (Resolutions.lookup?_insert_self ..) (declaration_gives (fun w => (h w).toFaithful) hk)
      replace hrun : ((build n kind position s.arena.nextId (visitor depth n.value) (.ofRoot root o) _).bind
        fun p => .ok ((⟨s.arena.nextId, some kind⟩ : Resolution), p.2)) = .ok (r, t) := hrun
      rw [hbuild] at hrun
      cases hrun
      refine .act (.enter hstands hn hopen hk) ?_
      exact build_steps (p := ⟨n, kind, position, s.arena.nextId⟩) (hs.enter hstands hdepth hk hopen) ⟨hstands, hk⟩ h
        hbuild

/-- The visitors of a document play the scripts of its values, by induction on the size of the value. -/
theorem visitor_plays {depth : Nat} {host v : Json} (hv : TypeExpr.Nested root depth v) :
    Player root o depth (visitor depth host) v := by
  refine ⟨visitor_faithful hv, fun _ position => ?_, fun _ position => ?_⟩
  · show Plays root o (visitType depth v position) _
    rw [visitType_eq]
    refine .read_bind ?_
    split
    · next hle =>
      rw [typeScript_of_le (o := o) hle]
      exact .bind_pure (.report _) _
    · next hlt =>
      rw [typeScript_of_lt (o := o) (Nat.lt_of_not_le hlt)]
      have hinner (w : Json) (hw : w ∈ (TypeExpr.ofJson v).parts ∨ w ∈ TypeExpr.argumentsOf v) :
          Player root o (depth + 1) (visitor (depth + 1) v) w := by
        have := (TypeExpr.inside_of_mem hw).sizeOf_lt
        exact visitor_plays (.part hv hw)
      exact ofTypeExpr_plays position _ (fun w hw => hinner w (.inl hw)) fun w hw => hinner w (.inr hw)
  · show Plays root o (visitDeclaration depth v position) _
    cases hn : Node.ofJson? v with
    | none =>
      rw [visitDeclaration_of_unreadable hn]
      intro held s r t _ hrun
      cases hrun
      exact .act (.unreadable s hn) .refl
    | some n =>
      refine visitDeclaration_plays hn hv (fun w => .of_inside fun inside => ?_) position
      rw [Node.value_of_ofJson? hn] at inside
      have := inside.sizeOf_lt
      exact visitor_plays (.inside hv inside)
termination_by sizeOf v

/-! ## Whole passes -/

theorem modules_plays : Plays root o (modules root) (root.script o) := by
  have hplayer (v : Json) (hv : v ∈ (root.listAt "children").filter fun v => !o.skipsModule v) :
      Player root o 0 (visitor 0 root) v :=
    visitor_plays (.of_within (.inr (Json.inside_of_mem_listAt (List.mem_filter.mp hv).1)))
  rw [Json.script, List.map_eq_flatMap]
  refine .read_bind (.bind_pure (.forEach (P := fun v r w => w.Resolves v r) (fun v hv => ?_) fun v hv => ?_) _)
  · exact (hplayer v hv).declaration _ _
  · exact (hplayer v hv).playsDeclaration _ _

/-- The declarations that wait are resumed one after the other. -/
theorem settle_steps (rounds : Nat) : ∀ {s t : State}, s.Coherent root o [] →
    settle rounds (.ofRoot root o) s = .ok ((), t) → Steps root o ⟨[], s⟩ ⟨[], t⟩ := by
  induction rounds with
  | zero =>
    intro s t _ hrun
    cases hrun
    exact .refl
  | succ rounds ih =>
    intro s t hs hrun
    cases hwaiting : s.waiting with
    | nil =>
      rw [settle_nil hwaiting] at hrun
      cases hrun
      exact .refl
    | cons p rest =>
      obtain ⟨hn, hk, _⟩ := hs.entered (hwaiting ▸ List.mem_cons_self : p ∈ s.waiting)
      have hplayer (w : Json) : Player root o 0 (visitor 0 p.node.value) w :=
        .of_inside fun inside => visitor_plays (.of_within (.inr (hn.2.inside inside)))
      obtain ⟨_, u, hbuild, _, hu, _⟩ := build_resumed_reaches hs hwaiting
      rw [settle_cons hwaiting, hbuild] at hrun
      have hstep : Step root o ⟨[], s⟩ _ := .resume [] hwaiting
      rw [List.append_nil] at hstep
      exact .head hstep ((build_steps (hs.resume hwaiting) ⟨hn, hk⟩ hplayer hbuild).trans (ih hu hrun))

/-- A pass over a document works off the script of its root. -/
theorem pass_performs {ids : List EntityId} (h : pass root (.ofRoot root o) (.start root) = .ok (ids, t)) :
    Performs root o (root.script o) (.start root) t := by
  obtain ⟨ids', s, u, hmodules, hs, hsettle, _, hpass⟩ := exists_rounds root o
  rw [h] at hpass
  cases hpass
  exact (modules_plays (State.start_coherent root o) hmodules).trans (settle_steps _ hs hsettle)

end Build

namespace Graph

open Build (Performs)

variable {root : Json} {o : Options} {g : Graph} {t : Build.State}

/-! ## The run of a document -/

/-- A document is resolved by a run that works off the script of its root. -/
theorem exists_run (h : ofJson root o = .ok g) :
    ∃ t, g.EndsIn root o t ∧ t.waiting = [] ∧ Performs root o (root.script o) (.start root) t := by
  obtain ⟨_, t, hpass, hwaiting, ht⟩ := exists_pass_of_ofJson h
  exact ⟨t, ht, hwaiting, Build.pass_performs hpass⟩

/-- The entity of a declaration shows a node of which the whole script is done. -/
theorem EndsIn.built (ht : g.EndsIn root o t) (hrun : Performs root o (root.script o) (.start root) t) {m : EntityId}
    {e : Entity} {d : DeclId} (hm : g.get? m = some e) (hid : e.declId? = some d) :
    ∃ (depth : Nat) (p : Waiting), p.Recognized root ∧ p.node.id = d ∧ g.view.Shows depth p.node p.kind e ∧
      ∀ a ∈ p.script o depth, t.Done root a := by
  obtain ⟨depth, p, hp, hd, hshow, hdone⟩ := hrun.built (ht.get?_eq_some_iff.mp hm) hid
  exact ⟨depth, p, hp, hd, ht.ensured hshow, hdone⟩

/-- What is reported at the end of the pass is among the diagnostics. -/
theorem EndsIn.mem_diagnostics (ht : g.EndsIn root o t) {x : Diagnostic} (hx : x ∈ t.diagnostics) :
    x ∈ g.diagnostics := by
  rw [ht.diagnostics]
  exact Array.mem_toList_iff.mpr hx

end Graph

end EntityGraph

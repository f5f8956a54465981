import EntityGraph.Proofs.Congruence
import EntityGraph.Proofs.Faithfulness

/-!
# The greatest depth

A greater depth for type expressions changes nothing until it is hit: a document that is resolved without cutting a type
expression off has the same graph for every greater depth (`Graph.ofJson_of_deeper`).

`Build.Deepens` says this of a step: where it ends without a cut, it does the same with the greater depth. Only
`visitType` looks at the depth, and only to cut off (`visitType_deepens`); all the other builders read the flags and the
index, which are the same, and put such steps together (`Deepens.congruence`).
-/

namespace EntityGraph

namespace Build

variable {α β : Type} {c : Context} {limit : Nat} {s : State}

/-- The same document and flags with another greatest depth. -/
def Context.withLimit (c : Context) (limit : Nat) : Context :=
  { c with options := { c.options with maxTypeDepth := limit } }

/-- Nothing has been cut off so far. -/
def State.Uncut (s : State) : Prop := ∀ depth, Diagnostic.typeDepthExceeded depth ∉ s.diagnostics

theorem State.Uncut.of_report {x : Diagnostic} (h : State.Uncut { s with diagnostics := s.diagnostics.push x }) :
    s.Uncut :=
  fun depth hd => h depth (Array.mem_push_of_mem x hd)

/-- Where the step ends without a cut, nothing was cut off before, and it ends the same with another limit. -/
def Deepens (c : Context) (limit : Nat) (m : Build α) : Prop :=
  ∀ ⦃s a t⦄, m c s = .ok (a, t) → t.Uncut → s.Uncut ∧ m (c.withLimit limit) s = .ok (a, t)

namespace Deepens

variable {m : Build α} {f : α → Build β}

theorem pure (a : α) : Deepens c limit (pure a) := by
  intro s b t hrun hcut
  cases hrun
  exact ⟨hcut, rfl⟩

theorem bind (hm : Deepens c limit m) (hf : ∀ a, Deepens c limit (f a)) : Deepens c limit (m >>= f) := by
  intro s b u hrun hcut
  rw [bind_run] at hrun ⊢
  cases hrun' : m c s with
  | error breach =>
    rw [hrun'] at hrun
    cases hrun
  | ok p =>
    obtain ⟨a, t⟩ := p
    rw [hrun'] at hrun
    obtain ⟨ht, hdeep⟩ := hf a hrun hcut
    obtain ⟨hs, hdeep'⟩ := hm hrun' ht
    refine ⟨hs, ?_⟩
    rw [hdeep']
    exact hdeep

theorem get_bind {f : State → Build β} (h : ∀ x, Deepens c limit (f x)) : Deepens c limit (get >>= f) :=
  fun _ _ _ hrun hcut => h _ hrun hcut

/-- A step may read what does not depend on the limit. -/
theorem read_bind {f : Context → Build β} (same : f (c.withLimit limit) = f c) (h : Deepens c limit (f c)) :
    Deepens c limit (read >>= f) := by
  intro s b t hrun hcut
  obtain ⟨hs, hdeep⟩ := h hrun hcut
  refine ⟨hs, ?_⟩
  show f (c.withLimit limit) (c.withLimit limit) s = _
  rw [same]
  exact hdeep

/-! ## Changes of the state -/

theorem report (x : Diagnostic) : Deepens c limit (report x) := by
  intro s a t hrun hcut
  cases hrun
  exact ⟨hcut.of_report, rfl⟩

/-- What is changed without a diagnostic is changed in the same way. -/
theorem modifyGet {f : State → α × State} (h : ∀ s, (f s).2.diagnostics = s.diagnostics) :
    Deepens c limit (modifyGet f) := by
  intro s a t hrun hcut
  have heq : f s = (a, t) := Except.ok.inj hrun
  have hdiagnostics : t.diagnostics = s.diagnostics := by rw [← h s, heq]
  refine ⟨fun depth hd => hcut depth ?_, hrun⟩
  rw [hdiagnostics]
  exact hd

theorem alloc (e : Entity) : Deepens c limit (alloc e) := .modifyGet fun _ => rfl

theorem fill (slot : EntityId) (e : Entity) : Deepens c limit (fill slot e) := by
  intro s a t hrun hcut
  rw [fill_run] at hrun ⊢
  refine ⟨?_, hrun⟩
  cases hb : s.arena.fill slot e with
  | error breach =>
    rw [hb] at hrun
    cases hrun
  | ok b =>
    rw [hb] at hrun
    cases hrun
    exact hcut

theorem reserve (d : DeclId) (kind : DeclKind) : Deepens c limit (reserve d kind) := .modifyGet fun _ => rfl

theorem pinUnknown (d : DeclId) : Deepens c limit (pinUnknown d) := .modifyGet fun _ => rfl

/-! ## Entering and following -/

theorem enter (n : Node) (position : Position) : Deepens c limit (enter n position) := by
  rw [Build.enter]
  refine .get_bind fun s => ?_
  split
  · exact .pure _
  · split
    · exact .bind (.report _) fun _ => .bind (.pinUnknown _) fun _ => .pure _
    · refine .bind (.reserve _ _) fun r => ?_
      cases r with
      | existing found => exact .pure _
      | fresh slot => exact .pure _

theorem unreadable (v : Json) : Deepens c limit (unreadable v) := .bind (.report _) fun _ => .pure _

theorem enterLater (n : Node) (position : Position) : Deepens c limit (enterLater n position) := by
  refine .bind (.enter n position) fun entry => ?_
  cases entry with
  | settled found => exact .pure _
  | fresh kind slot => exact .bind (.modifyGet fun _ => rfl) fun _ => .pure _

theorem target (d : DeclId) : Deepens c limit (target d) := by
  rw [Build.target]
  refine .get_bind fun s => ?_
  split
  · exact .pure _
  · refine .read_bind rfl ?_
    split
    · exact .bind (.enterLater _ _) fun _ => .pure _
    · exact .bind (.report _) fun _ => .pure _

theorem follow (d : DeclId) : Deepens c limit (follow d) :=
  .bind (.target d) fun _ => .bind (.modifyGet fun _ => rfl) fun _ => .pure _

/-- Builders read the flags and the index, which do not depend on the limit. -/
theorem congruence : Congruence fun m _ => Deepens c limit m where
  pure := .pure
  bind := .bind
  read_bind same h := .read_bind (same c limit) (h c)
  report := .report
  alloc := .alloc
  follow := .follow

theorem forEach {V : α → Prop} {step : (x : α) → V x → Build β} {xs : List α} {holds : ∀ x ∈ xs, V x}
    (h : ∀ x (hx : x ∈ xs), Deepens c limit (step x (holds x hx))) : Deepens c limit (forEach xs holds step) :=
  @Congruence.forEach _ congruence _ _ _ step step _ _ h

end Deepens

/-! ## Builders -/

/-- A visitor resolves a value inside its host in the same way with another limit. -/
structure Deepener (c : Context) (limit : Nat) {host : Json} (visit : Visitor host) (v : Json) : Prop where
  type (inside : v.Inside host) (position : Position) : Deepens c limit (visit.type v inside position)
  declaration (inside : v.Inside host) (position : Position) : Deepens c limit (visit.declaration v inside position)

theorem Deepener.of_inside {host v : Json} {visit : Visitor host} (h : v.Inside host → Deepener c limit visit v) :
    Deepener c limit visit v :=
  ⟨fun inside => (h inside).type inside, fun inside => (h inside).declaration inside⟩

theorem Deepener.matches {host v : Json} {visit : Visitor host} (h : Deepener c limit visit v) :
    Matches (fun m _ => Deepens c limit m) visit visit v :=
  ⟨h.type, h.declaration⟩

/-- No kind of declaration looks at the limit. -/
theorem declaration_deepens {n : Node} {visit : Visitor n.value} (h : ∀ v, Deepener c limit visit v) (kind : DeclKind)
    (position : Position) : Deepens c limit (declaration n kind position visit) := by
  by_cases hk : kind = .indexSignature
  · subst hk
    intro s a t hrun
    cases hrun
  · exact Deepens.congruence.declaration (fun v => (h v).matches) hk position

theorem build_deepens {n : Node} {visit : Visitor n.value} (h : ∀ v, Deepener c limit visit v) (kind : DeclKind)
    (position : Position) (slot : EntityId) : Deepens c limit (build n kind position slot visit) :=
  .bind (.modifyGet fun _ => rfl) fun _ => .bind (declaration_deepens h kind position) fun e => .fill slot e

/-! ## Visits -/

/-- The limit is looked at to cut off, and what is not cut off below a limit is not cut off below a greater one. -/
theorem visitType_deepens (hlimit : c.options.maxTypeDepth ≤ limit) {depth : Nat} {v : Json} (position : Position)
    (h : Deepens c limit (typeExpr v position (visitor (depth + 1) v))) :
    Deepens c limit (visitType depth v position) := by
  intro s m t hrun hcut
  rw [visitType_eq, read_bind_run] at hrun ⊢
  split at hrun
  · cases hrun
    exact absurd Array.mem_push_self (hcut depth)
  · next hlt =>
    obtain ⟨hs, hdeep⟩ := h hrun hcut
    refine ⟨hs, ?_⟩
    have hlt' : ¬ (c.withLimit limit).options.maxTypeDepth ≤ depth := by
      show ¬ limit ≤ depth
      omega
    rw [if_neg hlt']
    exact hdeep

/-- The visitors do the same with a greater limit, by induction on the size of the value. -/
theorem visitor_deepens (hlimit : c.options.maxTypeDepth ≤ limit) (depth : Nat) {host : Json} (v : Json) :
    Deepener c limit (visitor depth host) v := by
  refine ⟨fun _ position => ?_, fun _ position => ?_⟩
  · show Deepens c limit (visitType depth v position)
    have hinner (w : Json) (hw : w ∈ (TypeExpr.ofJson v).parts ∨ w ∈ TypeExpr.argumentsOf v) :
        Deepener c limit (visitor (depth + 1) v) w := by
      have := (TypeExpr.inside_of_mem hw).sizeOf_lt
      exact visitor_deepens hlimit (depth + 1) w
    apply visitType_deepens hlimit
    exact Deepens.congruence.ofTypeExpr position _ (fun w hw => (hinner w (.inl hw)).matches) fun w hw =>
      (hinner w (.inr hw)).matches
  · show Deepens c limit (visitDeclaration depth v position)
    cases hn : Node.ofJson? v with
    | none =>
      rw [visitDeclaration_of_unreadable hn]
      exact .unreadable v
    | some n =>
      have hinner (w : Json) : Deepener c limit (visitor depth n.value) w := by
        refine .of_inside fun inside => ?_
        rw [Node.value_of_ofJson? hn] at inside
        have := inside.sizeOf_lt
        exact visitor_deepens hlimit depth w
      rw [visitDeclaration_of_node hn]
      refine .bind (.enter n position) fun entry => ?_
      cases entry with
      | settled found => exact .pure _
      | fresh kind slot => exact .bind (build_deepens hinner kind position slot) fun _ => .pure _
termination_by sizeOf v

/-! ## Whole passes -/

theorem modules_deepens (hlimit : c.options.maxTypeDepth ≤ limit) (root : Json) :
    Deepens c limit (modules root) :=
  .read_bind rfl (.bind (.forEach fun v _ => (visitor_deepens hlimit 0 v).declaration _ _) fun _ => .pure _)

theorem settle_deepens (hlimit : c.options.maxTypeDepth ≤ limit) (rounds : Nat) : Deepens c limit (settle rounds) := by
  induction rounds with
  | zero => exact .pure ()
  | succ rounds ih =>
    refine .get_bind fun s => ?_
    split
    · exact .pure ()
    · refine .bind (.modifyGet fun _ => rfl) fun _ => ?_
      exact .bind (build_deepens (fun v => visitor_deepens hlimit 0 v) _ _ _) fun _ => ih

theorem pass_deepens (hlimit : c.options.maxTypeDepth ≤ limit) (root : Json) : Deepens c limit (pass root) :=
  .bind (modules_deepens hlimit root) fun _ => .read_bind rfl (.bind (settle_deepens hlimit _) fun _ => .pure _)

end Build

namespace Graph

variable {root : Json} {o : Options} {g : Graph}

theorem ofPass_withLimit {ids : List EntityId} {t : Build.State} (h : ofPass o ids t = .ok g) (o' : Options) :
    ofPass o' ids t = .ok { g with options := o' } := by
  replace h : (t.arena.freeze.bind fun _ => _) = Except.ok g := h
  show (t.arena.freeze.bind fun _ => _) = _
  cases hes : t.arena.freeze with
  | error breach =>
    rw [hes] at h
    cases h
  | ok es =>
    rw [hes] at h
    cases h
    rfl

/-- A document that is resolved without a cut is resolved to the same graph with any greater depth. -/
theorem ofJson_of_deeper (h : ofJson root o = .ok g) (hcut : g.Uncut) {limit : Nat} (hlimit : o.maxTypeDepth ≤ limit) :
    ofJson root { o with maxTypeDepth := limit } = .ok { g with options := { o with maxTypeDepth := limit } } := by
  obtain ⟨hfault, hresolve⟩ := ofJson_eq_ok_iff.mp h
  obtain ⟨ids, t, hpass, _, ht⟩ := exists_pass_of_ofJson h
  rw [resolve_eq, hpass] at hresolve
  have hcut' : t.Uncut := by
    intro depth hd
    apply hcut depth
    rw [ht.diagnostics]
    exact Array.mem_toList_iff.mpr hd
  obtain ⟨_, hdeep⟩ := Build.pass_deepens hlimit root hpass hcut'
  refine ofJson_eq_ok_iff.mpr ⟨hfault, ?_⟩
  rw [resolve_eq]
  show (Build.pass root (Build.Context.withLimit (.ofRoot root o) limit) (.start root)).bind _ = _
  rw [hdeep]
  exact ofPass_withLimit hresolve _

/-- Two levels of types are enough for an alias of an array. -/
theorem ofJson_selfAndLost_of_deeper : ∃ g, ofJson selfAndLost { maxTypeDepth := 2 } = .ok g ∧ g.Uncut ∧
    ofJson selfAndLost {} = .ok { g with options := {} } := by
  have hrun : (ofJson selfAndLost { maxTypeDepth := 2 }).toOption.map Graph.diagnostics =
      some [.danglingReference ⟨9⟩] := by
    decide +kernel
  obtain ⟨g, hg⟩ := exists_ofJson (o := { maxTypeDepth := 2 }) (rfl : rootFault? selfAndLost = none)
  rw [hg] at hrun
  have hdiagnostics : g.diagnostics = [.danglingReference ⟨9⟩] := Option.some.inj hrun
  have hcut : g.Uncut := by
    intro depth hmem
    rw [hdiagnostics] at hmem
    simp at hmem
  exact ⟨g, hg, hcut, ofJson_of_deeper hg hcut (show 2 ≤ 256 by decide)⟩

end Graph

end EntityGraph

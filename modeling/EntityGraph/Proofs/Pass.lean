import EntityGraph.Proofs.Builders

/-!
# Whole passes

The visitors that resolve a document are faithful to every value of it (`visitor_faithful`), by induction on the size
of the value. A pass starts in a coherent state (`State.start_coherent`) whose load is at most the size of the index.
Each round of `settle` lowers the load, so that in the end nothing waits (`settle_reaches`); a pass over a document
therefore ends, without a breach, in a coherent state without empty slots (`pass_reaches`).
-/

namespace EntityGraph.Build

variable {root : Json} {o : Options} {K : View → Prop} {s t : State} {depth : Nat}

/-! ## Visits -/

/-- A node is settled as its id is; if it is new, it is built at once. -/
theorem visitDeclaration_gives {v : Json} {n : Node} (hn : Node.ofJson? v = some n)
    (hv : TypeExpr.Nested root depth v) (h : ∀ w, Faithful root o depth (visitor depth n.value) w)
    (position : Position) :
    Gives root o K (visitDeclaration depth v position) fun r w => w.Resolves v r := by
  have hstands := Node.standsIn_of_ofJson? hn hv.within
  have hdepth : TypeExpr.Nested root depth n.value := (Node.value_of_ofJson? hn).symm ▸ hv
  rw [visitDeclaration_of_node hn]
  intro held s hs _
  refine .bind (enter_reaches hs hstands hdepth position) fun entry t _ ht => ?_
  cases entry with
  | settled r => exact .pure ⟨ht.1, fun w hw => (View.resolves_of_node hn).mpr (hw.resolution ht.2)⟩
  | fresh kind slot =>
    obtain ⟨ht, hk, hr, _⟩ := ht
    refine .bind (build_reaches ht hstands hdepth hk hr (declaration_gives h hk)) fun _ u htu hu => ?_
    exact .pure ⟨hu.1, fun w hw => (View.resolves_of_node hn).mpr (hw.resolution (htu.settled hr))⟩

/-- The visitors of a document are faithful to its values, by induction on the size of the value: a type expression asks
for its parts and arguments one level deeper, a node for the values inside it at the same depth. -/
theorem visitor_faithful {depth : Nat} {host v : Json} (hv : TypeExpr.Nested root depth v) :
    Faithful root o depth (visitor depth host) v := by
  constructor
  · intro K _ position
    show Gives root o K (visitType depth v position) _
    rw [visitType_eq]
    refine .read_bind ?_
    split
    · next hle =>
      refine .bind (.report fun _ hx => nomatch hx) fun _ => ?_
      exact .pure fun w ho _ => (View.denotes_of_le (ho ▸ hle)).mpr rfl
    · next hlt =>
      refine typeExpr_gives position hv (Nat.lt_of_not_le hlt) fun w hw => ?_
      have := (TypeExpr.inside_of_mem hw).sizeOf_lt
      exact visitor_faithful (.part hv hw)
  · intro K _ position
    show Gives root o K (visitDeclaration depth v position) _
    cases hn : Node.ofJson? v with
    | none =>
      rw [visitDeclaration_of_unreadable hn]
      exact fun _ _ hs _ => unreadable_reaches hs hn
    | some n =>
      refine visitDeclaration_gives hn hv (fun w => .of_inside fun inside => ?_) position
      rw [Node.value_of_ofJson? hn] at inside
      have := inside.sizeOf_lt
      exact visitor_faithful (.inside hv inside)
termination_by sizeOf v

/-! ## Rounds -/

/-- A declaration that waits is built from where it was taken off the stack. -/
theorem build_resumed_reaches {p : Waiting} {rest : List Waiting} (h : s.Coherent root o [])
    (hp : s.waiting = p :: rest) :
    Reaches root o { s with waiting := rest } (build p.node p.kind p.position p.slot (visitor 0 p.node.value))
      fun _ t => t.Coherent root o [] ∧ p.node.id :: s.begun <:+ t.begun := by
  obtain ⟨hn, hk, hr⟩ := h.entered (hp ▸ List.mem_cons_self : p ∈ s.waiting)
  have hfaithful (w : Json) : Faithful root o 0 (visitor 0 p.node.value) w :=
    .of_inside fun inside => visitor_faithful (.of_within (.inr (hn.2.inside inside)))
  exact build_reaches (h.resume hp) hn (.of_within hn.2) hk hr (declaration_gives hfaithful hk)

theorem resume_reaches {p : Waiting} {rest : List Waiting} (h : s.waiting = p :: rest) :
    Reaches root o s (modify fun s => { s with waiting := rest }) fun _ t =>
      t = { s with waiting := rest } ∧ t.load root < s.load root := by
  have hload : State.load root { s with waiting := rest } < s.load root := by
    rw [State.load, State.load, h]
    exact Nat.lt_succ_self _
  exact ⟨(), _, rfl, ⟨State.grows_wait s rest, Nat.le_of_lt hload⟩, rfl, hload⟩

theorem settle_nil (h : s.waiting = []) (rounds : Nat) (c : Context) : settle rounds c s = .ok ((), s) := by
  cases rounds with
  | zero => rfl
  | succ rounds =>
    rw [settle, get_bind_run, h]
    rfl

/-- A round takes off the first declaration that waits. -/
theorem settle_cons {p : Waiting} {rest : List Waiting} (h : s.waiting = p :: rest) (rounds : Nat) (c : Context) :
    settle (rounds + 1) c s =
      (build p.node p.kind p.position p.slot (visitor 0 p.node.value) c { s with waiting := rest }).bind
        fun q => settle rounds c q.2 := by
  rw [settle, get_bind_run, h]
  rfl

/-- With as many rounds as the load asks for, all that waits is built. -/
theorem settle_reaches (rounds : Nat) : ∀ {s : State}, s.Coherent root o [] → s.load root ≤ rounds →
    Reaches root o s (settle rounds) fun _ t => t.Coherent root o [] ∧ t.waiting = [] := by
  induction rounds with
  | zero =>
    intro s hs hload
    have hwaiting : s.waiting.length = 0 := by
      rw [State.load] at hload
      omega
    exact .pure ⟨hs, List.eq_nil_of_length_eq_zero hwaiting⟩
  | succ rounds ih =>
    intro s hs hload
    refine .get_bind ?_
    cases hwaiting : s.waiting with
    | nil => exact .pure ⟨hs, hwaiting⟩
    | cons p rest =>
      -- Taking one off the stack lowers the load, and building it does not add to the load again.
      refine .bind (resume_reaches hwaiting) fun _ t _ ht => ?_
      obtain ⟨rfl, hlt⟩ := ht
      refine Reaches.bind (build_resumed_reaches hs hwaiting) fun _ u htu hu => ?_
      refine ih hu.1 ?_
      have := htu.load
      omega

/-! ## The start and the end -/

theorem declId?_of_builtin : ∀ e ∈ Builtin.entities, e.declId? = none := by decide

/-- The state in which the resolution of a document starts. -/
def State.start (root : Json) : State := { diagnostics := (Index.ofJson root).found }

theorem State.start_coherent (root : Json) (o : Options) : (State.start root).Coherent root o [] where
  once := List.nodup_nil
  settled hr := by cases hr
  distinct hr := by cases hr
  owned {m e d} hm hid := by
    rw [start, Builtin.get?_arena, Option.map_eq_some_iff] at hm
    obtain ⟨_, he, heq⟩ := hm
    cases heq
    rw [declId?_of_builtin e (List.mem_of_getElem? he)] at hid
    cases hid
  typed {m e} hm _ := by
    rw [start, Builtin.get?_arena, Option.map_eq_some_iff] at hm
    obtain ⟨_, he, heq⟩ := hm
    cases heq
    exact .inl he
  entered hp := by cases hp
  nodup := List.nodup_nil
  vacant {m} := by
    refine ⟨fun hm => ?_, fun hm => ?_⟩
    · rw [start, Builtin.get?_arena, Option.map_eq_some_iff] at hm
      obtain ⟨_, _, heq⟩ := hm
      cases heq
    · cases hm
  dangling hd := by
    obtain ⟨_, hx⟩ := Index.duplicate_of_mem_found hd
    cases hx
  followed hm := by cases hm

theorem State.load_start_le (root : Json) : (State.start root).load root ≤ (Index.ofJson root).index.entries.length :=
  List.countP_le_length

theorem modules_gives : Gives root o K (modules root) fun ids w => w.ModulesOf root ids := by
  refine .read_bind (.bind (.forEach (S := View.Resolves) _ fun v hv => ?_) fun found => ?_)
  · have inside : v.Inside root := Json.inside_of_mem_listAt (List.mem_filter.mp hv).1
    exact (visitor_faithful (.inside .root inside)).declaration inside _
  · refine .pure fun w ho hw => ⟨found, ?_, rfl⟩
    rw [ho]
    exact hw.2

/-- A pass over a document breaches nothing and leaves nothing waiting. -/
theorem pass_reaches (root : Json) (o : Options) :
    Reaches root o (.start root) (pass root) fun ids t =>
      t.Coherent root o [] ∧ t.waiting = [] ∧ t.Ensures root o fun w => w.ModulesOf root ids := by
  have hmodules : Gives root o (fun _ => True) (modules root) fun ids w => w.ModulesOf root ids := modules_gives
  refine .bind (hmodules (State.start_coherent root o) fun _ _ => trivial) fun ids t hst ht => ?_
  refine .read_bind (.bind (settle_reaches _ ht.1 ?_) fun _ u htu hu => ?_)
  · exact Nat.le_trans hst.load (State.load_start_le root)
  · exact .pure ⟨hu.1, hu.2, ht.2.grow htu.toGrows⟩

/-- A pass is made up of the children of the root and of the rounds that follow, at the end of which nothing waits. -/
theorem exists_rounds (root : Json) (o : Options) : ∃ ids s t,
    modules root (.ofRoot root o) (.start root) = .ok (ids, s) ∧ s.Coherent root o [] ∧
      settle (Index.ofJson root).index.entries.length (.ofRoot root o) s = .ok ((), t) ∧ t.waiting = [] ∧
        pass root (.ofRoot root o) (.start root) = .ok (ids, t) := by
  obtain ⟨ids, s, hmodules, hst, hs, _⟩ :=
    modules_gives (K := fun _ => True) (State.start_coherent root o) fun _ _ => trivial
  obtain ⟨_, t, hsettle, _, _, hwaiting⟩ := settle_reaches _ hs (Nat.le_trans hst.load (State.load_start_le root))
  refine ⟨ids, s, t, hmodules, hs, hsettle, hwaiting, ?_⟩
  rw [pass, bind_run, hmodules]
  show ((settle (Index.ofJson root).index.entries.length (.ofRoot root o) s).bind fun q => .ok (ids, q.2)) = _
  rw [hsettle]
  rfl

end EntityGraph.Build

import EntityGraph.Proofs.Congruence
import EntityGraph.Proofs.Plays
import EntityGraph.Proofs.Register

/-!
# What calls leave alone

A call that resolves a type or a declaration only extends the state (`State.Extends`): what is in the slots, settled and
reported stays, the declarations that it leaves waiting go on top of those that waited, and the slots that are empty
after it are those that were empty before it and one for each of these.

`Build.Frames` says this of two steps that do the same: one that finds the depth in the state and leaves it there, and
one that is told the depth. It is a congruence (`Frames.congruence`), so the visitors of `Build.Register` and the
visitors that run go hand in hand through every builder (`Register.visitor_frames`), by induction on the size of the
value, in any state whatever. Each round on the declarations that wait fills one slot and leaves empty those of what
waits then (`State.Settling.resume`). That both hold together is `Build.callsExtend`.
-/

namespace EntityGraph

/-! ## Empty slots -/

namespace Arena

variable {a b : Arena} {id : EntityId} {e : Entity}

/-- The slots that are reserved and not filled, each once. -/
def vacant (a : Arena) : List EntityId :=
  ((List.range a.slots.size).map EntityId.mk).filter fun id => (a.get? id).any Option.isNone

theorem nodup_vacant (a : Arena) : a.vacant.Nodup := by
  refine List.Nodup.filter _ (List.nodup_range.map ?_)
  exact fun i j h => EntityId.mk.inj h

theorem mem_vacant_iff : id ∈ a.vacant ↔ a.get? id = some none := by
  rw [vacant, List.mem_filter, Option.any_eq_true]
  constructor
  · rintro ⟨_, x, hx, hnone⟩
    rw [hx, Option.isNone_iff_eq_none.mp hnone]
  · intro h
    obtain ⟨hlt, _⟩ := Array.getElem?_eq_some_iff.mp h
    exact ⟨List.mem_map.mpr ⟨id.index, List.mem_range.mpr hlt, rfl⟩, none, h, rfl⟩

theorem vacant_alloc (a : Arena) (e : Entity) : (a.alloc e).2.vacant.Perm a.vacant := by
  refine (List.perm_ext_iff_of_nodup (nodup_vacant _) (nodup_vacant _)).mpr fun id => ?_
  rw [mem_vacant_iff, mem_vacant_iff, get?_alloc_eq_empty_iff]

theorem vacant_reserve (a : Arena) : a.reserve.2.vacant.Perm (a.nextId :: a.vacant) := by
  have hnew : a.nextId ∉ a.vacant := fun h => ne_nextId_of_get? (mem_vacant_iff.mp h) rfl
  refine (List.perm_ext_iff_of_nodup (nodup_vacant _) (List.nodup_cons.mpr ⟨hnew, nodup_vacant a⟩)).mpr fun id => ?_
  rw [mem_vacant_iff, List.mem_cons, mem_vacant_iff, get?_reserve]
  by_cases h : id = a.nextId <;> simp [h]

theorem vacant_fill (h : a.fill id e = .ok b) : a.vacant.Perm (id :: b.vacant) := by
  have hfull : id ∉ b.vacant := by
    rw [mem_vacant_iff, get?_of_fill h, if_pos rfl]
    exact nofun
  refine (List.perm_ext_iff_of_nodup (nodup_vacant a) (List.nodup_cons.mpr ⟨hfull, nodup_vacant b⟩)).mpr fun i => ?_
  rw [mem_vacant_iff, List.mem_cons, mem_vacant_iff, get?_of_fill h]
  by_cases hi : i = id
  · simp [hi, (fill_eq_ok_iff.mp h).1]
  · simp [hi]

end Arena

namespace Build

variable {α β : Type} {s t u : State} {pushed pushed' : List Waiting} {depth : Nat} {n : Node} {kind : DeclKind}
  {position : Position}

/-! ## Extended states -/

namespace State

/-- `t` has what `s` has, the same depth, and some more declarations that wait. -/
structure Pushes (s : State) (pushed : List Waiting) (t : State) : Prop extends Grows s t where
  /-- What waited is at the bottom of what waits. -/
  waiting : t.waiting = pushed ++ s.waiting
  /-- What waits more can be built. -/
  recognized {p : Waiting} : p ∈ pushed → p.node.entityKind? p.position = some p.kind
  depth : t.depth = s.depth

/-- `t` has what `s` has, and the slots that are empty in it and were not in `s` are those of the declarations that wait
more, each once: no slot stands twice among the empty ones (`Arena.nodup_vacant`). -/
structure Extends (s : State) (pushed : List Waiting) (t : State) : Prop extends Pushes s pushed t where
  vacant : t.arena.vacant.Perm (pushed.map (·.slot) ++ s.arena.vacant)

/-- A change that lets nothing wait. -/
theorem Grows.pushes (h : Grows s t) (waiting : t.waiting = s.waiting) (depth : t.depth = s.depth) :
    s.Pushes [] t :=
  ⟨h, waiting, nofun, depth⟩

theorem Pushes.trans (h : s.Pushes pushed t) (h' : t.Pushes pushed' u) : s.Pushes (pushed' ++ pushed) u where
  toGrows := h.toGrows.trans h'.toGrows
  waiting := by rw [h'.waiting, h.waiting, List.append_assoc]
  recognized hp := (List.mem_append.mp hp).elim h'.recognized h.recognized
  depth := h'.depth.trans h.depth

theorem Extends.refl (s : State) : s.Extends [] s := ⟨(Grows.refl s).pushes rfl rfl, .refl _⟩

theorem Extends.trans (h : s.Extends pushed t) (h' : t.Extends pushed' u) : s.Extends (pushed' ++ pushed) u where
  toPushes := h.toPushes.trans h'.toPushes
  vacant := by
    rw [List.map_append, List.append_assoc]
    exact h'.vacant.trans (h.vacant.append_left _)

end State

/-! ## Steps that extend the state -/

/-- From every state at the depth, both steps end with the same result in the same state, which extends the first; for
the second step the depth that the state holds makes no difference. -/
def Frames (depth : Nat) (m m' : Build α) : Prop :=
  ∀ (c : Context) (s : State), s.depth = depth → ∃ a t pushed,
    m c s = .ok (a, t) ∧ (∀ k, m' c (s.atDepth k) = .ok (a, t.atDepth k)) ∧ s.Extends pushed t

namespace Frames

variable {m m' : Build α} {f f' : α → Build β}

theorem pure (a : α) : Frames depth (pure a) (pure a) := fun _ s _ => ⟨a, s, [], rfl, fun _ => rfl, .refl s⟩

theorem bind (hm : Frames depth m m') (hf : ∀ a, Frames depth (f a) (f' a)) :
    Frames depth (m >>= f) (m' >>= f') := by
  intro c s hs
  obtain ⟨a, t, pushed, hrun, hrun', hst⟩ := hm c s hs
  obtain ⟨b, u, pushed', hrest, hrest', htu⟩ := hf a c t (hst.depth.trans hs)
  refine ⟨b, u, pushed' ++ pushed, ?_, fun k => ?_, hst.trans htu⟩
  · rw [bind_run, hrun]
    exact hrest
  · rw [bind_run, hrun' k]
    exact hrest' k

/-- A step may look at the state, but not at its depth. -/
theorem get_bind {f f' : State → Build β} (same : ∀ s k, f' (s.atDepth k) = f' s)
    (h : ∀ x, Frames depth (f x) (f' x)) : Frames depth (get >>= f) (get >>= f') := by
  intro c s hs
  obtain ⟨a, t, pushed, hrun, hrun', hst⟩ := h s c s hs
  refine ⟨a, t, pushed, hrun, fun k => ?_, hst⟩
  rw [get_bind_run, same]
  exact hrun' k

theorem read_bind {f f' : Context → Build β} (h : ∀ c, Frames depth (f c) (f' c)) :
    Frames depth (read >>= f) (read >>= f') :=
  fun c s hs => h c c s hs

theorem report (x : Diagnostic) : Frames depth (report x) (report x) := fun _ s _ =>
  ⟨(), { s with diagnostics := s.diagnostics.push x }, [], rfl, fun _ => rfl,
    (State.grows_report s x).pushes rfl rfl, .refl _⟩

theorem refer (d : DeclId) (m : EntityId) : Frames depth (refer d m) (refer d m) := fun _ s _ =>
  ⟨(), { s with references := (d, m) :: s.references }, [], rfl, fun _ => rfl,
    (State.grows_refer s d m).pushes rfl rfl, .refl _⟩

theorem alloc (e : Entity) : Frames depth (alloc e) (alloc e) := fun _ s _ =>
  ⟨s.arena.nextId, { s with arena := (s.arena.alloc e).2 }, [], rfl, fun _ => rfl,
    (State.grows_alloc s e).pushes rfl rfl, s.arena.vacant_alloc e⟩

end Frames

/-- Started in `s`, both steps end with the same result in the same state, which extends `s`. -/
def Extending (c : Context) (s : State) (m m' : Build α) : Prop := ∃ a t pushed,
  m c s = .ok (a, t) ∧ m' c s = .ok (a, t) ∧ s.Extends pushed t

/-- A run whatever depth the state holds is a run with the depth that it holds. -/
theorem run_of_atDepth {m : Build α} {c : Context} {a : α} (h : ∀ k, m c (s.atDepth k) = .ok (a, t.atDepth k))
    (hdepth : t.depth = s.depth) : m c s = .ok (a, t) := by
  have hself := h s.depth
  rwa [State.atDepth_self rfl, State.atDepth_self hdepth] at hself

theorem Frames.run {m m' : Build α} (h : Frames depth m m') (c : Context) (hs : s.depth = depth) :
    Extending c s m m' := by
  obtain ⟨a, t, pushed, hrun, hrun', hst⟩ := h c s hs
  exact ⟨a, t, pushed, hrun, run_of_atDepth hrun' hst.depth, hst⟩

/-- A step that does the same whatever depth the state holds. -/
theorem Frames.of_runs {m : Build α} (h : ∀ (c : Context) (s : State), ∃ a t pushed,
    (∀ k, m c (s.atDepth k) = .ok (a, t.atDepth k)) ∧ s.Extends pushed t) : Frames depth m m := by
  intro c s _
  obtain ⟨a, t, pushed, hrun, hst⟩ := h c s
  exact ⟨a, t, pushed, run_of_atDepth hrun hst.depth, hrun, hst⟩

/-! ## Entries and references -/

theorem unreadable_frames (v : Json) : Frames depth (unreadable v) (unreadable v) :=
  .bind (.report _) fun _ => .pure _

/-- A node that no rule recognizes is pinned. -/
theorem State.extends_pin (hopen : s.resolutions.lookup? n.id = none) :
    s.Extends [] { s with
      diagnostics := s.diagnostics.push (.unrecognizedDeclaration (some n.id) (some n.kindString))
      resolutions := s.resolutions.insert n.id ⟨Builtin.unknown, none⟩ } := by
  have hreport := State.grows_report s (.unrecognizedDeclaration (some n.id) (some n.kindString))
  refine ⟨Grows.pushes ⟨hreport.slots, hreport.filled, fun hr => ?_, hreport.diagnostics, hreport.references,
    hreport.begun⟩ rfl rfl, .refl _⟩
  exact Resolutions.lookup?_insert_of_settled hopen hr

/-- Entering a node either extends the state, letting nothing wait, or reserves a slot for a declaration that can be
built; whatever depth the state holds. -/
theorem enter_runs (n : Node) (position : Position) (c : Context) (s : State) :
    (∃ found t, (∀ k, enter n position c (s.atDepth k) = .ok (.settled found, t.atDepth k)) ∧ s.Extends [] t) ∨
      ∃ kind t, (∀ k, enter n position c (s.atDepth k) = .ok (.fresh kind s.arena.nextId, t.atDepth k)) ∧
        n.entityKind? position = some kind ∧ s.Pushes [] t ∧ t.arena = s.arena.reserve.2 := by
  cases hopen : s.resolutions.lookup? n.id with
  | some found => exact .inl ⟨found, s, fun k => enter_of_settled (s := s.atDepth k) hopen position c, .refl s⟩
  | none =>
    cases hk : n.entityKind? position with
    | none =>
      exact .inl ⟨_, _, fun k => enter_of_unrecognized (s := s.atDepth k) hopen hk c, State.extends_pin hopen⟩
    | some kind =>
      refine .inr ⟨kind, { s with
        resolutions := s.resolutions.insert n.id ⟨s.arena.nextId, some kind⟩
        arena := s.arena.reserve.2 }, fun k => ?_, rfl, (State.grows_enter hopen _).pushes rfl rfl, rfl⟩
      exact enter_of_recognized (s := s.atDepth k) hopen hk c

/-- A declaration that waits for a reserved slot. -/
theorem State.Pushes.wait (h : s.Pushes [] t) (harena : t.arena = s.arena.reserve.2)
    (hk : n.entityKind? position = some kind) :
    s.Extends [⟨n, kind, position, s.arena.nextId⟩]
      { t with waiting := ⟨n, kind, position, s.arena.nextId⟩ :: t.waiting } where
  toGrows := h.toGrows.trans (State.grows_wait t _)
  waiting := congrArg (_ :: ·) h.waiting
  recognized hp := by
    obtain rfl := List.mem_singleton.mp hp
    exact hk
  depth := h.depth
  vacant := by
    show t.arena.vacant.Perm _
    rw [harena]
    exact s.arena.vacant_reserve

/-- A node that is new waits for its slot. -/
theorem enterLater_frames (n : Node) (position : Position) :
    Frames depth (enterLater n position) (enterLater n position) := by
  refine .of_runs fun c s => ?_
  obtain ⟨found, t, hrun, hst⟩ | ⟨kind, t, hrun, hk, hst, harena⟩ := enter_runs n position c s
  · refine ⟨found, t, [], fun k => ?_, hst⟩
    rw [enterLater, bind_run, hrun]
    rfl
  · refine ⟨⟨s.arena.nextId, some kind⟩, _, _, fun k => ?_, hst.wait harena hk⟩
    rw [enterLater, bind_run, hrun]
    rfl

theorem visitLater_frames (v : Json) (position : Position) :
    Frames depth (visitLater v position) (visitLater v position) := by
  unfold visitLater
  split
  · exact enterLater_frames _ position
  · exact unreadable_frames v

theorem target_frames (d : DeclId) : Frames depth (target d) (target d) := by
  refine .get_bind (fun _ _ => rfl) fun x => ?_
  split
  · exact .pure _
  · refine .read_bind fun c => ?_
    split
    · exact .bind (enterLater_frames _ _) fun _ => .pure _
    · exact .bind (.report _) fun _ => .pure _

theorem follow_frames (d : DeclId) : Frames depth (follow d) (follow d) :=
  .bind (target_frames d) fun m => .bind (.refer d m) fun _ => .pure _

/-- Whatever builders do themselves extends the state. -/
theorem Frames.congruence (depth : Nat) : Congruence fun m m' => Frames depth m m' where
  pure := .pure
  bind := .bind
  read_bind _ := .read_bind
  report := .report
  alloc := .alloc
  follow := follow_frames

/-! ## Visits -/

/-- What is built into an empty slot fills this slot and leaves the others, and otherwise extends the state. -/
theorem build_frames {visit visit' : Visitor n.value} {slot : EntityId}
    (h : Frames depth (declaration n kind position visit) (declaration n kind position visit')) {c : Context}
    (hs : s.depth = depth) {others : List EntityId} (hslot : s.arena.vacant.Perm (slot :: others)) : ∃ t pushed,
      build n kind position slot visit c s = .ok ((), t) ∧
      (∀ k, build n kind position slot visit' c (s.atDepth k) = .ok ((), t.atDepth k)) ∧
      s.Pushes pushed t ∧ t.arena.vacant.Perm (pushed.map (·.slot) ++ others) := by
  obtain ⟨e, t, pushed, hrun, hrun', hst⟩ := h c { s with begun := n.id :: s.begun } hs
  have hvacant : t.arena.vacant.Perm (slot :: (pushed.map (·.slot) ++ others)) :=
    (hst.vacant.trans (hslot.append_left _)).trans List.perm_middle
  have hempty : slot ∈ t.arena.vacant := hvacant.mem_iff.mpr List.mem_cons_self
  obtain ⟨b, hb⟩ : ∃ b, t.arena.fill slot e = .ok b :=
    ⟨_, Arena.fill_eq_ok_iff.mpr ⟨Arena.mem_vacant_iff.mp hempty, rfl⟩⟩
  have hgrows := ((State.grows_begin s n.id).trans hst.toGrows).trans (State.grows_fill hb)
  refine ⟨{ t with arena := b }, pushed, ?_, fun k => ?_, ⟨hgrows, hst.waiting, hst.recognized, hst.depth⟩,
    ((Arena.vacant_fill hb).symm.trans hvacant).cons_inv⟩
  · show (declaration n kind position visit >>= fill slot) c { s with begun := n.id :: s.begun } = _
    rw [bind_run, hrun]
    exact (fill_run slot e c t).trans (congrArg _ hb)
  · show (declaration n kind position visit' >>= fill slot) c (State.atDepth { s with begun := n.id :: s.begun } k) = _
    rw [bind_run, hrun']
    exact (fill_run slot e c (t.atDepth k)).trans (congrArg _ hb)

/-- A type expression that cuts off at the same depth, and else raises the depth for what is inside it. -/
theorem visitType_frames_of_typeExpr {v : Json}
    (h : Frames (depth + 1) (typeExpr v position (Register.visitor v)) (typeExpr v position (visitor (depth + 1) v))) :
    Frames depth (Register.visitType v position) (visitType depth v position) := by
  intro c s hs
  subst hs
  by_cases hle : c.options.maxTypeDepth ≤ s.depth
  · refine ⟨Builtin.unknown, { s with diagnostics := s.diagnostics.push (.typeDepthExceeded s.depth) }, [], ?_,
      fun k => ?_, (State.grows_report s _).pushes rfl rfl, .refl _⟩
    · rw [Register.visitType_eq, get_bind_run, read_bind_run, if_pos hle]
      rfl
    · rw [visitType_eq, read_bind_run, if_pos hle]
      rfl
  · obtain ⟨m, t, pushed, hrun, hrun', hst⟩ := h c (s.atDepth (s.depth + 1)) rfl
    refine ⟨m, t.atDepth s.depth, pushed, ?_, fun k => ?_, ?_⟩
    · rw [Register.visitType_eq, get_bind_run, read_bind_run, if_neg hle]
      show (do
        let found ← typeExpr v position (Register.visitor v)
        modify fun s => s.atDepth (s.depth - 1)
        return found : Build EntityId) c (s.atDepth (s.depth + 1)) = _
      rw [bind_run, hrun]
      -- What is inside leaves the depth as it finds it, so that one less is the depth from before.
      show Except.ok (m, t.atDepth (t.depth - 1)) = _
      rw [hst.depth]
      rfl
    · rw [visitType_eq, read_bind_run, if_neg hle]
      exact hrun' k
    · exact ⟨⟨⟨hst.slots, hst.filled, hst.settled, hst.diagnostics, hst.references, hst.begun⟩, hst.waiting,
        hst.recognized, rfl⟩, hst.vacant⟩

/-- A declaration that gets a slot is built into it, so that the slot is filled when the visit ends. -/
theorem visitDeclaration_frames_of_inside {v : Json} (hn : Node.ofJson? v = some n)
    (h : ∀ w, Matches (fun m m' => Frames depth m m') (Register.visitor n.value) (visitor depth n.value) w)
    (position : Position) :
    Frames depth (Register.visitDeclaration v position) (visitDeclaration depth v position) := by
  rw [Register.visitDeclaration_of_node hn, visitDeclaration_of_node hn]
  intro c s hs
  obtain ⟨found, t, hrun, hst⟩ | ⟨kind, t, hrun, hk, hst, harena⟩ := enter_runs n position c s
  · refine ⟨found, t, [], ?_, fun k => ?_, hst⟩
    · rw [bind_run, run_of_atDepth hrun hst.depth]
      rfl
    · rw [bind_run, hrun]
      rfl
  · have hdeclaration := (Frames.congruence depth).declaration h (Node.recognize?_of_entityKind? hk).2 position
    have hslot : t.arena.vacant.Perm (s.arena.nextId :: s.arena.vacant) := harena ▸ s.arena.vacant_reserve
    obtain ⟨u, pushed, hbuild, hbuild', htu, hvacant⟩ :=
      build_frames hdeclaration (c := c) (hst.depth.trans hs) hslot
    refine ⟨⟨s.arena.nextId, some kind⟩, u, pushed, ?_, fun k => ?_, ?_, hvacant⟩
    · rw [bind_run, run_of_atDepth hrun hst.depth]
      show (build n kind position s.arena.nextId (Register.visitor n.value) >>= fun _ => Pure.pure _) c t = _
      rw [bind_run, hbuild]
      rfl
    · rw [bind_run, hrun]
      show (build n kind position s.arena.nextId (visitor depth n.value) >>= fun _ => Pure.pure _) c (t.atDepth k) = _
      rw [bind_run, hbuild']
      rfl
    · exact ⟨hst.toGrows.trans htu.toGrows, htu.waiting.trans (congrArg (pushed ++ ·) hst.waiting), htu.recognized,
        htu.depth.trans hst.depth⟩

/-- The visitors that find the depth in the state and those that are told it do the same. The induction is on the size
of the value: what is inside it is smaller, and is visited at the same depth or at the next. -/
theorem Register.visitor_frames (depth : Nat) {host : Json} (v : Json) :
    Matches (fun m m' => Frames depth m m') (visitor host) (Build.visitor depth host) v := by
  refine ⟨fun _ position => ?_, fun _ position => ?_⟩
  · show Frames depth (visitType v position) (Build.visitType depth v position)
    have hinner (w : Json) (hw : w ∈ (TypeExpr.ofJson v).parts ∨ w ∈ TypeExpr.argumentsOf v) :
        Matches (fun m m' => Frames (depth + 1) m m') (visitor v) (Build.visitor (depth + 1) v) w := by
      have := (TypeExpr.inside_of_mem hw).sizeOf_lt
      exact visitor_frames (depth + 1) w
    apply visitType_frames_of_typeExpr
    exact (Frames.congruence _).ofTypeExpr position _ (fun w hw => hinner w (.inl hw)) fun w hw => hinner w (.inr hw)
  · show Frames depth (visitDeclaration v position) (Build.visitDeclaration depth v position)
    cases hn : Node.ofJson? v with
    | none =>
      rw [visitDeclaration_of_unreadable hn, Build.visitDeclaration_of_unreadable hn]
      exact unreadable_frames v
    | some n =>
      refine visitDeclaration_frames_of_inside hn (fun w => .of_inside fun inside => ?_) position
      rw [Node.value_of_ofJson? hn] at inside
      have := inside.sizeOf_lt
      exact visitor_frames depth w
termination_by sizeOf v

/-- A value is visited as one inside some host. -/
theorem Register.visitType_frames (depth : Nat) (v : Json) (position : Position) :
    Frames depth (visitType v position) (Build.visitType depth v position) :=
  have h : Matches (fun m m' => Frames depth m m') (visitor (.arr [v])) (Build.visitor depth (.arr [v])) v :=
    visitor_frames depth v
  h.type (.direct List.mem_cons_self) position

theorem Register.visitDeclaration_frames (depth : Nat) (v : Json) (position : Position) :
    Frames depth (visitDeclaration v position) (Build.visitDeclaration depth v position) :=
  have h : Matches (fun m m' => Frames depth m m') (visitor (.arr [v])) (Build.visitor depth (.arr [v])) v :=
    visitor_frames depth v
  h.declaration (.direct List.mem_cons_self) position

/-- The entity of a node is made in both ways alike. -/
theorem declaration_frames (depth : Nat) (n : Node) (hk : kind ≠ .indexSignature) (position : Position) :
    Frames depth (declaration n kind position (Register.visitor n.value))
      (declaration n kind position (visitor depth n.value)) :=
  (Frames.congruence depth).declaration (Register.visitor_frames depth) hk position

/-! ## Rounds -/

/-- Between two rounds the depth is back to nothing, and the slots that are empty are those of the declarations that
wait, which can be built. -/
structure State.Settling (s : State) : Prop where
  depth : s.depth = 0
  vacant : s.arena.vacant.Perm (s.waiting.map (·.slot))
  recognized {p : Waiting} : p ∈ s.waiting → p.node.entityKind? p.position = some p.kind

/-- A round fills the slot of the declaration that it takes off the stack. -/
theorem State.Settling.resume (h : s.Settling) {p : Waiting} {rest : List Waiting} (hwaiting : s.waiting = p :: rest)
    (c : Context) : ∃ t, Register.resume p c { s with waiting := rest } = .ok ((), t) ∧
      build p.node p.kind p.position p.slot (visitor 0 p.node.value) c { s with waiting := rest } = .ok ((), t) ∧
      t.Settling := by
  have hmem {q : Waiting} (hq : q ∈ p :: rest) : q ∈ s.waiting := hwaiting ▸ hq
  have hslot : s.arena.vacant.Perm (p.slot :: rest.map (·.slot)) := by
    have hvacant := h.vacant
    rwa [hwaiting] at hvacant
  have hk := Node.recognize?_of_entityKind? (h.recognized (hmem List.mem_cons_self))
  obtain ⟨t, pushed, hrun, hrun', hst, hvacant⟩ := build_frames (declaration_frames 0 p.node hk.2 p.position) (c := c)
    (s := { s with waiting := rest }) h.depth hslot
  have hdepth : t.depth = 0 := hst.depth.trans h.depth
  refine ⟨t, hrun, run_of_atDepth hrun' hst.depth, hdepth, ?_, fun hq => ?_⟩
  · rw [hst.waiting, List.map_append]
    exact hvacant
  · rw [hst.waiting] at hq
    exact (List.mem_append.mp hq).elim hst.recognized fun hq => h.recognized (hmem (List.mem_cons_of_mem p hq))

namespace Register

variable {root : Json} {o : Options}

theorem settle_nil (h : s.waiting = []) (rounds : Nat) (c : Context) : settle rounds c s = .ok ((), s) := by
  cases rounds with
  | zero => rfl
  | succ rounds =>
    rw [settle, get_bind_run, h]
    rfl

theorem settle_cons {p : Waiting} {rest : List Waiting} (h : s.waiting = p :: rest) (rounds : Nat) (c : Context) :
    settle (rounds + 1) c s = (resume p c { s with waiting := rest }).bind fun q => settle rounds c q.2 := by
  rw [settle, get_bind_run, h]
  rfl

/-- Any number of rounds does the same in both ways. -/
theorem settle_eq (c : Context) (rounds : Nat) : ∀ {s : State}, s.Settling →
    settle rounds c s = Build.settle rounds c s := by
  induction rounds with
  | zero => exact fun _ => rfl
  | succ rounds ih =>
    intro s hs
    cases hwaiting : s.waiting with
    | nil => rw [settle_nil hwaiting, Build.settle_nil hwaiting]
    | cons p rest =>
      obtain ⟨t, hrun, hrun', ht⟩ := hs.resume hwaiting c
      rw [settle_cons hwaiting, Build.settle_cons hwaiting, hrun, hrun']
      exact ih ht

theorem modules_frames (root : Json) : Frames 0 (modules root) (Build.modules root) := by
  refine .read_bind fun c => .bind ?_ fun found => .pure _
  exact (Frames.congruence 0).forEach fun v _ => (visitor_frames 0 v).declaration _ _

/-- The children of the root are resolved in both ways alike, and leave a state in which the rounds can start. -/
theorem exists_modules (root : Json) (o : Options) : ∃ ids s,
    modules root (.ofRoot root o) (.start root) = .ok (ids, s) ∧
      Build.modules root (.ofRoot root o) (.start root) = .ok (ids, s) ∧ s.Settling := by
  obtain ⟨ids, s, pushed, hrun, hrun', hst⟩ := (modules_frames root).run (s := .start root) (.ofRoot root o) rfl
  have hstart : (State.start root).arena.vacant = [] := rfl
  have hwaiting : s.waiting = pushed := hst.waiting.trans (List.append_nil _)
  refine ⟨ids, s, hrun, hrun', hst.depth, ?_, fun hp => hst.recognized (hwaiting ▸ hp)⟩
  have hvacant := hst.vacant
  rwa [hstart, List.append_nil, ← hwaiting] at hvacant

/-- A document is resolved in both ways alike. -/
theorem pass_eq (root : Json) (o : Options) :
    pass root (.ofRoot root o) (.start root) = Build.pass root (.ofRoot root o) (.start root) := by
  obtain ⟨ids, s, hrun, hrun', hs⟩ := exists_modules root o
  rw [pass, Build.pass, bind_run, bind_run, hrun, hrun']
  show ((settle _ _ s).bind _) = ((Build.settle _ _ s).bind _)
  rw [settle_eq _ _ hs]

/-- The states of a pass between two rounds: the one that the children of the root leave, and after each of them the one
that the next round leaves. -/
inductive Between (root : Json) (o : Options) : State → Prop
  | modules {ids : List EntityId} {s : State} :
      modules root (.ofRoot root o) (.start root) = .ok (ids, s) → Between root o s
  | resume {s t : State} {p : Waiting} {rest : List Waiting} : Between root o s → s.waiting = p :: rest →
      resume p (.ofRoot root o) { s with waiting := rest } = .ok ((), t) → Between root o t

theorem Between.settling (h : Between root o s) : s.Settling := by
  induction h with
  | modules hrun =>
    obtain ⟨ids, s, hrun', _, hs⟩ := exists_modules root o
    rw [hrun'] at hrun
    cases hrun
    exact hs
  | resume _ hwaiting hrun ih =>
    obtain ⟨t, hrun', _, ht⟩ := ih.resume hwaiting (.ofRoot root o)
    rw [hrun'] at hrun
    cases hrun
    exact ht

end Register

/-! ## Calls -/

/-- What the calls of a resolution leave alone. Each is told in both ways, with the depth in the state and with the
depth of the state as an argument, and ends in whatever state it starts; the states of a pass are among these. -/
structure CallsExtend (root : Json) (o : Options) : Prop where
  type (c : Context) (s : State) (v : Json) (position : Position) :
    Extending c s (Register.visitType v position) (visitType s.depth v position)
  types (c : Context) (s : State) {host : Json} {vs : List Json} (inside : ∀ v ∈ vs, v.Inside host)
    (position : Position) :
    Extending c s ((Register.visitor host).types vs inside position) ((visitor s.depth host).types vs inside position)
  declaration (c : Context) (s : State) (v : Json) (position : Position) :
    Extending c s (Register.visitDeclaration v position) (visitDeclaration s.depth v position)
  later (c : Context) (s : State) (v : Json) (position : Position) :
    Extending c s (visitLater v position) (visitLater v position)
  /-- The slot of the node is not filled by the call, but after it. -/
  entity (c : Context) (s : State) (n : Node) {kind : DeclKind} (hk : kind ≠ .indexSignature) (position : Position) :
    Extending c s (Build.declaration n kind position (Register.visitor n.value))
      (Build.declaration n kind position (visitor s.depth n.value))
  /-- An index signature has no entity, and nothing that is entered has this kind. -/
  bodyOnly (c : Context) (s : State) (n : Node) (position : Position) (visit : Visitor n.value) :
    Build.declaration n .indexSignature position visit c s = .error (.indexSignatureBody n.id) ∧
      n.entityKind? position ≠ some .indexSignature
  /-- What a reference finds in the index is entered later. -/
  found {d : DeclId} {n : Node} (position : Position) : (Index.ofJson root).index.lookup? d = some n →
    enterLater n position = visitLater n.value position
  /-- The rounds start, and go on as long as a declaration waits, in both ways alike. -/
  starts : ∃ ids s, Register.modules root (.ofRoot root o) (.start root) = .ok (ids, s) ∧
    modules root (.ofRoot root o) (.start root) = .ok (ids, s)
  resumes {s : State} {p : Waiting} {rest : List Waiting} : Register.Between root o s → s.waiting = p :: rest →
    ∃ t, Register.resume p (.ofRoot root o) { s with waiting := rest } = .ok ((), t) ∧
      build p.node p.kind p.position p.slot (visitor 0 p.node.value) (.ofRoot root o) { s with waiting := rest } =
        .ok ((), t)
  between {s : State} : Register.Between root o s → s.depth = 0 ∧ s.arena.vacant.Perm (s.waiting.map (·.slot))
  pass : Register.pass root (.ofRoot root o) (.start root) = pass root (.ofRoot root o) (.start root)

/-- Every call of a resolution only extends the state, and between two rounds the empty slots are those of the
declarations that wait. -/
theorem callsExtend (root : Json) (o : Options) : CallsExtend root o where
  type c s v position := (Register.visitType_frames s.depth v position).run c rfl
  types c s _ _ inside position :=
    ((Frames.congruence s.depth).types (fun v _ => Register.visitor_frames s.depth v) inside position).run c rfl
  declaration c s v position := (Register.visitDeclaration_frames s.depth v position).run c rfl
  later c s v position := (visitLater_frames v position).run c rfl
  entity c s n _ hk position := (declaration_frames s.depth n hk position).run c rfl
  bodyOnly _ _ _ _ _ := ⟨rfl, fun h => (Node.recognize?_of_entityKind? h).2 rfl⟩
  found position hn := by
    rw [visitLater, (Index.standsIn_of_lookup? hn).1.1]
  starts := by
    obtain ⟨ids, s, hrun, hrun', _⟩ := Register.exists_modules root o
    exact ⟨ids, s, hrun, hrun'⟩
  resumes h hwaiting := by
    obtain ⟨t, hrun, hrun', _⟩ := h.settling.resume hwaiting (.ofRoot root o)
    exact ⟨t, hrun, hrun'⟩
  between h := ⟨h.settling.depth, h.settling.vacant⟩
  pass := Register.pass_eq root o

end Build

end EntityGraph

import EntityGraph.Proofs.Coherence

/-!
# Steps that end well

`Build.Reaches s m Q` says that the step `m` breaches nothing in the state `s` and that `Q` holds where it ends;
`Build.Gives K m Q` says that from every coherent state that ensures `K` it ends in a coherent state that ensures `Q`.
Both compose along `>>=` (`Reaches.bind`, `Gives.bind`) and along lists (`Gives.forEach`).

No step adds to the load of a state (`State.load`): the declarations that are not settled yet and those that wait.
Entering a declaration lowers it (`enter_reaches`), which pays for the declaration's wait.
-/

namespace EntityGraph.Build

variable {α β : Type} {root : Json} {o : Options} {s t u : State} {held : List EntityId}

/-- What the resolution of a document reads. -/
def Context.ofRoot (root : Json) (o : Options) : Context := { options := o, index := (Index.ofJson root).index }

/-! ## Load -/

namespace State

/-- Whether the id of an entry of the index is not settled. -/
def opens (s : State) (entry : DeclId × Node) : Bool := (s.resolutions.lookup? entry.1).isNone

/-- How many declarations of the document are not settled or wait. -/
def load (root : Json) (s : State) : Nat := (Index.ofJson root).index.entries.countP s.opens + s.waiting.length

/-- `t` has what `s` has, and no more to do. -/
structure Advances (root : Json) (s t : State) : Prop extends Grows s t where
  load : t.load root ≤ s.load root

theorem Advances.refl (s : State) : s.Advances root s := ⟨.refl s, Nat.le_refl _⟩

theorem Advances.trans (h : s.Advances root t) (h' : t.Advances root u) : s.Advances root u :=
  ⟨h.toGrows.trans h'.toGrows, Nat.le_trans h'.load h.load⟩

/-- What is settled stays settled. -/
theorem Grows.countP_le (h : Grows s t) (entries : List (DeclId × Node)) :
    entries.countP t.opens ≤ entries.countP s.opens := by
  refine List.countP_mono_left fun entry _ ht => ?_
  rw [opens, Option.isNone_iff_eq_none] at ht ⊢
  cases hs : s.resolutions.lookup? entry.1 with
  | none => rfl
  | some r =>
    rw [h.settled hs] at ht
    cases ht

theorem Grows.advances (h : Grows s t) (waiting : t.waiting = s.waiting) : s.Advances root t := by
  refine ⟨h, ?_⟩
  rw [load, load, waiting]
  exact Nat.add_le_add_right (h.countP_le _) _

/-- Settling an id of the document lowers the load. -/
theorem Grows.load_lt (h : Grows s t) (waiting : t.waiting = s.waiting) {d : DeclId} (hd : d.CarriedIn root)
    (hs : s.resolutions.lookup? d = none) (ht : (t.resolutions.lookup? d).isSome) : t.load root < s.load root := by
  obtain ⟨n, hn⟩ := Option.isSome_iff_exists.mp (Index.isSome_lookup?_iff.mpr hd)
  obtain ⟨before, after, hsplit⟩ := List.append_of_mem (mem_of_lookup hn)
  have hbefore := h.countP_le before
  have hafter := h.countP_le after
  have hopen : s.opens (d, n) = true := by rw [opens, hs, Option.isNone_none]
  have hsettled : ¬ t.opens (d, n) = true := by
    rw [opens, Option.isNone_iff_eq_none]
    exact Option.isSome_iff_ne_none.mp ht
  rw [load, load, waiting, hsplit, List.countP_append, List.countP_append, List.countP_cons_of_pos hopen,
    List.countP_cons_of_neg hsettled]
  omega

/-- A lowered load leaves room for one more declaration that waits. -/
theorem load_wait_le {k : Nat} (h : s.load root < k) (p : Waiting) :
    load root { s with waiting := p :: s.waiting } ≤ k := by
  show _ + (s.waiting.length + 1) ≤ k
  exact h

end State

/-! ## Reaching -/

theorem bind_run (m : Build α) (f : α → Build β) (c : Context) (s : State) :
    (m >>= f) c s = (m c s).bind fun p => f p.1 c p.2 := rfl

/-- A sequence ends where its second step ends after the first. -/
theorem exists_of_bind {m : Build α} {f : α → Build β} {c : Context} {b : β} (h : (m >>= f) c s = .ok (b, t)) :
    ∃ a u, m c s = .ok (a, u) ∧ f a c u = .ok (b, t) := by
  rw [bind_run] at h
  cases hm : m c s with
  | error => rw [hm] at h; cases h
  | ok p =>
    rw [hm] at h
    exact ⟨p.1, p.2, rfl, h⟩

theorem get_bind_run (f : State → Build β) (c : Context) (s : State) : (get >>= f) c s = f s c s := rfl

theorem read_bind_run (f : Context → Build β) (c : Context) (s : State) : (read >>= f) c s = f c c s := rfl

/-- `m` ends in a state to which `s` advances, with a result of which `Q` holds there. -/
def Reaches (root : Json) (o : Options) (s : State) (m : Build α) (Q : α → State → Prop) : Prop :=
  ∃ a t, m (.ofRoot root o) s = .ok (a, t) ∧ s.Advances root t ∧ Q a t

namespace Reaches

variable {m : Build α} {f : α → Build β} {P Q : α → State → Prop} {R : β → State → Prop}

theorem pure {a : α} (h : Q a s) : Reaches root o s (pure a) Q := ⟨a, s, rfl, .refl s, h⟩

theorem bind (hm : Reaches root o s m P) (hf : ∀ a t, s.Advances root t → P a t → Reaches root o t (f a) R) :
    Reaches root o s (m >>= f) R := by
  obtain ⟨a, t, hrun, hst, ha⟩ := hm
  obtain ⟨b, u, hrun', htu, hb⟩ := hf a t hst ha
  refine ⟨b, u, ?_, hst.trans htu, hb⟩
  rw [bind_run, hrun]
  exact hrun'

theorem imp (hm : Reaches root o s m P) (h : ∀ a t, s.Advances root t → P a t → Q a t) : Reaches root o s m Q := by
  obtain ⟨a, t, hrun, hst, ha⟩ := hm
  exact ⟨a, t, hrun, hst, h a t hst ha⟩

theorem get_bind {f : State → Build β} (h : Reaches root o s (f s) R) : Reaches root o s (get >>= f) R := h

theorem read_bind {f : Context → Build β} (h : Reaches root o s (f (.ofRoot root o)) R) :
    Reaches root o s (read >>= f) R := h

end Reaches

/-! ## Changes of the state -/

theorem report_reaches (s : State) (x : Diagnostic) :
    Reaches root o s (report x) fun _ t => t = { s with diagnostics := s.diagnostics.push x } :=
  ⟨(), _, rfl, (State.grows_report s x).advances rfl, rfl⟩

theorem refer_reaches (s : State) (d : DeclId) (m : EntityId) :
    Reaches root o s (refer d m) fun _ t => t = { s with references := (d, m) :: s.references } :=
  ⟨(), _, rfl, (State.grows_refer s d m).advances rfl, rfl⟩

theorem begin_reaches (s : State) (d : DeclId) :
    Reaches root o s (begin d) fun _ t => t = { s with begun := d :: s.begun } :=
  ⟨(), _, rfl, (State.grows_begin s d).advances rfl, rfl⟩

theorem alloc_reaches (s : State) (e : Entity) :
    Reaches root o s (alloc e) fun m t => m = s.arena.nextId ∧ t = { s with arena := (s.arena.alloc e).2 } :=
  ⟨_, _, rfl, (State.grows_alloc s e).advances rfl, rfl, rfl⟩

theorem pinUnknown_reaches {d : DeclId} (h : s.resolutions.lookup? d = none) :
    Reaches root o s (pinUnknown d) fun r t => r = ⟨Builtin.unknown, none⟩ ∧
      t = { s with resolutions := s.resolutions.insert d ⟨Builtin.unknown, none⟩ } := by
  refine ⟨⟨Builtin.unknown, none⟩, _, ?_, (State.grows_pin h _).advances rfl, rfl, rfl⟩
  show Except.ok ((s.resolutions.pin d Builtin.unknown).1, { s with resolutions := (s.resolutions.pin d _).2 }) = _
  rw [Resolutions.pin_of_open h]

theorem reserve_reaches {d : DeclId} (h : s.resolutions.lookup? d = none) (kind : DeclKind) :
    Reaches root o s (reserve d kind) fun r t => r = .fresh s.arena.nextId ∧
      t = { s with
        resolutions := s.resolutions.insert d ⟨s.arena.nextId, some kind⟩
        arena := s.arena.reserve.2 } := by
  refine ⟨.fresh s.arena.nextId, _, ?_, (State.grows_enter h _).advances rfl, rfl, rfl⟩
  show Except.ok ((s.resolutions.reserve d kind s.arena).1, { s with
    resolutions := (s.resolutions.reserve d kind s.arena).2.1
    arena := (s.resolutions.reserve d kind s.arena).2.2 }) = _
  rw [Resolutions.reserve_of_open h]

theorem fill_run (slot : EntityId) (e : Entity) (c : Context) (s : State) :
    fill slot e c s = (s.arena.fill slot e).map fun b => ((), { s with arena := b }) := by
  rw [fill, get_bind_run, bind_run]
  show ((s.arena.fill slot e).map fun b => (b, s)).bind _ = _
  cases s.arena.fill slot e with
  | error breach => rfl
  | ok b => rfl

theorem fill_reaches {slot : EntityId} (h : s.arena.get? slot = some none) (e : Entity) :
    Reaches root o s (fill slot e) fun _ t => ∃ b, s.arena.fill slot e = .ok b ∧ t = { s with arena := b } := by
  have hb : s.arena.fill slot e = .ok _ := Arena.fill_eq_ok_iff.mpr ⟨h, rfl⟩
  refine ⟨(), _, ?_, (State.grows_fill hb).advances rfl, _, hb, rfl⟩
  rw [fill_run, hb]
  rfl

/-! ## Entering -/

/-- What holds after a node was entered: its id is settled, and if it got a slot, this is held and the load is less
than before. -/
def Entry.Made (root : Json) (o : Options) (held : List EntityId) (n : Node) (position : Position) (load : Nat)
    (t : State) : Entry → Prop
  | .settled r => t.Coherent root o held ∧ t.resolutions.lookup? n.id = some r
  | .fresh kind slot => t.Coherent root o (slot :: held) ∧ n.entityKind? position = some kind ∧
    t.resolutions.lookup? n.id = some ⟨slot, some kind⟩ ∧ t.load root < load

/-- A node is settled already, pinned with a diagnostic, or gets a slot. -/
theorem enter_reaches (h : s.Coherent root o held) {n : Node} {depth : Nat} (hn : n.StandsIn root)
    (hdepth : TypeExpr.Nested root depth n.value) (position : Position) :
    Reaches root o s (enter n position) fun entry t => entry.Made root o held n position (s.load root) t := by
  rw [enter]
  refine .get_bind ?_
  cases hs : s.resolutions.lookup? n.id with
  | some r => exact .pure ⟨h, hs⟩
  | none =>
    cases hk : n.entityKind? position with
    | none =>
      refine .bind (report_reaches s _) fun _ t _ ht => ?_
      obtain rfl := ht
      have hreport := h.report (x := .unrecognizedDeclaration (some n.id) (some n.kindString)) fun _ hx => nomatch hx
      refine Reaches.bind (pinUnknown_reaches hs) fun r u _ hu => ?_
      obtain ⟨rfl, rfl⟩ := hu
      exact .pure ⟨hreport.pin hn hk Array.mem_push_self hs, Resolutions.lookup?_insert_self ..⟩
    | some kind =>
      refine .bind (reserve_reaches hs kind) fun r t _ ht => ?_
      obtain ⟨rfl, rfl⟩ := ht
      have hr := Resolutions.lookup?_insert_self n.id ⟨s.arena.nextId, some kind⟩ s.resolutions
      refine .pure ⟨h.enter hn hdepth hk hs, hk, hr, ?_⟩
      refine (State.grows_enter hs _).load_lt rfl ⟨n, hn, rfl⟩ hs ?_
      rw [hr]
      rfl

/-- A value without the base shape is reported and stands for the unknown type. -/
theorem unreadable_reaches (h : s.Coherent root o held) {v : Json} (hv : Node.ofJson? v = none) :
    Reaches root o s (unreadable v) fun r t => t.Coherent root o held ∧ t.Ensures root o fun w => w.Resolves v r := by
  rw [unreadable]
  refine .bind (report_reaches s _) fun _ t _ ht => ?_
  obtain rfl := ht
  exact .pure ⟨h.report (fun _ hx => nomatch hx), fun w _ => (View.resolves_of_unreadable hv).mpr rfl⟩

/-- A node that is reached through a reference is settled, and waits if it is new. -/
theorem enterLater_reaches (h : s.Coherent root o held) {n : Node} (hn : n.StandsIn root) (position : Position) :
    Reaches root o s (enterLater n position) fun r t => t.Coherent root o held ∧
      t.resolutions.lookup? n.id = some r := by
  obtain ⟨entry, t, hrun, hst, ht⟩ := enter_reaches h hn (.of_within hn.2) position
  cases entry with
  | settled r =>
    refine ⟨r, t, ?_, hst, ht⟩
    rw [enterLater, bind_run, hrun]
    rfl
  | fresh kind slot =>
    -- The wait alone would add to the load; the entry has lowered it for that.
    obtain ⟨ht, hk, hr, hload⟩ := ht
    refine ⟨⟨slot, some kind⟩, _, ?_, ⟨hst.toGrows.trans (State.grows_wait t _), ?_⟩,
      ht.defer (p := ⟨n, kind, position, slot⟩) ⟨hn, hk, hr⟩, hr⟩
    · rw [enterLater, bind_run, hrun]
      rfl
    · exact State.load_wait_le hload _

/-- A reference finds what is settled, or else the declaration in the index, or else nothing. -/
theorem target_reaches (h : s.Coherent root o held) (d : DeclId) :
    Reaches root o s (target d) fun m t => t.Coherent root o held ∧ t.StandsFor root d m := by
  rw [target]
  refine .get_bind ?_
  cases hs : s.resolutions.lookup? d with
  | some r => exact .pure ⟨h, .inl ⟨r, hs, rfl⟩⟩
  | none =>
    refine .read_bind ?_
    cases hd : (Context.ofRoot root o).index.lookup? d with
    | some n =>
      obtain ⟨hn, rfl⟩ := Index.standsIn_of_lookup? hd
      refine .bind (enterLater_reaches h hn .reference) fun r t _ ht => ?_
      exact .pure ⟨ht.1, .inl ⟨r, ht.2, rfl⟩⟩
    | none =>
      have hmissing := Index.lookup?_eq_none_iff.mp hd
      refine .bind (report_reaches s _) fun _ t _ ht => ?_
      obtain rfl := ht
      refine .pure ⟨h.report fun d' hx => ?_, .inr ⟨hmissing, rfl, Array.mem_push_self⟩⟩
      cases hx
      exact hmissing

/-- A followed reference is on record with what it stands for. -/
theorem follow_reaches (h : s.Coherent root o held) (d : DeclId) :
    Reaches root o s (follow d) fun m t => t.Coherent root o held ∧ (d, m) ∈ t.references := by
  rw [follow]
  refine .bind (target_reaches h d) fun m t _ ht => ?_
  refine .bind (refer_reaches t d m) fun _ u _ hu => ?_
  obtain rfl := hu
  exact .pure ⟨ht.1.refer ht.2, List.mem_cons_self⟩

/-! ## Giving -/

/-- From every coherent state that ensures `K`, the step `m` ends well, and ensures `Q` of its result. -/
def Gives (root : Json) (o : Options) (K : View → Prop) (m : Build α) (Q : α → View → Prop) : Prop :=
  ∀ ⦃held s⦄, s.Coherent root o held → s.Ensures root o K →
    Reaches root o s m fun a t => t.Coherent root o held ∧ t.Ensures root o (Q a)

namespace Gives

variable {K K' : View → Prop} {m : Build α} {f : α → Build β} {P Q : α → View → Prop} {R : β → View → Prop}

theorem pure {a : α} (h : ∀ w, w.options = o → K w → Q a w) : Gives root o K (pure a) Q :=
  fun _ _ hs hK => .pure ⟨hs, fun w hw => h w hw.options (hK w hw)⟩

theorem bind (hm : Gives root o K m P) (hf : ∀ a, Gives root o (fun w => K w ∧ P a w) (f a) R) :
    Gives root o K (m >>= f) R := by
  intro held s hs hK
  refine .bind (hm hs hK) fun a t hst ht => ?_
  exact hf a ht.1 fun w hw => ⟨hK.grow hst.toGrows w hw, ht.2 w hw⟩

theorem imp (hm : Gives root o K m P) (h : ∀ a w, w.options = o → K w → P a w → Q a w) : Gives root o K m Q := by
  intro held s hs hK
  refine (hm hs hK).imp fun a t hst ht => ⟨ht.1, fun w hw => ?_⟩
  exact h a w hw.options (hK.grow hst.toGrows w hw) (ht.2 w hw)

theorem weaken (hm : Gives root o K m Q) (h : ∀ w, K' w → K w) : Gives root o K' m Q :=
  fun _ _ hs hK => hm hs fun w hw => h w (hK w hw)

theorem read_bind {f : Context → Build β} (h : Gives root o K (f (.ofRoot root o)) R) :
    Gives root o K (read >>= f) R :=
  fun _ _ hs hK => .read_bind (h hs hK)

theorem forEach {V : α → Prop} {S : View → α → β → Prop} {step : (x : α) → V x → Build β} {xs : List α}
    (holds : ∀ x ∈ xs, V x)
    (h : ∀ x (hx : x ∈ xs), Gives root o K (step x (holds x hx)) fun y w => S w x y) :
    Gives root o K (forEach xs holds step) fun ys w => List.Forall₂ (S w) xs ys := by
  -- What is ensured of the elements before is part of `K` for those that follow.
  induction xs generalizing K with
  | nil => exact .pure fun _ _ _ => .nil
  | cons x xs ih =>
    refine .bind (h x List.mem_cons_self) fun y => ?_
    refine .bind (ih (fun x' hx' => holds x' (List.mem_cons_of_mem x hx')) fun x' hx' => ?_) fun ys => ?_
    · exact (h x' (List.mem_cons_of_mem x hx')).weaken fun _ hw => hw.1
    · exact .pure fun w _ hw => .cons hw.1.2 hw.2

theorem report {x : Diagnostic} (hx : ∀ d, x = .danglingReference d → ¬ d.CarriedIn root) :
    Gives root o K (report x) fun _ _ => True := by
  intro held s hs _
  refine (report_reaches s x).imp fun _ t _ ht => ?_
  obtain rfl := ht
  exact ⟨hs.report hx, fun _ _ => trivial⟩

theorem alloc {e : Entity} {depth : Nat} {v : Json} (hid : e.declId? = none) (hv : TypeExpr.Nested root depth v)
    (h : ∀ w, w.options = o → K w → ∀ id, w.entity? id = some e → w.Denotes depth v id) :
    Gives root o K (alloc e) fun id w => w.Denotes depth v id := by
  intro held s hs hK
  refine (alloc_reaches s e).imp fun id t hst ht => ?_
  obtain ⟨rfl, rfl⟩ := ht
  have hd : State.Ensures root o { s with arena := (s.arena.alloc e).2 }
      fun w => w.Denotes depth v s.arena.nextId := by
    intro w hw
    refine h w hw.options (hK.grow hst.toGrows w hw) _ (hw.entity ?_)
    show ((s.arena.alloc e).2.get? s.arena.nextId).join = some e
    rw [Arena.get?_alloc, if_pos rfl, Option.join_some]
  exact ⟨hs.alloc hid hv hd, hd⟩

theorem follow (d : DeclId) : Gives root o K (follow d) fun id w => w.Refers d id :=
  fun _ _ hs _ => (follow_reaches hs d).imp fun _ _ _ ht => ⟨ht.1, (ht.1.followed ht.2).refers⟩

end Gives

/-- What a step gives as the entity of a node fills the slot of the node. That it was begun is on record. -/
theorem build_reaches {n : Node} {kind : DeclKind} {position : Position} {slot : EntityId} {depth : Nat}
    {visit : Visitor n.value} (h : s.Coherent root o (slot :: held)) (hn : n.StandsIn root)
    (hdepth : TypeExpr.Nested root depth n.value) (hk : n.entityKind? position = some kind)
    (hd : s.resolutions.lookup? n.id = some ⟨slot, some kind⟩)
    (he : Gives root o (fun _ => True) (declaration n kind position visit) fun e w => w.Shows depth n kind e) :
    Reaches root o s (build n kind position slot visit) fun _ t =>
      t.Coherent root o held ∧ n.id :: s.begun <:+ t.begun := by
  rw [build]
  refine .bind (begin_reaches s n.id) fun _ s' _ hs' => ?_
  obtain rfl := hs'
  refine .bind (he (h.begin n.id) fun _ _ => trivial) fun e t hst ht => ?_
  have hslot : t.arena.get? slot = some none := ht.1.vacant.mpr (List.mem_append_right _ List.mem_cons_self)
  refine (fill_reaches hslot e).imp fun _ u _ hu => ?_
  obtain ⟨b, hb, rfl⟩ := hu
  exact ⟨ht.1.fill hn hdepth hk (hst.settled hd) ht.2 hb, hst.begun⟩

end EntityGraph.Build

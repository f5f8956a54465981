import EntityGraph.Build.Pass
import EntityGraph.Proofs.Document
import EntityGraph.Proofs.Meaning

/-!
# Coherent states

Between the steps of a resolution its state is coherent (`State.Coherent`):

- every settled id is pinned to the unknown type, with a diagnostic, or has a slot of its own, which is empty or holds
  the entity that a node with this id shows; and what is in the arena stands for its id or denotes a type expression
  (`State.Registered`);
- the empty slots are those of the declarations that wait and of those `held`, which are being built
  (`State.Queued`);
- what is said to be missing is missing, and references are recorded with what stands for them (`State.Reported`).

What holds of entities holds from now on (`State.Ensures`), because a state only grows (`State.Grows`). The lemmas here
say of each kind of change that it keeps a state coherent.
-/

namespace EntityGraph.Build

namespace State

variable (root : Json) (o : Options)

/-- The view of a state. -/
def view (s : State) : View where
  options := o
  entity? id := (s.arena.get? id).join
  resolution? d := s.resolutions.lookup? d
  Absent d := ¬ d.CarriedIn root

/-- `Q` holds now and will hold. -/
def Ensures (s : State) (Q : View → Prop) : Prop := ∀ w, s.view root o ≤ w → Q w

/-- A slot waits for the entity that a node shows, or holds it. -/
def Awaits (s : State) (depth : Nat) (n : Node) (kind : DeclKind) (slot : EntityId) : Prop :=
  s.arena.get? slot = some none ∨
    ∃ e, s.arena.get? slot = some (some e) ∧ s.Ensures root o fun w => w.Shows depth n kind e

/-- How an id comes to be settled. -/
inductive Settled (s : State) : DeclId → Resolution → Prop
  | pinned {n : Node} {position : Position} : n.StandsIn root → n.entityKind? position = none →
      Diagnostic.unrecognizedDeclaration (some n.id) (some n.kindString) ∈ s.diagnostics →
      Settled s n.id ⟨Builtin.unknown, none⟩
  | entered {n : Node} {position : Position} {kind : DeclKind} {depth : Nat} {slot : EntityId} :
      n.StandsIn root → TypeExpr.Nested root depth n.value → n.entityKind? position = some kind →
      s.Awaits root o depth n kind slot → Settled s n.id ⟨slot, some kind⟩

/-- An entity that is no declaration is built in or stands for a type expression of the document. -/
def Types (s : State) (m : EntityId) (e : Entity) : Prop :=
  Builtin.entities[m.index]? = some e ∨
    ∃ depth v, TypeExpr.Nested root depth v ∧ s.Ensures root o fun w => w.Denotes depth v m

/-- A declaration that waits was recognized and has its slot. -/
def Enters (s : State) (p : Waiting) : Prop :=
  p.node.StandsIn root ∧ p.node.entityKind? p.position = some p.kind ∧
    s.resolutions.lookup? p.node.id = some ⟨p.slot, some p.kind⟩

/-- What a reference to an id stands for: the entity that is settled for it, or the unknown type when the id is
missing and reported so. -/
def StandsFor (s : State) (d : DeclId) (m : EntityId) : Prop :=
  (∃ r, s.resolutions.lookup? d = some r ∧ r.entity = m) ∨
    (¬ d.CarriedIn root ∧ m = Builtin.unknown ∧ Diagnostic.danglingReference d ∈ s.diagnostics)

/-- The settled ids and the arena agree. -/
structure Registered (s : State) : Prop where
  once : (s.resolutions.entries.map (·.1)).Nodup
  settled {d : DeclId} {r : Resolution} : s.resolutions.lookup? d = some r → s.Settled root o d r
  distinct {d d' : DeclId} {m : EntityId} {k k' : DeclKind} : s.resolutions.lookup? d = some ⟨m, some k⟩ →
    s.resolutions.lookup? d' = some ⟨m, some k'⟩ → d = d'
  owned {m : EntityId} {e : Entity} {d : DeclId} : s.arena.get? m = some (some e) → e.declId? = some d →
    ∃ k, s.resolutions.lookup? d = some ⟨m, some k⟩
  typed {m : EntityId} {e : Entity} : s.arena.get? m = some (some e) → e.declId? = none → s.Types root o m e

/-- What waits is entered, and the empty slots are those of what waits and those that are held. -/
structure Queued (held : List EntityId) (s : State) : Prop where
  entered {p : Waiting} : p ∈ s.waiting → s.Enters root p
  nodup : (s.waiting.map (·.slot) ++ held).Nodup
  vacant {m : EntityId} : s.arena.get? m = some none ↔ m ∈ s.waiting.map (·.slot) ++ held

/-- What is said to be missing is missing, and the references are recorded with what stands for them. -/
structure Reported (s : State) : Prop where
  dangling {d : DeclId} : Diagnostic.danglingReference d ∈ s.diagnostics → ¬ d.CarriedIn root
  followed {d : DeclId} {m : EntityId} : (d, m) ∈ s.references → s.StandsFor root d m

/-- A state between the steps of a resolution, while the slots `held` are being filled. -/
structure Coherent (held : List EntityId) (s : State) : Prop extends
  Registered root o s, Queued root held s, Reported root s

/-! ## Growth -/

/-- `t` has what `s` has. -/
structure Grows (s t : State) : Prop where
  slots : s.arena.slots.size ≤ t.arena.slots.size
  filled {m : EntityId} {e : Entity} : s.arena.get? m = some (some e) → t.arena.get? m = some (some e)
  settled {d : DeclId} {r : Resolution} : s.resolutions.lookup? d = some r → t.resolutions.lookup? d = some r
  diagnostics : s.diagnostics.toList <+: t.diagnostics.toList
  references : s.references <:+ t.references
  begun : s.begun <:+ t.begun

variable {root o}
variable {s t u : State} {held : List EntityId}

theorem Grows.refl (s : State) : Grows s s :=
  ⟨Nat.le_refl _, id, id, List.prefix_rfl, List.suffix_rfl, List.suffix_rfl⟩

theorem Grows.trans (h : Grows s t) (h' : Grows t u) : Grows s u :=
  ⟨Nat.le_trans h.slots h'.slots, fun hm => h'.filled (h.filled hm), fun hd => h'.settled (h.settled hd),
    h.diagnostics.trans h'.diagnostics, h.references.trans h'.references, h.begun.trans h'.begun⟩

theorem Grows.mem_diagnostics (h : Grows s t) {x : Diagnostic} (hx : x ∈ s.diagnostics) : x ∈ t.diagnostics :=
  Array.mem_def.mpr (h.diagnostics.subset (Array.mem_def.mp hx))

theorem Grows.view_le (h : Grows s t) : s.view root o ≤ t.view root o where
  options := rfl
  entity he := by
    rw [view, Option.join_eq_some_iff] at he
    rw [view, Option.join_eq_some_iff]
    exact h.filled he
  resolution := h.settled
  absent := id

/-- What holds from now on holds after growth. -/
theorem Ensures.grow {Q : View → Prop} (h : s.Ensures root o Q) (hst : Grows s t) : t.Ensures root o Q :=
  fun w hw => h w (hst.view_le.trans hw)

theorem Ensures.now {Q : View → Prop} (h : s.Ensures root o Q) : Q (s.view root o) := h _ le_rfl

theorem Settled.grow {d : DeclId} {r : Resolution} (h : s.Settled root o d r) (hst : Grows s t)
    (vacant : s.arena.get? r.entity = some none → t.arena.get? r.entity = some none) : t.Settled root o d r := by
  cases h with
  | pinned hn hk hx => exact .pinned hn hk (hst.mem_diagnostics hx)
  | entered hn hdepth hk hslot =>
    refine .entered hn hdepth hk ?_
    rcases hslot with hslot | ⟨e, he, hshow⟩
    · exact .inl (vacant hslot)
    · exact .inr ⟨e, hst.filled he, hshow.grow hst⟩

/-- What is settled is carried by a node of the document. -/
theorem Settled.carriedIn {d : DeclId} {r : Resolution} (h : s.Settled root o d r) : d.CarriedIn root := by
  cases h with
  | pinned hn => exact ⟨_, hn, rfl⟩
  | entered hn => exact ⟨_, hn, rfl⟩

theorem Types.grow {m : EntityId} {e : Entity} (h : s.Types root o m e) (hst : Grows s t) : t.Types root o m e := by
  rcases h with he | ⟨depth, v, hv, hd⟩
  · exact .inl he
  · exact .inr ⟨depth, v, hv, hd.grow hst⟩

theorem Enters.grow {p : Waiting} (h : s.Enters root p) (hst : Grows s t) : t.Enters root p :=
  ⟨h.1, h.2.1, hst.settled h.2.2⟩

theorem StandsFor.grow {d : DeclId} {m : EntityId} (h : s.StandsFor root d m) (hst : Grows s t) :
    t.StandsFor root d m := by
  rcases h with ⟨r, hr, hm⟩ | ⟨hd, hm, hx⟩
  · exact .inl ⟨r, hst.settled hr, hm⟩
  · exact .inr ⟨hd, hm, hst.mem_diagnostics hx⟩

theorem StandsFor.refers {d : DeclId} {m : EntityId} (h : s.StandsFor root d m) :
    s.Ensures root o fun w => w.Refers d m := by
  intro w hw
  rcases h with ⟨r, hr, hm⟩ | ⟨hd, hm, _⟩
  · exact .inl ⟨r, hw.resolution hr, hm⟩
  · exact .inr ⟨hw.absent hd, hm⟩

/-! ## What a change leaves alone -/

/-- What is registered depends on the arena and the settled ids. -/
theorem Registered.frame (h : s.Registered root o) (hst : Grows s t) (arena : t.arena = s.arena)
    (resolutions : t.resolutions = s.resolutions) : t.Registered root o where
  once := by rw [resolutions]; exact h.once
  settled hr := by
    rw [resolutions] at hr
    exact (h.settled hr).grow hst fun hm => by rw [arena]; exact hm
  distinct hr hr' := by
    rw [resolutions] at hr hr'
    exact h.distinct hr hr'
  owned hm hid := by
    rw [arena] at hm
    rw [resolutions]
    exact h.owned hm hid
  typed hm hid := by
    rw [arena] at hm
    exact (h.typed hm hid).grow hst

/-- What waits depends on the stack of those that wait and the empty slots. -/
theorem Queued.frame (h : s.Queued root held) (hst : Grows s t) (waiting : t.waiting = s.waiting)
    (vacant : ∀ m, t.arena.get? m = some none ↔ s.arena.get? m = some none) : t.Queued root held where
  entered hp := by
    rw [waiting] at hp
    exact (h.entered hp).grow hst
  nodup := by rw [waiting]; exact h.nodup
  vacant := by
    rw [waiting]
    exact (vacant _).trans h.vacant

/-- What is reported depends on the diagnostics and the references. -/
theorem Reported.frame (h : s.Reported root) (hst : Grows s t) (diagnostics : t.diagnostics = s.diagnostics)
    (references : t.references = s.references) : t.Reported root where
  dangling hd := by
    rw [diagnostics] at hd
    exact h.dangling hd
  followed hm := by
    rw [references] at hm
    exact (h.followed hm).grow hst

/-! ## Diagnostics and records -/

theorem grows_report (s : State) (x : Diagnostic) : Grows s { s with diagnostics := s.diagnostics.push x } where
  slots := Nat.le_refl _
  filled := id
  settled := id
  diagnostics := by
    rw [Array.toList_push]
    exact List.prefix_append _ _
  references := List.suffix_rfl
  begun := List.suffix_rfl

/-- A diagnostic may be added, if what it says to be missing is missing. -/
theorem Coherent.report (h : s.Coherent root o held) {x : Diagnostic}
    (hx : ∀ d, x = .danglingReference d → ¬ d.CarriedIn root) :
    Coherent root o held { s with diagnostics := s.diagnostics.push x } where
  toRegistered := h.toRegistered.frame (grows_report s x) rfl rfl
  toQueued := h.toQueued.frame (grows_report s x) rfl fun _ => Iff.rfl
  dangling hd := by
    rcases Array.mem_push.mp hd with hd | hd
    · exact h.dangling hd
    · exact hx _ hd.symm
  followed hm := (h.followed hm).grow (grows_report s x)

theorem grows_refer (s : State) (d : DeclId) (m : EntityId) :
    Grows s { s with references := (d, m) :: s.references } where
  slots := Nat.le_refl _
  filled := id
  settled := id
  diagnostics := List.prefix_rfl
  references := List.suffix_cons _ _
  begun := List.suffix_rfl

/-- A reference may be recorded with what is settled for it, or as missing. -/
theorem Coherent.refer (h : s.Coherent root o held) {d : DeclId} {m : EntityId} (hm : s.StandsFor root d m) :
    Coherent root o held { s with references := (d, m) :: s.references } where
  toRegistered := h.toRegistered.frame (grows_refer s d m) rfl rfl
  toQueued := h.toQueued.frame (grows_refer s d m) rfl fun _ => Iff.rfl
  dangling := h.dangling
  followed hd := by
    rcases List.mem_cons.mp hd with hd | hd
    · cases hd
      exact hm
    · exact h.followed hd

theorem grows_begin (s : State) (d : DeclId) : Grows s { s with begun := d :: s.begun } :=
  ⟨Nat.le_refl _, id, id, List.prefix_rfl, List.suffix_rfl, List.suffix_cons _ _⟩

/-- The record of what is built has no part in coherence. -/
theorem Coherent.begin (h : s.Coherent root o held) (d : DeclId) :
    Coherent root o held { s with begun := d :: s.begun } where
  toRegistered := h.toRegistered.frame (grows_begin s d) rfl rfl
  toQueued := h.toQueued.frame (grows_begin s d) rfl fun _ => Iff.rfl
  toReported := h.toReported.frame (grows_begin s d) rfl rfl

/-! ## The stack of those that wait -/

theorem grows_wait (s : State) (ps : List Waiting) : Grows s { s with waiting := ps } :=
  ⟨Nat.le_refl _, id, id, List.prefix_rfl, List.suffix_rfl, List.suffix_rfl⟩

/-- A declaration whose slot is held may wait instead. -/
theorem Coherent.defer {p : Waiting} (h : s.Coherent root o (p.slot :: held)) (hp : s.Enters root p) :
    Coherent root o held { s with waiting := p :: s.waiting } where
  toRegistered := h.toRegistered.frame (grows_wait s _) rfl rfl
  toReported := h.toReported.frame (grows_wait s _) rfl rfl
  entered hq := by
    rcases List.mem_cons.mp hq with rfl | hq
    · exact hp
    · exact h.entered hq
  nodup := List.perm_middle.nodup_iff.mp h.nodup
  vacant := h.vacant.trans List.perm_middle.mem_iff

/-- The slot of a declaration that waits may be held instead. -/
theorem Coherent.resume {p : Waiting} {rest : List Waiting} (h : s.Coherent root o held) (hp : s.waiting = p :: rest) :
    Coherent root o (p.slot :: held) { s with waiting := rest } where
  toRegistered := h.toRegistered.frame (grows_wait s rest) rfl rfl
  toReported := h.toReported.frame (grows_wait s rest) rfl rfl
  entered hq := h.entered (hp ▸ List.mem_cons_of_mem p hq)
  nodup := by
    have hnodup := h.nodup
    rw [hp] at hnodup
    exact List.perm_middle.nodup_iff.mpr hnodup
  vacant {m} := by
    have hvacant := h.vacant (m := m)
    rw [hp] at hvacant
    exact hvacant.trans List.perm_middle.symm.mem_iff

/-! ## Entities of type expressions -/

theorem grows_alloc (s : State) (e : Entity) : Grows s { s with arena := (s.arena.alloc e).2 } where
  slots := by simp [Arena.alloc]
  filled hm := Arena.get?_alloc_of_get? hm e
  settled := id
  diagnostics := List.prefix_rfl
  references := List.suffix_rfl
  begun := List.suffix_rfl

theorem Registered.alloc (h : s.Registered root o) {e : Entity} (hid : e.declId? = none)
    (he : Types root o { s with arena := (s.arena.alloc e).2 } s.arena.nextId e) :
    Registered root o { s with arena := (s.arena.alloc e).2 } where
  once := h.once
  settled hr := (h.settled hr).grow (grows_alloc s e) fun hm => Arena.get?_alloc_of_get? hm e
  distinct := h.distinct
  owned {m e' d} hm hid' := by
    by_cases hnew : m = s.arena.nextId
    · have heq : e = e' := by simpa [Arena.get?_alloc, hnew] using hm
      rw [← heq, hid] at hid'
      cases hid'
    · have hold : s.arena.get? m = some (some e') := by simpa [Arena.get?_alloc, hnew] using hm
      exact h.owned hold hid'
  typed {m e'} hm hid' := by
    by_cases hnew : m = s.arena.nextId
    · have heq : e = e' := by simpa [Arena.get?_alloc, hnew] using hm
      rw [hnew, ← heq]
      exact he
    · have hold : s.arena.get? m = some (some e') := by simpa [Arena.get?_alloc, hnew] using hm
      exact (h.typed hold hid').grow (grows_alloc s e)

/-- The entity of a type expression may be stored. -/
theorem Coherent.alloc (h : s.Coherent root o held) {e : Entity} (hid : e.declId? = none) {depth : Nat} {v : Json}
    (hv : TypeExpr.Nested root depth v)
    (hd : Ensures root o { s with arena := (s.arena.alloc e).2 } fun w => w.Denotes depth v s.arena.nextId) :
    Coherent root o held { s with arena := (s.arena.alloc e).2 } where
  toRegistered := h.toRegistered.alloc hid (.inr ⟨depth, v, hv, hd⟩)
  toQueued := h.toQueued.frame (grows_alloc s e) rfl fun _ => Arena.get?_alloc_eq_empty_iff
  toReported := h.toReported.frame (grows_alloc s e) rfl rfl

/-! ## Pins -/

theorem grows_pin {d : DeclId} (h : s.resolutions.lookup? d = none) (r : Resolution) :
    Grows s { s with resolutions := s.resolutions.insert d r } where
  slots := Nat.le_refl _
  filled := id
  settled := Resolutions.lookup?_insert_of_settled h
  diagnostics := List.prefix_rfl
  references := List.suffix_rfl
  begun := List.suffix_rfl

/-- A pin is no slot, so what has a slot was settled before. -/
theorem settled_of_pin {d d' : DeclId} {fallback m : EntityId} {k : DeclKind}
    (h : (s.resolutions.insert d ⟨fallback, none⟩).lookup? d' = some ⟨m, some k⟩) :
    s.resolutions.lookup? d' = some ⟨m, some k⟩ := by
  rw [Resolutions.lookup?_insert] at h
  split at h
  · cases h
  · exact h

theorem Registered.pin (h : s.Registered root o) {n : Node} {position : Position} (hn : n.StandsIn root)
    (hk : n.entityKind? position = none)
    (hx : Diagnostic.unrecognizedDeclaration (some n.id) (some n.kindString) ∈ s.diagnostics)
    (hd : s.resolutions.lookup? n.id = none) :
    Registered root o { s with resolutions := s.resolutions.insert n.id ⟨Builtin.unknown, none⟩ } where
  once := List.nodup_cons.mpr ⟨Resolutions.not_mem_keys hd, h.once⟩
  settled {d r} hr := by
    by_cases hnew : d = n.id
    · have heq : ⟨Builtin.unknown, none⟩ = r := by simpa [Resolutions.lookup?_insert, hnew] using hr
      rw [hnew, ← heq]
      exact .pinned hn hk hx
    · have hold : s.resolutions.lookup? d = some r := by simpa [Resolutions.lookup?_insert, hnew] using hr
      exact (h.settled hold).grow (grows_pin hd _) id
  distinct hr hr' := h.distinct (settled_of_pin hr) (settled_of_pin hr')
  owned hm hid := by
    obtain ⟨k, hr⟩ := h.owned hm hid
    exact ⟨k, Resolutions.lookup?_insert_of_settled hd hr⟩
  typed hm hid := (h.typed hm hid).grow (grows_pin hd _)

/-- A node that is not recognized, and reported so, may be pinned to the unknown type. -/
theorem Coherent.pin (h : s.Coherent root o held) {n : Node} {position : Position} (hn : n.StandsIn root)
    (hk : n.entityKind? position = none)
    (hx : Diagnostic.unrecognizedDeclaration (some n.id) (some n.kindString) ∈ s.diagnostics)
    (hd : s.resolutions.lookup? n.id = none) :
    Coherent root o held { s with resolutions := s.resolutions.insert n.id ⟨Builtin.unknown, none⟩ } where
  toRegistered := h.toRegistered.pin hn hk hx hd
  toQueued := h.toQueued.frame (grows_pin hd _) rfl fun _ => Iff.rfl
  toReported := h.toReported.frame (grows_pin hd _) rfl rfl

/-! ## Slots -/

theorem Registered.get?_of_settled (h : s.Registered root o) {d : DeclId} {m : EntityId} {k : DeclKind}
    (hd : s.resolutions.lookup? d = some ⟨m, some k⟩) : ∃ x, s.arena.get? m = some x := by
  cases h.settled hd with
  | entered _ _ _ hslot =>
    rcases hslot with hm | ⟨e, hm, _⟩
    · exact ⟨_, hm⟩
    · exact ⟨_, hm⟩

theorem grows_enter {d : DeclId} (h : s.resolutions.lookup? d = none) (r : Resolution) :
    Grows s { s with resolutions := s.resolutions.insert d r, arena := s.arena.reserve.2 } where
  slots := by simp [Arena.reserve]
  filled := Arena.get?_reserve_of_get?
  settled := Resolutions.lookup?_insert_of_settled h
  diagnostics := List.prefix_rfl
  references := List.suffix_rfl
  begun := List.suffix_rfl

theorem Registered.enter (h : s.Registered root o) {n : Node} {position : Position} {kind : DeclKind} {depth : Nat}
    (hn : n.StandsIn root) (hdepth : TypeExpr.Nested root depth n.value) (hk : n.entityKind? position = some kind)
    (hd : s.resolutions.lookup? n.id = none) :
    Registered root o { s with
      resolutions := s.resolutions.insert n.id ⟨s.arena.nextId, some kind⟩
      arena := s.arena.reserve.2 } where
  once := List.nodup_cons.mpr ⟨Resolutions.not_mem_keys hd, h.once⟩
  settled {d r} hr := by
    by_cases hnew : d = n.id
    · have heq : ⟨s.arena.nextId, some kind⟩ = r := by simpa [Resolutions.lookup?_insert, hnew] using hr
      have hempty : s.arena.reserve.2.get? s.arena.nextId = some none := by simp [Arena.get?_reserve]
      rw [hnew, ← heq]
      exact .entered hn hdepth hk (.inl hempty)
    · have hold : s.resolutions.lookup? d = some r := by simpa [Resolutions.lookup?_insert, hnew] using hr
      exact (h.settled hold).grow (grows_enter hd _) Arena.get?_reserve_of_get?
  distinct {d d' m k k'} hr hr' := by
    have fresh {d : DeclId} {k : DeclKind} (hr : s.resolutions.lookup? d = some ⟨s.arena.nextId, some k⟩) : False := by
      obtain ⟨x, hx⟩ := h.get?_of_settled hr
      exact Arena.ne_nextId_of_get? hx rfl
    by_cases hnew : d = n.id
    · by_cases hnew' : d' = n.id
      · exact hnew.trans hnew'.symm
      · simp only [Resolutions.lookup?_insert, hnew, hnew', if_true, if_false] at hr hr'
        cases hr
        exact (fresh hr').elim
    · by_cases hnew' : d' = n.id
      · simp only [Resolutions.lookup?_insert, hnew, hnew', if_true, if_false] at hr hr'
        cases hr'
        exact (fresh hr).elim
      · simp only [Resolutions.lookup?_insert, hnew, hnew', if_false] at hr hr'
        exact h.distinct hr hr'
  owned hm hid := by
    obtain ⟨k, hr⟩ := h.owned (Arena.get?_of_reserve hm) hid
    exact ⟨k, Resolutions.lookup?_insert_of_settled hd hr⟩
  typed hm hid := (h.typed (Arena.get?_of_reserve hm) hid).grow (grows_enter hd _)

/-- The new slot is empty and held. -/
theorem Queued.enter (h : s.Queued root held) {d : DeclId} (hd : s.resolutions.lookup? d = none) (r : Resolution) :
    Queued root (s.arena.nextId :: held)
      { s with resolutions := s.resolutions.insert d r, arena := s.arena.reserve.2 } where
  entered hp := (h.entered hp).grow (grows_enter hd r)
  nodup := by
    refine List.perm_middle.nodup_iff.mpr (List.nodup_cons.mpr ⟨fun hm => ?_, h.nodup⟩)
    exact Arena.ne_nextId_of_get? (h.vacant.mpr hm) rfl
  vacant {m} := by
    rw [List.perm_middle.mem_iff, List.mem_cons, ← h.vacant]
    by_cases hnew : m = s.arena.nextId <;> simp [Arena.get?_reserve, hnew]

/-- A node that is recognized may get a slot, which is held. -/
theorem Coherent.enter (h : s.Coherent root o held) {n : Node} {position : Position} {kind : DeclKind} {depth : Nat}
    (hn : n.StandsIn root) (hdepth : TypeExpr.Nested root depth n.value) (hk : n.entityKind? position = some kind)
    (hd : s.resolutions.lookup? n.id = none) :
    Coherent root o (s.arena.nextId :: held) { s with
      resolutions := s.resolutions.insert n.id ⟨s.arena.nextId, some kind⟩
      arena := s.arena.reserve.2 } where
  toRegistered := h.toRegistered.enter hn hdepth hk hd
  toQueued := h.toQueued.enter hd _
  toReported := h.toReported.frame (grows_enter hd _) rfl rfl

theorem grows_fill {slot : EntityId} {e : Entity} {b : Arena} (h : s.arena.fill slot e = .ok b) :
    Grows s { s with arena := b } where
  slots := by
    obtain ⟨_, rfl⟩ := Arena.fill_eq_ok_iff.mp h
    simp
  filled hm := Arena.get?_fill_of_get? hm h
  settled := id
  diagnostics := List.prefix_rfl
  references := List.suffix_rfl
  begun := List.suffix_rfl

theorem Registered.fill {slot : EntityId} (h : s.Registered root o) {n : Node} {position : Position}
    {kind : DeclKind} {depth : Nat} {e : Entity} {b : Arena} (hn : n.StandsIn root)
    (hdepth : TypeExpr.Nested root depth n.value) (hk : n.entityKind? position = some kind)
    (hd : s.resolutions.lookup? n.id = some ⟨slot, some kind⟩)
    (he : s.Ensures root o fun w => w.Shows depth n kind e) (hb : s.arena.fill slot e = .ok b) :
    Registered root o { s with arena := b } where
  once := h.once
  settled {d r} hr := by
    by_cases hslot : r.entity = slot
    · cases h.settled hr with
      | pinned hn hk hx => exact .pinned hn hk hx
      | entered =>
        obtain rfl := hslot
        have heq := h.distinct hr hd
        rw [heq, hd] at hr
        cases hr
        refine heq ▸ .entered hn hdepth hk (.inr ⟨e, ?_, he.grow (grows_fill hb)⟩)
        rw [Arena.get?_of_fill hb, if_pos rfl]
    · refine (h.settled hr).grow (grows_fill hb) fun hm => ?_
      rw [Arena.get?_of_fill hb, if_neg hslot]
      exact hm
  distinct := h.distinct
  owned {m e' d} hm hid := by
    by_cases hslot : m = slot
    · have heq : e = e' := by simpa [Arena.get?_of_fill hb, hslot] using hm
      rw [← heq, he.now.stamp.1] at hid
      cases hid
      exact ⟨kind, hslot ▸ hd⟩
    · have hold : s.arena.get? m = some (some e') := by simpa [Arena.get?_of_fill hb, hslot] using hm
      exact h.owned hold hid
  typed {m e'} hm hid := by
    by_cases hslot : m = slot
    · have heq : e = e' := by simpa [Arena.get?_of_fill hb, hslot] using hm
      rw [← heq, he.now.stamp.1] at hid
      cases hid
    · have hold : s.arena.get? m = some (some e') := by simpa [Arena.get?_of_fill hb, hslot] using hm
      exact (h.typed hold hid).grow (grows_fill hb)

/-- A slot that is filled is no longer held. -/
theorem Queued.fill {slot : EntityId} (h : s.Queued root (slot :: held)) {e : Entity} {b : Arena}
    (hb : s.arena.fill slot e = .ok b) : Queued root held { s with arena := b } where
  entered hp := (h.entered hp).grow (grows_fill hb)
  nodup := (List.nodup_cons.mp (List.perm_middle.nodup_iff.mp h.nodup)).2
  vacant {m} := by
    have hfree := (List.nodup_cons.mp (List.perm_middle.nodup_iff.mp h.nodup)).1
    have hvacant := h.vacant (m := m)
    rw [List.perm_middle.mem_iff, List.mem_cons] at hvacant
    by_cases hslot : m = slot
    · have hfull : b.get? m = some (some e) := by simp [Arena.get?_of_fill hb, hslot]
      have hnot : m ∉ s.waiting.map (·.slot) ++ held := by rwa [hslot]
      rw [hfull]
      exact ⟨fun hm => (nomatch hm), fun hm => absurd hm hnot⟩
    · rw [Arena.get?_of_fill hb, if_neg hslot, hvacant]
      simp [hslot]

/-- The slot of a node may be filled with the entity that the node shows, and is no longer held. -/
theorem Coherent.fill {slot : EntityId} (h : s.Coherent root o (slot :: held)) {n : Node} {position : Position}
    {kind : DeclKind} {depth : Nat} {e : Entity} {b : Arena} (hn : n.StandsIn root)
    (hdepth : TypeExpr.Nested root depth n.value) (hk : n.entityKind? position = some kind)
    (hd : s.resolutions.lookup? n.id = some ⟨slot, some kind⟩)
    (he : s.Ensures root o fun w => w.Shows depth n kind e) (hb : s.arena.fill slot e = .ok b) :
    Coherent root o held { s with arena := b } where
  toRegistered := h.toRegistered.fill hn hdepth hk hd he hb
  toQueued := h.toQueued.fill hb
  toReported := h.toReported.frame (grows_fill hb) rfl rfl

end State

end EntityGraph.Build

import Mathlib.Data.List.Dedup
import Mathlib.Data.List.Perm.Subperm
import EntityGraph.Proofs.Accounts

/-!
# How often declarations are built

A declaration that has an entity of its own waits for it or was begun, and never twice (`Build.State.Tallied`). Every
step of a run keeps this (`Build.Step.tallied`), so what was begun when nothing waits any more is what has an entity
(`Graph.EndsIn.begun_perm`).

`Build.Settles` takes the declarations that wait off the stack until none is left, whatever the number of rounds; it is
what `Build.settle` does in as many rounds or more (`Build.Settles.settle_eq`). Every declaration that is taken off is
begun (`Build.Settles.length_le`). So each pass ends, with nothing waiting, after no more rounds than there are ids in
the document (`Graph.exists_pass_built`).
-/

namespace EntityGraph

namespace Build

variable {root : Json} {o : Options} {s t : State} {w w' : Work} {a : Act} {more : List Task}

/-! ## Declarations that wait and declarations that were begun -/

namespace State

/-- The declarations that wait and those that were begun. -/
def tally (s : State) : List DeclId := s.waiting.map (·.node.id) ++ s.begun

/-- Exactly the declarations that have an entity of their own wait or were begun, each once. -/
structure Tallied (s : State) : Prop where
  nodup : s.tally.Nodup
  mem_iff (d : DeclId) : d ∈ s.tally ↔ ∃ m kind, s.resolutions.lookup? d = some ⟨m, some kind⟩

theorem Tallied.not_mem (h : s.Tallied) {d : DeclId} (hopen : s.resolutions.lookup? d = none) : d ∉ s.tally := by
  intro hd
  obtain ⟨m, kind, hr⟩ := (h.mem_iff d).mp hd
  rw [hopen] at hr
  cases hr

/-- A change that leaves alone what waits, what was begun and what is settled keeps the tally. -/
theorem Tallied.frame (h : s.Tallied) (tally : t.tally.Perm s.tally) (resolutions : t.resolutions = s.resolutions) :
    t.Tallied where
  nodup := tally.nodup_iff.mpr h.nodup
  mem_iff d := by
    rw [tally.mem_iff, resolutions]
    exact h.mem_iff d

/-- A pin gives no entity of its own. -/
theorem Tallied.pin (h : s.Tallied) {d : DeclId} (hopen : s.resolutions.lookup? d = none) (tally : t.tally = s.tally)
    {fallback : EntityId} (resolutions : t.resolutions = s.resolutions.insert d ⟨fallback, none⟩) : t.Tallied where
  nodup := tally ▸ h.nodup
  mem_iff d' := by
    rw [tally, h.mem_iff, resolutions]
    constructor
    · rintro ⟨m, kind, hr⟩
      exact ⟨m, kind, Resolutions.lookup?_insert_of_settled hopen hr⟩
    · rintro ⟨m, kind, hr⟩
      exact ⟨m, kind, settled_of_pin hr⟩

/-- A new declaration with an entity of its own has to be added to the tally. -/
theorem Tallied.enter (h : s.Tallied) {d : DeclId} (hopen : s.resolutions.lookup? d = none)
    (tally : t.tally.Perm (d :: s.tally)) {m : EntityId} {kind : DeclKind}
    (resolutions : t.resolutions = s.resolutions.insert d ⟨m, some kind⟩) : t.Tallied where
  nodup := tally.nodup_iff.mpr (List.nodup_cons.mpr ⟨h.not_mem hopen, h.nodup⟩)
  mem_iff d' := by
    rw [tally.mem_iff, List.mem_cons, h.mem_iff, resolutions, Resolutions.lookup?_insert]
    by_cases hnew : d' = d
    · simp [hnew]
    · simp [hnew]

end State

theorem Does.tallied (h : Does root o a s more t) (hs : s.Tallied) : t.Tallied := by
  cases h with
  | report | store | unreadable | missing | known => exact hs.frame (.refl _) rfl
  | pin _ _ hopen => exact hs.pin hopen rfl rfl
  | enter _ _ hopen => exact hs.enter hopen List.perm_middle rfl
  | wait _ _ hopen => exact hs.enter hopen (.refl _) rfl

theorem Step.tallied (h : Step root o w w') (hw : w.state.Tallied) : w'.state.Tallied := by
  cases h with
  | act _ h => exact h.tallied hw
  | fill | refer => exact hw.frame (.refl _) rfl
  | @resume s p ps rest hps =>
    -- What is taken off the stack is begun.
    refine hw.frame ?_ rfl
    simp only [State.tally, hps]
    exact List.perm_middle

theorem Steps.tallied (h : Steps root o w w') (hw : w.state.Tallied) : w'.state.Tallied := by
  induction h with
  | refl => exact hw
  | tail _ hstep ih => exact hstep.tallied ih

theorem State.start_tallied (root : Json) : (State.start root).Tallied where
  nodup := List.nodup_nil
  mem_iff d := by simp [tally, start, Resolutions.lookup?]

/-! ## Rounds -/

/-- From `s` to `t`, `k` declarations are taken off the stack of those that wait and built, one after the other, until
none waits. -/
inductive Settles (c : Context) : (k : Nat) → (s t : State) → Prop
  | done {s : State} : s.waiting = [] → Settles c 0 s s
  | pop {k : Nat} {s t u : State} {p : Waiting} {rest : List Waiting} : s.waiting = p :: rest →
      build p.node p.kind p.position p.slot (visitor 0 p.node.value) c { s with waiting := rest } = .ok ((), t) →
      Settles c k t u → Settles c (k + 1) s u

namespace Settles

variable {c : Context} {k : Nat}

/-- As many rounds or more come to the same end. -/
theorem settle_eq (h : Settles c k s t) : ∀ {rounds : Nat}, k ≤ rounds → settle rounds c s = .ok ((), t) := by
  induction h with
  | done h => exact fun _ => settle_nil h _ _
  | pop hwaiting hbuild _ ih =>
    intro rounds hle
    obtain ⟨rounds, rfl⟩ := Nat.exists_eq_add_of_lt (Nat.lt_of_succ_le hle)
    rw [settle_cons hwaiting, hbuild]
    apply ih
    omega

/-- Rounds that leave nothing waiting have taken off all that was to be built. -/
theorem exists_of_settle {rounds : Nat} : ∀ {s : State}, settle rounds c s = .ok ((), t) → t.waiting = [] →
    ∃ k, Settles c k s t := by
  induction rounds with
  | zero =>
    intro s hrun hend
    cases hrun
    exact ⟨0, .done hend⟩
  | succ rounds ih =>
    intro s hrun hend
    cases hwaiting : s.waiting with
    | nil =>
      rw [settle_nil hwaiting] at hrun
      cases hrun
      exact ⟨0, .done hwaiting⟩
    | cons p rest =>
      rw [settle_cons hwaiting] at hrun
      cases hbuild : build p.node p.kind p.position p.slot (visitor 0 p.node.value) c { s with waiting := rest } with
      | error breach =>
        rw [hbuild] at hrun
        cases hrun
      | ok q =>
        rw [hbuild] at hrun
        obtain ⟨k, hk⟩ := ih hrun hend
        exact ⟨k + 1, .pop hwaiting hbuild hk⟩

/-- Every declaration that is taken off the stack is begun. -/
theorem length_le (h : Settles (.ofRoot root o) k s t) (hs : s.Coherent root o []) :
    s.begun.length + k ≤ t.begun.length := by
  generalize hc : Context.ofRoot root o = c at h
  induction h with
  | done => omega
  | pop hwaiting hbuild _ ih =>
    subst hc
    obtain ⟨_, ht, hbegun⟩ := (build_resumed_reaches hs hwaiting).eq_of_run hbuild
    have hlength := hbegun.length_le
    have hrest := ih ht
    simp only [List.length_cons] at hlength
    omega

end Settles

end Build

namespace Graph

open Build (State Performs Settles)

variable {root : Json} {o : Options} {g : Graph} {t : State}

/-! ## What a pass builds -/

/-- When nothing waits, the declarations that were begun are those that have an entity of their own. -/
theorem EndsIn.begun_perm (ht : g.EndsIn root o t) (hwaiting : t.waiting = []) (h : t.Tallied) :
    g.begun.Nodup ∧ g.begun.Perm ((g.declarations.filter fun p => p.2 ≠ Builtin.unknown).map (·.1)) := by
  have htally : t.tally = t.begun := by rw [State.tally, hwaiting, List.map_nil, List.nil_append]
  have hnodup : g.begun.Nodup := by
    rw [ht.begun, List.nodup_reverse, ← htally]
    exact h.nodup
  refine ⟨hnodup, (List.perm_ext_iff_of_nodup hnodup ?_).mpr fun d => ?_⟩
  · exact ht.nodup_declarations.sublist (List.filter_sublist.map _)
  · have hbegun : d ∈ g.begun ↔ ∃ m kind, t.resolutions.lookup? d = some ⟨m, some kind⟩ := by
      rw [ht.begun, List.mem_reverse, ← htally]
      exact h.mem_iff d
    rw [hbegun, List.mem_map]
    constructor
    · rintro ⟨m, kind, hr⟩
      refine ⟨(d, m), List.mem_filter.mpr ⟨ht.mem_declarations_iff.mpr ?_, ?_⟩, rfl⟩
      · rw [ht.entityOf?, hr, Option.map_some]
      · have hne : m ≠ Builtin.unknown := fun hm => by simpa using (ht.kind_eq_none_iff (ht.resolution? hr)).mpr hm
        simpa using hne
    · rintro ⟨⟨d', m⟩, hmem, rfl⟩
      obtain ⟨hdeclared, hne⟩ := List.mem_filter.mp hmem
      have hd := ht.mem_declarations_iff.mp hdeclared
      rw [ht.entityOf?] at hd
      obtain ⟨⟨m', kind?⟩, hr, rfl⟩ := Option.map_eq_some_iff.mp hd
      cases kind? with
      | none =>
        have hunknown := (ht.kind_eq_none_iff (ht.resolution? hr)).mp rfl
        exact absurd hunknown (by simpa using hne)
      | some kind => exact ⟨m', kind, hr⟩

/-- What a pass builds, when it takes `pops` declarations off the stack of those that wait. -/
structure BuildsOnce (g : Graph) (root : Json) (pops : Nat) : Prop where
  /-- No declaration is begun twice. -/
  nodup : g.begun.Nodup
  /-- What is begun has an entity of its own, and the other way round. -/
  perm : g.begun.Perm ((g.declarations.filter fun p => p.2 ≠ Builtin.unknown).map (·.1))
  /-- There are no more of them than ids in the document. -/
  length_le : g.begun.length ≤ (root.nodes.map Node.id).dedup.length
  /-- A declaration that waits is taken off the stack once. -/
  pops_le : pops ≤ g.begun.length

/-- The declarations that are begun are declarations of the document. -/
theorem EndsIn.begun_subset (ht : g.EndsIn root o t) (hwaiting : t.waiting = []) (h : t.Tallied) :
    g.begun ⊆ (root.nodes.map Node.id).dedup := by
  intro d hd
  obtain ⟨⟨d', m⟩, hmem, rfl⟩ := List.mem_map.mp ((ht.begun_perm hwaiting h).2.mem_iff.mp hd)
  have hdeclared := ht.mem_declarations_iff.mp (List.mem_filter.mp hmem).1
  rw [ht.entityOf?] at hdeclared
  obtain ⟨r, hr, _⟩ := Option.map_eq_some_iff.mp hdeclared
  obtain ⟨n, hn, hid⟩ := (ht.coherent.settled hr).carriedIn
  exact List.mem_dedup.mpr (List.mem_map.mpr ⟨n, Json.mem_nodes_iff.mpr hn, hid⟩)

theorem EndsIn.buildsOnce (ht : g.EndsIn root o t) (hwaiting : t.waiting = []) (h : t.Tallied) {pops : Nat}
    (hpops : pops ≤ t.begun.length) : g.BuildsOnce root pops where
  nodup := (ht.begun_perm hwaiting h).1
  perm := (ht.begun_perm hwaiting h).2
  length_le := (List.subperm_of_subset (ht.begun_perm hwaiting h).1 (ht.begun_subset hwaiting h)).length_le
  pops_le := by
    rw [ht.begun, List.length_reverse]
    exact hpops

/-- A pass that gives `g` and ends in `t`. The children of the root leave some declarations waiting, in the state `s`;
from there on `pops` declarations are taken off the stack, until nothing waits. -/
structure PassEnds (g : Graph) (root : Json) (o : Options) (ids : List EntityId) (s t : State) (pops : Nat) : Prop where
  modules : Build.modules root (.ofRoot root o) (.start root) = .ok (ids, s)
  settles : Settles (.ofRoot root o) pops s t
  /-- With as many rounds or more, all that waits is built. -/
  settle {rounds : Nat} : pops ≤ rounds → Build.settle rounds (.ofRoot root o) s = .ok ((), t)
  waiting : t.waiting = []
  pass : Build.pass root (.ofRoot root o) (.start root) = .ok (ids, t)
  graph : ofPass o ids t = .ok g

/-- Every pass ends, after no more rounds than there are ids in the document, and builds no declaration twice. -/
theorem exists_pass_built (root : Json) (o : Options) : ∃ g ids s t pops,
    resolve root o = .ok g ∧ g.PassEnds root o ids s t pops ∧ g.BuildsOnce root pops := by
  obtain ⟨ids, s, t, hmodules, hs, hsettle, hwaiting, hpass⟩ := Build.exists_rounds root o
  obtain ⟨g, ids', t', hpass', _, hg, ht⟩ := exists_pass root o
  obtain ⟨rfl, rfl⟩ : ids = ids' ∧ t = t' := by simpa [hpass] using hpass'
  obtain ⟨pops, hpops⟩ := Settles.exists_of_settle hsettle hwaiting
  have htallied : t.Tallied := Build.Steps.tallied (Build.pass_performs hpass) (State.start_tallied root)
  have hlength := hpops.length_le hs
  have hofPass : ofPass o ids t = .ok g := by
    rwa [resolve_eq, hpass] at hg
  refine ⟨g, ids, s, t, pops, hg, ⟨hmodules, hpops, hpops.settle_eq, hwaiting, hpass, hofPass⟩, ?_⟩
  apply ht.buildsOnce hwaiting htallied
  omega

end Graph

end EntityGraph

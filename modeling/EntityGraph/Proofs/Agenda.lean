import Mathlib.Logic.Relation
import EntityGraph.Proofs.Script

/-!
# A resolution as work on an agenda

A resolution can be told as work on an agenda (`Build.Work`): a state and the tasks that are still to be done. Each step
(`Build.Step`) does the first task, which may put the script of a declaration on the agenda (`Build.Does`), or takes a
declaration off the stack of those that wait. `Build.Performs` is a run that works a script off.

What is on the agenda stays there until it is done (`Step.handles`), and so does the script of every declaration that
has an entity (`Work.Traced`). So at the end of a run each entity shows a node whose whole script is done
(`Performs.built`).
-/

namespace EntityGraph

/-- A declaration that was entered was recognized at its place. -/
def Waiting.Recognized (root : Json) (p : Waiting) : Prop :=
  p.node.StandsIn root ∧ p.node.entityKind? p.position = some p.kind

/-- What is recognized at one place is recognized from a reference. -/
theorem Waiting.Recognized.exists_kind {root : Json} {p : Waiting} (hp : p.Recognized root) :
    ∃ kind, p.node.entityKind? .reference = some kind := by
  refine Option.ne_none_iff_exists'.mp fun hnone => ?_
  have hrecognized := hp.2
  rw [(Node.entityKind?_eq_none_iff .reference p.position).mp hnone] at hrecognized
  cases hrecognized

namespace Build

/-- What stands on an agenda. -/
inductive Task
  | act (a : Act)
  /-- The slot of a declaration that was entered inside `depth` type expressions is to be filled. -/
  | fill (depth : Nat) (p : Waiting)

/-- What is to be done for a declaration that was entered: its script, then its slot. -/
def tasks (o : Options) (depth : Nat) (p : Waiting) : List Task := (p.script o depth).map .act ++ [.fill depth p]

/-- A state of a resolution with what is still to be done, the next task first. -/
structure Work where
  agenda : List Task
  state : State

/-- In the state `s`, an act leads to the state `t` and puts `more` at the front of the agenda. -/
inductive Does (root : Json) (o : Options) : Act → (s : State) → (more : List Task) → (t : State) → Prop
  | report (s : State) (x : Diagnostic) :
      Does root o (.report x) s [] { s with diagnostics := s.diagnostics.push x }
  | store (s : State) {e : Entity} : e.declId? = none →
      Does root o .store s [] { s with arena := (s.arena.alloc e).2 }
  /-- A value without the base shape of a declaration is reported. -/
  | unreadable (s : State) {depth : Nat} {position : Position} {v : Json} : Node.ofJson? v = none →
      Does root o (.declare depth position v) s []
        { s with diagnostics := s.diagnostics.push (.unrecognizedDeclaration none (v.stringAt? "kindString")) }
  | missing (s : State) {d : DeclId} : ¬ d.CarriedIn root →
      Does root o (.follow d) s [] { s with diagnostics := s.diagnostics.push (.danglingReference d) }
  | known {s : State} {a : Act} {d : DeclId} {r : Resolution} : d.CarriedIn root → a.target? = some d →
      s.resolutions.lookup? d = some r → Does root o a s [] s
  /-- A declaration that is not recognized is reported and stands for the unknown type. -/
  | pin {s : State} {a : Act} {n : Node} {position : Position} : n.StandsIn root → a.Names root n →
      s.resolutions.lookup? n.id = none → n.entityKind? position = none →
      Does root o a s [] { s with
        diagnostics := s.diagnostics.push (.unrecognizedDeclaration (some n.id) (some n.kindString))
        resolutions := s.resolutions.insert n.id ⟨Builtin.unknown, none⟩ }
  /-- A declaration that is reached in place gets a slot and is built at once. -/
  | enter {s : State} {depth : Nat} {position : Position} {v : Json} {n : Node} {kind : DeclKind} :
      n.StandsIn root → Node.ofJson? v = some n → s.resolutions.lookup? n.id = none →
      n.entityKind? position = some kind →
      Does root o (.declare depth position v) s (tasks o depth ⟨n, kind, position, s.arena.nextId⟩) { s with
        resolutions := s.resolutions.insert n.id ⟨s.arena.nextId, some kind⟩
        arena := s.arena.reserve.2
        begun := n.id :: s.begun }
  /-- A declaration that is reached through a reference gets a slot and waits. -/
  | wait {s : State} {n : Node} {kind : DeclKind} : n.StandsIn root → (Act.follow n.id).Names root n →
      s.resolutions.lookup? n.id = none → n.entityKind? .reference = some kind →
      Does root o (.follow n.id) s [] { s with
        resolutions := s.resolutions.insert n.id ⟨s.arena.nextId, some kind⟩
        arena := s.arena.reserve.2
        waiting := ⟨n, kind, .reference, s.arena.nextId⟩ :: s.waiting }

/-- One step of the work. References may be put on record at any time. -/
inductive Step (root : Json) (o : Options) : Work → Work → Prop
  | act {a : Act} {s t : State} {more : List Task} (rest : List Task) : Does root o a s more t →
      Step root o ⟨.act a :: rest, s⟩ ⟨more ++ rest, t⟩
  /-- The entity of a declaration shows its node. -/
  | fill {s : State} {depth : Nat} {p : Waiting} {e : Entity} {b : Arena} (rest : List Task) :
      s.Ensures root o (fun w => w.Shows depth p.node p.kind e) → s.arena.fill p.slot e = .ok b →
      Step root o ⟨.fill depth p :: rest, s⟩ ⟨rest, { s with arena := b }⟩
  | resume {s : State} {p : Waiting} {ps : List Waiting} (rest : List Task) : s.waiting = p :: ps →
      Step root o ⟨rest, s⟩ ⟨tasks o 0 p ++ rest, { s with waiting := ps, begun := p.node.id :: s.begun }⟩
  | refer (rest : List Task) (s : State) (d : DeclId) (m : EntityId) :
      Step root o ⟨rest, s⟩ ⟨rest, { s with references := (d, m) :: s.references }⟩

/-- Any number of steps. -/
abbrev Steps (root : Json) (o : Options) : Work → Work → Prop := Relation.ReflTransGen (Step root o)

/-- A run from `s` to `t` works a script off. -/
def Performs (root : Json) (o : Options) (script : List Act) (s t : State) : Prop :=
  Steps root o ⟨script.map .act, s⟩ ⟨[], t⟩

variable {root : Json} {o : Options} {s t u : State} {w w' : Work} {a : Act} {more : List Task}

/-! ## Runs -/

/-- What stands behind on the agenda does not matter to a step. -/
theorem Step.frame (h : Step root o w w') (rest : List Task) :
    Step root o ⟨w.agenda ++ rest, w.state⟩ ⟨w'.agenda ++ rest, w'.state⟩ := by
  cases h with
  | act after h =>
    rw [List.append_assoc]
    exact .act (after ++ rest) h
  | fill after hshow hb => exact .fill (after ++ rest) hshow hb
  | resume after hp =>
    rw [List.append_assoc]
    exact .resume (after ++ rest) hp
  | refer after s d m => exact .refer (after ++ rest) s d m

theorem Steps.frame (h : Steps root o w w') (rest : List Task) :
    Steps root o ⟨w.agenda ++ rest, w.state⟩ ⟨w'.agenda ++ rest, w'.state⟩ := by
  induction h with
  | refl => exact .refl
  | tail _ hstep ih => exact ih.tail (hstep.frame rest)

namespace Performs

theorem nil (s : State) : Performs root o [] s s := .refl

theorem append {as bs : List Act} (h : Performs root o as s t) (h' : Performs root o bs t u) :
    Performs root o (as ++ bs) s u := by
  rw [Performs, List.map_append]
  exact (Steps.frame h (bs.map .act)).trans h'

theorem act (h : Does root o a s more t) (hmore : Steps root o ⟨more, t⟩ ⟨[], u⟩) : Performs root o [a] s u := by
  have hstep := Step.act [] h
  rw [List.append_nil] at hstep
  exact .head hstep hmore

/-- The entity of a declaration is made by its script and fills its slot. -/
theorem tasks {depth : Nat} {p : Waiting} {e : Entity} {b : Arena} (h : Performs root o (p.script o depth) s t)
    (hshow : t.Ensures root o fun w => w.Shows depth p.node p.kind e) (hb : t.arena.fill p.slot e = .ok b) :
    Steps root o ⟨Build.tasks o depth p, s⟩ ⟨[], { t with arena := b }⟩ :=
  (Steps.frame h [.fill depth p]).tail (.fill [] hshow hb)

end Performs

/-! ## Growth -/

theorem Does.grows (h : Does root o a s more t) : s.Grows t := by
  cases h with
  | report _ x => exact State.grows_report s x
  | unreadable | missing => exact State.grows_report s _
  | store => exact State.grows_alloc s _
  | known => exact .refl s
  | pin _ _ hopen => exact (State.grows_pin hopen _).trans (State.grows_report _ _)
  | enter _ _ hopen => exact (State.grows_enter hopen _).trans (State.grows_begin _ _)
  | wait _ _ hopen => exact (State.grows_enter hopen _).trans (State.grows_wait _ _)

theorem Step.grows (h : Step root o w w') : w.state.Grows w'.state := by
  cases h with
  | act _ h => exact h.grows
  | fill _ _ hb => exact State.grows_fill hb
  | @resume s p ps => exact (State.grows_wait s ps).trans (State.grows_begin _ p.node.id)
  | refer _ s d m => exact State.grows_refer s d m

/-! ## What is done -/

/-- What is the case when an act is done: what was to be said is said, and what was asked for is settled. -/
def State.Done (root : Json) (s : State) : Act → Prop
  | .report x => x ∈ s.diagnostics
  | .follow d => d.CarriedIn root → ∃ r, s.resolutions.lookup? d = some r
  | .declare _ _ v => (∃ n r, Node.ofJson? v = some n ∧ s.resolutions.lookup? n.id = some r) ∨
      (Node.ofJson? v = none ∧ .unrecognizedDeclaration none (v.stringAt? "kindString") ∈ s.diagnostics)
  | .store => True

theorem State.Done.grow (h : s.Done root a) (hst : s.Grows t) : t.Done root a := by
  cases a with
  | report x => exact hst.mem_diagnostics h
  | follow d =>
    intro hd
    obtain ⟨r, hr⟩ := h hd
    exact ⟨r, hst.settled hr⟩
  | declare depth position v =>
    rcases h with ⟨n, r, hn, hr⟩ | ⟨hv, hx⟩
    · exact .inl ⟨n, r, hn, hst.settled hr⟩
    · exact .inr ⟨hv, hst.mem_diagnostics hx⟩
  | store => trivial

/-- An act that asks for what is settled is done. -/
theorem State.done_of_settled {d : DeclId} {r : Resolution} (ha : a.target? = some d)
    (hr : s.resolutions.lookup? d = some r) : s.Done root a := by
  cases a with
  | report | store => cases ha
  | follow d' =>
    obtain rfl : d' = d := Option.some.inj ha
    exact fun _ => ⟨r, hr⟩
  | declare depth position v =>
    obtain ⟨n, hn, rfl⟩ := Option.map_eq_some_iff.mp ha
    exact .inl ⟨n, r, hn, hr⟩

theorem Does.done (h : Does root o a s more t) : t.Done root a := by
  cases h with
  | report => exact Array.mem_push_self
  | store => trivial
  | unreadable _ hv => exact .inr ⟨hv, Array.mem_push_self⟩
  | missing _ hd => exact fun hcarried => absurd hcarried hd
  | known _ ha hr => exact State.done_of_settled ha hr
  | pin _ ha => exact State.done_of_settled ha.target? (Resolutions.lookup?_insert_self ..)
  | enter _ hv => exact .inl ⟨_, _, hv, Resolutions.lookup?_insert_self ..⟩
  | wait => exact fun _ => ⟨_, Resolutions.lookup?_insert_self ..⟩

/-- An act is on the agenda or done. -/
def Work.Handles (root : Json) (w : Work) (a : Act) : Prop := .act a ∈ w.agenda ∨ w.state.Done root a

/-- What is on the agenda stays there until it is done. -/
theorem Step.handles (h : Step root o w w') (ha : w.Handles root a) : w'.Handles root a := by
  rcases ha with ha | ha
  · cases h with
    | act rest h =>
      rcases List.mem_cons.mp ha with heq | ha
      · cases heq
        exact .inr h.done
      · exact .inl (List.mem_append_right _ ha)
    | fill =>
      rcases List.mem_cons.mp ha with heq | ha
      · cases heq
      · exact .inl ha
    | resume => exact .inl (List.mem_append_right _ ha)
    | refer => exact .inl ha
  · exact .inr (ha.grow h.grows)

theorem Steps.handles (h : Steps root o w w') (ha : w.Handles root a) : w'.Handles root a := by
  induction h with
  | refl => exact ha
  | tail _ hstep ih => exact hstep.handles ih

/-- A script that is worked off is done. -/
theorem Performs.done {script : List Act} (h : Performs root o script s t) (ha : a ∈ script) : t.Done root a := by
  rcases Steps.handles h (.inl (List.mem_map_of_mem ha)) with hnone | hdone
  · cases hnone
  · exact hdone

/-! ## Where entities come from -/

/-- A declaration was recognized, and its script, inside `depth` type expressions, is done or on the agenda. -/
def Work.Covers (root : Json) (o : Options) (w : Work) (depth : Nat) (p : Waiting) : Prop :=
  p.Recognized root ∧ ∀ a ∈ p.script o depth, w.Handles root a

/-- An entity shows a declaration that is covered. -/
def Work.Explains (root : Json) (o : Options) (w : Work) (d : DeclId) (e : Entity) : Prop :=
  ∃ (depth : Nat) (p : Waiting), w.Covers root o depth p ∧ p.node.id = d ∧
    w.state.Ensures root o fun w => w.Shows depth p.node p.kind e

/-- Every entity of a declaration shows a node that was recognized and whose script is done or on the agenda, also while
the entity is being built. -/
structure Work.Traced (root : Json) (o : Options) (w : Work) : Prop where
  waits {p : Waiting} : p ∈ w.state.waiting → p.Recognized root
  fills {depth : Nat} {p : Waiting} : .fill depth p ∈ w.agenda → w.Covers root o depth p
  built {m : EntityId} {e : Entity} {d : DeclId} : w.state.arena.get? m = some (some e) → e.declId? = some d →
    w.Explains root o d e

theorem Step.covers (h : Step root o w w') {depth : Nat} {p : Waiting} (hp : w.Covers root o depth p) :
    w'.Covers root o depth p :=
  ⟨hp.1, fun a ha => h.handles (hp.2 a ha)⟩

theorem Step.explains (h : Step root o w w') {d : DeclId} {e : Entity} (he : w.Explains root o d e) :
    w'.Explains root o d e := by
  obtain ⟨depth, p, hp, hd, hshow⟩ := he
  exact ⟨depth, p, h.covers hp, hd, hshow.grow h.grows⟩

/-- The agenda of a script holds its acts and nothing to be filled. -/
theorem mem_of_mem_map_act {script : List Act} (h : .act a ∈ script.map Task.act) : a ∈ script := by
  obtain ⟨_, hmem, heq⟩ := List.mem_map.mp h
  cases heq
  exact hmem

theorem fill_not_mem_map_act {script : List Act} {depth : Nat} {p : Waiting} :
    .fill depth p ∉ script.map Task.act := by
  intro h
  obtain ⟨_, _, heq⟩ := List.mem_map.mp h
  cases heq

theorem mem_script_of_mem_tasks {depth : Nat} {p : Waiting} (h : .act a ∈ tasks o depth p) : a ∈ p.script o depth := by
  simpa [tasks] using h

theorem eq_of_fill_mem_tasks {depth depth' : Nat} {p p' : Waiting} (h : .fill depth' p' ∈ tasks o depth p) :
    depth' = depth ∧ p' = p := by
  simpa [tasks] using h

theorem covers_of_tasks {depth depth' : Nat} {p p' : Waiting} {rest : List Task} (hp : p.Recognized root)
    (h : .fill depth' p' ∈ tasks o depth p) : Work.Covers root o ⟨tasks o depth p ++ rest, s⟩ depth' p' := by
  obtain ⟨rfl, rfl⟩ := eq_of_fill_mem_tasks h
  refine ⟨hp, fun a ha => .inl ?_⟩
  exact List.mem_append_left _ (List.mem_append_left _ (List.mem_map_of_mem ha))

/-- An act enters a declaration: its id is open and its node, which the act asks for, is recognized. -/
structure Act.Enters (root : Json) (s : State) (p : Waiting) (a : Act) : Prop where
  recognized : p.Recognized root
  names : a.Names root p.node
  isOpen : s.resolutions.lookup? p.node.id = none

/-- What waits after an act waited before or was entered. -/
theorem Does.waiting (h : Does root o a s more t) {p : Waiting} (hp : p ∈ t.waiting) :
    p ∈ s.waiting ∨ a.Enters root s p := by
  cases h with
  | wait hn ha hopen hk =>
    rcases List.mem_cons.mp hp with rfl | hp
    · exact .inr ⟨⟨hn, hk⟩, ha, hopen⟩
    · exact .inl hp
  | _ => exact .inl hp

/-- What an act puts on the agenda are the tasks of what it enters. -/
theorem Does.enters (h : Does root o a s more t) {x : Task} (hx : x ∈ more) :
    ∃ (depth : Nat) (p : Waiting), more = tasks o depth p ∧ a.Enters root s p := by
  cases h with
  | enter hn hv hopen hk => exact ⟨_, _, rfl, ⟨hn, hk⟩, hv, hopen⟩
  | _ => cases hx

/-- What waits was recognized. -/
theorem Step.recognized (h : Step root o w w') (hw : ∀ p ∈ w.state.waiting, p.Recognized root) :
    ∀ p ∈ w'.state.waiting, p.Recognized root := by
  intro p hp
  cases h with
  | act _ h =>
    rcases h.waiting hp with hp | hp
    · exact hw p hp
    · exact hp.recognized
  | resume _ hps => exact hw p (hps ▸ List.mem_cons_of_mem _ hp)
  | fill | refer => exact hw p hp

/-- The slot of what an act enters is filled after its script. -/
theorem Does.fills (h : Does root o a s more t) {depth : Nat} {p : Waiting} (hp : .fill depth p ∈ more)
    (rest : List Task) : Work.Covers root o ⟨more ++ rest, t⟩ depth p := by
  obtain ⟨_, _, rfl, hentered⟩ := h.enters hp
  exact covers_of_tasks hentered.recognized hp

/-- No act gives a declaration its entity. -/
theorem Does.entity (h : Does root o a s more t) {m : EntityId} {e : Entity} {d : DeclId}
    (hm : t.arena.get? m = some (some e)) (hid : e.declId? = some d) : s.arena.get? m = some (some e) := by
  cases h with
  | store _ hnone =>
    rw [Arena.get?_alloc] at hm
    split at hm
    · cases hm
      rw [hnone] at hid
      cases hid
    · exact hm
  | enter | wait => exact Arena.get?_of_reserve hm
  | _ => exact hm

theorem Step.traced (h : Step root o w w') (hw : w.Traced root o) : w'.Traced root o := by
  have hcovers {depth : Nat} {p : Waiting} (hp : .fill depth p ∈ w.agenda) := h.covers (hw.fills hp)
  have hexplains {m : EntityId} {e : Entity} {d : DeclId} (hm : w.state.arena.get? m = some (some e))
      (hid : e.declId? = some d) := h.explains (hw.built hm hid)
  have hwaits := h.recognized fun _ => hw.waits
  cases h with
  | act rest h =>
    constructor
    case waits => exact fun hp => hwaits _ hp
    case fills =>
      intro depth p hp
      rcases List.mem_append.mp hp with hp | hp
      · exact h.fills hp rest
      · exact hcovers (List.mem_cons_of_mem _ hp)
    case built => exact fun hm hid => hexplains (h.entity hm hid) hid
  | fill rest hshow hb =>
    refine ⟨hw.waits, fun hp => hcovers (List.mem_cons_of_mem _ hp), ?_⟩
    intro m e d hm hid
    rw [Arena.get?_of_fill hb] at hm
    split at hm
    · cases hm
      have hd := hshow.now.stamp.1
      rw [hid] at hd
      exact ⟨_, _, hcovers List.mem_cons_self, (Option.some.inj hd).symm, hshow.grow (State.grows_fill hb)⟩
    · exact hexplains hm hid
  | resume rest hps =>
    refine ⟨fun hp => hwaits _ hp, ?_, hexplains⟩
    intro depth p hp
    rcases List.mem_append.mp hp with hp | hp
    · exact covers_of_tasks (hw.waits (hps ▸ List.mem_cons_self)) hp
    · exact hcovers hp
  | refer => exact ⟨hw.waits, hcovers, hexplains⟩

theorem Steps.traced (h : Steps root o w w') (hw : w.Traced root o) : w'.Traced root o := by
  induction h with
  | refl => exact hw
  | tail _ hstep ih => exact hstep.traced ih

/-- At the start nothing waits, nothing is to be filled and no entity bears an id. -/
theorem Work.start_traced (root : Json) (o : Options) (script : List Act) :
    Work.Traced root o ⟨script.map .act, .start root⟩ := by
  constructor
  case waits => exact fun hp => nomatch hp
  case fills => exact fun hp => absurd hp fill_not_mem_map_act
  case built =>
    intro m e d hm hid
    obtain ⟨k, hr⟩ := (State.start_coherent root o).owned hm hid
    cases hr

/-- When the children of the root are worked off, each entity of a declaration shows a node whose script is done. -/
theorem Performs.built {script : List Act} (h : Performs root o script (.start root) t) {m : EntityId} {e : Entity}
    {d : DeclId} (hm : t.arena.get? m = some (some e)) (hid : e.declId? = some d) :
    ∃ (depth : Nat) (p : Waiting), p.Recognized root ∧ p.node.id = d ∧
      t.Ensures root o (fun w => w.Shows depth p.node p.kind e) ∧ ∀ a ∈ p.script o depth, t.Done root a := by
  have htraced := Steps.traced h (Work.start_traced root o script)
  obtain ⟨depth, p, ⟨hp, hdone⟩, hd, hshow⟩ := htraced.built hm hid
  refine ⟨depth, p, hp, hd, hshow, fun a ha => ?_⟩
  rcases hdone a ha with hnone | hdone
  · cases hnone
  · exact hdone

end Build

end EntityGraph

import EntityGraph.Proofs.Ledger

/-!
# What a resolution reaches

From the script of the root on, the declarations that scripts ask for make up the least set that contains the targets of
the root's script and, with each node that is recognized, the targets of its script (`DeclId.ReachedIn`). This set does
not depend on the order in which things are done. Where ids are distinct and nothing is cut off, it is what a resolution
settles (`Graph.reachedIn_iff`): a run asks only for what is reached (`Build.Step.sound`), and in the end the scripts of
all that is settled are done (`Build.Performs.built`).
-/

namespace EntityGraph

open Build (Act State Task Work Does Step Steps Performs tasks)

/-- A declaration is asked for by the script of the root, or by the script of a node that is reached and recognized. -/
inductive DeclId.ReachedIn (root : Json) (o : Options) : DeclId → Prop
  | top {a : Act} {d : DeclId} : a ∈ root.script o → a.target? = some d → d.CarriedIn root → ReachedIn root o d
  | inner {n : Node} {kind : DeclKind} {a : Act} {d : DeclId} : ReachedIn root o n.id → n.StandsIn root →
      n.entityKind? .reference = some kind → a ∈ n.script o 0 kind .reference → a.target? = some d →
      d.CarriedIn root → ReachedIn root o d

variable {root : Json} {o : Options} {d : DeclId}

/-- What is asked for does not depend on depths and places, unless something is cut off. -/
theorem Waiting.Recognized.map_target? {p : Waiting} (hp : p.Recognized root) {depth : Nat}
    (hcut : ∀ a ∈ p.script o depth, ¬ a.Cuts) {kind : DeclKind} (hk : p.node.entityKind? .reference = some kind) :
    (p.script o depth).map Act.target? = (p.node.script o 0 kind .reference).map Act.target? := by
  have hplain : (fun a : Act => a.plain.target?) = Act.target? := funext Act.target?_plain
  have hscript := congrArg (List.map Act.target?) (Node.map_plain_script hp.2 hk (Nat.zero_le depth) hcut)
  rwa [List.map_map, List.map_map, Function.comp_def, hplain] at hscript

/-- What the script of a reached declaration asks for is reached. -/
theorem DeclId.ReachedIn.of_script {p : Waiting} (h : p.node.id.ReachedIn root o) (hp : p.Recognized root) {depth : Nat}
    (hcut : ∀ a ∈ p.script o depth, ¬ a.Cuts) {a : Act} (ha : a ∈ p.script o depth) (hd : a.target? = some d)
    (hcarried : d.CarriedIn root) : d.ReachedIn root o := by
  obtain ⟨kind, hk⟩ := hp.exists_kind
  have htarget : a.target? ∈ (p.node.script o 0 kind .reference).map Act.target? :=
    hp.map_target? hcut hk ▸ List.mem_map_of_mem ha
  obtain ⟨b, hb, heq⟩ := List.mem_map.mp htarget
  exact .inner h hp.1 hk hb (heq.trans hd) hcarried

/-! ## What is settled is reached -/

namespace Build

variable {s t : State} {w w' : Work} {a : Act} {more : List Task}

/-- All that is settled, asked for or waits is reached. -/
structure Work.Sound (root : Json) (o : Options) (w : Work) : Prop where
  settled {d : DeclId} {r : Resolution} : w.state.resolutions.lookup? d = some r → d.ReachedIn root o
  asked {a : Act} {d : DeclId} : .act a ∈ w.agenda → a.target? = some d → d.CarriedIn root → d.ReachedIn root o
  waits {p : Waiting} : p ∈ w.state.waiting → p.Recognized root ∧ p.node.id.ReachedIn root o

/-- An act settles nothing but what it asks for. -/
theorem Does.settles (h : Does root o a s more t) {r : Resolution} (hr : t.resolutions.lookup? d = some r) :
    s.resolutions.lookup? d = some r ∨ (a.target? = some d ∧ d.CarriedIn root) := by
  have insert {n : Node} {r' : Resolution} (hn : n.StandsIn root) (ha : a.target? = some n.id)
      (hr : (s.resolutions.insert n.id r').lookup? d = some r) :
      s.resolutions.lookup? d = some r ∨ (a.target? = some d ∧ d.CarriedIn root) := by
    rw [Resolutions.lookup?_insert] at hr
    split at hr
    · next heq => exact .inr ⟨heq ▸ ha, n, hn, heq.symm⟩
    · exact .inl hr
  cases h with
  | pin hn ha => exact insert hn ha.target? hr
  | enter hn hv => exact insert hn (by rw [Act.target?, hv, Option.map_some]) hr
  | wait hn => exact insert hn rfl hr
  | _ => exact .inl hr

theorem reachedIn_of_tasks {p : Waiting} {depth : Nat} (hp : p.Recognized root) (h : p.node.id.ReachedIn root o)
    (hcut : ∀ a, .act a ∈ tasks o depth p → ¬ a.Cuts) (ha : .act a ∈ tasks o depth p) (hd : a.target? = some d)
    (hcarried : d.CarriedIn root) : d.ReachedIn root o :=
  h.of_script hp (not_cuts_of_tasks hcut) (mem_script_of_mem_tasks ha) hd hcarried

theorem Step.sound (h : Step root o w w') (hw : w.Sound root o) (hcut : ∀ a, .act a ∈ w'.agenda → ¬ a.Cuts) :
    w'.Sound root o := by
  cases h with
  | act rest h =>
    constructor
    case settled =>
      intro d r hr
      rcases h.settles hr with hr | ⟨ha, hd⟩
      · exact hw.settled hr
      · exact hw.asked List.mem_cons_self ha hd
    case asked =>
      intro b d hb hd hcarried
      rcases List.mem_append.mp hb with hb | hb
      · obtain ⟨depth, p, rfl, hp, ha⟩ := h.enters hb
        have hreached := hw.asked List.mem_cons_self ha.target? ⟨p.node, hp.1, rfl⟩
        exact reachedIn_of_tasks hp hreached (fun c hc => hcut c (List.mem_append_left _ hc)) hb hd hcarried
      · exact hw.asked (List.mem_cons_of_mem _ hb) hd hcarried
    case waits =>
      intro p hp
      rcases h.waiting hp with hp | ⟨hp, ha, _⟩
      · exact hw.waits hp
      · exact ⟨hp, hw.asked List.mem_cons_self ha.target? ⟨p.node, hp.1, rfl⟩⟩
  | fill => exact ⟨hw.settled, fun hb => hw.asked (List.mem_cons_of_mem _ hb), hw.waits⟩
  | resume rest hps =>
    refine ⟨hw.settled, ?_, fun hp => hw.waits (hps ▸ List.mem_cons_of_mem _ hp)⟩
    intro b d hb hd hcarried
    rcases List.mem_append.mp hb with hb | hb
    · obtain ⟨hp, hreached⟩ := hw.waits (hps ▸ List.mem_cons_self)
      exact reachedIn_of_tasks hp hreached (fun c hc => hcut c (List.mem_append_left _ hc)) hb hd hcarried
    · exact hw.asked hb hd hcarried
  | refer => exact ⟨hw.settled, hw.asked, hw.waits⟩

theorem Steps.sound (h : Steps root o w w') (hw : w.Sound root o) (hcut : ∀ a : Act, a.Cuts → ¬ w'.Handles root a) :
    w'.Sound root o := by
  induction h using Relation.ReflTransGen.head_induction_on with
  | refl => exact hw
  | head hstep hsteps ih =>
    exact ih (hstep.sound hw fun a ha hcuts => hcut a hcuts (Steps.handles hsteps (.inl ha)))

/-- What is asked for by an act that is done is settled. -/
theorem State.Done.settled (h : s.Done root a) (ha : a.target? = some d) (hd : d.CarriedIn root) :
    ∃ r, s.resolutions.lookup? d = some r := by
  cases a with
  | report | store => cases ha
  | follow d' =>
    obtain rfl : d' = d := Option.some.inj ha
    exact h hd
  | declare depth position v =>
    obtain ⟨n, hn, rfl⟩ := Option.map_eq_some_iff.mp ha
    rcases h with ⟨n', r, hn', hr⟩ | ⟨hnone, _⟩
    · rw [hn] at hn'
      cases hn'
      exact ⟨r, hr⟩
    · rw [hn] at hnone
      cases hnone

end Build

/-! ## What is reached is settled -/

namespace Graph

variable {g : Graph} {t : State}

theorem EndsIn.settled_of_reachedIn (ht : g.EndsIn root o t) (hrun : Performs root o (root.script o) (.start root) t)
    (hdistinct : root.IdsDistinct) (hcut : g.Uncut) (h : d.ReachedIn root o) :
    ∃ r, t.resolutions.lookup? d = some r := by
  induction h with
  | top ha hd hcarried => exact (hrun.done ha).settled hd hcarried
  | @inner n kind a d _ hn hk ha hd hcarried ih =>
    obtain ⟨r, hr⟩ := ih
    -- The node is recognized, so the id has an entity, which shows this node.
    rcases ht.settled hr with ⟨_, m, position, hm, hid, hnone, _⟩ | ⟨e, he, hid⟩
    · rw [hm.eq_of_id hn hdistinct hid, Node.entityKind?_eq_none_iff position .reference, hk] at hnone
      cases hnone
    · obtain ⟨depth, p, hp, hpid, _, hdone⟩ := ht.built hrun he hid
      have hnode : p.node = n := hp.1.eq_of_id hn hdistinct hpid
      have hcuts : ∀ b ∈ p.script o depth, ¬ b.Cuts :=
        fun b hb hcuts => ht.not_handles hcut hcuts (.inr (hdone b hb))
      have hmap := hp.map_target? hcuts (hnode ▸ hk)
      rw [hnode] at hmap
      have htarget : a.target? ∈ (p.script o depth).map Act.target? := hmap ▸ List.mem_map_of_mem ha
      obtain ⟨b, hb, heq⟩ := List.mem_map.mp htarget
      exact (hdone b hb).settled (heq.trans hd) hcarried

/-- Where ids are distinct and nothing is cut off, the declarations of a graph are those that are reached. -/
theorem reachedIn_iff (h : ofJson root o = .ok g) (hdistinct : root.IdsDistinct) (hcut : g.Uncut) (d : DeclId) :
    (∃ m, g.entityOf? d = some m) ↔ d.ReachedIn root o := by
  obtain ⟨t, ht, _, hrun⟩ := exists_run h
  have hsettled : (∃ m, g.entityOf? d = some m) ↔ ∃ r, t.resolutions.lookup? d = some r := by
    rw [ht.entityOf?]
    simp
  rw [hsettled]
  refine ⟨fun ⟨r, hr⟩ => ?_, ht.settled_of_reachedIn hrun hdistinct hcut⟩
  have hstart : Work.Sound root o ⟨(root.script o).map .act, .start root⟩ := by
    constructor
    case settled => exact fun hr => nomatch hr
    case asked => exact fun ha hd hcarried => .top (Build.mem_of_mem_map_act ha) hd hcarried
    case waits => exact fun hp => nomatch hp
  exact (Steps.sound hrun hstart fun a ha => ht.not_handles hcut ha).settled hr

end Graph

end EntityGraph

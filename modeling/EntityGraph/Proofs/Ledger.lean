import Mathlib.Algebra.BigOperators.Group.List.Basic
import Mathlib.Algebra.GroupWithZero.Nat
import EntityGraph.Proofs.Plays

/-!
# What a resolution costs

Put a price on every finding and on every entity (`Prices`). Where the ids of a document are distinct, no declaration is
entered twice, so what a resolution pays is the price of the script of the root and, once for every declaration that is
settled, the price of settling it, in whatever order things are done (`Graph.paid_eq`). With the right prices this
counts the entities of the graph, or how often a given finding was made.

The price of a script does not depend on depths and places (`Prices.script_plain`), but a script that is cut off is
worth less. So the balance holds only as long as nothing is cut off (`Build.Step.balance`).
-/

namespace EntityGraph

open Build (Act State Task Work Does Step Steps Performs tasks)

/-- What a finding and an entity cost. -/
structure Prices where
  finding : Diagnostic → Nat
  entity : Nat

namespace Prices

variable (π : Prices) (root : Json) (o : Options)

/-- The price of an act, apart from what it settles. -/
def act : Act → Nat
  | .report x => π.finding x
  | .store => π.entity
  | .follow d => if ((Index.ofJson root).index.lookup? d).isSome then 0 else π.finding (.danglingReference d)
  | .declare _ _ v =>
    if (Node.ofJson? v).isSome then 0 else π.finding (.unrecognizedDeclaration none (v.stringAt? "kindString"))

/-- The price of a script. -/
def script (as : List Act) : Nat := (as.map (π.act root)).sum

/-- The price of settling a node: a finding if it is not recognized, or else its entity and its script. -/
def node (n : Node) : Nat :=
  match n.entityKind? .reference with
  | none => π.finding (.unrecognizedDeclaration (some n.id) (some n.kindString))
  | some kind => π.entity + π.script root (n.script o 0 kind .reference)

/-- The price of settling an id. -/
def settling (d : DeclId) : Nat := (((Index.ofJson root).index.lookup? d).map (π.node root o)).getD 0

/-- What findings cost. -/
def findings (xs : Array Diagnostic) : Nat := (xs.toList.map π.finding).sum

/-- What the slots of an arena cost. -/
def slots (a : Arena) : Nat := π.entity * a.slots.size

/-- The price of declarations that wait. -/
def waiting (ps : List Waiting) : Nat := (ps.map fun p => π.script root (p.script o 0)).sum

/-- The price of a task. -/
def task : Task → Nat
  | .act a => π.act root a
  | .fill _ _ => 0

/-- The price of an agenda. -/
def agenda (ts : List Task) : Nat := (ts.map (π.task root)).sum

/-- The price of all that is settled. -/
def settled (r : Resolutions) : Nat := ((r.entries.map (·.1)).map (π.settling root o)).sum

/-- What has been paid, and what is still to be paid for what is on the agenda or waits. -/
def bill (w : Work) : Nat :=
  π.findings w.state.diagnostics + π.slots w.state.arena + π.waiting root o w.state.waiting + π.agenda root w.agenda

variable {root : Json} {o : Options}

theorem act_plain (a : Act) : π.act root a.plain = π.act root a := by cases a <;> rfl

/-- The price of a script does not depend on depths and places. -/
theorem script_plain (as : List Act) : π.script root (as.map Act.plain) = π.script root as := by
  rw [script, List.map_map]
  congr 1
  exact List.map_congr_left fun a _ => π.act_plain a

theorem findings_push (xs : Array Diagnostic) (x : Diagnostic) :
    π.findings (xs.push x) = π.findings xs + π.finding x := by
  rw [findings, Array.toList_push, List.map_append, List.sum_append, List.map_singleton, List.sum_singleton]
  rfl

theorem slots_alloc (a : Arena) (e : Entity) : π.slots (a.alloc e).2 = π.slots a + π.entity := by
  simp only [slots, Arena.alloc, Array.size_push, Nat.mul_succ]

theorem slots_reserve (a : Arena) : π.slots a.reserve.2 = π.slots a + π.entity := by
  simp only [slots, Arena.reserve, Array.size_push, Nat.mul_succ]

theorem slots_fill {a b : Arena} {slot : EntityId} {e : Entity} (h : a.fill slot e = .ok b) :
    π.slots b = π.slots a := by
  obtain ⟨_, rfl⟩ := Arena.fill_eq_ok_iff.mp h
  simp only [slots, Array.size_setIfInBounds]

theorem waiting_cons (p : Waiting) (ps : List Waiting) :
    π.waiting root o (p :: ps) = π.script root (p.script o 0) + π.waiting root o ps := by
  rw [waiting, List.map_cons, List.sum_cons]
  rfl

theorem settled_insert (r : Resolutions) (d : DeclId) (found : Resolution) :
    π.settled root o (r.insert d found) = π.settling root o d + π.settled root o r := by
  rw [settled, Resolutions.insert, List.map_cons, List.map_cons, List.sum_cons]
  rfl

theorem agenda_append (ts us : List Task) : π.agenda root (ts ++ us) = π.agenda root ts + π.agenda root us := by
  rw [agenda, List.map_append, List.sum_append]
  rfl

theorem agenda_cons (x : Task) (ts : List Task) : π.agenda root (x :: ts) = π.task root x + π.agenda root ts := by
  rw [agenda, List.map_cons, List.sum_cons]
  rfl

theorem agenda_map_act (as : List Act) : π.agenda root (as.map .act) = π.script root as := by
  rw [agenda, List.map_map]
  rfl

theorem agenda_tasks (depth : Nat) (p : Waiting) :
    π.agenda root (tasks o depth p) = π.script root (p.script o depth) := by
  rw [tasks, agenda_append, agenda_map_act]
  rfl

theorem act_of_carriedIn {d : DeclId} (h : d.CarriedIn root) : π.act root (.follow d) = 0 := by
  rw [act, if_pos (Index.isSome_lookup?_iff.mpr h)]

theorem act_of_not_carriedIn {d : DeclId} (h : ¬ d.CarriedIn root) :
    π.act root (.follow d) = π.finding (.danglingReference d) := by
  rw [act, if_neg]
  exact fun hd => h (Index.isSome_lookup?_iff.mp hd)

/-- An act that asks for a declaration of the document costs nothing apart from what it settles. -/
theorem act_of_target? {a : Act} {d : DeclId} (ha : a.target? = some d) (hd : d.CarriedIn root) : π.act root a = 0 := by
  cases a with
  | report | store => cases ha
  | follow d' =>
    obtain rfl : d' = d := Option.some.inj ha
    exact π.act_of_carriedIn hd
  | declare depth position v =>
    obtain ⟨n, hn, _⟩ := Option.map_eq_some_iff.mp ha
    rw [act, hn]
    rfl

theorem settling_of_standsIn (hdistinct : root.IdsDistinct) {n : Node} (hn : n.StandsIn root) :
    π.settling root o n.id = π.node root o n := by
  rw [settling, Index.lookup?_of_standsIn hdistinct hn]
  rfl

/-- A declaration that was recognized costs its entity and its script, wherever it was reached, unless the script is
cut. -/
theorem node_of_recognized {p : Waiting} (hp : p.Recognized root) {depth : Nat}
    (hcut : ∀ a ∈ p.script o depth, ¬ a.Cuts) :
    π.node root o p.node = π.entity + π.script root (p.script o depth) := by
  obtain ⟨kind, hkind⟩ := hp.exists_kind
  have hplain := Node.map_plain_script hp.2 hkind (Nat.zero_le depth) hcut
  rw [node, hkind, ← π.script_plain (p.script o depth), Waiting.script, hplain, π.script_plain]

end Prices

/-! ## The balance of a step -/

namespace Build

variable {root : Json} {o : Options} {s t : State} {w w' : Work} {a : Act} {more : List Task} (π : Prices)

theorem not_cuts_of_tasks {depth : Nat} {p : Waiting} (hcut : ∀ a, .act a ∈ tasks o depth p → ¬ a.Cuts) :
    ∀ a ∈ p.script o depth, ¬ a.Cuts :=
  fun a ha => hcut a (List.mem_append_left _ (List.mem_map_of_mem ha))

/-- An act is paid for by its own price and the price of what it settles. -/
theorem Does.balance (hdistinct : root.IdsDistinct) (h : Does root o a s more t)
    (hcut : ∀ a, .act a ∈ more → ¬ a.Cuts) :
    π.bill root o ⟨more, t⟩ + π.settled root o s.resolutions =
      π.bill root o ⟨[], s⟩ + π.act root a + π.settled root o t.resolutions := by
  have hnil : π.agenda root [] = 0 := rfl
  cases h with
  | report _ x =>
    have hact : π.act root (.report x) = π.finding x := rfl
    simp only [Prices.bill, π.findings_push]
    omega
  | store =>
    have hact : π.act root .store = π.entity := rfl
    simp only [Prices.bill, π.slots_alloc]
    omega
  | @unreadable _ depth position v hv =>
    have hact : π.act root (.declare depth position v) =
        π.finding (.unrecognizedDeclaration none (v.stringAt? "kindString")) := by
      rw [Prices.act, hv]
      rfl
    simp only [Prices.bill, π.findings_push]
    omega
  | missing _ hd =>
    have hact := π.act_of_not_carriedIn hd
    simp only [Prices.bill, π.findings_push]
    omega
  | known hd ha =>
    have hact := π.act_of_target? ha hd
    simp only [Prices.bill]
    omega
  | @pin _ _ n position hn ha _ hk =>
    have hact := π.act_of_target? ha.target? ⟨n, hn, rfl⟩
    have hsettling : π.settling root o n.id =
        π.finding (.unrecognizedDeclaration (some n.id) (some n.kindString)) := by
      rw [π.settling_of_standsIn hdistinct hn, Prices.node, (Node.entityKind?_eq_none_iff _ .reference).mp hk]
    simp only [Prices.bill, π.findings_push, π.settled_insert]
    omega
  | @enter _ depth position v n kind hn hv _ hk =>
    have hact : π.act root (.declare depth position v) = 0 := by
      rw [Prices.act, hv]
      rfl
    have hsettling := π.settling_of_standsIn (o := o) hdistinct hn
    have hnode := π.node_of_recognized (p := ⟨n, kind, position, s.arena.nextId⟩) ⟨hn, hk⟩ (not_cuts_of_tasks hcut)
    simp only [Prices.bill, π.slots_reserve, π.settled_insert, π.agenda_tasks]
    simp only at hnode
    omega
  | @wait _ n kind hn _ _ hk =>
    have hact := π.act_of_carriedIn ⟨n, hn, rfl⟩
    have hsettling : π.settling root o n.id = π.entity + π.script root (n.script o 0 kind .reference) := by
      rw [π.settling_of_standsIn hdistinct hn, Prices.node, hk]
    simp only [Prices.bill, π.slots_reserve, π.settled_insert, π.waiting_cons, Waiting.script]
    omega

/-- A step leaves the bill as it is, apart from the price of what it settles. -/
theorem Step.balance (hdistinct : root.IdsDistinct) (h : Step root o w w') (hcut : ∀ a, .act a ∈ w'.agenda → ¬ a.Cuts) :
    π.bill root o w' + π.settled root o w.state.resolutions =
      π.bill root o w + π.settled root o w'.state.resolutions := by
  cases h with
  | @act a s t more rest h =>
    have hbalance := h.balance π hdistinct fun a ha => hcut a (List.mem_append_left _ ha)
    have hnil : π.agenda root [] = 0 := rfl
    have htask : π.task root (.act a) = π.act root a := rfl
    simp only [Prices.bill, π.agenda_append, π.agenda_cons] at hbalance ⊢
    omega
  | @fill s depth p e b rest _ hb =>
    have htask : π.task root (.fill depth p) = 0 := rfl
    have hslots := π.slots_fill hb
    simp only [Prices.bill, π.agenda_cons]
    omega
  | @resume s p ps rest hps =>
    simp only [Prices.bill, π.agenda_append, π.agenda_tasks, hps, π.waiting_cons]
    omega
  | refer => rfl

/-- What a run pays is the price of what it settles, if nothing is cut off. -/
theorem Steps.balance (hdistinct : root.IdsDistinct) (h : Steps root o w w')
    (hcut : ∀ a : Act, a.Cuts → ¬ w'.Handles root a) :
    π.bill root o w' + π.settled root o w.state.resolutions =
      π.bill root o w + π.settled root o w'.state.resolutions := by
  induction h using Relation.ReflTransGen.head_induction_on with
  | refl => rfl
  | head hstep hsteps ih =>
    -- What is cut off on the way is reported in the end.
    have hbalance := hstep.balance π hdistinct fun a ha hcuts => hcut a hcuts (Steps.handles hsteps (.inl ha))
    omega

end Build

namespace Graph

open Build

variable {root : Json} {o : Options} {g : Graph} {t : State}

/-! ## The balance of a document -/

/-- Where nothing is cut off in the end, nothing was ever cut off. -/
theorem EndsIn.not_handles (ht : g.EndsIn root o t) (hcut : g.Uncut) {a : Act} (ha : a.Cuts) :
    ¬ Work.Handles root ⟨[], t⟩ a := by
  obtain ⟨depth, rfl⟩ := ha
  rintro (hnone | hdone)
  · cases hnone
  · exact hcut depth (ht.mem_diagnostics hdone)

/-- The findings and the entities of a graph cost what its root and each of its declarations cost, if nothing was cut
off. -/
theorem paid_eq (h : ofJson root o = .ok g) (hdistinct : root.IdsDistinct) (hcut : g.Uncut) (π : Prices) :
    (g.diagnostics.map π.finding).sum + π.entity * g.size =
      π.entity * Builtin.entities.length + π.script root (root.script o) +
        ((g.declarations.map (·.1)).map (π.settling root o)).sum := by
  obtain ⟨t, ht, hwaiting, hrun⟩ := exists_run h
  have hbalance := Steps.balance π hdistinct hrun fun a ha => ht.not_handles hcut ha
  have hstart : π.bill root o ⟨(root.script o).map .act, .start root⟩ =
      π.entity * Builtin.entities.length + π.script root (root.script o) := by
    simp only [Prices.bill, State.start, Index.found_eq hdistinct, π.agenda_map_act]
    show 0 + π.entity * Builtin.entities.length + 0 + _ = _
    omega
  have hend : π.bill root o ⟨[], t⟩ = (g.diagnostics.map π.finding).sum + π.entity * g.size := by
    simp only [Prices.bill, hwaiting, ht.diagnostics, ht.size_eq]
    rfl
  have hsettled : π.settled root o t.resolutions = ((g.declarations.map (·.1)).map (π.settling root o)).sum := by
    rw [ht.map_declarations]
    exact ((List.reverse_perm _).map _).sum_eq.symm
  have hnone : π.settled root o (State.start root).resolutions = 0 := rfl
  rw [hstart, hend, hsettled, hnone] at hbalance
  exact hbalance

end Graph

end EntityGraph

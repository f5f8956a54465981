import EntityGraph.Proofs.Accounts
import EntityGraph.Proofs.Indexing
import EntityGraph.Proofs.Partition
import EntityGraph.Proofs.Places
import EntityGraph.Proofs.Reached

/-!
# Which of several nodes is used

When several nodes of a document carry the same id, the index holds the first of them in the order of the document
(`Json.firstNode?`). What is built is another matter: the first act of a resolution that asks for the id decides, and it
asks for the node of the index only if it follows a reference; in place it asks for the node that stands there
(`Build.Act.Names`).

`Build.Firsts` tells a run with the acts that settle something, in order. Whatever a run holds for an id, on the stack
of those that wait, on the agenda or in the arena, comes from the node that the first act asked for
(`Build.Work.Sourced`, `Build.Firsts.logged`). So a graph uses, for each of its declarations, the node that was asked
for first (`Graph.usesFirstAsked_of_ofJson`), and this is the first of the document wherever no other was asked for.
-/

namespace EntityGraph

open Build (Act State Task Work Does Step Steps Performs tasks)

/-- The first node of a document, in its order, that carries an id. -/
def Json.firstNode? (root : Json) (d : DeclId) : Option Node := root.nodes.find? fun n => n.id = d

namespace Build

variable {root : Json} {o : Options} {s t : State} {w w' : Work} {a : Act} {more rest : List Task} {d : DeclId}
  {log : List Act}

/-- From `w` to `w'`, the acts `log` settled what they asked for, one after the other; nothing else was settled. -/
inductive Firsts (root : Json) (o : Options) (w : Work) : List Act → Work → Prop
  | refl : Firsts root o w [] w
  | first {log : List Act} {a : Act} {s t : State} {more rest : List Task} : Firsts root o w log ⟨.act a :: rest, s⟩ →
      Does root o a s more t → t.resolutions ≠ s.resolutions → Firsts root o w (log ++ [a]) ⟨more ++ rest, t⟩
  | other {log : List Act} {w' w'' : Work} : Firsts root o w log w' → Step root o w' w'' →
      w''.state.resolutions = w'.state.resolutions → Firsts root o w log w''

/-- Every run settles something by some acts. -/
theorem Steps.exists_firsts (h : Steps root o w w') : ∃ log, Firsts root o w log w' := by
  induction h with
  | refl => exact ⟨[], .refl⟩
  | @tail v v' _ hstep ih =>
    obtain ⟨log, hlog⟩ := ih
    by_cases hsame : v'.state.resolutions = v.state.resolutions
    · exact ⟨log, hlog.other hstep hsame⟩
    · cases hstep with
      | @act a _ _ _ _ h => exact ⟨log ++ [a], hlog.first h hsame⟩
      | fill | resume | refer => exact absurd rfl hsame

/-! ## One act -/

/-- An act that settles something settles one id that was open, for the node that it asks for. -/
theorem Does.settling (h : Does root o a s more t) (hnew : t.resolutions ≠ s.resolutions) :
    ∃ (n : Node) (r : Resolution), n.StandsIn root ∧ a.Names root n ∧ s.resolutions.lookup? n.id = none ∧
      t.resolutions = s.resolutions.insert n.id r ∧
        (r.kind = none → ∃ position, n.entityKind? position = none) := by
  cases h with
  | report | store | unreadable | missing | known => exact absurd rfl hnew
  | pin hn ha hopen hk => exact ⟨_, _, hn, ha, hopen, rfl, fun _ => ⟨_, hk⟩⟩
  | enter hn hv hopen => exact ⟨_, _, hn, hv, hopen, rfl, nofun⟩
  | wait hn ha hopen => exact ⟨_, _, hn, ha, hopen, rfl, nofun⟩

/-- What an act enters is settled by it. -/
theorem Does.settled_of_enters (h : Does root o a s more t) {p : Waiting} (hp : a.Enters root s p) :
    t.resolutions ≠ s.resolutions := by
  intro hsame
  obtain ⟨r, hr⟩ := h.done.settled hp.names.target? ⟨p.node, hp.recognized.1, rfl⟩
  rw [hsame, hp.isOpen] at hr
  cases hr

/-! ## Where things come from -/

/-- What is held for the id `d` comes from nodes of which `N` holds. -/
structure Work.Sourced (root : Json) (o : Options) (d : DeclId) (N : Node → Prop) (w : Work) : Prop where
  waits {p : Waiting} : p ∈ w.state.waiting → p.node.id = d → N p.node ∧ p.Recognized root
  fills {depth : Nat} {p : Waiting} : .fill depth p ∈ w.agenda → p.node.id = d → N p.node ∧ p.Recognized root
  built {m : EntityId} {e : Entity} : w.state.arena.get? m = some (some e) → e.declId? = some d →
    ∃ (depth : Nat) (p : Waiting), N p.node ∧ p.Recognized root ∧
      w.state.Ensures root o fun w => w.Shows depth p.node p.kind e

variable {N : Node → Prop}

/-- An act adds nothing for `d` but what it enters. -/
theorem Does.sourced (h : Does root o a s more t) (hw : Work.Sourced root o d N ⟨.act a :: rest, s⟩)
    (hnew : ∀ p : Waiting, a.Enters root s p → p.node.id = d → N p.node) :
    Work.Sourced root o d N ⟨more ++ rest, t⟩ := by
  constructor
  case waits =>
    intro p hp hd
    rcases h.waiting hp with hp | hp
    · exact hw.waits hp hd
    · exact ⟨hnew p hp hd, hp.recognized⟩
  case fills =>
    intro depth p hp hd
    rcases List.mem_append.mp hp with hp | hp
    · obtain ⟨_, p', rfl, hp'⟩ := h.enters hp
      obtain ⟨rfl, rfl⟩ := eq_of_fill_mem_tasks hp
      exact ⟨hnew p hp' hd, hp'.recognized⟩
    · exact hw.fills (List.mem_cons_of_mem _ hp) hd
  case built =>
    intro m e hm hid
    obtain ⟨depth, p, hp, hrecognized, hshow⟩ := hw.built (h.entity hm hid) hid
    exact ⟨depth, p, hp, hrecognized, hshow.grow h.grows⟩

/-- A step that settles nothing adds nothing. -/
theorem Step.sourced (h : Step root o w w') (hsame : w'.state.resolutions = w.state.resolutions)
    (hw : w.Sourced root o d N) : w'.Sourced root o d N := by
  have hbuilt {m : EntityId} {e : Entity} (hm : w.state.arena.get? m = some (some e)) (hid : e.declId? = some d) :
      ∃ (depth : Nat) (p : Waiting), N p.node ∧ p.Recognized root ∧
        w'.state.Ensures root o fun w => w.Shows depth p.node p.kind e := by
    obtain ⟨depth, p, hp, hrecognized, hshow⟩ := hw.built hm hid
    exact ⟨depth, p, hp, hrecognized, hshow.grow h.grows⟩
  cases h with
  | act rest h => exact h.sourced hw fun p hp => absurd hsame (h.settled_of_enters hp)
  | fill rest hshow hb =>
    refine ⟨hw.waits, fun hp => hw.fills (List.mem_cons_of_mem _ hp), ?_⟩
    intro m e hm hid
    rw [Arena.get?_of_fill hb] at hm
    split at hm
    · cases hm
      have hd := hshow.now.stamp.1
      rw [hid] at hd
      obtain ⟨hp, hrecognized⟩ := hw.fills List.mem_cons_self (Option.some.inj hd).symm
      exact ⟨_, _, hp, hrecognized, hshow.grow (State.grows_fill hb)⟩
    · exact hbuilt hm hid
  | resume rest hps =>
    refine ⟨fun hp => hw.waits (hps ▸ List.mem_cons_of_mem _ hp), ?_, hbuilt⟩
    intro depth p hp hd
    rcases List.mem_append.mp hp with hp | hp
    · obtain ⟨rfl, rfl⟩ := eq_of_fill_mem_tasks hp
      exact hw.waits (hps ▸ List.mem_cons_self) hd
    · exact hw.fills hp hd
  | refer => exact ⟨hw.waits, hw.fills, hbuilt⟩

/-! ## Runs -/

/-- All that is held for a settled id comes from the node that the act `a` asks for. It is pinned to the unknown type
only if this node is not recognized. -/
def Work.Owes (root : Json) (o : Options) (w : Work) (p : DeclId × Resolution) (a : Act) : Prop :=
  w.state.resolutions.lookup? p.1 = some p.2 ∧ ∃ n : Node, n.StandsIn root ∧ n.id = p.1 ∧ a.Names root n ∧
    w.Sourced root o p.1 (· = n) ∧ (p.2.kind = none → ∃ position, n.entityKind? position = none)

/-- What is settled is owed to the acts of the log, in order, and nothing is held for ids that are open. -/
structure Work.Logged (root : Json) (o : Options) (w : Work) (log : List Act) : Prop where
  settled : List.Forall₂ (w.Owes root o) w.state.resolutions.entries.reverse log
  vacant {d : DeclId} : w.state.resolutions.lookup? d = none → w.Sourced root o d fun _ => False

theorem Work.Sourced.mono {N' : Node → Prop} (h : w.Sourced root o d N) (hN : ∀ n, N n → N' n) :
    w.Sourced root o d N' where
  waits hp hd := ⟨hN _ (h.waits hp hd).1, (h.waits hp hd).2⟩
  fills hp hd := ⟨hN _ (h.fills hp hd).1, (h.fills hp hd).2⟩
  built hm hid := by
    obtain ⟨depth, p, hp, hrest⟩ := h.built hm hid
    exact ⟨depth, p, hN _ hp, hrest⟩

theorem Step.logged (h : Step root o w w') (hsame : w'.state.resolutions = w.state.resolutions)
    (hw : w.Logged root o log) : w'.Logged root o log := by
  constructor
  case settled =>
    rw [hsame]
    refine hw.settled.imp ?_
    rintro p a ⟨hr, n, hn, hid, ha, hsource, hpin⟩
    exact ⟨hsame ▸ hr, n, hn, hid, ha, h.sourced hsame hsource, hpin⟩
  case vacant => exact fun hopen => h.sourced hsame (hw.vacant (hsame ▸ hopen))

theorem Does.logged (h : Does root o a s more t) (hnew : t.resolutions ≠ s.resolutions)
    (hw : Work.Logged root o ⟨.act a :: rest, s⟩ log) : Work.Logged root o ⟨more ++ rest, t⟩ (log ++ [a]) := by
  obtain ⟨n, r, hn, ha, hopen, hinsert, hpin⟩ := h.settling hnew
  have hnode {p : Waiting} (hp : a.Enters root s p) : p.node = n := hp.names.eq ha
  constructor
  case settled =>
    have hentries : t.resolutions.entries.reverse = s.resolutions.entries.reverse ++ [(n.id, r)] := by
      rw [hinsert, Resolutions.insert, List.reverse_cons]
    show List.Forall₂ _ t.resolutions.entries.reverse _
    rw [hentries]
    refine List.rel_append (hw.settled.imp ?_) (.cons ?_ .nil)
    · rintro ⟨d, r'⟩ b ⟨hr, m, hm, hid, hb, hsource, hpin⟩
      refine ⟨h.grows.settled hr, m, hm, hid, hb, h.sourced hsource fun p hp hd => ?_, hpin⟩
      -- What is entered is open, but `d` is settled.
      have hopen' := hp.isOpen
      rw [hd, hr] at hopen'
      cases hopen'
    · have hsource : Work.Sourced root o n.id (· = n) ⟨more ++ rest, t⟩ :=
        h.sourced ((hw.vacant hopen).mono fun _ => False.elim) fun p hp _ => hnode hp
      refine ⟨?_, n, hn, rfl, ha, hsource, hpin⟩
      show t.resolutions.lookup? n.id = some r
      rw [hinsert]
      exact Resolutions.lookup?_insert_self ..
  case vacant =>
    intro d hd
    replace hd : t.resolutions.lookup? d = none := hd
    rw [hinsert, Resolutions.lookup?_insert] at hd
    split at hd
    · cases hd
    · next hne =>
      refine h.sourced (hw.vacant hd) fun p hp hid => hne ?_
      rw [← hid, hnode hp]

/-- The acts of the log are placed. -/
theorem Firsts.placed (h : Firsts root o w log w') (hw : w.Placed root) :
    EveryAct (Act.Placed root) log ∧ w'.Placed root := by
  induction h with
  | refl => exact ⟨.nil, hw⟩
  | first _ h _ ih => exact ⟨ih.1.append (.singleton (ih.2.agenda List.mem_cons_self)), (Step.act _ h).placed ih.2⟩
  | other _ hstep _ ih => exact ⟨ih.1, hstep.placed ih.2⟩

theorem Firsts.logged (h : Firsts root o w log w') (hw : w.Logged root o []) : w'.Logged root o log := by
  induction h with
  | refl => exact hw
  | first _ h hnew ih => exact h.logged hnew ih
  | other _ hstep hsame ih => exact hstep.logged hsame ih

/-- At the start nothing is settled and nothing is held. -/
theorem Work.start_logged (root : Json) (o : Options) (script : List Act) :
    Work.Logged root o ⟨script.map .act, .start root⟩ [] := by
  refine ⟨.nil, fun {d} _ => ⟨nofun, ?_, ?_⟩⟩
  · exact fun hp => absurd hp fill_not_mem_map_act
  · intro m e hm hid
    obtain ⟨kind, hr⟩ := (State.start_coherent root o).owned hm hid
    cases hr

end Build

namespace Graph

variable {root : Json} {o : Options} {g : Graph} {t : State} {d : DeclId} {log : List Act}

/-- What a graph holds for the id `d` is built from the node `n`. -/
structure Uses (g : Graph) (d : DeclId) (n : Node) : Prop where
  /-- An entity shows the node: it has the name of the node, and its kind is one by which the node is recognized. -/
  built {m : EntityId} : g.entityOf? d = some m → m ≠ Builtin.unknown →
    ∃ (e : Entity) (depth : Nat) (position : Position) (kind : DeclKind), g.get? m = some e ∧
      e.declId? = some d ∧ e.name? = some n.name ∧ e.declKind? = some kind ∧
        n.entityKind? position = some kind ∧ g.view.Shows depth n kind e
  /-- The unknown type stands for a node that is not recognized. -/
  pinned (position : Position) : g.entityOf? d = some Builtin.unknown → n.entityKind? position = none

/-- The acts `log` settled the declarations of `g`, one after the other. -/
def SettledBy (g : Graph) (root : Json) (o : Options) (log : List Act) : Prop :=
  ∃ t, g.EndsIn root o t ∧ Build.Firsts root o ⟨(root.script o).map .act, .start root⟩ log ⟨[], t⟩

theorem EndsIn.uses (ht : g.EndsIn root o t) {r : Resolution} {a : Act}
    (h : Work.Owes root o ⟨[], t⟩ (d, r) a) : ∃ n : Node, n.StandsIn root ∧ n.id = d ∧ a.Names root n ∧ g.Uses d n := by
  obtain ⟨hr, n, hn, hid, ha, hsource, hpin⟩ := h
  replace hr : t.resolutions.lookup? d = some r := hr
  have hentity : g.entityOf? d = some r.entity := by rw [ht.entityOf?, hr, Option.map_some]
  refine ⟨n, hn, hid, ha, ?_, ?_⟩
  · intro m hm hne
    obtain rfl : r.entity = m := Option.some.inj (hentity.symm.trans hm)
    rcases ht.settled hr with ⟨hunknown, _⟩ | ⟨e, he, hde⟩
    · exact absurd hunknown hne
    · obtain ⟨depth, p, rfl, hp, hshow⟩ := hsource.built (ht.get?_eq_some_iff.mp he) hde
      have hshow := ht.ensured hshow
      exact ⟨e, depth, p.position, p.kind, he, hde, hshow.name, hshow.stamp.2, hp.2, hshow⟩
  · intro position hunknown
    have hkind := (ht.kind_eq_none_iff (ht.resolution? hr)).mpr (Option.some.inj (hentity.symm.trans hunknown))
    obtain ⟨q, hq⟩ := hpin hkind
    exact (Node.entityKind?_eq_none_iff q position).mp hq

/-- Of several nodes with one id, a graph uses the one that was asked for first. -/
structure UsesFirstAsked (g : Graph) (root : Json) (log : List Act) : Prop where
  /-- References find the first node of the document. -/
  indexed (d : DeclId) : (Index.ofJson root).index.lookup? d = root.firstNode? d
  /-- Each declaration is built from the node that was asked for by the act that settled it. -/
  inOrder : List.Forall₂ (fun p a => ∃ n : Node, n.StandsIn root ∧ n.id = p.1 ∧ a.Names root n ∧ g.Uses p.1 n)
    g.declarations log
  /-- So this is the first node of the document, unless another one was asked for in place. -/
  first {d : DeclId} {n : Node} : root.firstNode? d = some n →
    (∀ depth position v n', .declare depth position v ∈ log → Node.ofJson? v = some n' → n'.id = d → n' = n) →
      g.Uses d n
  /-- In particular where no other node with this id stands in the place of a declaration. -/
  alone {d : DeclId} {n : Node} : root.firstNode? d = some n →
    (∀ v n', v.PlacedIn root → Node.ofJson? v = some n' → n'.id = d → n' = n) → g.Uses d n

/-- Where all acts of the log that ask for an id ask for the same node, this node is used. -/
theorem EndsIn.uses_of_asked (ht : g.EndsIn root o t)
    (hlog : List.Forall₂ (fun p a => ∃ n : Node, n.StandsIn root ∧ n.id = p.1 ∧ a.Names root n ∧ g.Uses p.1 n)
      g.declarations log) {n : Node} (h : ∀ a ∈ log, a.target? = some d → a.Names root n) : g.Uses d n := by
  by_cases hd : ∃ m, g.entityOf? d = some m
  · obtain ⟨m, hm⟩ := hd
    obtain ⟨a, ha, n', _, rfl, hn', huses⟩ := exists_rel_of_mem hlog.flip (ht.mem_declarations_iff.mpr hm)
    obtain rfl : n' = n := hn'.eq (h a ha hn'.target?)
    exact huses
  · -- What is not declared is not used for anything.
    exact ⟨fun hm => absurd ⟨_, hm⟩ hd, fun _ hm => absurd ⟨_, hm⟩ hd⟩

theorem EndsIn.usesFirstAsked (ht : g.EndsIn root o t)
    (hlog : Build.Firsts root o ⟨(root.script o).map .act, .start root⟩ log ⟨[], t⟩) : g.UsesFirstAsked root log := by
  have hindexed := Index.lookup?_eq_find? root
  have hentries := (hlog.logged (Work.start_logged root o _)).settled
  have hplaced := (hlog.placed (Work.start_placed root o)).1
  have hinOrder : List.Forall₂
      (fun p a => ∃ n : Node, n.StandsIn root ∧ n.id = p.1 ∧ a.Names root n ∧ g.Uses p.1 n) g.declarations log := by
    rw [ht.declarations, Resolutions.entities, ← List.map_reverse, List.forall₂_map_left_iff]
    exact hentries.imp fun _ _ => ht.uses
  have hfirst {d : DeclId} {n : Node} (hn : root.firstNode? d = some n)
      (hplaces : ∀ depth position v n', .declare depth position v ∈ log → Node.ofJson? v = some n' → n'.id = d →
        n' = n) : g.Uses d n := by
    refine ht.uses_of_asked hinOrder fun a ha htarget => ?_
    cases a with
    | report | store => cases htarget
    | follow d' =>
      obtain rfl : d' = d := Option.some.inj htarget
      exact (hindexed d').trans hn
    | declare depth position v =>
      obtain ⟨n', hv, hid⟩ := Option.map_eq_some_iff.mp htarget
      exact hplaces depth position v n' ha hv hid ▸ hv
  exact ⟨hindexed, hinOrder, hfirst, fun hn halone => hfirst hn fun _ _ v n' ha => halone v n' (hplaced _ ha)⟩

/-- A graph uses for each declaration the node that was asked for first. -/
theorem usesFirstAsked_of_ofJson (h : ofJson root o = .ok g) :
    (∃ log, g.SettledBy root o log) ∧ ∀ log, g.SettledBy root o log → g.UsesFirstAsked root log := by
  obtain ⟨t, ht, _, hrun⟩ := exists_run h
  obtain ⟨log, hlog⟩ := Build.Steps.exists_firsts hrun
  exact ⟨⟨log, t, ht, hlog⟩, fun log ⟨t, ht, hlog⟩ => ht.usesFirstAsked hlog⟩

/-- A variable, and a function whose parameter carries the id of the variable. -/
def echoed : Json :=
  .obj [("children", .arr [nodeWith 1 .externalModule "shapes" [("children", .arr [
    nodeWith 5 .varDecl "side" [("type", voidType)],
    nodeWith 2 .function "area" [("signatures", .arr [
      nodeWith 3 .callSignature "area" [("parameters", .arr [nodeWith 5 .parameter "width" [("type", voidType)]])]])]
    ])]])]

/-- A parameter stands in the index, but not in the place of a declaration, so the variable is used. -/
theorem usesFirstAsked_echoed : ∃ g log, ofJson echoed {} = .ok g ∧ g.SettledBy echoed {} log ∧
    g.UsesFirstAsked echoed log ∧ (echoed.nodes.map Node.id).count ⟨5⟩ = 2 ∧
      ∃ n, echoed.firstNode? ⟨5⟩ = some n ∧ n.name = "side" ∧ g.Uses ⟨5⟩ n := by
  obtain ⟨g, hg⟩ := exists_ofJson (o := {}) (rfl : rootFault? echoed = none)
  obtain ⟨⟨log, hlog⟩, huses⟩ := usesFirstAsked_of_ofJson hg
  have hcount : (echoed.nodes.map Node.id).count ⟨5⟩ = 2 := by decide +kernel
  have hside : (echoed.firstNode? ⟨5⟩).map Node.name = some "side" := by decide +kernel
  obtain ⟨n, hn, hname⟩ := Option.map_eq_some_iff.mp hside
  refine ⟨g, log, hg, hlog, huses log hlog, hcount, n, hn, hname, ?_⟩
  refine (huses log hlog).alone hn fun v n' hv hn' hid => ?_
  -- Where declarations are written, the id stands at the variable, and there is one such node.
  have hplaces : ∀ w ∈ echoed.places, (Node.ofJson? w).all fun m => m.id ≠ ⟨5⟩ || m.name = "side" := by decide +kernel
  have hsole : (echoed.nodes.filter fun m => m.id = ⟨5⟩ && m.name = "side").length = 1 := by decide +kernel
  obtain ⟨m, hm⟩ := List.length_eq_one_iff.mp hsole
  have only {k : Node} (hk : k ∈ echoed.nodes) (hid : k.id = ⟨5⟩) (hname : k.name = "side") : k = m := by
    rw [← List.mem_singleton, ← hm, List.mem_filter]
    exact ⟨hk, by simp [hid, hname]⟩
  have hname' : n'.name = "side" := by
    have hall := hplaces v (Json.mem_places_iff.mpr hv)
    simpa [hn', hid] using hall
  have hid5 : n.id = ⟨5⟩ := by simpa using List.find?_some hn
  rw [only (List.mem_of_find?_eq_some hn) hid5 hname,
    only (Json.mem_nodes_iff.mpr (Node.standsIn_of_ofJson? hn' hv.within)) hid hname']

/-! ## A shadowed node -/

/-- A graph uses the first nodes of its document. -/
def UsesFirstNodes (g : Graph) (root : Json) : Prop := ∀ d n, root.firstNode? d = some n → g.Uses d n

/-- A class with a property, and a literal with the same id as the property in what the class extends. -/
def shadowed : Json :=
  .obj [("children", .arr [nodeWith 1 .externalModule "shapes" [("children", .arr [
    nodeWith 2 .classDecl "Square" [
      ("children", .arr [nodeWith 5 .property "side" []]),
      ("extendedTypes", .arr [.obj [("declaration", nodeWith 5 .typeLiteral "Sized" []), ("type", .str "reflection")]])]
    ])]])]

theorem ofJson_shadowed : ∃ g, ofJson shadowed {} = .ok g ∧ g.entityOf? ⟨5⟩ = some ⟨9⟩ ∧
    g.nameAt? ⟨9⟩ = some "Sized" := by
  have hrun : (ofJson shadowed {}).toOption.map (fun g => (g.entityOf? ⟨5⟩, g.nameAt? ⟨9⟩)) =
      some (some ⟨9⟩, some "Sized") := by
    decide +kernel
  obtain ⟨g, hg⟩ := exists_ofJson (o := {}) (rfl : rootFault? shadowed = none)
  rw [hg] at hrun
  have hpair := Option.some.inj hrun
  exact ⟨g, hg, congrArg Prod.fst hpair, congrArg Prod.snd hpair⟩

/-- What a class extends is resolved before its members, so the literal shadows the property, which stands before it in
the document and in the index. -/
theorem not_usesFirstNodes_shadowed : ∃ g, ofJson shadowed {} = .ok g ∧
    (shadowed.firstNode? ⟨5⟩).map Node.name = some "side" ∧ g.nameAt? ⟨9⟩ = some "Sized" ∧
      ¬ g.UsesFirstNodes shadowed := by
  obtain ⟨g, hg, hentity, hname⟩ := ofJson_shadowed
  have hside : (shadowed.firstNode? ⟨5⟩).map Node.name = some "side" := by decide +kernel
  refine ⟨g, hg, hside, hname, fun hfirst => ?_⟩
  obtain ⟨n, hn, hside⟩ := Option.map_eq_some_iff.mp hside
  obtain ⟨e, _, _, _, he, _, hshown, _⟩ := (hfirst _ n hn).built hentity (by decide)
  rw [nameAt?, he, Option.bind_some, hshown, hside] at hname
  exact absurd hname (by decide)

end Graph

end EntityGraph

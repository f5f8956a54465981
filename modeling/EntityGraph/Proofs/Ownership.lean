import Mathlib.Data.List.Perm.Subperm
import EntityGraph.Proofs.Plays
import EntityGraph.Proofs.Links

/-!
# Owners of type expressions

The entity of a type expression belongs to whoever asked for it: it is handed over once and stored in one place.
Between the steps of a resolution the entities of type expressions are stored or in hand (`Build.State.Owned`), each at
most once altogether, and what one of them stores was there before it. `Build.Owns taken m given` says that the step
`m` keeps this when what is in hand changes from `taken` to what is `given`, whatever else is in hand; these triples
compose along `>>=` and along lists.

What is built in and what is settled is not counted, so references to declarations may be stored any number of times.
Each builder stores the types that its visitor hands over, or drops them, if the visitor is an owner (`Build.Owner`);
the visitors of a document are, by induction on the size of the value (`Build.visitor_owner`). A whole pass starts and
ends with nothing in hand (`Build.pass_owns`).
-/

namespace EntityGraph

/-! ## Entities of type expressions -/

/-- Whether an entity stands for a type expression. -/
def Entity.isType : Entity → Bool
  | array _ _ | union _ _ | intersection _ _ | stringLiteral _ _ | typeParameter _ _ | typeOperator _ _ _
  | externalReference _ _ => true
  | _ => false

namespace Arena

variable {a b : Arena} {m k : EntityId} {e : Entity}

/-- The entity of a type expression stands at the place. -/
def TypeAt (a : Arena) (m : EntityId) (e : Entity) : Prop := a.get? m = some (some e) ∧ e.isType = true

/-- The places that the entities of an arena store as types. -/
def types (a : Arena) : List EntityId := a.slots.toList.flatMap fun x => x.elim [] Entity.types

theorem types_alloc (a : Arena) (e : Entity) : (a.alloc e).2.types = a.types ++ e.types := by
  simp [types, alloc]

theorem types_reserve (a : Arena) : a.reserve.2.types = a.types := by
  simp [types, reserve]

/-- An empty slot stores nothing, so filling it adds what the entity stores. -/
theorem types_fill (h : a.fill m e = .ok b) : b.types.Perm (e.types ++ a.types) := by
  obtain ⟨hopen, rfl⟩ := fill_eq_ok_iff.mp h
  obtain ⟨hlt, hnone⟩ := Array.getElem?_eq_some_iff.mp hopen
  have hlt' : m.index < a.slots.toList.length := hlt
  have hsplit : a.slots.toList = a.slots.toList.take m.index ++ none :: a.slots.toList.drop (m.index + 1) := by
    rw [← hnone, ← Array.getElem_toList hlt, List.getElem_cons_drop, List.take_append_drop]
  have hset : a.slots.toList.set m.index (some e) =
      a.slots.toList.take m.index ++ some e :: a.slots.toList.drop (m.index + 1) :=
    List.set_eq_take_append_cons_drop.trans (if_pos hlt')
  rw [types, types, Array.toList_setIfInBounds, hset]
  conv_rhs => rw [hsplit]
  simp only [List.flatMap_append, List.flatMap_cons, Option.elim_some, Option.elim_none, List.nil_append]
  exact List.perm_append_comm_assoc _ _ _

/-- `b` has what `a` has, and an entity at one place more. -/
structure Gains (a b : Arena) (m : EntityId) (e : Entity) : Prop where
  size : a.slots.size ≤ b.slots.size
  kept {k : EntityId} {x : Entity} : a.get? k = some (some x) → b.get? k = some (some x)
  cases {k : EntityId} {x : Entity} : b.get? k = some (some x) → k = m ∧ x = e ∨ a.get? k = some (some x)
  types : b.types.Perm (e.types ++ a.types)

theorem gains_alloc (a : Arena) (e : Entity) : a.Gains (a.alloc e).2 a.nextId e where
  size := by simp [alloc]
  kept hk := get?_alloc_of_get? hk e
  cases {k x} hk := by
    rw [get?_alloc] at hk
    split at hk
    · next hnew =>
      cases hk
      exact .inl ⟨hnew, rfl⟩
    · exact .inr hk
  types := by
    rw [types_alloc]
    exact List.perm_append_comm

theorem gains_fill (h : a.fill m e = .ok b) : a.Gains b m e where
  size := by
    obtain ⟨_, rfl⟩ := fill_eq_ok_iff.mp h
    exact Nat.le_of_eq Array.size_setIfInBounds.symm
  kept hk := get?_fill_of_get? hk h
  cases {k x} hk := by
    rw [get?_of_fill h] at hk
    split at hk
    · next hslot =>
      cases hk
      exact .inl ⟨hslot, rfl⟩
    · exact .inr hk
  types := types_fill h

end Arena

/-! ## What is built in and what is declared -/

theorem Builtin.isType_of_mem : ∀ e ∈ entities, e.isType = false := by decide

theorem Entity.declId?_of_isType {e : Entity} (h : e.isType = true) : e.declId? = none := by
  cases e <;> first | rfl | cases h

namespace Build

variable {α β : Type} {s t : State} {m : EntityId} {e : Entity} {hand hand' : List EntityId}

/-! ## Owned states -/

/-- Every entity of a type expression is stored or in `hand`, at most once altogether, and stores what was there before
it; what is built in and what is settled is no type expression. -/
structure State.Owned (hand : List EntityId) (s : State) : Prop where
  builtin {m : EntityId} {e : Entity} : Builtin.entities[m.index]? = some e → s.arena.get? m = some (some e)
  settled {d : DeclId} {r : Resolution} : s.resolutions.lookup? d = some r →
    r.entity.index < s.arena.slots.size ∧ ∀ e, ¬ s.arena.TypeAt r.entity e
  sorted {m : EntityId} {e : Entity} : s.arena.get? m = some (some e) →
    e.isType = true ∨ e.declId?.isSome ∨ Builtin.entities[m.index]? = some e
  lt {m : EntityId} : m ∈ s.arena.types ++ hand → m.index < s.arena.slots.size
  once {m : EntityId} {e : Entity} : s.arena.TypeAt m e → (s.arena.types ++ hand).count m ≤ 1
  below {m k : EntityId} {e : Entity} : s.arena.TypeAt m e → k ∈ e.types → k.index < m.index

namespace State.Owned

theorem start (root : Json) : (start root).Owned [] := by
  have entity {m : EntityId} {e : Entity} (hm : (State.start root).arena.get? m = some (some e)) :
      Builtin.entities[m.index]? = some e := by
    rw [State.start, Builtin.get?_arena, Option.map_eq_some_iff] at hm
    obtain ⟨_, he, heq⟩ := hm
    cases heq
    exact he
  have notType {m : EntityId} {e : Entity} (hm : (State.start root).arena.TypeAt m e) : False := by
    have := Builtin.isType_of_mem e (List.mem_of_getElem? (entity hm.1))
    rw [hm.2] at this
    cases this
  constructor
  case builtin =>
    intro m e he
    rw [State.start, Builtin.get?_arena, he, Option.map_some]
  case settled =>
    intro d r hr
    cases hr
  case sorted => exact fun hm => .inr (.inr (entity hm))
  case lt =>
    intro m hm
    cases hm
  case once => exact fun hm => (notType hm).elim
  case below => exact fun hm => (notType hm).elim

/-- What is in hand may be dropped. -/
theorem mono (h : s.Owned hand) (hsub : hand'.Subperm hand) : s.Owned hand' where
  builtin := h.builtin
  settled := h.settled
  sorted := h.sorted
  lt hm := h.lt (((List.subperm_append_left _).mpr hsub).subset hm)
  once hm := Nat.le_trans (((List.subperm_append_left _).mpr hsub).count_le _) (h.once hm)
  below := h.below

/-- Only the arena and what is settled matter. -/
theorem frame (h : s.Owned hand) (arena : t.arena = s.arena) (resolutions : t.resolutions = s.resolutions) :
    t.Owned hand := by
  constructor <;> rw [arena]
  case settled => rw [resolutions]; exact h.settled
  case builtin => exact h.builtin
  case sorted => exact h.sorted
  case lt => exact h.lt
  case once => exact h.once
  case below => exact h.below

/-- A place may be taken into the hand, if it is neither stored nor in hand or stands for no type expression. -/
theorem cons (h : s.Owned hand) (hlt : m.index < s.arena.slots.size)
    (hm : ∀ e, s.arena.TypeAt m e → (s.arena.types ++ hand).count m = 0) : s.Owned (m :: hand) where
  builtin := h.builtin
  settled := h.settled
  sorted := h.sorted
  lt {k} hk := by
    rcases List.mem_cons.mp (List.perm_middle.mem_iff.mp hk) with rfl | hk
    · exact hlt
    · exact h.lt hk
  once {k e} hk := by
    rw [List.perm_middle.count_eq]
    by_cases heq : m = k
    · subst heq
      rw [List.count_cons_self, hm e hk]
    · rw [List.count_cons_of_ne heq]
      exact h.once hk
  below := h.below

theorem cons_settled (h : s.Owned hand) {d : DeclId} {r : Resolution} (hr : s.resolutions.lookup? d = some r) :
    s.Owned (r.entity :: hand) :=
  h.cons (h.settled hr).1 fun e he => absurd he ((h.settled hr).2 e)

theorem not_typeAt_builtin (h : s.Owned hand) (he : Builtin.entities[m.index]? = some e) (e' : Entity) :
    ¬ s.arena.TypeAt m e' := by
  rintro ⟨hm, htype⟩
  rw [h.builtin he] at hm
  cases hm
  rw [Builtin.isType_of_mem e (List.mem_of_getElem? he)] at htype
  cases htype

theorem lt_builtin (h : s.Owned hand) (he : Builtin.entities[m.index]? = some e) : m.index < s.arena.slots.size :=
  (Array.getElem?_eq_some_iff.mp (h.builtin he)).1

theorem cons_builtin (h : s.Owned hand) (he : Builtin.entities[m.index]? = some e) : s.Owned (m :: hand) :=
  h.cons (h.lt_builtin he) fun e' he' => absurd he' (h.not_typeAt_builtin he e')

/-- The next slot is not stored and not in hand. -/
theorem count_nextId (h : s.Owned hand) : (s.arena.types ++ hand).count s.arena.nextId = 0 :=
  List.count_eq_zero.mpr fun hm => Nat.lt_irrefl _ (h.lt hm)

/-! ### Changes -/

/-- An id may be pinned to the unknown type. -/
theorem pin (h : s.Owned hand) (d : DeclId) :
    Owned hand { s with resolutions := s.resolutions.insert d ⟨Builtin.unknown, none⟩ } where
  builtin := h.builtin
  settled {d' r} hr := by
    rw [Resolutions.lookup?_insert] at hr
    split at hr
    · obtain rfl := Option.some.inj hr
      exact ⟨h.lt_builtin rfl, h.not_typeAt_builtin rfl⟩
    · exact h.settled hr
  sorted := h.sorted
  lt := h.lt
  once := h.once
  below := h.below

/-- An id may be settled with a new slot, which is empty. -/
theorem enter (h : s.Owned hand) (d : DeclId) (kind : Option DeclKind) :
    Owned (s.arena.nextId :: hand) { s with
      resolutions := s.resolutions.insert d ⟨s.arena.nextId, kind⟩
      arena := s.arena.reserve.2 } := by
  have hsize : s.arena.reserve.2.slots.size = s.arena.slots.size + 1 := Array.size_push ..
  have old {m : EntityId} {e : Entity} (hm : s.arena.reserve.2.TypeAt m e) : s.arena.TypeAt m e :=
    ⟨Arena.get?_of_reserve hm.1, hm.2⟩
  have new (e : Entity) : ¬ s.arena.reserve.2.TypeAt s.arena.nextId e := by
    intro hm
    exact Arena.ne_nextId_of_get? (old hm).1 rfl
  refine cons ⟨?builtin, ?settled, ?sorted, ?lt, ?once, ?below⟩ (hsize ▸ Nat.lt_succ_self _)
    fun e he => absurd he (new e)
  case builtin => exact fun he => Arena.get?_reserve_of_get? (h.builtin he)
  case settled =>
    intro d' r hr
    rw [Resolutions.lookup?_insert] at hr
    split at hr
    · obtain rfl := Option.some.inj hr
      exact ⟨hsize ▸ Nat.lt_succ_self _, new⟩
    · obtain ⟨hlt, htype⟩ := h.settled hr
      exact ⟨hsize ▸ Nat.lt_succ_of_lt hlt, fun e he => htype e (old he)⟩
  case sorted => exact fun hm => h.sorted (Arena.get?_of_reserve hm)
  case lt =>
    rw [Arena.types_reserve, hsize]
    exact fun hm => Nat.lt_succ_of_lt (h.lt hm)
  case once =>
    rw [Arena.types_reserve]
    exact fun hm => h.once (old hm)
  case below => exact fun hm hk => h.below (old hm) hk

/-- An entity may be stored with what is in hand for it; that of a type expression only in the next slot, after all that
it stores. -/
theorem gain {b : Arena} (h : s.Owned (e.types ++ hand)) (hgains : s.arena.Gains b m e)
    (he : e.isType = true ∧ m = s.arena.nextId ∨ e.declId?.isSome) : Owned hand { s with arena := b } := by
  have hperm : (b.types ++ hand).Perm (s.arena.types ++ (e.types ++ hand)) := by
    rw [← List.append_assoc]
    exact (hgains.types.trans List.perm_append_comm).append_right hand
  -- A type expression is new only in the next slot, of which nothing is known yet.
  have typeAt {k : EntityId} {x : Entity} (hk : b.TypeAt k x) : k = s.arena.nextId ∧ x = e ∨ s.arena.TypeAt k x := by
    rcases hgains.cases hk.1 with ⟨rfl, rfl⟩ | hold
    · rcases he with ⟨_, hnew⟩ | hid
      · exact .inl ⟨hnew, rfl⟩
      · rw [Entity.declId?_of_isType hk.2] at hid
        cases hid
    · exact .inr ⟨hold, hk.2⟩
  constructor
  case builtin => exact fun hb => hgains.kept (h.builtin hb)
  case settled =>
    intro d r hr
    obtain ⟨hlt, htype⟩ := h.settled hr
    refine ⟨Nat.lt_of_lt_of_le hlt hgains.size, fun x hx => ?_⟩
    rcases typeAt hx with ⟨hnew, _⟩ | hold
    · rw [hnew] at hlt
      exact Nat.lt_irrefl _ hlt
    · exact htype x hold
  case sorted =>
    intro k x hk
    rcases hgains.cases hk with ⟨_, rfl⟩ | hold
    · exact he.imp And.left .inl
    · exact h.sorted hold
  case lt => exact fun hk => Nat.lt_of_lt_of_le (h.lt (hperm.mem_iff.mp hk)) hgains.size
  case once =>
    intro k x hk
    rw [hperm.count_eq]
    rcases typeAt hk with ⟨rfl, _⟩ | hold
    · exact h.count_nextId ▸ Nat.zero_le 1
    · exact h.once hold
  case below =>
    intro k i x hk hi
    rcases typeAt hk with ⟨rfl, rfl⟩ | hold
    · exact h.lt (List.mem_append_right _ (List.mem_append_left _ hi))
    · exact h.below hold hi

/-- The entity of a type expression may be stored with what is in hand for it, and is then in hand itself. -/
theorem alloc (h : s.Owned (e.types ++ hand)) (he : e.isType = true) :
    Owned (s.arena.nextId :: hand) { s with arena := (s.arena.alloc e).2 } := by
  have hgains := s.arena.gains_alloc e
  refine (h.gain hgains (.inl ⟨he, rfl⟩)).cons ?_ fun _ _ => ?_
  · show s.arena.slots.size < (s.arena.slots.push (some e)).size
    exact Array.size_push .. ▸ Nat.lt_succ_self _
  · rw [(hgains.types.append_right hand).count_eq, List.append_assoc, (List.perm_append_comm_assoc ..).count_eq]
    exact h.count_nextId

/-- The slot of a declaration may be filled with an entity that stores what is in hand for it. -/
theorem fill {slot : EntityId} {b : Arena} (h : s.Owned (e.types ++ hand)) (he : e.declId?.isSome)
    (hb : s.arena.fill slot e = .ok b) : Owned hand { s with arena := b } :=
  h.gain (Arena.gains_fill hb) (.inr he)

end State.Owned

/-! ## Steps that own -/

/-- Wherever `m` ends, what was in hand has changed from `taken` to what is `given`, whatever else is in hand. -/
def Owns (taken : List EntityId) (m : Build α) (given : α → List EntityId) : Prop :=
  ∀ ⦃c s a t rest⦄, s.Owned (taken ++ rest) → m c s = .ok (a, t) → t.Owned (given a ++ rest)

namespace Owns

variable {m : Build α} {f : α → Build β} {taken : List EntityId} {mid given : α → List EntityId}
  {given' : β → List EntityId}

theorem pure {a : α} (h : (given a).Subperm taken) : Owns taken (pure a) given := by
  intro c s a t rest hs hrun
  cases hrun
  exact hs.mono ((List.subperm_append_right rest).mpr h)

/-- What the first step gives is in hand for the second, after what was in hand before. -/
theorem bind (hm : Owns [] m mid) (hf : ∀ a, Owns (taken ++ mid a) (f a) given') : Owns taken (m >>= f) given' := by
  intro c s b u rest hs hrun
  obtain ⟨a, t, hrun, hrun'⟩ := exists_of_bind hrun
  have hperm : (taken ++ mid a ++ rest).Perm (mid a ++ (taken ++ rest)) := by
    rw [← List.append_assoc]
    exact List.perm_append_comm.append_right rest
  exact hf a ((hm hs hrun).mono hperm.subperm) hrun'

theorem bind_pure {g : α → β} (hm : Owns [] m mid) (h : ∀ a, (given' (g a)).Subperm (taken ++ mid a)) :
    Owns taken (do let a ← m; return g a) given' :=
  .bind hm fun a => .pure (h a)

theorem read_bind {f : Context → Build β} (h : ∀ c, Owns taken (f c) given') : Owns taken (read >>= f) given' :=
  fun c _ _ _ _ hs hrun => h c hs hrun

/-- What is in hand may be dropped before a step. -/
theorem drop (h : Owns [] m given) : Owns taken m given :=
  fun _ _ _ _ _ hs hrun => h (hs.mono (List.sublist_append_right taken _).subperm) hrun

/-- What a step gives may be dropped. -/
theorem dropping (h : Owns taken m given) : Owns taken m fun _ => [] :=
  fun _ _ _ _ _ hs hrun => (h hs hrun).mono (List.sublist_append_right _ _).subperm

theorem forEach {V : α → Prop} {step : (x : α) → V x → Build β} {give : β → List EntityId} {xs : List α}
    {holds : ∀ x ∈ xs, V x} (h : ∀ x (hx : x ∈ xs), Owns [] (step x (holds x hx)) give) :
    Owns [] (forEach xs holds step) fun ys => ys.flatMap give := by
  induction xs with
  | nil => exact .pure (.refl _)
  | cons x xs ih =>
    refine .bind (h x List.mem_cons_self) fun y => ?_
    refine .bind_pure (ih fun x' hx' => h x' (List.mem_cons_of_mem x hx')) fun ys => ?_
    rw [List.flatMap_cons]
    exact .refl _

theorem forEach_nothing {V : α → Prop} {step : (x : α) → V x → Build β} {xs : List α} {holds : ∀ x ∈ xs, V x}
    (h : ∀ x (hx : x ∈ xs), Owns [] (step x (holds x hx)) fun _ => []) :
    Owns [] (Build.forEach xs holds step) fun _ => [] :=
  .dropping (.forEach h)

/-- A change that leaves the arena and what is settled as they are. -/
theorem modify {f : State → State} (arena : ∀ s, (f s).arena = s.arena)
    (resolutions : ∀ s, (f s).resolutions = s.resolutions) : Owns [] (modify f : Build Unit) fun _ => [] := by
  intro c s _ t rest hs hrun
  cases hrun
  exact hs.frame (arena s) (resolutions s)

theorem report (x : Diagnostic) : Owns [] (report x) fun _ => [] := .modify (fun _ => rfl) fun _ => rfl

theorem alloc (he : e.isType = true) (h : e.types.Subperm taken) : Owns taken (alloc e) fun id => [id] := by
  intro c s id t rest hs hrun
  cases hrun
  exact (hs.mono ((List.subperm_append_right rest).mpr h)).alloc he

theorem fill {slot : EntityId} (he : e.declId?.isSome) : Owns e.types (fill slot e) fun _ => [] := by
  intro c s _ t rest hs hrun
  rw [fill_run] at hrun
  cases hb : s.arena.fill slot e with
  | error => rw [hb] at hrun; cases hrun
  | ok b =>
    rw [hb] at hrun
    cases hrun
    exact hs.fill he hb

/-- A place of what is built in may be given at any time. -/
theorem builtin {a : α} {k : EntityId} (he : Builtin.entities[k.index]? = some e) (ha : given a = [k]) :
    Owns [] (Pure.pure a) given := by
  intro c s a t rest hs hrun
  cases hrun
  rw [ha]
  exact hs.cons_builtin he

end Owns

/-! ## Entries and references -/

/-- The place that an entry gives. -/
def Entry.place : Entry → EntityId
  | .settled r => r.entity
  | .fresh _ slot => slot

theorem enter_owns (n : Node) (position : Position) : Owns [] (enter n position) fun entry => [entry.place] := by
  intro c s entry t rest hs hrun
  cases hopen : s.resolutions.lookup? n.id with
  | some r =>
    rw [enter_of_settled hopen] at hrun
    cases hrun
    exact hs.cons_settled hopen
  | none =>
    cases hk : n.entityKind? position with
    | none =>
      rw [enter_of_unrecognized hopen hk] at hrun
      cases hrun
      exact ((hs.cons_builtin (m := Builtin.unknown) rfl).pin n.id).frame rfl rfl
    | some kind =>
      rw [enter_of_recognized hopen hk] at hrun
      cases hrun
      exact hs.enter n.id (some kind)

theorem unreadable_owns (v : Json) : Owns [] (unreadable v) fun r => [r.entity] :=
  .bind (.report _) fun _ => .builtin (k := Builtin.unknown) rfl rfl

theorem enterLater_owns (n : Node) (position : Position) : Owns [] (enterLater n position) fun r => [r.entity] := by
  refine .bind (enter_owns n position) fun entry => ?_
  cases entry with
  | settled r => exact .pure (.refl _)
  | fresh kind slot => exact .bind_pure (.modify (fun _ => rfl) fun _ => rfl) fun _ => .refl _

theorem target_owns (d : DeclId) : Owns [] (target d) fun m => [m] := by
  have found (n : Node) : Owns [] (do return (← enterLater n .reference).entity) fun m => [m] :=
    .bind_pure (enterLater_owns n .reference) fun _ => .refl _
  have missing : Owns [] (do report (.danglingReference d); return Builtin.unknown) fun m => [m] :=
    .bind (.report _) fun _ => .builtin (k := Builtin.unknown) rfl rfl
  intro c s m t rest hs hrun
  rw [target, get_bind_run] at hrun
  cases hd : s.resolutions.lookup? d with
  | some r =>
    rw [hd] at hrun
    cases hrun
    exact hs.cons_settled hd
  | none =>
    rw [hd] at hrun
    dsimp only at hrun
    rw [read_bind_run] at hrun
    cases hn : c.index.lookup? d with
    | some n =>
      rw [hn] at hrun
      exact found n hs hrun
    | none =>
      rw [hn] at hrun
      exact missing hs hrun

theorem follow_owns (d : DeclId) : Owns [] (follow d) fun m => [m] :=
  .bind (target_owns d) fun _ => .bind_pure (.modify (fun _ => rfl) fun _ => rfl) fun _ => .refl _

/-! ## Builders -/

/-- A visitor hands over the entities of the types and declarations in a value. -/
structure Owner {host : Json} (visit : Visitor host) (v : Json) : Prop where
  type (inside : v.Inside host) (position : Position) : Owns [] (visit.type v inside position) fun id => [id]
  declaration (inside : v.Inside host) (position : Position) :
    Owns [] (visit.declaration v inside position) fun r => [r.entity]

theorem Owner.of_inside {host v : Json} {visit : Visitor host} (h : v.Inside host → Owner visit v) : Owner visit v :=
  ⟨fun inside => (h inside).type inside, fun inside => (h inside).declaration inside⟩

theorem Owner.within {host part v : Json} {visit : Visitor host} (h : Owner visit v) (hpart : part.Inside host) :
    Owner (visit.within hpart) v :=
  ⟨fun inside => h.type (inside.trans hpart), fun inside => h.declaration (inside.trans hpart)⟩

section

variable {host : Json} {visit : Visitor host}

theorem types_owns {vs : List Json} (h : ∀ v ∈ vs, Owner visit v) (inside : ∀ v ∈ vs, v.Inside host)
    (position : Position) : Owns [] (visit.types vs inside position) fun ids => ids := by
  have hids : Owns [] (visit.types vs inside position) fun ids => ids.flatMap fun id => [id] :=
    .forEach fun v hv => (h v hv).type (inside v hv) position
  simp only [List.flatMap_singleton'] at hids
  exact hids

variable (h : ∀ v, Owner visit v)

include h

theorem type?_owns (v? : Option Json) (inside : ∀ v, v? = some v → v.Inside host) (position : Position) :
    Owns [] (visit.type? v? inside position) fun id => [id] := by
  cases v? with
  | none => exact .builtin (k := Builtin.unknown) rfl rfl
  | some v => exact (h v).type (inside v rfl) position

/-- Members are declarations, so they are not counted. -/
theorem members_owns (children : List Json) (inside : ∀ v ∈ children, v.Inside host) (position : Position) :
    Owns [] (visit.members children inside position) fun _ => [] := by
  refine .read_bind fun c => .bind_pure (.forEach_nothing fun v hv => ?_) fun _ => .refl _
  exact .bind_pure ((h v).declaration _ position) fun _ => List.nil_subperm

theorem parameter?_owns (v : Json) (inside : v.Inside host) :
    Owns [] (parameter? visit v inside) fun parameter => (parameter.map (·.type)).toList := by
  unfold parameter?
  split
  · next p hp =>
    have hwithin := fun w => (h w).within (Node.inside_of_ofJson? hp inside)
    exact .bind_pure (type?_owns hwithin p.type? _ _) fun _ => .refl _
  · exact .bind_pure (.report _) fun _ => .refl _

theorem indexSignature?_owns (v : Json) (inside : v.Inside host) :
    Owns [] (indexSignature? visit v inside) fun signature => signature.toList.flatMap IndexSignature.links := by
  unfold indexSignature?
  split
  · next n hn =>
    split
    · have hwithin := fun w => (h w).within (Node.inside_of_ofJson? hn inside)
      refine .bind (type?_owns hwithin n.firstParameterType? _ _) fun indexType => ?_
      exact .bind_pure (type?_owns hwithin n.type? _ _) fun valueType => .refl _
    · exact .bind_pure (.report _) fun _ => .refl _
  · exact .bind_pure (.report _) fun _ => .refl _

end

section

variable {n : Node} {visit : Visitor n.value} (h : ∀ v, Owner visit v)

include h

theorem scope_owns : Owns [] (scope n visit) fun _ => [] :=
  .bind_pure (members_owns h n.children _ _) fun _ => .refl _

theorem indexSignatureOf_owns :
    Owns [] (indexSignatureOf n visit) fun signature => signature.toList.flatMap IndexSignature.links := by
  unfold indexSignatureOf
  split
  · exact indexSignature?_owns h _ _
  · exact .pure (.refl _)

theorem shape_owns (kind : DeclKind) : Owns [] (shape n kind visit) fun p => p.1.types := by
  refine .bind (types_owns (fun v _ => h v) _ _) fun typeArguments => ?_
  refine .bind (types_owns (fun v _ => h v) _ _) fun extendedTypes => ?_
  refine .bind (types_owns (fun v _ => h v) _ _) fun implementedTypes => ?_
  refine .bind (members_owns h n.children _ _) fun ms => ?_
  refine .bind_pure (indexSignatureOf_owns h) fun indexSignature => ?_
  rw [List.append_nil]
  exact .refl _

theorem signature_owns : Owns [] (signature n visit) Signature.links := by
  refine .bind (.forEach fun v _ => parameter?_owns h v _) fun parameters => ?_
  refine .bind_pure (type?_owns h n.type? _ _) fun returnType => ?_
  rw [Signature.links, List.filterMap_eq_flatMap_toList, List.map_flatMap]
  simp only [id, Option.toList_map]
  exact .refl _

theorem callable_owns (kind : CallableKind) : Owns [] (callable n kind visit) Entity.types := by
  refine .bind (.forEach fun m hm => signature_owns fun v => (h v).within (Node.inside_signatureNodes hm)) fun _ => ?_
  exact .bind_pure (types_owns (fun v _ => h v) _ _) fun _ => .refl _

end

theorem enumMember?_owns (v : Json) : Owns [] (enumMember? v) fun _ => [] := by
  unfold enumMember?
  split
  · split
    · exact .pure (.refl _)
    · exact .bind_pure (.report _) fun _ => .refl _
  · exact .bind_pure (.report _) fun _ => .refl _

/-- The entity of a node stores what was handed over for it. -/
theorem declaration_owns {n : Node} (kind : DeclKind) (position : Position) {visit : Visitor n.value}
    (h : ∀ v, Owner visit v) : Owns [] (declaration n kind position visit) Entity.types := by
  cases kind with
  | moduleDecl | namespaceDecl => exact .bind_pure (scope_owns h) fun _ => .refl _
  | classDecl | interfaceDecl | interfaceLiteral | objectLiteral => exact .bind_pure (shape_owns h _) fun _ => .refl _
  | enumDecl => exact .bind_pure (.forEach_nothing fun v _ => enumMember?_owns v) fun _ => .refl _
  | typeAlias => exact .bind_pure (type?_owns h n.type? _ _) fun _ => .refl _
  | property => exact .bind_pure (type?_owns h n.type? _ _) fun _ => .refl _
  | accessor => exact .bind_pure (type?_owns h n.accessorType? _ _) fun _ => .refl _
  | function | method | constructor => exact callable_owns h _
  | indexSignature => exact fun _ _ _ _ _ _ hrun => nomatch hrun

/-! ### The ids of entities -/

/-- Whatever `m` gives has the property. -/
def Returns (m : Build α) (P : α → Prop) : Prop := ∀ ⦃c s a t⦄, m c s = .ok (a, t) → P a

namespace Returns

variable {m : Build α} {f : α → Build β} {P : β → Prop}

theorem pure {b : β} (h : P b) : Returns (pure b) P := by
  intro c s b t hrun
  cases hrun
  exact h

theorem bind (h : ∀ a, Returns (f a) P) : Returns (m >>= f) P := by
  intro c s b t hrun
  obtain ⟨a, _, _, hrun⟩ := exists_of_bind hrun
  exact h a hrun

end Returns

/-- The entity of a node stands for a declaration. -/
theorem declaration_returns (n : Node) (kind : DeclKind) (position : Position) (visit : Visitor n.value) :
    Returns (declaration n kind position visit) fun e => e.declId?.isSome := by
  have callable (kind : CallableKind) : Returns (callable n kind visit) fun e => e.declId?.isSome :=
    .bind fun _ => .bind fun _ => .pure rfl
  cases kind with
  | function | method | constructor => exact callable _
  | indexSignature => exact fun _ _ _ _ hrun => nomatch hrun
  | _ => exact .bind fun _ => .pure rfl

/-- Building a declaration stores what is handed over for it. -/
theorem build_owns {n : Node} (kind : DeclKind) (position : Position) (slot : EntityId) {visit : Visitor n.value}
    (h : ∀ v, Owner visit v) : Owns [] (build n kind position slot visit) fun _ => [] := by
  refine .bind (.modify (fun _ => rfl) fun _ => rfl) fun _ => ?_
  -- The rule for sequences forgets that the entity is a declaration, which filling its slot asks for.
  intro c s _ u rest hs hrun
  obtain ⟨e, t, hrun, hfill⟩ := exists_of_bind hrun
  exact Owns.fill (declaration_returns n kind position visit hrun) (declaration_owns kind position h hs hrun) hfill

/-! ## Type expressions -/

/-- One level of a type expression stores what is handed over for its parts and its arguments. -/
theorem ofTypeExpr_owns {v : Json} {visit : Visitor v} {e : TypeExpr} (position : Position)
    (inside : ∀ w ∈ e.parts, w.Inside v) (hparts : ∀ w ∈ e.parts, Owner visit w)
    (harguments : ∀ w ∈ TypeExpr.argumentsOf v, Owner visit w) :
    Owns [] (ofTypeExpr v position visit e inside) fun id => [id] := by
  have arguments : Owns [] (typeArguments v visit) fun as => as := types_owns harguments _ _
  have parts : Owns [] (visit.types e.parts inside position) fun ids => ids := types_owns hparts inside position
  cases e with
  | intrinsic name =>
    obtain ⟨_, he⟩ := Builtin.exists_of_ofName name
    exact .builtin he rfl
  | unknown => exact .builtin (k := Builtin.unknown) rfl rfl
  | malformedReference => exact .bind (.report _) fun _ => .builtin (k := Builtin.unknown) rfl rfl
  | internalReference d => exact .bind arguments fun _ => .drop (follow_owns d)
  | reflection decl =>
    exact .bind_pure ((hparts decl List.mem_cons_self).declaration _ position) fun _ => .refl _
  | array element =>
    refine .bind ((hparts element List.mem_cons_self).type _ position) fun m => ?_
    exact .bind arguments fun as => .alloc rfl (.refl _)
  | union members | intersection members => exact .bind parts fun ms => .bind arguments fun as => .alloc rfl (.refl _)
  | externalReference | stringLiteral | typeParameter | typeOperator =>
    exact .bind arguments fun as => .alloc rfl (.refl _)

/-! ## Visits -/

theorem visitDeclaration_owns {depth : Nat} {v : Json} {n : Node} (hn : Node.ofJson? v = some n)
    (h : ∀ w, Owner (visitor depth n.value) w) (position : Position) :
    Owns [] (visitDeclaration depth v position) fun r => [r.entity] := by
  rw [visitDeclaration_of_node hn]
  refine .bind (enter_owns n position) fun entry => ?_
  cases entry with
  | settled r => exact .pure (.refl _)
  | fresh kind slot => exact .bind_pure (build_owns kind position slot h) fun _ => .refl _

/-- The visitors of a document are owners, by induction on the size of the value. -/
theorem visitor_owner {depth : Nat} {host v : Json} : Owner (visitor depth host) v := by
  refine ⟨fun _ position => ?_, fun _ position => ?_⟩
  · show Owns [] (visitType depth v position) _
    rw [visitType_eq]
    refine .read_bind fun c => ?_
    split
    · exact .bind (.report _) fun _ => .builtin (k := Builtin.unknown) rfl rfl
    · have hinner (w : Json) (hw : w ∈ (TypeExpr.ofJson v).parts ∨ w ∈ TypeExpr.argumentsOf v) :
          Owner (visitor (depth + 1) v) w := by
        have := (TypeExpr.inside_of_mem hw).sizeOf_lt
        exact visitor_owner
      exact ofTypeExpr_owns position _ (fun w hw => hinner w (.inl hw)) fun w hw => hinner w (.inr hw)
  · show Owns [] (visitDeclaration depth v position) _
    cases hn : Node.ofJson? v with
    | none =>
      rw [visitDeclaration_of_unreadable hn]
      exact unreadable_owns v
    | some n =>
      refine visitDeclaration_owns hn (fun w => .of_inside fun inside => ?_) position
      rw [Node.value_of_ofJson? hn] at inside
      have := inside.sizeOf_lt
      exact visitor_owner
termination_by sizeOf v

/-! ## Whole passes -/

theorem modules_owns (root : Json) : Owns [] (modules root) fun _ => [] := by
  refine .read_bind fun c => .bind_pure (.forEach_nothing fun v hv => ?_) fun _ => .refl _
  exact .dropping (visitor_owner.declaration _ _)

theorem settle_owns (rounds : Nat) : Owns [] (settle rounds) fun _ => [] := by
  induction rounds with
  | zero => exact .pure (.refl _)
  | succ rounds ih =>
    intro c s _ t rest hs hrun
    cases hwaiting : s.waiting with
    | nil =>
      rw [settle_nil hwaiting] at hrun
      cases hrun
      exact hs
    | cons p ps =>
      rw [settle_cons hwaiting] at hrun
      have hround : Owns [] (do build p.node p.kind p.position p.slot (visitor 0 p.node.value); settle rounds)
          fun _ => [] :=
        .bind (build_owns p.kind p.position p.slot fun _ => visitor_owner) fun _ => ih
      exact hround (hs.frame (t := { s with waiting := ps }) rfl rfl) hrun

/-- A pass over a document ends with the entities of its type expressions owned, and nothing in hand. -/
theorem pass_owns {root : Json} {o : Options} {ids : List EntityId}
    (h : pass root (.ofRoot root o) (.start root) = .ok (ids, t)) : t.Owned [] := by
  have hpass : Owns [] (pass root) fun _ => [] :=
    .bind (modules_owns root) fun ids => .read_bind fun c => .bind_pure (settle_owns _) fun _ => .refl _
  exact hpass (.start root) h

end Build

end EntityGraph

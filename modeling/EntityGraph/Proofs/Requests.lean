import EntityGraph.Proofs.Histories

/-!
# Requests for declarations

Beside the operations on an arena, declarations are pinned to fallbacks and looked up, in whatever order
(`Store.Query`). The history of the answers (`Store.askAll`) tells for each declaration what its first request or pin
answered (`Store.settled`).

The table of declarations holds exactly that (`Answered`): the empty table has the empty history, every question keeps
this (`Answered.ask`), so every conversation does (`Answered.askAll`). From it follows what the table promises
(`Store.askAll_settlesOnce`): the first request or pin of a declaration settles it for good, no question about another
one changes that, and the slots that requests reserve are distinct.
-/

namespace EntityGraph

namespace Store

/-- What is asked of a store and of its table of declarations. -/
inductive Query
  | on (op : Op)
  | pin (decl : DeclId) (fallback : EntityId)
  | lookup (decl : DeclId)

/-- What was asked, with its answer. -/
inductive Reply
  | on (e : Event)
  | pin (decl : DeclId) (fallback : EntityId) (answer : Resolution)
  | lookup (decl : DeclId) (answer : Option Resolution)

/-- One question. -/
def ask (s : Store) : Query → Reply × Store
  | .on op =>
    let (e, s) := s.step op
    (.on e, s)
  | .pin decl fallback =>
    let (answer, resolutions) := s.resolutions.pin decl fallback
    (.pin decl fallback answer, { s with resolutions })
  | .lookup decl => (.lookup decl (s.resolutions.lookup? decl), s)

/-- Questions one after the other, with the history of the answers. -/
def askAll (s : Store) : List Query → List Reply × Store
  | [] => ([], s)
  | q :: qs =>
    let (r, s) := s.ask q
    let (rest, s) := s.askAll qs
    (r :: rest, s)

/-- The declaration that a question is about. -/
def Query.decl? : Query → Option DeclId
  | on (.request decl _) | pin decl _ | lookup decl => some decl
  | on _ => none

/-! ## What the answers tell -/

/-- What a request or a pin answered for its declaration. -/
def Reply.settled? : Reply → Option (DeclId × Resolution)
  | on (.request decl kind (.fresh slot)) => some (decl, ⟨slot, some kind⟩)
  | on (.request decl _ (.existing r)) | pin decl _ r => some (decl, r)
  | _ => none

/-- The answer to the first request or pin of a declaration. -/
def settled (h : List Reply) (decl : DeclId) : Option Resolution := (h.filterMap Reply.settled?).lookup decl

/-- The operation on the arena. -/
def Reply.event? : Reply → Option Event
  | on e => some e
  | _ => none

/-- The declaration that an operation reserved a slot for, with the slot. -/
def Event.fresh? : Event → Option (DeclId × EntityId)
  | request decl _ (.fresh slot) => some (decl, slot)
  | _ => none

/-- The declarations that slots were reserved for, with their slots. -/
def reserved (h : List Reply) : List (DeclId × EntityId) := (h.filterMap Reply.event?).filterMap Event.fresh?

theorem settled_append (h : List Reply) (r : Reply) (decl : DeclId) :
    settled (h ++ [r]) decl = (settled h decl).or (r.settled?.toList.lookup decl) := by
  cases hr : r.settled? <;> simp [settled, hr, List.lookup_append]

/-- An answer for an open declaration settles it. -/
theorem settled_append_of_some {h : List Reply} {r : Reply} {decl : DeclId} {answer : Resolution}
    (hopen : settled h decl = none) (hr : r.settled? = some (decl, answer)) (d : DeclId) :
    settled (h ++ [r]) d = if d = decl then some answer else settled h d := by
  rw [settled_append, hr, Option.toList_some, lookup_cons_eq]
  by_cases hd : d = decl
  · simp [hd, hopen]
  · simp [hd]

/-- A reserved slot is what its declaration was answered. -/
theorem exists_reply_of_reserved {h : List Reply} {decl : DeclId} {slot : EntityId} (hm : (decl, slot) ∈ reserved h) :
    ∃ r ∈ h, ∃ kind, r.settled? = some (decl, ⟨slot, some kind⟩) := by
  obtain ⟨e, he, hfresh⟩ := List.mem_filterMap.mp hm
  obtain ⟨r, hr, hevent⟩ := List.mem_filterMap.mp he
  cases r with
  | on e' =>
    cases hevent
    cases e with
    | request d kind answer =>
      cases answer with
      | fresh m =>
        cases hfresh
        exact ⟨_, hr, kind, rfl⟩
      | existing => cases hfresh
    | _ => cases hfresh
  | _ => cases hevent

/-- The slots are among the ids that were issued. -/
theorem reserved_sublist_issued : ∀ es : List Event,
    ((es.filterMap Event.fresh?).map (·.2)).Sublist (issued es)
  | [] => List.Sublist.refl _
  | e :: es => by
    have ih := reserved_sublist_issued es
    rw [issued, List.filterMap_cons, List.filterMap_cons]
    cases hfresh : e.fresh? with
    | none =>
      cases e.issued? with
      | none => exact ih
      | some => exact ih.cons _
    | some pair =>
      have hissued : e.issued? = some pair.2 := by
        cases e with
        | request _ _ answer =>
          cases answer <;> cases hfresh
          rfl
        | _ => cases hfresh
      simp only [hissued, List.map_cons]
      exact ih.cons_cons _

/-! ## What the table holds -/

/-- The table holds for each declaration what its first request or pin answered, every other answer for it was the
same, and the slots contain what the operations on the arena tell. -/
structure Answered (h : List Reply) (s : Store) : Prop where
  entry (decl : DeclId) : s.resolutions.lookup? decl = settled h decl
  agrees {r : Reply} {decl : DeclId} {answer : Resolution} : r ∈ h → r.settled? = some (decl, answer) →
    settled h decl = some answer
  keys : (s.resolutions.entries.map (·.1)).Nodup
  recorded : Recorded (h.filterMap Reply.event?) s.arena

namespace Answered

variable {h : List Reply} {s : Store} {decl : DeclId} {answer : Resolution}

/-- A question that settles nothing new: its answer, if it has one for a declaration, is the one that it has. -/
theorem same (ha : Answered h s) {r : Reply} {a : Arena}
    (hr : ∀ {decl answer}, r.settled? = some (decl, answer) → settled h decl = some answer)
    (hrecorded : Recorded ((h ++ [r]).filterMap Reply.event?) a) : Answered (h ++ [r]) { s with arena := a } := by
  have hsettled : ∀ d, settled (h ++ [r]) d = settled h d := by
    intro d
    rw [settled_append]
    cases hanswer : r.settled? with
    | none => simp
    | some pair =>
      rw [Option.toList_some, lookup_cons_eq]
      by_cases hd : d = pair.1
      · simp [hd, hr hanswer]
      · simp [hd]
  constructor
  case entry => exact fun d => (ha.entry d).trans (hsettled d).symm
  case agrees =>
    intro r' d answer hmem hanswer
    rw [hsettled]
    rcases List.mem_append.mp hmem with hmem | hmem
    · exact ha.agrees hmem hanswer
    · obtain rfl := List.mem_singleton.mp hmem
      exact hr hanswer
  case keys => exact ha.keys
  case recorded => exact hrecorded

/-- A question that has no answer for a declaration. -/
theorem silent (ha : Answered h s) {r : Reply} {a : Arena} (hr : r.settled? = none)
    (hrecorded : Recorded ((h ++ [r]).filterMap Reply.event?) a) : Answered (h ++ [r]) { s with arena := a } := by
  refine ha.same (fun hanswer => ?_) hrecorded
  rw [hr] at hanswer
  cases hanswer

/-- A request or a pin of an open declaration. -/
theorem insert (ha : Answered h s) {r : Reply} {a : Arena} (hopen : s.resolutions.lookup? decl = none)
    (hr : r.settled? = some (decl, answer)) (hrecorded : Recorded ((h ++ [r]).filterMap Reply.event?) a) :
    Answered (h ++ [r]) ⟨a, s.resolutions.insert decl answer⟩ := by
  have hsettled := settled_append_of_some ((ha.entry decl).symm.trans hopen) hr
  constructor
  case entry =>
    intro d
    rw [Resolutions.lookup?_insert, hsettled, ha.entry]
  case agrees =>
    intro r' d answer' hmem hanswer
    rw [hsettled]
    rcases List.mem_append.mp hmem with hmem | hmem
    · have hd := ha.agrees hmem hanswer
      rw [if_neg, hd]
      rintro rfl
      rw [← ha.entry, hopen] at hd
      cases hd
    · obtain rfl := List.mem_singleton.mp hmem
      rw [hr] at hanswer
      cases hanswer
      rw [if_pos rfl]
  case keys => exact List.nodup_cons.mpr ⟨Resolutions.not_mem_keys hopen, ha.keys⟩
  case recorded => exact hrecorded

/-- An operation on the arena is recorded. -/
theorem recorded_step (ha : Answered h s) (op : Op) :
    Recorded ((h ++ [Reply.on (s.step op).1]).filterMap Reply.event?) (s.step op).2.arena := by
  rw [List.filterMap_append]
  exact ha.recorded.step op

/-- A question about the table alone leaves what is recorded. -/
theorem recorded_idle (ha : Answered h s) {r : Reply} (hr : r.event? = none) :
    Recorded ((h ++ [r]).filterMap Reply.event?) s.arena := by
  simpa [hr] using ha.recorded

/-- Every question keeps the table. -/
theorem ask (ha : Answered h s) (q : Query) : Answered (h ++ [(s.ask q).1]) (s.ask q).2 := by
  cases q with
  | on op =>
    have hrecorded := ha.recorded_step op
    cases op with
    | alloc m => exact ha.silent rfl hrecorded
    | reserve => exact ha.silent rfl hrecorded
    | fill id m =>
      cases hfill : s.arena.fill id m with
      | ok a =>
        simp only [Store.ask, Store.step, hfill] at hrecorded ⊢
        exact ha.silent rfl hrecorded
      | error refusal =>
        simp only [Store.ask, Store.step, hfill] at hrecorded ⊢
        exact ha.silent rfl hrecorded
    | request decl kind =>
      cases hfound : s.resolutions.lookup? decl with
      | none =>
        simp only [Store.ask, Store.step, Resolutions.reserve_of_open hfound] at hrecorded ⊢
        exact ha.insert hfound rfl hrecorded
      | some r =>
        simp only [Store.ask, Store.step, Resolutions.reserve_of_settled hfound] at hrecorded ⊢
        refine ha.same (fun hr => ?_) hrecorded
        cases hr
        rw [← ha.entry, hfound]
  | pin decl fallback =>
    cases hfound : s.resolutions.lookup? decl with
    | none =>
      simp only [Store.ask, Resolutions.pin_of_open hfound]
      exact ha.insert hfound rfl (ha.recorded_idle rfl)
    | some r =>
      simp only [Store.ask, Resolutions.pin_of_settled hfound]
      refine ha.same (fun hr => ?_) (ha.recorded_idle rfl)
      cases hr
      rw [← ha.entry, hfound]
  | lookup decl => exact ha.silent rfl (ha.recorded_idle rfl)

/-- Every conversation keeps the table. -/
theorem askAll (ha : Answered h s) (qs : List Query) : Answered (h ++ (s.askAll qs).1) (s.askAll qs).2 := by
  induction qs generalizing h s with
  | nil => exact (List.append_nil h).symm ▸ ha
  | cons q qs ih =>
    have hrest := ih (ha.ask q)
    rwa [List.append_assoc] at hrest

/-- A store of which nothing was asked. -/
theorem start : Answered [] {} where
  entry _ := rfl
  agrees := nofun
  keys := List.nodup_nil
  recorded := Recorded.start

end Answered

/-! ## What the table promises -/

/-- Only a request or a pin of a declaration changes its entry. -/
theorem lookup?_ask {s : Store} {q : Query} {decl : DeclId} (hq : q.decl? ≠ some decl) :
    (s.ask q).2.resolutions.lookup? decl = s.resolutions.lookup? decl := by
  cases q with
  | on op =>
    cases op with
    | alloc | reserve => rfl
    | fill id m =>
      simp only [ask, step]
      cases s.arena.fill id m <;> rfl
    | request d kind =>
      have hne : decl ≠ d := fun heq => hq (congrArg some heq.symm)
      cases hfound : s.resolutions.lookup? d with
      | none => simp only [ask, step, Resolutions.reserve_of_open hfound, Resolutions.lookup?_insert, if_neg hne]
      | some => simp only [ask, step, Resolutions.reserve_of_settled hfound]
  | pin d fallback =>
    have hne : decl ≠ d := fun heq => hq (congrArg some heq.symm)
    cases hfound : s.resolutions.lookup? d with
    | none => simp only [ask, Resolutions.pin_of_open hfound, Resolutions.lookup?_insert, if_neg hne]
    | some => simp only [ask, Resolutions.pin_of_settled hfound]
  | lookup => rfl

/-- A store answers every question about the declaration with the resolution, and stays as it is. -/
structure Holds (s : Store) (decl : DeclId) (r : Resolution) : Prop where
  lookup : s.ask (.lookup decl) = (.lookup decl (some r), s)
  pin (fallback : EntityId) : s.ask (.pin decl fallback) = (.pin decl fallback r, s)
  request (kind : DeclKind) : s.ask (.on (.request decl kind)) = (.on (.request decl kind (.existing r)), s)

theorem holds_of_lookup? {s : Store} {decl : DeclId} {r : Resolution} (hr : s.resolutions.lookup? decl = some r) :
    s.Holds decl r where
  lookup := by rw [ask, hr]
  pin fallback := by simp only [ask, Resolutions.pin_of_settled hr]
  request kind := by simp only [ask, step, Resolutions.reserve_of_settled hr]

/-- What is settled stays settled. -/
theorem lookup?_ask_of_settled {s : Store} {decl : DeclId} {r : Resolution}
    (hr : s.resolutions.lookup? decl = some r) (q : Query) : (s.ask q).2.resolutions.lookup? decl = some r := by
  by_cases hq : q.decl? = some decl
  · -- The question is about the declaration itself, and leaves the store as it is.
    have hholds := holds_of_lookup? hr
    cases q with
    | on op =>
      cases op with
      | request d kind =>
        cases hq
        rw [hholds.request, hr]
      | _ => cases hq
    | pin d fallback =>
      cases hq
      rw [hholds.pin, hr]
    | lookup d => exact hr
  · rw [lookup?_ask hq, hr]

theorem lookup?_askAll {s : Store} {decl : DeclId} {r : Resolution} (hr : s.resolutions.lookup? decl = some r)
    (qs : List Query) : (s.askAll qs).2.resolutions.lookup? decl = some r := by
  induction qs generalizing s with
  | nil => exact hr
  | cons q qs ih => exact ih (lookup?_ask_of_settled hr q)

/-- What the table of declarations promises after a history, about the next questions. -/
structure SettlesOnce (h : List Reply) (s : Store) : Prop where
  /-- The table holds what the first request or pin answered. -/
  entry (decl : DeclId) : s.resolutions.lookup? decl = settled h decl
  /-- Every request and every pin of a declaration was answered as the first. -/
  agrees {r : Reply} {decl : DeclId} {answer : Resolution} : r ∈ h → r.settled? = some (decl, answer) →
    settled h decl = some answer
  /-- The first request reserves one slot. -/
  request {decl : DeclId} (kind : DeclKind) : settled h decl = none →
    s.ask (.on (.request decl kind)) =
      (.on (.request decl kind (.fresh s.arena.nextId)),
        { arena := ⟨s.arena.slots.push none⟩,
          resolutions := s.resolutions.insert decl ⟨s.arena.nextId, some kind⟩ })
  /-- The first pin leaves the arena. -/
  pin {decl : DeclId} (fallback : EntityId) : settled h decl = none →
    s.ask (.pin decl fallback) =
      (.pin decl fallback ⟨fallback, none⟩, { s with resolutions := s.resolutions.insert decl ⟨fallback, none⟩ })
  /-- What is settled answers every later question, whatever is asked in between. -/
  keeps {decl : DeclId} {r : Resolution} (qs : List Query) : settled h decl = some r → (s.askAll qs).2.Holds decl r
  others {decl : DeclId} (q : Query) : q.decl? ≠ some decl →
    (s.ask q).2.resolutions.lookup? decl = s.resolutions.lookup? decl
  distinct : ((reserved h).map (·.2)).Nodup
  entities (decl : DeclId) : s.resolutions.entities.lookup decl = (settled h decl).map (·.entity)
  /-- Declarations that slots were reserved for have their own. -/
  injective {d d' : DeclId} {m : EntityId} : (∃ slot, (d, slot) ∈ reserved h) → (∃ slot, (d', slot) ∈ reserved h) →
    s.resolutions.entities.lookup d = some m → s.resolutions.entities.lookup d' = some m → d = d'

namespace Answered

variable {h : List Reply} {s : Store}

theorem reserved_nodup (ha : Answered h s) : ((reserved h).map (·.2)).Nodup := by
  refine (reserved_sublist_issued _).nodup ?_
  rw [ha.recorded.issued]
  exact List.nodup_range.map fun i j hij => congrArg EntityId.index hij

theorem lookup_entities (ha : Answered h s) (decl : DeclId) :
    s.resolutions.entities.lookup decl = (settled h decl).map (·.entity) := by
  rw [Resolutions.lookup_entities ha.keys, ha.entry]

/-- The entity of a declaration that a slot was reserved for is the slot. -/
theorem mem_reserved (ha : Answered h s) {d : DeclId} {m : EntityId} (hd : ∃ slot, (d, slot) ∈ reserved h)
    (hm : s.resolutions.entities.lookup d = some m) : (d, m) ∈ reserved h := by
  obtain ⟨slot, hslot⟩ := hd
  obtain ⟨r, hr, kind, hanswer⟩ := exists_reply_of_reserved hslot
  rw [ha.lookup_entities, ha.agrees hr hanswer] at hm
  cases hm
  exact hslot

/-- What the answers tell is all that the promises need. -/
theorem settlesOnce (ha : Answered h s) : SettlesOnce h s := by
  constructor
  case entry => exact ha.entry
  case agrees => exact ha.agrees
  case request =>
    intro decl kind hopen
    have hfound := (ha.entry decl).trans hopen
    simp only [Store.ask, Store.step, Resolutions.reserve_of_open hfound]
    rfl
  case pin =>
    intro decl fallback hopen
    have hfound := (ha.entry decl).trans hopen
    simp only [Store.ask, Resolutions.pin_of_open hfound]
  case keeps => exact fun qs hr => holds_of_lookup? (lookup?_askAll ((ha.entry _).trans hr) qs)
  case others => exact fun _ => lookup?_ask
  case distinct => exact ha.reserved_nodup
  case entities => exact ha.lookup_entities
  case injective =>
    intro d d' m hd hd' hm hm'
    have hpair := List.inj_on_of_nodup_map ha.reserved_nodup (ha.mem_reserved hd hm) (ha.mem_reserved hd' hm') rfl
    exact congrArg Prod.fst hpair

end Answered

/-- Whatever is asked of an empty store, the table of declarations keeps its promises after every question. -/
theorem askAll_settlesOnce (qs : List Query) : SettlesOnce (askAll {} qs).1 (askAll {} qs).2 :=
  (Answered.start.askAll qs).settlesOnce

/-- A pin after a request answers with the slot, and a request after a pin with the fallback. -/
example : (askAll {} [.on (.request ⟨1⟩ .function), .pin ⟨1⟩ ⟨9⟩, .pin ⟨2⟩ ⟨9⟩, .on (.request ⟨2⟩ .method)]).1 =
    [.on (.request ⟨1⟩ .function (.fresh ⟨0⟩)), .pin ⟨1⟩ ⟨9⟩ ⟨⟨0⟩, some .function⟩, .pin ⟨2⟩ ⟨9⟩ ⟨⟨9⟩, none⟩,
      .on (.request ⟨2⟩ .method (.existing ⟨⟨9⟩, none⟩))] := rfl

end Store

end EntityGraph

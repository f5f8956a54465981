import Mathlib.Data.Set.List
import EntityGraph.Proofs.Pass

/-!
# Finished graphs

Every document resolves: a pass ends without a breach, and the arena that it leaves freezes (`Graph.exists_endsIn`). So
`Graph.ofJson` fails for exactly the values that are no document (`Graph.ofJson_fails_exactly`).

A finished graph says what the last state of its pass says: its entities are those of the arena (`Graph.EndsIn.get?`),
its declarations those that are settled (`Graph.EndsIn.entityOf?`), and what the state ensures holds of the graph
(`Graph.EndsIn.ensured`).
-/

namespace EntityGraph.Graph

open Build (State Reaches pass_reaches)

variable {root : Json} {o : Options} {g : Graph} {t : State}

/-- `g` is what the state `t` holds, in which a pass over a document ends. -/
structure EndsIn (g : Graph) (root : Json) (o : Options) (t : State) : Prop where
  coherent : t.Coherent root o []
  grown : (State.start root).Grows t
  modules : t.Ensures root o fun w => w.ModulesOf root g.modules
  entities : t.arena.slots.toList = g.entities.toList.map some
  declarations : g.declarations = t.resolutions.entities
  diagnostics : g.diagnostics = t.diagnostics.toList
  references : g.references = t.references.reverse
  begun : g.begun = t.begun.reverse
  options : g.options = o

/-- No type expression was cut off at the greatest depth. -/
def Uncut (g : Graph) : Prop := ∀ depth, Diagnostic.typeDepthExceeded depth ∉ g.diagnostics

/-! ## Every document resolves -/

/-- An arena without an empty slot freezes. -/
theorem exists_freeze {a : Arena} (h : ∀ m, a.get? m ≠ some none) : ∃ es, a.freeze = .ok es := by
  have hsome : a.slots.toList ∈ Set.range (List.map (some : Entity → Option Entity)) := by
    rw [Set.range_list_map]
    intro x hx
    obtain ⟨i, hi⟩ := List.mem_iff_getElem?.mp hx
    cases x with
    | some e => exact ⟨e, rfl⟩
    | none =>
      rw [Array.getElem?_toList] at hi
      exact absurd hi (h ⟨i⟩)
  obtain ⟨es, hes⟩ := hsome
  exact ⟨es, Arena.freeze_eq_ok_iff.mpr hes.symm⟩

/-- A document is resolved by a pass that starts with the findings of its index. -/
theorem resolve_eq (root : Json) (o : Options) :
    resolve root o = (Build.pass root (.ofRoot root o) (.start root)).bind fun p => ofPass o p.1 p.2 := rfl

/-- A pass over a document ends with nothing waiting, and the graph of its last state is what the document resolves
to. -/
theorem exists_pass (root : Json) (o : Options) : ∃ g ids t,
    Build.pass root (.ofRoot root o) (.start root) = .ok (ids, t) ∧ t.waiting = [] ∧ resolve root o = .ok g ∧
      g.EndsIn root o t := by
  obtain ⟨ids, t, hrun, hst, ht, hwaiting, hids⟩ := pass_reaches root o
  have hfilled : ∀ m, t.arena.get? m ≠ some none := by
    intro m hm
    have hmem := ht.vacant.mp hm
    rw [hwaiting] at hmem
    cases hmem
  obtain ⟨es, hes⟩ := exists_freeze hfilled
  let g : Graph := {
    entities := es.toArray, modules := ids, declarations := t.resolutions.entities
    diagnostics := t.diagnostics.toList, references := t.references.reverse, begun := t.begun.reverse, options := o }
  refine ⟨g, ids, t, hrun, hwaiting, ?_, ht, hst.toGrows, hids, Arena.freeze_eq_ok_iff.mp hes, rfl, rfl, rfl, rfl, rfl⟩
  rw [resolve_eq, hrun]
  show t.arena.freeze.bind _ = _
  rw [hes]
  rfl

/-- The resolution of a document succeeds, whatever the document holds. -/
theorem exists_endsIn (root : Json) (o : Options) : ∃ g t, resolve root o = .ok g ∧ g.EndsIn root o t := by
  obtain ⟨g, _, t, _, _, hg, ht⟩ := exists_pass root o
  exact ⟨g, t, hg, ht⟩

theorem holds_no_list_iff {key : String} : (root.has key && (root.listAt? key).isNone) = true ↔
    ∃ c, root.get? key = some c ∧ c.array? = none := by
  rw [Json.has, Json.listAt?]
  cases root.get? key with
  | none => simp
  | some c => simp

theorem rootFault?_eq_some_iff {f : Failure} :
    rootFault? root = some f ↔
      (root.isObject = false ∧ f = .rootNotObject) ∨
        (root.isObject = true ∧ (∃ c, root.get? "children" = some c ∧ c.array? = none) ∧ f = .childrenNotArray) := by
  unfold rootFault?
  cases root.isObject with
  | false => simp [eq_comm]
  | true =>
    rw [Bool.not_true, if_neg Bool.false_ne_true]
    split
    · next h =>
      have hc := holds_no_list_iff.mp h
      refine ⟨fun hf => .inr ⟨rfl, hc, (Option.some.inj hf).symm⟩, ?_⟩
      rintro (⟨hf, _⟩ | ⟨_, _, rfl⟩)
      · cases hf
      · rfl
    · next h =>
      refine ⟨fun hf => (nomatch hf), ?_⟩
      rintro (⟨hf, _⟩ | ⟨_, hc, _⟩)
      · cases hf
      · exact absurd (holds_no_list_iff.mpr hc) h

theorem rootFault?_eq_none_iff :
    rootFault? root = none ↔ root.isObject = true ∧ ¬ ∃ c, root.get? "children" = some c ∧ c.array? = none := by
  rw [← holds_no_list_iff]
  unfold rootFault?
  cases root.isObject with
  | false => simp
  | true =>
    rw [Bool.not_true, if_neg Bool.false_ne_true]
    split
    · next h => simp [h]
    · next h => exact ⟨fun _ => ⟨rfl, h⟩, fun _ => rfl⟩

theorem ofJson_eq_ok_iff : ofJson root o = .ok g ↔ rootFault? root = none ∧ resolve root o = .ok g := by
  unfold ofJson
  cases rootFault? root with
  | some f => simp
  | none => cases resolve root o <;> simp [Except.mapError]

theorem exists_ofJson (h : rootFault? root = none) (o : Options) : ∃ g, ofJson root o = .ok g := by
  obtain ⟨g, _, hg, _⟩ := exists_endsIn root o
  exact ⟨g, ofJson_eq_ok_iff.mpr ⟨h, hg⟩⟩

/-- A value resolves unless it is no object or holds children that are no array; these failures are the only ones, and
the resolution itself never breaches how entities are reserved. -/
theorem ofJson_fails_exactly (root : Json) (o : Options) :
    (∀ f, ofJson root o = .error f ↔
      (root.isObject = false ∧ f = .rootNotObject) ∨
        (root.isObject = true ∧ (∃ c, root.get? "children" = some c ∧ c.array? = none) ∧ f = .childrenNotArray)) ∧
    ((∃ g, ofJson root o = .ok g) ↔
      root.isObject = true ∧ ¬ ∃ c, root.get? "children" = some c ∧ c.array? = none) ∧
    ∀ breach, resolve root o ≠ .error breach := by
  obtain ⟨g, t, hg, _⟩ := exists_endsIn root o
  refine ⟨fun f => ?_, ?_, fun breach h => ?_⟩
  · rw [← rootFault?_eq_some_iff]
    unfold ofJson
    split
    · next fault hfault => rw [hfault, Except.error.injEq, Option.some.injEq]
    · next hfault => simp [hfault, hg, Except.mapError]
  · rw [← rootFault?_eq_none_iff]
    exact ⟨fun ⟨g, hg⟩ => (ofJson_eq_ok_iff.mp hg).1, fun hfault => exists_ofJson hfault o⟩
  · rw [hg] at h
    cases h

/-! ## What a finished graph says -/

/-- The graph of a document comes from a pass over it. -/
theorem exists_pass_of_ofJson (h : ofJson root o = .ok g) : ∃ ids t,
    Build.pass root (.ofRoot root o) (.start root) = .ok (ids, t) ∧ t.waiting = [] ∧ g.EndsIn root o t := by
  obtain ⟨g', ids, t, hpass, hwaiting, hg', ht⟩ := exists_pass root o
  have hg := (ofJson_eq_ok_iff.mp h).2
  rw [hg'] at hg
  cases hg
  exact ⟨ids, t, hpass, hwaiting, ht⟩

theorem endsIn_of_ofJson (h : ofJson root o = .ok g) : ∃ t, g.EndsIn root o t := by
  obtain ⟨_, t, _, _, ht⟩ := exists_pass_of_ofJson h
  exact ⟨t, ht⟩

namespace EndsIn

theorem get? (h : g.EndsIn root o t) (m : EntityId) : g.get? m = (t.arena.get? m).join := by
  rw [Graph.get?, Arena.get?, ← Array.getElem?_toList, ← Array.getElem?_toList, h.entities, List.getElem?_map]
  cases g.entities.toList[m.index]? with
  | none => rfl
  | some e => rfl

theorem get?_eq_some_iff (h : g.EndsIn root o t) {m : EntityId} {e : Entity} :
    g.get? m = some e ↔ t.arena.get? m = some (some e) := by
  rw [h.get?, Option.join_eq_some_iff]

theorem entityOf? (h : g.EndsIn root o t) (d : DeclId) :
    g.entityOf? d = (t.resolutions.lookup? d).map (·.entity) := by
  rw [Graph.entityOf?, h.declarations]
  exact Resolutions.lookup_entities h.coherent.once d

theorem size_eq (h : g.EndsIn root o t) : g.size = t.arena.slots.size := by
  have hlength := congrArg List.length h.entities
  rw [List.length_map] at hlength
  exact hlength.symm

/-- The declarations of a graph are those that are settled, the first settled first. -/
theorem map_declarations (h : g.EndsIn root o t) :
    g.declarations.map (·.1) = (t.resolutions.entries.map (·.1)).reverse := by
  rw [h.declarations, Resolutions.entities, List.map_reverse, List.map_map]
  rfl

theorem nodup_declarations (h : g.EndsIn root o t) : (g.declarations.map (·.1)).Nodup := by
  rw [h.map_declarations]
  exact (List.reverse_perm _).nodup_iff.mpr h.coherent.once

theorem mem_declarations_iff (h : g.EndsIn root o t) {d : DeclId} {m : EntityId} :
    (d, m) ∈ g.declarations ↔ g.entityOf? d = some m :=
  (lookup_eq_some_iff_of_nodup h.nodup_declarations).symm

theorem mem_map_declarations_iff (h : g.EndsIn root o t) (d : DeclId) :
    d ∈ g.declarations.map (·.1) ↔ ∃ m, g.entityOf? d = some m := by
  rw [List.mem_map]
  constructor
  · rintro ⟨⟨d, m⟩, hm, rfl⟩
    exact ⟨m, h.mem_declarations_iff.mp hm⟩
  · rintro ⟨m, hm⟩
    exact ⟨(d, m), h.mem_declarations_iff.mpr hm, rfl⟩

/-- No slot of a finished pass is empty. -/
theorem filled (h : g.EndsIn root o t) (m : EntityId) : t.arena.get? m ≠ some none := by
  rw [Arena.get?, ← Array.getElem?_toList, h.entities, List.getElem?_map]
  cases g.entities.toList[m.index]? with
  | none => exact fun hm => by cases hm
  | some e => exact fun hm => by cases hm

/-- The unknown type has its place in every graph. -/
theorem get?_unknown (h : g.EndsIn root o t) : g.get? Builtin.unknown = some (.unknown "unknown") :=
  h.get?_eq_some_iff.mpr (h.grown.filled rfl)

/-- What is settled at the end is settled for the graph. -/
theorem resolution? (h : g.EndsIn root o t) {d : DeclId} {r : Resolution} (hr : t.resolutions.lookup? d = some r) :
    g.view.resolution? d = some r := by
  have hentity : g.view.resolution? d = some ⟨r.entity, (g.get? r.entity).bind Entity.declKind?⟩ := by
    show (g.entityOf? d).map _ = _
    rw [h.entityOf?, hr]
    rfl
  rw [hentity]
  cases h.coherent.settled hr with
  | pinned =>
    rw [h.get?_unknown]
    rfl
  | entered _ _ _ hslot =>
    rcases hslot with hm | ⟨e, hm, hshow⟩
    · exact absurd hm (h.filled _)
    · rw [h.get?_eq_some_iff.mpr hm, Option.bind_some, hshow.now.stamp.2]

theorem view_le (h : g.EndsIn root o t) : t.view root o ≤ g.view where
  options := h.options
  entity he := (h.get? _).trans he
  resolution := h.resolution?
  absent {d} hd := by
    show g.entityOf? d = none
    rw [h.entityOf?]
    cases hr : t.resolutions.lookup? d with
    | none => rfl
    | some r => exact absurd (h.coherent.settled hr).carriedIn hd

/-- What the last state ensures holds of the graph. -/
theorem ensured (h : g.EndsIn root o t) {Q : View → Prop} (hQ : t.Ensures root o Q) : Q g.view := hQ _ h.view_le

/-- An entity that bears an id is the one that is settled for the id, and shows a node with this id. -/
theorem declared (h : g.EndsIn root o t) {m : EntityId} {e : Entity} {d : DeclId} (hm : g.get? m = some e)
    (hid : e.declId? = some d) :
    ∃ (n : Node) (position : Position) (kind : DeclKind) (depth : Nat),
      n.StandsIn root ∧ n.id = d ∧ n.entityKind? position = some kind ∧ TypeExpr.Nested root depth n.value ∧
        g.view.Shows depth n kind e ∧ t.resolutions.lookup? d = some ⟨m, some kind⟩ := by
  rw [h.get?_eq_some_iff] at hm
  obtain ⟨kind, hr⟩ := h.coherent.owned hm hid
  cases h.coherent.settled hr with
  | entered hn hdepth hk hslot =>
    refine ⟨_, _, kind, _, hn, rfl, hk, hdepth, ?_, hr⟩
    rcases hslot with hempty | ⟨e', he', hshow⟩
    · rw [hm] at hempty
      cases hempty
    · rw [hm] at he'
      cases he'
      exact h.ensured hshow

/-- An entity that bears no id is built in or stands for a type expression. -/
theorem undeclared (h : g.EndsIn root o t) {m : EntityId} {e : Entity} (hm : g.get? m = some e)
    (hid : e.declId? = none) :
    Builtin.entities[m.index]? = some e ∨ ∃ depth v, TypeExpr.Nested root depth v ∧ g.view.Denotes depth v m := by
  rw [h.get?_eq_some_iff] at hm
  rcases h.coherent.typed hm hid with he | ⟨depth, v, hv, hd⟩
  · exact .inl he
  · exact .inr ⟨depth, v, hv, h.ensured hd⟩

/-- What is settled for an id is the unknown type, for a node that is not recognized, or an entity that bears the id. -/
theorem settled (h : g.EndsIn root o t) {d : DeclId} {r : Resolution} (hr : t.resolutions.lookup? d = some r) :
    (r.entity = Builtin.unknown ∧ ∃ (n : Node) (position : Position),
      n.StandsIn root ∧ n.id = d ∧ n.entityKind? position = none ∧
        Diagnostic.unrecognizedDeclaration (some d) (some n.kindString) ∈ g.diagnostics) ∨
    ∃ e, g.get? r.entity = some e ∧ e.declId? = some d := by
  cases h.coherent.settled hr with
  | pinned hn hk hx =>
    refine .inl ⟨rfl, _, _, hn, rfl, hk, ?_⟩
    rw [h.diagnostics]
    exact Array.mem_toList_iff.mpr hx
  | entered _ _ _ hslot =>
    rcases hslot with hm | ⟨e, hm, hshow⟩
    · exact absurd hm (h.filled _)
    · exact .inr ⟨e, h.get?_eq_some_iff.mpr hm, hshow.now.stamp.1⟩

end EndsIn

end EntityGraph.Graph

import EntityGraph.Proofs.Nesting
import EntityGraph.Proofs.Plays

/-!
# Where types are cut off

Every type expression around a value is an array or object that is open at the value, and so is the document. So a value
that stands inside as many type expressions as the greatest depth shows that the document is nested deeper than that
(`Build.Act.Bounded`, for what scripts ask for). References do not add to the depth, for what they reach waits and is
resumed outside of all type expressions (`Build.Step.bounded`). So whatever references there are, nothing is cut off in
a document that is nested no deeper than the greatest depth (`Graph.cutsByNesting_of_ofJson`).
-/

namespace EntityGraph

theorem Json.Within.nesting_le {v root : Json} (h : v.Within root) : v.nesting ≤ root.nesting := by
  rcases h with rfl | h
  · exact Nat.le_refl _
  · exact Nat.le_of_lt h.nesting_lt

namespace Build

variable {root : Json} {o : Options} {s t : State} {w w' : Work} {a : Act} {more : List Task} {depth : Nat}

/-- What is cut off is cut off at the greatest depth, which is less than the nesting of the document; and a declaration
is asked for no deeper inside type expressions than its own nesting leaves room for. -/
def Act.Bounded (root : Json) (o : Options) : Act → Prop
  | .report x => ∀ depth, x = .typeDepthExceeded depth → depth = o.maxTypeDepth ∧ depth < root.nesting
  | .declare depth _ v => depth ≤ o.maxTypeDepth ∧ depth + v.nesting ≤ root.nesting
  | .follow _ | .store => True

/-- All acts of a script are bounded. -/
def BoundedScript (root : Json) (o : Options) (script : List Act) : Prop := ∀ a ∈ script, a.Bounded root o

/-! ## Scripts -/

/-- A value inside a node is nested less than the node, which makes up for the levels of type expressions. -/
theorem bounded_pervades (root : Json) (o : Options) :
    Pervades o (fun depth v => depth ≤ o.maxTypeDepth ∧ depth + v.nesting ≤ root.nesting)
      (fun depth v => depth ≤ o.maxTypeDepth ∧ depth + v.nesting < root.nesting) (Act.Bounded root o) where
  inside hv inside := by
    have := inside.nesting_lt
    exact ⟨hv.1, by omega⟩
  deeper hv hlt inside := by
    have := inside.nesting_lt
    exact ⟨hlt, by omega⟩
  cut hv hle := by
    intro k hk
    cases hk
    omega
  report hx := fun k hk => absurd hk (hx k)
  store := trivial
  follow _ := trivial
  member _ hn hv := by
    have := (Node.inside_children hv).nesting_lt
    exact ⟨hn.1, by omega⟩
  reflected {depth v w} _ hv hlt hw := by
    have hpart : w ∈ (TypeExpr.ofJson v).parts := hw ▸ List.mem_cons_self
    have := (TypeExpr.inside_of_mem_parts hpart).nesting_lt
    exact ⟨hlt, by omega⟩

/-- The script of a node that leaves room for its nesting is bounded. -/
theorem bounded_script {n : Node} (hdepth : depth ≤ o.maxTypeDepth) (hn : depth + n.value.nesting ≤ root.nesting)
    (kind : DeclKind) (position : Position) : BoundedScript root o (n.script o depth kind position) :=
  (bounded_pervades root o).script ⟨hdepth, hn⟩ kind position

theorem bounded_rootScript (root : Json) (o : Options) : BoundedScript root o (root.script o) := by
  refine EveryAct.map fun v hv => ⟨Nat.zero_le _, ?_⟩
  have := (Json.inside_of_mem_listAt (List.mem_filter.mp hv).1).nesting_lt
  omega

/-! ## Runs -/

/-- What is on the agenda is bounded, what waits is in the document, and what was cut off was cut off at the greatest
depth, which is less than the nesting of the document. -/
structure Work.Bounded (root : Json) (o : Options) (w : Work) : Prop where
  agenda {a : Act} : .act a ∈ w.agenda → a.Bounded root o
  waits {p : Waiting} : p ∈ w.state.waiting → p.Recognized root
  cuts {depth : Nat} : .typeDepthExceeded depth ∈ w.state.diagnostics → depth = o.maxTypeDepth ∧ depth < root.nesting

theorem bounded_tasks {p : Waiting} (hdepth : depth ≤ o.maxTypeDepth) (hp : depth + p.node.value.nesting ≤ root.nesting)
    (ha : .act a ∈ tasks o depth p) : a.Bounded root o :=
  bounded_script hdepth hp _ _ a (mem_script_of_mem_tasks ha)

/-- What an act puts on the agenda is bounded. -/
theorem Does.bounded (h : Does root o a s more t) (ha : a.Bounded root o) {b : Act} (hb : .act b ∈ more) :
    b.Bounded root o := by
  cases h with
  | enter hn hv =>
    have hvalue := Node.value_of_ofJson? hv
    exact bounded_tasks ha.1 (hvalue ▸ ha.2) hb
  | _ => cases hb

/-- An act cuts off nothing but what it says. -/
theorem Does.cuts (h : Does root o a s more t) (ha : a.Bounded root o) {k : Nat}
    (hk : .typeDepthExceeded k ∈ t.diagnostics) :
    .typeDepthExceeded k ∈ s.diagnostics ∨ (k = o.maxTypeDepth ∧ k < root.nesting) := by
  cases h with
  | report _ x =>
    rcases Array.mem_push.mp hk with hk | hk
    · exact .inl hk
    · exact .inr (ha k hk.symm)
  | unreadable | missing | pin =>
    rcases Array.mem_push.mp hk with hk | hk
    · exact .inl hk
    · cases hk
  | store | known | enter | wait => exact .inl hk

theorem Step.bounded (h : Step root o w w') (hw : w.Bounded root o) : w'.Bounded root o := by
  have hwaits := h.recognized fun _ => hw.waits
  cases h with
  | act rest h =>
    have ha := hw.agenda List.mem_cons_self
    constructor
    case agenda =>
      intro b hb
      rcases List.mem_append.mp hb with hb | hb
      · exact h.bounded ha hb
      · exact hw.agenda (List.mem_cons_of_mem _ hb)
    case waits => exact fun hp => hwaits _ hp
    case cuts =>
      intro k hk
      rcases h.cuts ha hk with hk | hk
      · exact hw.cuts hk
      · exact hk
  | fill => exact ⟨fun hb => hw.agenda (List.mem_cons_of_mem _ hb), hw.waits, hw.cuts⟩
  | resume rest hps =>
    refine ⟨?_, fun hp => hwaits _ hp, hw.cuts⟩
    intro b hb
    rcases List.mem_append.mp hb with hb | hb
    · -- What waited is resumed outside of all type expressions, wherever it was asked for.
      have hp := hw.waits (hps ▸ List.mem_cons_self)
      have hnesting := hp.1.2.nesting_le
      apply bounded_tasks (Nat.zero_le _) ?_ hb
      omega
    · exact hw.agenda hb
  | refer => exact ⟨hw.agenda, hw.waits, hw.cuts⟩

theorem Steps.bounded (h : Steps root o w w') (hw : w.Bounded root o) : w'.Bounded root o := by
  induction h with
  | refl => exact hw
  | tail _ hstep ih => exact hstep.bounded ih

/-- A run from the start cuts off at the greatest depth, and only in a document that is nested deeper. -/
theorem Performs.cuts (h : Performs root o (root.script o) (.start root) t) {k : Nat}
    (hk : .typeDepthExceeded k ∈ t.diagnostics) : k = o.maxTypeDepth ∧ k < root.nesting := by
  have hstart : Work.Bounded root o ⟨(root.script o).map .act, .start root⟩ := by
    constructor
    case agenda => exact fun ha => bounded_rootScript root o _ (mem_of_mem_map_act ha)
    case waits => exact fun hp => nomatch hp
    case cuts =>
      intro k hk
      obtain ⟨_, heq⟩ := Index.duplicate_of_mem_found hk
      cases heq
  exact (Steps.bounded h hstart).cuts hk

end Build

namespace Graph

variable {root : Json} {o : Options} {g : Graph}

/-- The greatest depth that is the default is more than any text is nested. -/
theorem maxNesting_le_maxTypeDepth : Json.maxNesting ≤ ({} : Options).maxTypeDepth := by decide

/-- What is cut off in a document, whatever its references are. -/
structure CutsByNesting (g : Graph) (root : Json) (o : Options) : Prop where
  /-- Only at the greatest depth is a type expression cut off. -/
  depth {depth : Nat} : .typeDepthExceeded depth ∈ g.diagnostics → depth = o.maxTypeDepth
  /-- Nothing is cut off where no more arrays and objects are open at once than the greatest depth. -/
  uncut : root.nesting ≤ o.maxTypeDepth → g.Uncut
  /-- Nothing is cut off with the default depth in a document that is nested as a text can be. -/
  uncut_of_maxNesting : root.nesting ≤ Json.maxNesting → o.maxTypeDepth = ({} : Options).maxTypeDepth → g.Uncut
  /-- So nothing is cut off with the default depth in a document that is written as text. -/
  uncut_of_text {text : String} : Json.ofText text = .ok root → o.maxTypeDepth = ({} : Options).maxTypeDepth → g.Uncut

/-- What is cut off is cut off at the greatest depth, and only in a document that is nested deeper. -/
theorem cut_of_ofJson (h : ofJson root o = .ok g) {k : Nat} (hk : .typeDepthExceeded k ∈ g.diagnostics) :
    k = o.maxTypeDepth ∧ k < root.nesting := by
  obtain ⟨t, ht, _, hrun⟩ := exists_run h
  rw [ht.diagnostics] at hk
  exact hrun.cuts (Array.mem_toList_iff.mp hk)

/-- References never use up the depth for type expressions. -/
theorem cutsByNesting_of_ofJson (h : ofJson root o = .ok g) : g.CutsByNesting root o := by
  have uncut (hnesting : root.nesting ≤ o.maxTypeDepth) : g.Uncut := by
    intro k hk
    have := cut_of_ofJson h hk
    omega
  have uncut_of_maxNesting (hnesting : root.nesting ≤ Json.maxNesting)
      (ho : o.maxTypeDepth = ({} : Options).maxTypeDepth) : g.Uncut := by
    apply uncut
    rw [ho]
    exact Nat.le_trans hnesting maxNesting_le_maxTypeDepth
  exact {
    depth := fun hk => (cut_of_ofJson h hk).1
    uncut := uncut
    uncut_of_maxNesting := uncut_of_maxNesting
    uncut_of_text := fun htext => uncut_of_maxNesting (Json.nesting_of_ofText htext) }

/-- Aliases of each other, the last of the first. -/
def aliasRing (size : Nat) : Json :=
  .obj [("children", .arr ((List.range size).map fun i =>
    let next := (i + 1) % size
    nodeWith (i + 1) .typeAlias "Next" [("type", .obj [("type", .str "reference"), ("id", .ofNat (next + 1))])]))]

/-- Six aliases in a ring are nested in four arrays and objects. -/
theorem cutsByNesting_aliasRing : ∃ g, ofJson (aliasRing 6) { maxTypeDepth := 4 } = .ok g ∧
    (aliasRing 6).nesting = 4 ∧ g.CutsByNesting (aliasRing 6) { maxTypeDepth := 4 } ∧ g.Uncut := by
  have hnesting : (aliasRing 6).nesting = 4 := by decide +kernel
  obtain ⟨g, hg⟩ := exists_ofJson (rfl : rootFault? (aliasRing 6) = none) { maxTypeDepth := 4 }
  have hcuts := cutsByNesting_of_ofJson hg
  exact ⟨g, hg, hnesting, hcuts, hcuts.uncut (Nat.le_of_eq hnesting)⟩

end Graph

end EntityGraph

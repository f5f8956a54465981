import Mathlib.Data.List.Basic
import EntityGraph.Proofs.Indexing
import EntityGraph.Proofs.Nesting
import EntityGraph.Proofs.Plays

/-!
# The walk over a document

The scan that makes an index works on a stack, but what it takes into account is the document in preorder. A path says
where a value stands: `Json.at?` follows it, and `Json.paths` lists all paths of a document, each once
(`Json.mem_paths_iff`) and in lexicographic order (`Json.pairwise_paths`): a value before its parts, the parts in the
order in which they stand, which for the fields of a document that is read is the order of their keys
(`Json.pairwise_fields`). The values at these paths are the preorder (`Json.map_at?_paths`).

So of several nodes with one id the index holds the first, and it finds each later one (`Index.walk`). The findings of
the index are the first of a graph, and a resolution makes no more of their kind (`Build.Performs.finds`).
-/

namespace EntityGraph

namespace Json

/-! ## Paths -/

/-- The value to which a path leads; a path says at each value to which of its parts it goes on. -/
def at? (v : Json) : List Nat → Option Json
  | [] => some v
  | i :: path => v.parts[i]?.bind fun part => part.at? path

/-- The paths in a value: the empty path first, then those through each part in order. -/
def paths (v : Json) : List (List Nat) :=
  [] :: v.parts.attach.zipIdx.flatMap fun p => (paths p.1.1).map (p.2 :: ·)
termination_by sizeOf v
decreasing_by exact sizeOf_lt_of_mem_parts p.1.2

theorem paths_eq (v : Json) : v.paths = [] :: v.parts.zipIdx.flatMap fun p => p.1.paths.map (p.2 :: ·) := by
  have hparts : v.parts.zipIdx = v.parts.attach.zipIdx.map (Prod.map Subtype.val id) := by
    rw [← List.zipIdx_map, List.attach_map_subtype_val]
  rw [paths, hparts, List.flatMap_map]
  rfl

/-- The paths of a value are those that lead somewhere. -/
theorem mem_paths_iff {path : List Nat} : ∀ {v : Json}, path ∈ v.paths ↔ (v.at? path).isSome := by
  induction path with
  | nil =>
    intro v
    rw [paths_eq]
    exact ⟨fun _ => rfl, fun _ => List.mem_cons_self⟩
  | cons i path ih =>
    intro v
    have hstep : i :: path ∈ v.paths ↔ ∃ part, v.parts[i]? = some part ∧ path ∈ part.paths := by
      rw [paths_eq]
      simp only [List.mem_cons, reduceCtorEq, false_or, List.mem_flatMap, List.mem_map, List.cons.injEq, Prod.exists,
        List.mem_zipIdx_iff_getElem?]
      constructor
      · rintro ⟨part, j, hpart, q, hq, rfl, rfl⟩
        exact ⟨part, hpart, hq⟩
      · rintro ⟨part, hpart, hq⟩
        exact ⟨part, i, hpart, path, hq, rfl, rfl⟩
    rw [hstep, at?]
    cases v.parts[i]? with
    | none => simp
    | some part => simp [ih]

/-- The paths of a value stand in lexicographic order, so each stands once. -/
theorem pairwise_paths (v : Json) : v.paths.Pairwise (· < ·) := by
  rw [paths_eq, List.pairwise_cons]
  refine ⟨fun path hpath => ?_, List.pairwise_flatMap.mpr ⟨?_, ?_⟩⟩
  · obtain ⟨p, _, hp⟩ := List.mem_flatMap.mp hpath
    obtain ⟨q, _, rfl⟩ := List.mem_map.mp hp
    exact List.nil_lt_cons _ _
  · intro p hp
    have hpart : p.1 ∈ v.parts := List.mem_of_getElem? (List.mem_zipIdx_iff_getElem?.mp hp)
    have := sizeOf_lt_of_mem_parts hpart
    refine List.pairwise_map.mpr ((pairwise_paths p.1).imp fun hlt => ?_)
    exact List.cons_lt_cons_iff.mpr (.inr ⟨rfl, hlt⟩)
  · have hplaces : (v.parts.zipIdx.map Prod.snd).Pairwise (· < ·) := by
      rw [List.zipIdx_map_snd]
      exact List.pairwise_lt_range' 1
    refine (List.pairwise_map.mp hplaces).imp fun hlt path hpath path' hpath' => ?_
    obtain ⟨q, _, rfl⟩ := List.mem_map.mp hpath
    obtain ⟨q', _, rfl⟩ := List.mem_map.mp hpath'
    exact List.cons_lt_cons_iff.mpr (.inl hlt)
termination_by sizeOf v

/-- The values to which the paths lead are the values in order. -/
theorem map_at?_paths (v : Json) : v.paths.map v.at? = v.preorder.map some := by
  have hpart {p : Json × Nat} (hp : p ∈ v.parts.zipIdx) :
      p.1.paths.map (fun path => v.at? (p.2 :: path)) = p.1.preorder.map some := by
    have hget : v.parts[p.2]? = some p.1 := List.mem_zipIdx_iff_getElem?.mp hp
    have := sizeOf_lt_of_mem_parts (List.mem_of_getElem? hget)
    simp only [at?, hget, Option.bind_some]
    exact map_at?_paths p.1
  rw [paths_eq, preorder_eq, List.map_cons, List.map_cons, List.map_flatMap, List.map_flatMap]
  congr 1
  calc v.parts.zipIdx.flatMap (fun p => (p.1.paths.map (p.2 :: ·)).map v.at?)
      = v.parts.zipIdx.flatMap (fun p => p.1.preorder.map some) := by
        refine List.flatMap_congr fun p hp => ?_
        rw [List.map_map]
        exact hpart hp
    _ = (v.parts.zipIdx.map Prod.fst).flatMap (fun w => w.preorder.map some) := by rw [List.flatMap_map]
    _ = v.parts.flatMap (fun w => w.preorder.map some) := by rw [List.zipIdx_map_fst]
termination_by sizeOf v

/-! ## Keys -/

theorem pairwise_putField {key : String} {value : Json} : ∀ {fields : List (String × Json)},
    (fields.map Prod.fst).Pairwise (· < ·) → ((putField key value fields).map Prod.fst).Pairwise (· < ·)
  | [], _ => List.pairwise_singleton _ _
  | (k, v) :: rest, h => by
    obtain ⟨hk, hrest⟩ := List.pairwise_cons.mp h
    unfold putField
    split
    · next hlt =>
      refine List.pairwise_cons.mpr ⟨fun k' hk' => ?_, h⟩
      rcases List.mem_cons.mp hk' with rfl | hk'
      · exact hlt
      · exact String.lt_trans hlt (hk k' hk')
    · split
      · next heq => exact List.pairwise_cons.mpr ⟨fun k' hk' => heq ▸ hk k' hk', hrest⟩
      · next hnot hne =>
        have hlt : k < key := by
          by_contra hle
          exact hne (String.le_antisymm (String.not_lt.mp hle) (String.not_lt.mp hnot))
        refine List.pairwise_cons.mpr ⟨fun k' hk' => ?_, pairwise_putField hrest⟩
        obtain ⟨field, hfield, rfl⟩ := List.mem_map.mp hk'
        rcases mem_putField hfield with rfl | hfield
        · exact hlt
        · exact hk _ (List.mem_map_of_mem hfield)

/-- The fields of a document in canonical form stand in the order of their keys. -/
theorem pairwise_fields {v : Json} {fields : List (String × Json)} (h : (obj fields).Within v.canonical) :
    (fields.map Prod.fst).Pairwise (· < ·) := by
  have put : ∀ (fields before : List (String × Json)), (before.map Prod.fst).Pairwise (· < ·) →
      ((fields.foldl (fun sorted field => putField field.1 field.2 sorted) before).map Prod.fst).Pairwise (· < ·) := by
    intro fields
    induction fields with
    | nil => exact fun _ hbefore => hbefore
    | cons field rest ih => exact fun before hbefore => ih _ (pairwise_putField hbefore)
  rcases h with heq | h
  · cases v with
    | obj fs =>
      rw [canonical, ofFields] at heq
      obtain rfl := obj.inj heq
      exact put _ [] List.Pairwise.nil
    | arr | null | bool | num | str => simp [canonical] at heq
  · obtain ⟨w, hw, hfields⟩ := h.exists_part
    obtain ⟨part, hpart, rfl⟩ := exists_part_of_mem_canonical hw
    have := sizeOf_lt_of_mem_parts hpart
    exact pairwise_fields hfields
termination_by sizeOf v

/-! ## Nodes that stand again -/

/-- The nodes of a document that carry the id of an earlier one, in order. -/
def laterNodes (root : Json) : List Node :=
  (root.nodes.zipIdx.filter fun p => p.1.id ∈ (root.nodes.take p.2).map Node.id).map Prod.fst

end Json

namespace Index

/-- What stands again is what is known or stands earlier. -/
theorem repeats_map (ns : List Node) : ∀ known : List DeclId, repeats known (ns.map Node.id) =
    (ns.zipIdx.filter fun p => p.1.id ∈ known ++ (ns.take p.2).map Node.id).map fun p => p.1.id := by
  induction ns with
  | nil => exact fun _ => rfl
  | cons n ns ih =>
    intro known
    -- Later nodes have one place more before them, at which `n` stands.
    have hrest (known' : List DeclId) (hknown : ∀ d, d ∈ known' ↔ d = n.id ∨ d ∈ known) :
        (((ns.zipIdx 1).filter fun p => p.1.id ∈ known ++ ((n :: ns).take p.2).map Node.id).map fun p => p.1.id) =
          repeats known' (ns.map Node.id) := by
      rw [ih, List.zipIdx_succ, List.filter_map, List.map_map]
      congr 1
      refine List.filter_congr fun p _ => ?_
      simp only [Function.comp_apply, List.take_succ_cons, List.map_cons, List.mem_append, List.mem_cons, hknown]
      grind
    rw [List.map_cons, repeats, List.zipIdx_cons]
    split
    · next hold =>
      rw [List.filter_cons_of_pos (by simp [hold]), List.map_cons, Nat.zero_add, hrest known fun d => ?_]
      exact ⟨.inr, fun h => h.elim (fun heq => heq ▸ hold) id⟩
    · next hnew =>
      rw [List.filter_cons_of_neg (by simp [hnew]), Nat.zero_add, hrest (n.id :: known) fun d => List.mem_cons]

/-- The findings of an index are the nodes that carry the id of an earlier one. -/
theorem found_eq_laterNodes (root : Json) :
    (ofJson root).found.toList = root.laterNodes.map fun n => .duplicateDeclarationId n.id := by
  rw [found_eq_repeats, repeats_map, Json.laterNodes, List.map_map, List.map_map]
  rfl

/-- An index is made by a walk over the document that takes each value into account once, in order. -/
structure Walk (root : Json) : Prop where
  /-- The stack of the scan gives the values of the document one after the other, from wherever the scan has come. -/
  scanned (s : Scan) : scan [root] s = root.preorder.foldl (fun s v => s.visit v) s
  /-- A value comes before its parts, and the parts in the order in which they stand. -/
  recursive {v : Json} : v.Within root → v.preorder = v :: v.parts.flatMap Json.preorder
  /-- In a document as it is read, the fields of an object stand in the order of their keys. -/
  keys {fields : List (String × Json)} : (Json.obj fields).Within root.canonical →
    (fields.map Prod.fst).Pairwise (· < ·)
  /-- Each place of the document is taken into account, and none twice. -/
  places : root.paths.map root.at? = root.preorder.map some
  place {path : List Nat} : path ∈ root.paths ↔ (root.at? path).isSome
  once : root.paths.Pairwise (· < ·)
  /-- The index holds the first node that carries an id, and no node for any other id. -/
  first (d : DeclId) : (ofJson root).index.lookup? d = root.nodes.find? fun n => n.id = d
  carried (d : DeclId) : ((ofJson root).index.lookup? d).isSome ↔ d.CarriedIn root
  /-- It finds each node that carries the id of an earlier one. -/
  found : (ofJson root).found.toList = root.laterNodes.map fun n => .duplicateDeclarationId n.id

theorem walk (root : Json) : Walk root where
  scanned s := by rw [scan_eq, List.flatMap_singleton]
  recursive {v} _ := Json.preorder_eq v
  keys := Json.pairwise_fields
  places := Json.map_at?_paths root
  place := Json.mem_paths_iff
  once := Json.pairwise_paths root
  first := lookup?_eq_find? root
  carried _ := isSome_lookup?_iff
  found := found_eq_laterNodes root

end Index

/-! ## The findings of a resolution -/

namespace Build

variable {root : Json} {o : Options} {s t : State} {w w' : Work} {a : Act} {more : List Task} {xs : List Diagnostic}

/-- The act does not find that an id stands again. -/
def Act.Fresh (a : Act) : Prop := ∀ d, a ≠ .report (.duplicateDeclarationId d)

theorem fresh_script (n : Node) (depth : Nat) (kind : DeclKind) (position : Position) :
    EveryAct Act.Fresh (n.script o depth kind position) := by
  intro a ha d heq
  subst heq
  cases Node.gives_of_mem_script _ ha with
  | finding _ hrepeat => exact hrepeat d rfl

/-- A run finds nothing but what the index has found (`xs`) and other things after it. -/
structure Work.Finds (xs : List Diagnostic) (w : Work) : Prop where
  agenda {a : Act} : .act a ∈ w.agenda → a.Fresh
  diagnostics : ∃ later, w.state.diagnostics.toList = xs ++ later ∧ ∀ d, .duplicateDeclarationId d ∉ later

theorem fresh_tasks {p : Waiting} {depth : Nat} (ha : .act a ∈ tasks o depth p) : a.Fresh :=
  fresh_script p.node depth p.kind p.position a (mem_script_of_mem_tasks ha)

/-- What an act finds. -/
theorem Does.finds (h : Does root o a s more t) (ha : a.Fresh) :
    ∃ later, t.diagnostics.toList = s.diagnostics.toList ++ later ∧ ∀ d, .duplicateDeclarationId d ∉ later := by
  have nothing : ∃ later, s.diagnostics.toList = s.diagnostics.toList ++ later ∧
      ∀ d, .duplicateDeclarationId d ∉ later := ⟨[], (List.append_nil _).symm, fun _ => List.not_mem_nil⟩
  have one {x : Diagnostic} (hx : ∀ d, x ≠ .duplicateDeclarationId d) :
      ∃ later, (s.diagnostics.push x).toList = s.diagnostics.toList ++ later ∧
        ∀ d, .duplicateDeclarationId d ∉ later :=
    ⟨[x], Array.toList_push, fun d hd => hx d (List.mem_singleton.mp hd).symm⟩
  cases h with
  | report _ x => exact one fun d heq => ha d (congrArg Act.report heq)
  | unreadable | missing | pin => exact one fun _ => nofun
  | store | known | enter | wait => exact nothing

theorem Step.finds (h : Step root o w w') (hw : w.Finds xs) : w'.Finds xs := by
  cases h with
  | act rest h =>
    constructor
    case agenda =>
      intro b hb
      rcases List.mem_append.mp hb with hb | hb
      · obtain ⟨_, _, rfl, _⟩ := h.enters hb
        exact fresh_tasks hb
      · exact hw.agenda (List.mem_cons_of_mem _ hb)
    case diagnostics =>
      obtain ⟨before, hbefore, hnone⟩ := hw.diagnostics
      obtain ⟨later, hlater, hnone'⟩ := h.finds (hw.agenda List.mem_cons_self)
      refine ⟨before ++ later, ?_, fun d hd => ?_⟩
      · rw [hlater, hbefore, List.append_assoc]
      · exact (List.mem_append.mp hd).elim (hnone d) (hnone' d)
  | fill => exact ⟨fun hb => hw.agenda (List.mem_cons_of_mem _ hb), hw.diagnostics⟩
  | resume =>
    refine ⟨fun hb => ?_, hw.diagnostics⟩
    rcases List.mem_append.mp hb with hb | hb
    · exact fresh_tasks hb
    · exact hw.agenda hb
  | refer => exact ⟨hw.agenda, hw.diagnostics⟩

theorem Steps.finds (h : Steps root o w w') (hw : w.Finds xs) : w'.Finds xs := by
  induction h with
  | refl => exact hw
  | tail _ hstep ih => exact hstep.finds ih

/-- When the children of the root are worked off, the findings are those of the index, then others. -/
theorem Performs.finds (h : Performs root o (root.script o) (.start root) t) :
    ∃ later, t.diagnostics.toList = (Index.ofJson root).found.toList ++ later ∧
      ∀ d, .duplicateDeclarationId d ∉ later := by
  have hstart : Work.Finds (Index.ofJson root).found.toList ⟨(root.script o).map .act, .start root⟩ := by
    refine ⟨fun ha => ?_, [], (List.append_nil _).symm, fun _ => List.not_mem_nil⟩
    obtain ⟨_, _, rfl⟩ := List.mem_map.mp (mem_of_mem_map_act ha)
    exact fun _ => nofun
  exact (Steps.finds h hstart).diagnostics

end Build

namespace Graph

variable {root : Json} {o : Options}

/-- The first diagnostics of a graph are the nodes that carry the id of an earlier one; no later one is of this kind. -/
def RepeatsFirst (g : Graph) (root : Json) : Prop :=
  ∃ later, g.diagnostics = (root.laterNodes.map fun n => .duplicateDeclarationId n.id) ++ later ∧
    ∀ d, .duplicateDeclarationId d ∉ later

theorem repeatsFirst {g : Graph} (h : ofJson root o = .ok g) : g.RepeatsFirst root := by
  obtain ⟨t, ht, _, hrun⟩ := exists_run h
  obtain ⟨later, hlater, hnone⟩ := hrun.finds
  exact ⟨later, by rw [ht.diagnostics, hlater, Index.found_eq_laterNodes], hnone⟩

/-- A document is indexed by one walk in order, and what the walk finds comes first among the diagnostics of the
graph. -/
theorem walk_and_repeatsFirst (root : Json) :
    Index.Walk root ∧ ∀ (o : Options) (g : Graph), ofJson root o = .ok g → g.RepeatsFirst root :=
  ⟨Index.walk root, fun _ _ h => repeatsFirst h⟩

/-- A module that holds a class, which holds a property with the id of the module; and a module with the id of the
class. -/
def enclosed : Json :=
  .obj [("children", .arr [
    nodeWith 1 .externalModule "outer" [("children", .arr [
      nodeWith 2 .classDecl "Box" [("children", .arr [nodeWith 1 .property "lid" [("type", voidType)]])]])],
    nodeWith 2 .externalModule "other" []])]

/-- The property lies inside of what stands before the second module, so it is found first. -/
theorem walk_and_repeatsFirst_enclosed : ∃ g, ofJson enclosed {} = .ok g ∧ Index.Walk enclosed ∧
    enclosed.laterNodes.map Node.name = ["lid", "other"] ∧ g.RepeatsFirst enclosed := by
  obtain ⟨g, hg⟩ := exists_ofJson (o := {}) (rfl : rootFault? enclosed = none)
  have hlater : enclosed.laterNodes.map Node.name = ["lid", "other"] := by decide +kernel
  exact ⟨g, hg, (walk_and_repeatsFirst enclosed).1, hlater, (walk_and_repeatsFirst enclosed).2 {} g hg⟩

end Graph

end EntityGraph

import EntityGraph.Proofs.Plays

/-!
# Where declarations are written

A value is resolved in the place of a declaration only where it stands among the children of a value, or where a type
expression reflects it (`Json.PlacedIn`). Signatures, parameters and accessors, comments and whatever no field leads to
are no such places, though the nodes in them stand in the index. This is known of the scripts
(`Build.placed_pervades`), and so of all that a run asks for (`Build.Step.placed`).
-/

namespace EntityGraph

/-- `v` stands in the document `root` where a declaration is written: among the children of a value or as what a type
expression reflects. -/
def Json.PlacedIn (v root : Json) : Prop :=
  ∃ host : Json, host.Within root ∧ (v ∈ host.listAt "children" ∨ TypeExpr.ofJson host = .reflection v)

theorem Json.PlacedIn.within {v root : Json} (h : v.PlacedIn root) : v.Within root := by
  obtain ⟨host, hhost, hv | hv⟩ := h
  · exact .inr (hhost.inside (inside_of_mem_listAt hv))
  · have hpart : v ∈ (TypeExpr.ofJson host).parts := hv ▸ List.mem_cons_self
    exact .inr (hhost.inside (TypeExpr.inside_of_mem_parts hpart))

/-- What a type expression reflects. -/
def TypeExpr.reflected? : TypeExpr → Option Json
  | reflection v => some v
  | _ => none

/-- All values of a document that stand where a declaration is written. -/
def Json.places (root : Json) : List Json :=
  root.preorder.flatMap fun host => host.listAt "children" ++ (TypeExpr.ofJson host).reflected?.toList

theorem Json.mem_places_iff {v root : Json} : v ∈ root.places ↔ v.PlacedIn root := by
  have hreflected (e : TypeExpr) : v ∈ e.reflected?.toList ↔ e = .reflection v := by
    cases e <;> simp [TypeExpr.reflected?, eq_comm]
  simp only [places, PlacedIn, List.mem_flatMap, mem_preorder_iff, List.mem_append, hreflected]

namespace Build

variable {root : Json} {o : Options} {w w' : Work} {a : Act}

/-- What an act asks for in place stands where a declaration is written. -/
def Act.Placed (root : Json) : Act → Prop
  | .declare _ _ v => v.PlacedIn root
  | .report _ | .follow _ | .store => True

/-! ## Scripts -/

theorem placed_pervades (root : Json) (o : Options) :
    Pervades o (fun _ v => v.Within root) (fun _ v => v.Within root) (Act.Placed root) where
  inside hv inside := .inr (hv.inside inside)
  deeper hv _ inside := .inr (hv.inside inside)
  cut _ _ := trivial
  report _ := trivial
  store := trivial
  follow _ := trivial
  member {_ n _} _ hn hv := ⟨n.value, hn, .inl hv⟩
  reflected {_ v _} _ hv _ hw := ⟨v, hv, .inr hw⟩

theorem placed_rootScript (root : Json) (o : Options) : EveryAct (Act.Placed root) (root.script o) :=
  .map fun _ hv => ⟨root, .inl rfl, .inl (List.mem_filter.mp hv).1⟩

/-! ## Runs -/

/-- What is on the agenda is placed, and what waits is in the document. -/
structure Work.Placed (root : Json) (w : Work) : Prop where
  agenda {a : Act} : .act a ∈ w.agenda → a.Placed root
  waits {p : Waiting} : p ∈ w.state.waiting → p.Recognized root

theorem placed_tasks {p : Waiting} (hp : p.Recognized root) {depth : Nat} (ha : .act a ∈ tasks o depth p) :
    a.Placed root := by
  have hplaced : EveryAct (Act.Placed root) (p.script o depth) := (placed_pervades root o).script hp.1.2 _ _
  exact hplaced a (mem_script_of_mem_tasks ha)

theorem Step.placed (h : Step root o w w') (hw : w.Placed root) : w'.Placed root := by
  have hwaits := h.recognized fun _ => hw.waits
  refine ⟨fun {b} hb => ?_, fun hp => hwaits _ hp⟩
  cases h with
  | act rest h =>
    rcases List.mem_append.mp hb with hb | hb
    · obtain ⟨_, _, rfl, hp⟩ := h.enters hb
      exact placed_tasks hp.recognized hb
    · exact hw.agenda (List.mem_cons_of_mem _ hb)
  | fill => exact hw.agenda (List.mem_cons_of_mem _ hb)
  | resume rest hps =>
    rcases List.mem_append.mp hb with hb | hb
    · exact placed_tasks (hw.waits (hps ▸ List.mem_cons_self)) hb
    · exact hw.agenda hb
  | refer => exact hw.agenda hb

/-- What is on the agenda at the start is placed. -/
theorem Work.start_placed (root : Json) (o : Options) : Work.Placed root ⟨(root.script o).map .act, .start root⟩ :=
  ⟨fun ha => placed_rootScript root o _ (mem_of_mem_map_act ha), nofun⟩

end Build

end EntityGraph

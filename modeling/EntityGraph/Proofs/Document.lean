import Mathlib.Data.List.Nodup
import EntityGraph.Index
import EntityGraph.Decl.TypeExpr

/-!
# The values of a document

`Json.preorder` lists the values of a document, each before its parts; they are the document and what lies inside it
(`Json.mem_preorder_iff`). The index of a document is one pass over this list (`Index.ofJson_eq`), so it finds a node
for exactly the ids that some node of the document carries (`Index.isSome_lookup?_iff`), and the node that it finds
stands in the document (`Index.standsIn_of_lookup?`). Where each id is carried once (`Json.IdsDistinct`), a node is
known by its id (`Node.StandsIn.eq_of_id`) and the index knows every node (`Index.lookup?_of_standsIn`).

`TypeExpr.Nested root k v` counts the type expressions of the document that a value stands in, and `Json.RefersTo` says
which ids its internal references name.
-/

namespace EntityGraph

namespace Json

/-! ## Values in order -/

/-- `part` is `whole` or lies inside it. -/
def Within (part whole : Json) : Prop := part = whole ∨ part.Inside whole

theorem Within.inside {part whole w : Json} (h : part.Within whole) (hw : w.Inside part) : w.Inside whole := by
  rcases h with rfl | h
  · exact hw
  · exact hw.trans h

/-- A value and all that lies inside it, each value before its parts and the parts in order. -/
def preorder (v : Json) : List Json := v :: v.parts.attach.flatMap fun w => preorder w.1
termination_by sizeOf v
decreasing_by exact sizeOf_lt_of_mem_parts w.2

theorem preorder_eq (v : Json) : v.preorder = v :: v.parts.flatMap preorder := by
  rw [preorder]
  simp [List.flatMap, List.attach_map_val (f := preorder)]

theorem within_of_mem_preorder {v w : Json} (h : w ∈ v.preorder) : w.Within v := by
  rw [preorder_eq] at h
  rcases List.mem_cons.mp h with h | h
  · exact .inl h
  · obtain ⟨part, hp, hw⟩ := List.mem_flatMap.mp h
    rcases within_of_mem_preorder hw with rfl | hw
    · exact .inr (.direct hp)
    · exact .inr (.deeper hw hp)
termination_by sizeOf v
decreasing_by exact sizeOf_lt_of_mem_parts hp

theorem self_mem_preorder (v : Json) : v ∈ v.preorder := by
  rw [preorder_eq]
  exact List.mem_cons_self

theorem mem_preorder_of_mem_parts {v w part : Json} (hp : part ∈ v.parts) (hw : w ∈ part.preorder) :
    w ∈ v.preorder := by
  rw [preorder_eq]
  exact List.mem_cons_of_mem _ (List.mem_flatMap.mpr ⟨part, hp, hw⟩)

theorem mem_preorder_of_inside {v w : Json} (h : w.Inside v) : w ∈ v.preorder := by
  induction h with
  | direct hp => exact mem_preorder_of_mem_parts hp (self_mem_preorder _)
  | deeper _ hp ih => exact mem_preorder_of_mem_parts hp ih

theorem mem_preorder_iff {v w : Json} : w ∈ v.preorder ↔ w.Within v := by
  refine ⟨within_of_mem_preorder, fun h => ?_⟩
  rcases h with rfl | h
  · exact self_mem_preorder _
  · exact mem_preorder_of_inside h

end Json

/-! ## Nodes of a document -/

/-- `n` is a node of the document `root`: the root itself or a value inside it. -/
def Node.StandsIn (n : Node) (root : Json) : Prop := Node.ofJson? n.value = some n ∧ n.value.Within root

theorem Node.standsIn_of_ofJson? {v root : Json} {n : Node} (h : Node.ofJson? v = some n) (hv : v.Within root) :
    n.StandsIn root := by
  obtain rfl := value_of_ofJson? h
  exact ⟨h, hv⟩

/-- Leaving out values by their nodes is leaving out the nodes. -/
theorem Node.filterMap_kept (p : Node → Bool) (vs : List Json) :
    (vs.filter fun v => !(ofJson? v).any p).filterMap ofJson? = (vs.filterMap ofJson?).filter fun n => !p n := by
  rw [List.filterMap_filter, List.filter_filterMap]
  congr 1
  funext v
  cases hn : ofJson? v with
  | none => simp
  | some n => cases hp : p n <;> simp [hp, Option.filter_some]

/-- Some node of the document `root` carries the id `d`. -/
def DeclId.CarriedIn (d : DeclId) (root : Json) : Prop := ∃ n : Node, n.StandsIn root ∧ n.id = d

namespace Json

/-- The nodes of a document in order. -/
def nodes (root : Json) : List Node := root.preorder.filterMap Node.ofJson?

/-- No two nodes of a document carry the same id, also where the nodes themselves are the same. -/
def IdsDistinct (root : Json) : Prop := (root.nodes.map Node.id).Nodup

theorem mem_nodes_iff {root : Json} {n : Node} : n ∈ root.nodes ↔ n.StandsIn root := by
  rw [nodes, List.mem_filterMap]
  constructor
  · rintro ⟨v, hv, hn⟩
    exact Node.standsIn_of_ofJson? hn (mem_preorder_iff.mp hv)
  · rintro ⟨hn, hv⟩
    exact ⟨n.value, mem_preorder_iff.mpr hv, hn⟩

/-- The nodes of a value are the value itself, if it is one, and those of its parts. -/
theorem nodes_eq (v : Json) : v.nodes = (Node.ofJson? v).toList ++ v.parts.flatMap nodes := by
  have hparts : (v.parts.flatMap preorder).filterMap Node.ofJson? = v.parts.flatMap nodes :=
    List.filterMap_flatMap
  rw [nodes, preorder_eq, List.filterMap_cons, hparts]
  cases Node.ofJson? v <;> rfl

theorem nodes_sublist_of_mem_parts {v part : Json} (h : part ∈ v.parts) : part.nodes.Sublist v.nodes := by
  obtain ⟨before, after, hparts⟩ := List.append_of_mem h
  rw [nodes_eq v, hparts, List.flatMap_append, List.flatMap_cons]
  refine List.Sublist.trans ?_ (List.sublist_append_right _ _)
  exact (List.sublist_append_left _ _).trans (List.sublist_append_right _ _)

/-- The nodes among the items of an array are nodes of the array, in order. -/
theorem filterMap_sublist_nodes (items : List Json) : (items.filterMap Node.ofJson?).Sublist (arr items).nodes := by
  rw [nodes_eq]
  refine List.Sublist.trans ?_ (List.sublist_append_right _ _)
  show (items.filterMap Node.ofJson?).Sublist (items.flatMap nodes)
  induction items with
  | nil => exact .slnil
  | cons v vs ih =>
    have hv : (Node.ofJson? v).toList.Sublist v.nodes := by
      rw [nodes_eq]
      exact List.sublist_append_left _ _
    have hcons : (v :: vs).filterMap Node.ofJson? = (Node.ofJson? v).toList ++ vs.filterMap Node.ofJson? := by
      cases hn : Node.ofJson? v <;> simp [hn]
    rw [hcons, List.flatMap_cons]
    exact hv.append ih

/-- The nodes in the array that a key holds are nodes of the object, in order. -/
theorem filterMap_listAt_sublist_nodes (key : String) (v : Json) :
    ((v.listAt key).filterMap Node.ofJson?).Sublist v.nodes := by
  cases hlist : v.listAt? key with
  | none =>
    rw [listAt, hlist]
    exact List.nil_sublist _
  | some items =>
    obtain ⟨held, hheld, hitems⟩ := Option.bind_eq_some_iff.mp hlist
    cases v with
    | obj fields =>
      have hpart : held ∈ (obj fields).parts := List.mem_map.mpr ⟨(key, held), mem_of_lookup hheld, rfl⟩
      rw [listAt, hlist]
      cases held with
      | arr xs =>
        obtain rfl : xs = items := Option.some.inj hitems
        exact (filterMap_sublist_nodes xs).trans (nodes_sublist_of_mem_parts hpart)
      | _ => cases hitems
    | _ => cases hheld

end Json

/-- Where ids are distinct, a node is known by its id. -/
theorem Node.StandsIn.eq_of_id {root : Json} {n m : Node} (hn : n.StandsIn root) (hm : m.StandsIn root)
    (hdistinct : root.IdsDistinct) (hid : n.id = m.id) : n = m :=
  List.inj_on_of_nodup_map hdistinct (Json.mem_nodes_iff.mpr hn) (Json.mem_nodes_iff.mpr hm) hid

/-! ## The index -/

namespace Index

/-- The stack of a scan stands for its values with all that lies inside them. -/
theorem scan_eq (stack : List Json) (s : Scan) :
    scan stack s = (stack.flatMap Json.preorder).foldl (fun s v => s.visit v) s := by
  induction stack, s using scan.induct with
  | case1 s => rw [scan]; rfl
  | case2 s v rest ih =>
    rw [scan, ih, List.flatMap_cons, Json.preorder_eq, List.flatMap_append]
    rfl

theorem ofJson_eq (root : Json) : ofJson root = root.preorder.foldl (fun s v => s.visit v) {} := by
  rw [ofJson, scan_eq, List.flatMap_singleton]

/-- What a scan knows of the values that it has seen. -/
structure Scan.Knows (s : Scan) (seen : List Json) : Prop where
  node {d : DeclId} {n : Node} : s.index.lookup? d = some n → n.id = d ∧ Node.ofJson? n.value = some n ∧ n.value ∈ seen
  all {v : Json} {n : Node} : v ∈ seen → Node.ofJson? v = some n → (s.index.lookup? n.id).isSome
  found {x : Diagnostic} : x ∈ s.found → ∃ d, x = .duplicateDeclarationId d

/-- A value that is no node, or a node with a known id, leaves the index as it is. -/
theorem Scan.Knows.keep {s s' : Scan} {seen : List Json} (h : s.Knows seen) {v : Json} (hindex : s'.index = s.index)
    (hv : ∀ n, Node.ofJson? v = some n → (s.index.lookup? n.id).isSome)
    (hfound : ∀ x ∈ s'.found, ∃ d, x = .duplicateDeclarationId d) : s'.Knows (seen ++ [v]) where
  node hd := by
    rw [hindex] at hd
    obtain ⟨hid, hn, hs⟩ := h.node hd
    exact ⟨hid, hn, List.mem_append_left _ hs⟩
  all hw hn := by
    rw [hindex]
    rcases List.mem_append.mp hw with hw | hw
    · exact h.all hw hn
    · obtain rfl := List.mem_singleton.mp hw
      exact hv _ hn
  found hx := hfound _ hx

/-- A node with a new id is added to the index. -/
theorem Scan.Knows.add {s : Scan} {seen : List Json} (h : s.Knows seen) {v : Json} {n : Node}
    (hn : Node.ofJson? v = some n) :
    Scan.Knows { s with index := ⟨(n.id, n) :: s.index.entries⟩ } (seen ++ [v]) where
  node {d m} hd := by
    rw [lookup?, lookup_cons_eq] at hd
    by_cases hnew : d = n.id
    · have heq : n = m := by simpa [hnew] using hd
      have hvalue := Node.value_of_ofJson? hn
      rw [← heq, hvalue]
      exact ⟨hnew.symm, hn, by simp⟩
    · rw [if_neg hnew] at hd
      obtain ⟨hid, hm, hs⟩ := h.node hd
      exact ⟨hid, hm, List.mem_append_left _ hs⟩
  all {w m} hw hm := by
    rw [lookup?, lookup_cons_eq]
    by_cases hnew : m.id = n.id
    · simp [hnew]
    · have hold : w ≠ v := by
        rintro rfl
        rw [hn] at hm
        cases hm
        exact hnew rfl
      have hseen : w ∈ seen := by simpa [hold] using hw
      rw [if_neg hnew]
      exact h.all hseen hm
  found := h.found

theorem Scan.Knows.visit {s : Scan} {seen : List Json} (h : s.Knows seen) (v : Json) :
    (s.visit v).Knows (seen ++ [v]) := by
  unfold Scan.visit
  split
  · next hv =>
    refine h.keep rfl (fun n hn => ?_) fun _ hx => h.found hx
    rw [hv] at hn
    cases hn
  · next n hv =>
    split
    · next hold =>
      refine h.keep rfl (fun m hm => ?_) fun x hx => ?_
      · rw [hv] at hm
        cases hm
        exact hold
      · rcases Array.mem_push.mp hx with hx | rfl
        · exact h.found hx
        · exact ⟨_, rfl⟩
    · exact h.add hv

theorem Scan.Knows.foldl {vs : List Json} : ∀ {s : Scan} {seen : List Json}, s.Knows seen →
    (vs.foldl (fun s v => s.visit v) s).Knows (seen ++ vs) := by
  induction vs with
  | nil => exact fun h => by rwa [List.append_nil]
  | cons v vs ih =>
    intro s seen h
    have := ih (h.visit v)
    rwa [List.append_assoc] at this

theorem Scan.Knows.start : ({} : Scan).Knows [] where
  node h := by cases h
  all h := by cases h
  found h := absurd h (Array.not_mem_empty _)

theorem knows_ofJson (root : Json) : (ofJson root).Knows root.preorder := by
  rw [ofJson_eq]
  exact Scan.Knows.start.foldl

/-- The index holds nodes of the document, each under its id. -/
theorem standsIn_of_lookup? {root : Json} {d : DeclId} {n : Node} (h : (ofJson root).index.lookup? d = some n) :
    n.StandsIn root ∧ n.id = d := by
  obtain ⟨hid, hn, hv⟩ := (knows_ofJson root).node h
  exact ⟨⟨hn, Json.mem_preorder_iff.mp hv⟩, hid⟩

/-- The index knows exactly the ids that nodes of the document carry, wherever these stand. -/
theorem isSome_lookup?_iff {root : Json} {d : DeclId} :
    ((ofJson root).index.lookup? d).isSome ↔ d.CarriedIn root := by
  constructor
  · intro h
    obtain ⟨n, hn⟩ := Option.isSome_iff_exists.mp h
    exact ⟨n, standsIn_of_lookup? hn⟩
  · rintro ⟨n, ⟨hn, hv⟩, rfl⟩
    exact (knows_ofJson root).all (Json.mem_preorder_iff.mpr hv) hn

theorem lookup?_eq_none_iff {root : Json} {d : DeclId} :
    (ofJson root).index.lookup? d = none ↔ ¬ d.CarriedIn root := by
  rw [← isSome_lookup?_iff, Option.not_isSome_iff_eq_none]

/-- Where ids are distinct, the index knows every node of the document. -/
theorem lookup?_of_standsIn {root : Json} {n : Node} (hdistinct : root.IdsDistinct) (hn : n.StandsIn root) :
    (ofJson root).index.lookup? n.id = some n := by
  obtain ⟨m, hm⟩ := Option.isSome_iff_exists.mp (isSome_lookup?_iff.mpr ⟨n, hn, rfl⟩)
  obtain ⟨hstands, hid⟩ := standsIn_of_lookup? hm
  rw [hm, hstands.eq_of_id hn hdistinct hid]

/-- A value whose node has a new id is no finding. -/
theorem found_visit {s : Scan} {seen : List Json} (h : s.Knows seen) {v : Json}
    (hdistinct : (((seen ++ [v]).filterMap Node.ofJson?).map Node.id).Nodup) : (s.visit v).found = s.found := by
  unfold Scan.visit
  split
  · rfl
  · next n hn =>
    rw [if_neg]
    intro hold
    obtain ⟨m, hm⟩ := Option.isSome_iff_exists.mp hold
    obtain ⟨hid, hm, hseen⟩ := h.node hm
    rw [List.filterMap_append, List.map_append, List.nodup_append] at hdistinct
    refine hdistinct.2.2 m.id ?_ n.id ?_ hid
    · exact List.mem_map_of_mem (List.mem_filterMap.mpr ⟨m.value, hseen, hm⟩)
    · exact List.mem_map_of_mem (List.mem_filterMap.mpr ⟨v, List.mem_singleton_self v, hn⟩)

theorem found_foldl {vs : List Json} : ∀ {s : Scan} {seen : List Json}, s.Knows seen →
    (((seen ++ vs).filterMap Node.ofJson?).map Node.id).Nodup →
    (vs.foldl (fun s v => s.visit v) s).found = s.found := by
  induction vs with
  | nil => exact fun _ _ => rfl
  | cons v vs ih =>
    intro s seen h hdistinct
    rw [List.append_cons] at hdistinct
    have hfirst : (((seen ++ [v]).filterMap Node.ofJson?).map Node.id).Nodup := by
      rw [List.filterMap_append, List.map_append] at hdistinct
      exact hdistinct.of_append_left
    rw [List.foldl_cons, ih (h.visit v) hdistinct, found_visit h hfirst]

/-- Where ids are distinct, the index finds nothing. -/
theorem found_eq {root : Json} (hdistinct : root.IdsDistinct) : (ofJson root).found = #[] := by
  rw [ofJson_eq]
  exact found_foldl Scan.Knows.start hdistinct

/-- The findings of the index are duplicates. -/
theorem duplicate_of_mem_found {root : Json} {x : Diagnostic} (h : x ∈ (ofJson root).found) :
    ∃ d, x = .duplicateDeclarationId d :=
  (knows_ofJson root).found h

end Index

/-! ## Nesting of type expressions -/

/-- `v` stands in `root` inside `k` type expressions: each of them is, or stands inside, a part or an argument of the
one before. -/
inductive TypeExpr.Nested (root : Json) : Nat → Json → Prop
  | root : Nested root 0 root
  | inside {k : Nat} {v w : Json} : Nested root k v → w.Inside v → Nested root k w
  | part {k : Nat} {v w : Json} : Nested root k v → w ∈ (ofJson v).parts ∨ w ∈ argumentsOf v → Nested root (k + 1) w

theorem TypeExpr.inside_of_mem {v w : Json} (h : w ∈ (ofJson v).parts ∨ w ∈ argumentsOf v) : w.Inside v := by
  rcases h with h | h
  · exact inside_of_mem_parts h
  · exact inside_of_mem_arguments h

theorem TypeExpr.Nested.within {root v : Json} {k : Nat} (h : Nested root k v) : v.Within root := by
  induction h with
  | root => exact .inl rfl
  | inside _ hw ih => exact .inr (ih.inside hw)
  | part _ hw ih => exact .inr (ih.inside (inside_of_mem hw))

theorem TypeExpr.Nested.of_within {root v : Json} (h : v.Within root) : Nested root 0 v := by
  rcases h with rfl | h
  · exact .root
  · exact .inside .root h

/-! ## References -/

/-- An internal reference somewhere in the document names an id. -/
def Json.RefersTo (root : Json) (d : DeclId) : Prop :=
  ∃ v : Json, v.Within root ∧ TypeExpr.ofJson v = .internalReference d

/-- The id that an expression names. -/
def TypeExpr.referred? : TypeExpr → Option DeclId
  | internalReference d => some d
  | _ => none

/-- All ids that the internal references of a document name. -/
def Json.referred (root : Json) : List DeclId := root.preorder.filterMap fun v => (TypeExpr.ofJson v).referred?

theorem Json.mem_referred_iff {root : Json} {d : DeclId} : d ∈ root.referred ↔ root.RefersTo d := by
  have hreferred (e : TypeExpr) : e.referred? = some d ↔ e = .internalReference d := by
    cases e <;> simp [TypeExpr.referred?]
  simp only [referred, RefersTo, List.mem_filterMap, mem_preorder_iff, hreferred]

end EntityGraph

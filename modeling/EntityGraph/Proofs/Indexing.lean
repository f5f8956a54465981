import EntityGraph.Proofs.Document

/-!
# What the index holds

An index depends on the nodes of its document in order, and on nothing else. It answers for an id with the first node
that carries the id (`Index.lookup?_eq_find?`), and finds the ids that stand again (`Index.found_eq_repeats`). So nodes
whose ids stand once and are asked for nowhere else leave no trace in it (`Index.repeats_filter`).
-/

namespace EntityGraph

namespace Index

/-- The ids of a list that are known or stand earlier in the list, in order. -/
def repeats : (known : List DeclId) → List DeclId → List DeclId
  | _, [] => []
  | known, d :: ds => if d ∈ known then d :: repeats known ds else repeats (d :: known) ds

/-- Takes one node into account. -/
def Scan.take (s : Scan) (n : Node) : Scan :=
  if (s.index.lookup? n.id).isSome then { s with found := s.found.push (.duplicateDeclarationId n.id) }
  else { s with index := ⟨(n.id, n) :: s.index.entries⟩ }

theorem foldl_visit (vs : List Json) (s : Scan) :
    vs.foldl (fun s v => s.visit v) s = (vs.filterMap Node.ofJson?).foldl Scan.take s := by
  induction vs generalizing s with
  | nil => rfl
  | cons v vs ih =>
    rw [List.foldl_cons, ih]
    cases hn : Node.ofJson? v with
    | none => simp only [Scan.visit, hn, List.filterMap_cons]
    | some n => simp only [Scan.visit, hn, List.filterMap_cons, List.foldl_cons, Scan.take]

/-- An index takes the nodes of its document in order. -/
theorem ofJson_eq_take (root : Json) : ofJson root = root.nodes.foldl Scan.take {} := by
  rw [ofJson_eq, foldl_visit, Json.nodes]

theorem lookup?_take (s : Scan) (n : Node) (d : DeclId) :
    (s.take n).index.lookup? d = (s.index.lookup? d).or (if n.id = d then some n else none) := by
  unfold Scan.take
  split
  · next hold =>
    obtain ⟨m, hm⟩ := Option.isSome_iff_exists.mp hold
    by_cases hd : n.id = d
    · rw [← hd, hm, Option.some_or]
    · rw [if_neg hd, Option.or_none]
  · next hnew =>
    rw [lookup?, lookup_cons_eq]
    by_cases hd : d = n.id
    · rw [hd, Option.not_isSome_iff_eq_none.mp hnew, if_pos rfl, if_pos rfl, Option.none_or]
    · rw [if_neg hd, if_neg (Ne.symm hd), Option.or_none]
      rfl

theorem lookup?_foldl (ns : List Node) (s : Scan) (d : DeclId) :
    (ns.foldl Scan.take s).index.lookup? d = (s.index.lookup? d).or (ns.find? fun n => n.id = d) := by
  induction ns generalizing s with
  | nil => rw [List.foldl_nil, List.find?_nil, Option.or_none]
  | cons n ns ih =>
    rw [List.foldl_cons, ih, lookup?_take, Option.or_assoc, List.find?_cons]
    by_cases hd : n.id = d <;> simp [hd]

/-- The index answers with the first node that carries an id. -/
theorem lookup?_eq_find? (root : Json) (d : DeclId) :
    (ofJson root).index.lookup? d = root.nodes.find? fun n => n.id = d := by
  rw [ofJson_eq_take, lookup?_foldl]
  exact Option.none_or

theorem found_foldl_take (ns : List Node) {s : Scan} {known : List DeclId}
    (hknown : ∀ d, d ∈ known ↔ (s.index.lookup? d).isSome) :
    (ns.foldl Scan.take s).found.toList =
      s.found.toList ++ (repeats known (ns.map Node.id)).map .duplicateDeclarationId := by
  induction ns generalizing s known with
  | nil => exact (List.append_nil _).symm
  | cons n ns ih =>
    rw [List.foldl_cons, List.map_cons, repeats, Scan.take]
    by_cases hold : (s.index.lookup? n.id).isSome
    · rw [if_pos hold, if_pos ((hknown _).mpr hold)]
      refine (ih (s := { s with found := s.found.push (.duplicateDeclarationId n.id) }) hknown).trans ?_
      rw [Array.toList_push, List.append_assoc, List.map_cons, List.singleton_append]
    · rw [if_neg hold, if_neg fun hd => hold ((hknown _).mp hd)]
      refine ih (s := { s with index := ⟨(n.id, n) :: s.index.entries⟩ }) fun d => ?_
      rw [List.mem_cons, hknown, lookup?, lookup?, lookup_cons_eq]
      by_cases hd : d = n.id <;> simp [hd]

/-- The findings of an index are the ids that stand again. -/
theorem found_eq_repeats (root : Json) :
    (ofJson root).found.toList = (repeats [] (root.nodes.map Node.id)).map .duplicateDeclarationId := by
  have hknown : ∀ d, d ∈ ([] : List DeclId) ↔ (Index.lookup? d {}).isSome := by simp [lookup?]
  rw [ofJson_eq_take, found_foldl_take root.nodes hknown]
  rfl

/-- Ids that stand once may be left out. -/
theorem repeats_filter {p : DeclId → Bool} : ∀ {ds known known' : List DeclId},
    (∀ d, p d = true → (d ∈ known ↔ d ∈ known')) → (∀ d ∈ ds, p d = false → d ∉ known) →
      (ds.filter fun d => !p d).Nodup → repeats known ds = repeats known' (ds.filter p)
  | [], _, _, _, _, _ => rfl
  | d :: ds, known, known', hsame, hnew, hnodup => by
    have hne {e : DeclId} (he : p e ≠ p d) : e ≠ d := fun heq => he (congrArg p heq)
    cases hd : p d with
    | true =>
      rw [List.filter_cons_of_neg (by simp [hd])] at hnodup
      have hrest : ∀ e ∈ ds, p e = false → e ∉ known := fun e he => hnew e (List.mem_cons_of_mem d he)
      rw [List.filter_cons_of_pos hd, repeats, repeats]
      by_cases hold : d ∈ known
      · rw [if_pos hold, if_pos ((hsame d hd).mp hold), repeats_filter hsame hrest hnodup]
      · rw [if_neg hold, if_neg fun hold' => hold ((hsame d hd).mpr hold')]
        refine repeats_filter (fun e he => ?_) (fun e he hpe => ?_) hnodup
        · rw [List.mem_cons, List.mem_cons, hsame e he]
        · rw [List.mem_cons, not_or]
          exact ⟨hne (by simp [hpe, hd]), hrest e he hpe⟩
    | false =>
      rw [List.filter_cons_of_pos (by simp [hd]), List.nodup_cons] at hnodup
      rw [List.filter_cons_of_neg (by simp [hd]), repeats, if_neg (hnew d List.mem_cons_self hd)]
      refine repeats_filter (fun e he => ?_) (fun e he hpe => ?_) hnodup.2
      · rw [← hsame e he, List.mem_cons]
        exact ⟨fun hmem => hmem.resolve_left (hne (by simp [he, hd])), .inr⟩
      · rw [List.mem_cons, not_or]
        refine ⟨?_, hnew e (List.mem_cons_of_mem d he) hpe⟩
        rintro rfl
        exact hnodup.1 (List.mem_filter.mpr ⟨he, by simp [hd]⟩)

end Index

end EntityGraph

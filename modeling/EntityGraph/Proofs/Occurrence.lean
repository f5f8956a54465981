import Mathlib.Data.List.Nodup
import Mathlib.Data.List.Pairwise
import EntityGraph.Proofs.Document

/-!
# Where a value stands

An object holds a value under a key: as the value of the key, or as an item of the array that the key holds
(`Json.Holds`). Equal values can be held at many places. But where ids are distinct, a value in which some node stands
has one place in its document: it is a part of one value (`Json.eq_of_mem_parts`), and one object holds it, under one
key (`Json.Holds.unique`).
-/

namespace EntityGraph

/-- A list without repetition that is put together from parts has each element from one part. -/
theorem eq_of_nodup_flatMap {α β : Type} {f : α → List β} {xs : List α} (h : (xs.flatMap f).Nodup) {a b : α}
    (ha : a ∈ xs) (hb : b ∈ xs) {x : β} (hxa : x ∈ f a) (hxb : x ∈ f b) : a = b := by
  by_contra hne
  have : Std.Symm fun a b => (f a).Disjoint (f b) := ⟨fun _ _ h _ hb ha => h ha hb⟩
  have hdisjoint : xs.Pairwise fun a b => (f a).Disjoint (f b) := (List.nodup_flatMap.mp h).2
  exact hdisjoint.forall ha hb hne hxa hxb

/-- What stands in a part of a value stands in the value. -/
theorem Node.StandsIn.mono {n : Node} {v w : Json} (h : n.StandsIn v) (hv : v.Within w) : n.StandsIn w := by
  refine ⟨h.1, ?_⟩
  rcases h.2 with heq | inside
  · rwa [heq]
  · exact .inr (hv.inside inside)

namespace Json

variable {root host host' v w : Json} {key key' : String} {n : Node}

/-- What lies inside a value is one of its parts or lies inside one. -/
theorem Inside.exists_part (h : w.Inside v) : ∃ part ∈ v.parts, w.Within part := by
  cases h with
  | direct hw => exact ⟨w, hw, .inl rfl⟩
  | deeper hw hpart => exact ⟨_, hpart, .inr hw⟩

theorem Within.sizeOf_le (h : w.Within v) : sizeOf w ≤ sizeOf v := by
  rcases h with rfl | h
  · exact Nat.le_refl _
  · exact Nat.le_of_lt h.sizeOf_lt

/-- The ids in a value are distinct if those of the document are. -/
theorem IdsDistinct.of_mem_parts (h : v.IdsDistinct) (hw : w ∈ v.parts) : w.IdsDistinct :=
  h.sublist ((nodes_sublist_of_mem_parts hw).map Node.id)

theorem IdsDistinct.of_inside (h : v.IdsDistinct) (hw : w.Inside v) : w.IdsDistinct := by
  induction hw with
  | direct hpart => exact h.of_mem_parts hpart
  | deeper _ hpart ih => exact ih (h.of_mem_parts hpart)

theorem IdsDistinct.of_within (h : v.IdsDistinct) (hw : w.Within v) : w.IdsDistinct := by
  rcases hw with rfl | hw
  · exact h
  · exact h.of_inside hw

/-- Where ids are distinct, the nodes in the parts of a value are distinct. -/
theorem IdsDistinct.nodup_parts (h : v.IdsDistinct) : (v.parts.flatMap nodes).Nodup := by
  have hnodes : v.nodes.Nodup := List.Nodup.of_map Node.id h
  rw [nodes_eq] at hnodes
  exact hnodes.of_append_right

/-- Where ids are distinct, a node stands in one part of a value. -/
theorem eq_of_standsIn_parts (hdistinct : v.IdsDistinct) {a b : Json} (ha : a ∈ v.parts) (hb : b ∈ v.parts)
    (hna : n.StandsIn a) (hnb : n.StandsIn b) : a = b :=
  eq_of_nodup_flatMap hdistinct.nodup_parts ha hb (mem_nodes_iff.mpr hna) (mem_nodes_iff.mpr hnb)

/-- A part of the document in which a node stands lies in no other part. -/
theorem not_mem_parts_of_inside (hdistinct : root.IdsDistinct) (hn : n.StandsIn v) (hv : v ∈ root.parts)
    (hhost : host.Inside root) : v ∉ host.parts := by
  intro hv'
  obtain ⟨part, hpart, hwithin⟩ := hhost.exists_part
  have heq : v = part :=
    eq_of_standsIn_parts hdistinct hv hpart hn (hn.mono (.inr (hwithin.inside (.direct hv'))))
  have hlt := sizeOf_lt_of_mem_parts hv'
  have hle := hwithin.sizeOf_le
  rw [← heq] at hle
  omega

/-- Where ids are distinct, a value in which a node stands is a part of one value only. -/
theorem eq_of_mem_parts {root : Json} (hdistinct : root.IdsDistinct) (hn : n.StandsIn v) (hhost : host.Within root)
    (hhost' : host'.Within root) (hv : v ∈ host.parts) (hv' : v ∈ host'.parts) : host = host' := by
  rcases hhost with rfl | hhost
  · rcases hhost' with rfl | hhost'
    · rfl
    · exact absurd hv' (not_mem_parts_of_inside hdistinct hn hv hhost')
  · rcases hhost' with rfl | hhost'
    · exact absurd hv (not_mem_parts_of_inside hdistinct hn hv' hhost)
    · obtain ⟨part, hpart, hwithin⟩ := hhost.exists_part
      obtain ⟨part', hpart', hwithin'⟩ := hhost'.exists_part
      have hin : n.StandsIn part := hn.mono (.inr (hwithin.inside (.direct hv)))
      have hin' : n.StandsIn part' := hn.mono (.inr (hwithin'.inside (.direct hv')))
      obtain rfl := eq_of_standsIn_parts hdistinct hpart hpart' hin hin'
      have := sizeOf_lt_of_mem_parts hpart
      exact eq_of_mem_parts (hdistinct.of_mem_parts hpart) hn hwithin hwithin' hv hv'
termination_by sizeOf root

/-! ## Keys -/

/-- An object holds a value under a key: as the value of the key, or as an item of the array that the key holds. -/
def Holds (host : Json) (key : String) (v : Json) : Prop := host.get? key = some v ∨ v ∈ host.listAt key

theorem Holds.inside (h : host.Holds key v) : v.Inside host := by
  rcases h with h | h
  · exact inside_of_get? h
  · exact inside_of_mem_listAt h

theorem holds_of_objectAt? (h : host.objectAt? key = some v) : host.Holds key v :=
  .inl (Option.filter_eq_some_iff.mp h).1

theorem holds_of_singleAt? (h : host.singleAt? key = some v) : host.Holds key v := by
  obtain ⟨held, hheld, hv⟩ := Option.bind_eq_some_iff.mp h
  unfold objectOrFirst? at hv
  split at hv
  · cases hv
    exact .inl hheld
  · cases hv
    refine .inr ?_
    rw [listAt, listAt?, hheld]
    exact List.mem_cons_self
  · cases hv

/-- What an object holds is the value of a field or an item of an array that is one. -/
theorem Holds.exists_field (h : host.Holds key v) : ∃ fields held, host = .obj fields ∧ (key, held) ∈ fields ∧
    (held = v ∨ ∃ items, held = .arr items ∧ v ∈ items) := by
  have field {held : Json} (hheld : host.get? key = some held) :
      ∃ fields, host = .obj fields ∧ (key, held) ∈ fields := by
    cases host with
    | obj fields => exact ⟨fields, rfl, mem_of_lookup hheld⟩
    | _ => cases hheld
  rcases h with h | h
  · obtain ⟨fields, rfl, hmem⟩ := field h
    exact ⟨fields, v, rfl, hmem, .inl rfl⟩
  · rw [listAt, listAt?] at h
    cases hheld : host.get? key with
    | none => simp [hheld] at h
    | some held =>
      rw [hheld, Option.bind_some] at h
      obtain ⟨fields, rfl, hmem⟩ := field hheld
      cases held with
      | arr items => exact ⟨fields, _, rfl, hmem, .inr ⟨items, rfl, h⟩⟩
      | _ => cases h

/-- Where ids are distinct, a value in which a node stands is the value of one field. -/
theorem eq_of_mem_fields (hdistinct : root.IdsDistinct) (hn : n.StandsIn v) {fields fields' : List (String × Json)}
    (hhost : (obj fields).Within root) (hhost' : (obj fields').Within root) (hv : (key, v) ∈ fields)
    (hv' : (key', v) ∈ fields') : fields = fields' ∧ key = key' := by
  have part {key : String} {fields : List (String × Json)} (h : (key, v) ∈ fields) : v ∈ (obj fields).parts :=
    List.mem_map.mpr ⟨(key, v), h, rfl⟩
  have heq := eq_of_mem_parts hdistinct hn hhost hhost' (part hv) (part hv')
  obtain rfl : fields = fields' := obj.inj heq
  have hfields : (fields.flatMap fun f => f.2.nodes).Nodup := by
    have hparts := (hdistinct.of_within hhost).nodup_parts
    rwa [parts, List.flatMap_map] at hparts
  have hfield := eq_of_nodup_flatMap hfields hv hv' (mem_nodes_iff.mpr hn) (mem_nodes_iff.mpr hn)
  exact ⟨rfl, congrArg Prod.fst hfield⟩

/-- Where ids are distinct, a value in which a node stands is held by one object, under one key. -/
theorem Holds.unique (hdistinct : root.IdsDistinct) (hn : n.StandsIn v) (hhost : host.Within root)
    (hhost' : host'.Within root) (h : host.Holds key v) (h' : host'.Holds key' v) : host = host' ∧ key = key' := by
  obtain ⟨fields, held, rfl, hmem, hheld⟩ := h.exists_field
  obtain ⟨fields', held', rfl, hmem', hheld'⟩ := h'.exists_field
  have within {key : String} {fields : List (String × Json)} {held : Json} (hhost : (obj fields).Within root)
      (hmem : (key, held) ∈ fields) : held.Within root :=
    .inr (hhost.inside (.direct (List.mem_map.mpr ⟨(key, held), hmem, rfl⟩)))
  have part {key : String} {fields : List (String × Json)} (h : (key, v) ∈ fields) : v ∈ (obj fields).parts :=
    List.mem_map.mpr ⟨(key, v), h, rfl⟩
  have object {fields fields' : List (String × Json)} (h : fields = fields' ∧ key = key') :
      obj fields = obj fields' ∧ key = key' := ⟨congrArg obj h.1, h.2⟩
  rcases hheld with rfl | ⟨items, rfl, hv⟩
  · rcases hheld' with rfl | ⟨items', rfl, hv'⟩
    · exact object (eq_of_mem_fields hdistinct hn hhost hhost' hmem hmem')
    · cases eq_of_mem_parts hdistinct hn hhost (within hhost' hmem') (part hmem) hv'
  · rcases hheld' with rfl | ⟨items', rfl, hv'⟩
    · cases eq_of_mem_parts hdistinct hn (within hhost hmem) hhost' hv (part hmem')
    · have hitems := eq_of_mem_parts hdistinct hn (within hhost hmem) (within hhost' hmem') hv hv'
      obtain rfl : items = items' := arr.inj hitems
      have hn' : n.StandsIn (arr items) := hn.mono (.inr (.direct hv))
      exact object (eq_of_mem_fields hdistinct hn' hhost hhost' hmem hmem')

end Json

end EntityGraph

import EntityGraph.Proofs.Reached

/-!
# The order of the modules

Two documents that differ only in the order of the root's children (`Json.ReordersChildren`) have the same nodes, except
that the root, if it is a node itself, has its children in another order (`Json.ReordersChildren.exists_node`). Such a
node is recognized alike and has the same script but for the order of its acts (`Node.Reorders.recognize?`,
`Node.Reorders.script`). So the documents reach the same declarations, and settling each of them has the same price in
both, which leaves the graphs the same but for their numbering (`Graph.sameButNumbering_of_reorders`).
-/

namespace EntityGraph

open Build (Act State membersScript shapeScript callableScript)

namespace Json

/-- `root'` is the object `root` with its children in another order. -/
def ReordersChildren (root root' : Json) : Prop :=
  ∃ (before after : List (String × Json)) (items items' : List Json),
    root = .obj (before ++ ("children", .arr items) :: after) ∧
      root' = .obj (before ++ ("children", .arr items') :: after) ∧
        "children" ∉ before.map (·.1) ∧ items.Perm items'

namespace ReordersChildren

variable {root root' : Json}

theorem symm (h : root.ReordersChildren root') : root'.ReordersChildren root := by
  obtain ⟨before, after, items, items', hroot, hroot', hfirst, hperm⟩ := h
  exact ⟨before, after, items', items, hroot', hroot, hfirst, hperm.symm⟩

/-- Every other key holds what it held. -/
theorem get? (h : root.ReordersChildren root') {key : String} (hkey : key ≠ "children") :
    root'.get? key = root.get? key := by
  obtain ⟨before, after, items, items', rfl, rfl, _, _⟩ := h
  simp only [Json.get?, List.lookup_append, lookup_cons_eq, if_neg hkey]

theorem get?_children (before after : List (String × Json)) (items : List Json) (h : "children" ∉ before.map (·.1)) :
    Json.get? "children" (.obj (before ++ ("children", .arr items) :: after)) = some (.arr items) := by
  have hnone : before.lookup "children" = none := by
    rw [List.lookup_eq_none_iff]
    intro field hfield
    have hne : "children" ≠ field.1 := fun heq => h (heq ▸ List.mem_map_of_mem hfield)
    simpa using hne
  rw [Json.get?, List.lookup_append, hnone, Option.none_or, lookup_cons_eq, if_pos rfl]

theorem children (h : root.ReordersChildren root') :
    ∃ items items', root.get? "children" = some (.arr items) ∧ root'.get? "children" = some (.arr items') ∧
      items.Perm items' := by
  obtain ⟨before, after, items, items', rfl, rfl, hfirst, hperm⟩ := h
  exact ⟨items, items', get?_children before after items hfirst, get?_children before after items' hfirst, hperm⟩

end ReordersChildren

end Json

/-- `n'` is `n`, but for the order of its children. -/
structure Node.Reorders (n n' : Node) : Prop where
  id : n'.id = n.id
  kindString : n'.kindString = n.kindString
  get? (key : String) : key ≠ "children" → n'.value.get? key = n.value.get? key
  has : n'.has "children" = n.has "children"
  childList : n'.childList?.isSome = n.childList?.isSome
  children : n.children.Perm n'.children

namespace Node.Reorders

variable {n n' : Node} (h : n.Reorders n')

theorem refl (n : Node) : n.Reorders n := ⟨rfl, rfl, fun _ _ => rfl, rfl, rfl, .refl _⟩

include h

theorem listAt? {key : String} (hkey : key ≠ "children") : n'.value.listAt? key = n.value.listAt? key := by
  rw [Json.listAt?, h.get? key hkey, Json.listAt?]

theorem listAt {key : String} (hkey : key ≠ "children") : n'.value.listAt key = n.value.listAt key := by
  rw [Json.listAt, h.listAt? hkey, Json.listAt]

theorem objectAt? {key : String} (hkey : key ≠ "children") : n'.value.objectAt? key = n.value.objectAt? key := by
  rw [Json.objectAt?, h.get? key hkey, Json.objectAt?]

theorem singleAt? {key : String} (hkey : key ≠ "children") : n'.value.singleAt? key = n.value.singleAt? key := by
  rw [Json.singleAt?, h.get? key hkey, Json.singleAt?]

theorem has_eq (key : String) (hkey : key ≠ "children") : n'.has key = n.has key := by
  rw [Node.has, Json.has, h.get? key hkey, Node.has, Json.has]

theorem tag? : n'.tag? = n.tag? := by rw [Node.tag?, h.kindString, Node.tag?]

theorem type? : n'.type? = n.type? := h.objectAt? (by decide)

theorem parameters : n'.parameters = n.parameters := h.listAt (by decide)

theorem recognize? (position : Position) : n'.recognize? position = n.recognize? position := by
  have hfit : n'.childrenFit = n.childrenFit := by rw [childrenFit, h.has, h.childList, childrenFit]
  have hget : n'.getSignature? = n.getSignature? := h.singleAt? (by decide)
  have hset : n'.setSignature? = n.setSignature? := h.singleAt? (by decide)
  have hindex : n'.fitsIndexSignature = n.fitsIndexSignature := by
    rw [fitsIndexSignature, h.parameters, h.type?, fitsIndexSignature]
  have hlist : n'.signatureList? = n.signatureList? := h.listAt? (by decide)
  have hsole : n'.soleSignatures? = n.soleSignatures? := by
    rw [soleSignatures?, hlist, h.has, h.has_eq "indexSignature" (by decide), soleSignatures?]
  have hsignatures : n'.has "signatures" = n.has "signatures" := h.has_eq "signatures" (by decide)
  have htagged : Rule.tagged n' = Rule.tagged n := by
    funext position
    rw [Rule.tagged, Rule.tagged, h.tag?, hfit, h.childList, hget, hset, hindex]
  have hcallable : Rule.callableLiteral n' = Rule.callableLiteral n := by
    funext position
    rw [Rule.callableLiteral, Rule.callableLiteral, h.tag?, hsole]
  have hbody : Rule.bodyLiteral n' = Rule.bodyLiteral n := by
    funext position
    rw [Rule.bodyLiteral, Rule.bodyLiteral, h.tag?, hfit]
  have htaggedCallable : Rule.taggedCallable n' = Rule.taggedCallable n := by
    funext position
    rw [Rule.taggedCallable, Rule.taggedCallable, h.tag?, hsole]
  have hslot : Rule.slot n' = Rule.slot n := by
    funext position
    rw [Rule.slot, Rule.slot, h.tag?, h.type?, h.has, hsignatures]
  simp only [Node.recognize?, recognizeBy?, Rule.all, List.findSome?_cons, List.findSome?_nil, htagged, hcallable,
    hbody, htaggedCallable, hslot]

theorem entityKind? (position : Position) : n'.entityKind? position = n.entityKind? position := by
  rw [Node.entityKind?, h.recognize?, Node.entityKind?]

/-- The scripts are the same, but for the order in which the children are gone through. -/
theorem script (o : Options) (depth : Nat) (kind : DeclKind) (position : Position) :
    (n.script o depth kind position).Perm (n'.script o depth kind position) := by
  have harguments : n'.typeArguments = n.typeArguments := h.listAt (by decide)
  have hmembers (body : Position) : (membersScript o depth body n.children).Perm
      (membersScript o depth body n'.children) :=
    (h.children.filter _).map _
  cases kind with
  | moduleDecl | namespaceDecl => exact hmembers _
  | classDecl | interfaceDecl | interfaceLiteral | objectLiteral =>
    have hextended : n'.extendedTypes = n.extendedTypes := h.listAt (by decide)
    have himplemented : n'.implementedTypes = n.implementedTypes := h.listAt (by decide)
    have hindex : n'.indexSignature? = n.indexSignature? := h.singleAt? (by decide)
    simp only [Node.script, shapeScript, harguments, hextended, himplemented, hindex]
    exact ((((hmembers _).append_right _).append_left _).append_left _).append_left _
  | enumDecl => exact h.children.flatMap_right _
  | typeAlias | property =>
    simp only [Node.script, h.type?]
    exact .refl _
  | accessor =>
    have hget : n'.getSignature? = n.getSignature? := h.singleAt? (by decide)
    have hset : n'.setSignature? = n.setSignature? := h.singleAt? (by decide)
    simp only [Node.script, accessorType?, getter?, setter?, hget, hset]
    exact .refl _
  | function | method | constructor =>
    have hsignatures : n'.signatures = n.signatures := h.listAt (by decide)
    simp only [Node.script, callableScript, signatureNodes, hsignatures, harguments]
    exact .refl _
  | indexSignature => exact .refl _

end Node.Reorders

/-! ## Two documents -/

namespace Json.ReordersChildren

variable {root root' : Json} {o : Options}

theorem listAt_children (h : root.ReordersChildren root') :
    (root.listAt "children").Perm (root'.listAt "children") := by
  obtain ⟨items, items', hitems, hitems', hperm⟩ := h.children
  have hlist : root.listAt "children" = items := by rw [listAt, listAt?, hitems]; rfl
  have hlist' : root'.listAt "children" = items' := by rw [listAt, listAt?, hitems']; rfl
  rwa [hlist, hlist']

theorem script (h : root.ReordersChildren root') (o : Options) : (root.script o).Perm (root'.script o) :=
  (h.listAt_children.filter _).map _

/-- If the root is a node, it stays the node that it is, but for the order of its children. -/
theorem ofJson?_root (h : root.ReordersChildren root') :
    Node.ofJson? root' = (Node.ofJson? root).map fun n => { n with value := root' } := by
  have natural {key : String} (hkey : key ≠ "children") : root'.naturalAt? key = root.naturalAt? key := by
    rw [naturalAt?, h.get? hkey, naturalAt?]
  have string {key : String} (hkey : key ≠ "children") : root'.stringAt? key = root.stringAt? key := by
    rw [stringAt?, h.get? hkey, stringAt?]
  simp only [Node.ofJson?, natural (by decide : "id" ≠ "children"), string (by decide : "name" ≠ "children"),
    natural (by decide : "kind" ≠ "children"), string (by decide : "kindString" ≠ "children")]
  cases root.naturalAt? "id" <;> cases root.stringAt? "name" <;> cases root.naturalAt? "kind" <;>
    cases root.stringAt? "kindString" <;> rfl

theorem reorders_root (h : root.ReordersChildren root') {n : Node} (hn : Node.ofJson? root = some n) :
    n.Reorders { n with value := root' } := by
  obtain ⟨items, items', hitems, hitems', hperm⟩ := h.children
  obtain rfl := Node.value_of_ofJson? hn
  have hlist : n.childList? = some items := by rw [Node.childList?, listAt?, hitems]; rfl
  have hlist' : Node.childList? { n with value := root' } = some items' := by
    rw [Node.childList?, listAt?, hitems']
    rfl
  refine ⟨rfl, rfl, fun key hkey => h.get? hkey, ?_, by rw [hlist, hlist']; rfl, h.listAt_children⟩
  rw [Node.has, Json.has, hitems', Node.has, Json.has, hitems]
  rfl

/-- The nodes of a document are its root, if it is one, and nodes that do not depend on the order of the children. -/
theorem exists_nodes (h : root.ReordersChildren root') : ∃ inner inner', inner.Perm inner' ∧
    root.nodes = (Node.ofJson? root).toList ++ inner ∧ root'.nodes = (Node.ofJson? root').toList ++ inner' := by
  obtain ⟨before, after, items, items', hroot, hroot', _, hperm⟩ := h
  have hinner (items : List Json) :
      (obj (before ++ ("children", arr items) :: after)).parts.flatMap nodes =
        (before.map (·.2)).flatMap nodes ++ (items.flatMap nodes ++ (after.map (·.2)).flatMap nodes) := by
    have harr : (arr items).nodes = items.flatMap nodes := by rw [nodes_eq]; rfl
    rw [parts, List.map_append, List.map_cons, List.flatMap_append, List.flatMap_cons, harr]
  refine ⟨root.parts.flatMap nodes, root'.parts.flatMap nodes, ?_, nodes_eq root, nodes_eq root'⟩
  rw [hroot, hroot', hinner, hinner]
  exact ((hperm.flatMap_right _).append_right _).append_left _

theorem idsDistinct (h : root.ReordersChildren root') (hdistinct : root.IdsDistinct) : root'.IdsDistinct := by
  obtain ⟨inner, inner', hperm, hnodes, hnodes'⟩ := h.exists_nodes
  have hroot : (Node.ofJson? root').toList.map Node.id = (Node.ofJson? root).toList.map Node.id := by
    rw [h.ofJson?_root]
    cases Node.ofJson? root <;> rfl
  rw [IdsDistinct, hnodes, List.map_append] at hdistinct
  rw [IdsDistinct, hnodes', List.map_append, hroot]
  exact ((hperm.map _).append_left _).nodup_iff.mp hdistinct

/-- Every node of the one document stands in the other, but for the order of its children. -/
theorem exists_node (h : root.ReordersChildren root') {n : Node} (hn : n.StandsIn root) :
    ∃ n' : Node, n'.StandsIn root' ∧ n.Reorders n' := by
  obtain ⟨inner, inner', hperm, hnodes, hnodes'⟩ := h.exists_nodes
  rw [← mem_nodes_iff, hnodes, List.mem_append] at hn
  rcases hn with hn | hn
  · have hroot := Option.mem_toList.mp hn
    refine ⟨{ n with value := root' }, ?_, h.reorders_root hroot⟩
    refine Node.standsIn_of_ofJson? (v := root') ?_ (.inl rfl)
    rw [h.ofJson?_root, hroot, Option.map_some]
  · refine ⟨n, ?_, .refl n⟩
    rw [← mem_nodes_iff, hnodes', List.mem_append]
    exact .inr (hperm.mem_iff.mp hn)

theorem carriedIn (h : root.ReordersChildren root') {d : DeclId} (hd : d.CarriedIn root) : d.CarriedIn root' := by
  obtain ⟨n, hn, rfl⟩ := hd
  obtain ⟨n', hn', hreorders⟩ := h.exists_node hn
  exact ⟨n', hn', hreorders.id⟩

theorem reachedIn (h : root.ReordersChildren root') {d : DeclId} (hd : d.ReachedIn root o) :
    d.ReachedIn root' o := by
  induction hd with
  | top ha htarget hcarried => exact .top ((h.script o).mem_iff.mp ha) htarget (h.carriedIn hcarried)
  | inner _ hn hk ha htarget hcarried ih =>
    obtain ⟨n', hn', hreorders⟩ := h.exists_node hn
    rw [← hreorders.id] at ih
    rw [← hreorders.entityKind?] at hk
    exact .inner ih hn' hk ((hreorders.script ..).mem_iff.mp ha) htarget (h.carriedIn hcarried)

/-! ## Prices -/

variable (π : Prices)

theorem act_eq (h : root.ReordersChildren root') (a : Act) : π.act root a = π.act root' a := by
  cases a with
  | report | store | declare => rfl
  | follow d =>
    by_cases hd : d.CarriedIn root
    · rw [π.act_of_carriedIn hd, π.act_of_carriedIn (h.carriedIn hd)]
    · rw [π.act_of_not_carriedIn hd, π.act_of_not_carriedIn fun hd' => hd (h.symm.carriedIn hd')]

theorem script_eq (h : root.ReordersChildren root') {as bs : List Act} (hperm : as.Perm bs) :
    π.script root as = π.script root' bs := by
  have hact : π.act root = π.act root' := funext (h.act_eq π)
  rw [Prices.script, Prices.script, hact]
  exact (hperm.map _).sum_eq

theorem node_eq (h : root.ReordersChildren root') {n n' : Node} (hn : n.Reorders n') :
    π.node root o n = π.node root' o n' := by
  rw [Prices.node, Prices.node, hn.entityKind?, hn.id, hn.kindString]
  split
  · rfl
  · rw [h.script_eq π (hn.script ..)]

theorem settling_eq (h : root.ReordersChildren root') (hdistinct : root.IdsDistinct) (d : DeclId) :
    π.settling root o d = π.settling root' o d := by
  by_cases hd : d.CarriedIn root
  · obtain ⟨n, hn, rfl⟩ := hd
    obtain ⟨n', hn', hreorders⟩ := h.exists_node hn
    rw [π.settling_of_standsIn hdistinct hn, h.node_eq π hreorders, ← hreorders.id,
      π.settling_of_standsIn (h.idsDistinct hdistinct) hn']
  · have hd' : ¬ d.CarriedIn root' := fun hd' => hd (h.symm.carriedIn hd')
    rw [Prices.settling, Prices.settling, Index.lookup?_eq_none_iff.mpr hd, Index.lookup?_eq_none_iff.mpr hd']
    rfl

end Json.ReordersChildren

namespace Graph

variable {root root' : Json} {o : Options} {g g' : Graph} {t : State}

/-! ## Two graphs -/

/-- Two graphs are the same, but for the places of their entities, the order of their diagnostics and the kinds of some
literals. -/
structure SameButNumbering (g g' : Graph) (root : Json) : Prop where
  declared (d : DeclId) : (∃ m, g.entityOf? d = some m) ↔ ∃ m, g'.entityOf? d = some m
  size : g.size = g'.size
  diagnostics : g.diagnostics.Perm g'.diagnostics
  unknown (d : DeclId) : g.entityOf? d = some Builtin.unknown ↔ g'.entityOf? d = some Builtin.unknown
  /-- The entities of a declaration are of one kind, or of two variants that a literal can have. -/
  kinds {d : DeclId} {m m' : EntityId} : g.entityOf? d = some m → g'.entityOf? d = some m' →
    (∃ kind, g.kindAt? m = some kind ∧ g'.kindAt? m' = some kind) ∨
      ∃ (n : Node) (kind kind' : DeclKind), n.StandsIn root ∧ n.id = d ∧ n.tag? = some .typeLiteral ∧
        kind.Variant kind' ∧ g.kindAt? m = some kind.entityKind ∧ g'.kindAt? m' = some kind'.entityKind

section

variable (horder : root.ReordersChildren root') (hdistinct : root.IdsDistinct) (h : ofJson root o = .ok g)
  (h' : ofJson root' o = .ok g')

include horder hdistinct h h'

theorem declared_iff (hcut : g.Uncut) (hcut' : g'.Uncut) (d : DeclId) :
    (∃ m, g.entityOf? d = some m) ↔ ∃ m, g'.entityOf? d = some m := by
  rw [reachedIn_iff h hdistinct hcut, reachedIn_iff h' (horder.idsDistinct hdistinct) hcut']
  exact ⟨horder.reachedIn, horder.symm.reachedIn⟩

/-- Whatever the prices, the graphs cost the same. -/
theorem paid_congr (hcut : g.Uncut) (hcut' : g'.Uncut) (π : Prices) :
    (g.diagnostics.map π.finding).sum + π.entity * g.size =
      (g'.diagnostics.map π.finding).sum + π.entity * g'.size := by
  obtain ⟨t, ht⟩ := endsIn_of_ofJson h
  obtain ⟨t', ht'⟩ := endsIn_of_ofJson h'
  have hperm : (g.declarations.map (·.1)).Perm (g'.declarations.map (·.1)) := by
    rw [List.perm_ext_iff_of_nodup ht.nodup_declarations ht'.nodup_declarations]
    intro d
    rw [ht.mem_map_declarations_iff, ht'.mem_map_declarations_iff]
    exact declared_iff horder hdistinct h h' hcut hcut' d
  have hsettling : π.settling root o = π.settling root' o := funext (horder.settling_eq π hdistinct)
  have hsum := (hperm.map (π.settling root o)).sum_eq
  rw [paid_eq h hdistinct hcut π, paid_eq h' (horder.idsDistinct hdistinct) hcut' π,
    horder.script_eq π (horder.script o), hsum, hsettling]

theorem size_congr (hcut : g.Uncut) (hcut' : g'.Uncut) : g.size = g'.size := by
  have hpaid := paid_congr horder hdistinct h h' hcut hcut' ⟨fun _ => 0, 1⟩
  simpa using hpaid

theorem diagnostics_perm (hcut : g.Uncut) (hcut' : g'.Uncut) : g.diagnostics.Perm g'.diagnostics := by
  have count (x : Diagnostic) (xs : List Diagnostic) : (xs.map fun y => if y = x then 1 else 0).sum = xs.count x := by
    induction xs with
    | nil => rfl
    | cons y xs ih =>
      rw [List.map_cons, List.sum_cons, ih, List.count_cons, Nat.add_comm]
      simp only [beq_iff_eq]
  rw [List.perm_iff_count]
  intro x
  have hpaid := paid_congr horder hdistinct h h' hcut hcut' ⟨fun y => if y = x then 1 else 0, 0⟩
  simp only [count, Nat.zero_mul, Nat.add_zero] at hpaid
  exact hpaid

/-- A declaration stands for the unknown type in both graphs, or has entities of kinds that its node has. -/
theorem recognized_congr {d : DeclId} {m m' : EntityId} (hd : g.entityOf? d = some m) (hd' : g'.entityOf? d = some m') :
    (m = Builtin.unknown ∧ m' = Builtin.unknown) ∨
      (m ≠ Builtin.unknown ∧ m' ≠ Builtin.unknown ∧ ∃ (n : Node) (kind kind' : DeclKind), n.StandsIn root ∧ n.id = d ∧
        (kind = kind' ∨ n.tag? = some .typeLiteral ∧ kind.Variant kind') ∧
          g.kindAt? m = some kind.entityKind ∧ g'.kindAt? m' = some kind'.entityKind) := by
  obtain ⟨t, ht⟩ := endsIn_of_ofJson h
  obtain ⟨t', ht'⟩ := endsIn_of_ofJson h'
  obtain ⟨n, p, hn, hid, hm⟩ := ht.recognized hd
  obtain ⟨n', p', hn', hid', hm'⟩ := ht'.recognized hd'
  obtain ⟨n'', hn'', hreorders⟩ := horder.exists_node hn
  obtain rfl : n'' = n' :=
    hn''.eq_of_id hn' (horder.idsDistinct hdistinct) (hreorders.id.trans (hid.trans hid'.symm))
  rw [hreorders.entityKind?] at hm'
  rcases hm with ⟨hm, hk⟩ | ⟨hm, kind, hk, hkind⟩
  · rcases hm' with ⟨hm', _⟩ | ⟨_, kind', hk', _⟩
    · exact .inl ⟨hm, hm'⟩
    · rw [(Node.entityKind?_eq_none_iff p p').mp hk] at hk'
      cases hk'
  · rcases hm' with ⟨_, hk'⟩ | ⟨hm', kind', hk', hkind'⟩
    · rw [(Node.entityKind?_eq_none_iff p' p).mp hk'] at hk
      cases hk
    · have hvariant := Node.recognize?_variant (Node.recognize?_of_entityKind? hk).1
        (Node.recognize?_of_entityKind? hk').1
      exact .inr ⟨hm, hm', n, kind, kind', hn, hid, hvariant, hkind, hkind'⟩

theorem sameButNumbering (hcut : g.Uncut) (hcut' : g'.Uncut) : g.SameButNumbering g' root := by
  have hdeclared := declared_iff horder hdistinct h h' hcut hcut'
  constructor
  case declared => exact hdeclared
  case size => exact size_congr horder hdistinct h h' hcut hcut'
  case diagnostics => exact diagnostics_perm horder hdistinct h h' hcut hcut'
  case unknown =>
    intro d
    constructor
    · intro hd
      obtain ⟨m', hd'⟩ := (hdeclared d).mp ⟨_, hd⟩
      rcases recognized_congr horder hdistinct h h' hd hd' with ⟨_, rfl⟩ | ⟨hne, _⟩
      · exact hd'
      · exact absurd rfl hne
    · intro hd'
      obtain ⟨m, hd⟩ := (hdeclared d).mpr ⟨_, hd'⟩
      rcases recognized_congr horder hdistinct h h' hd hd' with ⟨rfl, _⟩ | ⟨_, hne, _⟩
      · exact hd
      · exact absurd rfl hne
  case kinds =>
    intro d m m' hd hd'
    rcases recognized_congr horder hdistinct h h' hd hd' with
      ⟨rfl, rfl⟩ | ⟨_, _, n, kind, kind', hn, hid, rfl | ⟨htag, hvariant⟩, hkind, hkind'⟩
    · obtain ⟨t, ht⟩ := endsIn_of_ofJson h
      obtain ⟨t', ht'⟩ := endsIn_of_ofJson h'
      exact .inl ⟨.unknown, by rw [kindAt?, ht.get?_unknown]; rfl, by rw [kindAt?, ht'.get?_unknown]; rfl⟩
    · exact .inl ⟨_, hkind, hkind'⟩
    · exact .inr ⟨n, kind, kind', hn, hid, htag, hvariant, hkind, hkind'⟩

end

/-- An object with an array of children is the root of a document. -/
theorem rootFault?_of_reorders (horder : root.ReordersChildren root') : rootFault? root = none := by
  obtain ⟨items, _, hitems, _, _⟩ := horder.children
  rw [rootFault?_eq_none_iff]
  constructor
  · obtain ⟨_, _, _, _, rfl, _⟩ := horder
    rfl
  · rintro ⟨c, hc, hnone⟩
    rw [hitems] at hc
    cases hc
    cases hnone

/-- The order of the modules decides only the numbering: where ids are distinct and nothing is cut off, documents with
their children in different orders have the same declarations, as many entities, the same diagnostics but for their
order, and the same kinds of entities but for variants of literals. -/
theorem sameButNumbering_of_reorders (hdistinct : root.IdsDistinct) (horder : root.ReordersChildren root')
    (o : Options) : ∃ g g', ofJson root o = .ok g ∧ ofJson root' o = .ok g' ∧
      (g.Uncut → g'.Uncut → g.SameButNumbering g' root) := by
  obtain ⟨g, h⟩ := exists_ofJson (rootFault?_of_reorders horder) o
  obtain ⟨g', h'⟩ := exists_ofJson (rootFault?_of_reorders horder.symm) o
  exact ⟨g, g', h, h', sameButNumbering horder hdistinct h h'⟩

/-! ### An example -/

/-- A module with an interface whose only member is a literal with a call signature, and with a property without a
type. -/
def callModule : Json :=
  nodeWith 1 .externalModule "calls" [("children", .arr [
    nodeWith 2 .interfaceDecl "Call" [("children", .arr [
      nodeWith 3 .typeLiteral "__call" [("signatures", .arr [
        nodeWith 4 .callSignature "__call" [("type", voidType)]])]])],
    nodeWith 5 .property "untyped" []])]

/-- A module with an alias of the literal, and one of a declaration that is missing. -/
def aliasModule : Json :=
  nodeWith 6 .externalModule "aliases" [("children", .arr [
    nodeWith 7 .typeAlias "Handler" [("type", .obj [("type", .str "reference"), ("id", .ofNat 3)])],
    nodeWith 8 .typeAlias "Lost" [("type", .obj [("type", .str "reference"), ("id", .ofNat 9)])]])]

/-- A document of the two modules. -/
def calls (ms : List Json) : Json := .obj [("children", .arr ms)]

/-- Met first in the interface the literal is a method, met first through the alias it is a function. -/
theorem sameButNumbering_calls : ∃ g g', ofJson (calls [callModule, aliasModule]) {} = .ok g ∧
    ofJson (calls [aliasModule, callModule]) {} = .ok g' ∧
      (g.entityOf? ⟨3⟩).bind g.kindAt? = some .method ∧ (g'.entityOf? ⟨3⟩).bind g'.kindAt? = some .function ∧
        g.Uncut ∧ g'.Uncut ∧ g.SameButNumbering g' (calls [callModule, aliasModule]) := by
  have hdistinct : (calls [callModule, aliasModule]).IdsDistinct := by
    unfold Json.IdsDistinct
    decide +kernel
  have horder : (calls [callModule, aliasModule]).ReordersChildren (calls [aliasModule, callModule]) :=
    ⟨[], [], _, _, rfl, rfl, List.not_mem_nil, .swap ..⟩
  have hrun : (ofJson (calls [callModule, aliasModule]) {}).toOption.map
      (fun g => ((g.entityOf? ⟨3⟩).bind g.kindAt?, g.diagnostics)) =
        some (some .method,
          [.unrecognizedDeclaration (some ⟨5⟩) (some "Property"), .danglingReference ⟨9⟩]) := by
    decide +kernel
  have hrun' : (ofJson (calls [aliasModule, callModule]) {}).toOption.map
      (fun g => ((g.entityOf? ⟨3⟩).bind g.kindAt?, g.diagnostics)) =
        some (some .function,
          [.danglingReference ⟨9⟩, .unrecognizedDeclaration (some ⟨5⟩) (some "Property")]) := by
    decide +kernel
  obtain ⟨g, g', h, h', hsame⟩ := sameButNumbering_of_reorders hdistinct horder {}
  rw [h] at hrun
  rw [h'] at hrun'
  obtain ⟨hkind, hdiagnostics⟩ := Prod.mk.inj (Option.some.inj hrun)
  obtain ⟨hkind', hdiagnostics'⟩ := Prod.mk.inj (Option.some.inj hrun')
  have hcut : g.Uncut := by
    intro depth hmem
    rw [hdiagnostics] at hmem
    simp at hmem
  have hcut' : g'.Uncut := by
    intro depth hmem
    rw [hdiagnostics'] at hmem
    simp at hmem
  exact ⟨g, g', h, h', hkind, hkind', hcut, hcut', hsame hcut hcut'⟩

end Graph

end EntityGraph

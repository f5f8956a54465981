import EntityGraph.Proofs.Accounts
import EntityGraph.Proofs.Links

/-!
# Modules

The modules of a finished graph are entities of modules, listed position by position with their names and scopes, and a
graph answers for a name with the first of them that bears it (`Graph.answersModules_of_ofJson`).

Which modules there are the document says: where ids are distinct, they are the entities of the children of the root
that are modules (`Node.isListedModule`), in the order of the children (`Graph.EndsIn.map_modules`). For what is settled
for a node is a module when the node is one (`Graph.EndsIn.kind_eq_moduleDecl_iff`), also where the pass has come to the
node through a reference before it came to the child.
-/

namespace EntityGraph

/-! ## Which nodes are modules -/

/-- Whether a node is a module. -/
def Node.isModule (n : Node) : Bool := n.tag? = some .externalModule && n.childrenFit

/-- Only the rule for tags that stand for one shape finds modules. -/
theorem Rule.eq_tagged_of_moduleDecl {rule : Rule} (hrule : rule ∈ Rule.all) {n : Node} {position : Position}
    (h : rule n position = some .moduleDecl) : rule = Rule.tagged := by
  simp only [Rule.all, List.mem_cons, List.not_mem_nil, or_false] at hrule
  rcases hrule with rfl | rfl | rfl | rfl | rfl
  · rfl
  · simp only [Rule.callableLiteral, Option.ite_none_right_eq_some, Option.map_eq_some_iff] at h
    obtain ⟨_, _, _, h⟩ := h
    split at h
    · cases h
    · split at h <;> cases h
  · simp only [Rule.bodyLiteral, Option.ite_none_right_eq_some, Option.some.injEq] at h
    obtain ⟨_, h⟩ := h
    split at h <;> cases h
  · unfold Rule.taggedCallable at h
    split at h <;> simp at h
  · simp only [Rule.slot, Option.ite_none_right_eq_some] at h
    obtain ⟨_, h⟩ := h
    split at h
    · cases h
    · simp at h
    · cases h

/-- Every module has the tag and the body of one, from wherever it is reached. -/
theorem Node.entityKind?_eq_moduleDecl_iff {n : Node} {position : Position} :
    n.entityKind? position = some .moduleDecl ↔ n.isModule = true := by
  have htagged : Rule.tagged n position = some .moduleDecl ↔ n.isModule = true := by
    unfold Rule.tagged Node.isModule
    split <;> simp_all
  constructor
  · intro h
    obtain ⟨rule, hrule, hk⟩ := List.exists_of_findSome?_eq_some (Node.recognize?_of_entityKind? h).1
    rw [Rule.eq_tagged_of_moduleDecl hrule hk] at hk
    exact htagged.mp hk
  · intro h
    have hrecognized : n.recognize? position = some .moduleDecl := by
      rw [Node.recognize?, Node.recognizeBy?, Rule.all, List.findSome?_cons, htagged.mpr h]
    rw [Node.entityKind?, hrecognized]
    rfl

theorem DeclKind.entityKind_injective : Function.Injective DeclKind.entityKind := by
  intro a b h
  cases a <;> cases b <;> first | rfl | cases h

/-- Whether a node is a module that the options do not leave out. -/
def Node.isListedModule (o : Options) (n : Node) : Bool :=
  n.isModule && !(o.skipExternalModules && n.flags.isExternal)

/-- The children of the root with the base shape of a declaration. -/
def Json.childNodes (root : Json) : List Node := (root.listAt "children").filterMap Node.ofJson?

namespace Graph

variable {root : Json} {o : Options} {g : Graph} {t : Build.State}

/-- What is settled for a node is a module when the node is one. -/
theorem EndsIn.kind_eq_moduleDecl_iff (ht : g.EndsIn root o t) (hdistinct : root.IdsDistinct) {n : Node}
    (hn : n.StandsIn root) {r : Resolution} (hr : g.view.resolution? n.id = some r) :
    r.kind = some .moduleDecl ↔ n.isModule = true := by
  obtain ⟨m, hm, rfl⟩ := Option.map_eq_some_iff.mp hr
  obtain ⟨n', position, hn', hid, hbuilt⟩ := ht.recognized hm
  obtain rfl := hn'.eq_of_id hn hdistinct hid
  rw [← @Node.entityKind?_eq_moduleDecl_iff _ position]
  rcases hbuilt with ⟨rfl, hk⟩ | ⟨hne, kind, hk, hkind⟩
  · rw [hk, (ht.kind_eq_none_iff hr).mpr rfl]
  · rw [hk]
    cases hkind' : (g.get? m).bind Entity.declKind? with
    | none => exact absurd ((ht.kind_eq_none_iff hr).mp hkind') hne
    | some kind' =>
      have heq := (kindAt?_of_resolution? hr hkind').1
      rw [hkind] at heq
      rw [DeclKind.entityKind_injective (Option.some.inj heq)]

/-- The modules among what children of the root are settled as. -/
theorem EndsIn.map_settled_modules (ht : g.EndsIn root o t) (hdistinct : root.IdsDistinct) {children : List Json}
    {found : List Resolution} (hinside : ∀ v ∈ children, v.Within root)
    (hfound : List.Forall₂ g.view.Resolves children found) :
    ((found.filter fun r => r.kind = some .moduleDecl).map (·.entity)).map some =
      ((children.filterMap Node.ofJson?).filter Node.isModule).map fun n => g.entityOf? n.id := by
  induction hfound with
  | nil => rfl
  | @cons v r vs rest hr _ ih =>
    replace ih := ih fun w hw => hinside w (List.mem_cons_of_mem v hw)
    cases hn : Node.ofJson? v with
    | none =>
      obtain rfl := (View.resolves_of_unreadable hn).mp hr
      rw [List.filterMap_cons_none hn, List.filter_cons_of_neg (by simp)]
      exact ih
    | some n =>
      have hstands : n.StandsIn root := Node.standsIn_of_ofJson? hn (hinside v List.mem_cons_self)
      have hresolution := (View.resolves_of_node hn).mp hr
      have hkind := ht.kind_eq_moduleDecl_iff hdistinct hstands hresolution
      rw [List.filterMap_cons_some hn]
      by_cases hmodule : n.isModule = true
      · obtain ⟨m, hm, hr⟩ := Option.map_eq_some_iff.mp hresolution
        rw [List.filter_cons_of_pos (by simpa using hkind.mpr hmodule), List.filter_cons_of_pos hmodule, List.map_cons,
          List.map_cons, List.map_cons, hm, ih, ← hr]
      · rw [List.filter_cons_of_neg (by simpa using fun h => hmodule (hkind.mp h)), List.filter_cons_of_neg hmodule]
        exact ih

/-- Leaving out children is leaving out nodes. -/
theorem filter_isModule_kept (children : List Json) :
    (((children.filter fun v => !o.skipsModule v).filterMap Node.ofJson?).filter Node.isModule) =
      (children.filterMap Node.ofJson?).filter (·.isListedModule o) := by
  have hskips : o.skipsModule = fun v => (Node.ofJson? v).any fun n => o.skipExternalModules && n.flags.isExternal := by
    funext v
    cases hn : Node.ofJson? v <;> simp [Options.skipsModule, hn]
  rw [hskips, Node.filterMap_kept, List.filter_filter]
  rfl

/-- The modules are the entities of the children of the root that are listed as modules. -/
theorem EndsIn.map_modules (ht : g.EndsIn root o t) (hdistinct : root.IdsDistinct) :
    g.modules.map some = (root.childNodes.filter (·.isListedModule o)).map fun n => g.entityOf? n.id := by
  obtain ⟨found, hfound, hmodules⟩ := ht.ensured ht.modules
  have hinside : ∀ v ∈ (root.listAt "children").filter fun v => !g.view.options.skipsModule v, v.Within root :=
    fun v hv => .inr (Json.inside_of_mem_listAt (List.mem_filter.mp hv).1)
  rw [hmodules, ht.map_settled_modules hdistinct hinside hfound, filter_isModule_kept, Json.childNodes]
  rw [show g.view.options = o from ht.options]

/-- No module is listed twice: the children of the root have different ids, and so have their entities. -/
theorem EndsIn.nodup_modules (ht : g.EndsIn root o t) (hdistinct : root.IdsDistinct) : g.modules.Nodup := by
  have hids : (root.childNodes.map Node.id).Nodup :=
    hdistinct.sublist ((Json.filterMap_listAt_sublist_nodes "children" root).map _)
  have hmap := ht.map_modules hdistinct
  apply List.Nodup.of_map some
  rw [hmap]
  refine List.Nodup.map_on ?_ (hids.of_map.filter _)
  intro n hn n' hn' heq
  obtain ⟨m, hm, hentity⟩ := List.mem_map.mp (hmap ▸ List.mem_map_of_mem hn)
  obtain ⟨s, hs⟩ := ht.moduleDecl_of_mem hm
  have hborne {c : Node} (hc : g.entityOf? c.id = some m) : s.id = c.id := by
    rcases ht.answered hc with rfl | ⟨e, he, hid⟩
    · rw [ht.get?_unknown] at hs
      cases hs
    · rw [hs] at he
      cases he
      exact Option.some.inj hid
  have hid : n.id = n'.id := (hborne hentity.symm).symm.trans (hborne (heq ▸ hentity.symm))
  exact List.inj_on_of_nodup_map hids (List.mem_filter.mp hn).1 (List.mem_filter.mp hn').1 hid

/-! ## Names -/

/-- The first module of a name stands at position `i` of the modules. -/
def FirstNamed (g : Graph) (name : String) (i : Nat) : Prop :=
  g.moduleNames[i]? = some name ∧ ∀ j < i, g.moduleNames[j]? ≠ some name

theorem FirstNamed.unique {name : String} {i j : Nat} (hi : g.FirstNamed name i) (hj : g.FirstNamed name j) : i = j :=
  Nat.le_antisymm (Nat.le_of_not_lt fun h => hi.2 j h hj.1) (Nat.le_of_not_lt fun h => hj.2 i h hi.1)

/-- No module has a name that is not listed. -/
theorem find?_modules_eq_none_iff {name : String} :
    (g.modules.find? fun id => g.nameAt? id = some name) = none ↔ name ∉ g.moduleNames := by
  simp [moduleNames, List.find?_eq_none]

/-- Where every element is found in one form, nothing is left out of what the form holds. -/
theorem map_eq_map_filterMap {α β γ : Type} {find : α → Option β} {view : α → Option γ} {form : γ → β} {xs : List α}
    (h : ∀ x ∈ xs, ∃ c, find x = some (form c) ∧ view x = some c) :
    xs.map find = (xs.filterMap view).map fun c => some (form c) := by
  induction xs with
  | nil => rfl
  | cons x xs ih =>
    obtain ⟨c, hfind, hview⟩ := h x List.mem_cons_self
    rw [List.filterMap_cons_some hview, List.map_cons, List.map_cons, hfind,
      ih fun x' hx' => h x' (List.mem_cons_of_mem x hx')]

section

variable (ht : g.EndsIn root o t)

include ht

theorem EndsIn.map_get?_modules : g.modules.map g.get? = g.moduleScopes.map fun s => some (.moduleDecl s) := by
  refine map_eq_map_filterMap fun m hm => ?_
  obtain ⟨s, hs⟩ := ht.moduleDecl_of_mem hm
  exact ⟨s, hs, by rw [scopeAt?, hs]; rfl⟩

/-- A module bears the name of its scope. -/
theorem EndsIn.map_nameAt?_modules : g.modules.map g.nameAt? = g.moduleScopes.map fun s => some s.name := by
  have hnames : g.modules.map g.nameAt? = (g.modules.map g.get?).map fun e? => e?.bind Entity.name? := by
    rw [List.map_map]
    rfl
  rw [hnames, ht.map_get?_modules, List.map_map]
  rfl

theorem EndsIn.moduleNames_eq : g.moduleNames = g.moduleScopes.map (·.name) := by
  have hnames : g.moduleNames = (g.modules.map g.nameAt?).filterMap id := by
    rw [List.filterMap_map]
    rfl
  rw [hnames, ht.map_nameAt?_modules, List.filterMap_map]
  exact congrFun List.filterMap_eq_map _

/-- The scope at a position is that of the module at the position. -/
theorem EndsIn.getElem?_moduleScopes {i : Nat} {m : EntityId} {s : Scope} (hm : g.modules[i]? = some m)
    (hs : g.get? m = some (.moduleDecl s)) : g.moduleScopes[i]? = some s := by
  have hat : g.modules[i]?.map g.get? = g.moduleScopes[i]?.map fun s => some (.moduleDecl s) := by
    rw [← List.getElem?_map, ht.map_get?_modules, List.getElem?_map]
  rw [hm, Option.map_some, hs] at hat
  obtain ⟨_, hscope, heq⟩ := Option.map_eq_some_iff.mp hat.symm
  cases heq
  exact hscope

theorem EndsIn.getElem?_moduleNames (i : Nat) : g.modules[i]?.map g.nameAt? = g.moduleNames[i]?.map some := by
  rw [← List.getElem?_map, ht.map_nameAt?_modules, ht.moduleNames_eq, List.getElem?_map, List.getElem?_map,
    Option.map_map]
  rfl

theorem EndsIn.find?_modules_iff {name : String} {m : EntityId} :
    (g.modules.find? fun id => g.nameAt? id = some name) = some m ↔
      ∃ i, g.FirstNamed name i ∧ g.modules[i]? = some m := by
  have hnamed (j : Nat) : g.moduleNames[j]? = some name ↔ ∃ k, g.modules[j]? = some k ∧ g.nameAt? k = some name := by
    have hj := ht.getElem?_moduleNames j
    constructor
    · intro hname
      rw [hname] at hj
      exact Option.map_eq_some_iff.mp hj
    · rintro ⟨k, hk, hname⟩
      rw [hk, Option.map_some, hname] at hj
      obtain ⟨_, hfound, heq⟩ := Option.map_eq_some_iff.mp hj.symm
      exact Option.some.inj heq ▸ hfound
  rw [List.find?_eq_some_iff_getElem]
  constructor
  · rintro ⟨hm, i, hi, rfl, hfirst⟩
    refine ⟨i, ⟨(hnamed i).mpr ⟨_, List.getElem?_eq_getElem hi, of_decide_eq_true hm⟩, fun j hj hname => ?_⟩,
      List.getElem?_eq_getElem hi⟩
    obtain ⟨k, hk, hname⟩ := (hnamed j).mp hname
    obtain ⟨hlt, rfl⟩ := List.getElem?_eq_some_iff.mp hk
    simpa [hname] using hfirst j hj
  · rintro ⟨i, ⟨hname, hfirst⟩, hm⟩
    obtain ⟨hi, rfl⟩ := List.getElem?_eq_some_iff.mp hm
    obtain ⟨k, hk, hname⟩ := (hnamed i).mp hname
    rw [hm] at hk
    cases hk
    refine ⟨decide_eq_true hname, i, hi, rfl, fun j hj => ?_⟩
    have hj' : g.nameAt? g.modules[j] ≠ some name := fun h =>
      hfirst j hj ((hnamed j).mpr ⟨_, List.getElem?_eq_getElem (Nat.lt_trans hj hi), h⟩)
    simpa using hj'

end

/-- Where there is no module of a name, both questions for it fail. -/
theorem not_found {name : String} (hfind : (g.modules.find? fun id => g.nameAt? id = some name) = none) :
    g.moduleId name = .error (.moduleNotFound name) ∧ g.module name = .error (.moduleNotFound name) := by
  have hid : g.moduleId name = .error (.moduleNotFound name) := by rw [moduleId, hfind]
  refine ⟨hid, ?_⟩
  rw [module, hid]
  rfl

theorem EndsIn.module_eq_ok_iff (ht : g.EndsIn root o t) {name : String} {s : Scope} :
    g.module name = .ok s ↔ ∃ i, g.FirstNamed name i ∧ g.moduleScopes[i]? = some s := by
  cases hfind : g.modules.find? fun id => g.nameAt? id = some name with
  | none =>
    rw [(not_found hfind).2]
    constructor
    · rintro ⟨⟩
    · rintro ⟨i, ⟨hname, _⟩, _⟩
      exact absurd (List.mem_of_getElem? hname) (find?_modules_eq_none_iff.mp hfind)
  | some m =>
    obtain ⟨s', hs', hmodule⟩ := ht.module_of_find? hfind
    obtain ⟨i, hfirst, hi⟩ := ht.find?_modules_iff.mp hfind
    have hscope := ht.getElem?_moduleScopes hi hs'
    rw [hmodule, Except.ok.injEq]
    constructor
    · rintro rfl
      exact ⟨i, hfirst, hscope⟩
    · rintro ⟨j, hfirst', hj⟩
      obtain rfl : j = i := hfirst'.unique hfirst
      rw [hscope] at hj
      exact Option.some.inj hj

/-- A question for a module fails in one way only, and only where no module has the name. -/
theorem EndsIn.module_eq_error_iff (ht : g.EndsIn root o t) {name : String} {f : Failure} :
    g.module name = .error f ↔ name ∉ g.moduleNames ∧ f = .moduleNotFound name := by
  cases hfind : g.modules.find? fun id => g.nameAt? id = some name with
  | none =>
    rw [(not_found hfind).2, Except.error.injEq]
    exact ⟨fun h => ⟨find?_modules_eq_none_iff.mp hfind, h.symm⟩, fun h => h.2.symm⟩
  | some m =>
    obtain ⟨s, _, hmodule⟩ := ht.module_of_find? hfind
    rw [hmodule]
    constructor
    · rintro ⟨⟩
    · rintro ⟨hname, _⟩
      rw [← find?_modules_eq_none_iff, hfind] at hname
      cases hname

/-- What a graph answers about its modules. -/
structure AnswersModules (g : Graph) (root : Json) (o : Options) : Prop where
  /-- At each position there is the place of a module whose scope is listed at the same position. -/
  listed : g.modules.map g.get? = g.moduleScopes.map fun s => some (.moduleDecl s)
  named : g.moduleNames = g.moduleScopes.map (·.name)
  /-- A name is answered with the first module that bears it, exactly if there is one. -/
  found {name : String} {m : EntityId} : g.moduleId name = .ok m ↔
    ∃ i, g.FirstNamed name i ∧ g.modules[i]? = some m
  described {name : String} {s : Scope} : g.module name = .ok s ↔
    ∃ i, g.FirstNamed name i ∧ g.moduleScopes[i]? = some s
  missing {name : String} {f : Failure} : g.moduleId name = .error f ↔
    name ∉ g.moduleNames ∧ f = .moduleNotFound name
  undescribed {name : String} {f : Failure} : g.module name = .error f ↔
    name ∉ g.moduleNames ∧ f = .moduleNotFound name
  /-- Where ids are distinct, the modules are the entities of those children of the root that are listed as modules. -/
  fromDocument : root.IdsDistinct →
    g.modules.map some = (root.childNodes.filter (·.isListedModule o)).map fun n => g.entityOf? n.id
  once : root.IdsDistinct → g.modules.Nodup

/-- The modules of a finished graph are those of its document, and answer for their names. -/
theorem answersModules_of_ofJson (h : ofJson root o = .ok g) : g.AnswersModules root o := by
  obtain ⟨t, ht⟩ := endsIn_of_ofJson h
  constructor
  case listed => exact ht.map_get?_modules
  case named => exact ht.moduleNames_eq
  case found =>
    intro name m
    rw [← ht.find?_modules_iff, moduleId]
    cases g.modules.find? fun id => g.nameAt? id = some name <;> simp
  case described => exact ht.module_eq_ok_iff
  case missing =>
    intro name f
    rw [← find?_modules_eq_none_iff, moduleId]
    cases g.modules.find? fun id => g.nameAt? id = some name <;> simp [eq_comm]
  case undescribed => exact ht.module_eq_error_iff
  case fromDocument => exact ht.map_modules
  case once => exact ht.nodup_modules

/-- Two modules of one name with another between them; an alias in the first refers to the last. The other children of
the root are an external module, a class and a value without the base shape. -/
def market : Json :=
  .obj [("children", .arr [
    nodeWith 1 .externalModule "stall" [("children", .arr [
      nodeWith 2 .typeAlias "Next" [("type", .obj [("type", .str "reference"), ("id", .ofNat 4)])]])],
    nodeWith 3 .externalModule "hall" [],
    nodeWith 4 .externalModule "stall" [],
    nodeWith 5 .externalModule "far" [("flags", .obj [("isExternal", .bool true)])],
    nodeWith 6 .classDecl "Scale" [],
    .null])]

/-- The last module is reached through the reference before the one between them, and listed where the root has it. -/
theorem answersModules_market : ∃ g, ofJson market { skipExternalModules := true } = .ok g ∧ market.IdsDistinct ∧
    g.references = [(⟨4⟩, ⟨9⟩)] ∧ g.modules = [⟨7⟩, ⟨10⟩, ⟨9⟩] ∧ g.moduleNames = ["stall", "hall", "stall"] ∧
    g.AnswersModules market { skipExternalModules := true } := by
  have hrun : (ofJson market { skipExternalModules := true }).toOption.map
      (fun g => (g.references, g.modules, g.moduleNames)) =
        some ([(⟨4⟩, ⟨9⟩)], [⟨7⟩, ⟨10⟩, ⟨9⟩], ["stall", "hall", "stall"]) := by
    decide +kernel
  have hdistinct : market.IdsDistinct := by
    unfold Json.IdsDistinct
    decide +kernel
  obtain ⟨g, hg⟩ := exists_ofJson (o := { skipExternalModules := true }) (rfl : rootFault? market = none)
  rw [hg] at hrun
  have hgraph := Option.some.inj hrun
  exact ⟨g, hg, hdistinct, congrArg (·.1) hgraph, congrArg (·.2.1) hgraph, congrArg (·.2.2) hgraph,
    answersModules_of_ofJson hg⟩

end Graph

end EntityGraph

import EntityGraph.Proofs.Modules

/-!
# Classes by name

A graph finds the classes of a name in two ways, as places and as shapes. Both go over the classes of the modules, which
are the members with the entity of a class (`Graph.EndsIn.filter_classes`). So the places are those of the members that
are classes of the name, module by module, and the shapes are those at these places, position by position
(`Graph.findsClasses_of_ofJson`), also where a class was first reached from another module.
-/

namespace EntityGraph.Graph

variable {root : Json} {o : Options} {g : Graph} {t : Build.State}

/-- Whether a class of a name stands at a place. -/
def hasClass (g : Graph) (name : String) (m : EntityId) : Bool :=
  ((g.get? m).bind Entity.class?).any fun c => c.body.name = name

/-- What a graph finds for the name of a class. -/
structure FindsClasses (g : Graph) (name : String) : Prop where
  /-- The classes of a name are found module by module, in the order of the members of each. -/
  ids : ∃ parts, g.classIds name = parts.flatten ∧
    List.Forall₂ (fun m part => ∃ s, g.get? m = some (.moduleDecl s) ∧ part = s.members.filter (g.hasClass name))
      g.modules parts
  /-- At each position there is the shape of the class whose place is at the same position. -/
  shapes : (g.classIds name).map g.get? = (g.classes name).map fun c => some (.classDecl c)
  length : (g.classes name).length = (g.classIds name).length

theorem hasClass_iff {name : String} {m : EntityId} :
    g.hasClass name m = true ↔ ∃ c, g.get? m = some (.classDecl c) ∧ c.body.name = name := by
  rw [hasClass]
  cases g.get? m with
  | none => simp
  | some e => cases e <;> simp [Entity.class?]

/-- A class of a name is an entity of the kind of classes that bears the name. -/
theorem hasClass_eq (name : String) (m : EntityId) :
    g.hasClass name m = ((g.kindAt? m).any [EntityKind.classDecl].contains && decide (g.nameAt? m = some name)) := by
  rw [hasClass, kindAt?, nameAt?]
  cases g.get? m with
  | none => rfl
  | some e =>
    cases e with
    | classDecl c => simp [Entity.class?, Entity.kind, Entity.name?]
    | property p => cases hp : p.isAccessor <;> simp [Entity.class?, Entity.kind, hp]
    | callable c => cases hc : c.kind <;> simp [Entity.class?, Entity.kind, CallableKind.entityKind, hc]
    | primitive | unknown | array | union | intersection | stringLiteral | typeParameter | typeOperator
    | externalReference | moduleDecl | namespaceDecl | interfaceDecl | interfaceLiteral | objectLiteral | enumDecl
    | typeAlias => rfl

section

variable (ht : g.EndsIn root o t)

include ht

/-- The lists of a scope in a graph are its members by kind. -/
theorem EndsIn.dealsOut {m : EntityId} {e : Entity} {s : Scope} (hm : g.get? m = some e) (hs : e.scope? = some s) :
    g.DealsOut s := by
  obtain ⟨_, _, _, _, _, _, _, _, hshow, _⟩ := ht.declared hm (Entity.declId?_of_scope? hs)
  exact dealsOut_of_scopeOf (scopeOf_of_shows hshow hs)

/-- The classes of a name among the classes of a module are those among its members. -/
theorem EndsIn.filter_classes {m : EntityId} {s : Scope} (hm : g.get? m = some (.moduleDecl s)) (name : String) :
    (s.classes.filter fun id => g.nameAt? id = some name) = s.members.filter (g.hasClass name) := by
  rw [(ht.dealsOut hm rfl).classes, ofKinds, List.filter_filter]
  refine List.filter_congr fun id _ => ?_
  rw [hasClass_eq, Bool.and_comm]

/-- The scopes of the modules are listed as the modules are. -/
theorem EndsIn.forall₂_moduleScopes :
    List.Forall₂ (fun m s => g.get? m = some (.moduleDecl s)) g.modules g.moduleScopes := by
  have hlisted := List.forall₂_eq_eq_eq ▸ ht.map_get?_modules
  rwa [List.forall₂_map_left_iff, List.forall₂_map_right_iff] at hlisted

theorem EndsIn.classIds_eq (name : String) :
    g.classIds name = (g.moduleScopes.map fun s => s.members.filter (g.hasClass name)).flatten := by
  rw [classIds, List.filter_flatMap, List.flatMap_def]
  congr 1
  refine List.map_congr_left fun s hs => ?_
  obtain ⟨m, _, hm⟩ := exists_rel_of_mem ht.forall₂_moduleScopes hs
  exact ht.filter_classes hm name

end

/-- A graph finds exactly the classes that are members of modules and bear the name. -/
theorem findsClasses_of_ofJson (h : ofJson root o = .ok g) (name : String) : g.FindsClasses name := by
  obtain ⟨t, ht⟩ := endsIn_of_ofJson h
  have hids := ht.classIds_eq name
  have hclass : ∀ m ∈ g.classIds name, ∃ c, g.get? m = some (.classDecl c) := by
    intro m hm
    rw [hids, ← List.flatMap_def] at hm
    obtain ⟨s, _, hm⟩ := List.mem_flatMap.mp hm
    obtain ⟨c, hc, _⟩ := hasClass_iff.mp (List.mem_filter.mp hm).2
    exact ⟨c, hc⟩
  have hshapes : (g.classIds name).map g.get? = (g.classes name).map fun c => some (.classDecl c) := by
    refine map_eq_map_filterMap fun m hm => ?_
    obtain ⟨c, hc⟩ := hclass m hm
    exact ⟨c, hc, by rw [hc]; rfl⟩
  refine ⟨⟨_, hids, ?_⟩, hshapes, ?_⟩
  · rw [List.forall₂_map_right_iff]
    exact ht.forall₂_moduleScopes.imp fun m s hm => ⟨s, hm, rfl⟩
  · have hlength := congrArg List.length hshapes
    rw [List.length_map, List.length_map] at hlength
    exact hlength.symm

/-- Two modules with a class of one name, which also an interface and a class of a namespace have; an alias in the first
module refers to the class in the second. -/
def workshops : Json :=
  .obj [("children", .arr [
    nodeWith 1 .externalModule "front" [("children", .arr [
      nodeWith 2 .typeAlias "Next" [("type", .obj [("type", .str "reference"), ("id", .ofNat 8)])],
      nodeWith 3 .classDecl "Widget" [],
      nodeWith 4 .namespaceModule "inner" [("children", .arr [nodeWith 5 .classDecl "Widget" []])]])],
    nodeWith 6 .externalModule "back" [("children", .arr [
      nodeWith 7 .interfaceDecl "Widget" [], nodeWith 8 .classDecl "Widget" [], nodeWith 9 .classDecl "Gadget" []])]])]

/-- The class of the second module gets its place first, and is found where its module lists it. -/
theorem findsClasses_workshops : ∃ g, ofJson workshops {} = .ok g ∧ g.classIds "Widget" = [⟨10⟩, ⟨9⟩] ∧
    (g.classes "Widget").map (·.body.id) = [⟨3⟩, ⟨8⟩] ∧ g.FindsClasses "Widget" := by
  have hrun : (ofJson workshops {}).toOption.map
      (fun g => (g.classIds "Widget", (g.classes "Widget").map (·.body.id))) = some ([⟨10⟩, ⟨9⟩], [⟨3⟩, ⟨8⟩]) := by
    decide +kernel
  obtain ⟨g, hg⟩ := exists_ofJson (o := {}) (rfl : rootFault? workshops = none)
  rw [hg] at hrun
  have hpair := Option.some.inj hrun
  exact ⟨g, hg, congrArg Prod.fst hpair, congrArg Prod.snd hpair, findsClasses_of_ofJson hg "Widget"⟩

end EntityGraph.Graph

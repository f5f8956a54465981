import EntityGraph.Build.Entry

/-!
# Visitors

What is built for a value needs what is built for the values inside it. A visitor resolves these: it takes a value with
the proof that it lies inside the host, so whatever works through a visitor only descends.
-/

namespace EntityGraph

/-- A member of a scope or a shape: the name that it has there, its kind and its entity. -/
structure Member where
  name : String
  kind : DeclKind
  entity : EntityId
deriving DecidableEq, Inhabited

/-- The entities of the members of some kinds. -/
def Member.entities (ms : List Member) (p : DeclKind → Bool) : List EntityId :=
  (ms.filter fun m => p m.kind).map (·.entity)

/-- Whether options leave a member out. -/
def Options.skips (o : Options) (v : Json) : Bool :=
  o.skipPrivateMembers && (Node.ofJson? v).any fun n => n.flags.isPrivate

/-- How types and declarations inside a host are resolved. -/
structure Visitor (host : Json) where
  type : (v : Json) → v.Inside host → Position → Build EntityId
  declaration : (v : Json) → v.Inside host → Position → Build Resolution

namespace Visitor

open Build (forEach)

variable {host : Json}

/-- The visitor of a value inside the host. -/
def within (visit : Visitor host) {part : Json} (h : part.Inside host) : Visitor part where
  type v hv := visit.type v (hv.trans h)
  declaration v hv := visit.declaration v (hv.trans h)

/-- Resolves types in order. -/
def types (visit : Visitor host) (vs : List Json) (inside : ∀ v ∈ vs, v.Inside host) (position : Position) :
    Build (List EntityId) :=
  forEach vs inside fun v h => visit.type v h position

/-- Resolves a type that may be absent; the unknown type stands for what is absent. -/
def type? (visit : Visitor host) (v? : Option Json) (inside : ∀ v, v? = some v → v.Inside host)
    (position : Position) : Build EntityId :=
  match v?, inside with
  | some v, inside => visit.type v (inside v rfl) position
  | none, _ => return Builtin.unknown

/-- Resolves the children that options do not leave out, and gives those that are recognized. -/
def members (visit : Visitor host) (children : List Json) (inside : ∀ v ∈ children, v.Inside host)
    (position : Position) : Build (List Member) := do
  let options := (← read).options
  let kept := children.filter fun v => !options.skips v
  let found ← forEach kept (fun v h => inside v (List.mem_filter.mp h).1) fun v h => do
    let found ← visit.declaration v h position
    return found.kind.map fun kind =>
      { name := ((Node.ofJson? v).map Node.name).getD "", kind, entity := found.entity : Member }
  return found.filterMap id

end Visitor

end EntityGraph

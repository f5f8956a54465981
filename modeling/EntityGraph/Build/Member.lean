import EntityGraph.Build.Visitor

/-!
# Properties, aliases and enumerations

The entities of declarations without a body: type aliases, properties, accessors and enumerations.
-/

namespace EntityGraph

/-- The position of the type of a property at a position: literals inside object literals denote values. -/
def Position.ofSlot (position : Position) : Position :=
  if position.isInitializer then .initializer else .declaredType

/-- The type of an accessor: what the getter gives, or else what the setter takes. -/
def Node.accessorType? (n : Node) : Option Json :=
  (n.getter?.bind Node.type?).or (n.setter?.bind Node.firstParameterType?)

theorem Node.inside_accessorType? {n : Node} {w : Json} (h : n.accessorType? = some w) : w.Inside n.value := by
  rcases Option.or_eq_some_iff.mp h with h | ⟨_, h⟩
  · obtain ⟨g, hg, hw⟩ := Option.bind_eq_some_iff.mp h
    exact (inside_type? hw).trans (inside_getter? hg)
  · obtain ⟨s, hs, hw⟩ := Option.bind_eq_some_iff.mp h
    exact (inside_firstParameterType? hw).trans (inside_setter? hs)

/-- The documentation of an accessor, which stands with it or with its getter or setter. -/
def Node.accessorDoc? (n : Node) : Option DocComment :=
  n.doc?.or ((n.getter?.bind Node.doc?).or (n.setter?.bind Node.doc?))

namespace Build

/-- An alias stands for its type. -/
def typeAlias (n : Node) (visit : Visitor n.value) : Build Entity := do
  let target ← visit.type? n.type? (fun _ => Node.inside_type?) .declaredType
  return .typeAlias { name := n.name, id := n.id, comment := n.doc?, typeParameters := n.typeParameterNames, target }

/-- A property can be read, and written unless it is constant. -/
def property (n : Node) (position : Position) (visit : Visitor n.value) : Build Entity := do
  let type ← visit.type? n.type? (fun _ => Node.inside_type?) position.ofSlot
  return .property {
    name := n.name, id := n.id, flags := n.flags, comment := n.doc?, type, defaultValue := n.defaultValue?
    readable := true, writeable := !n.flags.isConst, isAccessor := false }

/-- An accessor can be read through a getter and written through a setter. -/
def accessor (n : Node) (visit : Visitor n.value) : Build Entity := do
  let type ← visit.type? n.accessorType? (fun _ => Node.inside_accessorType?) .declaredType
  return .property {
    name := n.name, id := n.id, flags := n.flags, comment := n.accessorDoc?, type, defaultValue := none
    readable := n.getter?.isSome, writeable := n.setter?.isSome, isAccessor := true }

/-- A member of an enumeration; any other child is recorded and left out. -/
def enumMember? (v : Json) : Build (Option EnumMember) := do
  match Node.ofJson? v with
  | some m =>
    if m.tag? = some .enumerationMember then
      return some { name := m.name, defaultValue := m.defaultValue?, comment := m.doc? }
    else
      report (.unrecognizedDeclaration (some m.id) (some m.kindString))
      return none
  | none =>
    report (.unrecognizedDeclaration none none)
    return none

/-- An enumeration has members and no types. -/
def enumeration (n : Node) : Build Entity := do
  let members ← forEach n.children (fun _ => Node.inside_children) fun v _ => enumMember? v
  return .enumDecl {
    name := n.name, id := n.id, flags := n.flags, comment := n.doc?, members := members.filterMap id }

end Build

end EntityGraph

import EntityGraph.Build.State
import EntityGraph.Decl.Recognition

/-!
# Entries

Before a declaration is built it is entered (`Build.enter`): either its id is settled, or it is recognized from the
place at which it is reached and gets a slot. A node that no rule recognizes, or that is an index signature outside of a
body, is pinned to the unknown type.
-/

namespace EntityGraph

/-- The kind by which an entity can be built for a node. An index signature is part of a body and has no entity. -/
def Node.entityKind? (n : Node) (position : Position) : Option DeclKind :=
  (n.recognize? position).filter (· ≠ .indexSignature)

namespace Build

/-- The outcome of entering a declaration. -/
inductive Entry
  | settled (resolution : Resolution)
  /-- The slot is new and has to be filled by whoever entered it. -/
  | fresh (kind : DeclKind) (slot : EntityId)

/-- Enters the declaration of a node. -/
def enter (n : Node) (position : Position) : Build Entry := do
  match (← get).resolutions.lookup? n.id with
  | some found => return .settled found
  | none =>
    match n.entityKind? position with
    | none =>
      report (.unrecognizedDeclaration (some n.id) (some n.kindString))
      return .settled (← pinUnknown n.id)
    | some kind =>
      match ← reserve n.id kind with
      | .existing found => return .settled found
      | .fresh slot => return .fresh kind slot

/-- Settles a value that lacks the base shape of a declaration. -/
def unreadable (v : Json) : Build Resolution := do
  report (.unrecognizedDeclaration none (v.stringAt? "kindString"))
  return ⟨Builtin.unknown, none⟩

/-- Enters a declaration that is reached through a reference. Its entity waits, so that references neither nest nor
count as nesting. -/
def enterLater (n : Node) (position : Position) : Build Resolution := do
  match ← enter n position with
  | .settled found => return found
  | .fresh kind slot =>
    defer { node := n, kind, position, slot }
    return ⟨slot, some kind⟩

/-- The entity that a reference stands for. -/
def target (id : DeclId) : Build EntityId := do
  match (← get).resolutions.lookup? id with
  | some found => return found.entity
  | none =>
    match (← read).index.lookup? id with
    | some n => return (← enterLater n .reference).entity
    | none =>
      report (.danglingReference id)
      return Builtin.unknown

/-- Follows a reference. -/
def follow (id : DeclId) : Build EntityId := do
  let entity ← target id
  refer id entity
  return entity

end Build

end EntityGraph

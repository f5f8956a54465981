import EntityGraph.Builtin
import EntityGraph.Index
import EntityGraph.Options.Basic
import EntityGraph.Resolution

/-!
# The state of a resolution

A resolution reads its options and the index of the document, and works on the arena of entities, the settled
declarations, the diagnostics and the stack of declarations that wait for their entities (`Build`). It keeps a record of
the references that it follows and of the declarations that it builds. Only a breach ends it early.
-/

namespace EntityGraph

/-- A declaration that was reached through a reference: its slot is reserved and its entity is yet to be built. -/
structure Waiting where
  node : Node
  kind : DeclKind
  position : Position
  slot : EntityId
deriving Inhabited

namespace Build

/-- What a resolution reads. -/
structure Context where
  options : Options
  index : Index

/-- What a resolution works on. -/
structure State where
  arena : Arena := Builtin.arena
  resolutions : Resolutions := {}
  diagnostics : Array Diagnostic := #[]
  /-- The declarations that wait, the last reached first. -/
  waiting : List Waiting := []
  /-- The references that were followed and the entities they were found to stand for, the last first. -/
  references : List (DeclId × EntityId) := []
  /-- The declarations of which the entity was begun, once for each time, the last first. -/
  begun : List DeclId := []
  /-- How many type expressions stand around the value at hand, for visitors that look it up here
  (`Register.visitor`). -/
  depth : Nat := 0

end Build

/-- A step of a resolution. -/
abbrev Build := ReaderT Build.Context (StateT Build.State (Except Breach))

namespace Build

/-- Records a diagnostic. -/
def report (d : Diagnostic) : Build Unit := modify fun s => { s with diagnostics := s.diagnostics.push d }

/-- Stores a finished entity. -/
def alloc (m : Entity) : Build EntityId :=
  modifyGet fun s => let (id, arena) := s.arena.alloc m; (id, { s with arena })

/-- Fills a reserved slot. -/
def fill (slot : EntityId) (m : Entity) : Build Unit := do
  let arena ← (← get).arena.fill slot m
  modify fun s => { s with arena }

/-- Reserves a slot for a declaration unless it is settled. -/
def reserve (decl : DeclId) (kind : DeclKind) : Build Reservation :=
  modifyGet fun s =>
    let (reservation, resolutions, arena) := s.resolutions.reserve decl kind s.arena
    (reservation, { s with resolutions, arena })

/-- Pins a declaration to the unknown type unless it is settled. -/
def pinUnknown (decl : DeclId) : Build Resolution :=
  modifyGet fun s =>
    let (found, resolutions) := s.resolutions.pin decl Builtin.unknown
    (found, { s with resolutions })

/-- Puts a declaration on the stack of those that wait. -/
def defer (p : Waiting) : Build Unit := modify fun s => { s with waiting := p :: s.waiting }

/-- Keeps on record what a reference stands for. -/
def refer (decl : DeclId) (m : EntityId) : Build Unit :=
  modify fun s => { s with references := (decl, m) :: s.references }

/-- Keeps on record that the entity of a declaration is begun. -/
def begin (decl : DeclId) : Build Unit := modify fun s => { s with begun := decl :: s.begun }

/-- Runs a step for each element of a list, with the proof of what holds of all of them, and collects the results. -/
def forEach {α β : Type} {P : α → Prop} :
    (xs : List α) → (∀ x ∈ xs, P x) → ((x : α) → P x → Build β) → Build (List β)
  | [], _, _ => pure []
  | x :: xs, holds, step => do
    let y ← step x (holds x List.mem_cons_self)
    let ys ← forEach xs (fun x' h => holds x' (List.mem_cons_of_mem x h)) step
    return y :: ys

end Build

end EntityGraph

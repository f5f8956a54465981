import EntityGraph.Build.Pass

/-!
# The depth in the state

`Build.visitType` is told how many type expressions stand around a value. A resolution may as well keep count of them in
its state (`State.depth`): `Register.visitType` looks there whether to cut off, adds one before it goes inside and takes
one off when it comes back. What lies in between has to leave the count as it was; nothing in the definitions sees to
that. `Register.pass` resolves a whole document in this way.

A reference may be followed to any value in the place of a declaration (`Build.visitLater`); what `Build.target` finds
in the index is such a value.
-/

namespace EntityGraph.Build

/-- The same state with another count of the type expressions around the value at hand. -/
def State.atDepth (s : State) (depth : Nat) : State := { s with depth }

theorem State.atDepth_self {s : State} {depth : Nat} (h : s.depth = depth) : s.atDepth depth = s := by
  subst h
  rfl

/-- Enters a value in the place of a declaration; if it is new, its entity waits. -/
def visitLater (v : Json) (position : Position) : Build Resolution :=
  match Node.ofJson? v with
  | some n => enterLater n position
  | none => unreadable v

namespace Register

mutual

/-- Resolves a type expression that stands inside as many others as the state says. -/
def visitType (v : Json) (position : Position) : Build EntityId := do
  let depth := (← get).depth
  if (← read).options.maxTypeDepth ≤ depth then
    report (.typeDepthExceeded depth)
    return Builtin.unknown
  else
    modify fun s => s.atDepth (s.depth + 1)
    let found ← typeExpr v position
      { type := fun w _ position => visitType w position
        declaration := fun w _ position => visitDeclaration w position }
    modify fun s => s.atDepth (s.depth - 1)
    return found
termination_by sizeOf v
decreasing_by all_goals exact Json.Inside.sizeOf_lt ‹_›

/-- Resolves a declaration: it is entered, and built if it gets a slot. -/
def visitDeclaration (v : Json) (position : Position) : Build Resolution := do
  match _h : Node.ofJson? v with
  | none => unreadable v
  | some n =>
    match ← enter n position with
    | .settled found => return found
    | .fresh kind slot =>
      build n kind position slot
        { type := fun w _ position => visitType w position
          declaration := fun w _ position => visitDeclaration w position }
      return ⟨slot, some kind⟩
termination_by sizeOf v
decreasing_by all_goals exact Json.Inside.sizeOf_lt (Node.value_of_ofJson? _h ▸ ‹_›)

end

/-- The visitor of the values inside a host. -/
def visitor (host : Json) : Visitor host where
  type v _ position := visitType v position
  declaration v _ position := visitDeclaration v position

/-- Builds a declaration that waits. -/
def resume (p : Waiting) : Build Unit := build p.node p.kind p.position p.slot (visitor p.node.value)

/-- Builds the declarations that wait, in at most so many rounds. -/
def settle : (rounds : Nat) → Build Unit
  | 0 => return ()
  | rounds + 1 => do
    match (← get).waiting with
    | [] => return ()
    | p :: rest =>
      modify fun s => { s with waiting := rest }
      resume p
      settle rounds

theorem inside_of_kept (root : Json) (o : Options) :
    ∀ v ∈ (root.listAt "children").filter fun v => !o.skipsModule v, v.Inside root :=
  fun _ h => Json.inside_of_mem_listAt (List.mem_filter.mp h).1

/-- Resolves the children of the root and gives the modules among them. -/
def modules (root : Json) : Build (List EntityId) := do
  let options := (← read).options
  let kept := (root.listAt "children").filter fun v => !options.skipsModule v
  let found ← forEach kept (inside_of_kept root options) fun v h => (visitor root).declaration v h .namespaceBody
  return (found.filter fun r => r.kind = some .moduleDecl).map (·.entity)

/-- Resolves a document and gives its modules. -/
def pass (root : Json) : Build (List EntityId) := do
  let found ← modules root
  settle (← read).index.entries.length
  return found

/-! ## One level of a visit -/

theorem visitType_eq (v : Json) (position : Position) :
    visitType v position = (do
      let depth := (← get).depth
      if (← read).options.maxTypeDepth ≤ depth then
        report (.typeDepthExceeded depth)
        return Builtin.unknown
      else
        modify fun s => s.atDepth (s.depth + 1)
        let found ← typeExpr v position (visitor v)
        modify fun s => s.atDepth (s.depth - 1)
        return found) := by
  rw [visitType]
  rfl

theorem visitDeclaration_of_node {v : Json} {n : Node} (h : Node.ofJson? v = some n) (position : Position) :
    visitDeclaration v position = (do
      match ← enter n position with
      | .settled found => return found
      | .fresh kind slot =>
        build n kind position slot (visitor n.value)
        return ⟨slot, some kind⟩) := by
  rw [visitDeclaration]
  split
  · simp_all
  · next m hm =>
    obtain rfl : m = n := by simp_all
    rfl

theorem visitDeclaration_of_unreadable {v : Json} (h : Node.ofJson? v = none) (position : Position) :
    visitDeclaration v position = unreadable v := by
  rw [visitDeclaration]
  split
  · rfl
  · simp_all

end Register

end EntityGraph.Build

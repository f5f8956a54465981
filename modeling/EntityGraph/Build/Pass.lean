import EntityGraph.Build.Declaration

/-!
# A whole pass

First the children of the root are resolved in order, then the declarations that wait, the last reached first
(`Build.settle`). Building one may make others wait; but each declaration of the index waits at most once, so as many
rounds as there are declarations suffice.
-/

namespace EntityGraph

/-- Whether options leave out a child of the root. -/
def Options.skipsModule (o : Options) (v : Json) : Bool :=
  o.skipExternalModules && (Node.ofJson? v).any fun n => n.flags.isExternal

namespace Build

/-- Builds the declarations that wait, in at most so many rounds. -/
def settle : (rounds : Nat) → Build Unit
  | 0 => return ()
  | rounds + 1 => do
    match (← get).waiting with
    | [] => return ()
    | p :: rest =>
      modify fun s => { s with waiting := rest }
      build p.node p.kind p.position p.slot (visitor 0 p.node.value)
      settle rounds

/-- Resolves the children of the root and gives the modules among them. -/
def modules (root : Json) : Build (List EntityId) := do
  let options := (← read).options
  let kept := (root.listAt "children").filter fun v => !options.skipsModule v
  let found ← forEach kept (fun _ h => Json.inside_of_mem_listAt (List.mem_filter.mp h).1)
    fun v h => (visitor 0 root).declaration v h .namespaceBody
  return (found.filter fun r => r.kind = some .moduleDecl).map (·.entity)

/-- Resolves a document and gives its modules. -/
def pass (root : Json) : Build (List EntityId) := do
  let found ← modules root
  settle (← read).index.entries.length
  return found

end Build

end EntityGraph

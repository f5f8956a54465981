import EntityGraph.Diagnostic

/-!
# The index of a document

The index knows the declaration nodes of a document by id, wherever they stand (`Index.ofJson`). Of nodes with one id
it holds the first, in the order in which a value comes before its parts and the parts come in the order in which they
stand; each later one is a diagnostic.
-/

namespace EntityGraph

/-- The declaration nodes of a document, the last first; each id stands once. -/
structure Index where
  entries : List (DeclId × Node) := []
deriving Inhabited

namespace Index

/-- The node of an id. -/
def lookup? (id : DeclId) (index : Index) : Option Node := index.entries.lookup id

/-- An index and the findings made on the way to it. -/
structure Scan where
  index : Index := {}
  found : Array Diagnostic := #[]

/-- Takes one value into account, without its parts. -/
def Scan.visit (v : Json) (scan : Scan) : Scan :=
  match Node.ofJson? v with
  | none => scan
  | some n =>
    if (scan.index.lookup? n.id).isSome then { scan with found := scan.found.push (.duplicateDeclarationId n.id) }
    else { scan with index := ⟨(n.id, n) :: scan.index.entries⟩ }

theorem sizeOf_append (vs ws : List Json) : sizeOf (vs ++ ws) + 1 = sizeOf vs + sizeOf ws := by
  induction vs with
  | nil =>
    show sizeOf ws + 1 = 1 + sizeOf ws
    omega
  | cons v vs ih =>
    rw [List.cons_append, List.cons.sizeOf_spec, List.cons.sizeOf_spec]
    omega

theorem sizeOf_parts_le (v : Json) : sizeOf v.parts ≤ sizeOf v := by
  cases v with
  | obj fields =>
    have values_le : ∀ fs : List (String × Json), sizeOf (fs.map (·.2)) ≤ sizeOf fs := by
      intro fs
      induction fs with
      | nil => exact Nat.le_refl _
      | cons f rest ih =>
        rw [List.map_cons, List.cons.sizeOf_spec, List.cons.sizeOf_spec, Prod.mk.sizeOf_spec]
        omega
    have := values_le fields
    rw [Json.parts, Json.obj.sizeOf_spec]
    omega
  | arr items =>
    rw [Json.parts, Json.arr.sizeOf_spec]
    omega
  | null => exact Nat.le_refl _
  | bool w | num w | str w => exact Nat.le_add_right 1 (sizeOf w)

/-- Takes into account the values on a stack, the first on top, with all that lies inside them. -/
def scan : (stack : List Json) → Scan → Scan
  | [], s => s
  | v :: rest, s => scan (v.parts ++ rest) (s.visit v)
termination_by stack => sizeOf stack
decreasing_by
  have happend := sizeOf_append v.parts rest
  have hparts := sizeOf_parts_le v
  rw [List.cons.sizeOf_spec]
  omega

/-- The index of a document, and a diagnostic for each node whose id an earlier node carries. -/
def ofJson (root : Json) : Scan := scan [root] {}

end Index

end EntityGraph

import EntityGraph.Decl.Node

/-!
# Type expressions

`TypeExpr.ofJson` looks at one type expression, told by its key `type`, and leaves the expressions inside it as they
are written. It never fails: an expression of no known form is `unknown`. The parts of an expression lie inside it
(`TypeExpr.inside_of_mem_parts`).
-/

namespace EntityGraph

/-- One level of a type expression. -/
inductive TypeExpr
  | intrinsic (name : String)
  /-- A reference to a declaration of the document. -/
  | internalReference (id : DeclId)
  /-- A reference by name to what is not in the document. -/
  | externalReference (name : String)
  /-- A reference with neither a usable id nor a name. -/
  | malformedReference
  | array (element : Json)
  | union (members : List Json)
  | intersection (members : List Json)
  /-- A declaration written in place of a type. -/
  | reflection (declaration : Json)
  | stringLiteral (value : String)
  | typeParameter (name : String)
  /-- An operator before a type that is known by its form and perhaps its name. -/
  | typeOperator (operator targetType : String) (targetName : Option String)
  | unknown (name : Option String)

namespace TypeExpr

/-- The reference that an expression writes. A key `id` decides alone, whether it is usable or not. -/
def referenceOf (v : Json) : TypeExpr :=
  match v.get? "id", v.stringAt? "name" with
  | some id, _ => (id.natural?.map fun n => internalReference ⟨n⟩).getD malformedReference
  | none, some name => externalReference name
  | none, none => malformedReference

/-- The operator that an expression writes. -/
def operatorOf (v : Json) : TypeExpr :=
  let target := v.get? "target"
  match v.stringAt? "operator", target.bind (Json.stringAt? "type") with
  | some operator, some targetType => typeOperator operator targetType (target.bind (Json.stringAt? "name"))
  | _, _ => unknown none

/-- The form of an expression whose key `type` holds `form`. -/
def ofForm (form : String) (v : Json) : TypeExpr :=
  match form with
  | "intrinsic" => ((v.stringAt? "name").map intrinsic).getD (unknown none)
  | "reference" => referenceOf v
  | "array" => ((v.objectAt? "elementType").map array).getD (unknown none)
  | "union" => ((v.listAt? "types").map union).getD (unknown none)
  | "intersection" => ((v.listAt? "types").map intersection).getD (unknown none)
  | "reflection" => ((v.objectAt? "declaration").map reflection).getD (unknown none)
  | "stringLiteral" => ((v.stringAt? "value").map stringLiteral).getD (unknown none)
  | "typeParameter" => ((v.stringAt? "name").map typeParameter).getD (unknown none)
  | "typeOperator" => operatorOf v
  | _ => unknown (v.stringAt? "name")

/-- The form of a type expression. -/
def ofJson (v : Json) : TypeExpr :=
  match v.stringAt? "type" with
  | some form => ofForm form v
  | none => unknown none

/-- The type arguments of a type expression. -/
def argumentsOf (v : Json) : List Json := v.listAt "typeArguments"

/-- The values that an expression leaves as they are written. -/
def parts : TypeExpr → List Json
  | array element => [element]
  | union members | intersection members => members
  | reflection declaration => [declaration]
  | _ => []

theorem inside_of_mem_parts {v w : Json} (h : w ∈ (ofJson v).parts) : w.Inside v := by
  have object {key : String} {f : Json → TypeExpr} (hf : ∀ u, (f u).parts = [u])
      (h : w ∈ (((v.objectAt? key).map f).getD (unknown none)).parts) : w.Inside v := by
    cases hv : v.objectAt? key with
    | none => simp [hv, parts] at h
    | some u =>
      simp only [hv, Option.map_some, Option.getD_some, hf, List.mem_singleton] at h
      exact h ▸ Json.inside_of_objectAt? hv
  have list {key : String} {f : List Json → TypeExpr} (hf : ∀ us, (f us).parts = us)
      (h : w ∈ (((v.listAt? key).map f).getD (unknown none)).parts) : w.Inside v := by
    cases hv : v.listAt? key with
    | none => simp [hv, parts] at h
    | some us =>
      simp only [hv, Option.map_some, Option.getD_some, hf] at h
      exact @Json.inside_of_mem_listAt key w v (by rwa [Json.listAt, hv])
  have text {key : String} {f : String → TypeExpr} (hf : ∀ u, (f u).parts = [])
      (h : w ∈ (((v.stringAt? key).map f).getD (unknown none)).parts) : w.Inside v := by
    cases hv : v.stringAt? key with
    | none => simp [hv, parts] at h
    | some u => simp [hv, hf] at h
  unfold ofJson at h
  split at h
  · unfold ofForm at h
    split at h
    · exact text (fun _ => rfl) h
    · unfold referenceOf at h
      split at h
      · next id _ => cases hn : id.natural? <;> simp [hn, parts] at h
      · cases h
      · cases h
    · exact object (fun _ => rfl) h
    · exact list (fun _ => rfl) h
    · exact list (fun _ => rfl) h
    · exact object (fun _ => rfl) h
    · exact text (fun _ => rfl) h
    · exact text (fun _ => rfl) h
    · unfold operatorOf at h
      dsimp only at h
      split at h <;> cases h
    · cases h
  · cases h

theorem inside_of_mem_arguments {v w : Json} (h : w ∈ argumentsOf v) : w.Inside v := Json.inside_of_mem_listAt h

end TypeExpr

end EntityGraph

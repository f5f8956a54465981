import EntityGraph.Build.Visitor

/-!
# Callables

The entities of functions, methods and constructors, with their signatures in order. In a signature the types of the
parameters come before the type of the result.
-/

namespace EntityGraph

/-- The documentation of a callable, which stands with it or with its first signature. -/
def Node.callableDoc? (n : Node) : Option DocComment := n.doc?.or (n.signatureNodes.head?.bind Node.doc?)

namespace Build

/-- A parameter; a value without the base shape of a declaration is recorded and left out. -/
def parameter? {host : Json} (visit : Visitor host) (v : Json) (inside : v.Inside host) : Build (Option Parameter) := do
  match h : Node.ofJson? v with
  | some p =>
    let visit := visit.within (Node.inside_of_ofJson? h inside)
    let type ← visit.type? p.type? (fun _ => Node.inside_type?) .declaredType
    return some {
      name := if p.name.isEmpty then none else some p.name
      type, isOptional := p.flags.isOptional, defaultValue := p.defaultValue?, comment := p.doc? }
  | none =>
    report (.unrecognizedDeclaration none none)
    return none

/-- A signature: its parameters, then its result. -/
def signature (n : Node) (visit : Visitor n.value) : Build Signature := do
  let parameters ← forEach n.parameters (fun _ => Node.inside_parameters) (parameter? visit)
  let returnType ← visit.type? n.type? (fun _ => Node.inside_type?) .declaredType
  return {
    comment := n.doc?, typeParameters := n.typeParameterNames, parameters := parameters.filterMap id, returnType }

/-- A callable: its signatures, then its type arguments. -/
def callable (n : Node) (kind : CallableKind) (visit : Visitor n.value) : Build Entity := do
  let signatures ← forEach n.signatureNodes (fun _ => Node.inside_signatureNodes) fun s h =>
    signature s (visit.within h)
  let typeArguments ← visit.types n.typeArguments (fun _ => Node.inside_typeArguments) .declaredType
  return .callable {
    name := n.name, id := n.id, kind, flags := n.flags, comment := n.callableDoc?, signatures, typeArguments }

end Build

end EntityGraph

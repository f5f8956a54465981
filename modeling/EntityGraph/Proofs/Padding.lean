import EntityGraph.Proofs.Rounds
import EntityGraph.Proofs.Unread

/-!
# Documents with fields that are not read

Fields that are not read leave no trace: a document and the same document with such fields added resolve to the same
graph, place for place, if the ids of the nodes inside what is added are their own (`Json.PaddedApart`,
`Graph.ofJson_of_paddedApart`).

The indexes of the two differ, but not in their findings nor for any id that the document refers to
(`Json.PaddedApart.found`, `Json.PaddedApart.lookup?`). The two passes go through states that are the same but for the
nodes that wait, which have fields added (`Build.State.Alike`). `Build.Agrees` says of two steps that they take such
states to such states, with the same result; this composes along `>>=` and lists, and holds of all builders for
visitors that agree, and so of the visitors (`Build.visitor_agrees`), by induction on the size of the value. The longer
index gives more rounds, but both passes are over when nothing waits any more.
-/

namespace EntityGraph

open Json (Padded)

/-! ## Two documents -/

/-- The ids of the nodes inside some values. -/
def Json.idsIn (vs : List Json) : List DeclId := (vs.flatMap Json.nodes).map Node.id

/-- `root'` is `root` with fields added that are not read. The ids of the nodes inside these fields stand once, on no
node of `root` and in no reference of `root`. -/
structure Json.PaddedApart (added : List Json) (root root' : Json) : Prop where
  padded : Padded added root root'
  distinct : (Json.idsIn added).Nodup
  carried {d : DeclId} : d ∈ Json.idsIn added → ¬ d.CarriedIn root
  referred {d : DeclId} {v : Json} : d ∈ Json.idsIn added → v.Within root → TypeExpr.ofJson v ≠ .internalReference d

namespace Json.PaddedApart

variable {added : List Json} {root root' : Json} (h : PaddedApart added root root')

include h

theorem weaves : Weaves (fun d => decide (d ∉ idsIn added)) root.nodes root'.nodes (added.flatMap nodes) := by
  refine h.padded.nodes (fun n hn => ?_) fun n hn => ?_
  · exact decide_eq_true fun hd => h.carried hd ⟨n, mem_nodes_iff.mp hn, rfl⟩
  · exact decide_eq_false fun hd => hd (List.mem_map_of_mem hn)

/-- The indexes answer alike for the ids that are not added. -/
theorem lookup? {d : DeclId} (hd : d ∉ idsIn added) :
    Option.Rel Node.Alike ((Index.ofJson root).index.lookup? d) ((Index.ofJson root').index.lookup? d) := by
  have find {ns ns' : List Node} (hns : List.Forall₂ Node.Alike ns ns') :
      Option.Rel Node.Alike (ns.find? fun n => n.id = d) (ns'.find? fun n => n.id = d) := by
    induction hns with
    | nil => exact .none
    | @cons n n' _ _ hn _ ih =>
      rw [List.find?_cons, List.find?_cons, hn.id]
      cases decide (n.id = d) with
      | true => exact .some hn
      | false => exact ih
  have hkept : (root'.nodes.filter fun n => decide (n.id ∉ idsIn added)).find? (fun n => n.id = d) =
      root'.nodes.find? fun n => n.id = d := by
    rw [List.find?_filter]
    congr 1
    funext n
    by_cases hn : n.id = d <;> simp [hn, hd]
  rw [Index.lookup?_eq_find?, Index.lookup?_eq_find?, ← hkept]
  exact find h.weaves.kept

/-- The ids that stand again are the same in both documents. -/
theorem found : (Index.ofJson root').found = (Index.ofJson root).found := by
  have hids : (root'.nodes.map Node.id).filter (fun d => decide (d ∉ idsIn added)) = root.nodes.map Node.id := by
    have ids {ns ns' : List Node} (hns : List.Forall₂ Node.Alike ns ns') : ns'.map Node.id = ns.map Node.id := by
      induction hns with
      | nil => rfl
      | cons hn _ ih => rw [List.map_cons, List.map_cons, hn.id, ih]
    rw [List.filter_map]
    exact ids h.weaves.kept
  have hadded : (root'.nodes.map Node.id).filter (fun d => !decide (d ∉ idsIn added)) = idsIn added := by
    rw [List.filter_map]
    exact congrArg (List.map Node.id) h.weaves.added
  apply Array.toList_inj.mp
  rw [Index.found_eq_repeats, Index.found_eq_repeats, ← hids]
  congr 1
  refine Index.repeats_filter (fun _ _ => .rfl) (fun _ _ _ hmem => nomatch hmem) ?_
  rw [hadded]
  exact h.distinct

end Json.PaddedApart

/-- The same declaration waits, with some fields added to its node. -/
structure Waiting.Alike (root : Json) (p p' : Waiting) : Prop where
  node : p.node.Alike p'.node
  kind : p'.kind = p.kind
  position : p'.position = p.position
  slot : p'.slot = p.slot
  within : p.node.value.Within root

namespace Build

variable {α β : Type} {added : List Json} {root root' : Json} {o : Options} {s s' t t' : State}

/-! ## Two passes -/

/-- Two states are the same, but for fields that are added to the nodes that wait. -/
structure State.Alike (root : Json) (s s' : State) : Prop where
  arena : s'.arena = s.arena
  resolutions : s'.resolutions = s.resolutions
  diagnostics : s'.diagnostics = s.diagnostics
  references : s'.references = s.references
  begun : s'.begun = s.begun
  waiting : List.Forall₂ (Waiting.Alike root) s.waiting s'.waiting

/-- Where `m` ends, `m'` ends with the same result from an alike state, in an alike state. -/
def Agrees (root root' : Json) (o : Options) (m m' : Build α) : Prop :=
  ∀ ⦃s a t⦄, m (.ofRoot root o) s = .ok (a, t) → ∀ ⦃s'⦄, s.Alike root s' →
    ∃ t', m' (.ofRoot root' o) s' = .ok (a, t') ∧ t.Alike root t'

namespace Agrees

variable {m m' : Build α} {f f' : α → Build β}

theorem pure (a : α) : Agrees root root' o (pure a) (pure a) := by
  intro s b t hrun s' hs
  cases hrun
  exact ⟨s', rfl, hs⟩

theorem bind (hm : Agrees root root' o m m') (hf : ∀ a, Agrees root root' o (f a) (f' a)) :
    Agrees root root' o (m >>= f) (m' >>= f') := by
  intro s b u hrun s' hs
  obtain ⟨a, t, hrun, hrest⟩ := exists_of_bind hrun
  obtain ⟨t', hrun', ht⟩ := hm hrun hs
  rw [bind_run, hrun']
  exact hf a hrest ht

/-- A step whose result goes into another value on both sides. -/
theorem bind_pure (hm : Agrees root root' o m m') {g g' : α → β} (hg : ∀ a, g' a = g a) :
    Agrees root root' o (do let a ← m; return g a) (do let a ← m'; return g' a) := by
  refine .bind hm fun a => ?_
  rw [hg]
  exact .pure _

theorem get_bind {f f' : State → Build β} (h : ∀ s s', s.Alike root s' → Agrees root root' o (f s) (f' s')) :
    Agrees root root' o (get >>= f) (get >>= f') :=
  fun s _ _ hrun s' hs => h s s' hs hrun hs

theorem read_bind {f f' : Context → Build β} (h : Agrees root root' o (f (.ofRoot root o)) (f' (.ofRoot root' o))) :
    Agrees root root' o (read >>= f) (read >>= f') :=
  fun _ _ _ hrun _ hs => h hrun hs

theorem forEach {γ : Type} {r : α → γ → Prop} {V : α → Prop} {V' : γ → Prop} {step : (x : α) → V x → Build β}
    {step' : (x : γ) → V' x → Build β} {xs : List α} {xs' : List γ} {holds : ∀ x ∈ xs, V x} {holds' : ∀ x ∈ xs', V' x}
    (hxs : List.Forall₂ r xs xs')
    (h : ∀ x x', r x x' → ∀ (hx : V x) (hx' : V' x'), Agrees root root' o (step x hx) (step' x' hx')) :
    Agrees root root' o (forEach xs holds step) (forEach xs' holds' step') := by
  induction hxs with
  | nil => exact .pure []
  | cons hx _ ih => exact .bind (h _ _ hx _ _) fun y => .bind ih fun ys => .pure _

/-! ### Changes of the state -/

theorem modifyGet {f f' : State → α × State}
    (h : ∀ s s', s.Alike root s' → (f' s').1 = (f s).1 ∧ (f s).2.Alike root (f' s').2) :
    Agrees root root' o (modifyGet f) (modifyGet f') := by
  intro s a t hrun s' hs
  have heq : f s = (a, t) := Except.ok.inj hrun
  obtain ⟨hresult, hstate⟩ := h s s' hs
  rw [heq] at hresult hstate
  exact ⟨(f' s').2, congrArg (fun b => Except.ok (b, (f' s').2)) hresult, hstate⟩

theorem report (x : Diagnostic) : Agrees root root' o (report x) (report x) :=
  .modifyGet fun _ _ hs => ⟨rfl, { hs with diagnostics := congrArg (Array.push · x) hs.diagnostics }⟩

theorem refer (d : DeclId) (m : EntityId) : Agrees root root' o (refer d m) (refer d m) :=
  .modifyGet fun _ _ hs => ⟨rfl, { hs with references := congrArg ((d, m) :: ·) hs.references }⟩

theorem begin (d : DeclId) : Agrees root root' o (begin d) (begin d) :=
  .modifyGet fun _ _ hs => ⟨rfl, { hs with begun := congrArg (d :: ·) hs.begun }⟩

theorem defer {p p' : Waiting} (h : p.Alike root p') : Agrees root root' o (defer p) (defer p') :=
  .modifyGet fun _ _ hs => ⟨rfl, { hs with waiting := .cons h hs.waiting }⟩

theorem wait {rest rest' : List Waiting} (h : List.Forall₂ (Waiting.Alike root) rest rest') :
    Agrees root root' o (modify fun s => { s with waiting := rest }) (modify fun s => { s with waiting := rest' }) :=
  .modifyGet fun _ _ hs => ⟨rfl, { hs with waiting := h }⟩

theorem alloc (e : Entity) : Agrees root root' o (alloc e) (alloc e) := by
  refine .modifyGet fun s s' hs => ?_
  rw [hs.arena]
  exact ⟨rfl, { hs with arena := rfl }⟩

theorem reserve (d : DeclId) (kind : DeclKind) : Agrees root root' o (reserve d kind) (reserve d kind) := by
  refine .modifyGet fun s s' hs => ?_
  rw [hs.arena, hs.resolutions]
  exact ⟨rfl, { hs with arena := rfl, resolutions := rfl }⟩

theorem pinUnknown (d : DeclId) : Agrees root root' o (pinUnknown d) (pinUnknown d) := by
  refine .modifyGet fun s s' hs => ?_
  rw [hs.resolutions]
  exact ⟨rfl, { hs with resolutions := rfl }⟩

theorem fill (slot : EntityId) (e : Entity) : Agrees root root' o (fill slot e) (fill slot e) := by
  intro s a t hrun s' hs
  rw [fill_run] at hrun ⊢
  rw [hs.arena]
  cases hb : s.arena.fill slot e with
  | error breach =>
    rw [hb] at hrun
    cases hrun
  | ok b =>
    rw [hb] at hrun
    cases hrun
    exact ⟨_, rfl, { hs with arena := rfl }⟩

/-! ### Entering and following -/

theorem enter {n n' : Node} (hn : n.Alike n') (position : Position) :
    Agrees root root' o (enter n position) (enter n' position) := by
  rw [Build.enter, Build.enter, hn.id, hn.kindString, hn.entityKind?]
  refine .get_bind fun s s' hs => ?_
  rw [hs.resolutions]
  split
  · exact .pure _
  · split
    · exact .bind (.report _) fun _ => .bind (.pinUnknown _) fun _ => .pure _
    · refine .bind (.reserve _ _) fun r => ?_
      cases r with
      | existing found => exact .pure _
      | fresh slot => exact .pure _

theorem unreadable {v v' : Json} (h : v.Alike v') : Agrees root root' o (unreadable v) (unreadable v') := by
  rw [Build.unreadable, Build.unreadable, h.stringAt? (by decide)]
  exact .bind (.report _) fun _ => .pure _

theorem enterLater {n n' : Node} (hn : n.Alike n') (hwithin : n.value.Within root) (position : Position) :
    Agrees root root' o (enterLater n position) (enterLater n' position) := by
  refine .bind (.enter hn position) fun entry => ?_
  cases entry with
  | settled found => exact .pure _
  | fresh kind slot => exact .bind (.defer ⟨hn, rfl, rfl, rfl, hwithin⟩) fun _ => .pure _

/-- The id of a reference is none of those that are added, so both indexes answer alike. -/
theorem follow (h : Json.PaddedApart added root root') {d : DeclId} (hd : d ∉ Json.idsIn added) :
    Agrees root root' o (follow d) (follow d) := by
  refine .bind (.get_bind fun s s' hs => ?_) fun m => .bind (.refer d m) fun _ => .pure _
  rw [hs.resolutions]
  split
  · exact .pure _
  · refine .read_bind ?_
    rcases (h.lookup? hd).none_or_some with ⟨hn, hn'⟩ | ⟨n, n', hn, hn', halike⟩
    · simp only [Context.ofRoot, hn, hn']
      exact .bind (.report _) fun _ => .pure _
    · have hwithin := (Index.standsIn_of_lookup? hn).1.2
      simp only [Context.ofRoot, hn, hn']
      exact .bind (.enterLater halike hwithin _) fun _ => .pure _

end Agrees

/-! ## Builders -/

/-- Two visitors resolve alike values in the same way. -/
structure Agreer (root root' : Json) (o : Options) {host host' : Json} (visit : Visitor host) (visit' : Visitor host')
    (v v' : Json) : Prop where
  type (inside : v.Inside host) (inside' : v'.Inside host') (position : Position) :
    Agrees root root' o (visit.type v inside position) (visit'.type v' inside' position)
  declaration (inside : v.Inside host) (inside' : v'.Inside host') (position : Position) :
    Agrees root root' o (visit.declaration v inside position) (visit'.declaration v' inside' position)

theorem Agreer.of_inside {host host' v v' : Json} {visit : Visitor host} {visit' : Visitor host'}
    (h : v.Inside host → Agreer root root' o visit visit' v v') : Agreer root root' o visit visit' v v' :=
  ⟨fun inside => (h inside).type inside, fun inside => (h inside).declaration inside⟩

theorem Agreer.within {host host' part part' v v' : Json} {visit : Visitor host} {visit' : Visitor host'}
    (h : Agreer root root' o visit visit' v v') (hpart : part.Inside host) (hpart' : part'.Inside host') :
    Agreer root root' o (visit.within hpart) (visit'.within hpart') v v' :=
  ⟨fun inside inside' => h.type (inside.trans hpart) (inside'.trans hpart'),
    fun inside inside' => h.declaration (inside.trans hpart) (inside'.trans hpart')⟩

theorem ofUnrecognized_alike {v v' : Json} (h : v.Alike v') :
    Diagnostic.ofUnrecognized v' = Diagnostic.ofUnrecognized v := by
  rw [Diagnostic.ofUnrecognized, h.naturalAt? (by decide), h.stringAt? (by decide), Diagnostic.ofUnrecognized]

section

variable {host : Json} {visit : Visitor host} {v : Json}

theorem parameter?_of_unreadable (hp : Node.ofJson? v = none) (inside : v.Inside host) :
    parameter? visit v inside = (do report (.unrecognizedDeclaration none none); return none) := by
  unfold parameter?
  split
  · next hp' => cases hp.symm.trans hp'
  · rfl

theorem parameter?_of_node {p : Node} (hp : Node.ofJson? v = some p) (inside : v.Inside host) :
    parameter? visit v inside = (do
      let type ←
        (visit.within (Node.inside_of_ofJson? hp inside)).type? p.type? (fun _ => Node.inside_type?) .declaredType
      return some {
        name := if p.name.isEmpty then none else some p.name
        type, isOptional := p.flags.isOptional, defaultValue := p.defaultValue?, comment := p.doc? }) := by
  unfold parameter?
  split
  · next q hq =>
    obtain rfl : q = p := by simp_all
    rfl
  · next hp' => cases hp.symm.trans hp'

theorem indexSignature?_of_unreadable (hn : Node.ofJson? v = none) (inside : v.Inside host) :
    indexSignature? visit v inside = (do report (.ofUnrecognized v); return none) := by
  unfold indexSignature?
  split
  · next hn' => cases hn.symm.trans hn'
  · rfl

theorem indexSignature?_of_node {n : Node} (hn : Node.ofJson? v = some n) (inside : v.Inside host) :
    indexSignature? visit v inside = (
      let visit := visit.within (Node.inside_of_ofJson? hn inside)
      if n.recognize? .interfaceBody = some .indexSignature then do
        let indexType ← visit.type? n.firstParameterType? (fun _ => Node.inside_firstParameterType?) .declaredType
        let valueType ← visit.type? n.type? (fun _ => Node.inside_type?) .declaredType
        return some {
          parameterName := (n.parameters.head?.bind (Json.stringAt? "name")).getD ""
          indexType, valueType, comment := n.doc? }
      else do
        report (.ofUnrecognized v)
        return none) := by
  unfold indexSignature?
  split
  · next m hm =>
    obtain rfl : m = n := by simp_all
    rfl
  · next hn' => cases hn.symm.trans hn'

end

section

variable {host host' : Json} {visit : Visitor host} {visit' : Visitor host'}
  (h : ∀ v v', v.Alike v' → Agreer root root' o visit visit' v v')

include h

theorem types_agree {vs vs' : List Json} (hvs : List.Forall₂ Json.Alike vs vs') (inside : ∀ v ∈ vs, v.Inside host)
    (inside' : ∀ v ∈ vs', v.Inside host') (position : Position) :
    Agrees root root' o (visit.types vs inside position) (visit'.types vs' inside' position) :=
  .forEach hvs fun v v' hv _ _ => (h v v' hv).type _ _ position

theorem type?_agree {v? v'? : Option Json} (hv : Option.Rel Json.Alike v? v'?)
    (inside : ∀ v, v? = some v → v.Inside host) (inside' : ∀ v, v'? = some v → v.Inside host') (position : Position) :
    Agrees root root' o (visit.type? v? inside position) (visit'.type? v'? inside' position) := by
  cases hv with
  | none => exact .pure _
  | some hv => exact (h _ _ hv).type _ _ position

/-- The same members are left out, and those that are not have the same names. -/
theorem members_agree {children children' : List Json} (hchildren : List.Forall₂ Json.Alike children children')
    (inside : ∀ v ∈ children, v.Inside host) (inside' : ∀ v ∈ children', v.Inside host') (position : Position) :
    Agrees root root' o (visit.members children inside position) (visit'.members children' inside' position) := by
  have hskips {v v' : Json} (hv : v.Alike v') : o.skips v' = o.skips v := by
    rw [Options.skips, (Node.ofJson?_alike hv).any_eq fun _ _ hn => congrArg Flags.isPrivate hn.flags, Options.skips]
  have hkept : List.Forall₂ Json.Alike (children.filter fun v => !o.skips v) (children'.filter fun v => !o.skips v) :=
    List.rel_filter (fun v v' hv => by simp only [hskips hv]) hchildren
  refine .read_bind (.bind (.forEach hkept fun v v' hv _ _ => ?_) fun found => .pure _)
  refine .bind_pure ((h v v' hv).declaration _ _ position) fun r => ?_
  rw [(Node.ofJson?_alike hv).map_eq fun _ _ hn => hn.name]

theorem parameter?_agree {v v' : Json} (hv : v.Alike v') (inside : v.Inside host) (inside' : v'.Inside host') :
    Agrees root root' o (parameter? visit v inside) (parameter? visit' v' inside') := by
  rcases (Node.ofJson?_alike hv).none_or_some with ⟨hp, hp'⟩ | ⟨p, p', hp, hp', halike⟩
  · rw [parameter?_of_unreadable hp, parameter?_of_unreadable hp']
    exact .bind (.report _) fun _ => .pure _
  · rw [parameter?_of_node hp, parameter?_of_node hp']
    refine .bind_pure (type?_agree (fun w w' hw => (h w w' hw).within _ _) halike.type? _ _ _) fun type => ?_
    rw [halike.name, halike.flags, halike.defaultValue?, halike.doc?]

theorem indexSignature?_agree {v v' : Json} (hv : v.Alike v') (inside : v.Inside host) (inside' : v'.Inside host') :
    Agrees root root' o (indexSignature? visit v inside) (indexSignature? visit' v' inside') := by
  have hreport : Agrees root root' o (do report (.ofUnrecognized v); return (none : Option IndexSignature))
      (do report (.ofUnrecognized v'); return none) := by
    rw [ofUnrecognized_alike hv]
    exact .bind (.report _) fun _ => .pure _
  rcases (Node.ofJson?_alike hv).none_or_some with ⟨hn, hn'⟩ | ⟨n, n', hn, hn', halike⟩
  · rw [indexSignature?_of_unreadable hn, indexSignature?_of_unreadable hn']
    exact hreport
  · rw [indexSignature?_of_node hn, indexSignature?_of_node hn', halike.recognize?]
    split
    · have hwithin := fun w w' hw => (h w w' hw).within (Node.inside_of_ofJson? hn inside)
        (Node.inside_of_ofJson? hn' inside')
      have hname : n'.parameters.head?.bind (Json.stringAt? "name") = n.parameters.head?.bind (Json.stringAt? "name") :=
        halike.parameter?.bind_eq fun _ _ hp => hp.stringAt? (by decide)
      refine .bind (type?_agree hwithin halike.firstParameterType? _ _ _) fun indexType => ?_
      refine .bind_pure (type?_agree hwithin halike.type? _ _ _) fun valueType => ?_
      rw [hname, halike.doc?]
    · exact hreport

end

theorem enumMember?_agree {v v' : Json} (hv : v.Alike v') :
    Agrees root root' o (enumMember? v) (enumMember? v') := by
  unfold enumMember?
  rcases (Node.ofJson?_alike hv).none_or_some with ⟨hn, hn'⟩ | ⟨n, n', hn, hn', halike⟩
  · rw [hn, hn']
    exact .bind (.report _) fun _ => .pure _
  · simp only [hn, hn', halike.tag?, halike.name, halike.defaultValue?, halike.doc?, halike.id, halike.kindString]
    split
    · exact .pure _
    · exact .bind (.report _) fun _ => .pure _

section

variable {n : Node} {visit : Visitor n.value}

theorem indexSignatureOf_of_none (hv : n.indexSignature? = none) : indexSignatureOf n visit = pure none := by
  unfold indexSignatureOf
  split
  · next hv' _ => cases hv.symm.trans hv'
  · rfl

theorem indexSignatureOf_of_some {v : Json} (hv : n.indexSignature? = some v) :
    indexSignatureOf n visit = indexSignature? visit v (n.inside_indexSignature? hv) := by
  unfold indexSignatureOf
  split
  · next w _ hw _ =>
    obtain rfl : w = v := Option.some.inj (hw.symm.trans hv)
    rfl
  · next hv' _ => cases hv.symm.trans hv'

end

section

variable {n n' : Node} {visit : Visitor n.value} {visit' : Visitor n'.value} (hn : n.Alike n')
  (h : ∀ v v', v.Alike v' → Agreer root root' o visit visit' v v')

include hn h

theorem scope_agree : Agrees root root' o (scope n visit) (scope n' visit') := by
  refine .bind_pure (members_agree h hn.children _ _ _) fun ms => ?_
  rw [hn.name, hn.filePath?, hn.id, hn.flags, hn.doc?]

theorem indexSignatureOf_agree : Agrees root root' o (indexSignatureOf n visit) (indexSignatureOf n' visit') := by
  rcases hn.indexSignature?.none_or_some with ⟨hv, hv'⟩ | ⟨v, v', hv, hv', halike⟩
  · rw [indexSignatureOf_of_none hv, indexSignatureOf_of_none hv']
    exact .pure _
  · rw [indexSignatureOf_of_some hv, indexSignatureOf_of_some hv']
    exact indexSignature?_agree h halike _ _

theorem shape_agree (kind : DeclKind) : Agrees root root' o (shape n kind visit) (shape n' kind visit') := by
  refine .bind (types_agree h hn.typeArguments _ _ _) fun typeArguments => ?_
  refine .bind (types_agree h hn.extendedTypes _ _ _) fun extendedTypes => ?_
  refine .bind (types_agree h hn.implementedTypes _ _ _) fun implementedTypes => ?_
  refine .bind (members_agree h hn.children _ _ _) fun ms => ?_
  refine .bind_pure (indexSignatureOf_agree hn h) fun indexSignature => ?_
  rw [hn.name, hn.id, hn.flags, hn.doc?, hn.typeParameterNames]

theorem signature_agree : Agrees root root' o (signature n visit) (signature n' visit') := by
  refine .bind (.forEach hn.parameters fun v v' hv _ _ => parameter?_agree h hv _ _) fun parameters => ?_
  refine .bind_pure (type?_agree h hn.type? _ _ _) fun returnType => ?_
  rw [hn.doc?, hn.typeParameterNames]

theorem callable_agree (kind : CallableKind) :
    Agrees root root' o (callable n kind visit) (callable n' kind visit') := by
  refine .bind (.forEach hn.signatureNodes fun m m' hm _ _ => ?_) fun signatures => ?_
  · exact signature_agree hm fun v v' hv => (h v v' hv).within _ _
  · refine .bind_pure (types_agree h hn.typeArguments _ _ _) fun typeArguments => ?_
    rw [hn.name, hn.id, hn.flags, hn.callableDoc?]

/-- The entity of a node has the same data when fields are added to the node. -/
theorem declaration_agree (kind : DeclKind) (position : Position) :
    Agrees root root' o (declaration n kind position visit) (declaration n' kind position visit') := by
  cases kind with
  | moduleDecl | namespaceDecl => exact .bind (scope_agree hn h) fun _ => .pure _
  | classDecl =>
    refine .bind_pure (shape_agree hn h _) fun s => ?_
    rw [hn.flags]
  | interfaceDecl | interfaceLiteral | objectLiteral => exact .bind (shape_agree hn h _) fun _ => .pure _
  | enumDecl =>
    refine .bind_pure (.forEach hn.children fun v v' hv _ _ => enumMember?_agree hv) fun ms => ?_
    rw [hn.name, hn.id, hn.flags, hn.doc?]
  | typeAlias =>
    refine .bind_pure (type?_agree h hn.type? _ _ _) fun target => ?_
    rw [hn.name, hn.id, hn.doc?, hn.typeParameterNames]
  | property =>
    refine .bind_pure (type?_agree h hn.type? _ _ _) fun type => ?_
    rw [hn.name, hn.id, hn.flags, hn.doc?, hn.defaultValue?]
  | accessor =>
    refine .bind_pure (type?_agree h hn.accessorType? _ _ _) fun type => ?_
    rw [hn.name, hn.id, hn.flags, hn.accessorDoc?, hn.getter?.isSome_eq, hn.setter?.isSome_eq]
  | function | method | constructor => exact callable_agree hn h _
  | indexSignature =>
    intro s a t hrun
    cases hrun

theorem build_agrees (kind : DeclKind) (position : Position) (slot : EntityId) :
    Agrees root root' o (build n kind position slot visit) (build n' kind position slot visit') := by
  rw [build, build, hn.id]
  exact .bind (.begin _) fun _ => .bind (declaration_agree hn h kind position) fun e => .fill slot e

end

/-! ## Type expressions -/

theorem ofTypeExpr_agrees {v v' : Json} (hpad : Json.PaddedApart added root root') (hv : v.Alike v')
    {visit : Visitor v} {visit' : Visitor v'} (h : ∀ w w', w.Alike w' → Agreer root root' o visit visit' w w')
    {e e' : TypeExpr} (he : e.Alike e') (hreferred : ∀ d, e = .internalReference d → d ∉ Json.idsIn added)
    (position : Position) (inside : ∀ w ∈ e.parts, w.Inside v) (inside' : ∀ w ∈ e'.parts, w.Inside v') :
    Agrees root root' o (ofTypeExpr v position visit e inside) (ofTypeExpr v' position visit' e' inside') := by
  have arguments : Agrees root root' o (typeArguments v visit) (typeArguments v' visit') :=
    types_agree h (TypeExpr.argumentsOf_alike hv) _ _ _
  cases he with
  | same hparts =>
    cases e with
    | intrinsic | unknown => exact .pure _
    | malformedReference => exact .bind (.report _) fun _ => .pure _
    | internalReference d => exact .bind arguments fun _ => .follow hpad (hreferred d rfl)
    | externalReference | stringLiteral | typeParameter | typeOperator => exact .bind arguments fun as => .alloc _
    | array | reflection => cases hparts
    | union members | intersection members =>
      obtain rfl : members = [] := hparts
      refine .bind (types_agree h .nil _ _ _) fun ms => ?_
      exact .bind arguments fun as => .alloc _
  | array hw =>
    refine .bind ((h _ _ hw).type _ _ position) fun m => ?_
    exact .bind arguments fun as => .alloc _
  | union hws | intersection hws =>
    refine .bind (types_agree h hws _ _ _) fun ms => ?_
    exact .bind arguments fun as => .alloc _
  | reflection hw => exact .bind ((h _ _ hw).declaration _ _ position) fun _ => .pure _

/-- The visitors agree on alike values of the document, by induction on the size of the value. -/
theorem visitor_agrees (hpad : Json.PaddedApart added root root') (depth : Nat) {host host' v v' : Json}
    (hv : v.Alike v') (hwithin : v.Within root) :
    Agreer root root' o (visitor depth host) (visitor depth host') v v' := by
  refine ⟨fun _ _ position => ?_, fun _ _ position => ?_⟩
  · show Agrees root root' o (visitType depth v position) (visitType depth v' position)
    have hinner (w w' : Json) (hw : w.Alike w') :
        Agreer root root' o (visitor (depth + 1) v) (visitor (depth + 1) v') w w' := by
      refine .of_inside fun inside => ?_
      have := inside.sizeOf_lt
      exact visitor_agrees hpad (depth + 1) hw (.inr (hwithin.inside inside))
    rw [visitType_eq, visitType_eq]
    refine .read_bind ?_
    show Agrees root root' o (if o.maxTypeDepth ≤ depth then _ else _) (if o.maxTypeDepth ≤ depth then _ else _)
    split
    · exact .bind (.report _) fun _ => .pure _
    · refine ofTypeExpr_agrees hpad hv hinner (TypeExpr.ofJson_alike hv) (fun d hd hmem => ?_) position _ _
      exact hpad.referred hmem hwithin hd
  · show Agrees root root' o (visitDeclaration depth v position) (visitDeclaration depth v' position)
    rcases (Node.ofJson?_alike hv).none_or_some with ⟨hn, hn'⟩ | ⟨n, n', hn, hn', halike⟩
    · rw [visitDeclaration_of_unreadable hn, visitDeclaration_of_unreadable hn']
      exact .unreadable hv
    · have hinner (w w' : Json) (hw : w.Alike w') :
          Agreer root root' o (visitor depth n.value) (visitor depth n'.value) w w' := by
        refine .of_inside fun inside => ?_
        rw [Node.value_of_ofJson? hn] at inside
        have := inside.sizeOf_lt
        exact visitor_agrees hpad depth hw (.inr (hwithin.inside inside))
      rw [visitDeclaration_of_node hn, visitDeclaration_of_node hn']
      refine .bind (.enter halike position) fun entry => ?_
      cases entry with
      | settled found => exact .pure _
      | fresh kind slot => exact .bind (build_agrees halike hinner kind position slot) fun _ => .pure _
termination_by sizeOf v

/-! ## Whole passes -/

theorem modules_agree (hpad : Json.PaddedApart added root root') :
    Agrees root root' o (modules root) (modules root') := by
  have hroot : root.Alike root' := ⟨added, hpad.padded⟩
  have hskips {v v' : Json} (hv : v.Alike v') : o.skipsModule v' = o.skipsModule v := by
    rw [Options.skipsModule, (Node.ofJson?_alike hv).any_eq fun _ _ hn => congrArg Flags.isExternal hn.flags,
      Options.skipsModule]
  have hkept : List.Forall₂ Json.Alike ((root.listAt "children").filter fun v => !o.skipsModule v)
      ((root'.listAt "children").filter fun v => !o.skipsModule v) :=
    List.rel_filter (fun v v' hv => by simp only [hskips hv]) (hroot.listAt (by decide))
  refine .read_bind (.bind_pure (.forEach hkept fun v v' hv inside inside' => ?_) fun _ => rfl)
  exact (visitor_agrees hpad 0 hv (.inr inside)).declaration inside inside' .namespaceBody

/-- As many rounds build the same declarations. -/
theorem settle_agrees (hpad : Json.PaddedApart added root root') (rounds : Nat) :
    Agrees root root' o (settle rounds) (settle rounds) := by
  induction rounds with
  | zero => exact .pure ()
  | succ rounds ih =>
    refine .get_bind fun s s' hs => ?_
    have hwaiting := hs.waiting
    generalize s.waiting = ps at hwaiting
    generalize s'.waiting = ps' at hwaiting
    cases hwaiting with
    | nil => exact .pure ()
    | cons hp hrest =>
      dsimp only
      rw [hp.kind, hp.position, hp.slot]
      refine .bind (.wait hrest) fun _ => .bind (build_agrees hp.node (fun w w' hw => ?_) _ _ _) fun _ => ih
      exact .of_inside fun inside => visitor_agrees hpad 0 hw (.inr (hp.within.inside inside))

theorem State.start_alike (hpad : Json.PaddedApart added root root') :
    (State.start root).Alike root (State.start root') :=
  ⟨rfl, rfl, hpad.found, rfl, rfl, .nil⟩

end Build

namespace Graph

open Json (PaddedApart)

variable {added : List Json} {root root' : Json} {o : Options}

theorem rootFault?_of_padded (h : Padded added root root') : rootFault? root' = rootFault? root := by
  have hroot : root.Alike root' := ⟨added, h⟩
  have hlist : (root'.listAt? "children").isNone = (root.listAt? "children").isNone := by
    rw [← Option.not_isSome, (hroot.listAt? (by decide)).isSome_eq, Option.not_isSome]
  rw [rootFault?, hroot.isObject, hroot.has (by decide), hlist, rootFault?]

/-- The graph of a state does not tell what waits. -/
theorem ofPass_alike {t t' : Build.State} (h : t.Alike root t') (ids : List EntityId) :
    ofPass o ids t' = ofPass o ids t := by
  rw [ofPass, h.arena, h.resolutions, h.diagnostics, h.references, h.begun, ofPass]

theorem resolve_of_paddedApart (h : PaddedApart added root root') (o : Options) : resolve root' o = resolve root o := by
  obtain ⟨g, ids, s, t, pops, hg, hends, _⟩ := exists_pass_built root o
  obtain ⟨g', ids', s', t', pops', hg', hends', _⟩ := exists_pass_built root' o
  -- The modules leave alike states.
  obtain ⟨u, hmodules, hu⟩ := Build.modules_agree h hends.modules (Build.State.start_alike h)
  rw [hends'.modules] at hmodules
  cases hmodules
  -- With the rounds of both, both are over.
  obtain ⟨u, hsettle, hu⟩ := Build.settle_agrees h _ (hends.settle (Nat.le_max_left pops pops')) hu
  rw [hends'.settle (Nat.le_max_right pops pops')] at hsettle
  cases hsettle
  rw [hg, hg', ← hends.graph, ← hends'.graph, ofPass_alike hu]

/-- Fields that are not read change nothing, if the ids inside them are their own. -/
theorem ofJson_of_paddedApart (h : PaddedApart added root root') (o : Options) : ofJson root' o = ofJson root o := by
  rw [ofJson, rootFault?_of_padded h.padded, resolve_of_paddedApart h, ofJson]

/-- A group with a declaration of its own, and the place where an alias stands in its file. -/
def remarks : List Json :=
  [.arr [nodeWith 3 .typeAlias "Self" []], .arr [.obj [("fileName", .str "self.ts"), ("line", .ofNat 1)]]]

/-- The aliases `selfAndLost` with remarks that are not read. -/
def selfAndLostRemarked : Json :=
  .obj [("groups", .arr [nodeWith 3 .typeAlias "Self" []]), ("children", .arr [
    .obj [("id", .ofNat 1), ("name", .str "Self"), ("kind", .ofNat 4194304), ("kindString", .str "Type alias"),
      ("sources", .arr [.obj [("fileName", .str "self.ts"), ("line", .ofNat 1)]]),
      ("type", .obj [("type", .str "array"),
        ("elementType", .obj [("type", .str "reference"), ("id", .ofNat 1)])])],
    .obj [("id", .ofNat 2), ("name", .str "Lost"), ("kind", .ofNat 4194304), ("kindString", .str "Type alias"),
      ("type", .obj [("type", .str "reference"), ("id", .ofNat 9)])]])]

theorem paddedApart_remarked : PaddedApart remarks selfAndLost selfAndLostRemarked := by
  have hids : Json.idsIn remarks = [⟨3⟩] := by decide +kernel
  constructor
  case padded =>
    -- The group stands before the aliases, the place between two fields of the first of these.
    refine .obj (.add _ (by decide) (.first (.arr (.first (.obj ?_)))))
    exact .later (.later (.later (.later (.add _ (by decide) (.refl _)))))
  case distinct =>
    rw [hids]
    exact List.nodup_singleton _
  case carried =>
    intro d hd
    rw [hids, List.mem_singleton] at hd
    rw [hd, ← Index.lookup?_eq_none_iff]
    decide +kernel
  case referred =>
    intro d v hd hv heq
    rw [hids, List.mem_singleton] at hd
    have hrefers : ⟨3⟩ ∉ selfAndLost.referred := by decide +kernel
    exact hrefers (Json.mem_referred_iff.mpr ⟨v, hv, hd ▸ heq⟩)

/-- The remarks are not seen. -/
theorem ofJson_selfAndLostRemarked : PaddedApart remarks selfAndLost selfAndLostRemarked ∧
    ofJson selfAndLostRemarked {} = ofJson selfAndLost {} :=
  ⟨paddedApart_remarked, ofJson_of_paddedApart paddedApart_remarked {}⟩

end Graph

end EntityGraph

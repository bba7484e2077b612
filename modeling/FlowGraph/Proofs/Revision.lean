import FlowGraph.Proofs.Denotation

/-!
# Revised graphs

Passes visit the bodies of loops: every node stays what it was, except that the
loop of a loop node is replaced by a related one.  Denotations pass from a graph to
a revised one when they pass from the bodies of its loops to the revised bodies.
-/

namespace FlowGraph

namespace Node

/-- The node itself, or the node with a related loop in place of its own. -/
inductive Revised (related : Loop → Loop → Prop) : Node → Node → Prop where
  | same {node : Node} (noLoop : node.loop? = none) : Revised related node node
  | loop {node : Node} {loop revised : Loop} (runs : node.loop? = some loop)
      (relates : related loop revised) :
      Revised related node { node with content := .loop revised }

namespace Revised

variable {related : Loop → Loop → Prop} {node other : Node}

theorem id_eq (revised : Revised related node other) : other.id = node.id := by
  cases revised <;> rfl

theorem kind_eq (revised : Revised related node other) : other.kind = node.kind := by
  cases revised <;> rfl

theorem inputs_eq (revised : Revised related node other) : other.inputs = node.inputs := by
  cases revised <;> rfl

theorem content_eq (revised : Revised related node other) (noLoop : node.kind ≠ .loop) :
    other.content = node.content := by
  cases revised with
  | same => rfl
  | loop runs => exact absurd (Node.loop?_eq_some.mp runs).1 noLoop

theorem exists_loop (revised : Revised related node other) {loop : Loop}
    (runs : node.loop? = some loop) :
    ∃ changed, other.loop? = some changed ∧ related loop changed := by
  cases revised with
  | same noLoop => cases noLoop.symm.trans runs
  | @loop held changed holds relates =>
      cases holds.symm.trans runs
      exact ⟨changed, Node.loop?_eq_some.mpr ⟨(Node.loop?_eq_some.mp holds).1, rfl⟩, relates⟩

theorem exists_origin (revised : Revised related node other) {changed : Loop}
    (runs : other.loop? = some changed) :
    ∃ loop, node.loop? = some loop ∧ related loop changed := by
  cases revised with
  | same noLoop => cases noLoop.symm.trans runs
  | @loop held revised holds relates =>
      have content := (Node.loop?_eq_some.mp runs).2
      cases content
      exact ⟨held, holds, relates⟩

theorem mono {weaker : Loop → Loop → Prop} (revised : Revised related node other)
    (implies : ∀ loop changed, related loop changed → weaker loop changed) :
    Revised weaker node other := by
  cases revised with
  | same noLoop => exact .same noLoop
  | loop runs relates => exact .loop runs (implies _ _ relates)

theorem symm (revised : Revised related node other) :
    Revised (fun changed loop => related loop changed) other node := by
  cases revised with
  | same noLoop => exact .same noLoop
  | @loop held changed holds relates =>
      obtain ⟨kind, content⟩ := Node.loop?_eq_some.mp holds
      have restored : Revised (fun changed loop => related loop changed)
          { node with content := .loop changed } { node with content := .loop held } :=
        .loop (Node.loop?_eq_some.mpr ⟨kind, rfl⟩) relates
      have same : { node with content := .loop held } = node := by
        cases node
        cases content
        rfl
      exact same ▸ restored

theorem dependencies_eq (revised : Revised related node other)
    (bindings : ∀ loop changed, related loop changed → changed.bindings = loop.bindings) :
    other.dependencies = node.dependencies := by
  cases revised with
  | same => rfl
  | @loop held changed holds relates =>
      have content := (Node.loop?_eq_some.mp holds).2
      simp only [dependencies, content, bindings held changed relates]

/-- A revised node depends on nothing new when its loop has no new bindings. -/
theorem dependencies_subset (revised : Revised related node other)
    (bindings : ∀ loop changed, related loop changed → changed.bindings ⊆ loop.bindings) :
    other.dependencies ⊆ node.dependencies := by
  intro id needed
  cases revised with
  | same => exact needed
  | @loop held changed holds relates =>
      have runs : ({ node with content := .loop changed } : Node).loop? = some changed :=
        Node.loop?_eq_some.mpr ⟨(Node.loop?_eq_some.mp holds).1, rfl⟩
      refine (Node.dependencies_of_loop holds).mpr ?_
      rcases (Node.dependencies_of_loop runs).mp needed with input | source
      · exact .inl input
      · exact .inr (List.map_subset Prod.snd (bindings held changed relates) source)

end Revised

end Node

namespace Node

/-- The same node up to its result and to a related loop in place of its own. -/
structure Resembles (related : Loop → Loop → Prop) (node other : Node) : Prop where
  id : other.id = node.id
  kind : other.kind = node.kind
  inputs : other.inputs = node.inputs
  content : node.loop? = none → other.content = node.content
  loops : ∀ loop, node.loop? = some loop → ∃ changed, other.loop? = some changed ∧
    related loop changed

theorem Revised.resembles {related : Loop → Loop → Prop} {node other : Node}
    (revised : node.Revised related other) : node.Resembles related other := by
  refine ⟨revised.id_eq, revised.kind_eq, revised.inputs_eq, ?_,
    fun loop => revised.exists_loop⟩
  intro noLoop
  cases revised with
  | same => rfl
  | loop runs => cases noLoop.symm.trans runs

namespace Resembles

variable {related : Loop → Loop → Prop} {node other : Node}

theorem refl (same : ∀ loop, node.loop? = some loop → related loop loop) :
    node.Resembles related node :=
  ⟨rfl, rfl, rfl, fun _ => rfl, fun loop runs => ⟨loop, runs, same loop runs⟩⟩

theorem mono {weaker : Loop → Loop → Prop} (resembles : node.Resembles related other)
    (implies : ∀ loop changed, node.loop? = some loop → related loop changed →
      weaker loop changed) : node.Resembles weaker other := by
  refine ⟨resembles.id, resembles.kind, resembles.inputs, resembles.content, ?_⟩
  intro loop runs
  obtain ⟨changed, runsOther, relates⟩ := resembles.loops loop runs
  exact ⟨changed, runsOther, implies loop changed runs relates⟩

theorem exists_origin (resembles : node.Resembles related other) {changed : Loop}
    (runs : other.loop? = some changed) :
    ∃ loop, node.loop? = some loop ∧ related loop changed := by
  cases runsNode : node.loop? with
  | none =>
      obtain ⟨kind, content⟩ := loop?_eq_some.mp runs
      rw [resembles.kind] at kind
      rw [resembles.content runsNode] at content
      cases runsNode.symm.trans (loop?_eq_some.mpr ⟨kind, content⟩)
  | some loop =>
      obtain ⟨held, runsHeld, relates⟩ := resembles.loops loop runsNode
      cases runsHeld.symm.trans runs
      exact ⟨loop, rfl, relates⟩

theorem content_of_plain (resembles : node.Resembles related other) (noLoop : node.kind ≠ .loop) :
    other.content = node.content :=
  resembles.content (loop?_eq_none_of_kind noLoop)

/-- A loop node still has a loop. -/
theorem exists_content (resembles : node.Resembles related other)
    (carried : node.kind = .loop → ∃ loop, node.content = .loop loop)
    (kind : other.kind = .loop) : ∃ loop, other.content = .loop loop := by
  have nodeKind : node.kind = .loop := resembles.kind ▸ kind
  obtain ⟨loop, content⟩ := carried nodeKind
  obtain ⟨held, runs, _⟩ := resembles.loops loop (loop?_eq_some.mpr ⟨nodeKind, content⟩)
  exact ⟨held, (loop?_eq_some.mp runs).2⟩

/-- No other node has come to have one. -/
theorem kind_of_content (resembles : node.Resembles related other)
    (plain : ∀ loop, node.content = .loop loop → node.kind = .loop) {loop : Loop}
    (content : other.content = .loop loop) : other.kind = .loop := by
  by_cases kind : node.kind = .loop
  · exact resembles.kind.trans kind
  · rw [resembles.content_of_plain kind] at content
    exact absurd (plain loop content) kind

theorem dependencies_subset (resembles : node.Resembles related other)
    (bindings : ∀ loop changed, related loop changed → changed.bindings ⊆ loop.bindings) :
    other.dependencies ⊆ node.dependencies := by
  intro id needed
  cases runs : node.loop? with
  | none =>
      have sameContent := resembles.content runs
      have same : other.dependencies = node.dependencies := by
        simp only [dependencies, sameContent, resembles.inputs]
      exact same ▸ needed
  | some loop =>
      obtain ⟨changed, runsOther, relates⟩ := resembles.loops loop runs
      rw [dependencies_of_loop runsOther, resembles.inputs] at needed
      refine (dependencies_of_loop runs).mpr (needed.imp_right fun source => ?_)
      exact List.map_subset Prod.snd (bindings loop changed relates) source

end Resembles

end Node

namespace Graph

section Resembling

variable {graph other : Graph} {related : Loop → Loop → Prop} (distinct : other.ids.Nodup)
  (origins : ∀ id changed, other.find? id = some changed →
    ∃ node, graph.find? id = some node ∧ node.Resembles related changed)
include distinct origins

theorem exists_resembled {changed : Node} (member : changed ∈ other.nodes) :
    ∃ node ∈ graph.nodes, graph.find? changed.id = some node ∧ node.Resembles related changed := by
  obtain ⟨node, found, resembles⟩ := origins _ changed (find?_of_mem distinct member)
  exact ⟨node, (mem_of_find? found).1, found, resembles⟩

variable (linked : ∀ node ∈ other.nodes, ∀ id ∈ node.dependencies, id ∈ other.ids)
  (exits : ∀ exit ∈ other.exits, exit.2 ∈ other.ids)
  (bindings : ∀ loop changed, related loop changed → changed.bindings ⊆ loop.bindings)
include linked exits bindings

/-- A graph whose nodes resemble those of a graph that is fit for evaluation is fit
for it too. -/
theorem Evaluable.of_resembling (evaluable : graph.Evaluable)
    (keys : ∀ id node loop changed, graph.find? id = some node → node.loop? = some loop →
      related loop changed → ∀ binding ∈ changed.bindings, binding.1 ∈ changed.body.ids) :
    other.Evaluable where
  distinct := distinct
  linked := linked
  exits := exits
  carried := by
    intro changed member kind
    obtain ⟨node, inside, _, resembles⟩ := exists_resembled distinct origins member
    exact resembles.exists_content (evaluable.carried node inside) kind
  keys := by
    intro changed member loop runs
    obtain ⟨node, _, found, resembles⟩ := exists_resembled distinct origins member
    obtain ⟨held, runsNode, relates⟩ := resembles.exists_origin runs
    exact keys _ node held loop found runsNode relates
  acyclic := by
    obtain ⟨rank, ranked⟩ := evaluable.acyclic.exists_rank
    have stillRanked : other.RankedBy rank := by
      intro changed member dependency needed
      obtain ⟨node, inside, _, resembles⟩ := exists_resembled distinct origins member
      rw [resembles.id]
      exact ranked node inside dependency (resembles.dependencies_subset bindings needed)
    exact stillRanked.acyclic

theorem Formed.of_resembling (formed : graph.Formed)
    (keys : ∀ id node loop changed, graph.find? id = some node → node.loop? = some loop →
      related loop changed → ∀ binding ∈ changed.bindings,
        ∃ bound, changed.body.find? binding.1 = some bound ∧ bound.kind = .external) :
    other.Formed where
  toEvaluable := by
    refine formed.toEvaluable.of_resembling distinct origins linked exits bindings ?_
    intro id node loop changed found runs relates binding member
    obtain ⟨bound, foundBound, _⟩ := keys id node loop changed found runs relates binding member
    exact mem_ids_of_find? foundBound
  plain := by
    intro changed member loop content
    obtain ⟨node, inside, _, resembles⟩ := exists_resembled distinct origins member
    exact resembles.kind_of_content (formed.plain node inside) content
  externalKeys := by
    intro changed member loop runs
    obtain ⟨node, _, found, resembles⟩ := exists_resembled distinct origins member
    obtain ⟨held, runsNode, relates⟩ := resembles.exists_origin runs
    exact keys _ node held loop found runsNode relates

end Resembling

/-- A graph whose nodes are revised nodes of a graph of this form has it too. -/
theorem Formed.of_revised {graph other : Graph} {related : Loop → Loop → Prop}
    (formed : graph.Formed) (distinct : other.ids.Nodup)
    (origins : ∀ id changed, other.find? id = some changed →
      ∃ node, graph.find? id = some node ∧ node.Revised related changed)
    (linked : ∀ node ∈ other.nodes, ∀ id ∈ node.dependencies, id ∈ other.ids)
    (exits : ∀ exit ∈ other.exits, exit.2 ∈ other.ids)
    (bindings : ∀ loop changed, related loop changed → changed.bindings ⊆ loop.bindings)
    (keys : ∀ id node loop changed, graph.find? id = some node → node.loop? = some loop →
      related loop changed → ∀ binding ∈ changed.bindings,
        ∃ bound, changed.body.find? binding.1 = some bound ∧ bound.kind = .external) :
    other.Formed := by
  refine formed.of_resembling distinct ?_ linked exits bindings keys
  intro id changed found
  obtain ⟨node, foundNode, revised⟩ := origins id changed found
  exact ⟨node, foundNode, revised.resembles⟩

end Graph

section Paired

variable {related : Node → Node → Prop} (sameId : ∀ node other, related node other →
  other.id = node.id) {nodes others : List Node} (paired : List.Forall₂ related nodes others)
include sameId paired

/-- Nodes that are paired in order are paired by their numbers. -/
theorem find?_paired (id : NodeId) :
    Option.Rel related (nodes.find? fun node => node.id == id)
      (others.find? fun node => node.id == id) := by
  induction paired with
  | nil => exact .none
  | @cons node other nodes others first rest induction =>
      by_cases same : node.id = id
      · have otherSame : other.id = id := (sameId node other first).trans same
        simpa [List.find?_cons, same, otherSame] using Option.Rel.some first
      · have otherDifferent : other.id ≠ id := fun equal =>
          same ((sameId node other first).symm.trans equal)
        simpa [List.find?_cons, beq_eq_false_iff_ne.mpr same,
          beq_eq_false_iff_ne.mpr otherDifferent] using induction

theorem ids_paired : others.map Node.id = nodes.map Node.id := by
  induction paired with
  | nil => rfl
  | cons first _ induction => rw [List.map_cons, List.map_cons, sameId _ _ first, induction]

end Paired

section Partners

variable {α β : Type} {related : α → β → Prop} {first : Option α} {second : Option β}
  (partners : Option.Rel related first second)
include partners

theorem exists_partner {left : α} (found : first = some left) :
    ∃ right, second = some right ∧ related left right := by
  subst found
  cases partners with
  | some relates => exact ⟨_, rfl, relates⟩

theorem exists_partnered {right : β} (found : second = some right) :
    ∃ left, first = some left ∧ related left right := by
  subst found
  cases partners with
  | some relates => exact ⟨_, rfl, relates⟩

theorem rel_mono {weaker : α → β → Prop}
    (implies : ∀ left right, first = some left → second = some right → related left right →
      weaker left right) : Option.Rel weaker first second := by
  cases partners with
  | none => exact .none
  | some relates => exact .some (implies _ _ rfl rfl relates)

end Partners

theorem rel_trans {α β γ : Type} {related : α → β → Prop} {later : β → γ → Prop}
    {composed : α → γ → Prop} {first : Option α} {second : Option β} {third : Option γ}
    (rel : Option.Rel related first second) (next : Option.Rel later second third)
    (compose : ∀ left middle right, related left middle → later middle right →
      composed left right) : Option.Rel composed first third := by
  cases rel with
  | none =>
      cases next with
      | none => exact .none
  | some relates =>
      cases next with
      | some relatesLater => exact .some (compose _ _ _ relates relatesLater)

theorem find?_revised {related : Loop → Loop → Prop} {nodes others : List Node}
    (revised : List.Forall₂ (Node.Revised related) nodes others) (id : NodeId) :
    Option.Rel (Node.Revised related) (nodes.find? fun node => node.id == id)
      (others.find? fun node => node.id == id) :=
  find?_paired (fun _ _ => Node.Revised.id_eq) revised id

theorem ids_revised {related : Loop → Loop → Prop} {nodes others : List Node}
    (revised : List.Forall₂ (Node.Revised related) nodes others) :
    others.map Node.id = nodes.map Node.id :=
  ids_paired (fun _ _ => Node.Revised.id_eq) revised

namespace Graph

theorem origins_of_revised {graph other : Graph} {related : Loop → Loop → Prop}
    (revised : List.Forall₂ (Node.Revised related) graph.nodes other.nodes) :
    ∀ id changed, other.find? id = some changed →
      ∃ node, graph.find? id = some node ∧ node.Revised related changed :=
  fun id _ found => exists_partnered (find?_revised revised id) found

theorem loops_revised {graph other : Graph} {related : Loop → Loop → Prop}
    (revised : List.Forall₂ (Node.Revised related) graph.nodes other.nodes) (id : NodeId) :
    Option.Rel related ((graph.find? id).bind Node.loop?) ((other.find? id).bind Node.loop?) := by
  have partners := find?_revised revised id
  change Option.Rel _ (graph.find? id) (other.find? id) at partners
  generalize graph.find? id = before at partners
  generalize other.find? id = after at partners
  cases partners with
  | none => exact .none
  | @some node changed revised =>
      rw [Option.bind_some, Option.bind_some]
      cases runs : node.loop? with
      | none =>
          cases runsChanged : changed.loop? with
          | none => exact .none
          | some loop =>
              obtain ⟨origin, runsNode, _⟩ := revised.exists_origin runsChanged
              cases runs.symm.trans runsNode
      | some loop =>
          obtain ⟨replaced, runsChanged, related⟩ := revised.exists_loop runs
          rw [runsChanged]
          exact .some related

/-- The bodies of a graph whose nodes are revised are the related ones, so a property
holds everywhere when it holds of the graph and everywhere in these. -/
theorem everywhere_of_origins {property : Graph → Prop} {graph other : Graph}
    {related : Loop → Loop → Prop}
    (origins : ∀ id changed, other.find? id = some changed →
      ∃ node, graph.find? id = some node ∧ node.Revised related changed)
    (here : property other)
    (bodies : ∀ id node loop changed, graph.find? id = some node → node.loop? = some loop →
      related loop changed → changed.body.Everywhere property) : other.Everywhere property := by
  refine everywhere_iff.mpr ⟨here, ?_⟩
  intro id changedNode changed found runs
  obtain ⟨node, foundNode, revised⟩ := origins id changedNode found
  obtain ⟨loop, runsNode, relates⟩ := revised.exists_origin runs
  exact bodies id node loop changed foundNode runsNode relates

end Graph

/-- Paths lead into two graphs in step when a pass, on each graph that it is applied to,
finds the loops again and applies itself to their bodies. -/
theorem Graph.within?_rel {pass : Graph → Graph → Prop}
    (step : ∀ left right, pass left right → ∀ id,
      Option.Rel (fun loop changed : Loop => pass loop.body changed.body)
        ((left.find? id).bind Node.loop?) ((right.find? id).bind Node.loop?))
    {left right : Graph} (passes : pass left right) (path : List NodeId) :
    Option.Rel pass (left.within? path) (right.within? path) := by
  induction path generalizing left right with
  | nil => exact .some passes
  | cons id path induction =>
      have loops := step left right passes id
      rw [within?, within?]
      generalize (left.find? id).bind Node.loop? = before at loops
      generalize (right.find? id).bind Node.loop? = after at loops
      cases loops with
      | none => exact .none
      | some bodyPasses => exact induction bodyPasses

/-- Denotations of live nodes pass to a graph in which live nodes are revised and
read live nodes only.  External nodes must read the same from both scopes, and
the bodies of loops must stay defined. -/
theorem Denotes.transport {meaning : Interpretation} {left right : Graph} {before after : Scope}
    {live : NodeId → Prop} {related : Loop → Loop → Prop}
    (forward : ∀ id node, live id → left.find? id = some node →
      ∃ other, right.find? id = some other ∧ node.Revised related other)
    (reads : ∀ id node, live id → left.find? id = some node → ∀ read ∈ node.reads, live read)
    (names : ∀ id node, live id → left.find? id = some node → node.kind = .external →
      after.read meaning node.content.plain = before.read meaning node.content.plain)
    (loops : ∀ id node other loop changed values, live id → left.find? id = some node →
      right.find? id = some other → node.loop? = some loop → other.loop? = some changed →
      related loop changed →
      (∀ binding ∈ loop.bindings, Denotes meaning left before binding.2 (values binding.2)) →
      (∀ binding ∈ loop.bindings, binding.1 ∈ loop.body.ids) →
      loop.body.Defined meaning (boundScope loop.body values before loop.bindings) →
      (∀ binding ∈ changed.bindings,
        binding ∈ loop.bindings ∧ live binding.2 ∧ binding.1 ∈ changed.body.ids) ∧
      changed.body.Defined meaning (boundScope changed.body values after changed.bindings))
    {id : NodeId} {value : Value} (denotes : Denotes meaning left before id value)
    (alive : live id) : Denotes meaning right after id value := by
  refine denotes.levelInduction (motive := fun id value => live id →
    Denotes meaning right after id value) ?_ ?_ alive
  · intro id node values value found _ induction computed alive
    obtain ⟨other, foundOther, revised⟩ := forward id node alive found
    have noLoop := Node.kind_ne_loop_of_valueFrom computed
    have sameReads : other.reads = node.reads := by
      simp only [Node.reads, revised.kind_eq, revised.inputs_eq]
    refine .plain foundOther ?_ (Node.valueFrom_renumbered revised.kind_eq
      (revised.content_eq noLoop) (revised.inputs_eq.trans (List.map_id _).symm) (fun _ _ => rfl)
      (names id node alive found) computed)
    intro read member
    rw [sameReads] at member
    exact induction read member (reads id node alive found read member)
  · intro id node loop values found runs sources induction keys defined alive
    obtain ⟨other, foundOther, revised⟩ := forward id node alive found
    obtain ⟨changed, runsOther, relates⟩ := revised.exists_loop runs
    obtain ⟨bindings, definedOther⟩ := loops id node other loop changed values alive found
      foundOther runs runsOther relates sources keys defined
    refine .of_defined foundOther runsOther ?_ ?_ definedOther
    · intro binding member
      obtain ⟨original, sourceAlive, _⟩ := bindings binding member
      exact induction binding original sourceAlive
    · intro binding member
      exact (bindings binding member).2.2

/-- What a pass over loop bodies must keep of a loop: the bindings, the names of
the bound nodes, and that the body is defined. -/
structure Loop.KeptBy (meaning : Interpretation) (loop changed : Loop) : Prop where
  bindings : changed.bindings = loop.bindings
  names : ∀ binding ∈ loop.bindings,
    (changed.body.find? binding.1).map (fun bound => bound.content.plain) =
      (loop.body.find? binding.1).map fun bound => bound.content.plain
  defined : ∀ scope, loop.body.Defined meaning scope → changed.body.Defined meaning scope

theorem Loop.KeptBy.boundScope_eq {meaning : Interpretation} {loop changed : Loop}
    (kept : loop.KeptBy meaning changed) (values : NodeId → Value) (scope : Scope) :
    boundScope changed.body values scope changed.bindings =
      boundScope loop.body values scope loop.bindings := by
  rw [kept.bindings]
  exact boundScope_eq_of_names kept.names

/-- Denotations pass to a graph whose loops are kept. -/
theorem Denotes.revised {meaning : Interpretation} {left right : Graph} {scope : Scope}
    (forward : ∀ id node, left.find? id = some node →
      ∃ other, right.find? id = some other ∧ node.Revised (Loop.KeptBy meaning) other)
    {id : NodeId} {value : Value} (denotes : Denotes meaning left scope id value) :
    Denotes meaning right scope id value := by
  refine @Denotes.transport meaning left right scope scope
    (fun id => ∃ value, Denotes meaning left scope id value) (Loop.KeptBy meaning)
    (fun id node _ => forward id node) ?_ (fun _ _ _ _ _ => rfl) ?_ id value denotes
    ⟨value, denotes⟩
  · rintro id node ⟨value, denotes⟩ found read isRead
    cases runs : node.loop? with
    | none =>
        obtain ⟨values, reads, _⟩ := denotes.values_of_plain found runs
        exact ⟨values read, reads read isRead⟩
    | some loop => simp [Node.reads, (Node.loop?_eq_some.mp runs).1] at isRead
  · intro id node other loop changed values _ found foundOther runs runsOther kept sources keys
      defined
    refine ⟨?_, ?_⟩
    · intro binding member
      rw [kept.bindings] at member
      obtain ⟨bound, foundBound⟩ := Graph.exists_find? (keys binding member)
      have name := kept.names binding member
      rw [foundBound] at name
      obtain ⟨changedBound, foundChanged, _⟩ := Option.map_eq_some_iff.mp name
      exact ⟨member, ⟨_, sources binding member⟩, Graph.mem_ids_of_find? foundChanged⟩
    · rw [kept.boundScope_eq]
      exact kept.defined _ defined

/-- Bodies are entered in step when a pass, on each graph that it is applied to,
finds loops again, applies itself to their bodies and keeps their scopes. -/
theorem Enters.transport {meaning : Interpretation} {pass : Graph → Graph → Prop}
    (step : ∀ left right, pass left right → ∀ id node loop, left.find? id = some node →
      node.loop? = some loop → ∃ other changed, right.find? id = some other ∧
        other.loop? = some changed ∧ pass loop.body changed.body ∧
        ∀ scope values,
          (∀ binding ∈ loop.bindings, Denotes meaning left scope binding.2 (values binding.2)) →
          ∃ others : NodeId → Value,
            (∀ binding ∈ changed.bindings,
              Denotes meaning right scope binding.2 (others binding.2)) ∧
            boundScope changed.body others scope changed.bindings =
              boundScope loop.body values scope loop.bindings)
    {left right body : Graph} {scope inner : Scope} {path : List NodeId}
    (enters : Enters meaning left scope path body inner) (passes : pass left right) :
    ∃ other, Enters meaning right scope path other inner ∧ pass body other := by
  induction enters generalizing right with
  | @here graph scope => exact ⟨right, .here, passes⟩
  | @inside graph scope id node loop values path body inner found runs sources deeper induction =>
      obtain ⟨other, changed, foundOther, runsOther, bodyPasses, scopes⟩ :=
        step graph right passes id node loop found runs
      obtain ⟨others, sourcesOther, sameScope⟩ := scopes scope values sources
      obtain ⟨target, entersOther, targetPasses⟩ := induction bodyPasses
      rw [← sameScope] at entersOther
      exact ⟨target, .inside foundOther runsOther sourcesOther entersOther, targetPasses⟩

end FlowGraph

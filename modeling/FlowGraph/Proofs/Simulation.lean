import FlowGraph.Proofs.Evaluation
import FlowGraph.Proofs.Skeleton

/-!
# Passes that carry denotations

A pass carries denotations when its result is defined wherever the graph was, with
the same values at the exits and the same names and bindings.  Such passes compose,
and they may be applied to the bodies of loops.  A pass that gives nodes new numbers
is followed node by node: a renumbered node has the value of the node that it comes
from.
-/

namespace FlowGraph

/-- One choice of values serves all denotations of a graph in a scope. -/
theorem exists_denotations (meaning : Interpretation) (graph : Graph) (scope : Scope) :
    ∃ values : NodeId → Value,
      ∀ id value, Denotes meaning graph scope id value → values id = value := by
  classical
  refine ⟨fun id => if known : ∃ value, Denotes meaning graph scope id value
    then known.choose else .null, ?_⟩
  intro id value denotes
  have known : ∃ value, Denotes meaning graph scope id value := ⟨value, denotes⟩
  simp only [known, dif_pos]
  exact known.choose_spec.deterministic denotes

/-- The same node with new numbers for the nodes that it depends on. -/
structure Node.Renumbered (renumber : NodeId → NodeId) (node other : Node) : Prop where
  kind : other.kind = node.kind
  inputs : other.inputs = node.inputs.map renumber
  content : node.kind ≠ .loop → other.content = node.content
  loops : ∀ loop, node.loop? = some loop → ∃ changed, other.loop? = some changed ∧
    changed.body = loop.body ∧
    changed.bindings = loop.bindings.map fun (key, source) => (key, renumber source)

namespace Node.Renumbered

variable {renumber : NodeId → NodeId} {node other : Node}

theorem reads_eq (renumbered : node.Renumbered renumber other) :
    other.reads = node.reads.map renumber := by
  unfold Node.reads
  rw [renumbered.kind, renumbered.inputs]
  cases node.kind <;> simp

variable {meaning : Interpretation} {graph : Graph} {scope : Scope} {target : NodeId}

/-- A renumbered node computes what the node computes, when its reads have the values
of the nodes that they stand for. -/
theorem denotes (renumbered : node.Renumbered renumber other)
    (found : graph.find? target = some other) {values : NodeId → Value} {value : Value}
    (reads : ∀ read ∈ node.reads, Denotes meaning graph scope (renumber read) (values read))
    (computed : node.valueFrom meaning scope values = .ok value) :
    Denotes meaning graph scope target value := by
  obtain ⟨others, known⟩ := exists_denotations meaning graph scope
  have same : ∀ read ∈ node.reads, others (renumber read) = values read :=
    fun read isRead => known _ _ (reads read isRead)
  refine .plain found ?_ (Node.valueFrom_renumbered renumbered.kind
    (renumbered.content (Node.kind_ne_loop_of_valueFrom computed)) renumbered.inputs same
    (fun _ => rfl) computed)
  intro read isRead
  rw [renumbered.reads_eq] at isRead
  obtain ⟨original, isOriginal, rfl⟩ := List.mem_map.mp isRead
  rw [same original isOriginal]
  exact reads original isOriginal

/-- A renumbered loop runs its body in the scope of the loop that it comes from. -/
theorem exists_sources (renumbered : node.Renumbered renumber other) {loop : Loop}
    (runs : node.loop? = some loop) {values : NodeId → Value}
    (sources : ∀ binding ∈ loop.bindings,
      Denotes meaning graph scope (renumber binding.2) (values binding.2)) :
    ∃ changed others, other.loop? = some changed ∧ changed.body = loop.body ∧
      changed.bindings = (loop.bindings.map fun (key, source) => (key, renumber source)) ∧
      (∀ binding ∈ changed.bindings, Denotes meaning graph scope binding.2 (others binding.2)) ∧
      boundScope changed.body others scope changed.bindings =
        boundScope loop.body values scope loop.bindings := by
  obtain ⟨changed, runsOther, sameBody, bindings⟩ := renumbered.loops loop runs
  obtain ⟨others, known⟩ := exists_denotations meaning graph scope
  have same : ∀ binding ∈ loop.bindings, others (renumber binding.2) = values binding.2 :=
    fun binding member => known _ _ (sources binding member)
  refine ⟨changed, others, runsOther, sameBody, bindings, ?_, ?_⟩
  · intro binding member
    rw [bindings] at member
    obtain ⟨original, isOriginal, rfl⟩ := List.mem_map.mp member
    rw [same original isOriginal]
    exact sources original isOriginal
  · rw [sameBody, bindings]
    exact boundScope_congr (fun _ _ => rfl) same

theorem denotes_loop (renumbered : node.Renumbered renumber other)
    (found : graph.find? target = some other) {loop : Loop} (runs : node.loop? = some loop)
    {values : NodeId → Value}
    (sources : ∀ binding ∈ loop.bindings,
      Denotes meaning graph scope (renumber binding.2) (values binding.2))
    (keys : ∀ binding ∈ loop.bindings, binding.1 ∈ loop.body.ids)
    (defined : loop.body.Defined meaning (boundScope loop.body values scope loop.bindings)) :
    Denotes meaning graph scope target .null := by
  obtain ⟨changed, others, runsOther, sameBody, bindings, sourcesOther, sameScope⟩ :=
    renumbered.exists_sources runs sources
  refine .of_defined found runsOther sourcesOther ?_ ?_
  · intro binding member
    rw [bindings] at member
    obtain ⟨original, isOriginal, rfl⟩ := List.mem_map.mp member
    exact sameBody ▸ keys original isOriginal
  · rw [sameScope, sameBody]
    exact defined

end Node.Renumbered

/-- A graph is defined wherever another is, with the same exit values, and has its
names and bindings. -/
structure Graph.Carries (meaning : Interpretation) (graph other : Graph) : Prop where
  defined : ∀ scope, graph.Defined meaning scope → other.Defined meaning scope
  exits : ∀ scope values, ExitsDenote meaning scope graph values →
    ExitsDenote meaning scope other values
  embeds : graph.Embeds other

namespace Graph.Carries

variable {meaning : Interpretation} {graph middle other : Graph}

theorem refl (graph : Graph) : graph.Carries meaning graph :=
  ⟨fun _ defined => defined, fun _ _ exits => exits, .refl graph⟩

theorem trans (first : graph.Carries meaning middle) (second : middle.Carries meaning other) :
    graph.Carries meaning other :=
  ⟨fun scope defined => second.defined scope (first.defined scope defined),
    fun scope values exits => second.exits scope values (first.exits scope values exits),
    first.embeds.trans second.embeds⟩

theorem exists_external (carries : graph.Carries meaning other) {id : NodeId} {node : Node}
    (found : graph.find? id = some node) (external : node.kind = .external) :
    ∃ changed, other.find? id = some changed ∧ changed.kind = .external ∧
      changed.content.plain = node.content.plain := by
  obtain ⟨_, changed, ⟨⟩, foundChanged, externalChanged, sameName⟩ :=
    carries.embeds.names [] id _ ⟨graph, node, rfl, found, external, rfl⟩
  exact ⟨changed, foundChanged, externalChanged, sameName⟩

end Graph.Carries

/-- A pass that carries denotations keeps the meaning of a graph. -/
theorem Graph.Means.carried {meaning : Interpretation} {scope : Scope}
    {values : List (String × Value)} {graph other : Graph}
    (means : graph.Means meaning scope values) (formed : other.Everywhere Formed)
    (carries : graph.Carries meaning other) : other.Means meaning scope values :=
  ⟨formed, carries.defined scope means.defined, carries.exits scope values means.exits⟩

/-- A loop with the result of a pass in place of its body. -/
structure Loop.VisitedBy (passes : Graph → Graph → Prop) (loop changed : Loop) : Prop where
  bindings : changed.bindings = loop.bindings
  body : passes loop.body changed.body

/-- A loop with another body, which a pass has made of its own. -/
structure Loop.ReplacedBy (passes : Graph → Graph → Prop) (loop changed : Loop) : Prop where
  same : changed = { loop with body := changed.body }
  body : passes loop.body changed.body

theorem Loop.ReplacedBy.visitedBy {passes : Graph → Graph → Prop} {loop changed : Loop}
    (replaced : loop.ReplacedBy passes changed) : loop.VisitedBy passes changed :=
  ⟨by rw [replaced.same], replaced.body⟩

/-- A loop of a graph of this form is kept when its body carries denotations: the
names of its bindings are those of external nodes. -/
theorem Loop.VisitedBy.keptBy {meaning : Interpretation} {graph : Graph} {id : NodeId}
    {node : Node} {loop changed : Loop} (visited : loop.VisitedBy (Graph.Carries meaning) changed)
    (formed : graph.Formed) (found : graph.find? id = some node) (runs : node.loop? = some loop) :
    loop.KeptBy meaning changed := by
  refine ⟨visited.bindings, ?_, visited.body.defined⟩
  intro binding member
  obtain ⟨bound, foundBound, external⟩ :=
    formed.externalKeys node (Graph.mem_of_find? found).1 loop runs binding member
  obtain ⟨target, foundTarget, _, sameName⟩ := visited.body.exists_external foundBound external
  rw [foundBound, foundTarget, Option.map_some, Option.map_some, sameName]

/-- Denotations pass to a graph in which the bodies of loops carry denotations. -/
theorem Denotes.carried {meaning : Interpretation} {graph other : Graph} {scope : Scope}
    (formed : graph.Formed)
    (partners : ∀ id, Option.Rel (Node.Revised (Loop.VisitedBy (Graph.Carries meaning)))
      (graph.find? id) (other.find? id))
    {id : NodeId} {value : Value} (denotes : Denotes meaning graph scope id value) :
    Denotes meaning other scope id value := by
  refine denotes.revised ?_
  intro id node found
  obtain ⟨changed, foundChanged, revised⟩ := exists_partner (partners _) found
  refine ⟨changed, foundChanged, ?_⟩
  cases revised with
  | same noLoop => exact .same noLoop
  | loop runs visited => exact .loop runs (visited.keptBy formed found runs)

/-- A pass over the bodies of loops carries denotations when it does so for each. -/
theorem Graph.Carries.of_bodies {meaning : Interpretation} {graph other : Graph}
    (formed : graph.Formed) (exits : other.exits = graph.exits)
    (partners : ∀ id, Option.Rel (Node.Revised (Loop.VisitedBy (Graph.Carries meaning)))
      (graph.find? id) (other.find? id)) : graph.Carries meaning other := by
  refine ⟨?_, ?_, ?_⟩
  · intro scope defined id present
    obtain ⟨changed, found⟩ := exists_find? present
    obtain ⟨node, foundNode, _⟩ := exists_partnered (partners _) found
    obtain ⟨value, denotes⟩ := defined id (mem_ids_of_find? foundNode)
    exact ⟨value, denotes.carried formed partners⟩
  · intro scope values leave
    unfold ExitsDenote at leave ⊢
    rw [exits]
    exact leave.imp fun exit found leaves => ⟨leaves.1, leaves.2.carried formed partners⟩
  · refine .of_nodes ?_ ?_
    · intro id node found external
      obtain ⟨changed, foundChanged, revised⟩ := exists_partner (partners _) found
      exact ⟨changed, foundChanged, revised.kind_eq.trans external,
        revised.content_eq (by simp [external])⟩
    · intro id node loop found runs
      obtain ⟨changedNode, foundChanged, revised⟩ := exists_partner (partners _) found
      obtain ⟨changed, runsChanged, visited⟩ := revised.exists_loop runs
      exact ⟨changedNode, changed, foundChanged, runsChanged, by rw [visited.bindings],
        visited.body.embeds⟩

theorem Graph.formed_of_bodies {meaning : Interpretation} {passes : Graph → Graph → Prop}
    {graph other : Graph} (formed : graph.Everywhere Formed)
    (revised : List.Forall₂ (Node.Revised (Loop.VisitedBy passes)) graph.nodes other.nodes)
    (exits : other.exits = graph.exits)
    (bodies : ∀ id node loop body, graph.find? id = some node → node.loop? = some loop →
      passes loop.body body → body.Everywhere Formed ∧ loop.body.Carries meaning body) :
    other.Everywhere Formed := by
  have origins := origins_of_revised revised
  have sameIds : other.ids = graph.ids := ids_revised revised
  have distinct : other.ids.Nodup := sameIds ▸ formed.here.distinct
  refine everywhere_of_origins origins (formed.here.of_revised distinct origins ?_ ?_
    (fun _ _ visited => visited.bindings ▸ List.Subset.refl _) ?_) ?_
  · intro changed member id needed
    obtain ⟨node, found, related⟩ := origins _ changed (find?_of_mem distinct member)
    rw [related.dependencies_eq fun _ _ visited => visited.bindings] at needed
    exact sameIds ▸ formed.here.linked node (mem_of_find? found).1 id needed
  · rw [exits, sameIds]
    exact formed.here.exits
  · intro id node loop changed found runs visited binding member
    rw [visited.bindings] at member
    obtain ⟨bound, foundBound, external⟩ :=
      formed.here.externalKeys node (mem_of_find? found).1 loop runs binding member
    obtain ⟨target, foundTarget, externalTarget, _⟩ :=
      (bodies id node loop changed.body found runs visited.body).2.exists_external foundBound
        external
    exact ⟨target, foundTarget, externalTarget⟩
  · intro id node loop changed found runs visited
    exact (bodies id node loop changed.body found runs visited.body).1

theorem Graph.numbered_of_bodies {passes : Graph → Graph → Prop} {graph other : Graph}
    (numbered : graph.Everywhere Numbered)
    (revised : List.Forall₂ (Node.Revised (Loop.VisitedBy passes)) graph.nodes other.nodes)
    (nextId : other.nextId = graph.nextId)
    (bodies : ∀ id node loop body, graph.find? id = some node → node.loop? = some loop →
      passes loop.body body → body.Everywhere Numbered) : other.Everywhere Numbered := by
  have sameIds : other.ids = graph.ids := ids_revised revised
  refine everywhere_of_origins (origins_of_revised revised) ?_ ?_
  · unfold Numbered
    rw [sameIds, nextId]
    exact numbered.here
  · intro id node loop changed found runs visited
    exact bodies id node loop changed.body found runs visited.body

end FlowGraph

import FlowGraph.Proofs.Scheduling
import Mathlib.Data.List.Permutation

/-!
# Evaluation computes denotations

Evaluation is one sweep over the nodes in their scheduled order, in which every
result is written before it is read.  It succeeds exactly when every node has a
denotation, and then the results, in the graph and in the bodies of its loops,
are the denotations.
-/

namespace FlowGraph

/-- The results of an evaluated graph are the denotations of the nodes, at every
depth. -/
def Graph.Completes (meaning : Interpretation) (scope : Scope) (graph finished : Graph) : Prop :=
  ∀ path body inner, Enters meaning graph scope path body inner →
    ∃ other, finished.within? path = some other ∧ other.ids.Perm body.ids ∧
      ∀ node ∈ other.nodes, Denotes meaning body inner node.id node.result

/-- A node of a graph and the same node after its evaluation. -/
structure Node.Finished (meaning : Interpretation) (graph : Graph) (scope : Scope)
    (node other : Node) : Prop where
  id : other.id = node.id
  value : Denotes meaning graph scope node.id other.result
  loops : ∀ loop, node.loop? = some loop → ∃ finished, other.loop? = some finished ∧
    ∀ values,
      (∀ binding ∈ loop.bindings, Denotes meaning graph scope binding.2 (values binding.2)) →
      loop.body.Completes meaning (boundScope loop.body values scope loop.bindings) finished.body

section Sweep

variable {meaning : Interpretation} {graph : Graph} {scope : Scope}

theorem resultOf_finished {nodes done : List Node}
    (finished : List.Forall₂ (Node.Finished meaning graph scope) nodes done) {id : NodeId}
    (present : id ∈ nodes.map Node.id) :
    ∃ value, resultOf done id = .ok value ∧ Denotes meaning graph scope id value := by
  cases found : nodes.find? fun node => node.id == id with
  | none =>
      obtain ⟨node, member, same⟩ := List.mem_map.mp present
      have different := List.find?_eq_none.mp found node member
      simp [same] at different
  | some node =>
      have numbered : node.id = id := by simpa using List.find?_some found
      obtain ⟨other, foundOther, finishedNode⟩ :=
        exists_partner (find?_paired (fun _ _ => Node.Finished.id) finished id) found
      refine ⟨other.result, ?_, numbered ▸ finishedNode.value⟩
      simp [resultOf, foundOther]

theorem resultOf_eq_ok {nodes done : List Node}
    (finished : List.Forall₂ (Node.Finished meaning graph scope) nodes done) {id : NodeId}
    (present : id ∈ nodes.map Node.id) {value : Value} :
    resultOf done id = .ok value ↔ Denotes meaning graph scope id value := by
  obtain ⟨stored, read, denotes⟩ := resultOf_finished finished present
  rw [read]
  constructor
  · rintro ⟨⟩
    exact denotes
  · intro other
    exact congrArg Except.ok (denotes.deterministic other)

end Sweep

theorem nodeValue_eq_valueBy (meaning : Interpretation) (scope : Scope) (done : List Node)
    (node : Node) :
    nodeValue meaning scope done node = node.valueBy meaning scope (resultOf done) := by
  unfold nodeValue Node.valueBy
  cases node.kind
  case element | field | elementUpdate | fieldUpdate => cases node.inputs <;> rfl
  all_goals rfl

theorem bodyScope_eq_scopeBy (done : List Node) (body : Graph) (scope : Scope)
    (bindings : List (NodeId × NodeId)) :
    bodyScope done body scope bindings = scopeBy (resultOf done) body scope bindings := by
  induction bindings generalizing scope with
  | nil => rfl
  | cons binding rest induction => simp only [bodyScope, scopeBy, induction]

theorem runNodes_plain {meaning : Interpretation} {scope : Scope} {done rest : List Node}
    {node : Node} (noLoop : node.loop? = none) :
    runNodes meaning scope done (node :: rest) =
      match nodeValue meaning scope done node with
      | .error fault => (done ++ node :: rest, .error fault)
      | .ok value => runNodes meaning scope (done ++ [{ node with result := value }]) rest := by
  refine runNodes.eq_3 meaning scope done node rest ?_
  rintro _ _ _ _ _ _ _ rfl
  cases noLoop

theorem runNodes_loop {meaning : Interpretation} {scope : Scope} {done rest : List Node}
    {node : Node} {loop : Loop} (runs : node.loop? = some loop) :
    runNodes meaning scope done (node :: rest) =
      match bodyScope done loop.body scope loop.bindings with
      | .error fault => (done ++ node :: rest, .error fault)
      | .ok inner =>
          let outcome := loop.body.run meaning inner
          let content := Value.loop { loop with body := outcome.graph }
          match outcome.answer with
          | .error fault => (done ++ { node with content := content } :: rest, .error fault)
          | .ok _ =>
              runNodes meaning scope
                (done ++ [{ node with content := content, result := .null }]) rest := by
  obtain ⟨kind, content⟩ := Node.loop?_eq_some.mp runs
  obtain ⟨id, _, _, inputs, result⟩ := node
  obtain ⟨tag, index, body, bindings⟩ := loop
  cases kind
  cases content
  exact runNodes.eq_2 meaning scope done id tag index body bindings inputs result rest

/-- Why the sweep stops at a node. -/
inductive Node.Stops (meaning : Interpretation) (scope : Scope) (done : List Node) (node : Node)
    (fault : Fault) : Prop where
  | value (noLoop : node.loop? = none)
      (failed : nodeValue meaning scope done node = .error fault) : Stops meaning scope done node fault
  | names {loop : Loop} (runs : node.loop? = some loop)
      (failed : bodyScope done loop.body scope loop.bindings = .error fault) :
      Stops meaning scope done node fault
  | body {loop : Loop} {inner : Scope} (runs : node.loop? = some loop)
      (bound : bodyScope done loop.body scope loop.bindings = .ok inner)
      (failed : (loop.body.run meaning inner).answer = .error fault) :
      Stops meaning scope done node fault

/-- An outcome that is a success exactly on defined graphs, and then consists of
denotations. -/
structure Graph.ComputedBy (meaning : Interpretation) (scope : Scope) (graph : Graph)
    (outcome : Outcome (List (String × Value))) : Prop where
  sound : ∀ values, outcome.answer = .ok values →
    graph.Defined meaning scope ∧ graph.Completes meaning scope outcome.graph ∧
      ExitsDenote meaning scope graph values
  complete : graph.Defined meaning scope → ∃ values, outcome.answer = .ok values

section Sweep

variable {meaning : Interpretation} {graph : Graph} {scope : Scope} {first rest done : List Node}
  (finished : List.Forall₂ (Node.Finished meaning graph scope) first done)
include finished

/-- The sweep computes the denotation of a node whose reads are finished. -/
theorem nodeValue_eq_ok {node : Node} {value : Value} (found : graph.find? node.id = some node)
    (noLoop : node.loop? = none) (present : node.reads ⊆ first.map Node.id) :
    nodeValue meaning scope done node = .ok value ↔
      Denotes meaning graph scope node.id value := by
  rw [nodeValue_eq_valueBy]
  constructor
  · intro computed
    obtain ⟨values, reads, result⟩ := Node.valueBy_eq_ok.mp computed
    exact .plain found (fun read isRead =>
      (resultOf_eq_ok finished (present isRead)).mp (reads read isRead)) result
  · intro denotes
    obtain ⟨values, reads, result⟩ := denotes.values_of_plain found noLoop
    exact Node.valueBy_eq_ok.mpr ⟨values, fun read isRead =>
      (resultOf_eq_ok finished (present isRead)).mpr (reads read isRead), result⟩

/-- The sweep gives a loop body the scope that the denotations of the sources
make. -/
theorem bodyScope_eq_ok {loop : Loop} {inner : Scope}
    (present : loop.bindings.map Prod.snd ⊆ first.map Node.id) :
    bodyScope done loop.body scope loop.bindings = .ok inner ↔
      ∃ values : NodeId → Value,
        (∀ binding ∈ loop.bindings,
          Denotes meaning graph scope binding.2 (values binding.2)) ∧
        (∀ binding ∈ loop.bindings, binding.1 ∈ loop.body.ids) ∧
        inner = boundScope loop.body values scope loop.bindings := by
  rw [bodyScope_eq_scopeBy, scopeBy_eq_ok]
  have same : ∀ values : NodeId → Value,
      (∀ binding ∈ loop.bindings, resultOf done binding.2 = .ok (values binding.2)) ↔
        ∀ binding ∈ loop.bindings, Denotes meaning graph scope binding.2 (values binding.2) :=
    fun values => forall₂_congr fun binding member =>
      resultOf_eq_ok finished (present (List.mem_map_of_mem member))
  simp only [same]

/-- The sweep finishes one more node, or it stops and some node has no denotation. -/
theorem runNodes_step_plain {node : Node} (found : graph.find? node.id = some node)
    (noLoop : node.loop? = none) (present : node.dependencies ⊆ first.map Node.id) :
    (∃ other, node.Finished meaning graph scope other ∧
      runNodes meaning scope done (node :: rest) =
        runNodes meaning scope (done ++ [other]) rest) ∨
    (∃ nodes fault, runNodes meaning scope done (node :: rest) = (nodes, .error fault) ∧
      node.Stops meaning scope done fault ∧ ¬ graph.Defined meaning scope) := by
  have reads : node.reads ⊆ first.map Node.id := fun id isRead =>
    present (node.inputs_subset_dependencies (node.reads_subset_inputs isRead))
  rw [runNodes_plain noLoop]
  cases computed : nodeValue meaning scope done node with
  | error fault =>
      refine .inr ⟨_, fault, rfl, .value noLoop computed, fun defined => ?_⟩
      obtain ⟨value, denotes⟩ := defined node.id (Graph.mem_ids_of_find? found)
      have impossible := (nodeValue_eq_ok finished found noLoop reads).mpr denotes
      rw [computed] at impossible
      cases impossible
  | ok value =>
      have denotes := (nodeValue_eq_ok finished found noLoop reads).mp computed
      refine .inl ⟨{ node with result := value }, ⟨rfl, denotes, ?_⟩, rfl⟩
      intro loop runs
      cases noLoop.symm.trans runs

/-- A loop is finished when its body is, in the scope that its sources make. -/
theorem runNodes_step_loop {node : Node} {loop : Loop} (found : graph.find? node.id = some node)
    (runs : node.loop? = some loop) (present : node.dependencies ⊆ first.map Node.id)
    (well : ∀ inner, loop.body.ComputedBy meaning inner (loop.body.run meaning inner)) :
    (∃ other, node.Finished meaning graph scope other ∧
      runNodes meaning scope done (node :: rest) =
        runNodes meaning scope (done ++ [other]) rest) ∨
    (∃ nodes fault, runNodes meaning scope done (node :: rest) = (nodes, .error fault) ∧
      node.Stops meaning scope done fault ∧ ¬ graph.Defined meaning scope) := by
  have sources : loop.bindings.map Prod.snd ⊆ first.map Node.id := fun id isSource =>
    present ((Node.dependencies_of_loop runs).mpr (.inr isSource))
  rw [runNodes_loop runs]
  cases computed : bodyScope done loop.body scope loop.bindings with
  | error fault =>
      refine .inr ⟨_, fault, rfl, .names runs computed, fun defined => ?_⟩
      obtain ⟨value, denotes⟩ := defined node.id (Graph.mem_ids_of_find? found)
      obtain ⟨values, sourceValues, keys, _⟩ := denotes.defined_body found runs
      have impossible :=
        (bodyScope_eq_ok finished sources).mpr ⟨values, sourceValues, keys, rfl⟩
      rw [computed] at impossible
      cases impossible
  | ok inner =>
      obtain ⟨values, sourceValues, keys, rfl⟩ := (bodyScope_eq_ok finished sources).mp computed
      -- Denotations are unique, so every choice of values for the sources makes this scope.
      have sameScope : ∀ others : NodeId → Value,
          (∀ binding ∈ loop.bindings,
            Denotes meaning graph scope binding.2 (others binding.2)) →
          boundScope loop.body others scope loop.bindings =
            boundScope loop.body values scope loop.bindings :=
        fun others otherValues => boundScope_eq_of_values fun binding bound =>
          (otherValues binding bound).deterministic (sourceValues binding bound)
      cases ran : (loop.body.run meaning
          (boundScope loop.body values scope loop.bindings)).answer with
      | error fault =>
          refine .inr ⟨_, fault, by simp only [ran]; rfl, .body runs computed ran,
            fun defined => ?_⟩
          obtain ⟨value, denotes⟩ := defined node.id (Graph.mem_ids_of_find? found)
          obtain ⟨others, otherValues, _, bodyDefined, _⟩ := denotes.defined_body found runs
          rw [sameScope others otherValues] at bodyDefined
          obtain ⟨results, succeeded⟩ := (well _).complete bodyDefined
          rw [ran] at succeeded
          cases succeeded
      | ok results =>
          obtain ⟨bodyDefined, completes, _⟩ := (well _).sound results ran
          have denotes : Denotes meaning graph scope node.id .null :=
            .of_defined found runs sourceValues keys bodyDefined
          let ranBody := (loop.body.run meaning
            (boundScope loop.body values scope loop.bindings)).graph
          refine .inl ⟨{ node with
              content := .loop { loop with body := ranBody }, result := .null },
            ⟨rfl, denotes, ?_⟩, by simp only [ran]; rfl⟩
          intro held runsHeld
          cases runs.symm.trans runsHeld
          refine ⟨_, Node.loop?_eq_some.mpr ⟨(Node.loop?_eq_some.mp runs).1, rfl⟩, ?_⟩
          intro others otherValues
          rw [sameScope others otherValues]
          exact completes

theorem runNodes_step {node : Node} (found : graph.find? node.id = some node)
    (present : node.dependencies ⊆ first.map Node.id)
    (well : ∀ loop, node.loop? = some loop → ∀ inner,
      loop.body.ComputedBy meaning inner (loop.body.run meaning inner)) :
    (∃ other, node.Finished meaning graph scope other ∧
      runNodes meaning scope done (node :: rest) =
        runNodes meaning scope (done ++ [other]) rest) ∨
    (∃ nodes fault, runNodes meaning scope done (node :: rest) = (nodes, .error fault) ∧
      node.Stops meaning scope done fault ∧ ¬ graph.Defined meaning scope) := by
  cases runs : node.loop? with
  | none => exact runNodes_step_plain finished found runs present
  | some loop => exact runNodes_step_loop finished found runs present (well loop runs)

end Sweep

/-- One sweep over the nodes that are left.  The finished nodes stand for those
before them, and a sweep that fails stops at a node whose dependencies are finished. -/
theorem runNodes_spec {meaning : Interpretation} {graph : Graph} {scope : Scope}
    (distinct : graph.ids.Nodup)
    (bodies : ∀ node ∈ graph.nodes, ∀ loop, node.loop? = some loop → ∀ inner,
      loop.body.ComputedBy meaning inner (loop.body.run meaning inner))
    {first rest done : List Node} {placed : List NodeId} (split : first ++ rest = graph.nodes)
    (finished : List.Forall₂ (Node.Finished meaning graph scope) first done)
    (sequenced : Sequenced placed rest) (known : placed ⊆ first.map Node.id) :
    ((runNodes meaning scope done rest).2 = .ok () →
      List.Forall₂ (Node.Finished meaning graph scope) graph.nodes
        (runNodes meaning scope done rest).1) ∧
    (graph.Defined meaning scope → (runNodes meaning scope done rest).2 = .ok ()) ∧
    ∀ fault, (runNodes meaning scope done rest).2 = .error fault →
      ∃ node ∈ graph.nodes, ∃ before results,
        List.Forall₂ (Node.Finished meaning graph scope) before results ∧
        node.dependencies ⊆ before.map Node.id ∧ node.Stops meaning scope results fault := by
  induction rest generalizing first done placed with
  | nil =>
      rw [List.append_nil] at split
      subst split
      rw [runNodes]
      exact ⟨fun _ => finished, fun _ => rfl, fun _ failed => by cases failed⟩
  | cons node rest induction =>
      have member : node ∈ graph.nodes := split ▸ by simp
      have found := Graph.find?_of_mem distinct member
      have dependencies : node.dependencies ⊆ first.map Node.id :=
        fun id needed => known (sequenced.1 id needed)
      -- Either one more node is finished and the sweep goes on, or it stops for a reason.
      rcases runNodes_step finished found dependencies (bodies node member) with
        ⟨other, finishedNode, continues⟩ | ⟨nodes, fault, stops, cause, undefined⟩
      · rw [continues]
        have splitAfter : (first ++ [node]) ++ rest = graph.nodes := by simpa using split
        refine induction splitAfter (List.rel_append finished (.cons finishedNode .nil))
          sequenced.2 ?_
        rw [List.map_append]
        exact List.cons_subset.mpr ⟨by simp, fun id old => List.mem_append_left _ (known old)⟩
      · rw [stops]
        refine ⟨fun ends => (by cases ends), fun defined => absurd defined undefined, ?_⟩
        intro found failed
        cases failed
        exact ⟨node, member, first, done, finished, dependencies, cause⟩

theorem exitValues_finished {meaning : Interpretation} {graph : Graph} {scope : Scope}
    {nodes done : List Node}
    (finished : List.Forall₂ (Node.Finished meaning graph scope) nodes done)
    {exits : List (String × NodeId)} (present : ∀ exit ∈ exits, exit.2 ∈ nodes.map Node.id) :
    ∃ values, exitValues done exits = .ok values ∧
      List.Forall₂ (fun exit found => found.1 = exit.1 ∧
        Denotes meaning graph scope exit.2 found.2) exits values := by
  induction exits with
  | nil => exact ⟨[], rfl, .nil⟩
  | cons exit rest induction =>
      obtain ⟨name, id⟩ := exit
      obtain ⟨value, read, denotes⟩ := resultOf_finished finished (present (name, id) (by simp))
      obtain ⟨values, others, related⟩ :=
        induction fun exit member => present exit (by simp [member])
      exact ⟨(name, value) :: values,
        bind_eq_ok.mpr ⟨value, read, bind_eq_ok.mpr ⟨values, others, rfl⟩⟩,
        .cons ⟨rfl, denotes⟩ related⟩

theorem Graph.completes_of_finished {meaning : Interpretation} {graph other : Graph}
    {scope : Scope} (distinct : graph.ids.Nodup)
    (finished : List.Forall₂ (Node.Finished meaning graph scope) graph.nodes other.nodes) :
    graph.Completes meaning scope other := by
  have sameIds : other.ids = graph.ids := ids_paired (fun _ _ => Node.Finished.id) finished
  have partners : ∀ id, Option.Rel (Node.Finished meaning graph scope) (graph.find? id)
      (other.find? id) := find?_paired (fun _ _ => Node.Finished.id) finished
  intro path body inner enters
  cases enters with
  | here =>
      refine ⟨other, rfl, .of_eq sameIds, ?_⟩
      intro done member
      have found := find?_of_mem (sameIds.symm ▸ distinct) member
      obtain ⟨_, _, finishedNode⟩ := exists_partnered (partners done.id) found
      exact finishedNode.id ▸ finishedNode.value
  | @inside _ _ id node loop values path _ _ found runs sources deeper =>
      obtain ⟨done, foundOther, finishedNode⟩ := exists_partner (partners id) found
      obtain ⟨changed, runsOther, completes⟩ := finishedNode.loops loop runs
      obtain ⟨target, reached, sameBodyIds, results⟩ :=
        completes values sources path body inner deeper
      exact ⟨target, within?_cons.mpr ⟨done, changed, foundOther, runsOther, reached⟩,
        sameBodyIds, results⟩

theorem Graph.run_answer (meaning : Interpretation) (scope : Scope) (graph : Graph) :
    (graph.run meaning scope).answer =
      ((runNodes meaning scope [] graph.nodes).2 >>= fun _ =>
        exitValues (runNodes meaning scope [] graph.nodes).1 graph.exits) := by
  cases graph
  rfl

/-- A run over the nodes of a graph that is in evaluation order computes it. -/
theorem Graph.computedBy_run {graph : Graph} (runnable : graph.Everywhere Runnable)
    (meaning : Interpretation) (scope : Scope) :
    graph.ComputedBy meaning scope (graph.run meaning scope) := by
  induction graph using bodyInduction generalizing scope with
  | step graph induction =>
      have distinct := runnable.here.distinct
      have bodies : ∀ node ∈ graph.nodes, ∀ loop, node.loop? = some loop → ∀ inner,
          loop.body.ComputedBy meaning inner (loop.body.run meaning inner) :=
        fun node member loop runs => induction node member loop runs
          (runnable.body (find?_of_mem distinct member) runs)
      have nothing : List.Forall₂ (Node.Finished meaning graph scope) [] [] := .nil
      obtain ⟨sound, complete, _⟩ := runNodes_spec distinct bodies (List.nil_append graph.nodes)
        nothing runnable.here.sequenced (List.nil_subset _)
      have answer := graph.run_answer meaning scope
      have nodes : (graph.run meaning scope).graph.nodes =
          (runNodes meaning scope [] graph.nodes).1 := by
        cases graph
        rfl
      have leaving : (runNodes meaning scope [] graph.nodes).2 = .ok () → ∃ values,
          exitValues (runNodes meaning scope [] graph.nodes).1 graph.exits = .ok values ∧
            ExitsDenote meaning scope graph values :=
        fun swept => exitValues_finished (sound swept) runnable.here.exits
      constructor
      · intro values succeeded
        rw [answer, check_eq_ok] at succeeded
        obtain ⟨swept, left⟩ := succeeded
        obtain ⟨others, leftOthers, exits⟩ := leaving swept
        cases left.symm.trans leftOthers
        have finished := sound swept
        refine ⟨?_, completes_of_finished distinct (nodes ▸ finished), exits⟩
        intro id present
        obtain ⟨value, _, denotes⟩ := resultOf_finished finished present
        exact ⟨value, denotes⟩
      · intro defined
        obtain ⟨values, left, _⟩ := leaving (complete defined)
        exact ⟨values, answer.trans (check_eq_ok.mpr ⟨complete defined, left⟩)⟩

namespace Graph

variable {meaning : Interpretation} {graph : Graph} {scope : Scope}

theorem Completes.resultAt_eq {finished body : Graph} {path : List NodeId} {inner : Scope}
    {id : NodeId} {value : Value} (completes : graph.Completes meaning scope finished)
    (enters : Enters meaning graph scope path body inner)
    (denotes : Denotes meaning body inner id value) : finished.resultAt path id = some value := by
  obtain ⟨other, reached, sameIds, results⟩ := completes path body inner enters
  obtain ⟨node, found⟩ := exists_find? (sameIds.mem_iff.mpr denotes.mem_ids)
  obtain ⟨member, same⟩ := mem_of_find? found
  exact resultAt_eq_some.mpr
    ⟨other, node, reached, found, (same ▸ results node member).deterministic denotes⟩

/-- The results of an evaluated graph are denotations. -/
theorem Completes.denotes_of_resultAt {finished body : Graph} {path : List NodeId} {inner : Scope}
    {id : NodeId} {value : Value} (completes : graph.Completes meaning scope finished)
    (enters : Enters meaning graph scope path body inner)
    (result : finished.resultAt path id = some value) : Denotes meaning body inner id value := by
  obtain ⟨other, reached, _, results⟩ := completes path body inner enters
  obtain ⟨found, node, reachedAgain, holds, rfl⟩ := resultAt_eq_some.mp result
  cases reached.symm.trans reachedAgain
  obtain ⟨member, rfl⟩ := mem_of_find? holds
  exact results node member

/-- Evaluation runs over the schedule of the graph. -/
theorem evaluate_eq (graph : Graph) (meaning : Interpretation) (scope : Scope) :
    graph.evaluate meaning scope =
      match graph.scheduled with
      | .ok scheduled => scheduled.run meaning scope
      | .error fault => ⟨graph, .error fault⟩ := by
  rw [evaluate, schedule_eq]
  cases graph.scheduled <;> rfl

/-- Evaluation computes every graph that is fit for it. -/
theorem computedBy_evaluate (evaluable : graph.Everywhere Evaluable) (meaning : Interpretation)
    (scope : Scope) : graph.ComputedBy meaning scope (graph.evaluate meaning scope) := by
  obtain ⟨scheduled, done⟩ := exists_scheduled evaluable
  have schedules := schedules_of_evaluable evaluable done
  have computed := computedBy_run (runnable_of_scheduled evaluable done) meaning scope
  have sameDenotes : ∀ {id value},
      Denotes meaning scheduled scope id value ↔ Denotes meaning graph scope id value :=
    denotes_scheduled evaluable done
  have sameDefined : scheduled.Defined meaning scope ↔ graph.Defined meaning scope := by
    simp only [Defined, schedules.mem_ids_iff, sameDenotes]
  have evaluated : graph.evaluate meaning scope = scheduled.run meaning scope := by
    simp only [evaluate_eq, done]
  rw [evaluated]
  constructor
  · intro values succeeded
    obtain ⟨defined, completes, exits⟩ := computed.sound values succeeded
    refine ⟨sameDefined.mp defined, ?_, ?_⟩
    · intro path body inner enters
      obtain ⟨other, entersOther, inBody, bodyDone⟩ := enters_scheduled evaluable done enters
      obtain ⟨target, reached, sameIds, results⟩ := completes path other inner entersOther
      refine ⟨target, reached, sameIds.trans (schedules_of_evaluable inBody bodyDone).ids, ?_⟩
      intro node member
      exact (denotes_scheduled inBody bodyDone).mp (results node member)
    · simpa only [ExitsDenote, schedules.exits, sameDenotes] using exits
  · intro defined
    exact computed.complete (sameDefined.mpr defined)

theorem evaluate_eq_ok (evaluable : graph.Everywhere Evaluable)
    {values : List (String × Value)} (defined : graph.Defined meaning scope)
    (exits : ExitsDenote meaning scope graph values) :
    (graph.evaluate meaning scope).answer = .ok values := by
  have computed := computedBy_evaluate evaluable meaning scope
  obtain ⟨others, succeeded⟩ := computed.complete defined
  rw [succeeded, (computed.sound others succeeded).2.2.unique exits]

/-- A graph of the right form that has values for its nodes and these at its exits. -/
structure Means (meaning : Interpretation) (scope : Scope) (values : List (String × Value))
    (graph : Graph) : Prop where
  formed : graph.Everywhere Formed
  defined : graph.Defined meaning scope
  exits : ExitsDenote meaning scope graph values

theorem means_iff {graph : Graph} (formed : graph.Everywhere Formed) :
    graph.Means meaning scope values ↔ (graph.evaluate meaning scope).answer = .ok values := by
  have evaluable := formed.evaluable
  constructor
  · intro means
    exact evaluate_eq_ok evaluable means.defined means.exits
  · intro succeeded
    obtain ⟨defined, _, exits⟩ :=
      (computedBy_evaluate evaluable meaning scope).sound values succeeded
    exact ⟨formed, defined, exits⟩

/-- Nodes that two graphs share have one result in their evaluated forms, at every
depth. -/
def SameResults (graph other evaluated otherEvaluated : Graph) : Prop :=
  ∀ path body rest, graph.within? path = some body → other.within? path = some rest →
    ∀ id ∈ body.ids, id ∈ rest.ids → ∃ value,
      evaluated.resultAt path id = some value ∧ otherEvaluated.resultAt path id = some value

/-- Evaluation agrees with denotation, which sees neither the order of the nodes nor
the results that they hold: it succeeds exactly when all nodes have denotations,
the values that leave at the exits are those of the exit nodes, and the results of
the nodes at every depth are their denotations in the scopes of their bodies. -/
theorem evaluate_agrees_with_denote (valid : graph.validate = .ok ())
    (distinct : graph.Everywhere fun body => body.ids.Nodup)
    (carried : graph.Everywhere fun body =>
      ∀ node ∈ body.nodes, node.kind = .loop → ∃ loop, node.content = .loop loop)
    (acyclic : graph.Everywhere Acyclic) (meaning : Interpretation) (scope : Scope) :
    ((∃ values, (graph.evaluate meaning scope).answer = .ok values) ↔
      ∀ id ∈ graph.ids, ∃ value, graph.denote meaning scope id = .ok value) ∧
    ∀ values, (graph.evaluate meaning scope).answer = .ok values →
      List.Forall₂ (fun exit found =>
        found.1 = exit.1 ∧ graph.denote meaning scope exit.2 = .ok found.2) graph.exits values ∧
      ∀ path body, graph.within? path = some body →
        ∃ inner evaluated, graph.enter meaning scope path = .ok (body, inner) ∧
          (graph.evaluate meaning scope).graph.within? path = some evaluated ∧
          evaluated.ids.Perm body.ids ∧
          ∀ node ∈ evaluated.nodes, body.denote meaning inner node.id = .ok node.result := by
  have evaluable := evaluable_of_valid valid distinct carried acyclic
  have computed := computedBy_evaluate evaluable meaning scope
  refine ⟨⟨?_, ?_⟩, ?_⟩
  · rintro ⟨values, succeeded⟩ id present
    obtain ⟨value, denotes⟩ := (computed.sound values succeeded).1 id present
    exact ⟨value, (denote_eq_ok acyclic).mpr denotes⟩
  · intro denoted
    refine computed.complete fun id present => ?_
    obtain ⟨value, denotes⟩ := denoted id present
    exact ⟨value, (denote_eq_ok acyclic).mp denotes⟩
  · intro values succeeded
    obtain ⟨defined, completes, exits⟩ := computed.sound values succeeded
    refine ⟨?_, ?_⟩
    · exact exits.imp fun exit found leaves => ⟨leaves.1, (denote_eq_ok acyclic).mpr leaves.2⟩
    · intro path body reached
      obtain ⟨inner, enters, _⟩ := defined.exists_enters reached
      obtain ⟨evaluated, reachedAgain, sameIds, results⟩ := completes path body inner enters
      refine ⟨inner, evaluated, enters.enter evaluable, reachedAgain, sameIds, ?_⟩
      intro node member
      exact (denote_eq_ok (acyclic.inside reached)).mpr (results node member)

end Graph

/-- Every operation adds the integers among its operands, and every name stands for
itself. -/
def adding : Interpretation where
  call := fun _ operands => .ok (.int (operands.foldr (fun operand total =>
    match operand with
    | .int summand => summand + total
    | _ => total) 0))
  lookup := fun name => .ok (.text name)
  element := Value.element
  field := Value.field

theorem evaluate_tripling : (tripling.evaluate adding fun _ => none).answer =
    .ok [("total", .int 3), ("loop", .null)] := by
  cbv

theorem tripling_exits_denote :
    List.Forall₂ (fun exit found =>
      found.1 = exit.1 ∧ tripling.denote adding (fun _ => none) exit.2 = .ok found.2)
      tripling.exits [("total", .int 3), ("loop", .null)] :=
  ((Graph.evaluate_agrees_with_denote tripling_wellFormed.valid tripling_wellFormed.distinct
    (tripling_wellFormed.loops.mono fun _ loops node member => (loops node member).mp)
    tripling_wellFormed.acyclic adding fun _ => none).2 _ evaluate_tripling).1

end FlowGraph

import FlowGraph.Proofs.FixedPoints
import FlowGraph.Proofs.Preservation

/-!
# Evaluating again

Evaluation writes results, and it reads none that it has not written before.  So the graph
that a successful evaluation leaves is in order, and evaluating it once more computes the
same results and leaves it as it is.
-/

namespace FlowGraph

/-- The dependencies of a node stay while the bindings of its loop do. -/
theorem Node.Resembles.dependencies_eq {related : Loop → Loop → Prop} {node other : Node}
    (resembles : node.Resembles related other)
    (bindings : ∀ loop changed, related loop changed → changed.bindings = loop.bindings) :
    other.dependencies = node.dependencies := by
  cases runs : node.loop? with
  | none => simp only [dependencies, resembles.content runs, resembles.inputs]
  | some loop =>
      obtain ⟨changed, runsOther, relates⟩ := resembles.loops loop runs
      simp only [dependencies, (loop?_eq_some.mp runs).2, (loop?_eq_some.mp runsOther).2,
        resembles.inputs, bindings loop changed relates]

namespace Graph

section Run

variable (meaning : Interpretation) (scope : Scope) (graph : Graph)

theorem exits_run : (graph.run meaning scope).graph.exits = graph.exits := by
  cases graph
  rfl

theorem ids_run : (graph.run meaning scope).graph.ids = graph.ids :=
  ids_paired (fun _ _ => Node.Resembles.id) (run_resembles meaning scope graph)

theorem find?_run (id : NodeId) : Option.Rel (Node.Resembles (Loop.RunTo meaning))
    (graph.find? id) ((graph.run meaning scope).graph.find? id) :=
  find?_paired (fun _ _ => Node.Resembles.id) (run_resembles meaning scope graph) id

theorem origins_run (id : NodeId) (changed : Node)
    (found : (graph.run meaning scope).graph.find? id = some changed) :
    ∃ node, graph.find? id = some node ∧ node.Resembles (Loop.RunTo meaning) changed :=
  exists_partnered (find?_run meaning scope graph id) found

end Run

end Graph

/-- A run leaves the text of a loop as it is. -/
theorem Loop.RunTo.describe_eq {meaning : Interpretation} {loop changed : Loop}
    (ran : loop.RunTo meaning changed) : changed.describe = loop.describe := by
  rcases ran.body with same | ⟨scope, same⟩
  · exact Loop.describe_eq ran.index ran.bindings (by rw [same]) (by rw [same])
  · refine Loop.describe_eq ran.index ran.bindings ?_ ?_
    · rw [same]
      exact (Graph.run_resembles meaning scope loop.body).length_eq.symm
    · rw [same]
      exact Graph.exits_run meaning scope loop.body

theorem Loop.RunTo.body_ids {meaning : Interpretation} {loop changed : Loop}
    (ran : loop.RunTo meaning changed) : changed.body.ids = loop.body.ids := by
  rcases ran.body with same | ⟨scope, same⟩
  · rw [same]
  · rw [same]
    exact Graph.ids_run meaning scope loop.body

/-- A run leaves the name of a node as it is. -/
theorem Node.Resembles.plain_eq {meaning : Interpretation} {node other : Node}
    (resembles : node.Resembles (Loop.RunTo meaning) other) :
    other.content.plain = node.content.plain := by
  cases runs : node.loop? with
  | none => rw [resembles.content runs]
  | some loop =>
      obtain ⟨changed, runsOther, ran⟩ := resembles.loops loop runs
      rw [(loop?_eq_some.mp runs).2, (loop?_eq_some.mp runsOther).2, Value.plain_loop,
        Value.plain_loop]
      exact ran.describe_eq

/-- The scope of a body is the same before a run of the body and after it. -/
theorem bodyScope_run (meaning : Interpretation) (inner : Scope) (done : List Node) (body : Graph)
    (scope : Scope) (bindings : List (NodeId × NodeId)) :
    bodyScope done (body.run meaning inner).graph scope bindings =
      bodyScope done body scope bindings := by
  induction bindings generalizing scope with
  | nil => rfl
  | cons binding rest induction =>
      obtain ⟨key, source⟩ := binding
      have partners := Graph.find?_run meaning inner body key
      simp only [bodyScope, Graph.node, induction]
      cases found : body.find? key with
      | none =>
          rw [found] at partners
          generalize (body.run meaning inner).graph.find? key = after at partners
          cases partners
          rfl
      | some bound =>
          obtain ⟨other, foundOther, resembles⟩ := exists_partner partners found
          rw [foundOther]
          simp only [bind, Except.bind, resembles.plain_eq]

section Sweep

variable {meaning : Interpretation} {scope : Scope} {done : List Node}

/-- What a sweep makes of a node behind those that are done, when it does not stop there. -/
inductive Node.SweptTo (meaning : Interpretation) (scope : Scope) (done : List Node) (node : Node) :
    Node → Prop where
  | value {value : Value} (noLoop : node.loop? = none)
      (computed : nodeValue meaning scope done node = .ok value) :
      SweptTo meaning scope done node { node with result := value }
  | body {loop : Loop} {inner : Scope} {values : List (String × Value)}
      (runs : node.loop? = some loop)
      (bound : bodyScope done loop.body scope loop.bindings = .ok inner)
      (answered : (loop.body.run meaning inner).answer = .ok values) :
      SweptTo meaning scope done node { node with
        content := .loop { loop with body := (loop.body.run meaning inner).graph }
        result := .null }

theorem Node.SweptTo.runNodes_eq {node other : Node} (swept : node.SweptTo meaning scope done other)
    (rest : List Node) : runNodes meaning scope done (node :: rest) =
      runNodes meaning scope (done ++ [other]) rest := by
  cases swept with
  | value noLoop computed => rw [runNodes_plain noLoop, computed]
  | body runs bound answered =>
      rw [runNodes_loop runs, bound]
      simp only [answered]

theorem exists_sweptTo {node : Node} {rest : List Node}
    (succeeded : (runNodes meaning scope done (node :: rest)).2 = .ok ()) :
    ∃ other, node.SweptTo meaning scope done other := by
  cases runs : node.loop? with
  | none =>
      rw [runNodes_plain runs] at succeeded
      cases computed : nodeValue meaning scope done node with
      | error fault =>
          rw [computed] at succeeded
          cases succeeded
      | ok value => exact ⟨_, .value runs computed⟩
  | some loop =>
      rw [runNodes_loop runs] at succeeded
      cases bound : bodyScope done loop.body scope loop.bindings with
      | error fault =>
          rw [bound] at succeeded
          cases succeeded
      | ok inner =>
          cases answered : (loop.body.run meaning inner).answer with
          | error fault =>
              simp only [bound, answered] at succeeded
              cases succeeded
          | ok values => exact ⟨_, .body runs bound answered⟩

/-- After a run that succeeds, a second run finds and leaves the same. -/
def Graph.Repeats (meaning : Interpretation) (graph : Graph) : Prop :=
  ∀ scope values, (graph.run meaning scope).answer = .ok values →
    (graph.run meaning scope).graph.run meaning scope = graph.run meaning scope

/-- Sweeping a node again computes what it has. -/
theorem Node.SweptTo.again {node other : Node} (swept : node.SweptTo meaning scope done other)
    (repeats : ∀ loop, node.loop? = some loop → loop.body.Repeats meaning) :
    other.SweptTo meaning scope done other := by
  cases swept with
  | @value value noLoop computed =>
      exact @SweptTo.value meaning scope done { node with result := value } value noLoop computed
  | @body loop inner values runs bound answered =>
      have same := repeats loop runs inner values answered
      let ran : Loop := { loop with body := (loop.body.run meaning inner).graph }
      let other : Node := { node with content := .loop ran, result := .null }
      have runsOther : other.loop? = some ran :=
        loop?_eq_some.mpr ⟨(loop?_eq_some.mp runs).1, rfl⟩
      have boundOther : bodyScope done ran.body scope ran.bindings = .ok inner :=
        (bodyScope_run meaning inner done loop.body scope loop.bindings).trans bound
      have answeredOther : (ran.body.run meaning inner).answer = .ok values := by
        rw [same, answered]
      -- The body is now the one that its own run leaves, so the loop does not change.
      have swept := SweptTo.body runsOther boundOther answeredOther
      rwa [same] at swept

/-- The nodes that a sweep leaves are left as they are by another sweep. -/
theorem runNodes_again {nodes : List Node}
    (repeats : ∀ node ∈ nodes, ∀ loop, node.loop? = some loop → loop.body.Repeats meaning)
    (succeeded : (runNodes meaning scope done nodes).2 = .ok ()) :
    ∃ others, (runNodes meaning scope done nodes).1 = done ++ others ∧
      runNodes meaning scope done others = runNodes meaning scope done nodes := by
  induction nodes generalizing done with
  | nil => exact ⟨[], by simp [runNodes], rfl⟩
  | cons node rest induction =>
      obtain ⟨other, swept⟩ := exists_sweptTo succeeded
      rw [swept.runNodes_eq rest] at succeeded ⊢
      obtain ⟨others, same, again⟩ :=
        induction (fun node member => repeats node (List.mem_cons_of_mem _ member)) succeeded
      have sweptAgain := swept.again (repeats node List.mem_cons_self)
      refine ⟨other :: others, by simp [same], ?_⟩
      rw [sweptAgain.runNodes_eq others]
      exact again

end Sweep

namespace Graph

/-- A second run leaves what a successful run has left. -/
theorem run_again (meaning : Interpretation) (graph : Graph) : graph.Repeats meaning := by
  induction graph using bodyInduction with
  | step graph induction =>
      intro scope values succeeded
      obtain ⟨nodes, exits, nextId⟩ := graph
      obtain ⟨_, swept, _⟩ := bind_eq_ok.mp succeeded
      obtain ⟨others, same, again⟩ := runNodes_again induction swept
      rw [List.nil_append] at same
      simp only [run, same, again]

variable {meaning : Interpretation} {graph : Graph}

/-- A property that a run keeps in one graph is kept in the bodies of loops too. -/
theorem everywhere_run {property : Graph → Prop}
    (step : ∀ graph scope, property graph → property (graph.run meaning scope).graph)
    (everywhere : graph.Everywhere property) (scope : Scope) :
    (graph.run meaning scope).graph.Everywhere property := by
  induction graph using bodyInduction generalizing scope with
  | step graph induction =>
      refine everywhere_iff.mpr ⟨step graph scope everywhere.here, ?_⟩
      intro id other changed foundOther runsOther
      obtain ⟨node, found, resembles⟩ := origins_run meaning scope graph id other foundOther
      obtain ⟨loop, runs, ran⟩ := resembles.exists_origin runsOther
      have inBody := everywhere.body found runs
      rcases ran.body with same | ⟨inner, same⟩
      · rw [same]
        exact inBody
      · rw [same]
        exact induction node (mem_of_find? found).1 loop runs inBody inner

theorem Evaluable.run (evaluable : graph.Evaluable) (scope : Scope) :
    (graph.run meaning scope).graph.Evaluable := by
  have sameIds := ids_run meaning scope graph
  have distinct : (graph.run meaning scope).graph.ids.Nodup := sameIds.symm ▸ evaluable.distinct
  have origins := origins_run meaning scope graph
  have bindings : ∀ loop changed : Loop, loop.RunTo meaning changed →
      changed.bindings ⊆ loop.bindings := fun _ _ ran => ran.bindings ▸ List.Subset.refl _
  refine evaluable.of_resembling distinct origins ?_ ?_ bindings ?_
  · intro changed member id needed
    obtain ⟨node, inside, _, resembles⟩ := exists_resembled distinct origins member
    rw [sameIds]
    exact evaluable.linked node inside id (resembles.dependencies_subset bindings needed)
  · rw [exits_run, sameIds]
    exact evaluable.exits
  · intro id node loop changed found runs ran binding bound
    rw [ran.bindings] at bound
    have present := evaluable.keys node (mem_of_find? found).1 loop runs binding bound
    rwa [ran.body_ids]

theorem plain_run (distinct : graph.ids.Nodup)
    (plain : ∀ node ∈ graph.nodes, ∀ loop, node.content = .loop loop → node.kind = .loop)
    (scope : Scope) :
    ∀ node ∈ (graph.run meaning scope).graph.nodes, ∀ loop, node.content = .loop loop →
      node.kind = .loop := by
  intro other member loop content
  have sameIds := ids_run meaning scope graph
  obtain ⟨node, inside, _, resembles⟩ :=
    exists_resembled (sameIds.symm ▸ distinct) (origins_run meaning scope graph) member
  exact resembles.kind_of_content (plain node inside) content

/-- Coherence is a property of each graph of the nest. -/
theorem coherent_iff : graph.Coherent ↔ graph.Everywhere fun body => body.Evaluable ∧
    ∀ node ∈ body.nodes, ∀ loop, node.content = .loop loop → node.kind = .loop := by
  constructor
  · intro coherent path body reached
    refine ⟨coherent.evaluable path body reached, ?_⟩
    intro node member loop content
    exact (coherent.loops path body reached node member).mpr ⟨loop, content⟩
  · intro everywhere
    refine ⟨valid_of_consistent ?_, ?_, ?_, ?_⟩
    · exact everywhere.mono fun _ here => ⟨here.1.closed, here.1.keys, here.2⟩
    · exact everywhere.mono fun _ here => here.1.distinct
    · exact everywhere.mono fun _ here => here.1.acyclic
    · refine everywhere.mono fun _ here node member => ⟨here.1.carried node member, ?_⟩
      intro holds
      obtain ⟨loop, content⟩ := holds
      exact here.2 node member loop content

/-- A graph in evaluation order. -/
structure Ordered (graph : Graph) : Prop extends Evaluable graph where
  plain : ∀ node ∈ graph.nodes, ∀ loop, node.content = .loop loop → node.kind = .loop
  layered : layers graph.nodes = .ok graph.ids

theorem Ordered.run (ordered : graph.Ordered) (scope : Scope) :
    (graph.run meaning scope).graph.Ordered := by
  refine ⟨ordered.toEvaluable.run scope, plain_run ordered.distinct ordered.plain scope, ?_⟩
  rw [ids_run]
  refine layers_paired ((run_resembles meaning scope graph).imp fun node other resembles => ?_)
    ordered.layered
  exact ⟨resembles.id, resembles.dependencies_eq fun _ _ ran => ran.bindings⟩

theorem ordered_of_scheduled {scheduled : Graph} (coherent : graph.Coherent)
    (done : graph.scheduled = .ok scheduled) : scheduled.Everywhere Ordered := by
  refine everywhere_scheduled (fun _ here => here.1.distinct) ?_ (coherent_iff.mp coherent) done
  intro graph scheduled everywhere done
  have coherent := coherent_iff.mpr everywhere
  have evaluable := coherent.evaluable
  exact ⟨(evaluable_of_scheduled evaluable done).here, coherent.plain_scheduled done,
    layers_scheduled evaluable.here.distinct done⟩

theorem exists_run_of_evaluate {scope : Scope} {values : List (String × Value)}
    (succeeded : (graph.evaluate meaning scope).answer = .ok values) :
    ∃ scheduled, graph.scheduled = .ok scheduled ∧
      graph.evaluate meaning scope = scheduled.run meaning scope := by
  rw [evaluate_eq] at succeeded ⊢
  cases done : graph.scheduled with
  | error fault =>
      rw [done] at succeeded
      cases succeeded
  | ok scheduled => exact ⟨scheduled, rfl, rfl⟩

section Evaluated

variable (coherent : graph.Coherent) {scope : Scope} {values : List (String × Value)}
  (succeeded : (graph.evaluate meaning scope).answer = .ok values)
include coherent succeeded

theorem ordered_evaluate : (graph.evaluate meaning scope).graph.Everywhere Ordered := by
  obtain ⟨scheduled, done, evaluates⟩ := exists_run_of_evaluate succeeded
  rw [evaluates]
  exact everywhere_run (fun _ scope ordered => ordered.run scope)
    (ordered_of_scheduled coherent done) scope

theorem Coherent.evaluate : (graph.evaluate meaning scope).graph.Coherent :=
  coherent_iff.mpr ((ordered_evaluate coherent succeeded).mono fun _ here =>
    ⟨here.toEvaluable, here.plain⟩)

/-- Evaluating again what a successful evaluation has left changes nothing. -/
theorem evaluate_again :
    (graph.evaluate meaning scope).graph.evaluate meaning scope = graph.evaluate meaning scope := by
  have ordered := ordered_evaluate coherent succeeded
  have unchanged := scheduled_of_layered (ordered.mono fun _ here =>
    ⟨⟨here.distinct, here.linked, here.carried⟩, here.layered⟩)
  obtain ⟨scheduled, _, evaluates⟩ := exists_run_of_evaluate succeeded
  rw [evaluates] at unchanged succeeded ⊢
  have repeats := run_again meaning scheduled scope values succeeded
  rw [Graph.evaluate_eq]
  rw [unchanged]
  exact repeats

end Evaluated

end Graph

end FlowGraph

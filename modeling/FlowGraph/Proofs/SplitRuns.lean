import FlowGraph.Proofs.NormalForm
import FlowGraph.Proofs.Totals

/-!
# Splitting as a run of splits

Splitting one graph of a nest is a run of single splits, each of which takes one operand
from a call that has too many.  What one split keeps, the run keeps.  The operands beyond
the second one are used up one by one, so their number is the number of splits, and the run
ends when none is left.  Then the bodies of the loops are split in the same way, which
`Graph.split_eq` says without the bound on the depth.
-/

namespace FlowGraph

/-- The operands beyond the second one of a call that a scan splits. -/
def Node.excess (node : Node) : Nat :=
  if node.isWide then node.inputs.length - 2 else 0

namespace Graph

/-- The operands beyond the second one of all calls that a scan splits. -/
def excess (graph : Graph) : Nat :=
  (graph.nodes.map Node.excess).sum

/-- So many splits, one after the other, lead from a graph to another one. -/
inductive SplitsIn (graph : Graph) : Nat → Graph → Prop where
  | refl : SplitsIn graph 0 graph
  | step {count : Nat} {middle : Graph} {call : Node} {name : String} {first : NodeId}
      {others : List NodeId} (earlier : SplitsIn graph count middle)
      (splits : middle.SplitsCall call name first others) :
      SplitsIn graph (count + 1) (middle.splitCall call first others)

/-- Nothing in a graph stops a scan: calls can be looked up and their operands are there. -/
def Splittable (graph : Graph) : Prop :=
  ∀ node ∈ graph.nodes, node.isUnhashable = false ∧ node.inputs ⊆ graph.ids

end Graph

section Excess

variable {node : Node}

theorem Node.excess_of_folding (kind : node.kind = .call)
    (folding : isFolding node.content = true) : node.excess = node.inputs.length - 2 := by
  unfold excess
  split
  · rfl
  · rename_i narrow
    simp [isWide, kind, folding] at narrow
    omega

theorem Node.excess_of_narrow (narrow : node.isWide = false) : node.excess = 0 := by
  simp [excess, narrow]

theorem Graph.excess_of_narrow {graph : Graph}
    (narrow : ∀ node ∈ graph.nodes, node.isWide = false) : graph.excess = 0 := by
  apply List.sum_eq_zero
  intro number counted
  obtain ⟨node, member, rfl⟩ := List.mem_map.mp counted
  exact Node.excess_of_narrow (narrow node member)

theorem Graph.Quiet.excess_eq_zero {graph : Graph} (quiet : graph.Quiet) : graph.excess = 0 :=
  excess_of_narrow fun node member => (Node.event?_eq_none.mp (quiet node member)).2

end Excess

namespace Graph

section Step

variable {graph : Graph} {call : Node}

/-- A split leaves the bodies of loops where they are. -/
theorem nestOfNodes_splitCall (fresh : graph.nextId ∉ graph.ids) (first : NodeId)
    (others : List NodeId) :
    nestOfNodes (graph.splitCall call first others).nodes = nestOfNodes graph.nodes := by
  have unchanged : ∀ nodes : List Node, nestOfNodes (nodes.map fun node =>
      if node.id == call.id then { node with inputs := [first, graph.nextId] } else node) =
      nestOfNodes nodes := by
    intro nodes
    induction nodes with
    | nil => rfl
    | cons node rest induction =>
        have sameLoop : (if node.id == call.id then
            ({ node with inputs := [first, graph.nextId] } : Node) else node).loop? =
            node.loop? := by
          split <;> rfl
        rw [List.map_cons]
        cases runs : node.loop? with
        | none => rw [nestOfNodes_plain runs, nestOfNodes_plain (sameLoop.trans runs), induction]
        | some loop =>
            rw [nestOfNodes_loop runs, nestOfNodes_loop (sameLoop.trans runs), induction]
  have newNode : nestOfNodes [(⟨graph.nextId, .call, call.content, others, unsetResult⟩ : Node)] =
      [] := nestOfNodes_plain (Node.loop?_eq_none_of_kind (by simp)) []
  simp only [splitCall, update]
  rw [unchanged, extended_nodes fresh, nestOfNodes_append, newNode, List.append_nil]

variable {name : String} {first : NodeId} {others : List NodeId}
  (splits : graph.SplitsCall call name first others)
include splits

theorem SplitsCall.isFolding_content : isFolding call.content = true :=
  isFolding_iff.mpr ⟨name, splits.folding, splits.content⟩

/-- A split uses up one operand: the call is left with two, and the new call has one less
than the call had. -/
theorem SplitsCall.excess_eq (distinct : graph.ids.Nodup) :
    graph.excess = (graph.splitCall call first others).excess + 1 := by
  obtain ⟨second, third, rest, inputs, tail⟩ := splits.inputs
  have folding := splits.isFolding_content
  have different : graph.nextId ≠ call.id := fun same =>
    splits.fresh (same ▸ mem_ids_of_find? splits.found)
  have changed := @sum_map_update Node.excess _ call
    (fun found => { found with inputs := [first, graph.nextId] }) distinct
    (mem_of_find? splits.found).1
  have before : call.excess = others.length - 1 := by
    rw [Node.excess_of_folding splits.kind folding, inputs, List.length_cons]
    omega
  have after : ({ call with inputs := [first, graph.nextId] } : Node).excess = 0 :=
    Node.excess_of_folding splits.kind folding
  have added : (⟨graph.nextId, .call, call.content, others, unsetResult⟩ : Node).excess =
      others.length - 2 := Node.excess_of_folding rfl folding
  have longer : 2 ≤ others.length := by simp [tail]
  have total : (graph.splitCall call first others).excess =
      ((graph.nodes.map fun node => if node.id == call.id then
        { node with inputs := [first, graph.nextId] } else node).map Node.excess).sum +
          (others.length - 2) := by
    simp only [excess, splitCall, update, extended_nodes splits.fresh, List.map_append,
      List.map_cons, List.map_nil, beq_eq_false_iff_ne.mpr different, Bool.false_eq_true,
      if_false, List.sum_append, List.sum_cons, List.sum_nil, added, Nat.add_zero]
  rw [total]
  unfold excess
  omega

theorem SplitsCall.splittable (distinct : (graph.splitCall call first others).ids.Nodup)
    (fit : graph.Splittable) : (graph.splitCall call first others).Splittable := by
  have grows : graph.ids ⊆ (graph.splitCall call first others).ids := by
    intro id present
    rw [splitCall_ids]
    exact mem_extended_ids.mpr (.inl present)
  have new : graph.nextId ∈ (graph.splitCall call first others).ids :=
    mem_ids_of_find? splits.find?_part
  obtain ⟨hashable, operands⟩ := fit call (mem_of_find? splits.found).1
  intro node member
  rcases splits.node_cases (find?_of_mem distinct member) with ⟨_, rfl⟩ | ⟨_, rfl⟩ | old
  · refine ⟨by simp [Node.isUnhashable, splits.content, Value.isHashable], ?_⟩
    exact fun input isInput => grows (operands (splits.others_subset isInput))
  · refine ⟨hashable, ?_⟩
    intro input isInput
    rcases List.mem_pair.mp isInput with rfl | rfl
    · exact grows (operands splits.first_mem)
    · exact new
  · obtain ⟨known, present⟩ := fit node (mem_of_find? old).1
    exact ⟨known, fun input isInput => grows (present isInput)⟩

end Step

namespace SplitsIn

variable {graph other : Graph} {count : Nat} (run : graph.SplitsIn count other)
include run

theorem tidy (tidy : graph.Everywhere Tidy) : other.Everywhere Tidy := by
  induction run with
  | refl => exact tidy
  | step _ _ induction => exact tidy_splitCall induction _ _

/-- As many splits, as many operands are used up. -/
theorem excess_eq (tidy : graph.Everywhere Tidy) : graph.excess = other.excess + count := by
  induction run with
  | refl => rfl
  | step earlier splits induction =>
      have step := splits.excess_eq (earlier.tidy tidy).here.distinct
      omega

theorem splittable (tidy : graph.Everywhere Tidy) (fit : graph.Splittable) :
    other.Splittable := by
  induction run with
  | refl => exact fit
  | step earlier splits induction =>
      exact splits.splittable ((earlier.step splits).tidy tidy).here.distinct induction

theorem nestOfNodes_eq : nestOfNodes other.nodes = nestOfNodes graph.nodes := by
  induction run with
  | refl => rfl
  | step _ splits induction => rw [nestOfNodes_splitCall splits.fresh, induction]

/-- Only calls are changed and added. -/
theorem find?_of_kind {id : NodeId} {node : Node} (notCall : node.kind ≠ .call) :
    other.find? id = some node ↔ graph.find? id = some node := by
  induction run with
  | refl => exact Iff.rfl
  | step _ splits induction => exact (splits.find?_of_kind notCall).trans induction

theorem exits_eq : other.exits = graph.exits := by
  induction run with
  | refl => rfl
  | step _ _ induction => exact splitCall_exits.trans induction

theorem ids_subset : graph.ids ⊆ other.ids := by
  induction run with
  | refl => exact List.Subset.refl _
  | step _ _ induction =>
      intro id present
      rw [splitCall_ids]
      exact mem_extended_ids.mpr (.inl (induction present))

theorem evaluable (tidy : graph.Everywhere Tidy) (evaluable : graph.Evaluable) :
    other.Evaluable := by
  induction run with
  | refl => exact evaluable
  | step earlier splits induction =>
      exact splits.evaluable induction (earlier.tidy tidy).here.numbered

end SplitsIn

end Graph

section Scans

variable {start graph : Graph}

/-- A scan goes on with the run that led to the graph.  The nodes that it has not come to
are still those of the graph. -/
theorem splitsIn_of_splitScan {nodes : List Node} {before count : Nat}
    (earlier : start.SplitsIn before graph) (tidy : graph.Everywhere Graph.Tidy)
    (distinct : (nodes.map Node.id).Nodup)
    (ahead : ∀ node ∈ nodes, graph.find? node.id = some node)
    (done : (splitScan graph nodes).answer = .ok count) :
    start.SplitsIn (before + count) (splitScan graph nodes).graph := by
  induction nodes generalizing graph before count with
  | nil =>
      cases done
      exact earlier
  | cons node rest induction =>
      rw [List.map_cons, List.nodup_cons] at distinct
      have aheadRest : ∀ later ∈ rest, graph.find? later.id = some later :=
        fun later member => ahead later (List.mem_cons_of_mem _ member)
      cases splitScan_step graph node rest with
      | skips _ _ goesOn =>
          rw [goesOn] at done ⊢
          exact induction earlier tidy distinct.2 aheadRest done
      | stops _ ends =>
          rw [ends] at done
          cases done
      | dangles _ _ ends =>
          rw [ends] at done
          cases done
      | @splits name first second third others _ _ kind content folding inputs goesOn =>
          rw [goesOn] at done ⊢
          obtain ⟨inner, later, rfl⟩ := Outcome.more_eq_ok.mp done
          have splits : graph.SplitsCall node name first (second :: third :: others) :=
            ⟨ahead node List.mem_cons_self, kind, content, folding,
              ⟨second, third, others, inputs, rfl⟩, tidy.here.numbered.fresh⟩
          rw [← Nat.add_assoc]
          apply induction (earlier.step splits) (Graph.tidy_splitCall tidy _ _) distinct.2 _ later
          intro other member
          apply splits.find?_other (aheadRest other member)
          intro same
          exact distinct.1 (same ▸ List.mem_map_of_mem member)

theorem splitScan_succeeds {nodes : List Node}
    (fit : ∀ node ∈ nodes, node.isUnhashable = false ∧ node.inputs ⊆ graph.ids) :
    ∃ count, (splitScan graph nodes).answer = .ok count := by
  induction nodes generalizing graph with
  | nil => exact ⟨0, rfl⟩
  | cons node rest induction =>
      obtain ⟨hashable, operands⟩ := fit node List.mem_cons_self
      have fitRest := fun other member => fit other (List.mem_cons_of_mem node member)
      cases splitScan_step graph node rest with
      | skips _ _ goesOn =>
          rw [goesOn]
          exact induction fitRest
      | stops unhashable => cases hashable.symm.trans unhashable
      | dangles _ absent => exact absurd operands absent
      | @splits name first second third others _ _ _ _ _ _ goesOn =>
          rw [goesOn]
          obtain ⟨count, answer⟩ : ∃ count, (splitScan (graph.splitCall node first
              (second :: third :: others)) rest).answer = .ok count := by
            apply induction
            intro other member
            obtain ⟨known, present⟩ := fitRest other member
            refine ⟨known, fun input isInput => ?_⟩
            rw [Graph.splitCall_ids]
            exact Graph.mem_extended_ids.mpr (.inl (present isInput))
          exact ⟨1 + count, Outcome.more_eq_ok.mpr ⟨count, answer, rfl⟩⟩

theorem splitsIn_of_splitRounds {fuel before count : Nat} (earlier : start.SplitsIn before graph)
    (tidy : graph.Everywhere Graph.Tidy) (done : (splitRounds fuel graph).answer = .ok count) :
    start.SplitsIn (before + count) (splitRounds fuel graph).graph := by
  induction fuel generalizing graph before count with
  | zero =>
      cases done
      exact earlier
  | succ fuel induction =>
      have scanned : ∀ splits, (splitScan graph graph.nodes).answer = .ok splits →
          start.SplitsIn (before + splits) (splitScan graph graph.nodes).graph :=
        fun splits => splitsIn_of_splitScan earlier tidy tidy.here.distinct
          fun node member => Graph.find?_of_mem tidy.here.distinct member
      cases answer : (splitScan graph graph.nodes).answer with
      | error fault =>
          simp only [splitRounds, answer] at done
          cases done
      | ok splits =>
          cases splits with
          | zero =>
              simp only [splitRounds, answer] at done ⊢
              cases done
              exact scanned 0 answer
          | succ splits =>
              simp only [splitRounds, answer] at done ⊢
              obtain ⟨rest, later, rfl⟩ := Outcome.more_eq_ok.mp done
              obtain ⟨_, advances⟩ := @Graph.exists_advances_splitScan graph graph.nodes tidy
              rw [← Nat.add_assoc]
              exact induction (scanned (splits + 1) answer) advances.tidy later

theorem splitRounds_succeeds {fuel : Nat} (tidy : graph.Everywhere Graph.Tidy)
    (fit : graph.Splittable) : ∃ count, (splitRounds fuel graph).answer = .ok count := by
  induction fuel generalizing graph with
  | zero => exact ⟨0, rfl⟩
  | succ fuel induction =>
      obtain ⟨splits, answer⟩ := splitScan_succeeds fit
      have run := splitsIn_of_splitScan .refl tidy tidy.here.distinct
        (fun node member => Graph.find?_of_mem tidy.here.distinct member) answer
      cases splits with
      | zero =>
          simp only [splitRounds, answer]
          exact ⟨0, rfl⟩
      | succ splits =>
          obtain ⟨count, later⟩ := induction (run.tidy tidy) (run.splittable tidy fit)
          simp only [splitRounds, answer]
          exact ⟨splits + 1 + count, Outcome.more_eq_ok.mpr ⟨count, later, rfl⟩⟩

end Scans

namespace Graph

variable {graph : Graph}

theorem splitsIn_of_splitLevel {count : Nat} (tidy : graph.Everywhere Tidy)
    (done : (splitLevel graph).answer = .ok count) :
    graph.SplitsIn count (splitLevel graph).graph := by
  have run := splitsIn_of_splitRounds .refl tidy done
  rwa [Nat.zero_add] at run

/-- The splits of one graph are as many as there are operands beyond the second ones. -/
theorem splitLevel_answer (tidy : graph.Everywhere Tidy) (fit : graph.Splittable) :
    (splitLevel graph).answer = .ok graph.excess := by
  obtain ⟨count, done⟩ : ∃ count, (splitLevel graph).answer = .ok count :=
    splitRounds_succeeds tidy fit
  have used := (splitsIn_of_splitLevel tidy done).excess_eq tidy
  rw [(quiet_of_splitLevel tidy done).excess_eq_zero, Nat.zero_add] at used
  rw [done, used]

end Graph

section Visits

variable {visit other : Graph → Outcome Nat}

theorem visitBodies_congr {nodes : List Node}
    (same : ∀ node ∈ nodes, ∀ loop, node.loop? = some loop → visit loop.body = other loop.body) :
    visitBodies visit nodes = visitBodies other nodes := by
  induction nodes with
  | nil => rfl
  | cons node rest induction =>
      have remaining := induction fun later member => same later (List.mem_cons_of_mem _ member)
      cases runs : node.loop? with
      | none =>
          by_cases kind : node.kind = .loop
          · rw [visitBodies_bodyless kind runs, visitBodies_bodyless kind runs]
          · rw [visitBodies_plain kind, visitBodies_plain kind, remaining]
      | some loop =>
          have here := same node List.mem_cons_self loop runs
          cases answer : (visit loop.body).answer with
          | ok count =>
              rw [visitBodies_goes_on runs answer, visitBodies_goes_on runs (here ▸ answer),
                remaining, here]
          | error fault =>
              rw [visitBodies_stops runs answer, visitBodies_stops runs (here ▸ answer), here]

theorem splitWith_congr {graph : Graph}
    (same : graph.Bodies fun body => visit body = other body) :
    splitWith visit graph = splitWith other graph := by
  have levelSame : (splitLevel graph).graph.Bodies fun body => visit body = other body :=
    Graph.bodies_splitRounds _ same
  simp only [splitWith, sweep, visitBodies_congr levelSame]

/-- A visit that gives every body the total of a measure gives the total of all bodies. -/
theorem visitBodies_count {measure : Graph → Nat} {nodes : List Node}
    (carried : ∀ node ∈ nodes, node.kind = .loop → ∃ loop, node.content = .loop loop)
    (visits : ∀ node ∈ nodes, ∀ loop, node.loop? = some loop →
      (visit loop.body).answer = .ok (loop.body.nest.map measure).sum) :
    (visitBodies visit nodes).2 = .ok ((Graph.nestOfNodes nodes).map measure).sum := by
  induction nodes with
  | nil => rfl
  | cons node rest induction =>
      have remaining := induction (fun later member => carried later (List.mem_cons_of_mem _ member))
        fun later member => visits later (List.mem_cons_of_mem _ member)
      cases runs : node.loop? with
      | none =>
          have kind : node.kind ≠ .loop := by
            intro isLoop
            obtain ⟨loop, content⟩ := carried node List.mem_cons_self isLoop
            cases runs.symm.trans (Node.loop?_eq_some.mpr ⟨isLoop, content⟩)
          rw [visitBodies_plain kind, Graph.nestOfNodes_plain runs]
          exact remaining
      | some loop =>
          rw [visitBodies_goes_on runs (visits node List.mem_cons_self loop runs),
            Graph.nestOfNodes_loop runs, List.map_append, List.sum_append]
          simp only [remaining]
          rfl

end Visits

namespace Graph

variable {graph : Graph}

/-- Splitting a graph is splitting its calls, then its bodies. -/
theorem split_eq (graph : Graph) : graph.split = splitWith Graph.split graph :=
  nested_depth rfl (fun _ => rfl) (fun _ _ _ => splitWith_congr) graph

/-- Splitting succeeds where nothing stops a scan and loop nodes have loops, with the number
of operands beyond the second ones in the whole nest. -/
theorem split_answer (tidy : graph.Everywhere Tidy) (fit : graph.Everywhere Splittable)
    (carried : graph.Everywhere fun body =>
      ∀ node ∈ body.nodes, node.kind = .loop → ∃ loop, node.content = .loop loop) :
    graph.split.answer = .ok (graph.nest.map excess).sum := by
  induction graph using bodyInduction with
  | step graph induction =>
      have distinct := tidy.here.distinct
      have level := splitLevel_answer tidy fit.here
      have run := splitsIn_of_splitLevel tidy level
      have bodies : graph.Bodies fun body => body.split.answer = .ok (body.nest.map excess).sum :=
        fun node member loop runs => induction node member loop runs
          (tidy.bodies distinct node member loop runs) (fit.bodies distinct node member loop runs)
          (carried.bodies distinct node member loop runs)
      have levelBodies : (splitLevel graph).graph.Bodies fun body =>
          body.split.answer = .ok (body.nest.map excess).sum := bodies_splitRounds _ bodies
      have levelCarried : ∀ node ∈ (splitLevel graph).graph.nodes, node.kind = .loop →
          ∃ loop, node.content = .loop loop := by
        intro node member kind
        have found := find?_of_mem (run.tidy tidy).here.distinct member
        have old := (run.find?_of_kind (by simp [kind])).mp found
        exact carried.here node (mem_of_find? old).1 kind
      have visited := visitBodies_count levelCarried levelBodies
      rw [split_eq]
      simp only [splitWith, sweep, level, visited]
      rw [run.nestOfNodes_eq, sum_nest]
      rfl

/-- What splitting makes of one graph of a nest: a run of splits, after which the bodies of
its loops are split. -/
structure SplitsThrough (graph level other : Graph) : Prop where
  run : ∃ count, graph.SplitsIn count level
  bodies : List.Forall₂ (Node.Revised (Loop.ReplacedBy fun body changed =>
    (∃ count, body.split.answer = .ok count) ∧ changed = body.split.graph))
    level.nodes other.nodes
  exits : other.exits = level.exits

theorem splitsThrough_of_split {count : Nat} (tidy : graph.Everywhere Tidy)
    (done : graph.split.answer = .ok count) :
    graph.SplitsThrough (splitLevel graph).graph graph.split.graph := by
  rw [split_eq] at done ⊢
  cases answer : (splitLevel graph).answer with
  | error fault =>
      simp only [splitWith, sweep, answer] at done
      cases done
  | ok splits =>
      simp only [splitWith, sweep, answer] at done ⊢
      cases visited : (visitBodies Graph.split (splitLevel graph).graph.nodes).2 with
      | error fault =>
          rw [visited] at done
          cases done
      | ok inner =>
          exact
            { run := ⟨splits, splitsIn_of_splitLevel tidy answer⟩
              bodies := visitBodies_replaced (fun _ _ _ _ inner answered => ⟨⟨inner, answered⟩, rfl⟩)
                visited
              exits := rfl }

end Graph

end FlowGraph

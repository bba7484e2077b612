import FlowGraph.Proofs.Interruption

/-!
# Graphs that the passes leave alone

A pass has nothing to do in a graph when a scan comes to no call that it would split,
no call can be folded, an exit leads to every node, and the nodes stand in layers.
Where that holds in every graph of a nest, all passes succeed and leave the nest as it
is.  Folding then never comes to an operation, so the interpretation does not matter.
-/

namespace FlowGraph

theorem Node.event?_eq_none {node : Node} :
    node.event? = none ↔ node.isUnhashable = false ∧ node.isWide = false := by
  unfold event?
  cases node.isUnhashable <;> cases node.isWide <;> simp

theorem firstFoldable_eq_none_iff {graph : Graph} {policy : FoldPolicy} {nodes : List Node} :
    firstFoldable graph policy nodes = .ok none ↔
      ∀ node ∈ nodes, isFoldable graph policy node = .ok false := by
  induction nodes with
  | nil => simp [firstFoldable]
  | cons node rest induction =>
      rw [List.forall_mem_cons, ← induction, firstFoldable, bind_eq_ok]
      constructor
      · rintro ⟨decision, checked, remaining⟩
        cases decision with
        | true => cases remaining
        | false => exact ⟨checked, remaining⟩
      · rintro ⟨checked, remaining⟩
        exact ⟨false, checked, remaining⟩

namespace Graph

/-- A scan comes to nothing in a graph. -/
def Quiet (graph : Graph) : Prop :=
  ∀ node ∈ graph.nodes, node.event? = none

/-- Nothing is left to split or to fold in a graph, the bodies of its loops apart. -/
structure Reduced (policy : FoldPolicy) (graph : Graph) : Prop where
  distinct : graph.ids.Nodup
  quiet : graph.Quiet
  unfoldable : ∀ node ∈ graph.nodes, isFoldable graph policy node = .ok false

/-- Nothing is left to prune either. -/
structure Trimmed (policy : FoldPolicy) (graph : Graph) : Prop extends Reduced policy graph where
  exits : ∀ exit ∈ graph.exits, exit.2 ∈ graph.ids
  keys : ∀ node ∈ graph.nodes, ∀ loop, node.loop? = some loop →
    ∀ binding ∈ loop.bindings, binding.1 ∈ loop.body.ids
  live : graph.Live

/-- No pass has anything to do in a graph. -/
structure Settled (policy : FoldPolicy) (graph : Graph) : Prop extends Trimmed policy graph where
  linked : ∀ node ∈ graph.nodes, ∀ id ∈ node.dependencies, id ∈ graph.ids
  carried : ∀ node ∈ graph.nodes, node.kind = .loop → ∃ loop, node.content = .loop loop
  sequenced : Sequenced [] graph.nodes
  layered : layers graph.nodes = .ok graph.ids

/-- A closed graph in which an exit leads to every node, and bindings start from nodes
of the bodies. -/
structure Pared (graph : Graph) : Prop extends Closed graph where
  keys : ∀ node ∈ graph.nodes, ∀ loop, node.loop? = some loop →
    ∀ binding ∈ loop.bindings, binding.1 ∈ loop.body.ids
  live : graph.Live

theorem Settled.pared {policy : FoldPolicy} {graph : Graph} (settled : graph.Settled policy) :
    graph.Pared where
  distinct := settled.distinct
  linked := settled.linked
  exits := settled.exits
  carried := settled.carried
  keys := settled.keys
  live := settled.live

end Graph

section Bodies

variable {nodes : List Node}
  (carried : ∀ node ∈ nodes, node.kind = .loop → ∃ loop, node.content = .loop loop)
include carried

theorem visitBodies_unchanged {visit : Graph → Outcome Nat}
    (idle : ∀ node ∈ nodes, ∀ loop, node.loop? = some loop →
      visit loop.body = ⟨loop.body, .ok 0⟩) : visitBodies visit nodes = (nodes, .ok 0) := by
  induction nodes with
  | nil => rfl
  | cons node rest induction =>
      have remaining := induction (fun other later => carried other (List.mem_cons_of_mem _ later))
        fun other later => idle other (List.mem_cons_of_mem _ later)
      by_cases kind : node.kind = .loop
      · obtain ⟨loop, content⟩ := carried node List.mem_cons_self kind
        have runs := Node.loop?_eq_some.mpr ⟨kind, content⟩
        have visited := idle node List.mem_cons_self loop runs
        rw [visitBodies_goes_on runs (by rw [visited]), remaining,
          Node.restored runs (by rw [visited])]
        rfl
      · rw [visitBodies_plain kind, remaining]

theorem foldBodies_unchanged {visit : Graph → Except Fault (Graph × Nat)}
    (idle : ∀ node ∈ nodes, ∀ loop, node.loop? = some loop →
      visit loop.body = .ok (loop.body, 0)) : foldBodies visit nodes = .ok (nodes, 0) := by
  induction nodes with
  | nil => rfl
  | cons node rest induction =>
      have remaining := induction (fun other later => carried other (List.mem_cons_of_mem _ later))
        fun other later => idle other (List.mem_cons_of_mem _ later)
      by_cases kind : node.kind = .loop
      · obtain ⟨loop, content⟩ := carried node List.mem_cons_self kind
        have runs := Node.loop?_eq_some.mpr ⟨kind, content⟩
        have visited := idle node List.mem_cons_self loop runs
        rw [foldBodies_loop runs]
        refine bind_eq_ok.mpr ⟨_, visited, bind_eq_ok.mpr ⟨_, remaining, ?_⟩⟩
        rw [Node.restored runs rfl]
        rfl
      · rw [foldBodies_plain kind]
        exact bind_eq_ok.mpr ⟨_, remaining, rfl⟩

theorem pruneBodies_unchanged
    (keys : ∀ node ∈ nodes, ∀ loop, node.loop? = some loop →
      ∀ binding ∈ loop.bindings, binding.1 ∈ loop.body.ids)
    (idle : ∀ node ∈ nodes, ∀ loop, node.loop? = some loop →
      loop.body.pruned = .ok (loop.body, 0)) : pruneBodies nodes = .ok (nodes, 0) := by
  induction nodes with
  | nil => rfl
  | cons node rest induction =>
      have remaining := induction (fun other later => carried other (List.mem_cons_of_mem _ later))
        (fun other later => keys other (List.mem_cons_of_mem _ later))
        fun other later => idle other (List.mem_cons_of_mem _ later)
      by_cases kind : node.kind = .loop
      · obtain ⟨loop, content⟩ := carried node List.mem_cons_self kind
        have runs := Node.loop?_eq_some.mpr ⟨kind, content⟩
        have visited := idle node List.mem_cons_self loop runs
        have kept : remainingBindings loop.body loop.bindings = loop.bindings := by
          refine List.filter_eq_self.mpr fun binding member => ?_
          exact Graph.contains_iff.mpr (keys node List.mem_cons_self loop runs binding member)
        have same := (Node.replaced_eq_iff runs fun _ => kept).mpr rfl
        rw [pruneBodies_loop runs]
        refine bind_eq_ok.mpr ⟨_, visited, bind_eq_ok.mpr ⟨_, remaining, ?_⟩⟩
        exact congrArg (fun first => Except.ok (first :: rest, 0)) same
      · rw [pruneBodies_plain kind]
        exact bind_eq_ok.mpr ⟨_, remaining, rfl⟩

theorem scheduleBodies_unchanged
    (idle : ∀ node ∈ nodes, ∀ loop, node.loop? = some loop →
      loop.body.scheduled = .ok loop.body) : scheduleBodies nodes = .ok nodes := by
  induction nodes with
  | nil => rfl
  | cons node rest induction =>
      have remaining := induction (fun other later => carried other (List.mem_cons_of_mem _ later))
        fun other later => idle other (List.mem_cons_of_mem _ later)
      by_cases kind : node.kind = .loop
      · obtain ⟨loop, content⟩ := carried node List.mem_cons_self kind
        have runs := Node.loop?_eq_some.mpr ⟨kind, content⟩
        have visited := idle node List.mem_cons_self loop runs
        rw [scheduleBodies_loop runs]
        refine bind_eq_ok.mpr ⟨_, visited, bind_eq_ok.mpr ⟨_, remaining, ?_⟩⟩
        rw [Node.restored runs rfl]
        rfl
      · rw [scheduleBodies_plain kind]
        exact bind_eq_ok.mpr ⟨_, remaining, rfl⟩

end Bodies

/-- A scan goes past nodes at which it comes to nothing. -/
theorem splitScan_quiet (graph : Graph) {nodes : List Node}
    (quiet : ∀ node ∈ nodes, node.event? = none) : splitScan graph nodes = ⟨graph, .ok 0⟩ := by
  induction nodes with
  | nil => rfl
  | cons node rest induction =>
      have remaining := induction fun other later => quiet other (List.mem_cons_of_mem _ later)
      obtain ⟨hashable, narrow⟩ := Node.event?_eq_none.mp (quiet node List.mem_cons_self)
      cases splitScan_step graph node rest with
      | skips _ _ goesOn => exact goesOn.trans remaining
      | stops unhashable => cases hashable.symm.trans unhashable
      | dangles wide => cases narrow.symm.trans wide
      | splits wide => cases narrow.symm.trans wide

theorem arrange_ids {nodes : List Node} (distinct : (nodes.map Node.id).Nodup) :
    arrange nodes (nodes.map Node.id) = nodes := by
  unfold arrange
  rw [List.filterMap_map]
  refine (List.filterMap_congr fun node member => ?_).trans (List.filterMap_some)
  exact find?_of_mem distinct member

namespace Graph

variable {policy : FoldPolicy} {graph : Graph}

/-- What is live is found, so one level of pruning drops nothing. -/
theorem pruneLevel_unchanged (pared : graph.Pared) : pruneLevel graph = .ok (graph, 0) := by
  have present : graph.exits.map Prod.snd ⊆ graph.ids := by
    intro id member
    obtain ⟨exit, isExit, rfl⟩ := List.mem_map.mp member
    exact pared.exits exit isExit
  obtain ⟨found, done, starts, closed⟩ := ancestors_closed pared.linked present
  have stay : ∀ node ∈ graph.nodes, found.contains node.id = true := by
    intro node member
    obtain ⟨exit, isExit, path⟩ := pared.live node.id (mem_ids.mpr ⟨node, member, rfl⟩)
    refine List.contains_iff_mem.mpr (mem_of_path ?_ path (starts (List.mem_map_of_mem isExit)))
    intro other inside alive
    exact closed other.id alive other (find?_of_mem pared.distinct inside)
  have kept : (graph.nodes.filter fun node => found.contains node.id) = graph.nodes :=
    List.filter_eq_self.mpr stay
  refine bind_eq_ok.mpr ⟨found, done, ?_⟩
  dsimp only
  rw [kept, restored rfl, Nat.sub_self]
  rfl

theorem pruned_unchanged (pared : graph.Everywhere Pared) : graph.pruned = .ok (graph, 0) := by
  induction graph using bodyInduction with
  | step graph induction =>
      have here := pared.here
      have bodies := pruneBodies_unchanged here.carried here.keys fun node member loop runs =>
        induction node member loop runs (pared.bodies here.distinct node member loop runs)
      refine pruned_eq_ok_iff.mpr ⟨graph.nodes, 0, 0, bodies, ?_, rfl⟩
      rw [restored rfl]
      exact pruneLevel_unchanged here

theorem splitWith_unchanged {visit : Graph → Outcome Nat} (quiet : graph.Quiet)
    (carried : ∀ node ∈ graph.nodes, node.kind = .loop → ∃ loop, node.content = .loop loop)
    (idle : ∀ node ∈ graph.nodes, ∀ loop, node.loop? = some loop →
      visit loop.body = ⟨loop.body, .ok 0⟩) : splitWith visit graph = ⟨graph, .ok 0⟩ := by
  have level : splitLevel graph = ⟨graph, .ok 0⟩ := by
    simp only [splitLevel, splitRounds, splitScan_quiet graph quiet]
  simp only [splitWith, sweep, level, visitBodies_unchanged carried idle]
  rw [restored rfl]
  rfl

/-- A graph in which nothing is left to split, the bodies of its loops apart. -/
structure Narrow (graph : Graph) : Prop where
  distinct : graph.ids.Nodup
  quiet : graph.Quiet
  carried : ∀ node ∈ graph.nodes, node.kind = .loop → ∃ loop, node.content = .loop loop

theorem splitNested_unchanged (narrow : graph.Everywhere Narrow) (depth : Nat) :
    splitNested depth graph = ⟨graph, .ok 0⟩ := by
  induction depth generalizing graph with
  | zero => exact splitWith_unchanged narrow.here.quiet narrow.here.carried fun _ _ _ _ => rfl
  | succ depth induction =>
      apply splitWith_unchanged narrow.here.quiet narrow.here.carried
      intro node member loop runs
      exact induction (narrow.bodies narrow.here.distinct node member loop runs)

theorem foldWith_unchanged {meaning : Interpretation} {visit : Graph → Except Fault (Graph × Nat)}
    (settled : graph.Settled policy)
    (idle : ∀ node ∈ graph.nodes, ∀ loop, node.loop? = some loop →
      visit loop.body = .ok (loop.body, 0)) :
    foldWith meaning policy visit graph = .ok (graph, 0) := by
  have level : ∀ fuel, foldCalls meaning policy fuel graph = .ok (graph, 0) := by
    intro fuel
    cases fuel with
    | zero => rfl
    | succ fuel =>
        exact bind_eq_ok.mpr ⟨none, firstFoldable_eq_none_iff.mpr settled.unfoldable, rfl⟩
  refine bind_eq_ok.mpr ⟨_, level _, bind_eq_ok.mpr
    ⟨_, foldBodies_unchanged settled.carried idle, ?_⟩⟩
  exact congrArg (fun same => Except.ok (same, 0)) (restored rfl)

/-- Scheduling leaves nodes alone that stand in layers. -/
theorem scheduled_of_layered {graph : Graph} (layered : graph.Everywhere fun level =>
      level.Schedulable ∧ layers level.nodes = .ok level.ids) : graph.scheduled = .ok graph := by
  induction graph using bodyInduction with
  | step graph induction =>
      obtain ⟨⟨distinct, linked, carried⟩, inOrder⟩ := layered.here
      have bodies := scheduleBodies_unchanged carried fun node member loop runs =>
        induction node member loop runs (layered.body (find?_of_mem distinct member) runs)
      have ordered : evaluationOrder graph.nodes = .ok graph.ids :=
        check_eq_ok.mpr ⟨checkDependencies_eq_ok.mpr linked, inOrder⟩
      refine scheduled_eq_ok_iff.mpr ⟨graph.ids, graph.nodes, ordered, bodies, ?_⟩
      exact (restored (arrange_ids distinct)).symm

/-- Every graph of a nest that was scheduled is its own schedule. -/
theorem everywhere_schedule_unchanged {graph scheduled : Graph}
    (distinct : graph.Everywhere fun body => body.ids.Nodup)
    (ordered : graph.schedule = ⟨scheduled, .ok ()⟩) :
    scheduled.Everywhere fun body => body.schedule = ⟨body, .ok ()⟩ := by
  have layered : scheduled.Everywhere fun level =>
      level.Schedulable ∧ layers level.nodes = .ok level.ids := by
    refine everywhere_scheduled (fun _ distinct => distinct) ?_ distinct
      (schedule_eq_ok_iff.mp ordered)
    intro body sorted distinct done
    exact ⟨schedulable_of_scheduled distinct.here done, layers_scheduled distinct.here done⟩
  intro path body reached
  exact schedule_eq_ok_iff.mpr (scheduled_of_layered (layered.inside reached))

/-- A run over a schedule goes into the bodies as they stand.  To evaluate them, and so to
put each of them in order once more, is the same. -/
theorem evaluate_eq_run_within {graph scheduled body : Graph} {path : List NodeId}
    (distinct : graph.Everywhere fun body => body.ids.Nodup)
    (ordered : graph.schedule = ⟨scheduled, .ok ()⟩)
    (reached : scheduled.within? path = some body) (meaning : Interpretation) (scope : Scope) :
    body.evaluate meaning scope = body.run meaning scope := by
  rw [evaluate, everywhere_schedule_unchanged distinct ordered path body reached]
  rfl

section Settled

variable (settled : graph.Everywhere (Settled policy))
include settled

theorem foldNested_unchanged (meaning : Interpretation) (depth : Nat) :
    foldNested meaning policy depth graph = .ok (graph, 0) := by
  induction depth generalizing graph with
  | zero => exact foldWith_unchanged settled.here fun _ _ _ _ => rfl
  | succ depth induction =>
      apply foldWith_unchanged settled.here
      intro node member loop runs
      exact induction (settled.bodies settled.here.distinct node member loop runs)

theorem scheduled_unchanged : graph.scheduled = .ok graph :=
  scheduled_of_layered (settled.mono fun _ here =>
    ⟨⟨here.distinct, here.linked, here.carried⟩, here.layered⟩)

theorem foldConstants_unchanged_of_settled (meaning : Interpretation) :
    graph.foldConstants meaning policy = ⟨graph, .ok 0⟩ := by
  simp only [foldConstants_eq, foldNested_unchanged settled meaning]

/-- Optimising a settled graph changes nothing, whatever the operations are. -/
theorem optimize_unchanged (meaning : Interpretation) :
    graph.optimize meaning policy = ⟨graph, .ok ()⟩ := by
  have split : graph.split = ⟨graph, .ok 0⟩ :=
    splitNested_unchanged (settled.mono fun _ here => ⟨here.distinct, here.quiet, here.carried⟩) _
  have folded := foldConstants_unchanged_of_settled settled meaning
  have pruned : graph.prune = ⟨graph, .ok 0⟩ := by
    simp only [prune_eq, pruned_unchanged (settled.mono fun _ => Settled.pared)]
  have scheduled : graph.schedule = ⟨graph, .ok ()⟩ := by
    simp only [schedule_eq, scheduled_unchanged settled]
  simp only [optimize, simplify, Outcome.andThen, split, folded, pruned, scheduled]

end Settled

end Graph

end FlowGraph

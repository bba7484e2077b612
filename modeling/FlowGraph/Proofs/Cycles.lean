import FlowGraph.Proofs.Scheduling
import Mathlib.Data.List.Permutation

/-!
# Cycles stop a schedule

A graph whose references stay inside has no schedule exactly when a graph of its nest
has a cycle.  The first such graph is reported, by the nodes that lead to a cycle: they
are the ones that layering never places.  `Graph.nest` lists the graphs in the order in
which they are scheduled, and `MeetsFirstCycle` is composed along it.
-/

namespace FlowGraph

namespace Graph

/-- Following dependencies from this number leads to a cycle. -/
def LeadsToCycle (graph : Graph) (id : NodeId) : Prop :=
  ∃ other, Relation.ReflTransGen graph.DependsOn id other ∧
    Relation.TransGen graph.DependsOn other other

namespace LeadsToCycle

variable {graph : Graph} {id dependency : NodeId}

theorem head (edge : graph.DependsOn id dependency) (leads : graph.LeadsToCycle dependency) :
    graph.LeadsToCycle id := by
  obtain ⟨other, path, cycle⟩ := leads
  exact ⟨other, .head edge path, cycle⟩

theorem exists_next (leads : graph.LeadsToCycle id) :
    ∃ next, graph.DependsOn id next ∧ graph.LeadsToCycle next := by
  obtain ⟨other, path, cycle⟩ := leads
  rcases path.cases_head with rfl | ⟨next, edge, later⟩
  · obtain ⟨next, edge, back⟩ := Relation.TransGen.head'_iff.mp cycle
    exact ⟨next, edge, id, back, cycle⟩
  · exact ⟨next, edge, other, later, cycle⟩

theorem exists_node (leads : graph.LeadsToCycle id) : ∃ node ∈ graph.nodes, node.id = id := by
  obtain ⟨_, ⟨node, member, same, _⟩, _⟩ := leads.exists_next
  exact ⟨node, member, same⟩

end LeadsToCycle

theorem acyclic_iff {graph : Graph} : graph.Acyclic ↔ ∀ id, ¬ graph.LeadsToCycle id := by
  constructor
  · intro acyclic id leads
    obtain ⟨other, _, cycle⟩ := leads
    exact acyclic other cycle
  · intro free id cycle
    exact free id ⟨id, .refl, cycle⟩

/-- Where everything has a dependency, everything leads to a cycle.  What leads to none
can be ranked by how much it leads to, and the lowest has no dependency left. -/
theorem leadsToCycle_of_unending {graph : Graph} {waiting : List NodeId}
    (unending : ∀ id ∈ waiting, ∃ next ∈ waiting, graph.DependsOn id next) :
    ∀ id ∈ waiting, graph.LeadsToCycle id := by
  classical
  by_contra escapes
  push Not at escapes
  let reached (id : NodeId) : Finset NodeId :=
    waiting.toFinset.filter fun other => Relation.ReflTransGen graph.DependsOn id other
  have inhabited : (waiting.toFinset.filter fun id => ¬ graph.LeadsToCycle id).Nonempty := by
    obtain ⟨id, waits, free⟩ := escapes
    exact ⟨id, Finset.mem_filter.mpr ⟨List.mem_toFinset.mpr waits, free⟩⟩
  obtain ⟨lowest, inside, least⟩ :=
    Finset.exists_min_image _ (fun id => (reached id).card) inhabited
  obtain ⟨waits, free⟩ := Finset.mem_filter.mp inside
  obtain ⟨next, nextWaits, edge⟩ := unending lowest (List.mem_toFinset.mp waits)
  have nextFree : ¬ graph.LeadsToCycle next := fun leads => free (leads.head edge)
  have fewer : (reached next).card < (reached lowest).card := by
    apply Finset.card_lt_card
    rw [Finset.ssubset_iff_of_subset]
    · refine ⟨lowest, Finset.mem_filter.mpr ⟨waits, .refl⟩, ?_⟩
      intro back
      exact free ⟨lowest, .refl, .head' edge (Finset.mem_filter.mp back).2⟩
    · intro other later
      obtain ⟨otherWaits, path⟩ := Finset.mem_filter.mp later
      exact Finset.mem_filter.mpr ⟨otherWaits, .head edge path⟩
  have bound := least next (Finset.mem_filter.mpr ⟨List.mem_toFinset.mpr nextWaits, nextFree⟩)
  omega

open Classical in
/-- The numbers that lead to a cycle, in the order of the nodes. -/
noncomputable def stuckIds (graph : Graph) : List NodeId :=
  graph.ids.filter fun id => graph.LeadsToCycle id

mutual

/-- The graphs of a nest: the graph itself, then the nests of the bodies of its loops. -/
def nest : Graph → List Graph
  | ⟨nodes, exits, nextId⟩ => ⟨nodes, exits, nextId⟩ :: nestOfNodes nodes

/-- The nests of the bodies of loops, in the order of the nodes. -/
def nestOfNodes : List Node → List Graph
  | [] => []
  | ⟨_, .loop, .loop ⟨_, _, body, _⟩, _, _⟩ :: rest => body.nest ++ nestOfNodes rest
  | _ :: rest => nestOfNodes rest

end

theorem nest_eq (graph : Graph) : graph.nest = graph :: nestOfNodes graph.nodes := by
  obtain ⟨nodes, exits, nextId⟩ := graph
  rw [nest]

theorem nestOfNodes_loop {node : Node} {loop : Loop} (runs : node.loop? = some loop)
    (rest : List Node) : nestOfNodes (node :: rest) = loop.body.nest ++ nestOfNodes rest := by
  obtain ⟨kind, content⟩ := Node.loop?_eq_some.mp runs
  obtain ⟨id, _, _, inputs, result⟩ := node
  obtain ⟨tag, index, body, bindings⟩ := loop
  cases kind
  cases content
  rw [nestOfNodes]

theorem nestOfNodes_plain {node : Node} (noLoop : node.loop? = none) (rest : List Node) :
    nestOfNodes (node :: rest) = nestOfNodes rest := by
  obtain ⟨id, kind, content, inputs, result⟩ := node
  rw [nestOfNodes]
  rintro _ _ _ _ _ _ _ ⟨⟩
  cases noLoop

theorem mem_nestOfNodes {nodes : List Node} {level : Graph} :
    level ∈ nestOfNodes nodes ↔
      ∃ node ∈ nodes, ∃ loop, node.loop? = some loop ∧ level ∈ loop.body.nest := by
  induction nodes with
  | nil => simp [nestOfNodes]
  | cons node rest induction =>
      cases runs : node.loop? with
      | none => simp [nestOfNodes_plain runs, induction, runs]
      | some loop => simp [nestOfNodes_loop runs, induction, runs]

theorem nestOfNodes_append (nodes others : List Node) :
    nestOfNodes (nodes ++ others) = nestOfNodes nodes ++ nestOfNodes others := by
  induction nodes with
  | nil => rw [List.nil_append, nestOfNodes, List.nil_append]
  | cons node rest induction =>
      rw [List.cons_append]
      cases runs : node.loop? with
      | none => rw [nestOfNodes_plain runs, nestOfNodes_plain runs, induction]
      | some loop =>
          rw [nestOfNodes_loop runs, nestOfNodes_loop runs, induction, List.append_assoc]

/-- Paths lead to the graphs of the nest. -/
theorem everywhere_iff_nest {property : Graph → Prop} {graph : Graph}
    (distinct : graph.Everywhere fun body => body.ids.Nodup) :
    graph.Everywhere property ↔ ∀ level ∈ graph.nest, property level := by
  induction graph using bodyInduction with
  | step graph induction =>
      rw [everywhere_iff, nest_eq, List.forall_mem_cons]
      refine and_congr_right fun _ => ?_
      constructor
      · intro below level inside
        obtain ⟨node, member, loop, runs, deeper⟩ := mem_nestOfNodes.mp inside
        have found := find?_of_mem distinct.here member
        exact (induction node member loop runs (distinct.body found runs)).mp
          (below node.id node loop found runs) level deeper
      · intro all id node loop found runs
        have member := (mem_of_find? found).1
        refine (induction node member loop runs (distinct.body found runs)).mpr ?_
        intro level deeper
        exact all level (mem_nestOfNodes.mpr ⟨node, member, loop, runs, deeper⟩)

end Graph

section Layering

variable {graph : Graph}

theorem exists_waiting_of_stuck {waiting : List Node} {node : Node}
    (stuck : waiting.filter (isReady waiting) = []) (member : node ∈ waiting) :
    ∃ dependency ∈ node.dependencies, dependency ∈ waiting.map Node.id := by
  have unready : ¬ isReady waiting node = true := List.filter_eq_nil_iff.mp stuck node member
  rw [isReady_iff] at unready
  push Not at unready
  exact unready

/-- A node waits for whatever it needs on the way to a cycle. -/
theorem unready_of_leadsToCycle (distinct : graph.ids.Nodup) {waiting : List Node} {node : Node}
    (keeps : ∀ node ∈ graph.nodes, graph.LeadsToCycle node.id → node ∈ waiting)
    (inside : node ∈ graph.nodes) (leads : graph.LeadsToCycle node.id) :
    isReady waiting node = false := by
  rw [← Bool.not_eq_true, isReady_iff]
  intro ready
  obtain ⟨next, ⟨other, member, same, needed⟩, nextLeads⟩ := leads.exists_next
  obtain rfl : other = node := List.inj_on_of_nodup_map distinct member inside same
  obtain ⟨target, targetInside, rfl⟩ := nextLeads.exists_node
  exact ready _ needed (List.mem_map_of_mem (keeps target targetInside nextLeads))

open Classical in
/-- A round places no node that leads to a cycle. -/
theorem filter_unready (distinct : graph.ids.Nodup) {waiting : List Node}
    (inside : waiting ⊆ graph.nodes)
    (keeps : ∀ node ∈ graph.nodes, graph.LeadsToCycle node.id → node ∈ waiting) :
    ((unready waiting).map Node.id).filter (fun id => graph.LeadsToCycle id) =
      (waiting.map Node.id).filter fun id => graph.LeadsToCycle id := by
  rw [List.filter_map, List.filter_map, unready, List.filter_filter]
  refine congrArg _ (List.filter_congr fun node member => ?_)
  by_cases leads : graph.LeadsToCycle node.id
  · simp [leads, unready_of_leadsToCycle distinct keeps (inside member) leads]
  · simp [leads]

open Classical in
/-- Layering places the nodes that lead to no cycle and reports the others. -/
theorem layers_eq_of_waiting (distinct : graph.ids.Nodup) {waiting : List Node}
    (inside : waiting ⊆ graph.nodes)
    (keeps : ∀ node ∈ graph.nodes, graph.LeadsToCycle node.id → node ∈ waiting) :
    (∃ order, layers waiting = .ok order ∧ graph.Acyclic) ∨
      ¬ graph.Acyclic ∧ layers waiting =
        .error (.cycle ((waiting.map Node.id).filter fun id => graph.LeadsToCycle id)) := by
  fun_induction layers waiting with
  | case1 waiting empty =>
      obtain rfl : waiting = [] := List.isEmpty_iff.mp empty
      refine .inl ⟨[], rfl, Graph.acyclic_iff.mpr fun id leads => ?_⟩
      obtain ⟨node, member, rfl⟩ := leads.exists_node
      cases keeps node member leads
  | case2 waiting nonempty stuck =>
      have leads : ∀ id ∈ waiting.map Node.id, graph.LeadsToCycle id := by
        apply Graph.leadsToCycle_of_unending
        intro id waits
        obtain ⟨node, member, rfl⟩ := List.mem_map.mp waits
        obtain ⟨next, needed, nextWaits⟩ := exists_waiting_of_stuck stuck member
        exact ⟨next, nextWaits, node, inside member, rfl, needed⟩
      have whole : (waiting.map Node.id).filter (fun id => graph.LeadsToCycle id) =
          waiting.map Node.id :=
        List.filter_eq_self.mpr fun id waits => decide_eq_true (leads id waits)
      refine .inr ⟨?_, by rw [whole]⟩
      intro acyclic
      obtain ⟨node, member⟩ := List.exists_mem_of_ne_nil waiting (by simpa using nonempty)
      exact Graph.acyclic_iff.mp acyclic _ (leads _ (List.mem_map_of_mem member))
  | case3 waiting _ _ induction =>
      have waitsOn : ∀ node ∈ waiting, graph.LeadsToCycle node.id → node ∈ unready waiting := by
        intro node member leads
        refine List.mem_filter.mpr ⟨member, ?_⟩
        simp [unready_of_leadsToCycle distinct keeps (inside member) leads]
      rcases induction (fun node member => inside (List.mem_filter.mp member).1)
          (fun node member leads => waitsOn node (keeps node member leads) leads) with
        ⟨later, done, acyclic⟩ | ⟨cyclic, failed⟩
      · exact .inl ⟨_, by rw [done]; rfl, acyclic⟩
      · exact .inr ⟨cyclic, by rw [failed, filter_unready distinct inside keeps]; rfl⟩

end Layering

/-- A computation over graphs that goes wrong at the first one that has a cycle, and
names what is stuck there. -/
inductive MeetsFirstCycle {α : Type} (levels : List Graph) : Except Fault α → Prop where
  | free (acyclic : ∀ level ∈ levels, level.Acyclic) (value : α) :
      MeetsFirstCycle levels (.ok value)
  | stuck {before after : List Graph} {level : Graph} (place : levels = before ++ level :: after)
      (acyclic : ∀ earlier ∈ before, earlier.Acyclic) (cyclic : ¬ level.Acyclic) :
      MeetsFirstCycle levels (.error (.cycle level.stuckIds))

namespace MeetsFirstCycle

variable {α β : Type} {first later : List Graph} {result : Except Fault α}

theorem bind {next : α → Except Fault β} (meets : MeetsFirstCycle first result)
    (goesOn : ∀ value, MeetsFirstCycle later (next value)) :
    MeetsFirstCycle (first ++ later) (result >>= next) := by
  cases meets with
  | free acyclic value =>
      have rest := goesOn value
      change MeetsFirstCycle (first ++ later) (next value)
      generalize next value = outcome at rest
      cases rest with
      | free laterAcyclic value =>
          apply MeetsFirstCycle.free
          intro level inside
          exact (List.mem_append.mp inside).elim (acyclic level) (laterAcyclic level)
      | @stuck before after level place laterAcyclic cyclic =>
          have whole : first ++ later = (first ++ before) ++ level :: after := by simp [place]
          refine .stuck whole ?_ cyclic
          intro level inside
          exact (List.mem_append.mp inside).elim (acyclic level) (laterAcyclic level)
  | @stuck before after level place acyclic cyclic =>
      have whole : first ++ later = before ++ level :: (after ++ later) := by simp [place]
      exact .stuck whole acyclic cyclic

theorem map {change : α → β} (meets : MeetsFirstCycle first result) :
    MeetsFirstCycle first (do let value ← result; return change value) := by
  have goesOn : ∀ value, MeetsFirstCycle [] (.ok (change value)) :=
    fun value => .free (by simp) (change value)
  have meetsAll := meets.bind goesOn
  rwa [List.append_nil] at meetsAll

end MeetsFirstCycle

theorem evaluationOrder_meetsFirstCycle {graph : Graph} (schedulable : graph.Schedulable) :
    MeetsFirstCycle [graph] (evaluationOrder graph.nodes) := by
  have checked := checkDependencies_eq_ok.mpr schedulable.linked
  unfold evaluationOrder
  rw [checked]
  change MeetsFirstCycle [graph] (layers graph.nodes)
  rcases layers_eq_of_waiting schedulable.distinct (List.Subset.refl _) (fun _ member _ => member)
    with ⟨order, done, acyclic⟩ | ⟨cyclic, failed⟩
  · rw [done]
    exact .free (by simpa using acyclic) order
  · rw [failed]
    have alone : [graph] = [] ++ graph :: [] := rfl
    exact .stuck alone (by simp) cyclic

theorem scheduleBodies_meetsFirstCycle {nodes : List Node}
    (carried : ∀ node ∈ nodes, node.kind = .loop → ∃ loop, node.content = .loop loop)
    (bodies : ∀ node ∈ nodes, ∀ loop, node.loop? = some loop →
      MeetsFirstCycle loop.body.nest loop.body.scheduled) :
    MeetsFirstCycle (Graph.nestOfNodes nodes) (scheduleBodies nodes) := by
  induction nodes with
  | nil => exact .free (by simp [Graph.nestOfNodes]) []
  | cons node rest induction =>
      have restMeets := induction (fun other member => carried other (by simp [member]))
        (fun other member => bodies other (by simp [member]))
      cases runs : node.loop? with
      | some loop =>
          rw [scheduleBodies_loop runs, Graph.nestOfNodes_loop runs]
          exact (bodies node (by simp) loop runs).bind fun body => restMeets.map
      | none =>
          have plain : node.kind ≠ .loop := by
            intro kind
            obtain ⟨loop, content⟩ := carried node (by simp) kind
            cases runs.symm.trans (Node.loop?_eq_some.mpr ⟨kind, content⟩)
          rw [scheduleBodies_plain plain, Graph.nestOfNodes_plain runs]
          exact restMeets.map

namespace Graph

theorem scheduled_meetsFirstCycle {graph : Graph} (schedulable : graph.Everywhere Schedulable) :
    MeetsFirstCycle graph.nest graph.scheduled := by
  induction graph using bodyInduction with
  | step graph induction =>
      have here := schedulable.here
      have bodies : MeetsFirstCycle (nestOfNodes graph.nodes) (scheduleBodies graph.nodes) := by
        apply scheduleBodies_meetsFirstCycle here.carried
        intro node member loop runs
        exact induction node member loop runs
          (schedulable.body (find?_of_mem here.distinct member) runs)
      have order := evaluationOrder_meetsFirstCycle here
      rw [nest_eq]
      obtain ⟨nodes, exits, nextId⟩ := graph
      exact order.bind fun _ => bodies.map

/-- A graph whose references stay inside has no schedule exactly when a graph of its
nest has a cycle.  The fault then names, in the order of the nodes, those of the first
such graph that lead to a cycle. -/
theorem schedule_fails_iff_cyclic {graph : Graph} (schedulable : graph.Everywhere Schedulable) :
    ((∃ stuck, graph.schedule.answer = .error (.cycle stuck)) ↔ ¬ graph.Everywhere Acyclic) ∧
    ∀ fault, graph.schedule.answer = .error fault →
      ∃ before level after, graph.nest = before ++ level :: after ∧
        (∀ earlier ∈ before, earlier.Acyclic) ∧ ¬ level.Acyclic ∧
        fault = .cycle level.stuckIds := by
  have meets := scheduled_meetsFirstCycle schedulable
  rw [everywhere_iff_nest (schedulable.mono fun _ => Schedulable.distinct)]
  rw [schedule_eq]
  generalize graph.scheduled = outcome at meets
  cases meets with
  | free acyclic scheduled => simpa using acyclic
  | @stuck before after level place acyclic cyclic =>
      have inside : level ∈ graph.nest := by simp [place]
      refine ⟨⟨fun _ all => cyclic (all level inside), fun _ => ⟨_, rfl⟩⟩, ?_⟩
      rintro fault ⟨⟩
      exact ⟨before, level, after, place, acyclic, cyclic, rfl⟩

end Graph

section Sample

/-- Two nodes that need each other, one that needs them, and one that does not. -/
def knottedBody : Graph :=
  ⟨[⟨0, .constant, .int 1, [], .null⟩, ⟨1, .call, .text "+", [2, 0], .null⟩,
    ⟨2, .call, .text "+", [1, 0], .null⟩, ⟨3, .call, .text "+", [2, 0], .null⟩], [("y", 3)], 4⟩

def knotted : Graph :=
  triplingOver knottedBody

theorem knotted_schedulable : knotted.Everywhere Graph.Schedulable := by
  apply Graph.everywhere_of_body
  · exact ⟨by decide, by simp [knotted, triplingOver, Node.dependencies, Graph.ids],
      by simp [knotted, triplingOver]⟩
  · show knottedBody.Schedulable
    exact ⟨by decide, by simp [knottedBody, Node.dependencies, Graph.ids], by simp [knottedBody]⟩
  · simp [knotted, triplingOver, Node.loop?, Value.loop?]
  · simp [knottedBody, Node.loop?]

theorem knotted_unscheduled :
    knotted.schedule.answer = .error (.cycle [1, 2, 3]) ∧
      ∃ before level after, knotted.nest = before ++ level :: after ∧
        (∀ earlier ∈ before, earlier.Acyclic) ∧ ¬ level.Acyclic ∧
        Fault.cycle [1, 2, 3] = .cycle level.stuckIds := by
  have failed : knotted.schedule.answer = .error (.cycle [1, 2, 3]) := by cbv
  exact ⟨failed, (Graph.schedule_fails_iff_cyclic knotted_schedulable).2 _ failed⟩

end Sample

end FlowGraph

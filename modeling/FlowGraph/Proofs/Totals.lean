import FlowGraph.Proofs.Cycles
import Mathlib.Algebra.BigOperators.Finprod

/-!
# Totals over a nest

A measure of single graphs is summed up over a graph and the bodies of its loops.  The loops
of a graph may stand in any order: the total is that over the numbers of the nodes.
-/

namespace FlowGraph

/-- Changing one node of a list changes the total by what it changes of this node. -/
theorem sum_map_update {measure : Node → Nat} {nodes : List Node} {call : Node}
    (change : Node → Node) (distinct : (nodes.map Node.id).Nodup) (member : call ∈ nodes) :
    ((nodes.map fun node => if node.id == call.id then change node else node).map measure).sum +
        measure call = (nodes.map measure).sum + measure (change call) := by
  induction nodes with
  | nil => cases member
  | cons node rest induction =>
      rw [List.map_cons, List.nodup_cons] at distinct
      rw [List.map_cons, List.map_cons, List.map_cons, List.sum_cons, List.sum_cons]
      rcases List.mem_cons.mp member with rfl | later
      · have others : (rest.map fun node => if node.id == call.id then change node else node) =
            rest := by
          refine (List.map_congr_left fun node inRest => ?_).trans (List.map_id' rest)
          have different : node.id ≠ call.id := fun same =>
            distinct.1 (same ▸ List.mem_map_of_mem inRest)
          simp [different]
        rw [others]
        simp only [beq_self_eq_true, if_true]
        omega
      · have different : node.id ≠ call.id := fun same =>
          distinct.1 (same ▸ List.mem_map_of_mem later)
        have remaining := induction distinct.2 later
        simp only [beq_eq_false_iff_ne.mpr different, Bool.false_eq_true, if_false]
        omega

namespace Graph

variable {measure : Graph → Nat} {graph other : Graph}

theorem sum_nest : (graph.nest.map measure).sum =
    measure graph + ((nestOfNodes graph.nodes).map measure).sum := by
  rw [nest_eq, List.map_cons, List.sum_cons]

/-- The total over the nest of the body of a node, if it runs a loop. -/
def share (measure : Graph → Nat) (graph : Graph) (id : NodeId) : Nat :=
  match (graph.find? id).bind Node.loop? with
  | some loop => (loop.body.nest.map measure).sum
  | none => 0

theorem mem_ids_of_share {id : NodeId} (counts : graph.share measure id ≠ 0) : id ∈ graph.ids := by
  cases found : graph.find? id with
  | none => simp [share, found] at counts
  | some node => exact mem_ids_of_find? found

theorem sum_map_share (distinct : graph.ids.Nodup) :
    ((nestOfNodes graph.nodes).map measure).sum = (graph.ids.map (graph.share measure)).sum := by
  suffices each : ∀ nodes : List Node, nodes ⊆ graph.nodes →
      ((nestOfNodes nodes).map measure).sum =
        ((nodes.map Node.id).map (graph.share measure)).sum from
    each graph.nodes (List.Subset.refl _)
  intro nodes inside
  induction nodes with
  | nil => rw [nestOfNodes, List.map_nil, List.map_nil, List.map_nil]
  | cons node rest induction =>
      have found := find?_of_mem distinct (inside List.mem_cons_self)
      have remaining := induction fun later member => inside (List.mem_cons_of_mem _ member)
      rw [List.map_cons, List.map_cons, List.sum_cons, ← remaining, share, found,
        Option.bind_some]
      cases runs : node.loop? with
      | none => rw [nestOfNodes_plain runs, Nat.zero_add]
      | some loop => rw [nestOfNodes_loop runs, List.map_append, List.sum_append]

theorem sum_nestOfNodes (distinct : graph.ids.Nodup) :
    ((nestOfNodes graph.nodes).map measure).sum = finsum (graph.share measure) := by
  have inside : Function.support (graph.share measure) ⊆ graph.ids.toFinset := by
    intro id counts
    exact List.mem_toFinset.mpr (mem_ids_of_share counts)
  rw [finsum_eq_sum_of_support_subset _ inside, List.sum_toFinset _ distinct, sum_map_share distinct]

/-- The totals over all bodies are the same when the same nodes run loops, and the totals
over their bodies are the same. -/
theorem sum_nestOfNodes_congr (distinct : graph.ids.Nodup) (otherDistinct : other.ids.Nodup)
    (loops : ∀ id, Option.Rel (fun loop changed : Loop =>
        (changed.body.nest.map measure).sum = (loop.body.nest.map measure).sum)
      ((graph.find? id).bind Node.loop?) ((other.find? id).bind Node.loop?)) :
    ((nestOfNodes other.nodes).map measure).sum = ((nestOfNodes graph.nodes).map measure).sum := by
  rw [sum_nestOfNodes otherDistinct, sum_nestOfNodes distinct]
  apply finsum_congr
  intro id
  have related := loops id
  unfold share
  generalize (graph.find? id).bind Node.loop? = before at related
  generalize (other.find? id).bind Node.loop? = after at related
  cases related with
  | none => rfl
  | some same => exact same

end Graph

end FlowGraph

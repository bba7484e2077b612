import FlowGraph.Graph.Basic

/-!
# Ancestors

The nodes that are reached from some nodes by following dependencies.  The search
goes depth first and stops at the first number that no node has.
-/

namespace FlowGraph

/-- What the search may still meet: every node that was not seen counts for
itself and for each of its dependencies. -/
def unseenWeight (seen : List NodeId) : List Node → Nat
  | [] => 0
  | node :: rest =>
      (if node.id ∈ seen then 0 else node.dependencies.length + 1) + unseenWeight seen rest

theorem unseenWeight_cons_le (id : NodeId) (seen : List NodeId) (nodes : List Node) :
    unseenWeight (id :: seen) nodes ≤ unseenWeight seen nodes := by
  induction nodes with
  | nil => simp [unseenWeight]
  | cons node rest induction =>
      by_cases old : node.id ∈ seen <;> by_cases new : node.id = id <;>
        simp [unseenWeight, old, new] <;> omega

theorem unseenWeight_cons_lt {seen : List NodeId} {nodes : List Node} {node : Node}
    (member : node ∈ nodes) (unseen : node.id ∉ seen) :
    unseenWeight (node.id :: seen) nodes + node.dependencies.length < unseenWeight seen nodes := by
  induction nodes with
  | nil => cases member
  | cons first rest induction =>
      rcases List.mem_cons.mp member with same | later
      · subst same
        have rest_le := unseenWeight_cons_le node.id seen rest
        simp [unseenWeight, unseen]
        omega
      · have rest_lt := induction later
        by_cases old : first.id ∈ seen <;> by_cases new : first.id = node.id <;>
          simp [unseenWeight, old, new] <;> omega

namespace Graph

theorem mem_of_find? {graph : Graph} {id : NodeId} {node : Node}
    (found : graph.find? id = some node) :
    node ∈ graph.nodes ∧ node.id = id := by
  constructor
  · exact List.mem_of_find?_eq_some found
  · have := List.find?_some found
    simpa using this

/-- Follow dependencies from the pending nodes, the first one first. -/
def reach (graph : Graph) (pending seen : List NodeId) : Except Fault (List NodeId) :=
  match pending with
  | [] => .ok seen
  | id :: rest =>
      if id ∈ seen then reach graph rest seen
      else
        match _found : graph.find? id with
        | none => .error (.missingNode id)
        | some node => reach graph (node.dependencies.reverse ++ rest) (id :: seen)
termination_by unseenWeight seen graph.nodes + pending.length
decreasing_by
  · simp
  · rename_i unseen
    obtain ⟨member, same⟩ := mem_of_find? _found
    subst same
    have smaller := unseenWeight_cons_lt member unseen
    simp
    omega

/-- The given nodes and all that they depend on. -/
def ancestors (graph : Graph) (start : List NodeId) : Except Fault (List NodeId) :=
  graph.reach start.reverse []

end Graph

end FlowGraph

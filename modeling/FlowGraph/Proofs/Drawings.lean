import FlowGraph.Proofs.BindingEdges
import FlowGraph.Proofs.Clusters
import FlowGraph.Proofs.FreshNames

/-!
# Consistent drawings

A drawing is consistent when it declares every name once, when each node has its one
declaration in the clusters of the loops around it, when clusters are closed in the order in
which they were opened, and when every edge joins names of nodes.  A graph is drawn so as soon
as its loop nodes have loops: references may lead nowhere, since an edge or an exit without a
node at its end is left out.
-/

namespace FlowGraph

namespace DrawnName

def number : DrawnName → Nat
  | .node number => number
  | .cluster number => number
  | .note number => number

/-- The letters in front of the number. -/
def lead : DrawnName → List Char
  | .node _ => ['n']
  | .cluster _ => ['c', 'l', 'u', 's', 't', 'e', 'r', '_']
  | .note _ => ['x']

end DrawnName

/-- An edge leads from a node that is drawn into the given one. -/
theorem exists_source_of_mem_edgesInto {marks : Marks} {position : Position}
    {bindings : List (NodeId × NodeId)} {target : Nat} {inputs : List NodeId}
    {statement : Statement} (member : statement ∈ edgesInto marks position bindings target inputs) :
    ∃ source dotted key, statement = .edge source target dotted ∧
      (key, .node source) ∈ marks := by
  obtain ⟨input, _, drawn⟩ := List.mem_filterMap.mp member
  cases bound : bindings.lookup input
  all_goals
    rw [bound] at drawn
    simp only at drawn
    split at drawn
    next marked =>
      cases drawn
      exact ⟨_, _, _, rfl, mem_of_lookup marked⟩
    next => cases drawn

/-- The second round draws edges between nodes that are drawn, and nothing else. -/
theorem Connects.exists_ends {marks : Marks} {position : Position}
    {bindings : List (NodeId × NodeId)} {nodes : List Node} {statement : Statement}
    (connects : Connects marks position bindings nodes statement) :
    ∃ source target dotted, statement = .edge source target dotted ∧
      (∃ key, (key, .node source) ∈ marks) ∧ ∃ key, (key, .node target) ∈ marks := by
  obtain ⟨place, inner, node, target, _, _, _, marked, edge⟩ := connects
  obtain ⟨source, dotted, key, rfl, sourceMarked⟩ := exists_source_of_mem_edgesInto edge
  exact ⟨source, target, dotted, rfl, ⟨key, sourceMarked⟩, _, mem_of_lookup marked⟩

namespace Graph

variable {graph : Graph} {place : Position} {node : Node}

section Rounds

variable {declared : Declared} {edges statements : List Statement}
  (declares : Declares [] [] 1 graph.nodes declared)
  (connects : ∀ statement ∈ edges, Connects declared.marks [] [] graph.nodes statement)
  (rounds : statements = declared.statements ++ edges ++
    drawExits declared.marks declared.next graph.exits)
include declares connects rounds

/-- The names that a drawing declares are those of the marks and those of the notes. -/
theorem flatMap_names :
    statements.flatMap Statement.names = (declared.marks.map fun entry => entry.2.name) ++
      (drawExits declared.marks declared.next graph.exits).flatMap Statement.names := by
  have noNames : edges.flatMap Statement.names = [] := by
    apply List.flatMap_eq_nil_iff.mpr
    intro statement member
    obtain ⟨source, target, dotted, rfl, _⟩ := (connects statement member).exists_ends
    rfl
  rw [rounds, List.flatMap_append, List.flatMap_append, noNames, List.append_nil, declares.names]

/-- What is marked as a node is declared as a node. -/
theorem mem_names {key : Position × NodeId} {number : Nat}
    (marked : (key, .node number) ∈ declared.marks) :
    .node number ∈ statements.flatMap Statement.names := by
  rw [flatMap_names declares connects rounds]
  exact List.mem_append_left _ (List.mem_map_of_mem marked)

end Rounds

end Graph

end FlowGraph

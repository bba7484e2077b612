import FlowGraph.Graph.Fold
import FlowGraph.Graph.Prune
import FlowGraph.Graph.Schedule
import FlowGraph.Graph.Split

/-!
# Optimisation

The passes in a row: split calls, fold constants, prune, and put the nodes into
evaluation order.  A fault keeps what the passes before it did.
-/

namespace FlowGraph

/-- Split calls, fold constants and prune. -/
def Graph.simplify (meaning : Interpretation) (policy : FoldPolicy) (graph : Graph) :
    Outcome Nat :=
  (graph.split.andThen (Graph.foldConstants meaning policy)).andThen Graph.prune

/-- Run all passes. -/
def Graph.optimize (meaning : Interpretation) (policy : FoldPolicy) (graph : Graph) :
    Outcome Unit :=
  (graph.simplify meaning policy).andThen Graph.schedule

end FlowGraph

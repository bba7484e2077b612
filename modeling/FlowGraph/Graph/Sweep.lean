import FlowGraph.Graph.Basic

/-!
# Sweeps

A pass works on the nodes of a graph and then on the bodies of its loops, one after
the other.  A fault keeps what was done before it.
-/

namespace FlowGraph

/-- Visit the bodies of the loop nodes in order, up to the first fault. -/
def visitBodies (visit : Graph → Outcome Nat) : List Node → List Node × Except Fault Nat
  | [] => ([], .ok 0)
  | node :: rest =>
      if node.isLoop then
        match node.content with
        | .loop loop =>
            let inner := visit loop.body
            let visited := { node with content := .loop { loop with body := inner.graph } }
            match inner.answer with
            | .error fault => (visited :: rest, .error fault)
            | .ok count =>
                let (nodes, answer) := visitBodies visit rest
                (visited :: nodes, answer.map (count + ·))
        | _ => (node :: rest, .error (.bodyless node.id))
      else
        let (nodes, answer) := visitBodies visit rest
        (node :: nodes, answer)

/-- Work on a graph, and then on the bodies of its loops with `visit`. -/
def sweep (level visit : Graph → Outcome Nat) (graph : Graph) : Outcome Nat :=
  let done := level graph
  match done.answer with
  | .error fault => ⟨done.graph, .error fault⟩
  | .ok count =>
      let (nodes, answer) := visitBodies visit done.graph.nodes
      ⟨{ done.graph with nodes := nodes }, answer.map (count + ·)⟩

end FlowGraph

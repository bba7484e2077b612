import FlowGraph.Graph.Ancestors

/-!
# Pruning

Pruning drops every node that no exit depends on.  The bodies of loops are
pruned first, against their own exits, and bindings of dropped nodes go with
them.  Every graph of the nest is a transaction of its own.
-/

namespace FlowGraph

/-- Keep the nodes that the exits depend on; the answer is how many were
dropped. -/
def dropDead (graph : Graph) : Outcome Nat :=
  match graph.ancestors (graph.exits.map Prod.snd) with
  | .error fault => ⟨graph, .error fault⟩
  | .ok live =>
      let kept := graph.nodes.filter fun node => live.contains node.id
      ⟨{ graph with nodes := kept }, .ok (graph.nodes.length - kept.length)⟩

/-- The bindings of the nodes that a body still has. -/
def remainingBindings (body : Graph) (bindings : List (NodeId × NodeId)) :
    List (NodeId × NodeId) :=
  bindings.filter fun (inner, _) => body.contains inner

mutual

/-- What pruning does inside its transaction: every body is pruned, then the nodes
that nothing depends on are dropped. -/
def Graph.pruneBlock : Graph → Outcome Nat
  | ⟨nodes, exits, nextId⟩ =>
      let (visited, answer) := pruneInside nodes
      match answer with
      | .error fault => ⟨⟨visited, exits, nextId⟩, .error fault⟩
      | .ok count => (dropDead ⟨visited, exits, nextId⟩).more count

/-- Prune the bodies of the loop nodes in order, each in a transaction of its own, up
to the first fault. -/
def pruneInside : List Node → List Node × Except Fault Nat
  | [] => ([], .ok 0)
  | ⟨id, .loop, .loop ⟨tag, index, body, bindings⟩, inputs, result⟩ :: rest =>
      let inner := body.transaction body.pruneBlock
      match inner.answer with
      | .error fault =>
          (⟨id, .loop, .loop ⟨tag, index, inner.graph, bindings⟩, inputs, result⟩ :: rest,
            .error fault)
      | .ok count =>
          let content := Value.loop ⟨tag, index, inner.graph,
            remainingBindings inner.graph bindings⟩
          let (nodes, answer) := pruneInside rest
          (⟨id, .loop, content, inputs, result⟩ :: nodes, answer.map (count + ·))
  | ⟨id, .loop, content, inputs, result⟩ :: rest =>
      (⟨id, .loop, content, inputs, result⟩ :: rest, .error (.bodyless id))
  | node :: rest =>
      let (nodes, answer) := pruneInside rest
      (node :: nodes, answer)

end

/-- Drop every node that no exit depends on; the answer is their number. -/
def Graph.prune (graph : Graph) : Outcome Nat :=
  graph.transaction graph.pruneBlock

end FlowGraph

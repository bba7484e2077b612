import FlowGraph.Graph.Ancestors

/-!
# Merging of nodes

Merging gives the place of one node to another: every input, exit and binding
that named the removed node names the kept one.  The kept node must not depend
on the removed one.
-/

namespace FlowGraph

/-- The kept node in place of the removed one. -/
def redirect (keep remove id : NodeId) : NodeId :=
  if id = remove then keep else id

namespace Node

/-- Redirect the inputs of a node other than the removed one. -/
def redirectInputs (keep remove : NodeId) (node : Node) : Node :=
  if node.id = remove then node
  else { node with inputs := node.inputs.map (redirect keep remove) }

end Node

/-- Redirect the bindings of a loop. -/
def Loop.redirectBindings (keep remove : NodeId) (loop : Loop) : Loop :=
  { loop with
    bindings := loop.bindings.map fun (inner, outer) => (inner, redirect keep remove outer) }

/-- Redirect the bindings of the loop nodes in order; one without a loop stops
that. -/
def redirectLoops (keep remove : NodeId) : List Node → List Node × Except Fault Unit
  | [] => ([], .ok ())
  | node :: rest =>
      if node.isLoop then
        match node.content with
        | .loop loop =>
            let (nodes, answer) := redirectLoops keep remove rest
            ({ node with content := .loop (loop.redirectBindings keep remove) } :: nodes, answer)
        | _ => (node :: rest, .error .missingField)
      else
        let (nodes, answer) := redirectLoops keep remove rest
        (node :: nodes, answer)

namespace Graph

/-- Let everything that named one node name another, and take the node out. -/
def replaceNode (graph : Graph) (keep remove : NodeId) : Outcome Unit :=
  let inputsDone := graph.nodes.map (Node.redirectInputs keep remove)
  let exitsDone := graph.exits.map fun (name, id) => (name, redirect keep remove id)
  let (nodes, answer) := redirectLoops keep remove inputsDone
  let redirected : Graph := ⟨nodes, exitsDone, graph.nextId⟩
  match answer with
  | .ok _ => ⟨redirected.erase remove, .ok ()⟩
  | .error fault => ⟨redirected, .error fault⟩

/-- Merge one node into another. -/
def fuse (graph : Graph) (keep remove : NodeId) : Outcome Unit :=
  if keep = remove then ⟨graph, .error (.selfFusion keep)⟩
  else
    match graph.node remove with
    | .error fault => ⟨graph, .error fault⟩
    | .ok _ =>
        match graph.ancestors [keep] with
        | .error fault => ⟨graph, .error fault⟩
        | .ok found =>
            if remove ∈ found then ⟨graph, .error (.cyclicFusion keep remove)⟩
            else graph.replaceNode keep remove

end Graph

end FlowGraph

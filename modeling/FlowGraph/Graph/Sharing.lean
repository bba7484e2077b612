import FlowGraph.Graph.Basic

/-!
# Shared loops

A value passed on is not copied, so one loop may occur as the content of a node,
among the results of others and inside containers.  The tag of a loop tells its
occurrences from those of a loop that only looks the same.  `revise` changes
loops wherever they occur; `renew` makes copies, which are loops of their own.

A graph holds the loops that are contents of its nodes, and a pass over the graph
changes those.  `Tagged.put` shows the change everywhere else.
-/

namespace FlowGraph

mutual

/-- Change loops wherever they occur in a value.  A loop for which there is a new one
gives way to it; the bodies of the others are changed inside. -/
def Value.revise (change : Loop → Option Loop) : Value → Value
  | .list items => .list (reviseValues change items)
  | .tuple items => .tuple (reviseValues change items)
  | .dict entries => .dict (reviseEntries change entries)
  | .record fields => .record (reviseEntries change fields)
  | .slice start stop step =>
      .slice (start.revise change) (stop.revise change) (step.revise change)
  | .expr head arguments => .expr head (reviseValues change arguments)
  | .form tag head arguments => .form tag head (reviseValues change arguments)
  | .loop ⟨tag, index, body, bindings⟩ =>
      .loop ((change ⟨tag, index, body, bindings⟩).getD
        ⟨tag, index, body.revise change, bindings⟩)
  | .part kind ⟨tag, index, body, bindings⟩ =>
      .part kind ((change ⟨tag, index, body, bindings⟩).getD
        ⟨tag, index, body.revise change, bindings⟩)
  | value => value

/-- Change loops wherever they occur in some values. -/
def reviseValues (change : Loop → Option Loop) : List Value → List Value
  | [] => []
  | value :: rest => value.revise change :: reviseValues change rest

/-- Change loops wherever they occur in a table. -/
def reviseEntries (change : Loop → Option Loop) : List (String × Value) → List (String × Value)
  | [] => []
  | (name, value) :: rest => (name, value.revise change) :: reviseEntries change rest

/-- Change loops wherever they occur in a graph. -/
def Graph.revise (change : Loop → Option Loop) : Graph → Graph
  | ⟨nodes, exits, nextId⟩ => ⟨reviseNodes change nodes, exits, nextId⟩

/-- Change loops wherever they occur in some nodes. -/
def reviseNodes (change : Loop → Option Loop) : List Node → List Node
  | [] => []
  | ⟨id, kind, content, inputs, result⟩ :: rest =>
      ⟨id, kind, content.revise change, inputs, result.revise change⟩ :: reviseNodes change rest

end

mutual

/-- Change loops in the results and containers of a graph.  Those that its nodes hold
stay, and so do those that the bodies hold. -/
def Graph.reviseAround (change : Loop → Option Loop) : Graph → Graph
  | ⟨nodes, exits, nextId⟩ => ⟨reviseNodesAround change nodes, exits, nextId⟩

/-- Change loops in the results and containers of some nodes. -/
def reviseNodesAround (change : Loop → Option Loop) : List Node → List Node
  | [] => []
  | ⟨id, kind, .loop ⟨tag, index, body, bindings⟩, inputs, result⟩ :: rest =>
      ⟨id, kind, .loop ⟨tag, index, body.reviseAround change, bindings⟩, inputs,
        result.revise change⟩ :: reviseNodesAround change rest
  | ⟨id, kind, content, inputs, result⟩ :: rest =>
      ⟨id, kind, content.revise change, inputs, result.revise change⟩ ::
        reviseNodesAround change rest

end

mutual

/-- The loops that the nodes of a graph hold, at any depth. -/
def Graph.held : Graph → List Loop
  | ⟨nodes, _, _⟩ => heldBy nodes

/-- The loops that some nodes hold, at any depth. -/
def heldBy : List Node → List Loop
  | [] => []
  | ⟨_, _, .loop ⟨tag, index, body, bindings⟩, _, _⟩ :: rest =>
      ⟨tag, index, body, bindings⟩ :: (body.held ++ heldBy rest)
  | _ :: rest => heldBy rest

end

/-- A loop as a graph holds it. -/
def Graph.latest (graph : Graph) (loop : Loop) : Option Loop :=
  graph.held.find? fun found => found.tag == loop.tag

/-- A graph in whose results and containers the loops that it holds are as it holds
them. -/
def Graph.settled (graph : Graph) : Graph :=
  graph.reviseAround graph.latest

/-- The loop of a tag with another body. -/
def Loop.withBody (tag : Nat) (body : Graph) (loop : Loop) : Option Loop :=
  if loop.tag = tag then some { loop with body := body } else none

/-- A loop once the graph of the tag has become `graph`: it has a new body if that is
the graph, and it is as the graph holds it. -/
def Graph.shows (graph : Graph) (tag : Nat) (loop : Loop) : Option Loop :=
  (loop.withBody tag graph).or (graph.latest loop)

mutual

/-- All loops that occur in a value. -/
def Value.loops : Value → List Loop
  | .list items => loopsOfValues items
  | .tuple items => loopsOfValues items
  | .dict entries => loopsOfEntries entries
  | .record fields => loopsOfEntries fields
  | .slice start stop step => start.loops ++ stop.loops ++ step.loops
  | .expr _ arguments => loopsOfValues arguments
  | .form _ _ arguments => loopsOfValues arguments
  | .loop ⟨tag, index, body, bindings⟩ => ⟨tag, index, body, bindings⟩ :: body.allLoops
  | .part _ ⟨tag, index, body, bindings⟩ => ⟨tag, index, body, bindings⟩ :: body.allLoops
  | _ => []

/-- All loops that occur in some values. -/
def loopsOfValues : List Value → List Loop
  | [] => []
  | value :: rest => value.loops ++ loopsOfValues rest

/-- All loops that occur in a table. -/
def loopsOfEntries : List (String × Value) → List Loop
  | [] => []
  | (_, value) :: rest => value.loops ++ loopsOfEntries rest

/-- All loops that occur in a graph, as contents or results, at any depth. -/
def Graph.allLoops : Graph → List Loop
  | ⟨nodes, _, _⟩ => loopsOfNodes nodes

/-- All loops that occur in some nodes. -/
def loopsOfNodes : List Node → List Loop
  | [] => []
  | ⟨_, _, content, _, result⟩ :: rest => content.loops ++ result.loops ++ loopsOfNodes rest

end

mutual

/-- A copy of a graph and the first tag that is free afterwards.  The loops that
its nodes hold are copied too, at every depth, and take tags from `next` on;
results are passed on as they are. -/
def Graph.renew (next : Nat) : Graph → Graph × Nat
  | ⟨nodes, exits, nextId⟩ =>
      let (copies, later) := renewNodes next nodes
      (⟨copies, exits, nextId⟩, later)

/-- Copies of some nodes and the first tag that is free afterwards. -/
def renewNodes (next : Nat) : List Node → List Node × Nat
  | [] => ([], next)
  | ⟨id, kind, .loop ⟨_, index, body, bindings⟩, inputs, result⟩ :: rest =>
      let (body, later) := body.renew (next + 1)
      let (rest, last) := renewNodes later rest
      (⟨id, kind, .loop ⟨next, index, body, bindings⟩, inputs, result⟩ :: rest, last)
  | node :: rest =>
      let (rest, last) := renewNodes next rest
      (node :: rest, last)

end

/-- Some nodes of which those that are copies take new tags for their loops, and the
first tag that is free afterwards. -/
def renewWhere (copied : Node → Bool) (next : Nat) : List Node → List Node × Nat
  | [] => ([], next)
  | node :: rest =>
      let (here, later) := if copied node then renewNodes next [node] else ([node], next)
      let (others, last) := renewWhere copied later rest
      (here ++ others, last)

/-- A graph with the tag that tells it from others: a graph that a name stands
for has one of its own, and a body has that of its loop. -/
structure Tagged where
  tag : Nat
  graph : Graph

namespace Tagged

/-- The body that a path of loops leads to. -/
def bodyAt (entry : Tagged) : List NodeId → Except Fault Tagged
  | [] => .ok entry
  | id :: rest =>
      match entry.graph.find? id with
      | none => .error .missingKey
      | some node =>
          match node.content with
          | .loop loop => bodyAt ⟨loop.tag, loop.body⟩ rest
          | _ => .error .missingField

/-- The graph after the graph of the tag `tag` has become `graph`, which may hold it,
be held by it or share loops with it. -/
def put (tag : Nat) (graph : Graph) (entry : Tagged) : Tagged :=
  if entry.tag = tag then ⟨tag, graph⟩
  else
    match graph.held.find? fun loop => loop.tag == entry.tag with
    | some loop => ⟨entry.tag, loop.body⟩
    | none => ⟨entry.tag, entry.graph.revise (graph.shows tag)⟩

/-- The graph as it looks while the graph of the tag `tag` is `graph`. -/
def seenWith (tag : Nat) (graph : Graph) (entry : Tagged) : Graph :=
  if entry.tag = tag then graph else entry.graph.revise (Loop.withBody tag graph)

end Tagged

end FlowGraph

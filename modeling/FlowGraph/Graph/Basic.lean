import FlowGraph.Fault
import FlowGraph.Value.Text

/-!
# Building and reading graphs

A graph hands out the numbers of its nodes and never uses one twice.  Requests
that can fail half-way leave behind the graph that they reached.
-/

namespace FlowGraph

/-- The graph that a request leaves behind, and its answer. -/
structure Outcome (α : Type) where
  graph : Graph
  answer : Except Fault α

namespace Outcome

/-- Go on with the graph that was left, unless there was a fault. -/
def andThen {α β : Type} (outcome : Outcome α) (next : Graph → Outcome β) : Outcome β :=
  match outcome.answer with
  | .ok _ => next outcome.graph
  | .error fault => ⟨outcome.graph, .error fault⟩

/-- Count some more. -/
def more (outcome : Outcome Nat) (count : Nat) : Outcome Nat :=
  ⟨outcome.graph, outcome.answer.map (count + ·)⟩

end Outcome

namespace Node

/-- The nodes that must be evaluated first: the inputs, and for a loop the
sources of its bindings. -/
def dependencies (node : Node) : List NodeId :=
  match node.content with
  | .loop loop =>
      node.inputs ++
        (loop.bindings.map Prod.snd).filter fun source => !node.inputs.contains source
  | _ => node.inputs

/-- Whether the node is a loop node. -/
def isLoop (node : Node) : Bool :=
  node.kind == .loop

end Node

namespace Graph

def ids (graph : Graph) : List NodeId :=
  graph.nodes.map Node.id

def find? (graph : Graph) (id : NodeId) : Option Node :=
  graph.nodes.find? fun node => node.id == id

def contains (graph : Graph) (id : NodeId) : Bool :=
  graph.nodes.any fun node => node.id == id

/-- The node of this number. -/
def node (graph : Graph) (id : NodeId) : Except Fault Node :=
  match graph.find? id with
  | some node => .ok node
  | none => .error (.missingNode id)

/-- Change the node of this number. -/
def update (graph : Graph) (id : NodeId) (change : Node → Node) : Graph :=
  { graph with nodes := graph.nodes.map fun node => if node.id == id then change node else node }

/-- Insert a node under its number.  It takes the place of a node of the same number, or
comes last. -/
def insertNode (graph : Graph) (node : Node) : Graph :=
  if graph.contains node.id then graph.update node.id fun _ => node
  else { graph with nodes := graph.nodes ++ [node] }

/-- Add a node under the next number; all its inputs must be there. -/
def add (graph : Graph) (kind : Kind) (content : Value) (inputs : List NodeId) :
    Except Fault (Graph × NodeId) :=
  match inputs.find? fun input => !graph.contains input with
  | some input => .error (.missingInput input kind)
  | none =>
      let node : Node := ⟨graph.nextId, kind, content, inputs, unsetResult⟩
      .ok ({ graph.insertNode node with nextId := graph.nextId + 1 }, graph.nextId)

/-- Let a name lead to a node; a known name keeps its place. -/
def setExit (graph : Graph) (name : String) (id : NodeId) : Graph :=
  { graph with exits := assign name id graph.exits }

def dropExit (graph : Graph) (name : String) : Graph :=
  { graph with exits := graph.exits.filter fun found => found.1 != name }

/-- The loop nodes. -/
def loops (graph : Graph) : List Node :=
  graph.nodes.filter Node.isLoop

/-- The external names and the first node of each. -/
def externals (graph : Graph) : List (String × NodeId) :=
  graph.nodes.foldl (fun found node =>
    if node.kind == .external && (found.lookup node.content.plain).isNone then
      found ++ [(node.content.plain, node.id)]
    else found) []

/-- Put the nodes into a new order that lists each of them once. -/
def reorder (graph : Graph) (order : List NodeId) : Except Fault Graph :=
  if order.isPerm graph.ids then
    .ok { graph with nodes := order.filterMap graph.find? }
  else
    .error .notPermutation

/-- Take one node out. -/
def erase (graph : Graph) (id : NodeId) : Graph :=
  { graph with nodes := graph.nodes.filter fun node => node.id != id }

/-- Take nodes out one after the other, up to the first that is not there. -/
def remove (graph : Graph) : List NodeId → Outcome Unit
  | [] => ⟨graph, .ok ()⟩
  | id :: rest =>
      if graph.contains id then (graph.erase id).remove rest
      else ⟨graph, .error .missingKey⟩

/-- The outcome of a request that gives a changed graph with an answer, or fails and
changes nothing. -/
def outcomeOf {α : Type} (graph : Graph) : Except Fault (Graph × α) → Outcome α
  | .ok (changed, answer) => ⟨changed, .ok answer⟩
  | .error fault => ⟨graph, .error fault⟩

/-- What a block of changes comes to that runs as a transaction.  Without a fault its
changes stay; after one, wherever it came, the nodes, the exits and the counter are
those of the snapshot taken before. -/
def transaction {α : Type} (snapshot : Graph) (block : Outcome α) : Outcome α :=
  match block.answer with
  | .ok _ => block
  | .error fault =>
      ⟨{ block.graph with
          nodes := snapshot.nodes, exits := snapshot.exits, nextId := snapshot.nextId },
        .error fault⟩

end Graph

mutual

/-- How deep the loops of a graph are nested. -/
def Graph.depth : Graph → Nat
  | ⟨nodes, _, _⟩ => depthOfNodes nodes

/-- How deep the loops among some nodes are nested. -/
def depthOfNodes : List Node → Nat
  | [] => 0
  | ⟨_, _, .loop ⟨_, _, body, _⟩, _, _⟩ :: rest => max (body.depth + 1) (depthOfNodes rest)
  | _ :: rest => depthOfNodes rest

end

end FlowGraph

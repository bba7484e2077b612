import FlowGraph.Graph.Fuse
import FlowGraph.Graph.Sweep
import FlowGraph.Operation.Registry
import FlowGraph.Settings

/-!
# Folding of constants

A call whose operands are all constants gives way to a constant.  Calls are
folded one at a time, the first one in the order of the nodes first, until none
is left; then the bodies of loops follow.  Every graph of the nest is a transaction
of its own: a body that was folded is kept until a later fault takes the graph
around it back.
-/

namespace FlowGraph

/-- Whether all nodes of the given numbers are constants. -/
def areConstants (graph : Graph) : List NodeId → Except Fault Bool
  | [] => .ok true
  | id :: rest => do
      let node ← graph.node id
      if node.kind = .constant then areConstants graph rest else return false

/-- Whether a node is a call that can be folded. -/
def isFoldable (graph : Graph) (policy : FoldPolicy) (node : Node) : Except Fault Bool :=
  if node.kind ≠ .call ∨ node.inputs = [] then .ok false
  else do
    if ← policy.allows node.content then areConstants graph node.inputs else return false

/-- The first node that can be folded. -/
def firstFoldable (graph : Graph) (policy : FoldPolicy) : List Node → Except Fault (Option Node)
  | [] => .ok none
  | node :: rest => do
      if ← isFoldable graph policy node then return some node
      else firstFoldable graph policy rest

/-- The contents of the nodes of the given numbers. -/
def contentsOf (graph : Graph) (ids : List NodeId) : Except Fault (List Value) :=
  ids.mapM fun id => do
    let node ← graph.node id
    return node.content

/-- Whether an exit or a dependency names a node. -/
def isReferenced (graph : Graph) (id : NodeId) : Bool :=
  (graph.exits.any fun found => found.2 == id) ||
    graph.nodes.any fun node => node.dependencies.contains id

/-- Take the nodes of the given numbers out, unless something still names them. -/
def dropOrphans (graph : Graph) (ids : List NodeId) : Graph :=
  { graph with
    nodes := graph.nodes.filter fun node =>
      !(ids.contains node.id && !isReferenced graph node.id) }

/-- Put the value of a call into its place. -/
def foldStep (meaning : Interpretation) (graph : Graph) (node : Node) : Outcome Unit :=
  let added := do
    let operands ← contentsOf graph node.inputs
    let value ← meaning.call node.content.plain operands
    graph.add .constant value []
  match added with
  | .error fault => ⟨graph, .error fault⟩
  | .ok (extended, literal) =>
      (extended.fuse literal node.id).andThen fun fused =>
        ⟨dropOrphans fused node.inputs, .ok ()⟩

/-- The number of calls among some nodes. -/
def callCount (nodes : List Node) : Nat :=
  nodes.countP fun node => node.kind == .call

/-- Fold calls until none can be.  Every fold takes one call away. -/
def foldRounds (meaning : Interpretation) (policy : FoldPolicy) : Nat → Graph → Outcome Nat
  | 0, graph => ⟨graph, .ok 0⟩
  | fuel + 1, graph =>
      match firstFoldable graph policy graph.nodes with
      | .error fault => ⟨graph, .error fault⟩
      | .ok none => ⟨graph, .ok 0⟩
      | .ok (some node) =>
          (foldStep meaning graph node).andThen fun folded =>
            (foldRounds meaning policy fuel folded).more 1

/-- Fold the calls of a graph, loops apart. -/
def foldLevel (meaning : Interpretation) (policy : FoldPolicy) (graph : Graph) : Outcome Nat :=
  foldRounds meaning policy (callCount graph.nodes) graph

/-- What folding does inside its transaction, for a graph whose loops are nested at
most so deep: the calls are folded, then every body in a transaction of its own. -/
def foldBlock (meaning : Interpretation) (policy : FoldPolicy) : Nat → Graph → Outcome Nat
  | 0 => sweep (foldLevel meaning policy) fun body => ⟨body, .ok 0⟩
  | depth + 1 =>
      sweep (foldLevel meaning policy) fun body =>
        body.transaction (foldBlock meaning policy depth body)

/-- Fold the calls of a graph and of the bodies of its loops; the answer is the
number of folds. -/
def Graph.foldConstants (meaning : Interpretation) (policy : FoldPolicy) (graph : Graph) :
    Outcome Nat :=
  graph.transaction (foldBlock meaning policy graph.depth graph)

end FlowGraph

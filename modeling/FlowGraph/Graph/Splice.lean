import FlowGraph.Graph.Basic

/-!
# Splicing of graphs

Splicing copies the nodes of a source, which is in evaluation order, into a
destination.  External nodes whose names are bound give way to nodes of the
destination; the others are copied and reported.  The copying is a transaction on
the destination.
-/

namespace FlowGraph

/-- The node that a name is bound to. -/
structure Target where
  id : NodeId
  /-- The node was taken from another graph. -/
  foreign : Bool

/-- What is known while a source is copied. -/
structure Copying where
  destination : Graph
  /-- Nodes of the source and what they became, in the order of copying. -/
  table : List (NodeId × NodeId)
  /-- The names that were not bound. -/
  unbound : List String

/-- The destination after splicing, and the table of copies. -/
structure Spliced where
  destination : Graph
  unbound : List String
  answer : Except Fault (List (NodeId × NodeId))

/-- The report of a name that was not bound. -/
def unboundWarning (name : String) : String :=
  "unmapped symbol in source graph " ++ Text.quoted name

namespace Copying

/-- What a node of the source became. -/
def image (copying : Copying) (id : NodeId) : Except Fault NodeId :=
  match copying.table.lookup id with
  | some copy => .ok copy
  | none => .error .missingKey

/-- The content of a copy: the bindings of a loop follow the copies. -/
def content (copying : Copying) : Value → Except Fault Value
  | .loop loop => do
      let bindings ← loop.bindings.mapM fun (inner, outer) => do
        return (inner, ← copying.image outer)
      return .loop { loop with bindings := bindings }
  | value => .ok value

/-- Copy a node. -/
def copy (copying : Copying) (node : Node) : Except Fault Copying := do
  let content ← copying.content node.content
  let inputs ← node.inputs.mapM copying.image
  let (destination, id) ← copying.destination.add node.kind content inputs
  return { copying with destination := destination, table := copying.table ++ [(node.id, id)] }

/-- Let a node of the destination take the place of an external node. -/
def bind (copying : Copying) (node : Node) (name : String) (target : Target) :
    Except Fault Copying :=
  if target.foreign then .error (.foreignTarget name)
  else do
    let found ← copying.destination.node target.id
    return { copying with table := copying.table ++ [(node.id, found.id)] }

end Copying

/-- Go through the nodes of the source in order.  `source` is the source graph
as it looks when the destination is the given one. -/
def copyNodes (source : Graph → Graph) (targets : String → Option Target) (copying : Copying) :
    List NodeId → Copying × Except Fault Unit
  | [] => (copying, .ok ())
  | id :: rest =>
      match (source copying.destination).find? id with
      | none => copyNodes source targets copying rest
      | some node =>
          let name := node.content.plain
          if node.kind = .external then
            match targets name with
            | some target =>
                match copying.bind node name target with
                | .ok bound => copyNodes source targets bound rest
                | .error fault => (copying, .error fault)
            | none =>
                let reported := { copying with unbound := copying.unbound ++ [name] }
                match reported.copy node with
                | .ok copied => copyNodes source targets copied rest
                | .error fault => (reported, .error fault)
          else
            match copying.copy node with
            | .ok copied => copyNodes source targets copied rest
            | .error fault => (copying, .error fault)

/-- What splicing does inside its transaction: the nodes of the source are copied, up
to the first fault. -/
def Graph.spliceBlock (source : Graph → Graph) (targets : String → Option Target)
    (destination : Graph) : Spliced :=
  let (copying, answer) :=
    copyNodes source targets ⟨destination, [], []⟩ (source destination).ids
  ⟨copying.destination, copying.unbound, answer.map fun _ => copying.table⟩

/-- Splice a source that is in evaluation order into a destination.  The source
may hold the destination or be held by it, so it is given as a function of the
destination: a constant one for separate graphs, the identity for one graph. -/
def Graph.splice (source : Graph → Graph) (targets : String → Option Target)
    (destination : Graph) : Spliced :=
  let block := Graph.spliceBlock source targets destination
  let outcome := destination.transaction ⟨block.destination, block.answer⟩
  ⟨outcome.graph, block.unbound, outcome.answer⟩

end FlowGraph

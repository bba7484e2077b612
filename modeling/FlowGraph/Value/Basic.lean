import FlowGraph.Kind
import FlowGraph.Tensor.Basic

/-!
# Values, nodes and graphs

A value is what a node may hold or compute: numbers, texts, containers, pieces
of source code and tensors.  A loop is a value too: it carries a graph of its
own, so values, nodes and graphs are defined together.
-/

namespace FlowGraph

/-- The tag of a piece of source code.  Fifteen heads have a tag of their own, and all
others share one. -/
inductive FormTag where
  | assignment
  | annotation
  | increase
  | decrease
  | scaling
  | transposition
  | call
  | block
  | line
  | concatenation
  | loop
  | element
  | branch
  | comparison
  | field
  | other
deriving DecidableEq, Repr

/-- What can be read from a loop besides its index. -/
inductive LoopPart where
  /-- The graph of the body. -/
  | body
  /-- The table of the bindings. -/
  | bindings
  /-- A node of the body. -/
  | node (id : NodeId)
deriving DecidableEq, Repr

mutual

/-- What a node may hold or compute. -/
inductive Value where
  | null
  | bool (value : Bool)
  | int (value : Int)
  | float (value : Float)
  | text (value : String)
  | list (items : List Value)
  | tuple (items : List Value)
  /-- A table of texts in the order of insertion. -/
  | dict (entries : List (String × Value))
  /-- An object that is nothing but its fields. -/
  | record (fields : List (String × Value))
  | slice (start stop step : Value)
  /-- A name in source code. -/
  | symbol (name : String)
  /-- A piece of source code: a head and its arguments. -/
  | expr (head : String) (arguments : List Value)
  /-- A piece of source code that carries a tag, which is read in place of the head. -/
  | form (tag : FormTag) (head : String) (arguments : List Value)
  | tensor (value : Tensor)
  | loop (value : Loop)
  /-- A part of a loop, read as a value.  It stays a part of the loop: a change to the
  loop shows in it. -/
  | part (kind : LoopPart) (owner : Loop)
  /-- A member of the array library that is no number: a function or not. -/
  | member (name : String) (isFunction : Bool)

/-- The content of a loop node.  A loop belongs to one node of one graph: its bindings
name nodes of that graph, and a pass over the graph is a pass over the loop.  Results and
containers may refer to it too.  The tag tells such occurrences of one loop from a loop
that only looks the same. -/
structure Loop where
  tag : Nat
  /-- The name of the loop variable. -/
  index : String
  body : Graph
  /-- Nodes of the body, each with the node of the enclosing graph that
  supplies its value. -/
  bindings : List (NodeId × NodeId)

/-- One node of a graph. -/
structure Node where
  id : NodeId
  kind : Kind
  /-- A literal, a name, an operation, an index, a field or a loop. -/
  content : Value
  /-- The nodes of the same graph that the node reads, in operand order. -/
  inputs : List NodeId
  /-- The value computed last. -/
  result : Value

/-- Nodes in an order, and the names under which results leave the graph. -/
structure Graph where
  nodes : List Node
  exits : List (String × NodeId)
  /-- The number of the next new node. -/
  nextId : NodeId

end

/-- The result of a node that was not evaluated yet. -/
def unsetResult : Value :=
  .float (0.0 / 0.0)

def Graph.empty : Graph :=
  ⟨[], [], 0⟩

instance : Inhabited Value :=
  ⟨.null⟩

instance : Inhabited Graph :=
  ⟨Graph.empty⟩

/-- The loop that a value is. -/
def Value.loop? : Value → Option Loop
  | .loop content => some content
  | _ => none

/-- Put a value under a key: a known key keeps its place. -/
def assign {κ α : Type} [DecidableEq κ] (key : κ) (value : α) : List (κ × α) → List (κ × α)
  | [] => [(key, value)]
  | (name, old) :: rest =>
      if name = key then (name, value) :: rest else (name, old) :: assign key value rest

/-- Later entries replace earlier ones of the same key, which keep their place. -/
def tabulate {κ α : Type} [DecidableEq κ] (entries : List (κ × α)) : List (κ × α) :=
  entries.foldl (fun table (key, value) => assign key value table) []

end FlowGraph

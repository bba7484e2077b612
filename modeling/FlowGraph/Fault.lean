import FlowGraph.Kind
import FlowGraph.Text.Quoted

/-!
# Faults

Every way in which building, checking, rewriting or evaluating a graph can
fail, as a cause with its data.  Faults of graphs, names and operations have a
message; those of values are told apart by their cause alone.
-/

namespace FlowGraph

/-- Why a request failed. -/
inductive Fault where
  /-- Scheduling stopped at nodes that wait for each other. -/
  | cycle (stuck : List NodeId)
  /-- The graph has no such node. -/
  | missingNode (id : NodeId)
  /-- A graph was asked for a node under something, as it is written, that is no
  number. -/
  | unknownNode (written : String)
  /-- A new node names an input that the graph does not have. -/
  | missingInput (input : NodeId) (kind : Kind)
  /-- A node of the graph names an input that the graph does not have. -/
  | danglingInput (id input : NodeId)
  /-- A loop binds a node that its body does not have. -/
  | danglingBinding (id inner : NodeId)
  /-- A loop binds a body node to one that the graph does not have. -/
  | danglingSource (id inner outer : NodeId)
  /-- An exit names a node that the graph does not have. -/
  | danglingExit (name : String) (id : NodeId)
  /-- A node needs another that the graph does not have. -/
  | missingDependency (id dependency : NodeId)
  /-- A new order does not list each node once. -/
  | notPermutation
  /-- A loop node has no body. -/
  | bodyless (id : NodeId)
  /-- A node was to be merged into itself. -/
  | selfFusion (id : NodeId)
  /-- A node was to be merged into one that depends on it. -/
  | cyclicFusion (keep remove : NodeId)
  /-- A name is to be bound to a node of another graph. -/
  | foreignTarget (name : String)
  /-- No operation of this name takes operands of these types. -/
  | unresolvedOperation (name : String) (types : List String)
  /-- Nothing is known under this name. -/
  | unresolvedName (name : String)
  /-- An operation of at least one operand was given none. -/
  | noOperand
  /-- The minus sign was given this many operands. -/
  | minusArity (count : Nat)
  /-- A node kind that does not exist, as it is written. -/
  | unknownKind (written : String)
  /-- A stand-in operation that always fails was applied. -/
  | standIn
  /-- A member needs the array library, which is not there. -/
  | libraryMissing (member : String)
  /-- A value of the wrong type, or a wrong number of operands. -/
  | wrongType
  /-- A value of the right type that is not acceptable. -/
  | badValue
  /-- A key that is not there. -/
  | missingKey
  /-- A position outside a sequence. -/
  | outOfRange
  /-- A field that the value does not have. -/
  | missingField
  /-- A number too large for its type. -/
  | overflow
  /-- A value too large to be held. -/
  | outOfMemory
deriving DecidableEq, Repr

instance : Inhabited Fault :=
  ⟨.wrongType⟩

namespace Fault

/-- Join texts with a separator between them. -/
def joined (separator : String) : List String → String
  | [] => ""
  | [text] => text
  | text :: rest => text ++ separator ++ joined separator rest

/-- The text of a fault; faults of values have none. -/
def message? : Fault → Option String
  | cycle stuck =>
      some ("probable cycle in graph among nodes [" ++ joined ", " (stuck.map toString) ++ "]")
  | missingNode id => some s!"node #{id} is not in the graph"
  | unknownNode written => some s!"node #{written} is not in the graph"
  | missingInput input kind =>
      some s!"parent #{input} of new {kind.name} node is not in the graph"
  | danglingInput id input => some s!"node #{id} has dangling parent #{input}"
  | danglingBinding id inner => some s!"loop #{id} maps missing body node #{inner}"
  | danglingSource id inner outer =>
      some s!"loop #{id} maps body node #{inner} to missing #{outer}"
  | danglingExit name id =>
      some s!"exit {Text.quoted name} points at missing node #{id}"
  | missingDependency id dependency =>
      some s!"node #{id} depends on missing node #{dependency}"
  | notPermutation => some "reorder must be a permutation of the graph's node ids"
  | bodyless id => some s!"for node #{id} carries no loop payload"
  | selfFusion id => some s!"cannot fuse node #{id} with itself"
  | cyclicFusion keep remove =>
      some s!"node #{keep} depends on #{remove}; fusing would create a cycle"
  | foreignTarget name =>
      some s!"rename target for {Text.quoted name} is not a node of the destination graph"
  | unresolvedOperation name types =>
      some (s!"cannot resolve operation {Text.quoted name} for argument types (" ++
        joined ", " types ++ ")")
  | unresolvedName name => some s!"undefined external name {Text.quoted name}"
  | noOperand => some "operation needs at least one operand"
  | minusArity count => some s!"'-' takes one or two operands, got {count}"
  | unknownKind written => some s!"{written} is not a valid NodeKind"
  | standIn => some "stand-in failure"
  | libraryMissing member =>
      some s!"jax is required for {member}(). Install runtime deps first."
  | wrongType => none
  | badValue => none
  | missingKey => none
  | outOfRange => none
  | missingField => none
  | overflow => none
  | outOfMemory => none

end Fault

end FlowGraph

import FlowGraph.Graph.Schedule
import FlowGraph.Operation.Registry

/-!
# Evaluation

A graph is put into evaluation order, and every node computes its result from
those of its inputs.  Results that were computed before a fault stay.  A loop
evaluates its body once, with the bound nodes of the body named in its scope.
-/

namespace FlowGraph

/-- The values of names. -/
abbrev Scope := String → Option Value

/-- A scope with one more name. -/
def Scope.bind (scope : Scope) (name : String) (value : Value) : Scope :=
  fun found => if found = name then some value else scope found

/-- The result of the node of this number. -/
def resultOf (done : List Node) (id : NodeId) : Except Fault Value :=
  match done.find? fun node => node.id == id with
  | some node => .ok node.result
  | none => .error .missingKey

/-- The result of the first input. -/
def firstResult (done : List Node) : List NodeId → Except Fault Value
  | [] => .error .outOfRange
  | id :: _ => resultOf done id

/-- What a node other than a loop computes. -/
def nodeValue (meaning : Interpretation) (scope : Scope) (done : List Node) (node : Node) :
    Except Fault Value :=
  match node.kind with
  | .call | .comparison | .allocation => do
      let operands ← node.inputs.mapM (resultOf done)
      meaning.call node.content.plain operands
  | .external =>
      match scope node.content.plain with
      | some value => .ok value
      | none => meaning.lookup node.content.plain
  | .constant => .ok node.content
  | .element => do
      let base ← firstResult done node.inputs
      meaning.element base node.content
  | .field => do
      let base ← firstResult done node.inputs
      meaning.field base node.content.plain
  | .elementUpdate | .fieldUpdate => firstResult done node.inputs
  | .within => .ok .null
  | .loop => .error (.bodyless node.id)

/-- The scope of a loop body: the name of every bound node has the result of its
source. -/
def bodyScope (done : List Node) (body : Graph) (scope : Scope) :
    List (NodeId × NodeId) → Except Fault Scope
  | [] => .ok scope
  | (inner, outer) :: rest => do
      let value ← resultOf done outer
      let node ← body.node inner
      bodyScope done body (scope.bind node.content.plain value) rest

/-- The results at the exits. -/
def exitValues (nodes : List Node) : List (String × NodeId) → Except Fault (List (String × Value))
  | [] => .ok []
  | (name, id) :: rest => do
      let value ← resultOf nodes id
      let others ← exitValues nodes rest
      return (name, value) :: others

mutual

/-- Evaluate a graph that is in evaluation order, as the bodies of its loops are. -/
def Graph.run (meaning : Interpretation) (scope : Scope) :
    Graph → Outcome (List (String × Value))
  | ⟨nodes, exits, nextId⟩ =>
      let (final, answer) := runNodes meaning scope [] nodes
      ⟨⟨final, exits, nextId⟩, do
        answer
        exitValues final exits⟩

/-- Evaluate nodes after those that are done.  The nodes behind a fault are left
as they are. -/
def runNodes (meaning : Interpretation) (scope : Scope) (done : List Node) :
    List Node → List Node × Except Fault Unit
  | [] => (done, .ok ())
  | ⟨id, .loop, .loop ⟨tag, index, body, bindings⟩, inputs, result⟩ :: rest =>
      match bodyScope done body scope bindings with
      | .error fault =>
          let content := Value.loop ⟨tag, index, body, bindings⟩
          (done ++ ⟨id, .loop, content, inputs, result⟩ :: rest, .error fault)
      | .ok inner =>
          let outcome := body.run meaning inner
          let content := Value.loop ⟨tag, index, outcome.graph, bindings⟩
          match outcome.answer with
          | .error fault => (done ++ ⟨id, .loop, content, inputs, result⟩ :: rest, .error fault)
          | .ok _ => runNodes meaning scope (done ++ [⟨id, .loop, content, inputs, .null⟩]) rest
  | node :: rest =>
      match nodeValue meaning scope done node with
      | .error fault => (done ++ node :: rest, .error fault)
      | .ok value => runNodes meaning scope (done ++ [{ node with result := value }]) rest

end

/-- Put a graph into evaluation order and evaluate it; the answer is what leaves
at the exits. -/
def Graph.evaluate (meaning : Interpretation) (scope : Scope) (graph : Graph) :
    Outcome (List (String × Value)) :=
  graph.schedule.andThen (Graph.run meaning scope)

end FlowGraph

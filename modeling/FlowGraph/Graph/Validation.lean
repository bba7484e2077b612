import FlowGraph.Graph.Basic

/-!
# Validation

A graph is valid when no input, binding or exit leads out of it, and the bodies
of its loops are valid too.
-/

namespace FlowGraph

/-- The first input of a node that the graph does not have is a fault. -/
def checkInputs (graph : Graph) (id : NodeId) (inputs : List NodeId) : Except Fault Unit :=
  match inputs.find? fun input => !graph.contains input with
  | some input => .error (.danglingInput id input)
  | none => .ok ()

/-- Both ends of every binding must be there. -/
def checkBindings (graph body : Graph) (id : NodeId) :
    List (NodeId × NodeId) → Except Fault Unit
  | [] => .ok ()
  | (inner, outer) :: rest =>
      if !body.contains inner then .error (.danglingBinding id inner)
      else if !graph.contains outer then .error (.danglingSource id inner outer)
      else checkBindings graph body id rest

/-- Every exit must lead to a node. -/
def checkExits (graph : Graph) : List (String × NodeId) → Except Fault Unit
  | [] => .ok ()
  | (name, id) :: rest =>
      if graph.contains id then checkExits graph rest
      else .error (.danglingExit name id)

mutual

/-- Check a graph and the bodies of its loops. -/
def Graph.validate : Graph → Except Fault Unit
  | ⟨nodes, exits, nextId⟩ => do
      validateNodes ⟨nodes, exits, nextId⟩ nodes
      checkExits ⟨nodes, exits, nextId⟩ exits

/-- Check nodes of a graph in their order. -/
def validateNodes (graph : Graph) : List Node → Except Fault Unit
  | [] => .ok ()
  | ⟨id, _, .loop ⟨_, _, body, bindings⟩, inputs, _⟩ :: rest => do
      checkInputs graph id inputs
      checkBindings graph body id bindings
      body.validate
      validateNodes graph rest
  | node :: rest => do
      checkInputs graph node.id node.inputs
      validateNodes graph rest

end

end FlowGraph

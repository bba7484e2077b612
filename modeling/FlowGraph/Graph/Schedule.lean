import FlowGraph.Graph.Basic

/-!
# Schedules

A schedule puts every node after its dependencies.  Nodes are placed in layers:
a layer holds all nodes that wait for no unplaced node, in their old order.  No
order is changed before every graph of the nest has one.
-/

namespace FlowGraph

/-- Whether one of the nodes has this number. -/
def hasNode (nodes : List Node) (id : NodeId) : Bool :=
  nodes.any fun node => node.id == id

/-- The first dependency that no node has is a fault. -/
def checkDependencies (nodes : List Node) : List Node → Except Fault Unit
  | [] => .ok ()
  | node :: rest =>
      match node.dependencies.find? fun dependency => !hasNode nodes dependency with
      | some dependency => .error (.missingDependency node.id dependency)
      | none => checkDependencies nodes rest

/-- Whether a node waits for none of the waiting nodes. -/
def isReady (waiting : List Node) (node : Node) : Bool :=
  !node.dependencies.any fun dependency => hasNode waiting dependency

/-- The waiting nodes that go on waiting. -/
def unready (waiting : List Node) : List Node :=
  waiting.filter fun node => !isReady waiting node

theorem length_unready_lt {waiting : List Node}
    (some_ready : waiting.filter (isReady waiting) ≠ []) :
    (unready waiting).length < waiting.length := by
  obtain ⟨node, member⟩ := List.exists_mem_of_ne_nil _ some_ready
  obtain ⟨inside, ready⟩ := List.mem_filter.mp member
  have bounded : (unready waiting).length ≤ waiting.length := List.length_filter_le _ _
  have different : (unready waiting).length ≠ waiting.length := by
    intro equal
    have waits := List.length_filter_eq_length_iff.mp equal node inside
    simp [ready] at waits
  omega

/-- Place the waiting nodes layer by layer. -/
def layers (waiting : List Node) : Except Fault (List NodeId) :=
  if waiting.isEmpty then .ok []
  else if _stuck : waiting.filter (isReady waiting) = [] then
    .error (.cycle (waiting.map Node.id))
  else do
    let later ← layers (unready waiting)
    return (waiting.filter (isReady waiting)).map Node.id ++ later
termination_by waiting.length
decreasing_by exact length_unready_lt _stuck

/-- The order in which nodes can be evaluated. -/
def evaluationOrder (nodes : List Node) : Except Fault (List NodeId) := do
  checkDependencies nodes nodes
  layers nodes

mutual

/-- The orders of a graph and of the bodies of its loops, the outer ones first. -/
def Graph.orders : Graph → Except Fault (List (List NodeId))
  | ⟨nodes, _, _⟩ => do
      let order ← evaluationOrder nodes
      let inner ← ordersInside nodes
      return order :: inner

/-- The orders of the bodies of the loop nodes. -/
def ordersInside : List Node → Except Fault (List (List NodeId))
  | [] => .ok []
  | ⟨_, .loop, .loop ⟨_, _, body, _⟩, _, _⟩ :: rest => do
      let inner ← body.orders
      let others ← ordersInside rest
      return inner ++ others
  | ⟨id, .loop, _, _, _⟩ :: _ => .error (.bodyless id)
  | _ :: rest => ordersInside rest

end

mutual

/-- Put a graph and then the bodies of its loops into the orders that come first; the
answer is the orders that are left. -/
def Graph.arrangeBy : Graph → List (List NodeId) → Outcome (List (List NodeId))
  | graph, [] => ⟨graph, .ok []⟩
  | ⟨nodes, exits, nextId⟩, order :: orders =>
      let (visited, answer) := arrangeInside nodes orders
      match (⟨visited, exits, nextId⟩ : Graph).reorder order with
      | .error fault => ⟨⟨nodes, exits, nextId⟩, .error fault⟩
      | .ok arranged => ⟨arranged, answer⟩

/-- Put the bodies of the loop nodes into the orders that come first. -/
def arrangeInside : List Node → List (List NodeId) →
    List Node × Except Fault (List (List NodeId))
  | [], orders => ([], .ok orders)
  | ⟨id, .loop, .loop ⟨tag, index, body, bindings⟩, inputs, result⟩ :: rest, orders =>
      let inner := body.arrangeBy orders
      let arranged : Node :=
        ⟨id, .loop, .loop ⟨tag, index, inner.graph, bindings⟩, inputs, result⟩
      match inner.answer with
      | .error fault => (arranged :: rest, .error fault)
      | .ok others =>
          let (nodes, answer) := arrangeInside rest others
          (arranged :: nodes, answer)
  | node :: rest, orders =>
      let (nodes, answer) := arrangeInside rest orders
      (node :: nodes, answer)

end

/-- Put a graph into evaluation order.  The orders of all graphs of the nest are
collected before one of them is put to use. -/
def Graph.schedule (graph : Graph) : Outcome Unit :=
  match graph.orders with
  | .error fault => ⟨graph, .error fault⟩
  | .ok orders =>
      let arranged := graph.arrangeBy orders
      ⟨arranged.graph, arranged.answer.map fun _ => ()⟩

end FlowGraph

import FlowGraph.Graph.Basic
import FlowGraph.Text.Label

/-!
# Drawings

A drawing of a graph is a list of statements.  Nodes and loops are declared
first: a loop is a cluster around the nodes of its body, and bound nodes of a
body are left out.  Then come the edges, dotted where a binding is read from
outside, and at last the exits.  All declared things are numbered in one row.
-/

namespace FlowGraph

/-- Where a graph stands: the loops around it, the innermost first. -/
abbrev Position := List NodeId

/-- What a node became in a drawing. -/
inductive Mark where
  | node (number : Nat)
  | cluster (number : Nat)
deriving DecidableEq, Repr

/-- One statement of a drawing.  `depth` counts the clusters around it. -/
inductive Statement where
  | openCluster (depth number : Nat) (label : String)
  | closeCluster (depth : Nat)
  | declare (depth number : Nat) (kind : Kind) (label : String)
  | edge (source target : Nat) (dotted : Bool)
  | leave (number source : Nat) (label : String)
deriving DecidableEq, Repr

/-- The marks of the nodes of all graphs in a nest. -/
abbrev Marks := List ((Position × NodeId) × Mark)

/-- Declarations, with the number that comes next. -/
structure Declared where
  statements : List Statement
  marks : Marks
  next : Nat

/-- The label of a node. -/
def Node.label (node : Node) : String :=
  if node.kind = .within then "in" else node.content.plain

mutual

/-- Declare the nodes of a graph and of the bodies of its loops. -/
def declareGraph (position : Position) (bound : List NodeId) (number : Nat) :
    Graph → Except Fault Declared
  | ⟨nodes, _, _⟩ => declareNodes position bound number nodes

/-- Declare nodes in their order. -/
def declareNodes (position : Position) (bound : List NodeId) (number : Nat) :
    List Node → Except Fault Declared
  | [] => .ok ⟨[], [], number⟩
  | ⟨id, .loop, .loop ⟨_, index, body, bindings⟩, _, _⟩ :: rest => do
      let inner ← declareGraph (id :: position) (bindings.map Prod.fst) (number + 1) body
      let later ← declareNodes position bound inner.next rest
      return ⟨.openCluster position.length number ("for " ++ index) :: inner.statements ++
          .closeCluster position.length :: later.statements,
        ((position, id), .cluster number) :: inner.marks ++ later.marks, later.next⟩
  | ⟨_, .loop, _, _, _⟩ :: _ => .error .missingField
  | node :: rest =>
      if bound.contains node.id then declareNodes position bound number rest
      else do
        let later ← declareNodes position bound (number + 1) rest
        return ⟨.declare position.length number node.kind node.label :: later.statements,
          ((position, node.id), .node number) :: later.marks, later.next⟩

end

/-- The edges into a node.  An input that is bound is read from the enclosing
graph; inputs that are not drawn as nodes have no edge. -/
def edgesInto (marks : Marks) (position : Position) (bindings : List (NodeId × NodeId))
    (target : Nat) (inputs : List NodeId) : List Statement :=
  inputs.filterMap fun input =>
    let (key, dotted) :=
      match bindings.lookup input with
      | some outer => ((position.tail, outer), true)
      | none => ((position, input), false)
    match marks.lookup key with
    | some (.node source) => some (.edge source target dotted)
    | _ => none

/-- The number of the node that a key was declared as. -/
def Marks.nodeNumber (marks : Marks) (key : Position × NodeId) : Except Fault Nat :=
  match marks.lookup key with
  | some (.node number) => .ok number
  | _ => .error .missingKey

mutual

/-- The edges of a graph and of the bodies of its loops. -/
def connectGraph (marks : Marks) (position : Position) (bindings : List (NodeId × NodeId)) :
    Graph → Except Fault (List Statement)
  | ⟨nodes, _, _⟩ => connectNodes marks position bindings nodes

/-- The edges of nodes in their order.  A node that is not bound goes by the number that
it was declared with. -/
def connectNodes (marks : Marks) (position : Position) (bindings : List (NodeId × NodeId)) :
    List Node → Except Fault (List Statement)
  | [] => .ok []
  | ⟨id, .loop, .loop ⟨_, _, body, inner⟩, _, _⟩ :: rest => do
      let inside ← connectGraph marks (id :: position) inner body
      let later ← connectNodes marks position bindings rest
      return inside ++ later
  | ⟨_, .loop, _, _, _⟩ :: _ => .error .missingField
  | node :: rest =>
      if (bindings.map Prod.fst).contains node.id then connectNodes marks position bindings rest
      else do
        let target ← marks.nodeNumber (position, node.id)
        let later ← connectNodes marks position bindings rest
        return edgesInto marks position bindings target node.inputs ++ later

end

/-- The exits of the outermost graph that lead to drawn nodes. -/
def drawExits (marks : Marks) (number : Nat) : List (String × NodeId) → List Statement
  | [] => []
  | (name, id) :: rest =>
      match marks.lookup ([], id) with
      | some (.node source) => .leave number source name :: drawExits marks (number + 1) rest
      | _ => drawExits marks number rest

/-- The statements of a drawing. -/
def Graph.statements (graph : Graph) : Except Fault (List Statement) := do
  let declared ← declareGraph [] [] 1 graph
  let edges ← connectGraph declared.marks [] [] graph
  return declared.statements ++ edges ++ drawExits declared.marks declared.next graph.exits

/-- The shape and the colour of a kind of node. -/
def Kind.style : Kind → String × String
  | .constant => ("square", "lightgreen")
  | .external => ("circle", "orange")
  | .call | .comparison => ("box", "lightblue")
  | .element | .field => ("rarrow", "lightblue")
  | .elementUpdate | .fieldUpdate => ("larrow", "lightblue")
  | .allocation => ("parallelogram", "lightblue")
  | .within | .loop => ("box3d", "pink")

/-- The blanks in front of a statement. -/
def indentation (depth : Nat) : String :=
  String.ofList (List.replicate (2 * depth + 2) ' ')

/-- A name in a drawing: of a node, of the cluster of a loop, or of the note of an exit. -/
inductive DrawnName where
  | node (number : Nat)
  | cluster (number : Nat)
  | note (number : Nat)
deriving DecidableEq, Repr

/-- A name as it is written. -/
def DrawnName.text : DrawnName → String
  | .node number => s!"n{number}"
  | .cluster number => s!"cluster_{number}"
  | .note number => s!"x{number}"

/-- The lines of a statement. -/
def Statement.lines : Statement → List String
  | .openCluster depth number label =>
      [indentation depth ++ "subgraph " ++ (DrawnName.cluster number).text ++ " \x7b",
        indentation depth ++ "  label=" ++ Text.label label ++ "; color=pink;"]
  | .closeCluster depth => [indentation depth ++ "\x7d"]
  | .declare depth number kind label =>
      let (shape, colour) := kind.style
      [indentation depth ++ (DrawnName.node number).text ++ " [label=" ++ Text.label label ++
        s!", shape={shape}, style=filled, fillcolor={colour}];"]
  | .edge source target dotted =>
      [indentation 0 ++ (DrawnName.node source).text ++ " -> " ++ (DrawnName.node target).text ++
        (if dotted then " [style=dotted];" else ";")]
  | .leave number source label =>
      [indentation 0 ++ (DrawnName.note number).text ++ " [label=" ++ Text.label label ++
          ", shape=note, style=filled, fillcolor=lightgrey];",
        indentation 0 ++ (DrawnName.node source).text ++ " -> " ++ (DrawnName.note number).text ++
          " [style=dotted];"]

/-- The text of a drawing with these statements. -/
def drawingText (name : String) (statements : List Statement) : String :=
  let lines :=
    [s!"digraph {name} \x7b", "  layout=dot; labeldistance=5; scale=0.5;"] ++
      statements.flatMap Statement.lines ++ ["\x7d"]
  String.join (lines.map fun line => line ++ "\n")

/-- A drawing as text. -/
def Graph.draw (graph : Graph) (name : String) : Except Fault String :=
  graph.statements.map (drawingText name)

end FlowGraph

import FlowGraph.Graph.Sweep
import FlowGraph.Value.Equality

/-!
# Splitting of calls with many operands

A call of an operation that folds its operands is split into calls of two: the
node keeps its first operand, and a new node takes the others.  Scans over the
nodes are repeated until no such call has more than two operands.  A fault keeps
the splits made before it.
-/

namespace FlowGraph

/-- The operations that fold their operands. -/
def foldingOperations : List String :=
  ["+", "*", "sum", "min", "max"]

/-- Whether the content of a call names an operation that folds its operands. -/
def isFolding (content : Value) : Bool :=
  match content.asText? with
  | some name => foldingOperations.contains name
  | none => false

/-- One scan over the nodes that were there when it began. -/
def splitScan (graph : Graph) : List Node → Outcome Nat
  | [] => ⟨graph, .ok 0⟩
  | node :: rest =>
      if node.kind ≠ .call then splitScan graph rest
      else if !node.content.isHashable then ⟨graph, .error .wrongType⟩
      else
        match isFolding node.content, node.inputs with
        | true, first :: second :: third :: others =>
            match graph.add .call node.content (second :: third :: others) with
            | .error fault => ⟨graph, .error fault⟩
            | .ok (extended, id) =>
                (splitScan (extended.update node.id fun found =>
                  { found with inputs := [first, id] }) rest).more 1
        | _, _ => splitScan graph rest

/-- The largest number of inputs of a node. -/
def widestInputs (nodes : List Node) : Nat :=
  nodes.foldr (fun node width => max node.inputs.length width) 0

/-- Scan until nothing is split.  Every scan takes one operand away from the
longest lists, so the largest number of inputs bounds the number of scans. -/
def splitRounds : Nat → Graph → Outcome Nat
  | 0, graph => ⟨graph, .ok 0⟩
  | fuel + 1, graph =>
      let scan := splitScan graph graph.nodes
      match scan.answer with
      | .error fault => ⟨scan.graph, .error fault⟩
      | .ok 0 => ⟨scan.graph, .ok 0⟩
      | .ok count => (splitRounds fuel scan.graph).more count

/-- Split the calls of a graph, loops apart. -/
def splitLevel (graph : Graph) : Outcome Nat :=
  splitRounds (widestInputs graph.nodes + 1) graph

/-- Split the calls of a graph, and of the bodies of its loops with `visit`. -/
def splitWith (visit : Graph → Outcome Nat) (graph : Graph) : Outcome Nat :=
  sweep splitLevel visit graph

/-- Split the calls of a graph whose loops are nested at most so deep. -/
def splitNested : Nat → Graph → Outcome Nat
  | 0 => splitWith fun body => ⟨body, .ok 0⟩
  | depth + 1 => splitWith (splitNested depth)

/-- Split the calls of a graph and of the bodies of its loops; the answer is the
number of splits. -/
def Graph.split (graph : Graph) : Outcome Nat :=
  splitNested graph.depth graph

end FlowGraph

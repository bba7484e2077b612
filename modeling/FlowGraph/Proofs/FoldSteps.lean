import FlowGraph.Graph.Fold
import FlowGraph.Proofs.Nesting
import FlowGraph.Proofs.Transactions

/-!
# Folding as one request

Folding changes a graph call by call, in nested transactions.  What it comes to is a
request that folds the calls of a graph and then those of the bodies, and fails with the
first fault.  The steps settle with that request one by one: a single fold, the folds of
one graph, a sweep over the bodies, and the whole nest (`Graph.foldConstants_eq`).
-/

namespace FlowGraph

/-- Put the value of a call into its place. -/
def foldNode (meaning : Interpretation) (graph : Graph) (node : Node) : Except Fault Graph := do
  let operands ← contentsOf graph node.inputs
  let value ← meaning.call node.content.plain operands
  let (extended, literal) ← graph.add .constant value []
  let fused := extended.fuse literal node.id
  fused.answer
  return dropOrphans fused.graph node.inputs

/-- Fold calls until none can be. -/
def foldCalls (meaning : Interpretation) (policy : FoldPolicy) :
    Nat → Graph → Except Fault (Graph × Nat)
  | 0, graph => .ok (graph, 0)
  | fuel + 1, graph => do
      match ← firstFoldable graph policy graph.nodes with
      | none => return (graph, 0)
      | some node =>
          let folded ← foldNode meaning graph node
          let (final, count) ← foldCalls meaning policy fuel folded
          return (final, count + 1)

/-- Fold in the bodies of the loop nodes in order. -/
def foldBodies (visit : Graph → Except Fault (Graph × Nat)) :
    List Node → Except Fault (List Node × Nat)
  | [] => .ok ([], 0)
  | node :: rest =>
      if node.isLoop then
        match node.content with
        | .loop loop => do
            let (body, count) ← visit loop.body
            let (nodes, others) ← foldBodies visit rest
            return ({ node with content := .loop { loop with body := body } } :: nodes,
              count + others)
        | _ => .error (.bodyless node.id)
      else do
        let (nodes, count) ← foldBodies visit rest
        return (node :: nodes, count)

/-- Fold the calls of a graph, and of the bodies of its loops with `visit`. -/
def foldWith (meaning : Interpretation) (policy : FoldPolicy)
    (visit : Graph → Except Fault (Graph × Nat)) (graph : Graph) : Except Fault (Graph × Nat) := do
  let (level, count) ← foldCalls meaning policy (callCount graph.nodes) graph
  let (nodes, others) ← foldBodies visit level.nodes
  return ({ level with nodes := nodes }, count + others)

/-- Fold the calls of a graph whose loops are nested at most so deep. -/
def foldNested (meaning : Interpretation) (policy : FoldPolicy) :
    Nat → Graph → Except Fault (Graph × Nat)
  | 0 => foldWith meaning policy fun body => .ok (body, 0)
  | depth + 1 => foldWith meaning policy (foldNested meaning policy depth)

variable {meaning : Interpretation} {policy : FoldPolicy}

theorem settles_foldStep (graph : Graph) (node : Node) :
    (foldStep meaning graph node).Settles
      ((foldNode meaning graph node).map fun folded => (folded, ())) := by
  unfold foldStep foldNode
  cases contentsOf graph node.inputs with
  | error fault => rfl
  | ok operands =>
      cases computed : meaning.call node.content.plain operands with
      | error fault => simp [bind, Except.bind, computed, Outcome.Settles, Except.map]
      | ok value =>
          cases added : graph.add .constant value [] with
          | error fault => simp [bind, Except.bind, computed, added, Outcome.Settles, Except.map]
          | ok extended =>
              cases fused : (extended.1.fuse extended.2 node.id).answer <;>
                simp [bind, Except.bind, computed, added, fused, Outcome.andThen, Outcome.Settles,
                  Except.map, pure, Except.pure]

theorem settles_foldRounds (fuel : Nat) (graph : Graph) :
    (foldRounds meaning policy fuel graph).Settles (foldCalls meaning policy fuel graph) := by
  induction fuel generalizing graph with
  | zero => rfl
  | succ fuel induction =>
      rw [foldRounds, foldCalls]
      cases firstFoldable graph policy graph.nodes with
      | error fault => rfl
      | ok chosen =>
          cases chosen with
          | none => rfl
          | some node =>
              have step : (foldStep meaning graph node).Settles _ := settles_foldStep graph node
              cases done : foldNode meaning graph node with
              | error fault =>
                  rw [done] at step
                  have stopped : (foldStep meaning graph node).answer = .error fault := step
                  simp [bind, Except.bind, done, Outcome.andThen, stopped, Outcome.Settles]
              | ok folded =>
                  rw [done] at step
                  have finished : foldStep meaning graph node = ⟨folded, .ok ()⟩ := step
                  have later := (induction folded).more 1
                  simp only [bind, Except.bind, done, Outcome.andThen, finished]
                  cases rounds : foldCalls meaning policy fuel folded <;> rw [rounds] at later
                  · exact later
                  · simpa only [Except.map, Nat.add_comm 1, pure, Except.pure] using later

section Bodies

variable {visit : Graph → Except Fault (Graph × Nat)} {node : Node}

theorem foldBodies_loop {loop : Loop} (runs : node.loop? = some loop) (rest : List Node) :
    foldBodies visit (node :: rest) = (do
      let (body, count) ← visit loop.body
      let (nodes, others) ← foldBodies visit rest
      return ({ node with content := .loop { loop with body := body } } :: nodes,
        count + others)) := by
  obtain ⟨kind, content⟩ := Node.loop?_eq_some.mp runs
  simp [foldBodies, Node.isLoop, kind, content]

theorem foldBodies_plain (kind : node.kind ≠ .loop) (rest : List Node) :
    foldBodies visit (node :: rest) = (do
      let (nodes, count) ← foldBodies visit rest
      return (node :: nodes, count)) := by
  simp [foldBodies, Node.isLoop, kind]

theorem foldBodies_bodyless (kind : node.kind = .loop) (noLoop : node.loop? = none)
    (rest : List Node) : foldBodies visit (node :: rest) = .error (.bodyless node.id) := by
  have content : ∀ loop, node.content ≠ .loop loop := by
    intro loop content
    cases noLoop.symm.trans (Node.loop?_eq_some.mpr ⟨kind, content⟩)
  cases held : node.content
  case loop loop => exact absurd held (content loop)
  all_goals simp [foldBodies, Node.isLoop, kind, held]

/-- A sweep over the bodies settles when each visit does. -/
theorem settles_visitBodies {steps : Graph → Outcome Nat}
    (visits : ∀ body, (steps body).Settles (visit body)) (nodes : List Node) :
    match foldBodies visit nodes with
    | .ok (others, count) => visitBodies steps nodes = (others, .ok count)
    | .error fault => (visitBodies steps nodes).2 = .error fault := by
  induction nodes with
  | nil => rfl
  | cons node rest induction =>
      by_cases kind : node.kind = .loop
      · cases content : node.content
        case loop loop =>
          have inner := visits loop.body
          rw [foldBodies_loop (Node.loop?_eq_some.mpr ⟨kind, content⟩)]
          cases visited : visit loop.body with
          | error fault =>
              rw [visited] at inner
              have stopped : (steps loop.body).answer = .error fault := inner
              simp [bind, Except.bind, visitBodies, Node.isLoop, kind, content, stopped]
          | ok result =>
              rw [visited] at inner
              have finished : steps loop.body = ⟨result.1, .ok result.2⟩ := inner
              cases remaining : foldBodies visit rest <;> rw [remaining] at induction <;>
                simp [bind, Except.bind, visitBodies, Node.isLoop, kind, content, finished,
                  induction, Except.map, pure, Except.pure]
        all_goals
          rw [foldBodies_bodyless kind (by simp [Node.loop?, kind, content, Value.loop?])]
          simp [visitBodies, Node.isLoop, kind, content]
      · rw [foldBodies_plain kind]
        cases remaining : foldBodies visit rest <;> rw [remaining] at induction <;>
          simp [bind, Except.bind, visitBodies, Node.isLoop, kind, induction, pure, Except.pure]

theorem settles_sweep {steps : Graph → Outcome Nat}
    (visits : ∀ body, (steps body).Settles (visit body)) (graph : Graph) :
    (sweep (foldLevel meaning policy) steps graph).Settles
      (foldWith meaning policy visit graph) := by
  have level : (foldRounds meaning policy (callCount graph.nodes) graph).Settles _ :=
    settles_foldRounds (callCount graph.nodes) graph
  unfold sweep foldLevel foldWith
  cases calls : foldCalls meaning policy (callCount graph.nodes) graph with
  | error fault =>
      rw [calls] at level
      have stopped : (foldRounds meaning policy (callCount graph.nodes) graph).answer =
        .error fault := level
      simp [stopped, bind, Except.bind, Outcome.Settles]
  | ok result =>
      rw [calls] at level
      have finished : foldRounds meaning policy (callCount graph.nodes) graph =
        ⟨result.1, .ok result.2⟩ := level
      have bodies := settles_visitBodies visits result.1.nodes
      cases folded : foldBodies visit result.1.nodes <;> rw [folded] at bodies <;>
        simp [finished, bind, Except.bind, folded, bodies, Outcome.Settles, Except.map, pure,
          Except.pure]

end Bodies

theorem settles_foldBlock (depth : Nat) (graph : Graph) :
    (foldBlock meaning policy depth graph).Settles (foldNested meaning policy depth graph) := by
  induction depth generalizing graph with
  | zero =>
      have untouched : ∀ body : Graph, Outcome.Settles ⟨body, .ok 0⟩ (.ok (body, 0)) :=
        fun _ => rfl
      exact settles_sweep untouched graph
  | succ depth induction =>
      exact settles_sweep (fun body => body.settles_transaction (induction body)) graph

/-- Folding gives what the request gives, or it puts the graph back. -/
theorem Graph.foldConstants_eq (graph : Graph) :
    graph.foldConstants meaning policy =
      match foldNested meaning policy graph.depth graph with
      | .ok (folded, count) => ⟨folded, .ok count⟩
      | .error fault => ⟨graph, .error fault⟩ := by
  rw [foldConstants, transaction_eq_of_settles graph (settles_foldBlock graph.depth graph)]
  cases foldNested meaning policy graph.depth graph <;> rfl

end FlowGraph

import FlowGraph.Graph.Basic

/-!
# Transactions as requests

Inside a transaction a pass changes its graph step by step, and a fault finds the graph
half changed.  Around it the steps are not to be seen any more: the pass is a request
that gives a graph with an answer, or fails.  `Outcome.Settles` relates the two, so that
what is proved of a request holds of the steps.
-/

namespace FlowGraph

variable {α : Type}

/-- Steps that come to what a request gives, or stop with its fault. -/
def Outcome.Settles (outcome : Outcome α) : Except Fault (Graph × α) → Prop
  | .ok (graph, answer) => outcome = ⟨graph, .ok answer⟩
  | .error fault => outcome.answer = .error fault

theorem Outcome.Settles.more {outcome : Outcome Nat} {request : Except Fault (Graph × Nat)}
    (settles : outcome.Settles request) (count : Nat) :
    (outcome.more count).Settles
      (request.map fun result => (result.1, count + result.2)) := by
  cases request with
  | error fault =>
      have stopped : outcome.answer = .error fault := settles
      simp [Outcome.more, stopped, Except.map, Outcome.Settles]
  | ok result =>
      have finished : outcome = ⟨result.1, .ok result.2⟩ := settles
      subst finished
      rfl

namespace Graph

variable {snapshot : Graph} {block : Outcome α} {request : Except Fault (Graph × α)}

/-- A transaction that fails leaves the graph that it found, whatever was done to it. -/
theorem transaction_restores {fault : Fault}
    (failed : (snapshot.transaction block).answer = .error fault) :
    (snapshot.transaction block).graph = snapshot := by
  cases answer : block.answer with
  | ok value => simp [transaction, answer] at failed
  | error stopped => simp only [transaction, answer]

/-- Around a transaction its steps are one request. -/
theorem transaction_eq_of_settles (snapshot : Graph) (settles : block.Settles request) :
    snapshot.transaction block = snapshot.outcomeOf request := by
  cases request with
  | error fault =>
      have stopped : block.answer = .error fault := settles
      simp only [transaction, stopped, outcomeOf]
  | ok result =>
      have finished : block = ⟨result.1, .ok result.2⟩ := settles
      simp only [transaction, finished, outcomeOf]

theorem settles_transaction (snapshot : Graph) (settles : block.Settles request) :
    (snapshot.transaction block).Settles request := by
  rw [transaction_eq_of_settles snapshot settles]
  cases request <;> rfl

end Graph

end FlowGraph

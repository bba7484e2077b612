import FlowGraph.Proofs.Extension
import FlowGraph.Proofs.Optimization
import Mathlib.Data.List.Flatten

/-!
# Counters

Every graph of a nest has a counter, the number that its next node gets.  A split and
a fold add one node each and so move one counter on by one; pruning drops counters
with the bodies that it drops, but changes none.  How far the counters have come
therefore tells how many splits and folds there were.
-/

namespace FlowGraph

mutual

/-- The counters of a graph and of the bodies of its loops. -/
def Graph.counters : Graph → List Int
  | ⟨nodes, _, nextId⟩ => nextId :: countersOfNodes nodes

/-- The counters of the bodies of some nodes. -/
def countersOfNodes : List Node → List Int
  | [] => []
  | ⟨_, .loop, .loop ⟨_, _, body, _⟩, _, _⟩ :: rest => body.counters ++ countersOfNodes rest
  | _ :: rest => countersOfNodes rest

end

namespace Node

/-- The counters of the body of a node. -/
def counters (node : Node) : List Int :=
  (node.loop?.map fun loop => loop.body.counters).getD []

theorem counters_of_loop {node : Node} {loop : Loop} (runs : node.loop? = some loop) :
    node.counters = loop.body.counters := by
  simp [counters, runs]

theorem counters_of_kind {node : Node} (other : node.kind ≠ .loop) : node.counters = [] := by
  simp [counters, loop?_eq_none_of_kind other]

theorem counters_of_body {node : Node} {loop : Loop} (runs : node.loop? = some loop)
    (body : Graph) :
    ({ node with content := .loop { loop with body := body } } : Node).counters =
      body.counters := by
  have kind := (loop?_eq_some.mp runs).1
  simp [counters, loop?, kind, Value.loop?]

theorem restored {node : Node} {loop : Loop} {body : Graph} (runs : node.loop? = some loop)
    (same : body = loop.body) :
    ({ node with content := .loop { loop with body := body } } : Node) = node := by
  obtain ⟨_, content⟩ := loop?_eq_some.mp runs
  cases node
  cases loop
  cases content
  cases same
  rfl

theorem counters_fused (keep remove : NodeId) (node : Node) :
    (node.fused keep remove).counters = node.counters := by
  cases runs : (node.fused keep remove).loop? with
  | some changed =>
      obtain ⟨loop, held, rfl⟩ := exists_loop_of_fused runs
      rw [counters_of_loop runs, counters_of_loop held]
      rfl
  | none =>
      cases held : node.loop? with
      | some loop => cases (fused_loop? held).symm.trans runs
      | none => simp [counters, runs, held]

end Node

theorem countersOfNodes_eq (nodes : List Node) :
    countersOfNodes nodes = nodes.flatMap Node.counters := by
  induction nodes with
  | nil => rw [countersOfNodes, List.flatMap_nil]
  | cons node rest induction =>
      rw [List.flatMap_cons, ← induction]
      cases runs : node.loop? with
      | some loop =>
          rw [Node.counters_of_loop runs]
          obtain ⟨kind, content⟩ := Node.loop?_eq_some.mp runs
          obtain ⟨id, _, _, inputs, result⟩ := node
          obtain ⟨tag, index, body, bindings⟩ := loop
          cases kind
          cases content
          rw [countersOfNodes]
      | none =>
          rw [Node.counters, runs, Option.map_none, Option.getD_none, List.nil_append]
          obtain ⟨id, kind, content, inputs, result⟩ := node
          rw [countersOfNodes]
          rintro _ _ _ _ _ _ _ ⟨⟩
          cases runs

/-- How far some counters have come in all. -/
def total : List Int → Int
  | [] => 0
  | counter :: rest => counter + total rest

theorem total_append (first second : List Int) :
    total (first ++ second) = total first + total second := by
  induction first with
  | nil => simp [total]
  | cons counter rest induction =>
      rw [List.cons_append, total, total, induction]
      omega

/-- Nodes without bodies can be left out. -/
theorem flatMap_counters_filter {nodes : List Node} {keeps : Node → Bool}
    (dropped : ∀ node ∈ nodes, keeps node = false → node.kind ≠ .loop) :
    (nodes.filter keeps).flatMap Node.counters = nodes.flatMap Node.counters := by
  induction nodes with
  | nil => rfl
  | cons node rest induction =>
      have remaining := induction fun other later => dropped other (List.mem_cons_of_mem _ later)
      cases kept : keeps node with
      | true => rw [List.filter_cons_of_pos kept, List.flatMap_cons, List.flatMap_cons, remaining]
      | false =>
          have noBody := Node.counters_of_kind (dropped node List.mem_cons_self kept)
          rw [List.filter_cons_of_neg (by simp [kept]), List.flatMap_cons, noBody, remaining,
            List.nil_append]

namespace Graph

theorem counters_eq (graph : Graph) :
    graph.counters = graph.nextId :: graph.nodes.flatMap Node.counters := by
  obtain ⟨nodes, exits, nextId⟩ := graph
  rw [counters, countersOfNodes_eq]

theorem restored {graph : Graph} {nodes : List Node} (same : nodes = graph.nodes) :
    { graph with nodes := nodes } = graph := by
  cases graph
  cases same
  rfl

/-- Numbers name one node each and stay below the counter. -/
structure Tidy (graph : Graph) : Prop where
  distinct : graph.ids.Nodup
  numbered : graph.Numbered

/-- A graph whose counters have come further by `count` in all. -/
structure Advances (graph other : Graph) (count : Nat) : Prop where
  length : other.counters.length = graph.counters.length
  total : total other.counters = total graph.counters + count
  idle : count = 0 → other = graph
  tidy : other.Everywhere Tidy

namespace Advances

variable {graph middle other : Graph} {count more : Nat}

theorem refl (tidy : graph.Everywhere Tidy) : graph.Advances graph 0 :=
  ⟨rfl, by simp, fun _ => rfl, tidy⟩

theorem trans (first : graph.Advances middle count) (second : middle.Advances other more) :
    graph.Advances other (count + more) where
  length := second.length.trans first.length
  total := by
    rw [second.total, first.total]
    omega
  idle := by
    intro none
    rw [second.idle (by omega), first.idle (by omega)]
  tidy := second.tidy

/-- Counters that are among those of an advanced graph are the old ones only if none
was moved on. -/
theorem eq_zero (advances : graph.Advances other count)
    (among : graph.counters.Sublist other.counters) : count = 0 := by
  have same : graph.counters = other.counters := among.eq_of_length advances.length.symm
  have totals := advances.total
  rw [← same] at totals
  omega

end Advances

section Step

variable {graph : Graph} {call : Node}

theorem counters_splitCall (fresh : graph.nextId ∉ graph.ids) (first : NodeId)
    (others : List NodeId) : (graph.splitCall call first others).counters =
      (graph.nextId + 1) :: graph.nodes.flatMap Node.counters := by
  have unchanged : ∀ node : Node, Node.counters (if node.id == call.id then
      { node with inputs := [first, graph.nextId] } else node) = node.counters := by
    intro node
    split <;> rfl
  rw [counters_eq]
  simp only [splitCall, update, extended_nodes fresh, List.flatMap_map, unchanged]
  simp [extended, Node.counters_of_kind]

theorem tidy_splitCall (tidy : graph.Everywhere Tidy) (first : NodeId) (others : List NodeId) :
    (graph.splitCall call first others).Everywhere Tidy := by
  refine everywhere_iff.mpr ⟨⟨splitCall_distinct tidy.here.numbered tidy.here.distinct, ?_⟩, ?_⟩
  · intro id present
    rw [splitCall_ids] at present
    exact tidy.here.numbered.extended id present
  · intro id other loop found runs
    rw [splitCall, find?_update (by simp)] at found
    obtain ⟨node, inExtended, rfl⟩ := Option.map_eq_some_iff.mp found
    have held : node.loop? = some loop := by
      split at runs <;> exact runs
    rcases old_or_new inExtended with old | rfl
    · exact tidy.body old held
    · cases held

theorem advances_splitCall (tidy : graph.Everywhere Tidy) (first : NodeId)
    (others : List NodeId) : graph.Advances (graph.splitCall call first others) 1 where
  length := by simp [counters_splitCall tidy.here.numbered.fresh, counters_eq graph]
  total := by
    rw [counters_splitCall tidy.here.numbered.fresh, counters_eq graph, FlowGraph.total,
      FlowGraph.total]
    omega
  idle := by simp
  tidy := tidy_splitCall tidy first others

variable {value : Value} (tidy : graph.Everywhere Tidy)
include tidy

/-- A fold takes out the call and constants, so all bodies stay. -/
theorem counters_foldedCall (member : call ∈ graph.nodes) (kind : call.kind = .call)
    (constants : ∀ id ∈ call.inputs, ∃ operand, graph.find? id = some operand ∧
      operand.kind = .constant) :
    (graph.foldedCall call value).counters =
      (graph.nextId + 1) :: graph.nodes.flatMap Node.counters := by
  have oldNode : ∀ node ∈ (graph.extended .constant value []).nodes, ∀ held,
      graph.find? node.id = some held → held.kind ≠ .loop → node.kind ≠ .loop := by
    intro node inside held found noLoop
    rcases old_or_new_node inside with old | rfl
    · cases (find?_of_mem tidy.here.distinct old).symm.trans found
      exact noLoop
    · simp
  rw [counters_eq]
  simp only [foldedCall, dropOrphans, fused]
  rw [flatMap_counters_filter, List.flatMap_map]
  · simp only [Node.counters_fused]
    rw [flatMap_counters_filter]
    · rw [extended_nodes tidy.here.numbered.fresh]
      simp [extended, Node.counters_of_kind]
    · intro node inside removed
      have isCall : node.id = call.id := by simpa using removed
      exact oldNode node inside call (isCall ▸ find?_of_mem tidy.here.distinct member)
        (by simp [kind])
  · intro other inside removed
    obtain ⟨node, inExtended, rfl⟩ := List.mem_map.mp inside
    have isOperand : node.id ∈ call.inputs := by
      simp only [Bool.not_eq_false', Bool.and_eq_true, List.contains_iff_mem] at removed
      exact removed.1
    obtain ⟨operand, found, constant⟩ := constants _ isOperand
    exact oldNode node (List.mem_filter.mp inExtended).1 operand found (by simp [constant])

theorem tidy_foldedCall : (graph.foldedCall call value).Everywhere Tidy := by
  refine everywhere_iff.mpr ⟨⟨foldedCall_distinct tidy.here.numbered tidy.here.distinct, ?_⟩, ?_⟩
  · intro id present
    obtain ⟨other, inside, rfl⟩ := mem_ids.mp present
    obtain ⟨node, inExtended, _, rfl⟩ := mem_fused_nodes.mp (mem_of_foldedCall inside)
    exact tidy.here.numbered.extended _ (mem_ids.mpr ⟨node, inExtended, rfl⟩)
  · intro id other changed found runs
    obtain ⟨node, inExtended, _, rfl⟩ :=
      mem_fused_nodes.mp (mem_of_foldedCall (mem_of_find? found).1)
    obtain ⟨loop, held, rfl⟩ := Node.exists_loop_of_fused runs
    rcases old_or_new_node inExtended with old | rfl
    · have bodyTidy := tidy.body (find?_of_mem tidy.here.distinct old) held
      exact bodyTidy
    · cases held

theorem advances_foldNode {meaning : Interpretation} {policy : FoldPolicy} {folded : Graph}
    (chosen : firstFoldable graph policy graph.nodes = .ok (some call))
    (folds : foldNode meaning graph call = .ok folded) : graph.Advances folded 1 := by
  obtain ⟨member, foldable⟩ := isFoldable_of_firstFoldable chosen
  obtain ⟨candidate, constants⟩ := isFoldable_eq_true_iff.mp foldable
  obtain ⟨operands, value, _, _, rfl⟩ := foldNode_eq_ok folds
  have after := @counters_foldedCall _ _ value tidy member candidate.kind constants
  refine ⟨?_, ?_, by simp, tidy_foldedCall tidy⟩
  · simp [after, counters_eq graph]
  · rw [after, counters_eq graph, total, total]
    omega

end Step

end Graph

/-- Nodes whose bodies have advanced by `count` in all. -/
inductive BodiesAdvance : List Node → List Node → Nat → Prop where
  | nil : BodiesAdvance [] [] 0
  | plain {node : Node} {nodes others : List Node} {count : Nat} (noLoop : node.loop? = none)
      (rest : BodiesAdvance nodes others count) :
      BodiesAdvance (node :: nodes) (node :: others) count
  | loop {node : Node} {loop : Loop} {body : Graph} {nodes others : List Node} {inner outer : Nat}
      (runs : node.loop? = some loop) (advances : loop.body.Advances body inner)
      (rest : BodiesAdvance nodes others outer) :
      BodiesAdvance (node :: nodes)
        ({ node with content := .loop { loop with body := body } } :: others) (inner + outer)

namespace BodiesAdvance

variable {nodes others : List Node} {count : Nat}

theorem cons_same {node : Node}
    (tidy : ∀ loop, node.loop? = some loop → loop.body.Everywhere Graph.Tidy)
    (advance : BodiesAdvance nodes others count) :
    BodiesAdvance (node :: nodes) (node :: others) count := by
  cases runs : node.loop? with
  | none => exact .plain runs advance
  | some loop =>
      have both := BodiesAdvance.loop runs (.refl (tidy loop runs)) advance
      rw [Node.restored runs rfl, Nat.zero_add] at both
      exact both

theorem refl (tidy : ∀ node ∈ nodes, ∀ loop, node.loop? = some loop →
    loop.body.Everywhere Graph.Tidy) : BodiesAdvance nodes nodes 0 := by
  induction nodes with
  | nil => exact .nil
  | cons node rest induction =>
      apply cons_same
      · exact tidy node List.mem_cons_self
      · exact induction fun other later => tidy other (List.mem_cons_of_mem _ later)

theorem revised (advance : BodiesAdvance nodes others count) :
    List.Forall₂ (Node.Revised fun _ changed => changed.body.Everywhere Graph.Tidy)
      nodes others := by
  induction advance with
  | nil => exact .nil
  | plain noLoop _ induction => exact .cons (.same noLoop) induction
  | loop runs advances _ induction => exact .cons (.loop runs advances.tidy) induction

theorem length_eq (advance : BodiesAdvance nodes others count) :
    (others.flatMap Node.counters).length = (nodes.flatMap Node.counters).length := by
  induction advance with
  | nil => rfl
  | plain _ _ induction => simp [List.flatMap_cons, induction]
  | loop runs advances _ induction =>
      simp only [List.flatMap_cons, List.length_append, Node.counters_of_body runs,
        Node.counters_of_loop runs, advances.length, induction]

theorem total_eq (advance : BodiesAdvance nodes others count) :
    total (others.flatMap Node.counters) = total (nodes.flatMap Node.counters) + count := by
  induction advance with
  | nil => rfl
  | plain _ _ induction =>
      simp only [List.flatMap_cons, total_append, induction]
      omega
  | loop runs advances _ induction =>
      simp only [List.flatMap_cons, total_append, Node.counters_of_body runs,
        Node.counters_of_loop runs, advances.total, induction]
      omega

theorem idle (advance : BodiesAdvance nodes others count) (none : count = 0) : others = nodes := by
  induction advance with
  | nil => rfl
  | plain _ _ induction => rw [induction none]
  | loop runs advances _ induction =>
      rw [induction (by omega), Node.restored runs (advances.idle (by omega))]

theorem advances {graph : Graph} (tidy : graph.Everywhere Graph.Tidy)
    (advance : BodiesAdvance graph.nodes others count) :
    graph.Advances { graph with nodes := others } count where
  length := by
    simp [Graph.counters_eq, advance.length_eq]
  total := by
    simp only [Graph.counters_eq, FlowGraph.total, advance.total_eq]
    omega
  idle := fun none => Graph.restored (advance.idle none)
  tidy := by
    have sameIds : ({ graph with nodes := others } : Graph).ids = graph.ids :=
      ids_revised advance.revised
    refine Graph.everywhere_of_origins (Graph.origins_of_revised advance.revised)
      ⟨sameIds ▸ tidy.here.distinct, ?_⟩ fun _ _ _ _ _ _ bodyTidy => bodyTidy
    intro id present
    exact tidy.here.numbered id (sameIds ▸ present)

end BodiesAdvance

namespace Graph

variable {graph : Graph}

theorem exists_advances_splitScan {nodes : List Node} (tidy : graph.Everywhere Tidy) :
    ∃ count, graph.Advances (splitScan graph nodes).graph count := by
  induction nodes generalizing graph with
  | nil => exact ⟨0, .refl tidy⟩
  | cons node rest induction =>
      cases splitScan_step graph node rest with
      | skips _ _ goesOn =>
          rw [goesOn]
          exact induction tidy
      | stops _ ends =>
          rw [ends]
          exact ⟨0, .refl tidy⟩
      | dangles _ _ ends =>
          rw [ends]
          exact ⟨0, .refl tidy⟩
      | splits _ _ _ _ _ _ goesOn =>
          rw [goesOn]
          obtain ⟨count, later⟩ := induction (tidy_splitCall tidy _ _)
          exact ⟨1 + count, (advances_splitCall tidy _ _).trans later⟩

theorem exists_advances_splitRounds {fuel : Nat} (tidy : graph.Everywhere Tidy) :
    ∃ count, graph.Advances (splitRounds fuel graph).graph count := by
  induction fuel generalizing graph with
  | zero => exact ⟨0, .refl tidy⟩
  | succ fuel induction =>
      obtain ⟨count, scanned⟩ := @exists_advances_splitScan graph graph.nodes tidy
      cases answer : (splitScan graph graph.nodes).answer with
      | error fault =>
          simp only [splitRounds, answer]
          exact ⟨count, scanned⟩
      | ok splits =>
          cases splits with
          | zero =>
              simp only [splitRounds, answer]
              exact ⟨count, scanned⟩
          | succ splits =>
              simp only [splitRounds, answer]
              obtain ⟨more, later⟩ := induction scanned.tidy
              exact ⟨count + more, scanned.trans later⟩

end Graph

section Visiting

variable {visit : Graph → Outcome Nat} {node : Node} {loop : Loop}

theorem visitBodies_plain (kind : node.kind ≠ .loop) (rest : List Node) :
    visitBodies visit (node :: rest) =
      (node :: (visitBodies visit rest).1, (visitBodies visit rest).2) := by
  have isLoop : node.isLoop = false := by simp [Node.isLoop, kind]
  simp only [visitBodies, isLoop, Bool.false_eq_true, if_false]

theorem visitBodies_bodyless (kind : node.kind = .loop) (noLoop : node.loop? = none)
    (rest : List Node) :
    visitBodies visit (node :: rest) = (node :: rest, .error (.bodyless node.id)) := by
  obtain ⟨id, _, content, inputs, result⟩ := node
  cases kind
  cases content
  case loop => cases noLoop
  all_goals rfl

theorem visitBodies_goes_on {count : Nat} (runs : node.loop? = some loop)
    (answer : (visit loop.body).answer = .ok count) (rest : List Node) :
    visitBodies visit (node :: rest) =
      ({ node with content := .loop { loop with body := (visit loop.body).graph } } ::
        (visitBodies visit rest).1, (visitBodies visit rest).2.map (count + ·)) := by
  obtain ⟨kind, content⟩ := Node.loop?_eq_some.mp runs
  have isLoop : node.isLoop = true := by simp [Node.isLoop, kind]
  simp only [visitBodies, isLoop, if_true, content, answer]

theorem visitBodies_stops {fault : Fault} (runs : node.loop? = some loop)
    (answer : (visit loop.body).answer = .error fault) (rest : List Node) :
    visitBodies visit (node :: rest) =
      ({ node with content := .loop { loop with body := (visit loop.body).graph } } :: rest,
        .error fault) := by
  obtain ⟨kind, content⟩ := Node.loop?_eq_some.mp runs
  have isLoop : node.isLoop = true := by simp [Node.isLoop, kind]
  simp only [visitBodies, isLoop, if_true, content, answer]

theorem visitBodies_advance {nodes : List Node}
    (tidy : ∀ node ∈ nodes, ∀ loop, node.loop? = some loop → loop.body.Everywhere Graph.Tidy)
    (well : ∀ body : Graph, body.Everywhere Graph.Tidy →
      ∃ count, body.Advances (visit body).graph count) :
    ∃ count, BodiesAdvance nodes (visitBodies visit nodes).1 count := by
  induction nodes with
  | nil => exact ⟨0, .nil⟩
  | cons node rest induction =>
      have tidyRest := fun other later => tidy other (List.mem_cons_of_mem _ later)
      obtain ⟨outer, remaining⟩ := induction tidyRest
      cases runs : node.loop? with
      | some loop =>
          obtain ⟨inner, advances⟩ := well loop.body (tidy node List.mem_cons_self loop runs)
          cases answer : (visit loop.body).answer with
          | error fault =>
              rw [visitBodies_stops runs answer]
              exact ⟨inner + 0, .loop runs advances (.refl tidyRest)⟩
          | ok more =>
              rw [visitBodies_goes_on runs answer]
              exact ⟨inner + outer, .loop runs advances remaining⟩
      | none =>
          by_cases kind : node.kind = .loop
          · rw [visitBodies_bodyless kind runs]
            exact ⟨0, .refl tidy⟩
          · rw [visitBodies_plain kind]
            exact ⟨outer, .plain runs remaining⟩

end Visiting

namespace Graph

variable {graph : Graph}

theorem Everywhere.bodies {property : Graph → Prop} (everywhere : graph.Everywhere property)
    (distinct : graph.ids.Nodup) :
    ∀ node ∈ graph.nodes, ∀ loop, node.loop? = some loop → loop.body.Everywhere property :=
  fun _ member _ runs => everywhere.body (find?_of_mem distinct member) runs

theorem exists_advances_splitWith {visit : Graph → Outcome Nat} (tidy : graph.Everywhere Tidy)
    (well : ∀ body : Graph, body.Everywhere Tidy →
      ∃ count, body.Advances (visit body).graph count) :
    ∃ count, graph.Advances (splitWith visit graph).graph count := by
  obtain ⟨count, level⟩ : ∃ count, graph.Advances (splitLevel graph).graph count :=
    exists_advances_splitRounds tidy
  cases answer : (splitLevel graph).answer with
  | error fault =>
      simp only [splitWith, sweep, answer]
      exact ⟨count, level⟩
  | ok splits =>
      simp only [splitWith, sweep, answer]
      obtain ⟨more, bodies⟩ :=
        visitBodies_advance (level.tidy.bodies level.tidy.here.distinct) well
      exact ⟨count + more, level.trans (bodies.advances level.tidy)⟩

/-- Splitting never takes a counter back, whether it succeeds or not. -/
theorem exists_advances_splitNested {depth : Nat} (tidy : graph.Everywhere Tidy) :
    ∃ count, graph.Advances (splitNested depth graph).graph count := by
  induction depth generalizing graph with
  | zero => exact exists_advances_splitWith tidy fun body bodyTidy => ⟨0, .refl bodyTidy⟩
  | succ depth induction => exact exists_advances_splitWith tidy fun body => induction

end Graph

section Folding

variable {meaning : Interpretation} {policy : FoldPolicy}

theorem advances_foldCalls {fuel count : Nat} {graph folded : Graph}
    (tidy : graph.Everywhere Graph.Tidy)
    (done : foldCalls meaning policy fuel graph = .ok (folded, count)) :
    graph.Advances folded count := by
  induction fuel generalizing graph folded count with
  | zero =>
      cases done
      exact .refl tidy
  | succ fuel induction =>
      obtain ⟨choice, chosen, remaining⟩ := bind_eq_ok.mp done
      cases choice with
      | none =>
          cases remaining
          exact .refl tidy
      | some call =>
          obtain ⟨next, folds, afterFold⟩ := bind_eq_ok.mp remaining
          obtain ⟨⟨final, rest⟩, later, ends⟩ := bind_eq_ok.mp afterFold
          cases ends
          have fold := Graph.advances_foldNode tidy chosen folds
          rw [Nat.add_comm]
          exact fold.trans (induction fold.tidy later)

theorem foldBodies_advance {visit : Graph → Except Fault (Graph × Nat)}
    {nodes others : List Node} {count : Nat}
    (tidy : ∀ node ∈ nodes, ∀ loop, node.loop? = some loop → loop.body.Everywhere Graph.Tidy)
    (well : ∀ body other inner, body.Everywhere Graph.Tidy → visit body = .ok (other, inner) →
      body.Advances other inner)
    (done : foldBodies visit nodes = .ok (others, count)) : BodiesAdvance nodes others count := by
  replace done := bodiesFolded_of_ok done
  induction done with
  | nil => exact .nil
  | @loop node loop body rest others inner count runs visited later induction =>
      have advances := well _ _ _ (tidy node List.mem_cons_self loop runs) visited
      exact .loop runs advances
        (induction fun other later => tidy other (List.mem_cons_of_mem _ later))
  | plain kind later induction =>
      exact .plain (Node.loop?_eq_none_of_kind kind)
        (induction fun other later => tidy other (List.mem_cons_of_mem _ later))

theorem advances_foldWith {visit : Graph → Except Fault (Graph × Nat)} {graph folded : Graph}
    {count : Nat} (tidy : graph.Everywhere Graph.Tidy)
    (well : ∀ body other inner, body.Everywhere Graph.Tidy → visit body = .ok (other, inner) →
      body.Advances other inner)
    (done : foldWith meaning policy visit graph = .ok (folded, count)) :
    graph.Advances folded count := by
  obtain ⟨⟨level, calls⟩, levelDone, afterLevel⟩ := bind_eq_ok.mp done
  obtain ⟨⟨nodes, others⟩, bodiesDone, ends⟩ := bind_eq_ok.mp afterLevel
  cases ends
  have first := advances_foldCalls tidy levelDone
  have bodies := foldBodies_advance (first.tidy.bodies first.tidy.here.distinct) well bodiesDone
  exact first.trans (bodies.advances first.tidy)

/-- Folding moves the counters on by the number of folds. -/
theorem advances_foldNested {depth count : Nat} {graph folded : Graph}
    (tidy : graph.Everywhere Graph.Tidy)
    (done : foldNested meaning policy depth graph = .ok (folded, count)) :
    graph.Advances folded count := by
  induction depth generalizing graph folded count with
  | zero =>
      refine advances_foldWith tidy ?_ done
      intro body other inner bodyTidy same
      cases same
      exact .refl bodyTidy
  | succ depth induction => exact advances_foldWith tidy (fun body other inner => induction) done

end Folding

namespace Graph

theorem pruned_eq_ok {graph other : Graph} {count : Nat}
    (done : graph.pruned = .ok (other, count)) :
    ∃ (nodes : List Node) (inner : Nat) (keeps : Node → Bool),
      pruneBodies graph.nodes = .ok (nodes, inner) ∧
      other = { graph with nodes := nodes.filter keeps } ∧
      count = inner + (nodes.length - (nodes.filter keeps).length) := by
  obtain ⟨nodes, inner, dropped, bodies, levelDone, rfl⟩ := pruned_eq_ok_iff.mp done
  obtain ⟨live, _, kept⟩ := bind_eq_ok.mp levelDone
  cases kept
  exact ⟨nodes, inner, _, bodies, rfl, rfl⟩

end Graph

/-- Where the bodies of nodes were pruned, some of their counters are left. -/
theorem flatMap_counters_pruned {nodes others : List Node}
    (revised : List.Forall₂ (Node.Revised Loop.PrunedTo) nodes others)
    (among : ∀ node ∈ nodes, ∀ loop, node.loop? = some loop → ∀ body count,
      loop.body.pruned = .ok (body, count) → body.counters.Sublist loop.body.counters) :
    (others.flatMap Node.counters).Sublist (nodes.flatMap Node.counters) := by
  induction revised with
  | nil => exact .slnil
  | @cons node other nodes others first _ induction =>
      have remaining := induction fun held later => among held (List.mem_cons_of_mem _ later)
      have here : other.counters.Sublist node.counters := by
        cases runs : node.loop? with
        | none =>
            cases first with
            | same => exact .refl _
            | loop held => cases runs.symm.trans held
        | some loop =>
            obtain ⟨changed, otherRuns, ⟨count, pruned⟩, _⟩ := first.exists_loop runs
            rw [Node.counters_of_loop runs, Node.counters_of_loop otherRuns]
            exact among node List.mem_cons_self loop runs changed.body count pruned
      rw [List.flatMap_cons, List.flatMap_cons]
      exact here.append remaining

/-- Where a body determines what is left of the bindings, a node is the same exactly
when its body is. -/
theorem Node.replaced_eq_iff {node : Node} {loop : Loop} {body : Graph}
    {bindings : List (NodeId × NodeId)} (runs : node.loop? = some loop)
    (kept : body = loop.body → bindings = loop.bindings) :
    ({ node with content := .loop { loop with body := body, bindings := bindings } } : Node) =
      node ↔ body = loop.body := by
  obtain ⟨_, content⟩ := loop?_eq_some.mp runs
  cases node
  cases loop
  cases content
  constructor
  · intro equal
    injection equal with _ _ contents
    injection contents with loops
    injection loops
  · intro equal
    rw [kept equal, equal]

/-- Among valid nodes, pruning the bodies changes something exactly where it drops
something. -/
theorem pruneBodies_unchanged_iff {nodes others : List Node} {count : Nat}
    (keys : ∀ node ∈ nodes, ∀ loop, node.loop? = some loop →
      ∀ binding ∈ loop.bindings, binding.1 ∈ loop.body.ids)
    (bodies : ∀ node ∈ nodes, ∀ loop, node.loop? = some loop → ∀ body inner,
      loop.body.pruned = .ok (body, inner) → (body = loop.body ↔ inner = 0))
    (done : pruneBodies nodes = .ok (others, count)) : others = nodes ↔ count = 0 := by
  induction nodes generalizing others count with
  | nil =>
      cases done
      simp
  | cons node rest induction =>
      have remaining := fun {others count} => @induction others count
        (fun other later => keys other (List.mem_cons_of_mem _ later))
        (fun other later => bodies other (List.mem_cons_of_mem _ later))
      cases runs : node.loop? with
      | some loop =>
          rw [pruneBodies_loop runs] at done
          obtain ⟨⟨body, inner⟩, bodyDone, afterBody⟩ := bind_eq_ok.mp done
          obtain ⟨⟨later, outer⟩, restDone, ends⟩ := bind_eq_ok.mp afterBody
          cases ends
          have here := bodies node List.mem_cons_self loop runs body inner bodyDone
          have kept : body = loop.body → remainingBindings body loop.bindings = loop.bindings := by
            rintro rfl
            refine List.filter_eq_self.mpr fun binding member => ?_
            exact Graph.contains_iff.mpr (keys node List.mem_cons_self loop runs binding member)
          rw [List.cons_eq_cons, Node.replaced_eq_iff runs kept, here, remaining restDone]
          omega
      | none =>
          by_cases kind : node.kind = .loop
          · rw [pruneBodies_bodyless kind runs] at done
            cases done
          · rw [pruneBodies_plain kind] at done
            obtain ⟨⟨later, outer⟩, restDone, ends⟩ := bind_eq_ok.mp done
            cases ends
            rw [List.cons_eq_cons, remaining restDone]
            simp

namespace Graph

/-- Pruning leaves some of the counters as they are. -/
theorem counters_pruned {graph other : Graph} {count : Nat}
    (done : graph.pruned = .ok (other, count)) : other.counters.Sublist graph.counters := by
  induction graph using bodyInduction generalizing other count with
  | step graph induction =>
      obtain ⟨nodes, inner, keeps, bodies, rfl, _⟩ := pruned_eq_ok done
      have among : (nodes.flatMap Node.counters).Sublist (graph.nodes.flatMap Node.counters) :=
        flatMap_counters_pruned (pruneBodies_revised bodies)
          fun node member loop runs body count => induction node member loop runs
      rw [counters_eq, counters_eq graph]
      exact ((List.filter_sublist.flatMap _).trans among).cons_cons _

/-- Pruning changes a valid graph exactly where it drops something. -/
theorem pruned_unchanged_iff {graph other : Graph} {count : Nat}
    (valid : graph.validate = .ok ()) (done : graph.pruned = .ok (other, count)) :
    other = graph ↔ count = 0 := by
  induction graph using bodyInduction generalizing other count with
  | step graph induction =>
      obtain ⟨nodes, inner, keeps, bodies, rfl, rfl⟩ := pruned_eq_ok done
      have accepted := (validate_eq_ok.mp valid).1
      have bodiesSame : nodes = graph.nodes ↔ inner = 0 := by
        refine pruneBodies_unchanged_iff ?_ ?_ bodies
        · intro node member loop runs binding bound
          have content := (Node.loop?_eq_some.mp runs).2
          exact ((accepted node member).bindings loop content binding bound).1
        · intro node member loop runs body count
          have content := (Node.loop?_eq_some.mp runs).2
          exact induction node member loop runs ((accepted node member).bodies loop content)
      have sameLength : nodes.length = graph.nodes.length :=
        (pruneBodies_revised bodies).length_eq.symm
      have shorter : (nodes.filter keeps).length ≤ nodes.length := List.length_filter_le _ _
      constructor
      · intro same
        have kept : nodes.filter keeps = graph.nodes := congrArg Graph.nodes same
        have all : nodes.filter keeps = nodes :=
          List.filter_sublist.eq_of_length (by rw [kept, sameLength])
        rw [bodiesSame.mp (all.symm.trans kept), all]
        omega
      · intro none
        have all : nodes.filter keeps = nodes := List.filter_sublist.eq_of_length (by omega)
        exact restored (all.trans (bodiesSame.mpr (by omega)))

end Graph

end FlowGraph

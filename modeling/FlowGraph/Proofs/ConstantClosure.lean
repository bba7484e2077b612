import FlowGraph.Proofs.FoldLevels
import FlowGraph.Proofs.Rearrangement
import Mathlib.Data.Set.Card

/-!
# Folding takes the closure of the constants

In a graph and in every body inside it, folding takes out the least set of calls that is
closed under taking in allowed calls of constants and of calls in the set.  All other nodes
that are not constants stay, with constants in the places of the calls that they named.  The
least closed set is a matter of the nodes and not of their order, so other orders of the nodes
lead to the same calls.
-/

namespace FlowGraph

section Bodies

variable {visit other : Graph → Except Fault (Graph × Nat)}

theorem foldBodies_congr {nodes : List Node}
    (same : ∀ node ∈ nodes, ∀ loop, node.loop? = some loop → visit loop.body = other loop.body) :
    foldBodies visit nodes = foldBodies other nodes := by
  induction nodes with
  | nil => rfl
  | cons node rest induction =>
      have remaining := induction fun later member => same later (List.mem_cons_of_mem _ member)
      cases runs : node.loop? with
      | some loop =>
          rw [foldBodies_loop runs, foldBodies_loop runs, remaining,
            same node List.mem_cons_self loop runs]
      | none =>
          by_cases kind : node.kind = .loop
          · rw [foldBodies_bodyless kind runs, foldBodies_bodyless kind runs]
          · rw [foldBodies_plain kind, foldBodies_plain kind, remaining]

/-- The folds in the bodies come to the total of a measure when those in each body do. -/
theorem foldBodies_count {measure : Graph → Nat} {nodes others : List Node} {count : Nat}
    (visits : ∀ node ∈ nodes, ∀ loop, node.loop? = some loop → ∀ body inner,
      visit loop.body = .ok (body, inner) → inner = (loop.body.nest.map measure).sum)
    (done : foldBodies visit nodes = .ok (others, count)) :
    count = ((Graph.nestOfNodes nodes).map measure).sum := by
  replace done := bodiesFolded_of_ok done
  induction done with
  | nil => rw [Graph.nestOfNodes, List.map_nil, List.sum_nil]
  | @loop node loop body rest others inner count runs visited later induction =>
      have size := visits node List.mem_cons_self loop runs body inner visited
      rw [Graph.nestOfNodes_loop runs, List.map_append, List.sum_append, ← size,
        ← induction fun later member => visits later (List.mem_cons_of_mem _ member)]
  | plain kind later induction =>
      rw [Graph.nestOfNodes_plain (Node.loop?_eq_none_of_kind kind)]
      exact induction fun later member => visits later (List.mem_cons_of_mem _ member)

theorem foldBodies_succeeds {nodes : List Node}
    (carried : ∀ node ∈ nodes, node.kind = .loop → ∃ loop, node.content = .loop loop)
    (visits : ∀ node ∈ nodes, ∀ loop, node.loop? = some loop →
      ∃ result, visit loop.body = .ok result) :
    ∃ result, foldBodies visit nodes = .ok result := by
  induction nodes with
  | nil => exact ⟨([], 0), rfl⟩
  | cons node rest induction =>
      obtain ⟨⟨others, count⟩, remaining⟩ := induction
        (fun later member => carried later (List.mem_cons_of_mem _ member))
        fun later member => visits later (List.mem_cons_of_mem _ member)
      cases runs : node.loop? with
      | some loop =>
          obtain ⟨⟨body, inner⟩, visited⟩ := visits node List.mem_cons_self loop runs
          rw [foldBodies_loop runs]
          exact ⟨_, bind_eq_ok.mpr ⟨_, visited, bind_eq_ok.mpr ⟨_, remaining, rfl⟩⟩⟩
      | none =>
          have kind : node.kind ≠ .loop := by
            intro isLoop
            obtain ⟨loop, content⟩ := carried node List.mem_cons_self isLoop
            cases runs.symm.trans (Node.loop?_eq_some.mpr ⟨isLoop, content⟩)
          rw [foldBodies_plain kind]
          exact ⟨_, bind_eq_ok.mpr ⟨_, remaining, rfl⟩⟩

end Bodies

namespace Graph

variable {meaning : Interpretation} {policy : FoldPolicy}

theorem foldWith_congr {visit other : Graph → Except Fault (Graph × Nat)} {graph : Graph}
    (same : graph.Bodies fun body => visit body = other body) :
    foldWith meaning policy visit graph = foldWith meaning policy other graph := by
  unfold foldWith
  cases level : foldCalls meaning policy (callCount graph.nodes) graph with
  | error fault => rfl
  | ok result =>
      have levelSame : result.1.Bodies fun body => visit body = other body :=
        foldCalls_keeps (fun _ _ _ => bodies_foldedCall) same level
      simp only [bind, Except.bind, foldBodies_congr levelSame]

/-- Folding a graph and all bodies inside it, with the number of folds. -/
def foldedAll (meaning : Interpretation) (policy : FoldPolicy) (graph : Graph) :
    Except Fault (Graph × Nat) :=
  foldNested meaning policy graph.depth graph

theorem foldedAll_eq (graph : Graph) :
    graph.foldedAll meaning policy = foldWith meaning policy (foldedAll meaning policy) graph :=
  nested_depth rfl (fun _ => rfl) (fun _ _ _ => foldWith_congr) graph

theorem foldConstants_of_foldedAll {graph other : Graph} {count : Nat}
    (done : graph.foldedAll meaning policy = .ok (other, count)) :
    graph.foldConstants meaning policy = ⟨other, .ok count⟩ := by
  unfold foldedAll at done
  simp only [foldConstants_eq, done]

/-- What folding makes of one graph of a nest: calls give way to constants until no call can
be folded, then the bodies of its loops are folded. -/
structure FoldsThrough (meaning : Interpretation) (policy : FoldPolicy) (graph level other : Graph)
    (gone : Finset NodeId) (place : NodeId → NodeId) : Prop where
  stage : graph.FoldedBy meaning policy gone place level
  unfoldable : ∀ node ∈ level.nodes, isFoldable level policy node = .ok false
  bodies : List.Forall₂ (Node.Revised (Loop.ReplacedBy fun body changed =>
    ∃ count, body.foldedAll meaning policy = .ok (changed, count))) level.nodes other.nodes
  exits : other.exits = level.exits

theorem exists_foldsThrough {graph other : Graph} {count : Nat} (returns : meaning.ReturnsNoLoop)
    (exact : graph.Exact) (numbered : graph.Numbered)
    (done : graph.foldedAll meaning policy = .ok (other, count)) :
    ∃ level gone place inner, graph.FoldsThrough meaning policy level other gone place ∧
      foldBodies (foldedAll meaning policy) level.nodes = .ok (other.nodes, inner) ∧
      count = gone.card + inner := by
  rw [foldedAll_eq] at done
  obtain ⟨⟨level, folds⟩, levelDone, afterLevel⟩ := bind_eq_ok.mp done
  obtain ⟨⟨nodes, inner⟩, bodiesDone, ends⟩ := bind_eq_ok.mp afterLevel
  cases ends
  obtain ⟨gone, place, stage, size⟩ :=
    FoldedBy.exists_of_foldCalls returns exact numbered (.refl exact numbered) levelDone
  rw [Finset.card_empty, Nat.zero_add] at size
  refine ⟨level, gone, place, inner, ?_, bodiesDone, by rw [size]⟩
  exact
    { stage := stage
      unfoldable := unfoldable_of_foldCalls (Nat.le_refl _) levelDone
      bodies := foldBodies_replaced (fun _ _ _ _ _ inner visited => ⟨inner, visited⟩) bodiesDone
      exits := rfl }

/-- The calls of a graph that another graph does not have. -/
def removedCalls (graph other : Graph) : Set NodeId :=
  { id | ∃ node, graph.find? id = some node ∧ node.kind = .call ∧ id ∉ other.ids }

/-- One graph becomes another when the least closed set of calls is folded: what named such
a call names a constant with its value.  Other nodes stay as they are, constants and the
bodies of loops apart. -/
structure FoldsClosure (meaning : Interpretation) (policy : FoldPolicy) (graph other : Graph)
    (place : NodeId → NodeId) : Prop where
  least : IsLeast { calls | graph.FoldClosed policy calls } (graph.removedCalls other)
  kept : ∀ id, id ∉ graph.removedCalls other → place id = id
  constants : ∀ id ∈ graph.removedCalls other, place id ∉ graph.ids ∧
    ∃ value, (∀ scope, Denotes meaning graph scope id value) ∧
      (isReferenced other (place id) = true →
        other.find? (place id) = some ⟨place id, .constant, value, [], unsetResult⟩)
  survivors : ∀ id node, graph.find? id = some node → node.kind ≠ .constant →
    id ∉ graph.removedCalls other →
    ∃ survivor, other.find? id = some survivor ∧ survivor.hollow = (node.moved place).hollow
  others : ∀ node ∈ other.nodes, node.id ∉ graph.ids → node.kind = .constant
  exits : other.exits = graph.exits.map fun (name, id) => (name, place id)

namespace FoldsThrough

variable {graph level other : Graph} {gone : Finset NodeId} {place : NodeId → NodeId}
  (through : graph.FoldsThrough meaning policy level other gone place)
include through

theorem ids_eq : other.ids = level.ids :=
  ids_revised through.bodies

theorem loops (id : NodeId) :
    Option.Rel (fun loop changed : Loop =>
        ∃ count, loop.body.foldedAll meaning policy = .ok (changed.body, count))
      ((graph.find? id).bind Node.loop?) ((other.find? id).bind Node.loop?) := by
  apply rel_trans (through.stage.loops id) (loops_revised through.bodies id)
  intro loop middle changed same replaced
  rw [← same]
  exact replaced.body

theorem removedCalls_eq : graph.removedCalls other = gone := by
  ext id
  constructor
  · rintro ⟨node, found, kind, absent⟩
    by_contra stays
    rw [through.ids_eq] at absent
    rcases through.stage.survives id node found stays with present | constant
    · exact absent present
    · cases kind.symm.trans constant
  · intro isGone
    obtain ⟨node, found, kind⟩ := through.stage.calls id isGone
    refine ⟨node, found, kind, ?_⟩
    rw [through.ids_eq]
    intro present
    obtain ⟨survivor, foundSurvivor⟩ := exists_find? present
    exact (through.stage.found_moved found foundSurvivor).1 isGone

theorem exists_origin {id : NodeId} {changed : Node} (found : other.find? id = some changed) :
    ∃ node, level.find? id = some node ∧ changed.kind = node.kind ∧
      changed.dependencies = node.dependencies ∧ changed.hollow = node.hollow := by
  obtain ⟨node, foundNode, revised⟩ := origins_of_revised through.bodies id changed found
  refine ⟨node, foundNode, revised.kind_eq, ?_, ?_⟩
  · exact revised.dependencies_eq fun _ _ replaced => replaced.visitedBy.bindings
  · apply Node.hollow_eq_of_revised _ revised
    intro loop changed replaced
    rw [replaced.same]

theorem exists_survivor {id : NodeId} {node : Node} (found : level.find? id = some node) :
    ∃ changed, other.find? id = some changed ∧ changed.hollow = node.hollow := by
  obtain ⟨changed, foundChanged, _⟩ := exists_partner (find?_revised through.bodies id) found
  obtain ⟨again, foundAgain, _, _, hollow⟩ := through.exists_origin foundChanged
  cases found.symm.trans foundAgain
  exact ⟨changed, foundChanged, hollow⟩

/-- What something names is there. -/
theorem mem_ids_of_isReferenced {id : NodeId} (referenced : isReferenced other id = true) :
    id ∈ level.ids := by
  have distinct : other.ids.Nodup := through.ids_eq ▸ through.stage.exact.distinct
  rcases isReferenced_iff.mp referenced with ⟨exit, isExit, rfl⟩ | ⟨changed, member, needed⟩
  · exact through.stage.exact.exits exit (through.exits ▸ isExit)
  · obtain ⟨node, found, _, dependencies, _⟩ :=
      through.exists_origin (find?_of_mem distinct member)
    exact through.stage.exact.linked node (mem_of_find? found).1 id (dependencies ▸ needed)

/-- The constant in the place of a call stays when bodies are folded. -/
theorem find?_constant {id : NodeId} {value : Value}
    (found : level.find? id = some ⟨id, .constant, value, [], unsetResult⟩) :
    other.find? id = some ⟨id, .constant, value, [], unsetResult⟩ := by
  obtain ⟨changed, foundChanged, revised⟩ := exists_partner (find?_revised through.bodies id) found
  cases revised with
  | same => exact foundChanged
  | loop runs => cases (Node.loop?_eq_some.mp runs).1

theorem foldsClosure (exact : graph.Exact) (numbered : graph.Numbered) :
    graph.FoldsClosure meaning policy other place where
  least := by
    rw [through.removedCalls_eq]
    exact through.stage.isLeast (through.stage.closed_of_unfoldable exact through.unfoldable)
  kept := by
    rw [through.removedCalls_eq]
    exact through.stage.kept
  constants := by
    rw [through.removedCalls_eq]
    intro id isGone
    obtain ⟨value, denotes, held⟩ := through.stage.values id isGone
    refine ⟨?_, value, denotes, ?_⟩
    · intro old
      exact absurd (numbered _ old) (not_lt.mpr (through.stage.places id isGone).1)
    · intro referenced
      obtain ⟨literal, found⟩ := exists_find? (through.mem_ids_of_isReferenced referenced)
      exact through.find?_constant (held literal found ▸ found)
  survivors := by
    rw [through.removedCalls_eq]
    intro id node found computed stays
    exact through.exists_survivor (through.stage.find?_moved found stays computed)
  others := by
    intro changed member isNew
    have distinct : other.ids.Nodup := through.ids_eq ▸ through.stage.exact.distinct
    obtain ⟨node, found, kind, _⟩ := through.exists_origin (find?_of_mem distinct member)
    rw [kind]
    rcases through.stage.origins changed.id node found with ⟨origin, foundOrigin, _⟩ | ⟨_, constant⟩
    · exact absurd (mem_ids_of_find? foundOrigin) isNew
    · exact constant
  exits := through.exits.trans through.stage.exits

end FoldsThrough

/-- Folding every graph of the nest: the nest was in order, and folding succeeded. -/
structure FoldTo (meaning : Interpretation) (policy : FoldPolicy) (graph other : Graph) : Prop where
  exact : graph.Everywhere Exact
  numbered : graph.Everywhere Numbered
  done : ∃ count, graph.foldedAll meaning policy = .ok (other, count)

section Nest

variable {graph other : Graph} (returns : meaning.ReturnsNoLoop)
include returns

theorem FoldTo.exists_through (passes : graph.FoldTo meaning policy other) :
    ∃ level gone place, graph.FoldsThrough meaning policy level other gone place := by
  obtain ⟨count, done⟩ := passes.done
  obtain ⟨level, gone, place, _, through, _⟩ :=
    exists_foldsThrough returns passes.exact.here passes.numbered.here done
  exact ⟨level, gone, place, through⟩

/-- Every graph of the nest is folded like the graph itself. -/
theorem FoldTo.within (passes : graph.FoldTo meaning policy other) (path : List NodeId) :
    Option.Rel (FoldTo meaning policy) (graph.within? path) (other.within? path) := by
  apply within?_rel _ passes
  intro left right passes id
  obtain ⟨level, gone, place, through⟩ := passes.exists_through returns
  apply rel_mono (through.loops id)
  intro loop changed found _ folded
  obtain ⟨node, foundNode, runs⟩ := Option.bind_eq_some_iff.mp found
  exact ⟨passes.exact.body foundNode runs, passes.numbered.body foundNode runs, folded⟩

theorem FoldTo.foldsClosure (passes : graph.FoldTo meaning policy other) :
    ∃ place, graph.FoldsClosure meaning policy other place := by
  obtain ⟨level, gone, place, through⟩ := passes.exists_through returns
  exact ⟨place, through.foldsClosure passes.exact.here passes.numbered.here⟩

theorem FoldTo.calculable (passes : graph.FoldTo meaning policy other) :
    graph.Everywhere (Calculable meaning policy) := by
  intro path body reached
  obtain ⟨rest, _, bodyPasses⟩ := exists_partner (passes.within returns path) reached
  obtain ⟨level, gone, place, through⟩ := bodyPasses.exists_through returns
  have exact := bodyPasses.exact.here
  have closed := through.stage.closed_of_unfoldable exact through.unfoldable
  exact through.stage.calculable closed through.unfoldable exact.distinct

/-- The folds come to the number of calls in the least closed sets of the whole nest. -/
theorem foldedAll_count {count : Nat} (exact : graph.Everywhere Exact)
    (numbered : graph.Everywhere Numbered)
    (done : graph.foldedAll meaning policy = .ok (other, count)) :
    count = (graph.nest.map fun body => (body.constantClosure policy).ncard).sum := by
  induction graph using bodyInduction generalizing other count with
  | step graph induction =>
      obtain ⟨level, gone, place, inner, through, bodiesDone, size⟩ :=
        exists_foldsThrough returns exact.here numbered.here done
      have closed := through.stage.closed_of_unfoldable exact.here through.unfoldable
      have bodies : graph.Bodies fun body => ∀ folded inside,
          body.foldedAll meaning policy = .ok (folded, inside) →
          inside = (body.nest.map fun body => (body.constantClosure policy).ncard).sum :=
        fun node member loop runs _ _ => induction node member loop runs
          (exact.bodies exact.here.distinct node member loop runs)
          (numbered.bodies exact.here.distinct node member loop runs)
      have visits := through.stage.bodies bodies
      have loops : ((nestOfNodes level.nodes).map
          fun body => (body.constantClosure policy).ncard).sum = ((nestOfNodes graph.nodes).map
            fun body => (body.constantClosure policy).ncard).sum := by
        apply sum_nestOfNodes_congr exact.here.distinct through.stage.exact.distinct
        intro id
        exact rel_mono (through.stage.loops id) fun _ _ _ _ same => by rw [same]
      rw [Graph.sum_nest, through.stage.constantClosure_eq closed, Set.ncard_coe_finset, ← loops,
        ← foldBodies_count visits bodiesDone, size]

/-- Folding succeeds where every graph of the nest has what it needs. -/
theorem foldedAll_succeeds (exact : graph.Everywhere Exact) (numbered : graph.Everywhere Numbered)
    (calculable : graph.Everywhere (Calculable meaning policy)) :
    ∃ result, graph.foldedAll meaning policy = .ok result := by
  induction graph using bodyInduction with
  | step graph induction =>
      have start : graph.FoldedBy meaning policy ∅ (fun id => id) graph :=
        .refl exact.here numbered.here
      obtain ⟨⟨level, folds⟩, levelDone⟩ := start.foldCalls_succeeds returns exact.here
        numbered.here calculable.here (callCount graph.nodes)
      obtain ⟨gone, place, stage, _⟩ :=
        FoldedBy.exists_of_foldCalls returns exact.here numbered.here start levelDone
      have bodies : graph.Bodies fun body => ∃ result, body.foldedAll meaning policy = .ok result :=
        fun node member loop runs => induction node member loop runs
          (exact.bodies exact.here.distinct node member loop runs)
          (numbered.bodies exact.here.distinct node member loop runs)
          (calculable.bodies exact.here.distinct node member loop runs)
      obtain ⟨⟨nodes, inner⟩, bodiesDone⟩ :=
        foldBodies_succeeds stage.exact.carried (stage.bodies bodies)
      rw [foldedAll_eq]
      exact ⟨_, bind_eq_ok.mpr ⟨_, levelDone, bind_eq_ok.mpr ⟨_, bodiesDone, rfl⟩⟩⟩

end Nest

end Graph

theorem Node.candidate_hollow {policy : FoldPolicy} {node : Node} :
    node.hollow.Candidate policy ↔ node.Candidate policy := by
  have content : node.kind = .call → node.hollow.content = node.content :=
    fun kind => node.hollow_content (by simp [kind])
  constructor
  · intro candidate
    have kind : node.kind = .call := node.hollow_kind ▸ candidate.kind
    exact ⟨kind, node.hollow_inputs ▸ candidate.inputs, content kind ▸ candidate.allowed⟩
  · intro candidate
    refine ⟨node.hollow_kind.trans candidate.kind, ?_, ?_⟩
    · rw [node.hollow_inputs]
      exact candidate.inputs
    · rw [content candidate.kind]
      exact candidate.allowed

namespace Graph

namespace SameLevel

variable {meaning : Interpretation} {policy : FoldPolicy} {graph other : Graph}
  (same : graph.SameLevel other)
include same

theorem isConstant {id : NodeId} (constant : graph.IsConstant id) : other.IsConstant id := by
  obtain ⟨node, found, kind⟩ := constant
  obtain ⟨alike, foundAlike, hollow⟩ := same.exists_alike found
  exact ⟨alike, foundAlike, (Node.kind_eq_of_hollow hollow).trans kind⟩

theorem foldClosed {calls : Set NodeId} (closed : other.FoldClosed policy calls) :
    graph.FoldClosed policy calls := by
  intro id node found candidate operands
  obtain ⟨alike, foundAlike, hollow⟩ := same.exists_alike found
  refine closed id alike foundAlike ?_ ?_
  · rwa [← Node.candidate_hollow, hollow, Node.candidate_hollow]
  · intro input isInput
    rw [Node.inputs_eq_of_hollow hollow] at isInput
    exact (operands input isInput).imp_left same.isConstant

theorem constantClosure_eq : other.constantClosure policy = graph.constantClosure policy := by
  ext id
  constructor
  · intro forced calls closed
    exact forced calls (same.symm.foldClosed closed)
  · intro forced calls closed
    exact forced calls (same.foldClosed closed)

/-- Calls that are built from constants alone have the same values. -/
theorem denotes_of_closure {scope : Scope} {id : NodeId} {value : Value}
    (forced : id ∈ graph.constantClosure policy) (denotes : Denotes meaning graph scope id value) :
    Denotes meaning other scope id value := by
  refine forced { id | ∀ value, Denotes meaning graph scope id value →
    Denotes meaning other scope id value } ?_ value denotes
  intro id node found candidate operands value denotes
  have noLoop : node.loop? = none := Node.loop?_eq_none_of_kind (by simp [candidate.kind])
  obtain ⟨values, reads, computed⟩ := denotes.values_of_plain found noLoop
  obtain ⟨alike, foundAlike, hollow⟩ := same.exists_alike found
  have kind : alike.kind = .call := (Node.kind_eq_of_hollow hollow).trans candidate.kind
  have inputs : alike.inputs = node.inputs := Node.inputs_eq_of_hollow hollow
  have content : alike.content = node.content :=
    Node.content_eq_of_hollow hollow (by simp [candidate.kind])
  refine @Denotes.plain _ _ _ _ _ _ values foundAlike ?_ ?_
  · intro input isRead
    have isInput : input ∈ node.inputs := inputs ▸ alike.reads_subset_inputs isRead
    have known := reads input (by simpa [Node.reads, candidate.kind] using isInput)
    rcases operands input isInput with ⟨operand, foundOperand, constant⟩ | called
    · obtain ⟨literal, foundLiteral, hollowLiteral⟩ := same.exists_alike foundOperand
      have literalKind := (Node.kind_eq_of_hollow hollowLiteral).trans constant
      have held : literal.content = operand.content :=
        Node.content_eq_of_hollow hollowLiteral (by simp [constant])
      rw [known.deterministic (.of_constant foundOperand constant), ← held]
      exact .of_constant foundLiteral literalKind
    · exact called _ known
  · rw [Node.valueFrom_call kind, inputs, content, ← computed,
      Node.valueFrom_call candidate.kind]

theorem calculable (distinct : graph.ids.Nodup) (calculable : graph.Calculable meaning policy) :
    other.Calculable meaning policy where
  decided := by
    intro alike member kind inputs
    obtain ⟨node, found, hollow⟩ := same.symm.exists_alike
      (find?_of_mem (same.ids.nodup_iff.mpr distinct) member)
    rw [← Node.inputs_eq_of_hollow hollow] at inputs
    rw [← Node.content_eq_of_hollow hollow (by simp [kind])]
    exact calculable.decided node (mem_of_find? found).1
      ((Node.kind_eq_of_hollow hollow).trans kind) inputs
  valued := by
    intro id forced
    rw [same.constantClosure_eq] at forced
    obtain ⟨value, denotes⟩ := calculable.valued id forced
    exact ⟨value, fun scope => same.denotes_of_closure forced (denotes scope)⟩

end SameLevel

section Order

variable {meaning : Interpretation} {policy : FoldPolicy} {graph other : Graph}

theorem FoldsClosure.removedCalls_eq {place : NodeId → NodeId}
    (folds : graph.FoldsClosure meaning policy other place) :
    graph.removedCalls other = graph.constantClosure policy := by
  apply Set.Subset.antisymm
  · intro id removed calls closed
    exact folds.least.2 closed removed
  · intro id forced
    exact forced _ folds.least.1

/-- The calls that the graph at the end of a path loses. -/
def removedAt (graph other : Graph) (path : List NodeId) : Set NodeId :=
  { id | ∃ body rest, graph.within? path = some body ∧ other.within? path = some rest ∧
    id ∈ body.removedCalls rest }

theorem FoldTo.mem_removedAt (passes : graph.FoldTo meaning policy other)
    (returns : meaning.ReturnsNoLoop) {path : List NodeId} {id : NodeId} :
    id ∈ graph.removedAt other path ↔
      ∃ body, graph.within? path = some body ∧ id ∈ body.constantClosure policy := by
  have closure : ∀ body, graph.within? path = some body → ∃ rest,
      other.within? path = some rest ∧ body.removedCalls rest = body.constantClosure policy := by
    intro body reached
    obtain ⟨rest, reachedRest, bodyPasses⟩ := exists_partner (passes.within returns path) reached
    obtain ⟨place, folds⟩ := bodyPasses.foldsClosure returns
    exact ⟨rest, reachedRest, folds.removedCalls_eq⟩
  constructor
  · rintro ⟨body, rest, reached, reachedRest, removed⟩
    obtain ⟨again, reachedAgain, same⟩ := closure body reached
    cases reachedRest.symm.trans reachedAgain
    exact ⟨body, reached, same ▸ removed⟩
  · rintro ⟨body, reached, forced⟩
    obtain ⟨rest, reachedRest, same⟩ := closure body reached
    exact ⟨body, rest, reached, reachedRest, same ▸ forced⟩

/-- Folding succeeds on every order of the nodes if it does on one. -/
theorem FoldTo.rearranged (passes : graph.FoldTo meaning policy other)
    (returns : meaning.ReturnsNoLoop) {shuffled : Graph} (rearranges : graph.Rearranges shuffled) :
    ∃ folded, shuffled.FoldTo meaning policy folded := by
  have calculable := passes.calculable returns
  have exact := rearranges.everywhere (fun _ _ same => same.exact) passes.exact
  have numbered := rearranges.everywhere (fun _ _ same => same.numbered) passes.numbered
  have needed : graph.Everywhere fun body => body.ids.Nodup ∧ body.Calculable meaning policy :=
    fun path body reached =>
      ⟨(passes.exact path body reached).distinct, calculable path body reached⟩
  have shuffledNeeded := rearranges.everywhere (fun _ _ same here =>
    And.intro (same.ids.nodup_iff.mpr here.1) (same.calculable here.1 here.2)) needed
  obtain ⟨⟨folded, count⟩, done⟩ := foldedAll_succeeds returns exact numbered
    (shuffledNeeded.mono fun _ here => here.2)
  exact ⟨folded, exact, numbered, count, done⟩

theorem FoldTo.removedAt_eq (passes : graph.FoldTo meaning policy other)
    (returns : meaning.ReturnsNoLoop) {shuffled folded : Graph}
    (shuffledPasses : shuffled.FoldTo meaning policy folded)
    (rearranges : graph.Rearranges shuffled) (path : List NodeId) :
    shuffled.removedAt folded path = graph.removedAt other path := by
  ext id
  rw [passes.mem_removedAt returns, shuffledPasses.mem_removedAt returns]
  have related := rearranges path
  generalize graph.within? path = before at related
  generalize shuffled.within? path = after at related
  cases related with
  | none => exact Iff.rfl
  | some same => simp [same.constantClosure_eq]

end Order

/-- Folding takes exactly the least closed set of calls out of the graph and of every body
inside it, and its answer is the number of these calls.  On every other order of the nodes it
succeeds as well, and takes out the same calls. -/
theorem foldConstants_removes_closure {meaning : Interpretation} {policy : FoldPolicy}
    (returns : meaning.ReturnsNoLoop) {graph : Graph} (valid : graph.validate = .ok ())
    (tidy : graph.Everywhere Tidy)
    (loops : graph.Everywhere fun body =>
      ∀ node ∈ body.nodes, node.kind = .loop ↔ ∃ loop, node.content = .loop loop)
    {count : Nat} (done : (graph.foldConstants meaning policy).answer = .ok count) :
    (∀ path, Option.Rel (fun body rest => ∃ place, body.FoldsClosure meaning policy rest place)
      (graph.within? path) ((graph.foldConstants meaning policy).graph.within? path)) ∧
    count = (graph.nest.map fun body => (body.constantClosure policy).ncard).sum ∧
    ∀ shuffled, graph.Rearranges shuffled →
      (shuffled.foldConstants meaning policy).answer = .ok count ∧
      ∀ path, shuffled.removedAt (shuffled.foldConstants meaning policy).graph path =
        graph.removedAt (graph.foldConstants meaning policy).graph path := by
  have distinct := tidy.mono fun _ here => here.distinct
  have exact : graph.Everywhere Exact := by
    intro path body reached
    have closed := closed_of_valid valid distinct
      (loops.mono fun _ exactly node member => (exactly node member).mp) path body reached
    exact ⟨closed, fun node member loop content =>
      (loops path body reached node member).mpr ⟨loop, content⟩⟩
  have numbered : graph.Everywhere Numbered := tidy.mono fun _ here => here.numbered
  have folded := foldConstants_eq_ok done
  have passes : graph.FoldTo meaning policy (graph.foldConstants meaning policy).graph :=
    ⟨exact, numbered, count, folded⟩
  have size := foldedAll_count returns exact numbered folded
  refine ⟨?_, size, ?_⟩
  · intro path
    exact rel_mono (passes.within returns path) fun _ _ _ _ bodyPasses =>
      bodyPasses.foldsClosure returns
  · intro shuffled rearranges
    obtain ⟨other, shuffledPasses⟩ := passes.rearranged returns rearranges
    obtain ⟨folds, shuffledDone⟩ := shuffledPasses.done
    rw [foldConstants_of_foldedAll shuffledDone]
    refine ⟨?_, passes.removedAt_eq returns shuffledPasses rearranges⟩
    rw [foldedAll_count returns shuffledPasses.exact shuffledPasses.numbered shuffledDone, size]
    exact congrArg Except.ok (rearranges.sum_nest
      (fun _ _ same => by rw [same.constantClosure_eq]) distinct)

end Graph

/-- A body with a call of constants, and a call of that call. -/
def layeredBody : Graph :=
  ⟨[⟨0, .external, .text "x", [], .null⟩, ⟨1, .constant, .int 5, [], .null⟩,
      ⟨2, .call, .text "+", [1, 1], .null⟩, ⟨3, .call, .text "+", [0, 2], .null⟩],
    [("y", 3)], 4⟩

/-- Calls of constants, one of which needs the other that comes after it. -/
def layered : Graph :=
  ⟨[⟨0, .constant, .int 1, [], .null⟩, ⟨2, .call, .text "*", [1, 0], .null⟩,
      ⟨1, .call, .text "+", [0, 0], .null⟩,
      ⟨3, .loop, .loop ⟨0, "i", layeredBody, [(0, 2)]⟩, [], .null⟩],
    [("total", 2)], 4⟩

theorem everywhere_layered {property : Graph → Prop} (here : property layered)
    (inside : property layeredBody) : layered.Everywhere property :=
  Graph.everywhere_of_body here inside (by simp [layered, Node.loop?, Value.loop?])
    (by simp [layeredBody, Node.loop?])

theorem layered_removes_closure :
    (layered.foldConstants adding .standard).answer = .ok 3 ∧
      (∃ place, layered.FoldsClosure adding .standard
        (layered.foldConstants adding .standard).graph place) ∧
      (layered.nest.map fun body => (body.constantClosure .standard).ncard).sum = 3 ∧
      (Graph.foldConstants adding .standard
        ⟨layered.nodes.reverse, layered.exits, layered.nextId⟩).answer = .ok 3 := by
  have folds : (layered.foldConstants adding .standard).answer.toOption = some 3 := by
    decide +kernel
  have done : (layered.foldConstants adding .standard).answer = .ok 3 := by
    cases answer : (layered.foldConstants adding .standard).answer with
    | error fault =>
        rw [answer] at folds
        cases folds
    | ok count =>
        rw [answer] at folds
        cases folds
        rfl
  have tidy : layered.Everywhere Graph.Tidy := by
    refine everywhere_layered ?_ ?_
    · exact ⟨by decide, by unfold Graph.Numbered; decide⟩
    · exact ⟨by decide, by unfold Graph.Numbered; decide⟩
  obtain ⟨levels, size, orders⟩ := Graph.foldConstants_removes_closure adding_returnsNoLoop rfl
    tidy (everywhere_layered (by simp [layered]) (by simp [layeredBody])) done
  have here := levels []
  have reversed := orders _ (Graph.rearranges_of_perm (by decide) (List.reverse_perm _))
  refine ⟨done, ?_, size.symm, reversed.1⟩
  cases here with
  | some folds => exact folds

end FlowGraph

import FlowGraph.Proofs.ConstantClosure

/-!
# What a fold policy binds

A policy lists operations by name, and looks the content of a call up among the names.  The
registry takes the text of the content for the name.  The two agree on a content that is a
text, and what cannot be looked up at all stops folding; any other content that has the text
of a listed operation is folded all the same.  Calls that the policy refuses stay where they
are, and where it refuses all calls of listed operations, folding asks the registry for none
of them.
-/

namespace FlowGraph

/-- A content in which a policy and a registry read the same operation, or in which a policy
can read none. -/
def Value.ReadAlike (content : Value) : Prop :=
  (∃ name, content = .text name) ∨ content.isHashable = false

/-- The policy lists the operation that a call of this content runs. -/
def FoldPolicy.Lists (policy : FoldPolicy) (content : Value) : Prop :=
  content.plain ∈ policy.nonFoldable

theorem FoldPolicy.refuses_iff {policy : FoldPolicy} {content : Value}
    (listed : policy.Lists content) : policy.allows content ≠ .ok true ↔ content.ReadAlike := by
  cases content
  case text name =>
    have known : name ∈ policy.nonFoldable := listed
    refine iff_of_true ?_ (.inl ⟨name, rfl⟩)
    simp [allows, Value.isHashable, Value.asText?, known]
  all_goals
    simp only [allows, Value.asText?, Value.ReadAlike, reduceCtorEq, exists_false, false_or]
    split <;> simp_all

namespace Graph

section Sparing

/-- Folds have left the nodes alone that are neither constants nor calls that may be folded:
they name the places of what they named. -/
structure Spares (policy : FoldPolicy) (graph : Graph) (place : NodeId → NodeId)
    (current : Graph) : Prop where
  tidy : current.Everywhere Tidy
  kept : ∀ id node, graph.find? id = some node → node.kind ≠ .constant →
    ¬ node.Candidate policy → current.find? id = some (node.moved place)

variable {policy : FoldPolicy} {graph current : Graph} {place : NodeId → NodeId}

theorem Spares.refl (tidy : graph.Everywhere Tidy) : graph.Spares policy (fun id => id) graph where
  tidy := tidy
  kept := by
    intro id node found _ _
    rw [Node.moved_id]
    exact found

/-- A fold takes out the call and operands of it only. -/
theorem find?_foldedCall {call node : Node} {value : Value} (tidy : graph.Tidy) {id : NodeId}
    (found : graph.find? id = some node) (different : id ≠ call.id) (unread : id ∉ call.inputs) :
    (graph.foldedCall call value).find? id = some (node.fused graph.nextId call.id) := by
  obtain ⟨member, rfl⟩ := mem_of_find? found
  have merged : node.fused graph.nextId call.id ∈
      ((graph.extended .constant value []).fused graph.nextId call.id).nodes :=
    mem_fused_nodes.mpr ⟨node, old_mem_extended tidy.numbered.fresh member, different, rfl⟩
  have stays : node.fused graph.nextId call.id ∈ (graph.foldedCall call value).nodes :=
    mem_dropOrphans.mpr ⟨merged, fun read => absurd read unread⟩
  exact find?_of_mem (foldedCall_distinct tidy.numbered tidy.distinct) stays

theorem Spares.step (stage : graph.Spares policy place current) {call : Node} (value : Value)
    (member : call ∈ current.nodes) (foldable : isFoldable current policy call = .ok true) :
    graph.Spares policy (fun id => redirect current.nextId call.id (place id))
      (current.foldedCall call value) where
  tidy := tidy_foldedCall stage.tidy
  kept := by
    intro id node found computed spared
    obtain ⟨candidate, constants⟩ := isFoldable_eq_true_iff.mp foldable
    have foundMoved := stage.kept id node found computed spared
    have different : id ≠ call.id := by
      rintro rfl
      have foundCall := find?_of_mem stage.tidy.here.distinct member
      cases foundCall.symm.trans foundMoved
      exact spared (Node.candidate_moved.mp candidate)
    have unread : id ∉ call.inputs := by
      intro isInput
      obtain ⟨operand, foundOperand, constant⟩ := constants id isInput
      cases foundMoved.symm.trans foundOperand
      exact computed constant
    rw [find?_foldedCall stage.tidy.here foundMoved different unread, Node.fused_moved]

theorem exists_spares_of_foldCalls {meaning : Interpretation} {fuel count : Nat} {level : Graph}
    (tidy : graph.Everywhere Tidy)
    (done : foldCalls meaning policy fuel graph = .ok (level, count)) :
    ∃ place, graph.Spares policy place level := by
  apply foldCalls_invariant _ ⟨_, .refl tidy⟩ done
  rintro current call value ⟨place, stage⟩ member foldable
  exact ⟨_, stage.step value member foldable⟩

end Sparing

section Nest

variable {meaning : Interpretation} {policy : FoldPolicy} {graph other : Graph} {count : Nat}
  (tidy : graph.Everywhere Tidy) (done : graph.foldedAll meaning policy = .ok (other, count))
include tidy done

theorem exists_spares :
    ∃ level place, graph.Spares policy place level ∧
      List.Forall₂ (Node.Revised (Loop.ReplacedBy fun body changed =>
        ∃ inner, body.foldedAll meaning policy = .ok (changed, inner))) level.nodes other.nodes := by
  rw [foldedAll_eq] at done
  obtain ⟨⟨level, folds⟩, levelDone, afterLevel⟩ := bind_eq_ok.mp done
  obtain ⟨⟨nodes, inner⟩, bodiesDone, ends⟩ := bind_eq_ok.mp afterLevel
  cases ends
  obtain ⟨place, stage⟩ := exists_spares_of_foldCalls tidy levelDone
  refine ⟨level, place, stage, ?_⟩
  exact foldBodies_replaced (fun _ _ _ _ _ inside visited => ⟨inside, visited⟩) bodiesDone

/-- A call that the policy refuses stays where it is. -/
theorem exists_kept_call {id : NodeId} {node : Node} (found : graph.find? id = some node)
    (kind : node.kind = .call) (refused : policy.allows node.content ≠ .ok true) :
    ∃ kept, other.find? id = some kept ∧ kept.kind = .call ∧ kept.content = node.content := by
  obtain ⟨level, place, stage, revised⟩ := exists_spares tidy done
  have noLoop : node.loop? = none := Node.loop?_eq_none_of_kind (by simp [kind])
  have foundMoved := stage.kept id node found (by simp [kind]) fun candidate =>
    refused candidate.allowed
  obtain ⟨kept, foundKept, changed⟩ := exists_partner (find?_revised revised id) foundMoved
  have movedKind : (node.moved place).kind = .call := kind
  refine ⟨kept, foundKept, changed.kind_eq.trans movedKind, ?_⟩
  rw [changed.content_eq (by simp [movedKind]), Node.moved_content noLoop]

/-- Every loop stays where it is, and its body is folded like the graph itself. -/
theorem exists_folded_within {path : List NodeId} {body : Graph}
    (reached : graph.within? path = some body) :
    ∃ rest inner, other.within? path = some rest ∧
      body.foldedAll meaning policy = .ok (rest, inner) := by
  induction path generalizing graph other count with
  | nil =>
      cases reached
      exact ⟨other, count, rfl, done⟩
  | cons id path induction =>
      obtain ⟨node, loop, found, runs, deeper⟩ := within?_cons.mp reached
      obtain ⟨level, place, stage, revised⟩ := exists_spares tidy done
      have kind := (Node.loop?_eq_some.mp runs).1
      have foundMoved := stage.kept id node found (by simp [kind]) fun candidate =>
        absurd candidate.kind (by simp [kind])
      obtain ⟨kept, foundKept, changed⟩ := exists_partner (find?_revised revised id) foundMoved
      obtain ⟨replaced, runsKept, passed⟩ := changed.exists_loop (Node.moved_loop? runs)
      obtain ⟨inside, folded⟩ := passed.body
      obtain ⟨rest, inner, reachedRest, bodyFolded⟩ :=
        induction (tidy.body found runs) folded deeper
      exact ⟨rest, inner, within?_cons.mpr ⟨kept, replaced, foundKept, runsKept, reachedRest⟩,
        bodyFolded⟩

end Nest

section Requests

variable {policy : FoldPolicy}

/-- Folding a graph asks for the value of an operation: at the first call that can be folded,
in what a fold leaves, or in the body of a loop when no call is left to fold. -/
inductive Asks (meaning : Interpretation) (policy : FoldPolicy) :
    Graph → String → List Value → Prop where
  | call {graph : Graph} {node : Node} {operands : List Value}
      (chosen : firstFoldable graph policy graph.nodes = .ok (some node))
      (read : contentsOf graph node.inputs = .ok operands) :
      Asks meaning policy graph node.content.plain operands
  | next {graph folded : Graph} {node : Node} {name : String} {operands : List Value}
      (chosen : firstFoldable graph policy graph.nodes = .ok (some node))
      (folds : foldNode meaning graph node = .ok folded)
      (later : Asks meaning policy folded name operands) : Asks meaning policy graph name operands
  | body {graph level : Graph} {count : Nat} {node : Node} {loop : Loop} {name : String}
      {operands : List Value}
      (levelDone : foldCalls meaning policy (callCount graph.nodes) graph = .ok (level, count))
      (member : node ∈ level.nodes) (runs : node.loop? = some loop)
      (inside : Asks meaning policy loop.body name operands) : Asks meaning policy graph name operands

/-- Two interpretations agree on all that folding with the first one asks for. -/
def AgreeOnAsked (first second : Interpretation) (policy : FoldPolicy) (graph : Graph) : Prop :=
  ∀ name operands, graph.Asks first policy name operands →
    first.call name operands = second.call name operands

section Agreement

variable {first second : Interpretation} {graph : Graph}

theorem foldNode_congr {node : Node}
    (same : ∀ operands, contentsOf graph node.inputs = .ok operands →
      first.call node.content.plain operands = second.call node.content.plain operands) :
    foldNode first graph node = foldNode second graph node := by
  unfold foldNode
  cases read : contentsOf graph node.inputs with
  | error fault => rfl
  | ok operands => simp only [bind, Except.bind, same operands read]

theorem foldCalls_congr (agree : graph.AgreeOnAsked first second policy) (fuel : Nat) :
    foldCalls first policy fuel graph = foldCalls second policy fuel graph := by
  induction fuel generalizing graph with
  | zero => rfl
  | succ fuel induction =>
      rw [foldCalls, foldCalls]
      cases chosen : firstFoldable graph policy graph.nodes with
      | error fault => rfl
      | ok choice =>
          cases choice with
          | none => rfl
          | some node =>
              have sameFold : foldNode first graph node = foldNode second graph node :=
                foldNode_congr fun operands read => agree _ operands (.call chosen read)
              simp only [bind, Except.bind, ← sameFold]
              cases folds : foldNode first graph node with
              | error fault => rfl
              | ok folded =>
                  have rest := induction fun name operands asks =>
                    agree name operands (.next chosen folds asks)
                  simp only [rest]

/-- Folding depends on an interpretation only through what it asks for. -/
theorem foldedAll_congr (agree : graph.AgreeOnAsked first second policy) :
    graph.foldedAll first policy = graph.foldedAll second policy := by
  induction graph using bodyInduction with
  | step graph induction =>
      rw [foldedAll_eq, foldedAll_eq, foldWith, foldWith, ← foldCalls_congr agree]
      cases levelDone : foldCalls first policy (callCount graph.nodes) graph with
      | error fault => rfl
      | ok result =>
          obtain ⟨level, count⟩ := result
          have bodies : level.Bodies fun body => body.AgreeOnAsked first second policy →
              body.foldedAll first policy = body.foldedAll second policy :=
            foldCalls_keeps (fun _ _ _ => bodies_foldedCall) induction levelDone
          have sameBodies := foldBodies_congr fun node member loop runs =>
            bodies node member loop runs fun name operands asks =>
              agree name operands (.body levelDone member runs asks)
          simp only [bind, Except.bind, sameBodies]

theorem foldConstants_congr (agree : graph.AgreeOnAsked first second policy) :
    graph.foldConstants first policy = graph.foldConstants second policy := by
  have same := foldedAll_congr agree
  unfold foldedAll at same
  rw [foldConstants_eq, foldConstants_eq]
  rw [same]

end Agreement

/-- The policy reads all calls, with operands, of operations that it lists. -/
def ReadsListed (policy : FoldPolicy) (graph : Graph) : Prop :=
  ∀ node ∈ graph.nodes, node.kind = .call → node.inputs ≠ [] → policy.Lists node.content →
    node.content.ReadAlike

theorem readsListed_foldedCall {graph : Graph} {call : Node} {value : Value}
    (reads : graph.ReadsListed policy) : (graph.foldedCall call value).ReadsListed policy := by
  intro node member kind inputs
  obtain ⟨original, inExtended, _, rfl⟩ := mem_fused_nodes.mp (mem_of_foldedCall member)
  have originalKind : original.kind = .call := kind
  rw [Node.fused_content (Node.loop?_eq_none_of_kind (by simp [originalKind]))]
  rcases old_or_new_node inExtended with old | rfl
  · exact reads original old originalKind (by simpa [Node.fused] using inputs)
  · cases originalKind

/-- Where the policy reads all calls of operations that it lists, none of these is asked for. -/
theorem Asks.unlisted {meaning : Interpretation} {graph : Graph} {name : String}
    {operands : List Value} (asks : graph.Asks meaning policy name operands)
    (tidy : graph.Everywhere Tidy) (reads : graph.Everywhere (ReadsListed policy)) :
    name ∉ policy.nonFoldable := by
  induction asks with
  | call chosen read =>
      obtain ⟨member, foldable⟩ := isFoldable_of_firstFoldable chosen
      obtain ⟨candidate, _⟩ := isFoldable_eq_true_iff.mp foldable
      intro listed
      have alike := reads.here _ member candidate.kind candidate.inputs listed
      exact (FoldPolicy.refuses_iff listed).mpr alike candidate.allowed
  | next chosen folds later induction =>
      obtain ⟨_, value, _, _, rfl⟩ := foldNode_eq_ok folds
      apply induction (tidy_foldedCall tidy)
      refine everywhere_of_bodies (readsListed_foldedCall reads.here) ?_
      exact bodies_foldedCall (reads.bodies tidy.here.distinct)
  | @body graph level count node loop name operands levelDone member runs inside induction =>
      have start : graph.Bodies fun body =>
          body.Everywhere Tidy ∧ body.Everywhere (ReadsListed policy) := by
        intro node member loop runs
        have found := find?_of_mem tidy.here.distinct member
        exact ⟨tidy.body found runs, reads.body found runs⟩
      have bodies : level.Bodies fun body =>
          body.Everywhere Tidy ∧ body.Everywhere (ReadsListed policy) :=
        foldCalls_keeps (fun _ _ _ => bodies_foldedCall) start levelDone
      obtain ⟨bodyTidy, bodyReads⟩ := bodies node member loop runs
      exact induction bodyTidy bodyReads

end Requests

end Graph

/-- One constant and one call of it. -/
def loneCall (content : Value) : Graph :=
  ⟨[⟨0, .constant, .null, [], .null⟩, ⟨1, .call, content, [0], .null⟩], [("result", 1)], 2⟩

/-- Every operation gives one value, whatever the operands are. -/
def answering (answers : String → Value) : Interpretation where
  call := fun name _ => .ok (answers name)
  lookup := fun name => .error (.unresolvedName name)
  element := Value.element
  field := Value.field

/-- An operation that gives another value than all others. -/
def zerosApart : Interpretation :=
  answering fun name => if name = "zeros" then .bool true else .null

theorem zerosApart_agrees {name : String} (unlisted : name ∉ FoldPolicy.standard.nonFoldable)
    (operands : List Value) :
    (answering fun _ => .null).call name operands = zerosApart.call name operands := by
  have different : name ≠ "zeros" := by
    rintro rfl
    exact unlisted (by decide)
  simp [zerosApart, answering, different]

section LoneCall

variable {policy : FoldPolicy} {content : Value}

theorem loneCall_innermost (content : Value) :
    ∀ node ∈ (loneCall content).nodes, node.loop? = none := by
  simp [loneCall, Node.loop?]

theorem loneCall_tidy (content : Value) : (loneCall content).Everywhere Graph.Tidy := by
  refine Graph.everywhere_of_innermost (loneCall_innermost content) ⟨?_, ?_⟩
  · simp [loneCall, Graph.ids]
  · intro id present
    have cases : id = 0 ∨ id = 1 := by simpa [loneCall, Graph.ids] using present
    rcases cases with rfl | rfl <;> simp [loneCall]

variable (allowed : policy.allows content = .ok true)
include allowed

theorem loneCall_chosen :
    firstFoldable (loneCall content) policy (loneCall content).nodes =
      .ok (some ⟨1, .call, content, [0], .null⟩) := by
  have second : isFoldable (loneCall content) policy ⟨1, .call, content, [0], .null⟩ = .ok true := by
    apply isFoldable_eq_true_iff.mpr
    refine ⟨⟨rfl, by simp, allowed⟩, ?_⟩
    intro id isInput
    rw [List.mem_singleton.mp isInput]
    exact ⟨⟨0, .constant, .null, [], .null⟩, rfl, rfl⟩
  refine bind_eq_ok.mpr ⟨false, rfl, ?_⟩
  exact bind_eq_ok.mpr ⟨true, second, rfl⟩

/-- A call that the policy allows gives way to whatever the operation answers. -/
theorem foldConstants_loneCall {answers : String → Value}
    (noLoop : ∀ loop, answers content.plain ≠ .loop loop) :
    (loneCall content).foldConstants (answering answers) policy =
      ⟨⟨[⟨2, .constant, answers content.plain, [], unsetResult⟩], [("result", 2)], 3⟩, .ok 1⟩ := by
  have tidy := (loneCall_tidy content).here
  have carried : ∀ node ∈ (loneCall content).nodes, node.kind = .loop →
      ∃ loop, node.content = .loop loop := by
    simp [loneCall]
  have folds : foldNode (answering answers) (loneCall content) ⟨1, .call, content, [0], .null⟩ =
      .ok ((loneCall content).foldedCall ⟨1, .call, content, [0], .null⟩ (answers content.plain)) :=
    foldNode_of_call tidy.distinct carried tidy.numbered (by simp [loneCall]) rfl rfl noLoop
  have level : (loneCall content).foldedCall ⟨1, .call, content, [0], .null⟩
        (answers content.plain) =
      ⟨[⟨2, .constant, answers content.plain, [], unsetResult⟩], [("result", 2)], 3⟩ := by
    simp [Graph.foldedCall, dropOrphans, isReferenced, Graph.extended, Graph.insertNode,
      Graph.contains, Graph.fused, Node.fused, loneCall, redirect, Node.loop?, Node.dependencies]
  rw [level] at folds
  have calls : foldCalls (answering answers) policy 1 (loneCall content) = .ok (_, 1) :=
    bind_eq_ok.mpr ⟨_, loneCall_chosen allowed, bind_eq_ok.mpr ⟨_, folds, rfl⟩⟩
  apply Graph.foldConstants_of_foldedAll
  rw [Graph.foldedAll_eq]
  exact bind_eq_ok.mpr ⟨_, calls, rfl⟩

end LoneCall

/-- The calls of a content stay calls of that content in every graph and at every depth,
whatever the operations are. -/
def FoldPolicy.Keeps (policy : FoldPolicy) (content : Value) : Prop :=
  ∀ (meaning : Interpretation) (graph : Graph) (count : Nat), graph.Everywhere Graph.Tidy →
    (graph.foldConstants meaning policy).answer = .ok count →
    ∀ path body id node, graph.within? path = some body → body.find? id = some node →
      node.kind = .call → node.content = content →
      ∃ rest kept, (graph.foldConstants meaning policy).graph.within? path = some rest ∧
        rest.find? id = some kept ∧ kept.kind = .call ∧ kept.content = content

theorem FoldPolicy.keeps_of_refused {policy : FoldPolicy} {content : Value}
    (refused : policy.allows content ≠ .ok true) : policy.Keeps content := by
  intro meaning graph count tidy done path body id node reached found kind same
  obtain ⟨rest, inner, reachedRest, bodyDone⟩ :=
    Graph.exists_folded_within tidy (Graph.foldConstants_eq_ok done) reached
  obtain ⟨kept, foundKept, keptKind, keptContent⟩ :=
    Graph.exists_kept_call (tidy.inside reached) bodyDone found kind (same ▸ refused)
  exact ⟨rest, kept, reachedRest, foundKept, keptKind, keptContent.trans same⟩

/-- A content that the policy allows is folded where it is called with a constant. -/
theorem FoldPolicy.refused_of_keeps {policy : FoldPolicy} {content : Value}
    (keeps : policy.Keeps content) : policy.allows content ≠ .ok true := by
  intro allowed
  have folded := @foldConstants_loneCall policy content allowed (fun _ => .null) (by simp)
  obtain ⟨rest, kept, reached, found, _⟩ := keeps _ (loneCall content) 1
    (loneCall_tidy content) (by rw [folded]) [] _ 1 ⟨1, .call, content, [0], .null⟩ rfl rfl rfl rfl
  rw [folded] at reached
  cases reached
  cases found

/-- The calls of a listed operation are sure to stay calls exactly when their content is a
text, or cannot be looked up at all.  In a graph where this holds of all calls with operands
of listed operations, folding asks for none of these operations, so interpretations that
agree on all others lead to the same graph and the same answer. -/
theorem fold_policy_binds_iff (policy : FoldPolicy) :
    (∀ content, content.plain ∈ policy.nonFoldable →
      (policy.Keeps content ↔ (∃ name, content = .text name) ∨ content.isHashable = false)) ∧
    ∀ graph : Graph, graph.Everywhere Graph.Tidy →
      graph.Everywhere (fun body => ∀ node ∈ body.nodes, node.kind = .call → node.inputs ≠ [] →
        node.content.plain ∈ policy.nonFoldable →
        (∃ name, node.content = .text name) ∨ node.content.isHashable = false) →
      (∀ meaning name operands, graph.Asks meaning policy name operands →
        name ∉ policy.nonFoldable) ∧
      ∀ first second : Interpretation,
        (∀ name, name ∉ policy.nonFoldable → ∀ operands,
          first.call name operands = second.call name operands) →
        graph.foldConstants first policy = graph.foldConstants second policy := by
  constructor
  · intro content listed
    rw [← Value.ReadAlike, ← FoldPolicy.refuses_iff listed]
    exact ⟨FoldPolicy.refused_of_keeps, FoldPolicy.keeps_of_refused⟩
  · intro graph tidy reads
    have unlisted : ∀ meaning name operands, graph.Asks meaning policy name operands →
        name ∉ policy.nonFoldable :=
      fun meaning name operands asks => asks.unlisted tidy reads
    refine ⟨unlisted, fun first second agree => ?_⟩
    apply Graph.foldConstants_congr
    intro name operands asks
    exact agree name (unlisted first name operands asks) operands

/-- A symbol has the text of a listed operation and is folded: the operation is asked for,
the call is gone, and what comes into its place is for the operation to say. -/
theorem fold_runs_listed_operation :
    (Value.symbol "zeros").plain ∈ FoldPolicy.standard.nonFoldable ∧
    (loneCall (.symbol "zeros")).Everywhere Graph.Tidy ∧
    (loneCall (.symbol "zeros")).Asks (answering fun _ => .null) .standard "zeros" [.null] ∧
    ((loneCall (.symbol "zeros")).foldConstants (answering fun _ => .null) .standard).answer =
      .ok 1 ∧
    ((loneCall (.symbol "zeros")).foldConstants (answering fun _ => .null) .standard).graph.ids =
      [2] ∧
    ∃ second : Interpretation,
      (∀ name, name ∉ FoldPolicy.standard.nonFoldable → ∀ operands,
        (answering fun _ => .null).call name operands = second.call name operands) ∧
      (loneCall (.symbol "zeros")).foldConstants (answering fun _ => .null) .standard ≠
        (loneCall (.symbol "zeros")).foldConstants second .standard := by
  have allowed : FoldPolicy.standard.allows (.symbol "zeros") = .ok true := rfl
  have first := @foldConstants_loneCall _ _ allowed (fun _ => .null) (by simp)
  have second := @foldConstants_loneCall _ _ allowed
    (fun name => if name = "zeros" then .bool true else .null) (by simp [Value.plain])
  refine ⟨by decide, loneCall_tidy _, .call (loneCall_chosen allowed) rfl, ?_, ?_,
    zerosApart, fun name => zerosApart_agrees, ?_⟩
  · rw [first]
  · rw [first]
    rfl
  · rw [first, zerosApart, second]
    intro same
    have contents := congrArg (fun outcome => outcome.graph.nodes.map Node.content) same
    simp [Value.plain] at contents

/-- The same call with a text for its content stays, and is not for the operation to say. -/
theorem loneCall_kept_by_policy :
    ((loneCall (.text "zeros")).foldConstants (answering fun _ => .null) .standard).answer =
      .ok 0 ∧
    (∃ kept, ((loneCall (.text "zeros")).foldConstants (answering fun _ => .null)
        .standard).graph.find? 1 = some kept ∧ kept.kind = .call ∧ kept.content = .text "zeros") ∧
    (loneCall (.text "zeros")).foldConstants (answering fun _ => .null) .standard =
      (loneCall (.text "zeros")).foldConstants zerosApart .standard := by
  obtain ⟨bound, unasked⟩ := fold_policy_binds_iff .standard
  have done : ((loneCall (.text "zeros")).foldConstants (answering fun _ => .null)
      .standard).answer = .ok 0 := rfl
  have keeps := (bound (.text "zeros") (by decide)).mpr (.inl ⟨_, rfl⟩)
  obtain ⟨rest, kept, reached, found, kind, content⟩ := keeps _ _ 0 (loneCall_tidy _) done []
    _ 1 ⟨1, .call, .text "zeros", [0], .null⟩ rfl rfl rfl rfl
  cases reached
  refine ⟨done, ⟨kept, found, kind, content⟩, ?_⟩
  refine (unasked _ (loneCall_tidy _) ?_).2 _ _ ?_
  · refine Graph.everywhere_of_innermost (loneCall_innermost _) ?_
    intro node member kind _ _
    have cases : node = ⟨0, .constant, .null, [], .null⟩ ∨
        node = ⟨1, .call, .text "zeros", [0], .null⟩ := by
      simpa [loneCall] using member
    rcases cases with rfl | rfl
    · cases kind
    · exact .inl ⟨_, rfl⟩
  · exact fun name => zerosApart_agrees

end FlowGraph

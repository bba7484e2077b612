import FlowGraph.Graph.Split
import FlowGraph.Proofs.Simulation

/-!
# Splitting calls keeps denotations

A split gives all operands of a call but the first to a call of their own.  When
the operation may be regrouped like that, denotations pass through a split, and
neither names nor bindings are touched.
-/

namespace FlowGraph

/-- Operations that fold their operands may take the last ones first. -/
def Interpretation.Regroups (meaning : Interpretation) : Prop :=
  ∀ name ∈ foldingOperations, ∀ first second third rest value,
    meaning.call name (first :: second :: third :: rest) = .ok value →
    ∃ part, meaning.call name (second :: third :: rest) = .ok part ∧
      meaning.call name [first, part] = .ok value

theorem isFolding_iff {content : Value} :
    isFolding content = true ↔ ∃ name ∈ foldingOperations, content = .text name := by
  cases content <;> simp [isFolding, Value.asText?]

namespace Graph

/-- The graph in which a new call takes the last operands of a call. -/
def splitCall (graph : Graph) (call : Node) (first : NodeId) (others : List NodeId) : Graph :=
  (graph.extended .call call.content others).update call.id fun found =>
    { found with inputs := [first, graph.nextId] }

theorem find?_update {graph : Graph} {id target : NodeId} {change : Node → Node}
    (keeps : ∀ node, (change node).id = node.id) :
    (graph.update id change).find? target =
      (graph.find? target).map fun node => if node.id == id then change node else node := by
  unfold find? update
  rw [List.find?_map]
  have samePredicate : ((fun node : Node => node.id == target) ∘
      fun node => if node.id == id then change node else node) = fun node => node.id == target := by
    funext node
    simp only [Function.comp_apply]
    split <;> simp [keeps]
  rw [samePredicate]

/-- The nodes after a split: the new call, the call with two operands, and all others
as they were. -/
theorem find?_splitCall {graph : Graph} {call : Node} {first : NodeId} {others : List NodeId}
    (found : graph.find? call.id = some call) (fresh : graph.nextId ∉ graph.ids) (id : NodeId) :
    (graph.splitCall call first others).find? id =
      if id = graph.nextId then some ⟨graph.nextId, .call, call.content, others, unsetResult⟩
      else if id = call.id then some { call with inputs := [first, graph.nextId] }
      else graph.find? id := by
  have different : graph.nextId ≠ call.id := fun same => fresh (same ▸ mem_ids_of_find? found)
  unfold splitCall
  rw [find?_update, find?_extended]
  swap
  · exact fun _ => rfl
  by_cases isNew : id = graph.nextId
  · subst isNew
    simp [different]
  · rw [if_neg (Ne.symm isNew), if_neg isNew]
    by_cases isCall : id = call.id
    · subst isCall
      simp [found]
    · cases other : graph.find? id with
      | none => simp [isCall]
      | some node =>
          have numbered : node.id ≠ call.id := (mem_of_find? other).2 ▸ isCall
          simp [isCall, numbered]

theorem splitCall_ids {graph : Graph} {call : Node} {first : NodeId} {others : List NodeId} :
    (graph.splitCall call first others).ids = (graph.extended .call call.content others).ids := by
  unfold splitCall update ids
  rw [List.map_map]
  refine List.map_congr_left fun node _ => ?_
  simp only [Function.comp_apply]
  split <;> rfl

theorem splitCall_exits {graph : Graph} {call : Node} {first : NodeId} {others : List NodeId} :
    (graph.splitCall call first others).exits = graph.exits :=
  extended_exits

theorem splitCall_distinct {graph : Graph} {call : Node} {first : NodeId} {others : List NodeId}
    (numbered : graph.Numbered) (distinct : graph.ids.Nodup) :
    (graph.splitCall call first others).ids.Nodup := by
  rw [splitCall_ids]
  exact numbered.extended_distinct distinct

/-- One split: a call of an operation that folds its operands keeps the first one. -/
structure SplitsCall (graph : Graph) (call : Node) (name : String) (first : NodeId)
    (others : List NodeId) : Prop where
  found : graph.find? call.id = some call
  kind : call.kind = .call
  content : call.content = .text name
  folding : name ∈ foldingOperations
  inputs : ∃ second third rest, call.inputs = first :: others ∧ others = second :: third :: rest
  fresh : graph.nextId ∉ graph.ids

namespace SplitsCall

variable {graph : Graph} {call : Node} {name : String} {first : NodeId} {others : List NodeId}
  (splits : graph.SplitsCall call name first others)
include splits

theorem find?_part : (graph.splitCall call first others).find? graph.nextId =
    some ⟨graph.nextId, .call, call.content, others, unsetResult⟩ := by
  rw [find?_splitCall splits.found splits.fresh, if_pos rfl]

theorem find?_call : (graph.splitCall call first others).find? call.id =
    some { call with inputs := [first, graph.nextId] } := by
  have old : call.id ≠ graph.nextId := fun isNew =>
    splits.fresh (isNew ▸ mem_ids_of_find? splits.found)
  rw [find?_splitCall splits.found splits.fresh, if_neg old, if_pos rfl]

theorem find?_other {id : NodeId} {node : Node} (found : graph.find? id = some node)
    (notCall : id ≠ call.id) : (graph.splitCall call first others).find? id = some node := by
  have old : id ≠ graph.nextId := fun isNew => splits.fresh (isNew ▸ mem_ids_of_find? found)
  rw [find?_splitCall splits.found splits.fresh, if_neg old, if_neg notCall, found]

/-- The nodes after a split come from the graph, apart from the new call. -/
theorem node_cases {id : NodeId} {other : Node}
    (found : (graph.splitCall call first others).find? id = some other) :
    (id = graph.nextId ∧ other = ⟨graph.nextId, .call, call.content, others, unsetResult⟩) ∨
    (id = call.id ∧ other = { call with inputs := [first, graph.nextId] }) ∨
    graph.find? id = some other := by
  rw [find?_splitCall splits.found splits.fresh] at found
  split at found
  · exact .inl ⟨by assumption, (Option.some.inj found).symm⟩
  · split at found
    · exact .inr (.inl ⟨by assumption, (Option.some.inj found).symm⟩)
    · exact .inr (.inr found)

theorem first_mem : first ∈ call.inputs := by
  obtain ⟨_, _, _, inputs, _⟩ := splits.inputs
  simp [inputs]

theorem others_subset : others ⊆ call.inputs := by
  obtain ⟨_, _, _, inputs, _⟩ := splits.inputs
  rw [inputs]
  exact List.subset_cons_self _ _

variable {meaning : Interpretation} {scope : Scope}

/-- Where the operands of the call have their values, the new call has one, and the
call has its old one. -/
theorem denotes_call (regroups : meaning.Regroups) {values : NodeId → Value} {value : Value}
    (operands : ∀ input ∈ call.inputs,
      Denotes meaning (graph.splitCall call first others) scope input (values input))
    (computed : call.valueFrom meaning scope values = .ok value) :
    (∃ part, Denotes meaning (graph.splitCall call first others) scope graph.nextId part) ∧
      Denotes meaning (graph.splitCall call first others) scope call.id value := by
  obtain ⟨second, third, rest, inputs, tail⟩ := splits.inputs
  rw [Node.valueFrom_call splits.kind, splits.content, inputs, tail] at computed
  obtain ⟨part, partCalled, wholeCalled⟩ := regroups name splits.folding _ _ _ _ value computed
  have partDenotes :
      Denotes meaning (graph.splitCall call first others) scope graph.nextId part := by
    refine .plain splits.find?_part (fun read isRead => operands read ?_) ?_
    · exact splits.others_subset (Node.reads_subset_inputs _ isRead)
    · rw [Node.valueFrom_call rfl, splits.content, tail]
      exact partCalled
  obtain ⟨known, isKnown⟩ := exists_denotations meaning (graph.splitCall call first others) scope
  have firstDenotes := operands first splits.first_mem
  have firstKnown : known first = values first := isKnown _ _ firstDenotes
  have partKnown : known graph.nextId = part := isKnown _ _ partDenotes
  have reads : ∀ read ∈ [first, graph.nextId],
      Denotes meaning (graph.splitCall call first others) scope read (known read) := by
    intro read isRead
    rcases List.mem_pair.mp isRead with rfl | rfl
    · exact firstKnown ▸ firstDenotes
    · exact partKnown ▸ partDenotes
  refine ⟨⟨part, partDenotes⟩, .plain splits.find?_call
    (fun read isRead => reads read (Node.reads_subset_inputs _ isRead)) ?_⟩
  have kind : ({ call with inputs := [first, graph.nextId] } : Node).kind = .call := splits.kind
  rw [Node.valueFrom_call kind, splits.content]
  simp only [List.map_cons, List.map_nil, firstKnown, partKnown]
  exact wholeCalled

theorem find?_of_kind {id : NodeId} {node : Node} (notCall : node.kind ≠ .call) :
    (graph.splitCall call first others).find? id = some node ↔ graph.find? id = some node := by
  constructor
  · intro found
    rcases splits.node_cases found with ⟨_, rfl⟩ | ⟨_, rfl⟩ | old
    · exact absurd rfl notCall
    · exact absurd splits.kind notCall
    · exact old
  · intro found
    refine splits.find?_other found ?_
    rintro rfl
    cases found.symm.trans splits.found
    exact notCall splits.kind

theorem forward (regroups : meaning.Regroups) {id : NodeId} {value : Value}
    (denotes : Denotes meaning graph scope id value) :
    Denotes meaning (graph.splitCall call first others) scope id value := by
  refine denotes.levelInduction (motive := fun id value =>
    Denotes meaning (graph.splitCall call first others) scope id value) ?_ ?_
  · intro id node values value found _ induction computed
    by_cases isCall : id = call.id
    · subst isCall
      cases found.symm.trans splits.found
      refine (splits.denotes_call regroups (fun input isInput => induction input ?_) computed).2
      simpa [Node.reads, splits.kind] using isInput
    · exact .plain (splits.find?_other found isCall) induction computed
  · intro id node loop values found runs _ induction keys defined
    have kind := (Node.loop?_eq_some.mp runs).1
    exact .of_defined ((splits.find?_of_kind (by simp [kind])).mpr found) runs induction keys
      defined

theorem embeds : graph.Embeds (graph.splitCall call first others) := by
  refine .of_nodes ?_ ?_
  · intro id node found external
    exact ⟨node, (splits.find?_of_kind (by simp [external])).mpr found, external, rfl⟩
  · intro id node loop found runs
    have kind := (Node.loop?_eq_some.mp runs).1
    exact ⟨node, loop, (splits.find?_of_kind (by simp [kind])).mpr found, runs, rfl, .refl _⟩

theorem embeds_back : (graph.splitCall call first others).Embeds graph := by
  refine .of_nodes ?_ ?_
  · intro id node found external
    exact ⟨node, (splits.find?_of_kind (by simp [external])).mp found, external, rfl⟩
  · intro id node loop found runs
    have kind := (Node.loop?_eq_some.mp runs).1
    exact ⟨node, loop, (splits.find?_of_kind (by simp [kind])).mp found, runs, rfl, .refl _⟩

theorem carries (regroups : meaning.Regroups) :
    graph.Carries meaning (graph.splitCall call first others) := by
  refine ⟨?_, ?_, splits.embeds⟩
  · intro scope defined id present
    obtain ⟨node, found⟩ := exists_find? present
    by_cases isNew : id = graph.nextId
    · subst isNew
      obtain ⟨value, denotes⟩ := defined call.id (mem_ids_of_find? splits.found)
      have noLoop : call.loop? = none := Node.loop?_eq_none_of_kind (by simp [splits.kind])
      obtain ⟨values, reads, computed⟩ := denotes.values_of_plain splits.found noLoop
      refine (splits.denotes_call regroups (fun input isInput => ?_) computed).1
      exact splits.forward regroups (reads input (by simpa [Node.reads, splits.kind] using isInput))
    · have old : id ∈ graph.ids := by
        rw [splitCall_ids] at present
        exact (mem_extended_ids.mp present).resolve_right isNew
      obtain ⟨value, denotes⟩ := defined id old
      exact ⟨value, splits.forward regroups denotes⟩
  · intro scope values exits
    unfold ExitsDenote at exits ⊢
    rw [splitCall_exits]
    exact List.Forall₂.imp (fun exit found leaves =>
      ⟨leaves.1, splits.forward regroups leaves.2⟩) exits

/-- What the nodes after a split depend on: operands of the call, or what a node of
the graph depends on, or the new call. -/
theorem dependency_cases {id : NodeId} {other : Node}
    (found : (graph.splitCall call first others).find? id = some other) {dependency : NodeId}
    (needed : dependency ∈ other.dependencies) :
    (id = graph.nextId ∧ dependency ∈ call.dependencies) ∨
    (id = call.id ∧ (dependency ∈ call.dependencies ∨ dependency = graph.nextId)) ∨
    ∃ node, graph.find? id = some node ∧ dependency ∈ node.dependencies := by
  rcases splits.node_cases found with ⟨isNew, rfl⟩ | ⟨isCall, rfl⟩ | old
  · simp only [Node.dependencies, splits.content] at needed
    exact .inl ⟨isNew, call.inputs_subset_dependencies (splits.others_subset needed)⟩
  · simp only [Node.dependencies, splits.content] at needed
    rcases List.mem_pair.mp needed with rfl | rfl
    · exact .inr (.inl ⟨isCall, .inl (call.inputs_subset_dependencies splits.first_mem)⟩)
    · exact .inr (.inl ⟨isCall, .inr rfl⟩)
  · exact .inr (.inr ⟨other, old, needed⟩)

theorem acyclic (evaluable : graph.Evaluable)
    (distinct : (graph.splitCall call first others).ids.Nodup) :
    (graph.splitCall call first others).Acyclic := by
  obtain ⟨rank, ranked⟩ := evaluable.acyclic.exists_rank
  have inGraph := (mem_of_find? splits.found).1
  -- Ranks are doubled to make room for the new call right below the call.
  have rankedSplit : (graph.splitCall call first others).RankedBy fun id =>
      if id = graph.nextId then 2 * rank call.id - 1 else 2 * rank id := by
    intro other member dependency needed
    have old : ∀ node ∈ graph.nodes, ∀ id ∈ node.dependencies, id ≠ graph.nextId :=
      fun node inside id isNeeded isNew =>
        splits.fresh (isNew ▸ evaluable.linked node inside id isNeeded)
    have oldNode : ∀ node ∈ graph.nodes, node.id ≠ graph.nextId :=
      fun node inside isNew => splits.fresh (isNew ▸ mem_ids.mpr ⟨node, inside, rfl⟩)
    rcases splits.dependency_cases (find?_of_mem distinct member) needed with
      ⟨isNew, operand⟩ | ⟨isCall, operand | rfl⟩ | ⟨node, found, isNeeded⟩
    · have below := ranked call inGraph dependency operand
      simp only [isNew, old call inGraph dependency operand, if_true, if_false]
      omega
    · have below := ranked call inGraph dependency operand
      simp only [isCall, oldNode call inGraph, old call inGraph dependency operand, if_false]
      omega
    · have below := ranked call inGraph first
        (call.inputs_subset_dependencies splits.first_mem)
      simp only [isCall, oldNode call inGraph, if_true, if_false]
      omega
    · obtain ⟨inside, same⟩ := mem_of_find? found
      have below := ranked node inside dependency isNeeded
      simp only [← same, oldNode node inside, old node inside dependency isNeeded, if_false]
      omega
  exact rankedSplit.acyclic

/-- Loops, and nodes with a loop as their content, are not calls. -/
theorem loopNode_mem (distinct : (graph.splitCall call first others).ids.Nodup) {other : Node}
    (member : other ∈ (graph.splitCall call first others).nodes) (kind : other.kind = .loop) :
    other ∈ graph.nodes := by
  have notCall : other.kind ≠ .call := by simp [kind]
  exact (mem_of_find? ((splits.find?_of_kind notCall).mp (find?_of_mem distinct member))).1

theorem evaluable (evaluable : graph.Evaluable) (numbered : graph.Numbered) :
    (graph.splitCall call first others).Evaluable := by
  have distinct : (graph.splitCall call first others).ids.Nodup :=
    splitCall_distinct numbered evaluable.distinct
  have present : ∀ id, id ∈ graph.ids ∨ id = graph.nextId →
      id ∈ (graph.splitCall call first others).ids := by
    intro id either
    rw [splitCall_ids]
    exact mem_extended_ids.mpr either
  refine
    { distinct := distinct
      linked := ?_
      exits := fun exit isExit =>
        present exit.2 (.inl (evaluable.exits exit (splitCall_exits ▸ isExit)))
      carried := fun other member kind =>
        evaluable.carried other (splits.loopNode_mem distinct member kind) kind
      keys := fun other member loop runs => evaluable.keys other
        (splits.loopNode_mem distinct member (Node.loop?_eq_some.mp runs).1) loop runs
      acyclic := splits.acyclic evaluable distinct }
  intro other member dependency needed
  have inGraph := (mem_of_find? splits.found).1
  rcases splits.dependency_cases (find?_of_mem distinct member) needed with
    ⟨_, operand⟩ | ⟨_, operand | isNew⟩ | ⟨node, found, isNeeded⟩
  · exact present _ (.inl (evaluable.linked call inGraph dependency operand))
  · exact present _ (.inl (evaluable.linked call inGraph dependency operand))
  · exact present _ (.inr isNew)
  · exact present _ (.inl (evaluable.linked node (mem_of_find? found).1 dependency isNeeded))

theorem formed (formed : graph.Everywhere Formed) (numbered : graph.Numbered) :
    (graph.splitCall call first others).Everywhere Formed := by
  have evaluable := splits.evaluable formed.here.toEvaluable numbered
  have distinct := evaluable.distinct
  refine everywhere_iff.mpr ⟨⟨evaluable, ?_, ?_⟩, ?_⟩
  · intro other member loop content
    rcases splits.node_cases (find?_of_mem distinct member) with ⟨_, rfl⟩ | ⟨_, rfl⟩ | old
    · simp [splits.content] at content
    · simp [splits.content] at content
    · exact formed.here.plain other (mem_of_find? old).1 loop content
  · intro other member loop runs
    have kind := (Node.loop?_eq_some.mp runs).1
    exact formed.here.externalKeys other (splits.loopNode_mem distinct member kind) loop runs
  · intro id other loop found runs
    have notCall : other.kind ≠ .call := by simp [(Node.loop?_eq_some.mp runs).1]
    exact formed.body ((splits.find?_of_kind notCall).mp found) runs

theorem numbered (numbered : graph.Everywhere Numbered) :
    (graph.splitCall call first others).Everywhere Numbered := by
  refine everywhere_iff.mpr ⟨?_, ?_⟩
  · intro id present
    have nextId : (graph.splitCall call first others).nextId = graph.nextId + 1 := rfl
    rw [nextId]
    rw [splitCall_ids] at present
    rcases mem_extended_ids.mp present with old | rfl
    · exact (numbered.here id old).trans (Int.lt_succ _)
    · exact Int.lt_succ _
  · intro id other loop found runs
    have notCall : other.kind ≠ .call := by simp [(Node.loop?_eq_some.mp runs).1]
    exact numbered.body ((splits.find?_of_kind notCall).mp found) runs

end SplitsCall

/-- What splitting keeps. -/
structure SplitsTo (meaning : Interpretation) (graph other : Graph) : Prop where
  formed : other.Everywhere Formed
  numbered : other.Everywhere Numbered
  carries : graph.Carries meaning other
  embedsBack : other.Embeds graph

namespace SplitsTo

variable {meaning : Interpretation} {graph middle other : Graph}

theorem refl (formed : graph.Everywhere Formed) (numbered : graph.Everywhere Numbered) :
    graph.SplitsTo meaning graph :=
  ⟨formed, numbered, .refl graph, .refl graph⟩

theorem trans (first : graph.SplitsTo meaning middle) (second : middle.SplitsTo meaning other) :
    graph.SplitsTo meaning other :=
  ⟨second.formed, second.numbered, first.carries.trans second.carries,
    second.embedsBack.trans first.embedsBack⟩

theorem of_bodies (formed : graph.Everywhere Formed) (numbered : graph.Everywhere Numbered)
    (revised : List.Forall₂ (Node.Revised (Loop.VisitedBy (SplitsTo meaning))) graph.nodes
      other.nodes)
    (exits : other.exits = graph.exits) (nextId : other.nextId = graph.nextId) :
    graph.SplitsTo meaning other := by
  have partners := find?_revised revised
  refine
    { formed := formed_of_bodies formed revised exits
        fun _ _ _ _ _ _ passed => ⟨passed.formed, passed.carries⟩
      numbered := numbered_of_bodies numbered revised nextId
        fun _ _ _ _ _ _ passed => passed.numbered
      carries := .of_bodies formed.here exits (find?_revised (revised.imp fun _ _ changed =>
        changed.mono fun _ _ visited => ⟨visited.bindings, visited.body.carries⟩))
      embedsBack := .of_nodes ?_ ?_ }
  · intro id changed found external
    obtain ⟨node, foundNode, related⟩ := exists_partnered (partners _) found
    have sameKind := related.kind_eq
    exact ⟨node, foundNode, sameKind ▸ external,
      (related.content_eq (by simp [← sameKind, external])).symm⟩
  · intro id changedNode changed found runs
    obtain ⟨node, foundNode, related⟩ := exists_partnered (partners _) found
    obtain ⟨loop, runsNode, visited⟩ := related.exists_origin runs
    exact ⟨node, loop, foundNode, runsNode, by rw [visited.bindings], visited.body.embedsBack⟩

end SplitsTo

theorem SplitsCall.splitsTo {meaning : Interpretation} {graph : Graph} {call : Node}
    {name : String} {first : NodeId} {others : List NodeId}
    (splits : graph.SplitsCall call name first others) (regroups : meaning.Regroups)
    (formed : graph.Everywhere Formed) (numbered : graph.Everywhere Numbered) :
    graph.SplitsTo meaning (graph.splitCall call first others) :=
  ⟨splits.formed formed numbered.here, splits.numbered numbered, splits.carries regroups,
    splits.embeds_back⟩

end Graph

theorem Outcome.more_eq_ok {outcome : Outcome Nat} {more count : Nat} :
    (outcome.more more).answer = .ok count ↔
      ∃ rest, outcome.answer = .ok rest ∧ count = more + rest := by
  unfold Outcome.more
  cases outcome.answer with
  | ok rest => simp [Except.map, eq_comm]
  | error fault => simp [Except.map]

theorem Outcome.more_answer {outcome : Outcome Nat} {more count : Nat}
    (done : (outcome.more more).answer = .ok count) : ∃ rest, outcome.answer = .ok rest := by
  obtain ⟨rest, answer, _⟩ := Outcome.more_eq_ok.mp done
  exact ⟨rest, answer⟩

/-- A call that a scan splits. -/
def Node.isWide (node : Node) : Bool :=
  node.kind == .call && isFolding node.content && decide (2 < node.inputs.length)

/-- A call whose content cannot be looked up among the operations. -/
def Node.isUnhashable (node : Node) : Bool :=
  node.kind == .call && !node.content.isHashable

/-- What a scan does when it comes to a node. -/
inductive Graph.ScanStep (graph : Graph) (node : Node) (rest : List Node) : Prop where
  | skips (narrow : node.isWide = false) (hashable : node.isUnhashable = false)
      (goesOn : splitScan graph (node :: rest) = splitScan graph rest)
  | stops (unhashable : node.isUnhashable = true)
      (ends : splitScan graph (node :: rest) = ⟨graph, .error .wrongType⟩)
  | dangles {fault : Fault} (wide : node.isWide = true) (absent : ¬ node.inputs ⊆ graph.ids)
      (ends : splitScan graph (node :: rest) = ⟨graph, .error fault⟩)
  | splits {name : String} {first second third : NodeId} {others : List NodeId}
      (wide : node.isWide = true) (hashable : node.isUnhashable = false)
      (kind : node.kind = .call) (content : node.content = .text name)
      (folding : name ∈ foldingOperations)
      (inputs : node.inputs = first :: second :: third :: others)
      (goesOn : splitScan graph (node :: rest) =
        (splitScan (graph.splitCall node first (second :: third :: others)) rest).more 1)

theorem splitScan_step (graph : Graph) (node : Node) (rest : List Node) :
    graph.ScanStep node rest := by
  by_cases kind : node.kind = .call
  swap
  · exact .skips (by simp [Node.isWide, kind]) (by simp [Node.isUnhashable, kind])
      (by simp [splitScan, kind])
  cases hashable : node.content.isHashable with
  | false =>
      exact .stops (by simp [Node.isUnhashable, kind, hashable])
        (by simp [splitScan, kind, hashable])
  | true =>
      have known : node.isUnhashable = false := by simp [Node.isUnhashable, hashable]
      by_cases folding : isFolding node.content = true
      swap
      · exact .skips (by simp [Node.isWide, folding]) known
          (by simp [splitScan, kind, hashable, folding])
      rcases inputs : node.inputs with _ | ⟨first, _ | ⟨second, _ | ⟨third, others⟩⟩⟩
      · exact .skips (by simp [Node.isWide, inputs]) known
          (by simp [splitScan, kind, hashable, folding, inputs])
      · exact .skips (by simp [Node.isWide, inputs]) known
          (by simp [splitScan, kind, hashable, folding, inputs])
      · exact .skips (by simp [Node.isWide, inputs]) known
          (by simp [splitScan, kind, hashable, folding, inputs])
      · have wide : node.isWide = true := by simp [Node.isWide, kind, folding, inputs]
        cases added : graph.add .call node.content (second :: third :: others) with
        | error fault =>
            refine .dangles wide (fun present => ?_)
              (by simp [splitScan, kind, hashable, folding, inputs, added]; rfl)
            rw [inputs] at present
            rw [Graph.add_of_subset (List.subset_of_cons_subset present)] at added
            cases added
        | ok result =>
            obtain ⟨extended, id⟩ := result
            obtain ⟨rfl, rfl, _⟩ := Graph.add_eq_ok added
            obtain ⟨name, isOperation, content⟩ := isFolding_iff.mp folding
            refine .splits wide known kind content isOperation inputs ?_
            simp [splitScan, kind, hashable, folding, inputs, added, Graph.splitCall]

/-- What a scan makes of a graph when it comes to a node. -/
inductive Graph.Scanned (graph : Graph) (node : Node) : Graph → Prop where
  | left : Scanned graph node graph
  | split {name : String} {first second third : NodeId} {others : List NodeId}
      (kind : node.kind = .call) (content : node.content = .text name)
      (folding : name ∈ foldingOperations)
      (inputs : node.inputs = first :: second :: third :: others) :
      Scanned graph node (graph.splitCall node first (second :: third :: others))

/-- A scan that succeeds goes on with the graph that it made of the first node. -/
theorem splitScan_cons {graph : Graph} {node : Node} {rest : List Node} {count : Nat}
    (done : (splitScan graph (node :: rest)).answer = .ok count) :
    ∃ next inner, graph.Scanned node next ∧ (splitScan next rest).answer = .ok inner ∧
      (splitScan graph (node :: rest)).graph = (splitScan next rest).graph := by
  cases splitScan_step graph node rest with
  | skips _ _ goesOn => exact ⟨graph, count, .left, goesOn ▸ done, by rw [goesOn]⟩
  | stops _ ends =>
      rw [ends] at done
      cases done
  | dangles _ _ ends =>
      rw [ends] at done
      cases done
  | splits _ _ kind content folding inputs goesOn =>
      rw [goesOn] at done ⊢
      obtain ⟨inner, answer⟩ := Outcome.more_answer done
      exact ⟨_, inner, .split kind content folding inputs, answer, rfl⟩

theorem visitBodies_replaced {visit : Graph → Outcome Nat} {passes : Graph → Graph → Prop}
    {nodes : List Node} {count : Nat}
    (well : ∀ node ∈ nodes, ∀ loop, node.loop? = some loop → ∀ inner,
      (visit loop.body).answer = .ok inner → passes loop.body (visit loop.body).graph)
    (done : (visitBodies visit nodes).2 = .ok count) :
    List.Forall₂ (Node.Revised (Loop.ReplacedBy passes)) nodes (visitBodies visit nodes).1 := by
  induction nodes generalizing count with
  | nil => exact .nil
  | cons node rest induction =>
      have wellRest := fun other member => well other (List.mem_cons_of_mem _ member)
      by_cases kind : node.kind = .loop
      · have isLoop : node.isLoop = true := by simp [Node.isLoop, kind]
        cases content : node.content
        case loop loop =>
          have runs : node.loop? = some loop := Node.loop?_eq_some.mpr ⟨kind, content⟩
          cases answer : (visit loop.body).answer with
          | error fault => simp [visitBodies, isLoop, content, answer] at done
          | ok inner =>
              simp only [visitBodies, isLoop, if_true, content, answer] at done ⊢
              cases later : (visitBodies visit rest).2 with
              | error fault =>
                  rw [later] at done
                  cases done
              | ok outer =>
                  have passed := well node List.mem_cons_self loop runs inner answer
                  exact .cons (.loop runs ⟨rfl, passed⟩) (induction wellRest later)
        all_goals simp [visitBodies, isLoop, content] at done
      · have isLoop : node.isLoop = false := by simp [Node.isLoop, kind]
        simp only [visitBodies, isLoop, Bool.false_eq_true, if_false] at done ⊢
        exact .cons (.same (Node.loop?_eq_none_of_kind kind)) (induction wellRest done)

theorem visitBodies_revised {visit : Graph → Outcome Nat} {passes : Graph → Graph → Prop}
    {nodes : List Node} {count : Nat}
    (well : ∀ node ∈ nodes, ∀ loop, node.loop? = some loop → ∀ inner,
      (visit loop.body).answer = .ok inner → passes loop.body (visit loop.body).graph)
    (done : (visitBodies visit nodes).2 = .ok count) :
    List.Forall₂ (Node.Revised (Loop.VisitedBy passes)) nodes (visitBodies visit nodes).1 :=
  (visitBodies_replaced well done).imp fun _ _ revised => revised.mono fun _ _ replaced =>
    replaced.visitedBy

section Scans

variable {meaning : Interpretation} (regroups : meaning.Regroups)
include regroups

/-- A scan is a row of splits: the nodes that it has not come to are still those of
the graph. -/
theorem splitsTo_of_splitScan {nodes : List Node} {graph : Graph} {count : Nat}
    (formed : graph.Everywhere Graph.Formed) (numbered : graph.Everywhere Graph.Numbered)
    (distinct : (nodes.map Node.id).Nodup)
    (ahead : ∀ node ∈ nodes, graph.find? node.id = some node)
    (done : (splitScan graph nodes).answer = .ok count) :
    graph.SplitsTo meaning (splitScan graph nodes).graph := by
  induction nodes generalizing graph count with
  | nil => exact .refl formed numbered
  | cons node rest induction =>
      rw [List.map_cons, List.nodup_cons] at distinct
      have aheadRest : ∀ later ∈ rest, graph.find? later.id = some later :=
        fun later member => ahead later (List.mem_cons_of_mem _ member)
      obtain ⟨next, inner, scanned, later, same⟩ := splitScan_cons done
      rw [same]
      cases scanned with
      | left => exact induction formed numbered distinct.2 aheadRest later
      | @split name first second third others kind content folding inputs =>
          have splits : graph.SplitsCall node name first (second :: third :: others) :=
            ⟨ahead node List.mem_cons_self, kind, content, folding,
              ⟨second, third, others, inputs, rfl⟩, numbered.here.fresh⟩
          have step := splits.splitsTo regroups formed numbered
          refine step.trans (induction step.formed step.numbered distinct.2 ?_ later)
          intro other member
          refine splits.find?_other (aheadRest other member) fun equal => ?_
          exact distinct.1 (equal ▸ List.mem_map_of_mem member)

theorem splitsTo_of_splitRounds {fuel : Nat} {graph : Graph} {count : Nat}
    (formed : graph.Everywhere Graph.Formed) (numbered : graph.Everywhere Graph.Numbered)
    (done : (splitRounds fuel graph).answer = .ok count) :
    graph.SplitsTo meaning (splitRounds fuel graph).graph := by
  induction fuel generalizing graph count with
  | zero => exact .refl formed numbered
  | succ fuel induction =>
      have scanned : ∀ splits, (splitScan graph graph.nodes).answer = .ok splits →
          graph.SplitsTo meaning (splitScan graph graph.nodes).graph :=
        fun splits answer => splitsTo_of_splitScan regroups formed numbered formed.here.distinct
          (fun node member => Graph.find?_of_mem formed.here.distinct member) answer
      cases answer : (splitScan graph graph.nodes).answer with
      | error fault =>
          simp only [splitRounds, answer] at done
          cases done
      | ok splits =>
          cases splits with
          | zero =>
              simp only [splitRounds, answer]
              exact scanned 0 answer
          | succ splits =>
              simp only [splitRounds, answer] at done ⊢
              obtain ⟨rest, later⟩ := Outcome.more_answer done
              have step := scanned (splits + 1) answer
              exact step.trans (induction step.formed step.numbered later)

theorem splitsTo_of_splitWith {visit : Graph → Outcome Nat}
    (well : ∀ (body : Graph) (inner : Nat), body.Everywhere Graph.Formed →
      body.Everywhere Graph.Numbered → (visit body).answer = .ok inner →
      body.SplitsTo meaning (visit body).graph)
    {graph : Graph} {count : Nat} (formed : graph.Everywhere Graph.Formed)
    (numbered : graph.Everywhere Graph.Numbered)
    (done : (splitWith visit graph).answer = .ok count) :
    graph.SplitsTo meaning (splitWith visit graph).graph := by
  cases answer : (splitLevel graph).answer with
  | error fault =>
      simp only [splitWith, sweep, answer] at done
      cases done
  | ok splits =>
      have level := splitsTo_of_splitRounds regroups formed numbered answer
      have distinct := level.formed.here.distinct
      simp only [splitWith, sweep, answer] at done ⊢
      cases visited : (visitBodies visit (splitLevel graph).graph.nodes).2 with
      | error fault =>
          rw [visited] at done
          cases done
      | ok inner =>
          have revised := visitBodies_revised (fun node member loop runs inner =>
            well loop.body inner
              (level.formed.body (Graph.find?_of_mem distinct member) runs)
              (level.numbered.body (Graph.find?_of_mem distinct member) runs)) visited
          exact level.trans (.of_bodies level.formed level.numbered revised rfl rfl)

theorem splitsTo_of_splitNested {depth : Nat} {graph : Graph} {count : Nat}
    (formed : graph.Everywhere Graph.Formed) (numbered : graph.Everywhere Graph.Numbered)
    (done : (splitNested depth graph).answer = .ok count) :
    graph.SplitsTo meaning (splitNested depth graph).graph := by
  induction depth generalizing graph count with
  | zero =>
      exact splitsTo_of_splitWith regroups
        (fun body inner bodyFormed bodyNumbered _ => .refl bodyFormed bodyNumbered)
        formed numbered done
  | succ depth induction =>
      exact splitsTo_of_splitWith regroups (fun body inner => induction) formed numbered done

end Scans

end FlowGraph

import FlowGraph.Proofs.Evaluation
import FlowGraph.Proofs.FoldSteps
import FlowGraph.Proofs.Fusion

/-!
# Folding constants keeps denotations

A fold puts a constant into the place of a call.  The call had the value of the
constant in every scope, so denotations pass through a fold in both directions;
the operands that are dropped are constants, which always have a value.
-/

namespace FlowGraph

/-- Calls never give back a loop. -/
def Interpretation.ReturnsNoLoop (meaning : Interpretation) : Prop :=
  ∀ name operands loop, meaning.call name operands ≠ .ok (.loop loop)

namespace Graph

/-- References stay inside the graph, and loops are the contents of exactly the loop nodes. -/
structure Exact (graph : Graph) : Prop extends Closed graph where
  plain : ∀ node ∈ graph.nodes, ∀ loop, node.content = .loop loop → node.kind = .loop

theorem Formed.exact {graph : Graph} (formed : graph.Formed) : graph.Exact :=
  ⟨formed.closed, formed.plain⟩

end Graph

/-- A call with operands that the policy allows to be folded. -/
structure Node.Candidate (policy : FoldPolicy) (node : Node) : Prop where
  kind : node.kind = .call
  inputs : node.inputs ≠ []
  allowed : policy.allows node.content = .ok true

section Choice

variable {graph : Graph} {policy : FoldPolicy}

theorem areConstants_eq_true_iff {ids : List NodeId} :
    areConstants graph ids = .ok true ↔
      ∀ id ∈ ids, ∃ node, graph.find? id = some node ∧ node.kind = .constant := by
  induction ids with
  | nil => simp [areConstants]
  | cons first rest induction =>
      rw [List.forall_mem_cons, ← induction, areConstants, bind_eq_ok]
      constructor
      · rintro ⟨node, found, remaining⟩
        split at remaining
        · rename_i constant
          exact ⟨⟨node, Graph.node_eq_ok.mp found, constant⟩, remaining⟩
        · cases remaining
      · rintro ⟨⟨node, found, constant⟩, remaining⟩
        exact ⟨node, Graph.node_eq_ok.mpr found, (if_pos constant).trans remaining⟩

/-- Foldable nodes are allowed calls of one or more constants. -/
theorem isFoldable_eq_true_iff {node : Node} :
    isFoldable graph policy node = .ok true ↔ node.Candidate policy ∧
      ∀ id ∈ node.inputs, ∃ operand, graph.find? id = some operand ∧ operand.kind = .constant := by
  rw [← areConstants_eq_true_iff]
  unfold isFoldable
  constructor
  · intro foldable
    split at foldable
    · cases foldable
    · rename_i candidate
      rw [not_or, not_not] at candidate
      obtain ⟨allowed, checked, remaining⟩ := bind_eq_ok.mp foldable
      split at remaining
      · rename_i isAllowed
        exact ⟨⟨candidate.1, candidate.2, isAllowed ▸ checked⟩, remaining⟩
      · cases remaining
  · rintro ⟨candidate, constants⟩
    rw [if_neg (not_or.mpr ⟨not_not.mpr candidate.kind, candidate.inputs⟩)]
    exact bind_eq_ok.mpr ⟨true, candidate.allowed, constants⟩

theorem isFoldable_of_firstFoldable {nodes : List Node} {node : Node}
    (first : firstFoldable graph policy nodes = .ok (some node)) :
    node ∈ nodes ∧ isFoldable graph policy node = .ok true := by
  induction nodes with
  | nil => cases first
  | cons head rest induction =>
      obtain ⟨decision, checked, remaining⟩ := bind_eq_ok.mp first
      split at remaining
      · rename_i holds
        cases remaining
        exact ⟨List.mem_cons_self, holds ▸ checked⟩
      · obtain ⟨member, foldable⟩ := induction remaining
        exact ⟨List.mem_cons_of_mem _ member, foldable⟩

/-- The contents of constants are their denotations. -/
theorem contentsOf_eq_ok {meaning : Interpretation} {scope : Scope} {ids : List NodeId}
    {values : NodeId → Value}
    (constants : ∀ id ∈ ids, ∃ node, graph.find? id = some node ∧ node.kind = .constant)
    (denote : ∀ id ∈ ids, Denotes meaning graph scope id (values id)) :
    contentsOf graph ids = .ok (ids.map values) := by
  apply mapM_eq_ok
  intro id member
  obtain ⟨node, found, constant⟩ := constants id member
  have literal : Denotes meaning graph scope id node.content :=
    .of_constant found constant
  rw [(denote id member).deterministic literal]
  exact bind_eq_ok.mpr ⟨node, Graph.node_eq_ok.mpr found, rfl⟩

end Choice

/-- One fold: a new constant has the place of a call. -/
structure Graph.FoldsCall (meaning : Interpretation) (graph folded : Graph) (call : Node)
    (value : Value) : Prop where
  found : graph.find? call.id = some call
  kind : call.kind = .call
  denotes : ∀ scope, Denotes meaning graph scope call.id value
  noLoop : ∀ loop, value ≠ .loop loop
  fresh : graph.nextId ∉ graph.ids
  literal : folded.find? graph.nextId = some ⟨graph.nextId, .constant, value, [], unsetResult⟩
  origins : ∀ id other, folded.find? id = some other → id = graph.nextId ∨
    ∃ node, graph.find? id = some node ∧ id ≠ call.id ∧ other = node.fused graph.nextId call.id
  dropped : ∀ id node, graph.find? id = some node →
    id ∈ folded.ids ∨ id = call.id ∨ node.kind = .constant
  exits : folded.exits = graph.exits.map fun (name, id) => (name, redirect graph.nextId call.id id)
  linked : ∀ node ∈ folded.nodes, ∀ id ∈ node.dependencies, id ∈ folded.ids
  kept : ∀ exit ∈ folded.exits, exit.2 ∈ folded.ids
  distinct : folded.ids.Nodup
  nextId : folded.nextId = graph.nextId + 1

/-- A call of constants has the value that the fold computes. -/
theorem denotes_of_call {meaning : Interpretation} {graph : Graph} {call : Node} {value : Value}
    {operands : List Value} (found : graph.find? call.id = some call) (kind : call.kind = .call)
    (constants : ∀ id ∈ call.inputs, ∃ node, graph.find? id = some node ∧ node.kind = .constant)
    (read : contentsOf graph call.inputs = .ok operands)
    (computed : meaning.call call.content.plain operands = .ok value) (scope : Scope) :
    Denotes meaning graph scope call.id value := by
  obtain ⟨values, known⟩ := exists_denotations meaning graph scope
  have denote : ∀ id ∈ call.inputs, Denotes meaning graph scope id (values id) := by
    intro id member
    obtain ⟨node, foundNode, constant⟩ := constants id member
    have literal : Denotes meaning graph scope id node.content := .of_constant foundNode constant
    rw [known id node.content literal]
    exact literal
  refine .plain found (fun id isRead => denote id (call.reads_subset_inputs isRead)) ?_
  cases read.symm.trans (contentsOf_eq_ok constants denote)
  exact (Node.valueFrom_call kind).trans computed

/-- The graph with the value of a call in the place of the call, without the operands
that nothing names any more. -/
def Graph.foldedCall (graph : Graph) (call : Node) (value : Value) : Graph :=
  dropOrphans ((graph.extended .constant value []).fused graph.nextId call.id) call.inputs

theorem foldNode_eq_ok {meaning : Interpretation} {graph folded : Graph} {call : Node}
    (done : foldNode meaning graph call = .ok folded) :
    ∃ operands value, contentsOf graph call.inputs = .ok operands ∧
      meaning.call call.content.plain operands = .ok value ∧
      folded = graph.foldedCall call value := by
  obtain ⟨operands, read, afterRead⟩ := bind_eq_ok.mp done
  obtain ⟨value, computed, afterCall⟩ := bind_eq_ok.mp afterRead
  obtain ⟨⟨extended, literal⟩, added, afterAdd⟩ := bind_eq_ok.mp afterCall
  obtain ⟨merged, ends⟩ := check_eq_ok.mp afterAdd
  obtain ⟨rfl, rfl, _⟩ := Graph.add_eq_ok added
  cases ends
  exact ⟨operands, value, read, computed, by rw [Graph.fuse_eq merged, Graph.foldedCall]⟩

theorem isReferenced_iff {graph : Graph} {id : NodeId} :
    isReferenced graph id = true ↔
      (∃ exit ∈ graph.exits, exit.2 = id) ∨ ∃ node ∈ graph.nodes, id ∈ node.dependencies := by
  simp [isReferenced]

theorem mem_dropOrphans {graph : Graph} {ids : List NodeId} {node : Node} :
    node ∈ (dropOrphans graph ids).nodes ↔
      node ∈ graph.nodes ∧ (node.id ∈ ids → isReferenced graph node.id = true) := by
  simp [dropOrphans, imp_iff_not_or]

theorem mem_ids_dropOrphans {graph : Graph} {ids : List NodeId} {id : NodeId}
    (present : id ∈ graph.ids) (referenced : id ∈ ids → isReferenced graph id = true) :
    id ∈ (dropOrphans graph ids).ids := by
  obtain ⟨node, member, rfl⟩ := Graph.mem_ids.mp present
  exact Graph.mem_ids.mpr ⟨node, mem_dropOrphans.mpr ⟨member, referenced⟩, rfl⟩

theorem literal_dependencies {id : NodeId} {value : Value} (noLoop : ∀ loop, value ≠ .loop loop) :
    (⟨id, .constant, value, [], unsetResult⟩ : Node).dependencies = [] := by
  unfold Node.dependencies
  split
  · rename_i loop isLoop
    exact absurd isLoop (noLoop loop)
  · rfl

/-- A new constant needs nothing, so it does not disturb the links of a graph. -/
theorem Graph.Exact.literal_linked {graph : Graph} {value : Value} (exact : graph.Exact)
    (noLoop : ∀ loop, value ≠ .loop loop) :
    (∀ node ∈ (graph.extended .constant value []).nodes, ∀ id ∈ node.dependencies,
      id ∈ (graph.extended .constant value []).ids) ∧
    ∀ node ∈ (graph.extended .constant value []).nodes, ∀ loop, node.content = .loop loop →
      node.kind = .loop := by
  constructor
  · intro node inside id needed
    rcases old_or_new_node inside with old | rfl
    · exact mem_extended_ids.mpr (.inl (exact.linked node old id needed))
    · rw [literal_dependencies noLoop] at needed
      cases needed
  · intro node inside loop content
    rcases old_or_new_node inside with old | rfl
    · exact exact.plain node old loop content
    · exact absurd content (noLoop loop)

namespace Graph

section FoldedCall

variable {graph : Graph} {call : Node} {value : Value}

theorem mem_of_foldedCall {other : Node} (inside : other ∈ (graph.foldedCall call value).nodes) :
    other ∈ ((graph.extended .constant value []).fused graph.nextId call.id).nodes :=
  (mem_dropOrphans.mp inside).1

theorem foldedCall_exits : (graph.foldedCall call value).exits =
    graph.exits.map fun (name, id) => (name, redirect graph.nextId call.id id) := by
  rw [← @extended_exits graph .constant value []]
  rfl

theorem foldedCall_origins (distinct : graph.ids.Nodup) {id : NodeId} {other : Node}
    (found : (graph.foldedCall call value).find? id = some other) :
    id = graph.nextId ∨ ∃ node, graph.find? id = some node ∧ id ≠ call.id ∧
      other = node.fused graph.nextId call.id := by
  obtain ⟨inside, rfl⟩ := mem_of_find? found
  obtain ⟨node, inExtended, stays, rfl⟩ := mem_fused_nodes.mp (mem_of_foldedCall inside)
  rcases old_or_new_node inExtended with old | rfl
  · exact .inr ⟨node, find?_of_mem distinct old, stays, rfl⟩
  · exact .inl rfl

variable (numbered : graph.Numbered)
include numbered

theorem foldedCall_distinct (distinct : graph.ids.Nodup) :
    (graph.foldedCall call value).ids.Nodup := by
  have dropped : (graph.foldedCall call value).nodes.Sublist
      ((graph.extended .constant value []).fused graph.nextId call.id).nodes :=
    List.filter_sublist
  exact ((dropped.map Node.id).trans fused_ids_sublist).nodup
    (numbered.extended_distinct distinct)

variable (member : call ∈ graph.nodes)
include member

theorem nextId_ne_call : graph.nextId ≠ call.id := fun same =>
  numbered.fresh (same ▸ mem_ids.mpr ⟨call, member, rfl⟩)

/-- What stood for a node of the graph stands for one in the merged graph. -/
theorem redirect_mem_merged {id : NodeId} (present : id ∈ graph.ids) :
    redirect graph.nextId call.id id ∈
      ((graph.extended .constant value []).fused graph.nextId call.id).ids :=
  redirect_mem_fused_ids (mem_extended_ids.mpr (.inr rfl)) (nextId_ne_call numbered member)
    (mem_extended_ids.mpr (.inl present))

theorem foldedCall_literal (distinct : graph.ids.Nodup)
    (operands : ∀ id ∈ call.inputs, id ∈ graph.ids) :
    (graph.foldedCall call value).find? graph.nextId =
      some ⟨graph.nextId, .constant, value, [], unsetResult⟩ := by
  have inMerged : ⟨graph.nextId, .constant, value, [], unsetResult⟩ ∈
      ((graph.extended .constant value []).fused graph.nextId call.id).nodes :=
    mem_fused_nodes.mpr ⟨_, new_mem_extended, nextId_ne_call numbered member, rfl⟩
  refine find?_of_mem (foldedCall_distinct numbered distinct)
    (mem_dropOrphans.mpr ⟨inMerged, fun operand => ?_⟩)
  exact absurd (operands _ operand) numbered.fresh

theorem foldedCall_dropped {id : NodeId} (present : id ∈ graph.ids) :
    id ∈ (graph.foldedCall call value).ids ∨ id = call.id ∨ id ∈ call.inputs := by
  by_cases removed : id = call.id
  · exact .inr (.inl removed)
  · by_cases operand : id ∈ call.inputs
    · exact .inr (.inr operand)
    · have merged := @redirect_mem_merged graph call value numbered member id present
      rw [redirect_of_ne removed] at merged
      exact .inl (mem_ids_dropOrphans merged fun isOperand => absurd isOperand operand)

theorem foldedCall_linked (exact : graph.Exact) (noLoop : ∀ loop, value ≠ .loop loop) :
    ∀ node ∈ (graph.foldedCall call value).nodes, ∀ id ∈ node.dependencies,
      id ∈ (graph.foldedCall call value).ids := by
  have linked := fused_linked (mem_extended_ids.mpr (.inr rfl)) (nextId_ne_call numbered member)
    (exact.literal_linked noLoop).1 (exact.literal_linked noLoop).2
  intro node inside id needed
  have inMerged := mem_of_foldedCall inside
  exact mem_ids_dropOrphans (linked node inMerged id needed) fun _ =>
    isReferenced_iff.mpr (.inr ⟨node, inMerged, needed⟩)

theorem foldedCall_kept (exits : ∀ exit ∈ graph.exits, exit.2 ∈ graph.ids) :
    ∀ exit ∈ (graph.foldedCall call value).exits,
      exit.2 ∈ (graph.foldedCall call value).ids := by
  intro exit isExit
  rw [foldedCall_exits] at isExit
  obtain ⟨original, isOriginal, rfl⟩ := List.mem_map.mp isExit
  refine mem_ids_dropOrphans (redirect_mem_merged numbered member (exits original isOriginal))
    fun _ => isReferenced_iff.mpr (.inl ⟨_, ?_, rfl⟩)
  exact foldedCall_exits ▸ isExit

end FoldedCall

end Graph

/-- Folding a call that computes a value succeeds. -/
theorem foldNode_of_call {meaning : Interpretation} {graph : Graph} {call : Node}
    {operands : List Value} {value : Value} (distinct : graph.ids.Nodup)
    (carried : ∀ node ∈ graph.nodes, node.kind = .loop → ∃ loop, node.content = .loop loop)
    (numbered : graph.Numbered) (member : call ∈ graph.nodes)
    (read : contentsOf graph call.inputs = .ok operands)
    (computed : meaning.call call.content.plain operands = .ok value)
    (noLoop : ∀ loop, value ≠ .loop loop) :
    foldNode meaning graph call = .ok (graph.foldedCall call value) := by
  have present : call.id ∈ graph.ids := Graph.mem_ids.mpr ⟨call, member, rfl⟩
  have found : (graph.extended .constant value []).find? graph.nextId =
      some ⟨graph.nextId, .constant, value, [], unsetResult⟩ :=
    Graph.find?_of_mem (numbered.extended_distinct distinct)
      Graph.new_mem_extended
  have merged :
      ((graph.extended .constant value []).fuse graph.nextId call.id).answer = .ok () := by
    refine Graph.fuse_of_leaf found (literal_dependencies noLoop)
      (Graph.mem_extended_ids.mpr (.inl present)) (Graph.nextId_ne_call numbered member) ?_
    intro node inside kind
    rcases Graph.old_or_new_node inside with old | rfl
    · exact carried node old kind
    · cases kind
  refine bind_eq_ok.mpr ⟨operands, read, bind_eq_ok.mpr ⟨value, computed, ?_⟩⟩
  refine bind_eq_ok.mpr ⟨(graph.extended .constant value [], graph.nextId), rfl, ?_⟩
  refine check_eq_ok.mpr ⟨merged, ?_⟩
  rw [Graph.fuse_eq merged]
  rfl

/-- Putting the value of a call into its place is a fold. -/
theorem Graph.foldsCall_of_foldNode {meaning : Interpretation} {graph folded : Graph}
    {call : Node} (returns : meaning.ReturnsNoLoop) (exact : graph.Exact)
    (numbered : graph.Numbered) (member : call ∈ graph.nodes) (kind : call.kind = .call)
    (constants : ∀ id ∈ call.inputs, ∃ node, graph.find? id = some node ∧ node.kind = .constant)
    (done : foldNode meaning graph call = .ok folded) :
    ∃ value, graph.FoldsCall meaning folded call value := by
  obtain ⟨operands, value, read, computed, rfl⟩ := foldNode_eq_ok done
  have found := find?_of_mem exact.distinct member
  have noLoop : ∀ loop, value ≠ .loop loop := fun loop isLoop =>
    returns call.content.plain operands loop (isLoop ▸ computed)
  refine ⟨value,
    { found := found
      kind := kind
      denotes := denotes_of_call found kind constants read computed
      noLoop := noLoop
      fresh := numbered.fresh
      literal := foldedCall_literal numbered member exact.distinct ?_
      origins := fun id other => foldedCall_origins exact.distinct
      dropped := ?_
      exits := foldedCall_exits
      linked := foldedCall_linked numbered member exact noLoop
      kept := foldedCall_kept numbered member exact.exits
      distinct := foldedCall_distinct numbered exact.distinct
      nextId := rfl }⟩
  · intro id operand
    obtain ⟨node, foundNode, _⟩ := constants id operand
    exact mem_ids_of_find? foundNode
  · intro id node foundNode
    rcases foldedCall_dropped numbered member (mem_ids_of_find? foundNode) with
      stays | removed | operand
    · exact .inl stays
    · exact .inr (.inl removed)
    · obtain ⟨held, foundHeld, constant⟩ := constants id operand
      cases foundNode.symm.trans foundHeld
      exact .inr (.inr constant)

namespace Graph.FoldsCall

variable {meaning : Interpretation} {graph folded : Graph} {call : Node} {value : Value}
  (fold : graph.FoldsCall meaning folded call value)
include fold

theorem survives {id : NodeId} {node : Node} (found : graph.find? id = some node)
    (present : id ∈ folded.ids) :
    id ≠ call.id ∧ folded.find? id = some (node.fused graph.nextId call.id) := by
  obtain ⟨other, foundOther⟩ := exists_find? present
  rcases fold.origins id other foundOther with rfl | ⟨origin, foundOrigin, stays, rfl⟩
  · exact absurd (mem_ids_of_find? found) fold.fresh
  · cases found.symm.trans foundOrigin
    exact ⟨stays, foundOther⟩

theorem denotes_literal (scope : Scope) : Denotes meaning folded scope graph.nextId value :=
  .of_constant fold.literal rfl

/-- Denotations pass to what is left, where the constant has the place of the call. -/
theorem forward {scope : Scope} {id : NodeId} {result : Value}
    (denotes : Denotes meaning graph scope id result)
    (present : redirect graph.nextId call.id id ∈ folded.ids) :
    Denotes meaning folded scope (redirect graph.nextId call.id id) result := by
  refine denotes.levelInduction (motive := fun id result =>
    redirect graph.nextId call.id id ∈ folded.ids →
      Denotes meaning folded scope (redirect graph.nextId call.id id) result) ?_ ?_ present
  · intro id node values result found reads induction computed present
    by_cases isCall : id = call.id
    · subst isCall
      rw [redirect_self]
      rw [(Denotes.plain found reads computed).deterministic (fold.denotes scope)]
      exact fold.denotes_literal scope
    · rw [redirect_of_ne isCall] at present ⊢
      obtain ⟨_, foundOther⟩ := fold.survives found present
      refine (Node.renumbered_fused _ _ node).denotes foundOther ?_ computed
      intro read isRead
      refine induction read isRead (fold.linked _ (mem_of_find? foundOther).1 _ ?_)
      exact Node.inputs_subset_dependencies _
        (List.mem_map_of_mem (node.reads_subset_inputs isRead))
  · intro id node loop values found runs sources induction keys defined present
    have notCall : id ≠ call.id := by
      rintro rfl
      cases found.symm.trans fold.found
      have isLoop := (Node.loop?_eq_some.mp runs).1
      rw [fold.kind] at isLoop
      cases isLoop
    rw [redirect_of_ne notCall] at present ⊢
    obtain ⟨_, foundOther⟩ := fold.survives found present
    refine (Node.renumbered_fused _ _ node).denotes_loop foundOther runs ?_ keys defined
    intro binding member
    exact induction binding member (fold.linked _ (mem_of_find? foundOther).1 _
      (Node.source_mem_fused_dependencies runs member))

/-- Denotations of what is left come from the graph, where the call has the value of
the constant. -/
theorem backward (linked : ∀ node ∈ graph.nodes, ∀ id ∈ node.dependencies, id ∈ graph.ids)
    {scope : Scope} {id : NodeId} {result : Value}
    (denotes : Denotes meaning folded scope id result) :
    Denotes meaning graph scope (redirect call.id graph.nextId id) result := by
  have origin : ∀ {id other}, folded.find? id = some other → id ≠ graph.nextId →
      ∃ node, graph.find? id = some node ∧ other = node.fused graph.nextId call.id ∧
        graph.nextId ∉ node.dependencies := by
    intro id other foundOther old
    obtain ⟨node, found, _, rfl⟩ := (fold.origins id other foundOther).resolve_left old
    exact ⟨node, found, rfl, fun needed =>
      fold.fresh (linked node (mem_of_find? found).1 _ needed)⟩
  refine denotes.levelInduction (motive := fun id result =>
    Denotes meaning graph scope (redirect call.id graph.nextId id) result) ?_ ?_
  · intro id other values result foundOther reads induction computed
    by_cases isLiteral : id = graph.nextId
    · subst isLiteral
      rw [redirect_self,
        (Denotes.plain foundOther reads computed).deterministic (fold.denotes_literal scope)]
      exact fold.denotes scope
    · obtain ⟨node, found, rfl, unused⟩ := origin foundOther isLiteral
      rw [redirect_of_ne isLiteral]
      exact (Node.renumbered_of_fused unused).denotes found induction computed
  · intro id other changed values foundOther runs sources induction keys defined
    have old : id ≠ graph.nextId := by
      rintro rfl
      cases foundOther.symm.trans fold.literal
      cases (Node.loop?_eq_some.mp runs).1
    obtain ⟨node, found, rfl, unused⟩ := origin foundOther old
    rw [redirect_of_ne old]
    exact (Node.renumbered_of_fused unused).denotes_loop found runs induction keys defined

theorem exists_loop {id : NodeId} {other : Node} {changed : Loop}
    (foundOther : folded.find? id = some other) (runsOther : other.loop? = some changed) :
    ∃ node loop, graph.find? id = some node ∧ node.loop? = some loop ∧
      changed = loop.redirectBindings graph.nextId call.id := by
  rcases fold.origins id other foundOther with rfl | ⟨node, found, _, rfl⟩
  · cases foundOther.symm.trans fold.literal
    cases (Node.loop?_eq_some.mp runsOther).1
  · obtain ⟨loop, runs, rfl⟩ := Node.exists_loop_of_fused runsOther
    exact ⟨node, loop, found, runs, rfl⟩

theorem embeds : graph.Embeds folded := by
  have stays : ∀ {id node}, graph.find? id = some node → node.kind ≠ .call →
      node.kind ≠ .constant → folded.find? id = some (node.fused graph.nextId call.id) := by
    intro id node found notCall notConstant
    rcases fold.dropped id node found with present | rfl | constant
    · exact (fold.survives found present).2
    · cases found.symm.trans fold.found
      exact absurd fold.kind notCall
    · exact absurd constant notConstant
  refine .of_nodes ?_ ?_
  · intro id node found external
    have noLoop : node.loop? = none := Node.loop?_eq_none_of_kind (by simp [external])
    exact ⟨_, stays found (by simp [external]) (by simp [external]), external,
      Node.fused_content noLoop⟩
  · intro id node loop found runs
    have kind := (Node.loop?_eq_some.mp runs).1
    refine ⟨_, _, stays found (by simp [kind]) (by simp [kind]), Node.fused_loop? runs, ?_, .refl _⟩
    simp [Loop.redirectBindings, Function.comp_def]

theorem embeds_back : folded.Embeds graph := by
  refine .of_nodes ?_ ?_
  · intro id other foundOther external
    rcases fold.origins id other foundOther with rfl | ⟨node, found, _, rfl⟩
    · cases foundOther.symm.trans fold.literal
      cases external
    · have isExternal : node.kind = .external := external
      have noLoop : node.loop? = none := Node.loop?_eq_none_of_kind (by simp [isExternal])
      exact ⟨node, found, isExternal, (Node.fused_content noLoop).symm⟩
  · intro id other changed foundOther runsOther
    obtain ⟨node, loop, found, runs, rfl⟩ := fold.exists_loop foundOther runsOther
    refine ⟨node, loop, found, runs, ?_, .refl _⟩
    simp [Loop.redirectBindings, Function.comp_def]

theorem carries : graph.Carries meaning folded := by
  refine ⟨?_, ?_, ?_⟩
  · intro scope defined id present
    by_cases isLiteral : id = graph.nextId
    · exact ⟨value, isLiteral ▸ fold.denotes_literal scope⟩
    · obtain ⟨other, foundOther⟩ := exists_find? present
      obtain ⟨node, found, stays, _⟩ := (fold.origins id other foundOther).resolve_left isLiteral
      obtain ⟨result, denotes⟩ := defined id (mem_ids_of_find? found)
      have passed := fold.forward denotes (by rwa [redirect_of_ne stays])
      rw [redirect_of_ne stays] at passed
      exact ⟨result, passed⟩
  · intro scope values exits
    have kept := fold.kept
    unfold ExitsDenote at exits ⊢
    rw [fold.exits] at kept ⊢
    rw [List.forall₂_map_left_iff]
    have targets : ∀ exit ∈ graph.exits, redirect graph.nextId call.id exit.2 ∈ folded.ids :=
      fun exit isExit => kept _ (List.mem_map_of_mem isExit)
    refine ((List.forall₂_and_left _ _).mpr ⟨targets, exits⟩).imp ?_
    rintro exit found ⟨present, name, denotes⟩
    exact ⟨name, fold.forward denotes present⟩
  · exact fold.embeds

theorem carries_back (linked : ∀ node ∈ graph.nodes, ∀ id ∈ node.dependencies, id ∈ graph.ids)
    (exitsPresent : ∀ exit ∈ graph.exits, exit.2 ∈ graph.ids) : folded.Carries meaning graph := by
  refine ⟨?_, ?_, ?_⟩
  · intro scope defined id present
    obtain ⟨node, found⟩ := exists_find? present
    rcases fold.dropped id node found with stays | rfl | constant
    · obtain ⟨result, denotes⟩ := defined id stays
      have old : id ≠ graph.nextId := fun same => fold.fresh (same ▸ present)
      have passed := fold.backward linked denotes
      rw [redirect_of_ne old] at passed
      exact ⟨result, passed⟩
    · exact ⟨value, fold.denotes scope⟩
    · exact ⟨node.content, .of_constant found constant⟩
  · intro scope values exits
    unfold ExitsDenote at exits ⊢
    rw [fold.exits, List.forall₂_map_left_iff] at exits
    refine ((List.forall₂_and_left _ _).mpr ⟨exitsPresent, exits⟩).imp ?_
    rintro exit found ⟨present, name, denotes⟩
    have old : exit.2 ≠ graph.nextId := fun same => fold.fresh (same ▸ present)
    have passed := fold.backward linked denotes
    rw [redirect_redirect old] at passed
    exact ⟨name, passed⟩
  · exact fold.embeds_back

/-- The nodes that are left: the constant, and nodes of the graph. -/
theorem node_cases {other : Node} (member : other ∈ folded.nodes) :
    other = ⟨graph.nextId, .constant, value, [], unsetResult⟩ ∨
      ∃ node ∈ graph.nodes, other = node.fused graph.nextId call.id := by
  have foundOther := find?_of_mem fold.distinct member
  rcases fold.origins _ other foundOther with isNew | ⟨node, found, _, same⟩
  · rw [isNew, fold.literal] at foundOther
    exact .inl (Option.some.inj foundOther).symm
  · exact .inr ⟨node, (mem_of_find? found).1, same⟩

theorem acyclic (formed : graph.Formed) : folded.Acyclic := by
  obtain ⟨rank, ranked⟩ := formed.acyclic.exists_rank
  -- The constant goes below all other nodes.
  have rankedFolded : folded.RankedBy fun id => if id = graph.nextId then 0 else rank id + 1 := by
    intro other member dependency needed
    rcases fold.node_cases member with rfl | ⟨node, inside, rfl⟩
    · rw [literal_dependencies fold.noLoop] at needed
      cases needed
    · obtain ⟨original, isNeeded, rfl⟩ :=
        Node.mem_fused_dependencies (formed.plain node inside) needed
      have below := ranked node inside original isNeeded
      have oldNode : node.id ≠ graph.nextId := fun isNew =>
        fold.fresh (isNew ▸ mem_ids.mpr ⟨node, inside, rfl⟩)
      have oldTarget : original ≠ graph.nextId := fun isNew =>
        fold.fresh (isNew ▸ formed.linked node inside original isNeeded)
      have sameId : (node.fused graph.nextId call.id).id = node.id := rfl
      rw [sameId]
      by_cases isCall : original = call.id
      · simp [isCall, redirect_self, oldNode]
      · simpa [redirect_of_ne isCall, oldNode, oldTarget] using below
  exact rankedFolded.acyclic

theorem exact (exact : graph.Exact) : folded.Exact where
  distinct := fold.distinct
  linked := fold.linked
  exits := fold.kept
  carried := by
    intro other member kind
    rcases fold.node_cases member with rfl | ⟨node, inside, rfl⟩
    · cases kind
    · have nodeKind : node.kind = .loop := kind
      obtain ⟨loop, content⟩ := exact.carried node inside nodeKind
      have runs := Node.loop?_eq_some.mpr ⟨nodeKind, content⟩
      exact ⟨_, (Node.loop?_eq_some.mp (Node.fused_loop? runs)).2⟩
  plain := by
    intro other member loop content
    rcases fold.node_cases member with rfl | ⟨node, inside, rfl⟩
    · exact absurd content (fold.noLoop loop)
    · cases runs : node.loop? with
      | some held => exact (Node.loop?_eq_some.mp runs).1
      | none =>
          rw [Node.fused_content runs] at content
          exact exact.plain node inside loop content

/-- A property of all graphs of the nest that passes to the folded graph stays, since the
bodies are the same. -/
theorem everywhere {property : Graph → Prop} (here : property folded)
    (inside : graph.Everywhere property) : folded.Everywhere property := by
  refine everywhere_iff.mpr ⟨here, ?_⟩
  intro id other changed foundOther runsOther
  obtain ⟨node, loop, found, runs, rfl⟩ := fold.exists_loop foundOther runsOther
  have inBody := inside.body found runs
  exact inBody

theorem formed (formed : graph.Everywhere Formed) : folded.Everywhere Formed := by
  have exact := fold.exact formed.here.exact
  have boundNodes : ∀ other ∈ folded.nodes, ∀ changed, other.loop? = some changed →
      ∀ binding ∈ changed.bindings, ∃ bound, changed.body.find? binding.1 = some bound ∧
        bound.kind = .external := by
    intro other member changed runsOther binding bound
    obtain ⟨node, loop, found, runs, rfl⟩ :=
      fold.exists_loop (find?_of_mem fold.distinct member) runsOther
    obtain ⟨original, isOriginal, rfl⟩ := List.mem_map.mp bound
    exact formed.here.externalKeys node (mem_of_find? found).1 loop runs original isOriginal
  refine fold.everywhere ?_ formed
  refine
    { distinct := exact.distinct
      linked := exact.linked
      exits := exact.exits
      carried := exact.carried
      keys := ?_
      acyclic := fold.acyclic formed.here
      plain := exact.plain
      externalKeys := boundNodes }
  intro other member changed runsOther binding bound
  obtain ⟨target, found, _⟩ := boundNodes other member changed runsOther binding bound
  exact mem_ids_of_find? found

theorem numbered (numbered : graph.Numbered) : folded.Numbered := by
  intro id present
  rw [fold.nextId]
  obtain ⟨other, foundOther⟩ := exists_find? present
  rcases fold.origins id other foundOther with rfl | ⟨node, found, _⟩
  · exact Int.lt_succ _
  · exact (numbered id (mem_ids_of_find? found)).trans (Int.lt_succ _)

end Graph.FoldsCall

/-- Nodes that a graph shares with another keep their values there, and shared loops
keep their bodies and the scopes of these. -/
structure Graph.SharesWith (meaning : Interpretation) (graph other : Graph) : Prop where
  nextId : graph.nextId ≤ other.nextId
  old : ∀ id ∈ other.ids, id < graph.nextId → id ∈ graph.ids
  denotes : ∀ scope id value, id ∈ graph.ids → id ∈ other.ids →
    Denotes meaning graph scope id value → Denotes meaning other scope id value
  loops : ∀ id node loop changedNode, graph.find? id = some node → node.loop? = some loop →
    other.find? id = some changedNode → ∃ changed, changedNode.loop? = some changed ∧
      changed.body = loop.body ∧ ∀ scope values,
        (∀ binding ∈ loop.bindings, Denotes meaning graph scope binding.2 (values binding.2)) →
        ∃ others : NodeId → Value,
          (∀ binding ∈ changed.bindings,
            Denotes meaning other scope binding.2 (others binding.2)) ∧
          boundScope changed.body others scope changed.bindings =
            boundScope loop.body values scope loop.bindings

namespace Graph.SharesWith

variable {meaning : Interpretation} {graph middle other : Graph}

theorem refl (graph : Graph) : graph.SharesWith meaning graph where
  nextId := le_refl _
  old := fun _ present _ => present
  denotes := fun _ _ _ _ _ denotes => denotes
  loops := by
    intro id node loop changedNode found runs foundAgain
    cases found.symm.trans foundAgain
    exact ⟨loop, runs, rfl, fun scope values sources => ⟨values, sources, rfl⟩⟩

/-- A node that is shared at the ends is shared in the middle, since numbers are not
used again. -/
theorem trans (numbered : graph.Numbered) (first : graph.SharesWith meaning middle)
    (second : middle.SharesWith meaning other) : graph.SharesWith meaning other := by
  have between : ∀ id ∈ graph.ids, id ∈ other.ids → id ∈ middle.ids := fun id inGraph inOther =>
    second.old id inOther (lt_of_lt_of_le (numbered id inGraph) first.nextId)
  refine
    { nextId := le_trans first.nextId second.nextId
      old := fun id present below =>
        first.old id (second.old id present (lt_of_lt_of_le below first.nextId)) below
      denotes := ?_
      loops := ?_ }
  · intro scope id value inGraph inOther denotes
    have inMiddle := between id inGraph inOther
    exact second.denotes scope id value inMiddle inOther
      (first.denotes scope id value inGraph inMiddle denotes)
  · intro id node loop lastNode found runs foundLast
    obtain ⟨middleNode, foundMiddle⟩ := exists_find?
      (between id (mem_ids_of_find? found) (mem_ids_of_find? foundLast))
    obtain ⟨changed, runsMiddle, sameBody, scopes⟩ :=
      first.loops id node loop middleNode found runs foundMiddle
    obtain ⟨last, runsLast, sameAgain, scopesAgain⟩ :=
      second.loops id middleNode changed lastNode foundMiddle runsMiddle foundLast
    refine ⟨last, runsLast, sameAgain.trans sameBody, ?_⟩
    intro scope values sources
    obtain ⟨others, sourcesMiddle, sameScope⟩ := scopes scope values sources
    obtain ⟨lastValues, sourcesLast, sameLast⟩ := scopesAgain scope others sourcesMiddle
    exact ⟨lastValues, sourcesLast, sameLast.trans sameScope⟩

end Graph.SharesWith

theorem Graph.FoldsCall.sharesWith {meaning : Interpretation} {graph folded : Graph} {call : Node}
    {value : Value} (fold : graph.FoldsCall meaning folded call value) :
    graph.SharesWith meaning folded := by
  refine
    { nextId := fold.nextId ▸ le_of_lt (Int.lt_succ _)
      old := ?_
      denotes := ?_
      loops := ?_ }
  · intro id present below
    obtain ⟨other, foundOther⟩ := exists_find? present
    rcases fold.origins id other foundOther with rfl | ⟨node, found, _⟩
    · exact absurd below (lt_irrefl _)
    · exact mem_ids_of_find? found
  · intro scope id result inGraph inFolded denotes
    obtain ⟨node, found⟩ := exists_find? inGraph
    have stays := (fold.survives found inFolded).1
    have passed := fold.forward denotes (by rwa [redirect_of_ne stays])
    rwa [redirect_of_ne stays] at passed
  · intro id node loop other found runs foundOther
    obtain ⟨_, foundFused⟩ := fold.survives found (mem_ids_of_find? foundOther)
    cases foundOther.symm.trans foundFused
    refine ⟨_, Node.fused_loop? runs, rfl, ?_⟩
    intro scope values sources
    obtain ⟨changed, others, runsFused, _, _, sourcesFused, sameScope⟩ :=
      (Node.renumbered_fused graph.nextId call.id node).exists_sources runs
        fun binding member => fold.forward (sources binding member)
          (fold.linked _ (mem_of_find? foundFused).1 _
            (Node.source_mem_fused_dependencies runs member))
    cases (Node.fused_loop? runs).symm.trans runsFused
    exact ⟨others, sourcesFused, sameScope⟩

/-- What folding the calls of one graph keeps. -/
structure Graph.FoldsLevel (meaning : Interpretation) (graph folded : Graph) : Prop where
  formed : folded.Everywhere Formed
  numbered : folded.Everywhere Numbered
  carries : graph.Carries meaning folded
  carriesBack : folded.Carries meaning graph
  shares : graph.SharesWith meaning folded

/-- Folding calls until none can be folded is a row of folds. -/
theorem Graph.foldsLevel_of_foldCalls {meaning : Interpretation} {policy : FoldPolicy}
    (returns : meaning.ReturnsNoLoop) {fuel count : Nat} {graph folded : Graph}
    (formed : graph.Everywhere Formed) (numbered : graph.Everywhere Numbered)
    (done : foldCalls meaning policy fuel graph = .ok (folded, count)) :
    graph.FoldsLevel meaning folded := by
  induction fuel generalizing graph folded count with
  | zero =>
      cases done
      exact ⟨formed, numbered, .refl _, .refl _, .refl _⟩
  | succ fuel induction =>
      obtain ⟨choice, chosen, remaining⟩ := bind_eq_ok.mp done
      cases choice with
      | none =>
          cases remaining
          exact ⟨formed, numbered, .refl _, .refl _, .refl _⟩
      | some call =>
          obtain ⟨next, folds, afterFold⟩ := bind_eq_ok.mp remaining
          obtain ⟨⟨final, rest⟩, later, ends⟩ := bind_eq_ok.mp afterFold
          cases ends
          obtain ⟨member, foldable⟩ := isFoldable_of_firstFoldable chosen
          obtain ⟨candidate, constants⟩ := isFoldable_eq_true_iff.mp foldable
          obtain ⟨value, fold⟩ := foldsCall_of_foldNode returns formed.here.exact numbered.here
            member candidate.kind constants folds
          have level := induction (fold.formed formed)
            (fold.everywhere (fold.numbered numbered.here) numbered) later
          exact
            { formed := level.formed
              numbered := level.numbered
              carries := fold.carries.trans level.carries
              carriesBack := level.carriesBack.trans
                (fold.carries_back formed.here.linked formed.here.exits)
              shares := fold.sharesWith.trans numbered.here level.shares }

section Bodies

variable {visit : Graph → Except Fault (Graph × Nat)} {node : Node}

/-- Folding in the bodies of nodes succeeded: loops have the bodies that the visits gave,
other nodes are as they were, and the folds of the visits add up. -/
inductive BodiesFolded (visit : Graph → Except Fault (Graph × Nat)) :
    List Node → List Node → Nat → Prop where
  | nil : BodiesFolded visit [] [] 0
  | loop {node : Node} {loop : Loop} {body : Graph} {rest others : List Node} {inner count : Nat}
      (runs : node.loop? = some loop) (visited : visit loop.body = .ok (body, inner))
      (later : BodiesFolded visit rest others count) :
      BodiesFolded visit (node :: rest)
        ({ node with content := .loop { loop with body := body } } :: others) (inner + count)
  | plain {node : Node} {rest others : List Node} {count : Nat} (kind : node.kind ≠ .loop)
      (later : BodiesFolded visit rest others count) :
      BodiesFolded visit (node :: rest) (node :: others) count

theorem bodiesFolded_of_ok {nodes others : List Node} {count : Nat}
    (done : foldBodies visit nodes = .ok (others, count)) :
    BodiesFolded visit nodes others count := by
  induction nodes generalizing others count with
  | nil =>
      cases done
      exact .nil
  | cons node rest induction =>
      cases runs : node.loop? with
      | some loop =>
          rw [foldBodies_loop runs] at done
          obtain ⟨⟨body, inner⟩, visited, afterBody⟩ := bind_eq_ok.mp done
          obtain ⟨⟨later, outer⟩, restDone, ends⟩ := bind_eq_ok.mp afterBody
          cases ends
          exact .loop runs visited (induction restDone)
      | none =>
          by_cases kind : node.kind = .loop
          · rw [foldBodies_bodyless kind runs] at done
            cases done
          · rw [foldBodies_plain kind] at done
            obtain ⟨⟨later, outer⟩, restDone, ends⟩ := bind_eq_ok.mp done
            cases ends
            exact .plain kind (induction restDone)

theorem foldBodies_replaced {passes : Graph → Graph → Prop} {nodes others : List Node} {count : Nat}
    (well : ∀ node ∈ nodes, ∀ loop, node.loop? = some loop → ∀ body inner,
      visit loop.body = .ok (body, inner) → passes loop.body body)
    (done : foldBodies visit nodes = .ok (others, count)) :
    List.Forall₂ (Node.Revised (Loop.ReplacedBy passes)) nodes others := by
  replace done := bodiesFolded_of_ok done
  induction done with
  | nil => exact .nil
  | @loop node loop body rest others inner count runs visited later induction =>
      have passed := well node List.mem_cons_self loop runs body inner visited
      exact .cons (.loop runs ⟨rfl, passed⟩)
        (induction fun other member => well other (List.mem_cons_of_mem _ member))
  | plain kind later induction =>
      exact .cons (.same (Node.loop?_eq_none_of_kind kind))
        (induction fun other member => well other (List.mem_cons_of_mem _ member))

theorem foldBodies_revised {passes : Graph → Graph → Prop} {nodes others : List Node} {count : Nat}
    (well : ∀ node ∈ nodes, ∀ loop, node.loop? = some loop → ∀ body inner,
      visit loop.body = .ok (body, inner) → passes loop.body body)
    (done : foldBodies visit nodes = .ok (others, count)) :
    List.Forall₂ (Node.Revised (Loop.VisitedBy passes)) nodes others :=
  (foldBodies_replaced well done).imp fun _ _ revised => revised.mono fun _ _ replaced =>
    replaced.visitedBy

end Bodies

/-- What folding a graph and the bodies of its loops keeps. -/
structure Graph.FoldsTo (meaning : Interpretation) (graph folded : Graph) : Prop where
  formed : folded.Everywhere Formed
  numbered : folded.Everywhere Numbered
  carries : graph.Carries meaning folded
  carriesBack : folded.Carries meaning graph
  results : ∀ scope path body rest, graph.Defined meaning scope →
    graph.within? path = some body → folded.within? path = some rest →
    ∃ inner, Enters meaning graph scope path body inner ∧
      Enters meaning folded scope path rest inner ∧
      ∀ id value, id ∈ body.ids → id ∈ rest.ids →
        Denotes meaning body inner id value → Denotes meaning rest inner id value

theorem Graph.FoldsTo.refl {meaning : Interpretation} {graph : Graph}
    (formed : graph.Everywhere Formed) (numbered : graph.Everywhere Numbered) :
    graph.FoldsTo meaning graph := by
  refine ⟨formed, numbered, .refl _, .refl _, ?_⟩
  intro scope path body rest defined reached reachedAgain
  cases reached.symm.trans reachedAgain
  obtain ⟨inner, enters, _⟩ := defined.exists_enters reached
  exact ⟨inner, enters, enters, fun _ _ _ _ denotes => denotes⟩

section Bodies

variable {meaning : Interpretation} {graph level folded : Graph}
  (folds : graph.FoldsLevel meaning level)
  (revised : List.Forall₂ (Node.Revised (Loop.VisitedBy (Graph.FoldsTo meaning))) level.nodes
    folded.nodes)
include revised

theorem Graph.carried_of_foldBodies (id : NodeId) :
    Option.Rel (Node.Revised (Loop.VisitedBy (Carries meaning))) (level.find? id)
      (folded.find? id) :=
  find?_revised (revised.imp fun _ _ changed =>
    changed.mono fun _ _ visited => ⟨visited.bindings, visited.body.carries⟩) id

theorem Graph.carriedBack_of_foldBodies (id : NodeId) :
    Option.Rel (Node.Revised (Loop.VisitedBy (Carries meaning))) (folded.find? id)
      (level.find? id) :=
  find?_revised (List.Forall₂.flip (revised.imp fun _ _ changed =>
    changed.symm.mono fun _ _ visited =>
      ⟨visited.bindings.symm, visited.body.carriesBack⟩)) id

include folds

/-- Nodes at the end of a path keep their values when the calls of the graph and then
the bodies of its loops are folded. -/
theorem Graph.FoldsLevel.results {scope : Scope} {path : List NodeId} {body rest : Graph}
    (defined : graph.Defined meaning scope) (reached : graph.within? path = some body)
    (reachedRest : folded.within? path = some rest) :
    ∃ inner, Enters meaning graph scope path body inner ∧
      Enters meaning folded scope path rest inner ∧
      ∀ id value, id ∈ body.ids → id ∈ rest.ids →
        Denotes meaning body inner id value → Denotes meaning rest inner id value := by
  have partners := carried_of_foldBodies revised
  have formed := folds.formed.here
  cases path with
  | nil =>
      cases reached
      cases reachedRest
      refine ⟨scope, .here, .here, ?_⟩
      intro id value inGraph inFolded denotes
      have sameIds : folded.ids = level.ids := ids_revised revised
      have inLevel : id ∈ level.ids := sameIds ▸ inFolded
      exact (folds.shares.denotes scope id value inGraph inLevel denotes).carried formed partners
  | cons id path =>
      obtain ⟨node, loop, found, runs, deeper⟩ := within?_cons.mp reached
      obtain ⟨foldedNode, visited, foundFolded, runsFolded, deeperRest⟩ :=
        within?_cons.mp reachedRest
      obtain ⟨levelNode, foundLevel, changed⟩ :=
        exists_partnered (find?_revised revised _) foundFolded
      obtain ⟨levelLoop, runsLevel, passed⟩ := changed.exists_origin runsFolded
      obtain ⟨held, runsHeld, sameBody, scopes⟩ :=
        folds.shares.loops id node loop levelNode found runs foundLevel
      cases runsLevel.symm.trans runsHeld
      obtain ⟨value, denotes⟩ := defined id (mem_ids_of_find? found)
      obtain ⟨values, sources, _⟩ := denotes.defined_body found runs
      obtain ⟨others, sourcesLevel, sameScope⟩ := scopes scope values sources
      have sourcesFolded : ∀ binding ∈ visited.bindings,
          Denotes meaning folded scope binding.2 (others binding.2) :=
        fun binding member => (sourcesLevel binding (passed.bindings ▸ member)).carried formed
          partners
      have kept : levelLoop.KeptBy meaning visited :=
        Loop.VisitedBy.keptBy ⟨passed.bindings, passed.body.carries⟩ formed foundLevel runsLevel
      obtain ⟨inner, enters, entersRest, same⟩ := passed.body.results
        (boundScope loop.body values scope loop.bindings) path body rest
        (sameBody ▸ defined.body found runs sources) (sameBody ▸ deeper) deeperRest
      rw [← sameScope, ← kept.boundScope_eq] at entersRest
      exact ⟨inner, .inside found runs sources (sameBody ▸ enters),
        .inside foundFolded runsFolded sourcesFolded entersRest, same⟩

theorem Graph.FoldsLevel.foldsTo (exits : folded.exits = level.exits)
    (nextId : folded.nextId = level.nextId) : graph.FoldsTo meaning folded := by
  have formed : folded.Everywhere Formed := formed_of_bodies folds.formed revised exits
    fun _ _ _ _ _ _ passed => ⟨passed.formed, passed.carries⟩
  exact
    { formed := formed
      numbered := numbered_of_bodies folds.numbered revised nextId
        fun _ _ _ _ _ _ passed => passed.numbered
      carries := folds.carries.trans
        (.of_bodies folds.formed.here exits (carried_of_foldBodies revised))
      carriesBack := Carries.trans
        (.of_bodies formed.here exits.symm (carriedBack_of_foldBodies revised)) folds.carriesBack
      results := fun _ _ _ _ => folds.results revised }

end Bodies

theorem Graph.foldConstants_eq_ok {meaning : Interpretation} {policy : FoldPolicy}
    {graph : Graph} {count : Nat} (done : (graph.foldConstants meaning policy).answer = .ok count) :
    foldNested meaning policy graph.depth graph =
      .ok ((graph.foldConstants meaning policy).graph, count) := by
  rw [foldConstants_eq] at done ⊢
  split at done
  · rename_i folded folds succeeded
    cases done
    simp only [succeeded]
  · cases done

section Folding

variable {meaning : Interpretation} {policy : FoldPolicy} (returns : meaning.ReturnsNoLoop)
include returns

theorem Graph.foldsTo_of_foldWith {visit : Graph → Except Fault (Graph × Nat)}
    (well : ∀ body other inner, body.Everywhere Formed → body.Everywhere Numbered →
      visit body = .ok (other, inner) → body.FoldsTo meaning other)
    {graph folded : Graph} {count : Nat} (formed : graph.Everywhere Formed)
    (numbered : graph.Everywhere Numbered)
    (done : foldWith meaning policy visit graph = .ok (folded, count)) :
    graph.FoldsTo meaning folded := by
  obtain ⟨⟨level, calls⟩, levelDone, afterLevel⟩ := bind_eq_ok.mp done
  obtain ⟨⟨nodes, others⟩, bodiesDone, ends⟩ := bind_eq_ok.mp afterLevel
  cases ends
  have folds := foldsLevel_of_foldCalls returns formed numbered levelDone
  have revised := foldBodies_revised (fun node member loop runs body inner =>
    well loop.body body inner
      (folds.formed.body (find?_of_mem folds.formed.here.distinct member) runs)
      (folds.numbered.body (find?_of_mem folds.formed.here.distinct member) runs)) bodiesDone
  exact folds.foldsTo revised rfl rfl

theorem Graph.foldsTo_of_foldNested {depth : Nat} {graph folded : Graph} {count : Nat}
    (formed : graph.Everywhere Formed) (numbered : graph.Everywhere Numbered)
    (done : foldNested meaning policy depth graph = .ok (folded, count)) :
    graph.FoldsTo meaning folded := by
  induction depth generalizing graph folded count with
  | zero =>
      refine foldsTo_of_foldWith returns ?_ formed numbered done
      intro body other inner bodyFormed bodyNumbered same
      cases same
      exact .refl bodyFormed bodyNumbered
  | succ depth induction =>
      exact foldsTo_of_foldWith returns (fun body other inner => induction) formed numbered done

theorem Graph.foldsTo_of_foldConstants {graph : Graph} {count : Nat}
    (formed : graph.Everywhere Formed) (numbered : graph.Everywhere Numbered)
    (done : (graph.foldConstants meaning policy).answer = .ok count) :
    graph.FoldsTo meaning (graph.foldConstants meaning policy).graph :=
  foldsTo_of_foldNested returns formed numbered (foldConstants_eq_ok done)

/-- Folding constants keeps evaluation in both directions: the graph and the folded
graph have the same exit values or none, and then the nodes that stay have the same
results at every depth. -/
theorem Graph.foldConstants_preserves_evaluation {graph : Graph} (sound : graph.Sound)
    {count : Nat} (done : (graph.foldConstants meaning policy).answer = .ok count)
    (scope : Scope) :
    (∀ values, (graph.evaluate meaning scope).answer = .ok values ↔
      ((graph.foldConstants meaning policy).graph.evaluate meaning scope).answer = .ok values) ∧
    ∀ values, (graph.evaluate meaning scope).answer = .ok values →
      graph.SameResults (graph.foldConstants meaning policy).graph
        (graph.evaluate meaning scope).graph
        ((graph.foldConstants meaning policy).graph.evaluate meaning scope).graph := by
  have formed := sound.wellFormed.formed
  have folds := foldsTo_of_foldConstants returns formed sound.numbered done
  generalize (graph.foldConstants meaning policy).graph = folded at folds ⊢
  have same : ∀ values, (graph.evaluate meaning scope).answer = .ok values ↔
      (folded.evaluate meaning scope).answer = .ok values := by
    intro values
    rw [← means_iff formed, ← means_iff folds.formed]
    exact ⟨fun means => means.carried folds.formed folds.carries,
      fun means => means.carried formed folds.carriesBack⟩
  refine ⟨same, ?_⟩
  intro values succeeded path body rest reached reachedRest id inGraph inFolded
  obtain ⟨defined, completes, _⟩ :=
    (computedBy_evaluate formed.evaluable meaning scope).sound values succeeded
  obtain ⟨_, completesFolded, _⟩ := (computedBy_evaluate folds.formed.evaluable meaning
    scope).sound values ((same values).mp succeeded)
  obtain ⟨inner, enters, entersRest, shared⟩ :=
    folds.results scope path body rest defined reached reachedRest
  obtain ⟨again, entersAgain, bodyDefined⟩ := defined.exists_enters reached
  obtain ⟨_, rfl⟩ := enters.unique entersAgain
  obtain ⟨value, denotes⟩ := bodyDefined id inGraph
  exact ⟨value, completes.resultAt_eq enters denotes,
    completesFolded.resultAt_eq entersRest (shared id value inGraph inFolded denotes)⟩

end Folding

theorem adding_returnsNoLoop : adding.ReturnsNoLoop := by
  intro name operands loop returned
  cases returned

/-- Over a body in which nothing is folded, only the sum of constants is. -/
theorem foldConstants_triplingOver {body : Graph} (formed : (triplingOver body).Formed)
    (numbered : (triplingOver body).Numbered)
    (unfolded : foldNested adding .standard body.depth body = .ok (body, 0)) :
    ((triplingOver body).foldConstants adding .standard).answer = .ok 1 := by
  have member : ⟨2, .call, .text "+", [0, 1], .null⟩ ∈ (triplingOver body).nodes := by
    simp [triplingOver]
  have computed : adding.call "+" [.int 1, .int 2] = .ok (.int 3) := rfl
  have folded := foldNode_of_call formed.distinct formed.carried numbered member rfl computed
    (fun loop isLoop => by cases isLoop)
  have calls : foldCalls adding .standard 1 (triplingOver body) = .ok (_, 1) :=
    bind_eq_ok.mpr ⟨some _, rfl, bind_eq_ok.mpr ⟨_, folded, rfl⟩⟩
  have nested : foldNested adding .standard (body.depth + 1) (triplingOver body) = .ok (_, 1) :=
    bind_eq_ok.mpr ⟨_, calls, bind_eq_ok.mpr ⟨_, bind_eq_ok.mpr ⟨_, unfolded, rfl⟩, rfl⟩⟩
  have deep : (triplingOver body).depth = body.depth + 1 := by
    simp [triplingOver, Graph.depth, depthOfNodes]
  simp only [Graph.foldConstants_eq, deep, nested]

theorem folded_tripling_evaluates :
    ((tripling.foldConstants adding .standard).graph.evaluate adding fun _ => none).answer =
      .ok [("total", .int 3), ("loop", .null)] :=
  ((Graph.foldConstants_preserves_evaluation adding_returnsNoLoop tripling_sound
    (foldConstants_triplingOver tripling_wellFormed.formed.here tripling_numbered.here rfl)
    fun _ => none).1 _).mp evaluate_tripling

end FlowGraph

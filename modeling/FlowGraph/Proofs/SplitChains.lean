import FlowGraph.Proofs.SplitRuns
import Mathlib.Data.List.Pairwise

/-!
# The chains that splitting builds

Splitting a call leaves it with its first operand and a new call, which has the other
operands and may be split in its turn.  So every call that had too many operands ends as
the head of a chain: each of the calls on it takes one operand and passes on to the next
one, up to the last, which takes two.  All new nodes lie on chains, each on one of them,
and every other node is what it was.
-/

namespace FlowGraph

namespace Graph

/-- A call with these inputs is followed by links, each the second operand of the call
before it, and the operands along the chain are these.  All links are calls with the same
content. -/
inductive Strung (graph : Graph) (content : Value) :
    List NodeId → List NodeId → List NodeId → Prop where
  | last {inputs : List NodeId} (several : 2 ≤ inputs.length) :
      Strung graph content inputs [] inputs
  | link {first id : NodeId} {inputs links operands : List NodeId}
      (found : graph.find? id = some ⟨id, .call, content, inputs, unsetResult⟩)
      (rest : Strung graph content inputs links operands) :
      Strung graph content [first, id] (id :: links) (first :: operands)

/-- A graph in which the calls with too many operands have become chains.  The new nodes
are the links of the chains, and what stands for another node is told by `keeps`. -/
structure Chained (keeps : Node → Node → Prop) (chain : NodeId → List NodeId)
    (graph other : Graph) : Prop where
  exits : other.exits = graph.exits
  distinct : other.ids.Nodup
  ids : ∃ created, other.ids = graph.ids ++ created ∧ created.Perm (graph.ids.flatMap chain)
  calls : ∀ node ∈ graph.nodes, node.isWide = true → ∃ inputs,
    other.find? node.id = some { node with inputs := inputs } ∧
      other.Strung node.content inputs (chain node.id) node.inputs
  others : ∀ node ∈ graph.nodes, node.isWide = false →
    chain node.id = [] ∧ ∃ changed, other.find? node.id = some changed ∧ keeps node changed

namespace Strung

variable {graph other : Graph} {content : Value} {inputs links operands : List NodeId}
  (strung : graph.Strung content inputs links operands)
include strung

theorem transport (same : ∀ id node, graph.find? id = some node → node.kind = .call →
    id ∈ links → other.find? id = some node) : other.Strung content inputs links operands := by
  induction strung with
  | last several => exact .last several
  | link found _ induction =>
      apply Strung.link (same _ _ found rfl List.mem_cons_self)
      apply induction
      intro id node holds isCall member
      exact same id node holds isCall (List.mem_cons_of_mem _ member)

/-- A call with more than two inputs has nothing behind it. -/
theorem of_wide (wide : 2 < inputs.length) : links = [] ∧ operands = inputs := by
  cases strung with
  | last => exact ⟨rfl, rfl⟩
  | link => simp at wide

variable {call : Node} {name : String} {first : NodeId} {others : List NodeId}
  (splits : graph.SplitsCall call name first others)
include splits

theorem of_unlinked (unlinked : call.id ∉ links) :
    (graph.splitCall call first others).Strung content inputs links operands := by
  apply strung.transport
  intro id node found _ member
  apply splits.find?_other found
  rintro rfl
  exact unlinked member

/-- Splitting the last call of a chain makes the chain longer by the new call. -/
theorem of_linked (linked : call.id ∈ links) :
    (graph.splitCall call first others).Strung content inputs (links ++ [graph.nextId])
      operands := by
  obtain ⟨second, third, tail, whole, rfl⟩ := splits.inputs
  induction strung with
  | last => cases linked
  | @link head id inputs links operands found rest induction =>
      by_cases isCall : id = call.id
      · subst isCall
        have isNode := Option.some.inj (splits.found.symm.trans found)
        have sameContent : call.content = content := congrArg Node.content isNode
        have sameInputs : call.inputs = inputs := congrArg Node.inputs isNode
        have sameResult : call.result = unsetResult := congrArg Node.result isNode
        obtain ⟨rfl, rfl⟩ := rest.of_wide (by simp [← sameInputs, whole])
        have foundCall := splits.find?_call
        have foundPart := splits.find?_part
        rw [splits.kind, sameContent, sameResult] at foundCall
        rw [sameContent] at foundPart
        rw [← sameInputs, whole]
        exact .link foundCall (.link foundPart (.last (by simp)))
      · have later : call.id ∈ links := (List.mem_cons.mp linked).resolve_left (Ne.symm isCall)
        exact .link (splits.find?_other found isCall) (induction later)

end Strung

theorem SplitsCall.isWide {graph : Graph} {call : Node} {name : String} {first : NodeId}
    {others : List NodeId} (splits : graph.SplitsCall call name first others) :
    call.isWide = true := by
  obtain ⟨second, third, tail, whole, rfl⟩ := splits.inputs
  simp [Node.isWide, splits.kind, splits.isFolding_content, whole]

end Graph

/-- One more item in one of the lists is one more item in all. -/
theorem flatMap_update_perm {ids : List NodeId} {chain : NodeId → List NodeId} {owner : NodeId}
    (distinct : ids.Nodup) (member : owner ∈ ids) (id : NodeId) :
    (ids.flatMap (Function.update chain owner (chain owner ++ [id]))).Perm
      (ids.flatMap chain ++ [id]) := by
  induction ids with
  | nil => cases member
  | cons head rest induction =>
      rw [List.nodup_cons] at distinct
      rw [List.flatMap_cons, List.flatMap_cons]
      rcases List.mem_cons.mp member with rfl | later
      · have unchanged : rest.flatMap (Function.update chain owner (chain owner ++ [id])) =
            rest.flatMap chain := by
          apply List.flatMap_congr
          intro other inRest
          apply Function.update_of_ne
          rintro rfl
          exact distinct.1 inRest
        rw [unchanged, Function.update_self, List.append_assoc, List.append_assoc]
        exact (List.perm_append_comm).append_left _
      · have different : head ≠ owner := by
          rintro rfl
          exact distinct.1 later
        rw [Function.update_of_ne different, List.append_assoc]
        exact (induction distinct.2 later).append_left _

namespace Graph

namespace Chained

variable {chain : NodeId → List NodeId} {graph other : Graph}

theorem refl (distinct : graph.ids.Nodup) : graph.Chained Eq (fun _ => []) graph where
  exits := rfl
  distinct := distinct
  ids := ⟨[], by simp, by simp⟩
  calls := by
    intro node member wide
    refine ⟨node.inputs, ?_, .last ?_⟩
    · rw [find?_of_mem distinct member]
      cases node
      rfl
    · simp [Node.isWide] at wide
      omega
  others := fun node member _ => ⟨rfl, node, find?_of_mem distinct member, rfl⟩

variable {keeps : Node → Node → Prop} (chained : graph.Chained keeps chain other)
include chained

theorem created_of_linked {call id : NodeId} (isCall : call ∈ graph.ids) (linked : id ∈ chain call) :
    id ∉ graph.ids := by
  obtain ⟨created, all, made⟩ := chained.ids
  have inCreated : id ∈ created := made.mem_iff.mpr (List.mem_flatMap.mpr ⟨call, isCall, linked⟩)
  have apart := chained.distinct
  rw [all, List.nodup_append] at apart
  intro old
  exact apart.2.2 id old id inCreated rfl

/-- A node lies on one chain only. -/
theorem eq_of_linked {call second id : NodeId}
    (isCall : call ∈ graph.ids) (isSecond : second ∈ graph.ids) (linked : id ∈ chain call)
    (alsoLinked : id ∈ chain second) : call = second := by
  obtain ⟨created, all, made⟩ := chained.ids
  have apart := chained.distinct
  rw [all, List.nodup_append, made.nodup_iff, List.nodup_flatMap] at apart
  by_contra different
  have symmetric : Std.Symm (Function.onFun List.Disjoint chain) :=
    ⟨fun _ _ => List.Disjoint.symm⟩
  exact apart.2.1.2.forall isCall isSecond different linked alsoLinked

end Chained

section Step

variable {chain : NodeId → List NodeId} {graph middle : Graph} {call : Node} {name : String}
  {first : NodeId} {others : List NodeId} (chained : graph.Chained Eq chain middle)
  (splits : middle.SplitsCall call name first others)
include chained splits

/-- A call that is split is a node from before with nothing behind it, or the last link of
a chain. -/
theorem Chained.owner_cases :
    call ∈ graph.nodes ∧ chain call.id = [] ∨ ∃ owner ∈ graph.ids, call.id ∈ chain owner := by
  obtain ⟨created, all, made⟩ := chained.ids
  have present := mem_ids_of_find? splits.found
  rw [all, List.mem_append] at present
  rcases present with old | new
  · obtain ⟨node, member, same⟩ := mem_ids.mp old
    have found : middle.find? node.id = some call := same ▸ splits.found
    refine .inl ?_
    cases wide : node.isWide with
    | false =>
        obtain ⟨unchained, changed, kept, rfl⟩ := chained.others node member wide
        cases found.symm.trans kept
        exact ⟨member, unchained⟩
    | true =>
        obtain ⟨inputs, kept, strung⟩ := chained.calls node member wide
        have isNode := Option.some.inj (found.symm.trans kept)
        obtain ⟨second, third, tail, whole, tailIs⟩ := splits.inputs
        have sameInputs : call.inputs = inputs := congrArg Node.inputs isNode
        obtain ⟨unchained, operands⟩ := strung.of_wide (by simp [← sameInputs, whole, tailIs])
        have isCall : call = node := by
          rw [isNode, ← operands]
          cases node
          rfl
        subst isCall
        exact ⟨member, unchained⟩
  · obtain ⟨owner, isOwner, linked⟩ := List.mem_flatMap.mp (made.mem_iff.mp new)
    exact .inr ⟨owner, isOwner, linked⟩

/-- A split adds its new call to the chain of one call. -/
theorem Chained.extended {owner : Node} (tidy : middle.Tidy) (distinct : graph.ids.Nodup)
    (isOwner : owner ∈ graph.nodes) (wide : owner.isWide = true)
    (calls : ∀ node ∈ graph.nodes, node.isWide = true → ∃ inputs,
      (middle.splitCall call first others).find? node.id = some { node with inputs := inputs } ∧
        (middle.splitCall call first others).Strung node.content inputs
          (Function.update chain owner.id (chain owner.id ++ [middle.nextId]) node.id)
          node.inputs) :
    graph.Chained Eq (Function.update chain owner.id (chain owner.id ++ [middle.nextId]))
      (middle.splitCall call first others) where
  exits := splitCall_exits.trans chained.exits
  distinct := splitCall_distinct tidy.numbered tidy.distinct
  ids := by
    obtain ⟨created, all, made⟩ := chained.ids
    have ownerId : owner.id ∈ graph.ids := mem_ids.mpr ⟨owner, isOwner, rfl⟩
    refine ⟨created ++ [middle.nextId], ?_, ?_⟩
    · rw [splitCall_ids, ← List.append_assoc, ← all, Graph.ids,
        extended_nodes tidy.numbered.fresh]
      exact List.map_append
    · exact (made.append_right _).trans (flatMap_update_perm distinct ownerId _).symm
  calls := calls
  others := by
    intro node member narrow
    have notOwner : node.id ≠ owner.id := by
      intro same
      have found := find?_of_mem distinct member
      rw [same, find?_of_mem distinct isOwner] at found
      cases found
      cases narrow.symm.trans wide
    obtain ⟨unchained, changed, kept, rfl⟩ := chained.others node member narrow
    refine ⟨(Function.update_of_ne notOwner _ _).trans unchained, node, ?_, rfl⟩
    apply splits.find?_other kept
    intro same
    have found := splits.found
    rw [← same, kept] at found
    cases found
    cases narrow.symm.trans splits.isWide

/-- After a split there are chains again. -/
theorem Chained.step (tidy : middle.Tidy) (distinct : graph.ids.Nodup) :
    ∃ chain, graph.Chained Eq chain (middle.splitCall call first others) := by
  rcases chained.owner_cases splits with ⟨isNode, unchained⟩ | ⟨owner, isOwner, linked⟩
  · refine ⟨_, chained.extended splits tidy distinct isNode splits.isWide ?_⟩
    intro node member wide
    by_cases same : node.id = call.id
    · have found := find?_of_mem distinct member
      rw [same, find?_of_mem distinct isNode] at found
      cases found
      obtain ⟨second, third, tail, whole, tailIs⟩ := splits.inputs
      refine ⟨_, splits.find?_call, ?_⟩
      rw [Function.update_self, unchained, whole]
      exact .link splits.find?_part (.last (by simp [tailIs]))
    · obtain ⟨inputs, found, strung⟩ := chained.calls node member wide
      refine ⟨inputs, splits.find?_other found same, ?_⟩
      rw [Function.update_of_ne same]
      apply strung.of_unlinked splits
      intro linked
      exact chained.created_of_linked (mem_ids.mpr ⟨node, member, rfl⟩) linked
        (mem_ids.mpr ⟨call, isNode, rfl⟩)
  · obtain ⟨head, isHead, rfl⟩ := mem_ids.mp isOwner
    have wideHead : head.isWide = true := by
      cases wide : head.isWide with
      | true => rfl
      | false =>
          rw [(chained.others head isHead wide).1] at linked
          cases linked
    refine ⟨_, chained.extended splits tidy distinct isHead wideHead ?_⟩
    intro node member wide
    obtain ⟨inputs, found, strung⟩ := chained.calls node member wide
    have nodeId : node.id ∈ graph.ids := mem_ids.mpr ⟨node, member, rfl⟩
    have notCall : node.id ≠ call.id := by
      intro same
      exact chained.created_of_linked isOwner linked (same ▸ nodeId)
    refine ⟨inputs, splits.find?_other found notCall, ?_⟩
    by_cases same : node.id = head.id
    · rw [same, Function.update_self]
      rw [same] at strung
      exact strung.of_linked splits linked
    · rw [Function.update_of_ne same]
      apply strung.of_unlinked splits
      intro alsoLinked
      exact same (chained.eq_of_linked nodeId isOwner alsoLinked linked)

end Step

theorem SplitsIn.exists_chained {graph other : Graph} {count : Nat}
    (run : graph.SplitsIn count other) (tidy : graph.Everywhere Tidy) :
    ∃ chain, graph.Chained Eq chain other := by
  induction run with
  | refl => exact ⟨_, .refl tidy.here.distinct⟩
  | step earlier splits induction =>
      obtain ⟨chain, chained⟩ := induction
      exact chained.step splits (earlier.tidy tidy).here tidy.here.distinct

/-- A node is kept, the body of its loop apart. -/
def KeepsNode : Node → Node → Prop :=
  Node.Revised (Loop.ReplacedBy fun _ _ => True)

/-- Splitting the bodies leaves the chains as they are. -/
theorem Chained.revised {chain : NodeId → List NodeId} {graph level other : Graph}
    {passes : Graph → Graph → Prop} (chained : graph.Chained Eq chain level)
    (bodies : List.Forall₂ (Node.Revised (Loop.ReplacedBy passes)) level.nodes other.nodes)
    (exits : other.exits = level.exits) : graph.Chained KeepsNode chain other := by
  have partners := find?_revised bodies
  have sameIds : other.ids = level.ids := ids_revised bodies
  have sameCall : ∀ id node, level.find? id = some node → node.kind = .call →
      other.find? id = some node := by
    intro id node found isCall
    obtain ⟨changed, foundChanged, revised⟩ := exists_partner (partners id) found
    cases revised with
    | same => exact foundChanged
    | loop runs => simp [(Node.loop?_eq_some.mp runs).1] at isCall
  refine
    { exits := exits.trans chained.exits
      distinct := sameIds ▸ chained.distinct
      ids := sameIds ▸ chained.ids
      calls := ?_
      others := ?_ }
  · intro node member wide
    obtain ⟨inputs, found, strung⟩ := chained.calls node member wide
    have isCall : node.kind = .call := by
      simp [Node.isWide] at wide
      exact wide.1.1
    refine ⟨inputs, sameCall _ _ found isCall, strung.transport ?_⟩
    exact fun id link foundLink linkIsCall _ => sameCall id link foundLink linkIsCall
  · intro node member narrow
    obtain ⟨unchained, held, found, rfl⟩ := chained.others node member narrow
    obtain ⟨changed, foundChanged, revised⟩ := exists_partner (partners node.id) found
    refine ⟨unchained, changed, foundChanged, revised.mono ?_⟩
    exact fun loop replaced related => ⟨related.same, trivial⟩

section Paths

variable {graph level other : Graph}

/-- Loops are found again, with their bodies split. -/
theorem SplitsThrough.loops (through : graph.SplitsThrough level other) (id : NodeId) :
    Option.Rel (Loop.ReplacedBy fun body changed =>
        (∃ count, body.split.answer = .ok count) ∧ changed = body.split.graph)
      ((graph.find? id).bind Node.loop?) ((other.find? id).bind Node.loop?) := by
  obtain ⟨count, run⟩ := through.run
  have sameLoop : (level.find? id).bind Node.loop? = (graph.find? id).bind Node.loop? := by
    apply Option.ext
    intro loop
    rw [Option.bind_eq_some_iff, Option.bind_eq_some_iff]
    have iff : ∀ node : Node, node.loop? = some loop →
        (level.find? id = some node ↔ graph.find? id = some node) := by
      intro node runs
      exact run.find?_of_kind (by simp [(Node.loop?_eq_some.mp runs).1])
    constructor
    · rintro ⟨node, found, runs⟩
      exact ⟨node, (iff node runs).mp found, runs⟩
    · rintro ⟨node, found, runs⟩
      exact ⟨node, (iff node runs).mpr found, runs⟩
  rw [← sameLoop]
  exact loops_revised through.bodies id

/-- Splitting every graph of the nest: the numbers of the nodes were in order, and splitting
succeeded. -/
structure SplitTo (graph other : Graph) : Prop where
  tidy : graph.Everywhere Tidy
  done : ∃ count, graph.split.answer = .ok count
  result : other = graph.split.graph

theorem SplitTo.through (passes : graph.SplitTo other) :
    graph.SplitsThrough (splitLevel graph).graph other := by
  obtain ⟨count, done⟩ := passes.done
  rw [passes.result]
  exact splitsThrough_of_split passes.tidy done

theorem SplitTo.loops (passes : graph.SplitTo other) (id : NodeId) :
    Option.Rel (Loop.ReplacedBy SplitTo) ((graph.find? id).bind Node.loop?)
      ((other.find? id).bind Node.loop?) := by
  apply rel_mono (passes.through.loops id)
  intro loop changed found _ related
  obtain ⟨node, foundNode, runs⟩ := Option.bind_eq_some_iff.mp found
  exact ⟨related.same, passes.tidy.body foundNode runs, related.body.1, related.body.2⟩

/-- Every graph of the nest is split like the graph itself. -/
theorem SplitTo.within (passes : graph.SplitTo other) (path : List NodeId) :
    Option.Rel SplitTo (graph.within? path) (other.within? path) := by
  apply within?_rel _ passes
  intro left right passes id
  exact rel_mono (passes.loops id) fun _ _ _ _ related => related.body

/-- Only what it was is a loop node afterwards, so loop nodes still have loops. -/
theorem SplitsThrough.carried (through : graph.SplitsThrough level other)
    (distinct : level.ids.Nodup)
    (carried : ∀ node ∈ graph.nodes, node.kind = .loop → ∃ loop, node.content = .loop loop) :
    ∀ node ∈ other.nodes, node.kind = .loop → ∃ loop, node.content = .loop loop := by
  obtain ⟨count, run⟩ := through.run
  intro changed member kind
  have otherDistinct : other.ids.Nodup := by
    unfold ids
    rw [ids_revised through.bodies]
    exact distinct
  obtain ⟨node, found, revised⟩ := origins_of_revised through.bodies changed.id changed
    (find?_of_mem otherDistinct member)
  have nodeKind : node.kind = .loop := revised.kind_eq ▸ kind
  have old := (run.find?_of_kind (by simp [nodeKind])).mp found
  obtain ⟨loop, content⟩ := carried node (mem_of_find? old).1 nodeKind
  have runs : node.loop? = some loop := Node.loop?_eq_some.mpr ⟨nodeKind, content⟩
  obtain ⟨held, runsChanged, _⟩ := revised.exists_loop runs
  exact ⟨held, (Node.loop?_eq_some.mp runsChanged).2⟩

end Paths

/-- Splitting succeeds with the number of operands beyond the second ones.  Afterwards no
call has more than two that could be split, every call that had more heads a chain of new
calls with its operands in their order, all else is as it was, and there is nothing more to
split. -/
theorem split_builds_chains {graph : Graph} (valid : graph.validate = .ok ())
    (tidy : graph.Everywhere Tidy)
    (carried : graph.Everywhere fun body =>
      ∀ node ∈ body.nodes, node.kind = .loop → ∃ loop, node.content = .loop loop)
    (hashable : graph.Everywhere fun body =>
      ∀ node ∈ body.nodes, node.kind = .call → node.content.isHashable = true) :
    graph.split.answer = .ok (graph.nest.map excess).sum ∧
    (graph.split.graph.Everywhere fun body =>
      ∀ node ∈ body.nodes, node.kind = .call → isFolding node.content = true →
        node.inputs.length ≤ 2) ∧
    (∀ path, Option.Rel (fun body split => ∃ chain, Chained KeepsNode chain body split)
      (graph.within? path) (graph.split.graph.within? path)) ∧
    graph.split.graph.split = ⟨graph.split.graph, .ok 0⟩ := by
  have fit : graph.Everywhere Splittable := by
    intro path body reached node member
    have accepted := (validate_eq_ok.mp (Everywhere.of_validate valid path body reached)).1
    refine ⟨?_, (accepted node member).inputs⟩
    cases kind : node.kind == Kind.call with
    | false => simp [Node.isUnhashable, kind]
    | true =>
        have known := hashable path body reached node member (beq_iff_eq.mp kind)
        simp [Node.isUnhashable, known]
  have done := split_answer tidy fit carried
  have splitTo : graph.SplitTo graph.split.graph := ⟨tidy, ⟨_, done⟩, rfl⟩
  have quiet : graph.split.graph.Everywhere Quiet :=
    quiet_of_splitNested (Nat.le_refl _) tidy done
  refine ⟨done, ?_, ?_, ?_⟩
  · intro path body reached node member kind folding
    have narrow := (Node.event?_eq_none.mp (quiet path body reached node member)).2
    simpa [Node.isWide, kind, folding] using narrow
  · intro path
    apply rel_mono (splitTo.within path)
    intro body split _ _ passes
    obtain ⟨count, run⟩ := passes.through.run
    obtain ⟨chain, chained⟩ := run.exists_chained passes.tidy
    exact ⟨chain, chained.revised passes.through.bodies passes.through.exits⟩
  · apply splitNested_unchanged
    intro path split reached
    have steps := splitTo.within path
    rw [reached] at steps
    cases before : graph.within? path with
    | none =>
        rw [before] at steps
        cases steps
    | some body =>
        rw [before] at steps
        cases steps with
        | some passes =>
            obtain ⟨count, run⟩ := passes.through.run
            have levelDistinct := (run.tidy passes.tidy).here.distinct
            have sameIds : split.ids = _ := ids_revised passes.through.bodies
            exact
              { distinct := sameIds ▸ levelDistinct
                quiet := quiet path split reached
                carried := passes.through.carried levelDistinct (carried path body before) }

end Graph

/-- A greatest value of four operands, and a loop that passes it to a sum of three. -/
def manyOperands : Graph :=
  ⟨[⟨0, .constant, .int 1, [], .null⟩, ⟨1, .constant, .int 2, [], .null⟩,
      ⟨2, .call, .text "max", [0, 1, 1, 0], .null⟩,
      ⟨3, .loop, .loop ⟨0, "i", triplingBody, [(0, 2)]⟩, [], .null⟩],
    [("y", 2)], 4⟩

theorem everywhere_manyOperands {property : Graph → Prop} (here : property manyOperands)
    (inside : property triplingBody) : manyOperands.Everywhere property :=
  Graph.everywhere_of_body here inside (by simp [manyOperands, Node.loop?, Value.loop?])
    triplingBody_innermost

theorem manyOperands_tidy : manyOperands.Everywhere Graph.Tidy := by
  apply everywhere_manyOperands
  · exact ⟨by decide, by unfold Graph.Numbered; decide⟩
  · exact ⟨by decide, by unfold Graph.Numbered; decide⟩

theorem manyOperands_chained :
    manyOperands.split.answer = .ok 3 ∧
      (∃ chain, Graph.Chained Graph.KeepsNode chain manyOperands manyOperands.split.graph) ∧
      manyOperands.split.graph.split = ⟨manyOperands.split.graph, .ok 0⟩ := by
  obtain ⟨answer, _, chains, again⟩ := @Graph.split_builds_chains manyOperands rfl
    manyOperands_tidy
    (everywhere_manyOperands (by simp [manyOperands]) (by simp [triplingBody]))
    (everywhere_manyOperands (by simp [manyOperands, Value.isHashable])
      (by simp [triplingBody, Value.isHashable]))
  refine ⟨answer, ?_, again⟩
  have here := chains []
  cases here with
  | some chained => exact chained

end FlowGraph

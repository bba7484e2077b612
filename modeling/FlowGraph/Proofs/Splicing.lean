import FlowGraph.Graph.Splice
import FlowGraph.Proofs.Extension
import FlowGraph.Proofs.Simulation
import FlowGraph.Proofs.Transactions

/-!
# Splicing keeps what both graphs compute

Splicing only adds nodes to the destination, so its old nodes go on computing what
they computed.  A copy reads the copies of what its original reads.  By induction
over denotations every node of the source and its image have one value, when the
source finds under its bound names the results of the nodes that stand for them.
-/

namespace FlowGraph

theorem eq_map_of_mapM {α β : Type} {items : List α} {answer : α → Except Fault β}
    {results : List β} (image : α → β)
    (agrees : ∀ item result, answer item = .ok result → image item = result)
    (done : items.mapM answer = .ok results) :
    results = items.map image ∧ ∀ item ∈ items, answer item = .ok (image item) := by
  induction items generalizing results with
  | nil =>
      cases done
      exact ⟨rfl, by simp⟩
  | cons item rest induction =>
      rw [List.mapM_cons] at done
      obtain ⟨first, answered, later⟩ := bind_eq_ok.mp done
      obtain ⟨others, restDone, ends⟩ := bind_eq_ok.mp later
      cases ends
      obtain ⟨rfl, restAnswered⟩ := induction restDone
      have here : answer item = .ok (image item) := (agrees item first answered).symm ▸ answered
      exact ⟨congrArg (· :: _) (agrees item first answered).symm,
        List.forall_mem_cons.mpr ⟨here, restAnswered⟩⟩

/-- A graph with more nodes at its end. -/
structure Graph.GrowsTo (graph other : Graph) : Prop where
  nodes : graph.nodes <+: other.nodes
  exits : other.exits = graph.exits

namespace Graph.GrowsTo

variable {graph middle other : Graph}

theorem refl (graph : Graph) : graph.GrowsTo graph :=
  ⟨List.prefix_rfl, rfl⟩

theorem trans (first : graph.GrowsTo middle) (second : middle.GrowsTo other) :
    graph.GrowsTo other :=
  ⟨first.nodes.trans second.nodes, second.exits.trans first.exits⟩

theorem extended {graph : Graph} (numbered : graph.Numbered) (kind : Kind) (content : Value)
    (inputs : List NodeId) : graph.GrowsTo (graph.extended kind content inputs) where
  nodes := by
    rw [extended_nodes numbered.fresh]
    exact List.prefix_append _ _
  exits := extended_exits

theorem find? (grows : graph.GrowsTo other) {id : NodeId} {node : Node}
    (found : graph.find? id = some node) : other.find? id = some node :=
  grows.nodes.find?_eq_some found

theorem mem_ids (grows : graph.GrowsTo other) {id : NodeId} (present : id ∈ graph.ids) :
    id ∈ other.ids := by
  obtain ⟨node, found⟩ := exists_find? present
  exact mem_ids_of_find? (grows.find? found)

end Graph.GrowsTo

namespace Copying

/-- The number that a node of the source has in the destination. -/
def renumber (copying : Copying) (id : NodeId) : NodeId :=
  (copying.table.lookup id).getD id

theorem image_eq_ok {copying : Copying} {id copy : NodeId} :
    copying.image id = .ok copy ↔ copying.table.lookup id = some copy := by
  unfold image
  split
  · rename_i found
    simp [found]
  · rename_i missing
    simp [missing]

theorem renumber_of_image {copying : Copying} {id copy : NodeId}
    (done : copying.image id = .ok copy) : copying.renumber id = copy := by
  simp [renumber, image_eq_ok.mp done]

/-- The content of a copy when all sources have images. -/
def relinked (copying : Copying) : Value → Value
  | .loop loop => .loop { loop with
      bindings := loop.bindings.map fun binding => (binding.1, copying.renumber binding.2) }
  | value => value

theorem relinked_of_plain (copying : Copying) {held : Value} (plain : ∀ loop, held ≠ .loop loop) :
    copying.relinked held = held := by
  unfold relinked
  split
  · rename_i loop
    exact absurd rfl (plain loop)
  · rfl

theorem relinked_eq_loop {copying : Copying} {held : Value} {changed : Loop}
    (content : copying.relinked held = .loop changed) :
    ∃ loop, held = .loop loop ∧ changed = { loop with
      bindings := loop.bindings.map fun binding => (binding.1, copying.renumber binding.2) } := by
  by_cases holdsLoop : ∃ loop, held = .loop loop
  · obtain ⟨loop, rfl⟩ := holdsLoop
    cases content
    exact ⟨loop, rfl, rfl⟩
  · rw [relinked_of_plain copying (not_exists.mp holdsLoop)] at content
    exact absurd ⟨changed, content⟩ holdsLoop

theorem content_eq_ok {copying : Copying} {held content : Value}
    (done : copying.content held = .ok content) :
    content = copying.relinked held ∧ ∀ loop, held = .loop loop → ∀ binding ∈ loop.bindings,
      copying.image binding.2 = .ok (copying.renumber binding.2) := by
  unfold Copying.content at done
  split at done
  · rename_i loop
    obtain ⟨bindings, mapped, ends⟩ := bind_eq_ok.mp done
    cases ends
    obtain ⟨rfl, known⟩ := eq_map_of_mapM
      (fun binding => (binding.1, copying.renumber binding.2)) (by
        intro binding copied copies
        obtain ⟨copy, image, ends⟩ := bind_eq_ok.mp copies
        cases ends
        exact congrArg (Prod.mk binding.1) (renumber_of_image image)) mapped
    refine ⟨rfl, ?_⟩
    rintro _ ⟨⟩ binding member
    obtain ⟨copy, image, ends⟩ := bind_eq_ok.mp (known binding member)
    cases ends
    exact image
  · rename_i plain
    cases done
    refine ⟨(relinked_of_plain copying plain).symm, ?_⟩
    rintro loop rfl
    exact absurd rfl (plain loop)

/-- What copying one node of the source does: a bound external node gives way to its
target, and every other node is added with its images as inputs. -/
inductive Copies (targets : String → Option Target) (copying : Copying) (node : Node) :
    Copying → Prop where
  | bound {target : Target} (external : node.kind = .external)
      (named : targets node.content.plain = some target)
      (present : target.id ∈ copying.destination.ids) :
      Copies targets copying node
        ⟨copying.destination, copying.table ++ [(node.id, target.id)], copying.unbound⟩
  | added {unbound : List String}
      (free : node.kind = .external → targets node.content.plain = none)
      (known : ∀ id ∈ node.dependencies, copying.image id = .ok (copying.renumber id)) :
      Copies targets copying node
        ⟨copying.destination.extended node.kind (copying.relinked node.content)
            (node.inputs.map copying.renumber),
          copying.table ++ [(node.id, copying.destination.nextId)], unbound⟩

theorem copies_of_bind {targets : String → Option Target} {copying next : Copying} {node : Node}
    {target : Target} (external : node.kind = .external)
    (named : targets node.content.plain = some target)
    (done : copying.bind node node.content.plain target = .ok next) :
    copying.Copies targets node next := by
  unfold Copying.bind at done
  split at done
  · cases done
  · obtain ⟨found, present, ends⟩ := bind_eq_ok.mp done
    cases ends
    have inside := Graph.node_eq_ok.mp present
    rw [(Graph.mem_of_find? inside).2]
    exact .bound external named (Graph.mem_ids_of_find? inside)

theorem copies_of_copy {targets : String → Option Target} {copying next : Copying} {node : Node}
    (unbound : List String) (free : node.kind = .external → targets node.content.plain = none)
    (done : Copying.copy { copying with unbound := unbound } node = .ok next) :
    copying.Copies targets node next := by
  obtain ⟨content, holds, later⟩ := bind_eq_ok.mp done
  obtain ⟨inputs, reads, adding⟩ := bind_eq_ok.mp later
  obtain ⟨⟨destination, id⟩, added, ends⟩ := bind_eq_ok.mp adding
  cases ends
  obtain ⟨rfl, rfl, _⟩ := Graph.add_eq_ok added
  obtain ⟨rfl, sources⟩ := content_eq_ok holds
  obtain ⟨rfl, operands⟩ := eq_map_of_mapM copying.renumber (fun _ _ => renumber_of_image) reads
  refine .added free fun id needed => ?_
  by_cases holdsLoop : ∃ loop, node.content = .loop loop
  · obtain ⟨loop, isLoop⟩ := holdsLoop
    rcases (Node.dependencies_of_content isLoop).mp needed with input | source
    · exact operands id input
    · obtain ⟨binding, member, rfl⟩ := List.mem_map.mp source
      exact sources loop isLoop binding member
  · exact operands id (Node.dependencies_of_plain (not_exists.mp holdsLoop) ▸ needed)

namespace Copies

variable {targets : String → Option Target} {copying next : Copying} {node : Node}

theorem table_grows (copies : copying.Copies targets node next) :
    copying.table <+: next.table := by
  cases copies with
  | bound => exact List.prefix_append _ _
  | added => exact List.prefix_append _ _

theorem destination_grows (copies : copying.Copies targets node next)
    (numbered : copying.destination.Numbered) :
    copying.destination.GrowsTo next.destination := by
  cases copies with
  | bound => exact .refl _
  | added => exact .extended numbered _ _ _

theorem numbered (copies : copying.Copies targets node next)
    (numbered : copying.destination.Numbered) : next.destination.Numbered := by
  cases copies with
  | bound => exact numbered
  | added => exact numbered.extended

/-- All images are nodes of the destination. -/
theorem placed (copies : copying.Copies targets node next)
    (placed : ∀ entry ∈ copying.table, entry.2 ∈ copying.destination.ids) :
    ∀ entry ∈ next.table, entry.2 ∈ next.destination.ids := by
  intro entry member
  cases copies with
  | bound _ _ present =>
      rcases List.mem_append.mp member with old | new
      · exact placed entry old
      · rw [List.mem_singleton.mp new]
        exact present
  | added =>
      rcases List.mem_append.mp member with old | new
      · exact Graph.mem_extended_ids.mpr (.inl (placed entry old))
      · rw [List.mem_singleton.mp new]
        exact Graph.mem_extended_ids.mpr (.inr rfl)

end Copies

end Copying

section Steps

variable {source : Graph → Graph} {targets : String → Option Target} {copying : Copying}
  {id : NodeId} {rest : List NodeId}

theorem copyNodes_absent (missing : (source copying.destination).find? id = none) :
    copyNodes source targets copying (id :: rest) = copyNodes source targets copying rest := by
  rw [copyNodes]
  simp only [missing]

/-- A node of the source is copied, or copying stops there and leaves the destination. -/
theorem copyNodes_cases {node : Node}
    (found : (source copying.destination).find? id = some node) :
    (∃ stopped fault, stopped.destination = copying.destination ∧
      copyNodes source targets copying (id :: rest) = (stopped, .error fault)) ∨
    ∃ next, copying.Copies targets node next ∧
      copyNodes source targets copying (id :: rest) = copyNodes source targets next rest := by
  rw [copyNodes]
  simp only [found]
  by_cases external : node.kind = .external
  · rw [if_pos external]
    cases named : targets node.content.plain with
    | some target =>
        simp only
        cases binds : copying.bind node node.content.plain target with
        | error fault => exact .inl ⟨copying, fault, rfl, rfl⟩
        | ok next => exact .inr ⟨next, Copying.copies_of_bind external named binds, rfl⟩
    | none =>
        simp only
        cases copies : Copying.copy
            { copying with unbound := copying.unbound ++ [node.content.plain] } node with
        | error fault =>
            exact .inl ⟨{ copying with unbound := copying.unbound ++ [node.content.plain] }, fault,
              rfl, rfl⟩
        | ok next => exact .inr ⟨next, Copying.copies_of_copy _ (fun _ => named) copies, rfl⟩
  · rw [if_neg external]
    cases copies : copying.copy node with
    | error fault => exact .inl ⟨copying, fault, rfl, rfl⟩
    | ok next =>
        refine .inr ⟨next, Copying.copies_of_copy copying.unbound ?_ copies, rfl⟩
        exact fun isExternal => absurd isExternal external

theorem copyNodes_cons {node : Node} (found : (source copying.destination).find? id = some node)
    (done : (copyNodes source targets copying (id :: rest)).2 = .ok ()) :
    ∃ next, copying.Copies targets node next ∧
      copyNodes source targets copying (id :: rest) = copyNodes source targets next rest := by
  rcases @copyNodes_cases source targets copying id rest node found with
    ⟨stopped, fault, _, stops⟩ | continues
  · rw [stops] at done
    cases done
  · exact continues

/-- What every copied node keeps, copying keeps. -/
theorem copyNodes_keeps (invariant : Copying → Prop)
    (step : ∀ copying next id node, invariant copying →
      (source copying.destination).find? id = some node → copying.Copies targets node next →
      invariant next)
    {ids : List NodeId} {final : Copying} (holds : invariant copying)
    (done : copyNodes source targets copying ids = (final, .ok ())) : invariant final := by
  induction ids generalizing copying with
  | nil =>
      cases done
      exact holds
  | cons id rest induction =>
      cases found : (source copying.destination).find? id with
      | none =>
          rw [copyNodes_absent found] at done
          exact induction holds done
      | some node =>
          obtain ⟨next, copies, continues⟩ := copyNodes_cons found (congrArg Prod.snd done)
          rw [continues] at done
          exact induction (step copying next id node holds found copies) done

/-- What every copied node keeps of the destination, copying keeps, wherever it stops. -/
theorem copyNodes_keeps_destination (invariant : Graph → Prop)
    (step : ∀ (copying next : Copying) id node, invariant copying.destination →
      (source copying.destination).find? id = some node → copying.Copies targets node next →
      invariant next.destination)
    {ids : List NodeId} (holds : invariant copying.destination) :
    invariant (copyNodes source targets copying ids).1.destination := by
  induction ids generalizing copying with
  | nil => exact holds
  | cons id rest induction =>
      cases found : (source copying.destination).find? id with
      | none =>
          rw [copyNodes_absent found]
          exact induction holds
      | some node =>
          rcases @copyNodes_cases source targets copying id rest node found with
            ⟨stopped, fault, same, stops⟩ | ⟨next, copies, continues⟩
          · rw [stops, same]
            exact holds
          · rw [continues]
            exact induction (step copying next id node holds found copies)

theorem Graph.splice_eq_ok {destination : Graph} {table : List (NodeId × NodeId)}
    (done : (Graph.splice source targets destination).answer = .ok table) :
    ∃ final, copyNodes source targets ⟨destination, [], []⟩ (source destination).ids =
        (final, .ok ()) ∧
      (Graph.splice source targets destination).destination = final.destination ∧
      table = final.table := by
  unfold Graph.splice Graph.spliceBlock at done ⊢
  generalize ran : copyNodes source targets ⟨destination, [], []⟩ (source destination).ids =
    outcome at done ⊢
  obtain ⟨final, answer⟩ := outcome
  cases answer with
  | error fault => cases done
  | ok _ =>
      cases done
      exact ⟨final, rfl, rfl, rfl⟩

/-- A splice that fails leaves its destination as it was. -/
theorem Graph.splice_unchanged {destination : Graph} {fault : Fault}
    (failed : (Graph.splice source targets destination).answer = .error fault) :
    (Graph.splice source targets destination).destination = destination :=
  Graph.transaction_restores failed

end Steps

/-- What a node of the source has become at the end of copying. -/
inductive Copying.Copied (targets : String → Option Target) (final : Copying) (node : Node) :
    Prop where
  | bound {target : Target} (external : node.kind = .external)
      (named : targets node.content.plain = some target)
      (image : final.table.lookup node.id = some target.id)
      (present : target.id ∈ final.destination.ids)
  | added {copy : NodeId} {other : Node}
      (free : node.kind = .external → targets node.content.plain = none)
      (image : final.table.lookup node.id = some copy)
      (found : final.destination.find? copy = some other)
      (renumbered : node.Renumbered final.renumber other)

namespace Copying

/-- The last entry of a table is found when its key is new. -/
theorem lookup_last {table : List (NodeId × NodeId)} {id copy : NodeId}
    (fresh : table.lookup id = none) : (table ++ [(id, copy)]).lookup id = some copy := by
  simp [List.lookup_append, fresh]

theorem Copies.fresh {targets : String → Option Target} {copying next : Copying} {node : Node}
    (copies : copying.Copies targets node next) {id : NodeId}
    (fresh : copying.table.lookup id = none) (different : id ≠ node.id) :
    next.table.lookup id = none := by
  have absent : (id == node.id) = false := by simpa using different
  cases copies <;> simp [List.lookup_append, fresh, List.lookup_cons, absent]

theorem renumbered_newNode {copying final : Copying} {node : Node}
    (grows : copying.table <+: final.table)
    (plain : ∀ loop, node.content = .loop loop → node.kind = .loop)
    (known : ∀ id ∈ node.dependencies, copying.image id = .ok (copying.renumber id)) :
    node.Renumbered final.renumber (copying.destination.newNode node.kind
      (copying.relinked node.content) (node.inputs.map copying.renumber)) := by
  have same : ∀ id ∈ node.dependencies, copying.renumber id = final.renumber id := by
    intro id needed
    have entry := grows.lookup_eq_some (image_eq_ok.mp (known id needed))
    exact (renumber_of_image (image_eq_ok.mpr entry)).symm
  refine ⟨rfl, ?_, ?_, ?_⟩
  · exact List.map_congr_left fun id input => same id (node.inputs_subset_dependencies input)
  · intro noLoop
    exact relinked_of_plain copying fun loop held => noLoop (plain loop held)
  · intro loop runs
    obtain ⟨kind, held⟩ := Node.loop?_eq_some.mp runs
    refine ⟨_, Node.loop?_eq_some.mpr ⟨kind, congrArg copying.relinked held⟩, rfl, ?_⟩
    refine List.map_congr_left fun binding member => ?_
    rw [same binding.2 (Node.source_mem_dependencies runs member)]

/-- The step of one node, as it is seen at the end. -/
theorem Copies.copied {targets : String → Option Target} {copying next final : Copying}
    {node : Node} (copies : copying.Copies targets node next)
    (fresh : copying.table.lookup node.id = none)
    (plain : ∀ loop, node.content = .loop loop → node.kind = .loop)
    (table : next.table <+: final.table) (destination : next.destination.GrowsTo final.destination) :
    final.Copied targets node := by
  have grows := copies.table_grows.trans table
  cases copies with
  | bound external named present =>
      exact .bound external named (table.lookup_eq_some (lookup_last fresh))
        (destination.mem_ids present)
  | added free known =>
      exact .added free (table.lookup_eq_some (lookup_last fresh))
        (destination.find? Graph.find?_extended_new)
        (renumbered_newNode grows plain known)

end Copying

/-- Copying a graph that does not change on the way adds to the destination and
handles every node of the graph. -/
theorem copyNodes_spec {source : Graph} {targets : String → Option Target} {copying final : Copying}
    {ids : List NodeId} (numbered : copying.destination.Numbered) (distinct : ids.Nodup)
    (fresh : ∀ id ∈ ids, copying.table.lookup id = none)
    (plain : ∀ node ∈ source.nodes, ∀ loop, node.content = .loop loop → node.kind = .loop)
    (done : copyNodes (fun _ => source) targets copying ids = (final, .ok ())) :
    copying.table <+: final.table ∧ copying.destination.GrowsTo final.destination ∧
      ∀ id ∈ ids, ∀ node, source.find? id = some node → final.Copied targets node := by
  induction ids generalizing copying with
  | nil =>
      cases done
      exact ⟨List.prefix_rfl, .refl _, by simp⟩
  | cons id rest induction =>
      obtain ⟨notAgain, restDistinct⟩ := List.nodup_cons.mp distinct
      cases found : source.find? id with
      | none =>
          rw [copyNodes_absent found] at done
          obtain ⟨table, destination, others⟩ := induction numbered restDistinct
            (fun other member => fresh other (List.mem_cons_of_mem id member)) done
          refine ⟨table, destination, ?_⟩
          intro other member node foundNode
          rcases List.mem_cons.mp member with rfl | later
          · cases found.symm.trans foundNode
          · exact others other later node foundNode
      | some node =>
          obtain ⟨inside, same⟩ := Graph.mem_of_find? found
          obtain ⟨next, copies, continues⟩ := copyNodes_cons found (congrArg Prod.snd done)
          rw [continues] at done
          have stillFresh : ∀ other ∈ rest, next.table.lookup other = none := by
            intro other member
            apply copies.fresh (fresh other (List.mem_cons_of_mem id member))
            rintro rfl
            exact notAgain (same ▸ member)
          obtain ⟨table, destination, others⟩ :=
            induction (copies.numbered numbered) restDistinct stillFresh done
          refine ⟨copies.table_grows.trans table,
            (copies.destination_grows numbered).trans destination, ?_⟩
          intro other member otherNode foundOther
          rcases List.mem_cons.mp member with rfl | later
          · cases found.symm.trans foundOther
            exact copies.copied (same ▸ fresh _ (by simp)) (plain node inside) table destination
          · exact others other later otherNode foundOther

namespace Copying

variable {copying : Copying} {node : Node}

theorem image_placed (placed : ∀ entry ∈ copying.table, entry.2 ∈ copying.destination.ids)
    {id copy : NodeId} (done : copying.image id = .ok copy) : copy ∈ copying.destination.ids := by
  obtain ⟨before, after, split, _⟩ := List.lookup_eq_some_iff.mp (image_eq_ok.mp done)
  exact placed (id, copy) (split ▸ by simp)

/-- A copy depends on the images of what the node depends on. -/
theorem mem_dependencies_of_copy {id : NodeId}
    (needed : id ∈ (copying.destination.newNode node.kind (copying.relinked node.content)
      (node.inputs.map copying.renumber)).dependencies) :
    ∃ original ∈ node.dependencies, id = copying.renumber original := by
  by_cases holdsLoop : ∃ loop, node.content = .loop loop
  · obtain ⟨loop, isLoop⟩ := holdsLoop
    rcases (Node.dependencies_of_content (congrArg copying.relinked isLoop)).mp needed with
      input | source
    · obtain ⟨original, isInput, rfl⟩ := List.mem_map.mp input
      exact ⟨original, node.inputs_subset_dependencies isInput, rfl⟩
    · rw [List.map_map] at source
      obtain ⟨binding, member, rfl⟩ := List.mem_map.mp source
      refine ⟨binding.2, ?_, rfl⟩
      exact (Node.dependencies_of_content isLoop).mpr (.inr (List.mem_map_of_mem member))
  · rw [relinked_of_plain copying (not_exists.mp holdsLoop)] at needed
    have reads : (copying.destination.newNode node.kind node.content
        (node.inputs.map copying.renumber)).dependencies = node.inputs.map copying.renumber :=
      Node.dependencies_of_plain (not_exists.mp holdsLoop)
    rw [reads] at needed
    obtain ⟨original, isInput, rfl⟩ := List.mem_map.mp needed
    exact ⟨original, node.inputs_subset_dependencies isInput, rfl⟩

/-- The loop of a copy is the loop of the node with new sources. -/
theorem exists_loop_of_copy {inputs : List NodeId} {changed : Loop}
    (runs : (copying.destination.newNode node.kind (copying.relinked node.content) inputs).loop? =
      some changed) :
    ∃ loop, node.loop? = some loop ∧ changed.body = loop.body ∧
      ∀ binding ∈ changed.bindings, ∃ original ∈ loop.bindings, binding.1 = original.1 := by
  obtain ⟨kind, held⟩ := Node.loop?_eq_some.mp runs
  obtain ⟨loop, isLoop, rfl⟩ := relinked_eq_loop held
  refine ⟨loop, Node.loop?_eq_some.mpr ⟨kind, isLoop⟩, rfl, ?_⟩
  intro binding member
  obtain ⟨original, inside, rfl⟩ := List.mem_map.mp member
  exact ⟨original, inside, rfl⟩

variable {targets : String → Option Target} {next : Copying} {source : Graph} {id : NodeId}

/-- A copy of a node that evaluation can deal with leaves the destination fit for
evaluation. -/
theorem Copies.evaluable (copies : copying.Copies targets node next)
    (numbered : copying.destination.Numbered)
    (placed : ∀ entry ∈ copying.table, entry.2 ∈ copying.destination.ids)
    (fit : source.Everywhere Graph.Evaluable) (found : source.find? id = some node)
    (evaluable : copying.destination.Everywhere Graph.Evaluable) :
    next.destination.Everywhere Graph.Evaluable := by
  have member := (Graph.mem_of_find? found).1
  cases copies with
  | bound => exact evaluable
  | added free known =>
      refine Graph.everywhere_extended evaluable
        (evaluable.here.extended numbered ?_ ?_ ?_) ?_
      · intro needed isNeeded
        obtain ⟨original, isOriginal, rfl⟩ := mem_dependencies_of_copy isNeeded
        exact image_placed placed (known original isOriginal)
      · intro isLoop
        obtain ⟨loop, held⟩ := fit.here.carried node member isLoop
        exact ⟨_, congrArg copying.relinked held⟩
      · intro changed runs binding isBinding
        obtain ⟨loop, runsNode, sameBody, keys⟩ := exists_loop_of_copy runs
        obtain ⟨original, inside, sameKey⟩ := keys binding isBinding
        rw [sameBody, sameKey]
        exact fit.here.keys node member loop runsNode original inside
      · intro changed runs
        obtain ⟨loop, runsNode, sameBody, _⟩ := exists_loop_of_copy runs
        exact sameBody ▸ fit.body found runsNode

end Copying

/-- A scope for a source: the names of its external nodes that have targets stand for
the results of the targets. -/
def Scope.retarget (scope : Scope) (source : Graph) (targets : String → Option Target)
    (results : NodeId → Option Value) : Scope := fun name =>
  match targets name with
  | some target =>
      if source.nodes.any fun node => node.kind == .external && node.content.plain == name then
        results target.id
      else scope name
  | none => scope name

theorem Scope.retarget_bound {scope : Scope} {source : Graph} {targets : String → Option Target}
    {results : NodeId → Option Value} {node : Node} {target : Target}
    (member : node ∈ source.nodes) (external : node.kind = .external)
    (named : targets node.content.plain = some target) :
    scope.retarget source targets results node.content.plain = results target.id := by
  have isName : (source.nodes.any fun other =>
      other.kind == .external && other.content.plain == node.content.plain) = true := by
    simpa using ⟨node, member, external, rfl⟩
  simp [retarget, named, isName]

theorem Scope.retarget_free {scope : Scope} {source : Graph} {targets : String → Option Target}
    {results : NodeId → Option Value} {name : String} (free : targets name = none) :
    scope.retarget source targets results name = scope name := by
  simp [retarget, free]

/-- Images have the values of the nodes that they stand for. -/
theorem Copying.denotes_image {meaning : Interpretation} {source : Graph} {final : Copying}
    {targets : String → Option Target} {scope inner : Scope}
    (copied : ∀ id node, source.find? id = some node → final.Copied targets node)
    (defined : final.destination.Defined meaning scope)
    (boundNames : ∀ node ∈ source.nodes, node.kind = .external → ∀ target,
      targets node.content.plain = some target → ∀ value,
        Denotes meaning final.destination scope target.id value →
          inner node.content.plain = some value)
    (freeNames : ∀ name, targets name = none → inner name = scope name)
    {id : NodeId} {value : Value} (denotes : Denotes meaning source inner id value) :
    ∃ image, final.table.lookup id = some image ∧
      Denotes meaning final.destination scope image value := by
  have known : ∀ {id image}, final.table.lookup id = some image → final.renumber id = image :=
    fun entry => renumber_of_image (image_eq_ok.mpr entry)
  refine denotes.levelInduction (motive := fun id value => ∃ image,
    final.table.lookup id = some image ∧ Denotes meaning final.destination scope image value) ?_ ?_
  · intro id node values value found _ induction computed
    obtain ⟨member, same⟩ := Graph.mem_of_find? found
    subst same
    cases copied _ node found with
    | @bound target external named image present =>
        refine ⟨target.id, image, ?_⟩
        obtain ⟨result, denotesTarget⟩ := defined target.id present
        have bound := boundNames node member external target named result denotesTarget
        have read : inner.read meaning node.content.plain = .ok value := by
          simpa [Node.valueFrom, Node.valueBy, external] using computed
        simp only [Scope.read, bound, Except.ok.injEq] at read
        exact read ▸ denotesTarget
    | @added copy other free image foundOther renumbered =>
        have rescoped : node.valueFrom meaning scope values = .ok value := by
          refine Node.valueFrom_renumbered rfl rfl (List.map_id _).symm (fun _ _ => rfl) ?_ computed
          intro external
          simp only [Scope.read, freeNames _ (free external)]
        refine ⟨copy, image, renumbered.denotes foundOther ?_ rescoped⟩
        intro read isRead
        obtain ⟨readImage, entry, denotesRead⟩ := induction read isRead
        exact (known entry).symm ▸ denotesRead
  · intro id node loop values found runs _ _ _ _
    obtain ⟨_, same⟩ := Graph.mem_of_find? found
    subst same
    cases copied _ node found with
    | bound external =>
        rw [(Node.loop?_eq_some.mp runs).1] at external
        cases external
    | @added copy other free image foundOther renumbered =>
        obtain ⟨changed, runsOther, _⟩ := renumbered.loops loop runs
        obtain ⟨result, denotesOther⟩ := defined copy (Graph.mem_ids_of_find? foundOther)
        obtain ⟨_, _, _, _, rfl⟩ := denotesOther.defined_body foundOther runsOther
        exact ⟨copy, image, denotesOther⟩

section Host

variable {meaning : Interpretation} {graph other : Graph} {scope : Scope}

theorem Denotes.grown (grows : graph.GrowsTo other) {id : NodeId} {value : Value}
    (denotes : Denotes meaning graph scope id value) : Denotes meaning other scope id value := by
  refine denotes.levelInduction (motive := Denotes meaning other scope) ?_ ?_
  · intro id node values value found _ induction computed
    exact .plain (grows.find? found) induction computed
  · intro id node loop values found runs _ induction keys defined
    exact .of_defined (grows.find? found) runs induction keys defined

/-- Old nodes depend on old nodes, so they need nothing that was added. -/
theorem Denotes.of_grown (grows : graph.GrowsTo other)
    (linked : ∀ node ∈ graph.nodes, ∀ id ∈ node.dependencies, id ∈ graph.ids)
    {id : NodeId} {value : Value} (denotes : Denotes meaning other scope id value)
    (old : id ∈ graph.ids) : Denotes meaning graph scope id value := by
  have oldNode : ∀ {id node}, id ∈ graph.ids → other.find? id = some node →
      graph.find? id = some node ∧ node ∈ graph.nodes := by
    intro id node present found
    obtain ⟨held, foundHeld⟩ := Graph.exists_find? present
    cases (grows.find? foundHeld).symm.trans found
    exact ⟨foundHeld, (Graph.mem_of_find? foundHeld).1⟩
  refine denotes.levelInduction (motive := fun id value =>
    id ∈ graph.ids → Denotes meaning graph scope id value) ?_ ?_ old
  · intro id node values value found _ induction computed present
    obtain ⟨foundOld, member⟩ := oldNode present found
    refine .plain foundOld (fun read isRead => induction read isRead ?_) computed
    apply linked node member
    exact node.inputs_subset_dependencies (node.reads_subset_inputs isRead)
  · intro id node loop values found runs _ induction keys defined present
    obtain ⟨foundOld, member⟩ := oldNode present found
    refine .of_defined foundOld runs (fun binding bound => induction binding bound ?_) keys defined
    exact linked node member _ (Node.source_mem_dependencies runs bound)

/-- After nodes were added, evaluation gives old nodes the results that it gave them
before, at every depth. -/
theorem Graph.GrowsTo.same_results (grows : graph.GrowsTo other)
    (evaluable : graph.Everywhere Evaluable) {evaluated : Graph}
    (defined : other.Defined meaning scope) (completes : other.Completes meaning scope evaluated) :
    ∃ before values, graph.evaluate meaning scope = ⟨before, .ok values⟩ ∧
      ∀ path body, graph.within? path = some body → ∀ id ∈ body.ids, ∃ value,
        before.resultAt path id = some value ∧ evaluated.resultAt path id = some value := by
  have definedBefore : graph.Defined meaning scope := by
    intro id present
    obtain ⟨value, denotes⟩ := defined id (grows.mem_ids present)
    exact ⟨value, denotes.of_grown grows evaluable.here.linked present⟩
  have computed := computedBy_evaluate evaluable meaning scope
  obtain ⟨values, succeeded⟩ := computed.complete definedBefore
  obtain ⟨_, completesBefore, _⟩ := computed.sound values succeeded
  refine ⟨(graph.evaluate meaning scope).graph, values, by rw [← succeeded], ?_⟩
  intro path body reached id present
  obtain ⟨inner, enters, bodyDefined⟩ := definedBefore.exists_enters reached
  obtain ⟨value, denotes⟩ := bodyDefined id present
  refine ⟨value, completesBefore.resultAt_eq enters denotes, ?_⟩
  cases enters with
  | here => exact completes.resultAt_eq .here (denotes.grown grows)
  | inside found runs sources deeper =>
      refine completes.resultAt_eq (.inside (grows.find? found) runs ?_ deeper) denotes
      exact fun binding member => (sources binding member).grown grows

end Host

namespace Graph

/-- Validation accepts the graph, and at every depth numbers name one node each, there
is no cycle, and loops are the contents of exactly the loop nodes. -/
structure Coherent (graph : Graph) : Prop where
  valid : graph.validate = .ok ()
  distinct : graph.Everywhere fun body => body.ids.Nodup
  acyclic : graph.Everywhere Acyclic
  loops : graph.Everywhere fun body =>
    ∀ node ∈ body.nodes, node.kind = .loop ↔ ∃ loop, node.content = .loop loop

theorem Coherent.evaluable {graph : Graph} (coherent : graph.Coherent) :
    graph.Everywhere Evaluable :=
  evaluable_of_valid coherent.valid coherent.distinct
    (coherent.loops.mono fun _ loops node member => (loops node member).mp) coherent.acyclic

theorem WellFormed.coherent {graph body : Graph} (formed : graph.WellFormed) (path : List NodeId)
    (reached : graph.within? path = some body) : body.Coherent where
  valid := Everywhere.of_validate formed.valid path body reached
  distinct := formed.distinct.inside reached
  acyclic := formed.acyclic.inside reached
  loops := formed.loops.inside reached

theorem Coherent.plain_scheduled {graph scheduled : Graph} (coherent : graph.Coherent)
    (done : graph.scheduled = .ok scheduled) :
    ∀ node ∈ scheduled.nodes, ∀ loop, node.content = .loop loop → node.kind = .loop := by
  intro node member loop content
  have schedules := schedules_of_evaluable coherent.evaluable done
  have distinct := (evaluable_of_scheduled coherent.evaluable done).here.distinct
  obtain ⟨original, found, revised⟩ := schedules.backward (find?_of_mem distinct member)
  refine revised.resembles.kind_of_content (fun held holds => ?_) content
  exact (coherent.loops.here original (mem_of_find? found).1).mpr ⟨held, holds⟩

/-- A spliced destination is fit for evaluation when both graphs are. -/
theorem evaluable_of_copyNodes {source destination : Graph} {targets : String → Option Target}
    {ids : List NodeId} {final : Copying} (fit : source.Everywhere Evaluable)
    (evaluable : destination.Everywhere Evaluable) (numbered : destination.Numbered)
    (done : copyNodes (fun _ => source) targets ⟨destination, [], []⟩ ids = (final, .ok ())) :
    final.destination.Everywhere Evaluable := by
  have kept := copyNodes_keeps (fun copying => copying.destination.Everywhere Evaluable ∧
    copying.destination.Numbered ∧ ∀ entry ∈ copying.table, entry.2 ∈ copying.destination.ids)
    ?_ ⟨evaluable, numbered, by simp⟩ done
  · exact kept.1
  · rintro copying next id node ⟨evaluable, numbered, placed⟩ found copies
    exact ⟨copies.evaluable numbered placed fit found evaluable, copies.numbered numbered,
      copies.placed placed⟩

/-- A source and the destination that it is spliced into compute the same: evaluation
gives every node of the source the result of its image, when the source finds under
its bound names the results of their targets.  Every node that the destination had
before gets the result that it gets without the splice, at every depth. -/
theorem splice_preserves_results {meaning : Interpretation} {scope : Scope}
    {source scheduled destination spliced evaluated sourceEvaluated : Graph}
    {targets : String → Option Target} {unbound : List String} {table : List (NodeId × NodeId)}
    {values sourceValues : List (String × Value)}
    (sourceCoherent : source.Coherent) (coherent : destination.Coherent)
    (numbered : destination.Numbered) (ordered : source.schedule = ⟨scheduled, .ok ()⟩)
    (splices : Graph.splice (fun _ => scheduled) targets destination =
      ⟨spliced, unbound, .ok table⟩)
    (evaluates : spliced.evaluate meaning scope = ⟨evaluated, .ok values⟩)
    (sourceEvaluates :
      source.evaluate meaning (scope.retarget source targets (evaluated.resultAt [])) =
        ⟨sourceEvaluated, .ok sourceValues⟩) :
    (∀ id ∈ source.ids, ∃ image value, table.lookup id = some image ∧
      sourceEvaluated.resultAt [] id = some value ∧ evaluated.resultAt [] image = some value) ∧
    ∃ before beforeValues, destination.evaluate meaning scope = ⟨before, .ok beforeValues⟩ ∧
      ∀ path body, destination.within? path = some body → ∀ id ∈ body.ids, ∃ value,
        before.resultAt path id = some value ∧ evaluated.resultAt path id = some value := by
  have sourceEvaluable := sourceCoherent.evaluable
  have inOrder := schedule_eq_ok_iff.mp ordered
  have fit := evaluable_of_scheduled sourceEvaluable inOrder
  obtain ⟨final, done, sameDestination, sameTable⟩ :=
    splice_eq_ok (congrArg Spliced.answer splices)
  rw [splices] at sameDestination
  subst sameDestination sameTable
  obtain ⟨_, grows, copied⟩ := copyNodes_spec numbered fit.here.distinct (by simp)
    (sourceCoherent.plain_scheduled inOrder) done
  have computed := computedBy_evaluate (evaluable_of_copyNodes fit coherent.evaluable numbered done)
    meaning scope
  rw [evaluates] at computed
  obtain ⟨defined, completes, _⟩ := computed.sound values rfl
  refine ⟨?_, grows.same_results coherent.evaluable defined completes⟩
  intro id present
  have sourceComputed := computedBy_evaluate sourceEvaluable meaning
    (scope.retarget source targets (evaluated.resultAt []))
  rw [sourceEvaluates] at sourceComputed
  obtain ⟨sourceDefined, sourceCompletes, _⟩ := sourceComputed.sound sourceValues rfl
  obtain ⟨value, denotes⟩ := sourceDefined id present
  have boundNames : ∀ node ∈ scheduled.nodes, node.kind = .external → ∀ target,
      targets node.content.plain = some target → ∀ result,
        Denotes meaning final.destination scope target.id result →
          scope.retarget source targets (evaluated.resultAt []) node.content.plain =
            some result := by
    intro node member external target named result denotesTarget
    obtain ⟨original, found, revised⟩ := (schedules_of_evaluable sourceEvaluable inOrder).backward
      (find?_of_mem fit.here.distinct member)
    have isExternal : original.kind = .external := revised.kind_eq ▸ external
    rw [revised.content_eq (by simp [isExternal])] at named ⊢
    rw [Scope.retarget_bound (mem_of_find? found).1 isExternal named]
    exact completes.resultAt_eq .here denotesTarget
  obtain ⟨image, entry, denotesImage⟩ := Copying.denotes_image
    (fun id node found => copied id (mem_ids_of_find? found) node found) defined boundNames
    (fun _ => Scope.retarget_free) ((denotes_scheduled sourceEvaluable inOrder).mpr denotes)
  exact ⟨image, value, entry, sourceCompletes.resultAt_eq .here denotes,
    completes.resultAt_eq .here denotesImage⟩

end Graph

section Sample

/-- The external node of `triplingBody` gives way to the sum in `tripling`. -/
def sumTarget (name : String) : Option Target :=
  if name = "x" then some ⟨2, false⟩ else none

/-- The graph `tripling` with a copy of `triplingBody`. -/
def hosting (unset : Value) : Graph :=
  { tripling with
    nodes := tripling.nodes ++ [⟨5, .call, .text "+", [2, 2, 2], unset⟩]
    nextId := 6 }

def triplingBodyEvaluated : Graph :=
  ⟨[⟨0, .external, .text "x", [], .int 3⟩, ⟨1, .call, .text "+", [0, 0, 0], .int 9⟩], [("y", 1)], 2⟩

def hostingEvaluated : Graph :=
  ⟨[⟨0, .constant, .int 1, [], .int 1⟩, ⟨1, .constant, .int 2, [], .int 2⟩,
      ⟨4, .external, .text "z", [], .text "z"⟩, ⟨2, .call, .text "+", [0, 1], .int 3⟩,
      ⟨3, .loop, .loop ⟨0, "i", triplingBodyEvaluated, [(0, 2)]⟩, [], .null⟩,
      ⟨5, .call, .text "+", [2, 2, 2], .int 9⟩],
    [("total", 2), ("loop", 3)], 6⟩

theorem hosting_evaluates (unset : Value) : (hosting unset).evaluate adding (fun _ => none) =
    ⟨hostingEvaluated, .ok [("total", .int 3), ("loop", .null)]⟩ := by
  cbv

theorem triplingBody_evaluates :
    triplingBody.evaluate adding
      (Scope.retarget (fun _ => none) triplingBody sumTarget (hostingEvaluated.resultAt [])) =
    ⟨triplingBodyEvaluated, .ok [("y", .int 9)]⟩ := by
  cbv

theorem tripling_hosts_its_body :
    (∀ id ∈ triplingBody.ids, ∃ image value,
      List.lookup id [((0 : NodeId), (2 : NodeId)), (1, 5)] = some image ∧
        triplingBodyEvaluated.resultAt [] id = some value ∧
        hostingEvaluated.resultAt [] image = some value) ∧
    ∃ before values, tripling.evaluate adding (fun _ => none) = ⟨before, .ok values⟩ ∧
      ∀ path body, tripling.within? path = some body → ∀ id ∈ body.ids, ∃ value,
        before.resultAt path id = some value ∧ hostingEvaluated.resultAt path id = some value := by
  have bodyCoherent : triplingBody.Coherent := tripling_wellFormed.coherent [3] rfl
  have coherent : tripling.Coherent := tripling_wellFormed.coherent [] rfl
  have ordered : triplingBody.schedule = ⟨triplingBody, .ok ()⟩ := by cbv
  have splices : Graph.splice (fun _ => triplingBody) sumTarget tripling =
      ⟨hosting unsetResult, [], .ok [(0, 2), (1, 5)]⟩ := rfl
  exact Graph.splice_preserves_results bodyCoherent coherent tripling_numbered.here ordered splices
    (hosting_evaluates unsetResult) triplingBody_evaluates

end Sample

end FlowGraph

import FlowGraph.Proofs.CopyingRuns
import FlowGraph.Proofs.Rearrangement

/-!
# Splicing embeds the source in the destination

A splice that ends has given every node of the source an image.  The image of a bound
external node is its target.  Every other node has a new node of its own as its image,
which is the node with the images of what it reads in place of what it reads.  These new
nodes stand behind all that the destination had.

The source may be the destination itself: the nodes that are copied are those that it had
when copying began.
-/

namespace FlowGraph

theorem forall₂_trans {α β γ : Type} {related : α → β → Prop} {later : β → γ → Prop}
    {composed : α → γ → Prop} {first : List α} {second : List β} {third : List γ}
    (pairs : List.Forall₂ related first second) (next : List.Forall₂ later second third)
    (compose : ∀ left middle right, related left middle → later middle right →
      composed left right) : List.Forall₂ composed first third := by
  induction pairs generalizing third with
  | nil =>
      cases next
      exact .nil
  | cons here _ induction =>
      cases next with
      | cons there rest => exact .cons (compose _ _ _ here there) (induction rest)

namespace Node

/-- A new node for a node, whose references follow a table and whose loop has a body that
is related to the body of the loop. -/
structure CopiedAs (table : List (NodeId × NodeId)) (bodies : Graph → Graph → Prop)
    (node copy : Node) : Prop where
  image : table.lookup node.id = some copy.id
  kind : copy.kind = node.kind
  inputs : List.Forall₂ (fun input image => table.lookup input = some image)
    node.inputs copy.inputs
  content : (∀ loop, node.content ≠ .loop loop) → copy.content = node.content
  loops : ∀ loop, node.content = .loop loop → ∃ changed, copy.content = .loop changed ∧
    changed.index = loop.index ∧ bodies loop.body changed.body ∧
    List.Forall₂ (fun binding changed =>
      changed.1 = binding.1 ∧ table.lookup binding.2 = some changed.2)
      loop.bindings changed.bindings
  result : copy.result = unsetResult

/-- The body that is in a schedule for a body of a node.  Only the bodies of loop nodes
are put in order. -/
def SortedBody (node : Node) (body sorted : Graph) : Prop :=
  if node.kind = .loop then body.schedule = ⟨sorted, .ok ()⟩ else sorted = body

namespace Revised

variable {related : Loop → Loop → Prop} {node other : Node}

theorem target?_eq (revised : node.Revised related other) (targets : String → Option Target) :
    other.target? targets = node.target? targets := by
  rw [target?, target?, revised.kind_eq]
  by_cases external : node.kind = .external
  · rw [revised.content_eq (by simp [external])]
  · rw [if_neg external, if_neg external]

theorem isFree_eq (revised : node.Revised related other) (targets : String → Option Target) :
    other.isFree targets = node.isFree targets := by
  rw [isFree, isFree, revised.target?_eq]

theorem names_eq (revised : node.Revised related other) : other.names = node.names := by
  rw [names, names, revised.kind_eq]
  by_cases external : node.kind = .external
  · rw [revised.content_eq (by simp [external])]
  · rw [if_neg external, if_neg external]

end Revised

theorem flatMap_names_revised {related : Loop → Loop → Prop} {nodes others : List Node}
    (revised : List.Forall₂ (Node.Revised related) nodes others) :
    others.flatMap names = nodes.flatMap names := by
  induction revised with
  | nil => rfl
  | cons first _ induction =>
      rw [List.flatMap_cons, List.flatMap_cons, first.names_eq, induction]

/-- A copy of a node of a schedule is one of the node that was scheduled. -/
theorem CopiedAs.of_scheduled {table : List (NodeId × NodeId)} {node other copy : Node}
    (revised : node.Revised Loop.ScheduledTo other)
    (copied : other.CopiedAs table (fun body copied => copied = body) copy) :
    node.CopiedAs table node.SortedBody copy := by
  refine
    { image := revised.id_eq ▸ copied.image
      kind := copied.kind.trans revised.kind_eq
      inputs := revised.inputs_eq ▸ copied.inputs
      content := ?_
      loops := ?_
      result := copied.result }
  · intro plain
    cases revised with
    | same => exact copied.content plain
    | loop runs => exact absurd (Node.loop?_eq_some.mp runs).2 (plain _)
  · intro loop content
    cases revised with
    | same noLoop =>
        have unordered : node.kind ≠ .loop := by
          intro kind
          cases noLoop.symm.trans (Node.loop?_eq_some.mpr ⟨kind, content⟩)
        obtain ⟨changed, holds, index, body, bindings⟩ := copied.loops loop content
        exact ⟨changed, holds, index, (if_neg unordered).mpr body, bindings⟩
    | @loop held sorted runs related =>
        obtain ⟨kind, holdsLoop⟩ := Node.loop?_eq_some.mp runs
        cases holdsLoop.symm.trans content
        obtain ⟨changed, holds, index, body, bindings⟩ := copied.loops sorted rfl
        refine ⟨changed, holds, index.trans related.index, ?_, related.bindings ▸ bindings⟩
        exact (if_pos kind).mpr (body ▸ Graph.schedule_eq_ok_iff.mpr related.body)

end Node

namespace Copying

variable {targets : String → Option Target} {copying final : Copying} {nodes : List Node}

/-- The new node of a node, as it is seen at the end. -/
theorem copiedAs_added {node : Node}
    (known : ∀ id ∈ node.dependencies, id ∈ copying.table.map Prod.fst)
    (grows : (copying.added node).table <+: final.table)
    (distinct : (final.table.map Prod.fst).Nodup) :
    node.CopiedAs final.table (fun body copied => copied = body)
      (copying.destination.newNode node.kind (copying.relinked node.content)
        (node.inputs.map copying.renumber)) := by
  have before : copying.table <+: final.table := (List.prefix_append _ _).trans grows
  have image : ∀ id ∈ node.dependencies,
      final.table.lookup id = some (copying.renumber id) := by
    intro id needed
    obtain ⟨copy, found⟩ := exists_lookup (known id needed)
    rw [renumber_of_image (image_eq_ok.mpr found)]
    exact before.lookup_eq_some found
  refine
    { image := ?_
      kind := rfl
      inputs := ?_
      content := relinked_of_plain copying
      loops := ?_
      result := rfl }
  · apply lookup_of_mem distinct
    exact grows.subset (List.mem_append_right _ List.mem_cons_self)
  · apply List.forall₂_map_right_iff.mpr
    apply List.forall₂_same.mpr
    exact fun input isInput => image input (node.inputs_subset_dependencies isInput)
  · intro loop content
    refine ⟨_, congrArg copying.relinked content, rfl, rfl, ?_⟩
    apply List.forall₂_map_right_iff.mpr
    apply List.forall₂_same.mpr
    intro binding member
    refine ⟨rfl, image binding.2 ?_⟩
    exact (Node.dependencies_of_content content).mpr (.inr (List.mem_map_of_mem member))

/-- A run puts a new node for each free node behind the nodes of the destination, each
with a number of its own. -/
theorem exists_copies {placed : List NodeId} (numbered : copying.destination.Numbered)
    (sequenced : Sequenced placed nodes) (covers : copying.Covers placed)
    (admits : copying.Admits targets nodes)
    (ends : copying.run targets nodes = final) (distinct : (final.table.map Prod.fst).Nodup) :
    ∃ copies, final.destination.nodes = copying.destination.nodes ++ copies ∧
      final.destination.nextId = copying.destination.nextId + copies.length ∧
      List.Forall₂ (Node.CopiedAs final.table fun body copied => copied = body)
        (nodes.filter (Node.isFree targets)) copies ∧
      (copies.map Node.id).Nodup ∧
      ∀ copy ∈ copies, copying.destination.nextId ≤ copy.id := by
  induction nodes generalizing copying placed with
  | nil =>
      subst ends
      exact ⟨[], (List.append_nil _).symm, (Int.add_zero _).symm, .nil, .nil, by simp⟩
  | cons node rest induction =>
      obtain ⟨copies, behind, issued, copied, apart, above⟩ :=
        induction ((takesIn_next targets copying node) numbered).2 sequenced.2
          (covers.next admits.1) admits.2 ends
      cases named : node.target? targets with
      | some target =>
          rw [next_of_bound named] at behind issued above
          rw [List.filter_cons_of_neg (Node.not_isFree named)]
          exact ⟨copies, behind, issued, copied, apart, above⟩
      | none =>
          have grows : (copying.added node).table <+: final.table := by
            rw [← next_of_free named, ← ends]
            exact table_grows_run targets (copying.next targets node) rest
          have first := copiedAs_added
            (fun id needed => covers.keys (sequenced.1 id needed)) grows distinct
          rw [next_of_free named] at behind issued above
          have later : ∀ copy ∈ copies, copying.destination.nextId < copy.id :=
            fun copy member => Int.add_one_le_iff.mp (above copy member)
          rw [List.filter_cons_of_pos (Node.isFree_of_target named)]
          refine ⟨_ :: copies, ?_, ?_, .cons first copied, ?_, ?_⟩
          · rw [behind, added, Graph.extended_nodes numbered.fresh, List.append_assoc]
            rfl
          · rw [issued, List.length_cons]
            exact (Int.add_assoc _ _ _).trans (congrArg _ (Int.add_comm _ _))
          · refine List.nodup_cons.mpr ⟨fun again => ?_, apart⟩
            obtain ⟨copy, member, same⟩ := List.mem_map.mp again
            exact absurd same (ne_of_gt (later copy member))
          · exact List.forall_mem_cons.mpr ⟨le_refl _, fun copy member => (later copy member).le⟩

theorem lookup_bound {node : Node} {target : Target} (ends : copying.run targets nodes = final)
    (distinct : (final.table.map Prod.fst).Nodup) (member : node ∈ nodes)
    (named : node.target? targets = some target) :
    final.table.lookup node.id = some target.id := by
  obtain ⟨before, after, rfl⟩ := List.append_of_mem member
  rw [run, List.foldl_append, List.foldl_cons, next_of_bound named] at ends
  have grows := table_grows_run targets ((copying.run targets before).bound node target) after
  rw [run, run, ends] at grows
  apply lookup_of_mem distinct
  exact grows.subset (List.mem_append_right _ List.mem_cons_self)

end Copying

namespace Graph

/-- How a source and a destination are looked at while the one is spliced into the other:
the source in evaluation order, as a function of the destination, and the destination in
which copying begins.  They are separate graphs, or they are one graph. -/
inductive Presents : Graph → Graph → (Graph → Graph) → Graph → Prop where
  | apart {source scheduled : Graph} (ordered : source.schedule = ⟨scheduled, .ok ()⟩)
      (destination : Graph) : Presents source destination (fun _ => scheduled) destination
  | same {graph scheduled : Graph} (ordered : graph.schedule = ⟨scheduled, .ok ()⟩) :
      Presents graph graph (fun found => found) scheduled

theorem Presents.exists_scheduled {source destination host : Graph} {view : Graph → Graph}
    (presents : source.Presents destination view host)
    (distinct : source.Everywhere fun body => body.ids.Nodup) :
    ∃ scheduled, source.scheduled = .ok scheduled ∧ view host = scheduled ∧
      (∀ grown, host.GrowsTo grown →
        ∀ node ∈ scheduled.nodes, (view grown).find? node.id = some node) ∧
      destination.Rearranges host := by
  cases presents with
  | apart ordered =>
      have inOrder := schedule_eq_ok_iff.mp ordered
      have schedules := schedules_of_scheduled distinct.here inOrder
      refine ⟨_, inOrder, rfl, fun grown grows node member => ?_, .refl _⟩
      exact find?_of_mem (schedules.ids.nodup_iff.mpr distinct.here) member
  | same ordered =>
      have inOrder := schedule_eq_ok_iff.mp ordered
      have schedules := schedules_of_scheduled distinct.here inOrder
      refine ⟨host, inOrder, rfl, fun grown grows node member => grows.find? ?_,
        rearranges_of_scheduled distinct inOrder⟩
      exact find?_of_mem (schedules.ids.nodup_iff.mpr distinct.here) member

/-- What a splice makes of a source and a destination: `arranged` are the nodes of the
source in evaluation order, and `copies` the new nodes. -/
structure SplicesTo (targets : String → Option Target) (source destination host after : Graph)
    (table : List (NodeId × NodeId)) (unbound : List String) (arranged copies : List Node) :
    Prop where
  permuted : arranged.Perm source.nodes
  ordered : evaluationOrder source.nodes = .ok (arranged.map Node.id)
  domain : table.map Prod.fst = arranged.map Node.id
  bound : ∀ node ∈ source.nodes, ∀ target, node.target? targets = some target →
    table.lookup node.id = some target.id
  copied : List.Forall₂ (fun node copy => node.CopiedAs table node.SortedBody copy)
    (arranged.filter (Node.isFree targets)) copies
  distinct : (copies.map Node.id).Nodup
  fresh : ∀ copy ∈ copies, copy.id ∉ destination.ids
  unbound : unbound = (arranged.filter (Node.isFree targets)).flatMap Node.names
  kept : destination.Rearranges host
  nodes : after.nodes = host.nodes ++ copies
  exits : after.exits = destination.exits
  nextId : after.nextId = destination.nextId + copies.length

/-- A splice that succeeds gives every node of the source, in evaluation order, its target
or a new node as its image, and leaves what the destination had. -/
theorem splice_embeds {source destination host after : Graph} {view : Graph → Graph}
    {targets : String → Option Target} {table : List (NodeId × NodeId)} {unbound : List String}
    (presents : source.Presents destination view host)
    (distinct : source.Everywhere fun body => body.ids.Nodup) (numbered : destination.Numbered)
    (done : splice view targets host = ⟨after, unbound, .ok table⟩) :
    ∃ arranged copies,
      SplicesTo targets source destination host after table unbound arranged copies := by
  obtain ⟨scheduled, inOrder, seen, seesGrown, kept⟩ := presents.exists_scheduled distinct
  have hostNumbered : host.Numbered := kept.here.numbered numbered
  have sees : ∀ grown, host.TakesIn grown →
      ∀ node ∈ scheduled.nodes, (view grown).find? node.id = some node :=
    fun grown takesIn => seesGrown grown (takesIn hostNumbered).1
  have schedules := schedules_of_scheduled distinct.here inOrder
  have ids : (view host).ids = scheduled.nodes.map Node.id := congrArg ids seen
  rcases splice_ok_or_stops ids schedules.sequenced sees targets with
    admits | ⟨_, _, _, _, _, _, _, failed⟩
  · obtain ⟨arranged, permuted, ordered, revised⟩ :=
      exists_arranged_revised distinct.here inOrder
    rw [splice_of_admits ids schedules.sequenced sees admits] at done
    generalize ends : Copying.run targets ⟨host, [], []⟩ scheduled.nodes = final at done
    cases done
    have domain : final.table.map Prod.fst = arranged.map Node.id := by
      rw [← ends, Copying.keys_run, ← ids_revised revised]
      rfl
    have keys : (final.table.map Prod.fst).Nodup := by
      rw [domain]
      exact (permuted.map Node.id).nodup_iff.mpr distinct.here
    have freeRevised := List.rel_filter (fun _ _ related =>
      Bool.eq_iff_iff.mp (related.isFree_eq targets).symm) revised
    obtain ⟨copies, behind, nextId, copied, apart, above⟩ := Copying.exists_copies hostNumbered
      schedules.sequenced (Copying.covers_start host) admits ends keys
    have sameNext : host.nextId = destination.nextId := kept.here.nextId
    refine ⟨arranged, copies,
      { permuted := permuted
        ordered := ordered
        domain := domain
        bound := ?_
        copied := forall₂_trans freeRevised copied fun _ _ _ => Node.CopiedAs.of_scheduled
        distinct := apart
        fresh := ?_
        unbound := ?_
        kept := kept
        nodes := behind
        exits := ?_
        nextId := sameNext ▸ nextId }⟩
    · intro node member target named
      obtain ⟨other, found, related⟩ :=
        exists_partner (schedules.nodes node.id) (find?_of_mem distinct.here member)
      rw [← related.id_eq]
      apply Copying.lookup_bound ends keys (mem_of_find? found).1
      rw [related.target?_eq, named]
    · intro copy member present
      have below := numbered copy.id present
      rw [← sameNext] at below
      exact absurd below (not_lt.mpr (above copy member))
    · rw [← ends, Copying.unbound_run, List.nil_append]
      exact Node.flatMap_names_revised freeRevised
    · rw [← ends]
      exact (Copying.takesIn_run targets _ _ hostNumbered).1.exits.trans kept.here.exits
  · rw [done] at failed
    cases failed

end Graph

section Sample

/-- The nodes of `tripling` in evaluation order. -/
def orderedTripling : Graph :=
  ⟨[⟨0, .constant, .int 1, [], .null⟩, ⟨1, .constant, .int 2, [], .null⟩,
      ⟨4, .external, .text "z", [], .null⟩, ⟨2, .call, .text "+", [0, 1], .null⟩,
      ⟨3, .loop, .loop ⟨0, "i", triplingBody, [(0, 2)]⟩, [], .null⟩],
    [("total", 2), ("loop", 3)], 5⟩

/-- The loop is copied into the graph that it stands in. -/
theorem tripling_embeds_itself : ∃ arranged copies,
    Graph.SplicesTo (fun _ => none) tripling tripling orderedTripling
      (Graph.splice (fun found => found) (fun _ => none) orderedTripling).destination
      [(0, 5), (1, 6), (4, 7), (2, 8), (3, 9)] ["z"] arranged copies := by
  have ordered : tripling.schedule = ⟨orderedTripling, .ok ()⟩ := by cbv
  exact Graph.splice_embeds (.same ordered) tripling_wellFormed.distinct tripling_numbered.here rfl

end Sample

end FlowGraph

import FlowGraph.Proofs.Splicing

/-!
# Splicing runs to its end or to a missing target

Once the nodes that a node depends on have images, splicing can fail at the node only for
a target that the destination does not have by then.  So a splice runs over the nodes of
the source in evaluation order, to their end or to the first such target.  By then the
destination has handed out numbers to the copies before, and these are as good as those
of its own nodes.
-/

namespace FlowGraph

namespace Node

/-- What an external node is bound to. -/
def target? (targets : String → Option Target) (node : Node) : Option Target :=
  if node.kind = .external then targets node.content.plain else none

/-- Whether nothing is bound to stand for a node. -/
def isFree (targets : String → Option Target) (node : Node) : Bool :=
  (node.target? targets).isNone

theorem not_isFree {targets : String → Option Target} {node : Node} {target : Target}
    (named : node.target? targets = some target) : ¬ node.isFree targets := by
  simp [isFree, named]

theorem isFree_of_target {targets : String → Option Target} {node : Node}
    (unnamed : node.target? targets = none) : node.isFree targets := by
  simp [isFree, unnamed]

/-- The names that a node is reported under. -/
def names (node : Node) : List String :=
  if node.kind = .external then [node.content.plain] else []

end Node

namespace Target

/-- A target that splicing accepts. -/
def Fits (target : Target) (destination : Graph) : Prop :=
  target.foreign = false ∧ target.id ∈ destination.ids

/-- Why a target of a name is not accepted. -/
def fault (target : Target) (name : String) : Fault :=
  if target.foreign then .foreignTarget name else .missingNode target.id

end Target

/-- The first of some consecutive numbers, and the others. -/
theorem issued_succ {old : Prop} {first id : Int} {count : Nat} :
    (old ∨ id = first) ∨ first + 1 ≤ id ∧ id < first + 1 + count ↔
      old ∨ first ≤ id ∧ id < first + (count + 1 : Nat) := by
  by_cases held : old
  · simp only [held, true_or]
  · simp only [held, false_or]
    push_cast
    omega

/-- What new nodes make of a graph.  If its numbers were handed out, the new nodes come
behind its own. -/
def Graph.TakesIn (graph other : Graph) : Prop :=
  graph.Numbered → graph.GrowsTo other ∧ other.Numbered

namespace Graph.TakesIn

variable {graph middle other : Graph}

theorem refl (graph : Graph) : graph.TakesIn graph :=
  fun numbered => ⟨.refl graph, numbered⟩

theorem trans (first : graph.TakesIn middle) (second : middle.TakesIn other) :
    graph.TakesIn other := by
  intro numbered
  obtain ⟨grows, still⟩ := first numbered
  obtain ⟨further, ends⟩ := second still
  exact ⟨grows.trans further, ends⟩

end Graph.TakesIn

namespace Copying

variable {targets : String → Option Target} {copying : Copying} {node : Node} {target : Target}

/-- The target of a node is its image. -/
def bound (copying : Copying) (node : Node) (target : Target) : Copying :=
  { copying with table := copying.table ++ [(node.id, target.id)] }

/-- A new node is the image of a node. -/
def added (copying : Copying) (node : Node) : Copying :=
  ⟨copying.destination.extended node.kind (copying.relinked node.content)
      (node.inputs.map copying.renumber),
    copying.table ++ [(node.id, copying.destination.nextId)], copying.unbound ++ node.names⟩

/-- What is known after a node was dealt with. -/
def next (targets : String → Option Target) (copying : Copying) (node : Node) : Copying :=
  match node.target? targets with
  | some target => copying.bound node target
  | none => copying.added node

/-- What is known after some nodes were dealt with. -/
def run (targets : String → Option Target) (copying : Copying) (nodes : List Node) : Copying :=
  nodes.foldl (next targets) copying

/-- Every target is there when its turn comes. -/
def Admits (targets : String → Option Target) : Copying → List Node → Prop
  | _, [] => True
  | copying, node :: rest =>
      (∀ target, node.target? targets = some target → target.Fits copying.destination) ∧
        Admits targets (copying.next targets node) rest

/-- The placed nodes have images, and images are nodes of the destination. -/
structure Covers (copying : Copying) (placed : List NodeId) : Prop where
  keys : placed ⊆ copying.table.map Prod.fst
  images : ∀ entry ∈ copying.table, entry.2 ∈ copying.destination.ids

theorem covers_start (host : Graph) : Covers ⟨host, [], []⟩ [] :=
  ⟨List.nil_subset _, fun _ member => by cases member⟩

theorem next_of_bound (named : node.target? targets = some target) :
    copying.next targets node = copying.bound node target := by
  simp only [next, named]

theorem next_of_free (free : node.target? targets = none) :
    copying.next targets node = copying.added node := by
  simp only [next, free]

theorem table_next (targets : String → Option Target) (copying : Copying) (node : Node) :
    ∃ image, (copying.next targets node).table = copying.table ++ [(node.id, image)] := by
  cases named : node.target? targets with
  | some target => exact ⟨target.id, by rw [next_of_bound named, bound]⟩
  | none => exact ⟨copying.destination.nextId, by rw [next_of_free named, added]⟩

theorem takesIn_next (targets : String → Option Target) (copying : Copying) (node : Node) :
    copying.destination.TakesIn (copying.next targets node).destination := by
  cases named : node.target? targets with
  | some target =>
      rw [next_of_bound named]
      exact .refl _
  | none =>
      rw [next_of_free named]
      exact fun numbered => ⟨.extended numbered _ _ _, numbered.extended⟩

theorem takesIn_run (targets : String → Option Target) (copying : Copying) (nodes : List Node) :
    copying.destination.TakesIn (copying.run targets nodes).destination := by
  induction nodes generalizing copying with
  | nil => exact .refl _
  | cons node rest induction =>
      exact (takesIn_next targets copying node).trans (induction (copying.next targets node))

theorem table_grows_run (targets : String → Option Target) (copying : Copying)
    (nodes : List Node) : copying.table <+: (copying.run targets nodes).table := by
  induction nodes generalizing copying with
  | nil => exact List.prefix_rfl
  | cons node rest induction =>
      obtain ⟨image, entry⟩ := table_next targets copying node
      have first : copying.table <+: (copying.next targets node).table :=
        entry ▸ List.prefix_append _ _
      exact first.trans (induction (copying.next targets node))

/-- The keys of the table are the nodes in the order in which they were dealt with. -/
theorem keys_run (targets : String → Option Target) (copying : Copying) (nodes : List Node) :
    (copying.run targets nodes).table.map Prod.fst =
      copying.table.map Prod.fst ++ nodes.map Node.id := by
  induction nodes generalizing copying with
  | nil => exact (List.append_nil _).symm
  | cons node rest induction =>
      obtain ⟨image, entry⟩ := table_next targets copying node
      refine (induction (copying.next targets node)).trans ?_
      rw [entry, List.map_append, List.append_assoc]
      rfl

theorem unbound_run (targets : String → Option Target) (copying : Copying) (nodes : List Node) :
    (copying.run targets nodes).unbound =
      copying.unbound ++ (nodes.filter (Node.isFree targets)).flatMap Node.names := by
  induction nodes generalizing copying with
  | nil => exact (List.append_nil _).symm
  | cons node rest induction =>
      refine (induction (copying.next targets node)).trans ?_
      cases named : node.target? targets with
      | some target =>
          rw [next_of_bound named, List.filter_cons_of_neg (Node.not_isFree named)]
          rfl
      | none =>
          rw [next_of_free named, List.filter_cons_of_pos (Node.isFree_of_target named),
            List.flatMap_cons, ← List.append_assoc]
          rfl

/-- A number is one of the destination, or it was handed out for one of the copies. -/
theorem mem_ids_run (targets : String → Option Target) (copying : Copying) (nodes : List Node)
    {id : NodeId} :
    id ∈ (copying.run targets nodes).destination.ids ↔ id ∈ copying.destination.ids ∨
      copying.destination.nextId ≤ id ∧
        id < copying.destination.nextId + nodes.countP (Node.isFree targets) := by
  induction nodes generalizing copying with
  | nil =>
      rw [List.countP_nil]
      refine ⟨.inl, fun either => either.resolve_right ?_⟩
      intro range
      exact absurd (by simpa using range.2) (not_lt.mpr range.1)
  | cons node rest induction =>
      refine (induction (copying.next targets node)).trans ?_
      cases named : node.target? targets with
      | some target =>
          rw [next_of_bound named, List.countP_cons_of_neg (Node.not_isFree named)]
          rfl
      | none =>
          rw [next_of_free named, List.countP_cons_of_pos (Node.isFree_of_target named)]
          have nextNumber : (copying.added node).destination.nextId =
              copying.destination.nextId + 1 := rfl
          rw [nextNumber, added, Graph.mem_extended_ids]
          exact issued_succ

/-- A node whose dependencies have images can be copied. -/
theorem copy_of_known (images : ∀ entry ∈ copying.table, entry.2 ∈ copying.destination.ids)
    (known : ∀ id ∈ node.dependencies, id ∈ copying.table.map Prod.fst) :
    copying.copy node = .ok { copying.added node with unbound := copying.unbound } := by
  have image : ∀ id ∈ node.dependencies, copying.image id = .ok (copying.renumber id) := by
    intro id needed
    obtain ⟨copy, found⟩ := exists_lookup (known id needed)
    have answered := image_eq_ok.mpr found
    rw [renumber_of_image answered]
    exact answered
  have content : copying.content node.content = .ok (copying.relinked node.content) := by
    by_cases holdsLoop : ∃ loop, node.content = .loop loop
    · obtain ⟨loop, isLoop⟩ := holdsLoop
      rw [isLoop]
      refine bind_eq_ok.mpr ⟨_, mapM_eq_ok ?_, rfl⟩
      intro binding member
      refine bind_eq_ok.mpr ⟨copying.renumber binding.2, image binding.2 ?_, rfl⟩
      exact (Node.dependencies_of_content isLoop).mpr (.inr (List.mem_map_of_mem member))
    · rw [relinked_of_plain copying (not_exists.mp holdsLoop)]
      unfold Copying.content
      split
      · rename_i loop isLoop
        exact absurd ⟨loop, isLoop⟩ holdsLoop
      · rfl
  have inputs : node.inputs.mapM copying.image = .ok (node.inputs.map copying.renumber) :=
    mapM_eq_ok fun id input => image id (node.inputs_subset_dependencies input)
  have present : node.inputs.map copying.renumber ⊆ copying.destination.ids := by
    intro id member
    obtain ⟨input, isInput, rfl⟩ := List.mem_map.mp member
    exact image_placed images (image input (node.inputs_subset_dependencies isInput))
  refine bind_eq_ok.mpr ⟨_, content, bind_eq_ok.mpr ⟨_, inputs, ?_⟩⟩
  exact bind_eq_ok.mpr ⟨_, Graph.add_of_subset present, rfl⟩

theorem bind_of_fits {name : String} (fits : target.Fits copying.destination) :
    copying.bind node name target = .ok (copying.bound node target) := by
  obtain ⟨own, present⟩ := fits
  obtain ⟨found, holds⟩ := Graph.exists_find? present
  simp only [Copying.bind, own, Bool.false_eq_true, if_false]
  refine bind_eq_ok.mpr ⟨found, Graph.node_eq_ok.mpr holds, ?_⟩
  rw [(Graph.mem_of_find? holds).2]
  rfl

theorem bind_of_unfit {name : String} (unfit : ¬ target.Fits copying.destination) :
    copying.bind node name target = .error (target.fault name) := by
  rw [Copying.bind, Target.fault]
  cases foreign : target.foreign with
  | true => rfl
  | false =>
      have missing : copying.destination.find? target.id = none :=
        Graph.find?_eq_none.mpr fun present => unfit ⟨foreign, present⟩
      simp only [Bool.false_eq_true, if_false, Graph.node, missing]
      rfl

theorem Covers.next {placed : List NodeId} (covers : copying.Covers placed)
    (fits : ∀ target, node.target? targets = some target → target.Fits copying.destination) :
    (copying.next targets node).Covers (node.id :: placed) := by
  obtain ⟨image, entry⟩ := table_next targets copying node
  constructor
  · rw [entry, List.map_append]
    apply List.cons_subset.mpr
    constructor
    · exact List.mem_append_right _ List.mem_cons_self
    · exact fun id member => List.mem_append_left _ (covers.keys member)
  · intro entry member
    cases named : node.target? targets with
    | some target =>
        rw [next_of_bound named] at member ⊢
        rcases List.mem_append.mp member with earlier | last
        · exact covers.images entry earlier
        · rw [List.mem_singleton.mp last]
          exact (fits target named).2
    | none =>
        rw [next_of_free named] at member ⊢
        rcases List.mem_append.mp member with earlier | last
        · exact Graph.mem_extended_ids.mpr (.inl (covers.images entry earlier))
        · rw [List.mem_singleton.mp last]
          exact Graph.mem_extended_ids.mpr (.inr rfl)

/-- All targets are there when their turns come, or there is a first one that is not. -/
theorem admits_or_stops (targets : String → Option Target) (copying : Copying)
    (nodes : List Node) :
    copying.Admits targets nodes ∨ ∃ before node after target,
      nodes = before ++ node :: after ∧ copying.Admits targets before ∧
      node.target? targets = some target ∧
      ¬ target.Fits (copying.run targets before).destination := by
  induction nodes generalizing copying with
  | nil => exact .inl trivial
  | cons node rest induction =>
      by_cases fits : ∀ target, node.target? targets = some target →
          target.Fits copying.destination
      · rcases induction (copying.next targets node) with
          admits | ⟨before, stuck, after, target, split, admits, named, unfit⟩
        · exact .inl ⟨fits, admits⟩
        · exact .inr ⟨node :: before, stuck, after, target, congrArg (node :: ·) split,
            ⟨fits, admits⟩, named, unfit⟩
      · push Not at fits
        obtain ⟨target, named, unfit⟩ := fits
        exact .inr ⟨[], node, rest, target, rfl, trivial, named, unfit⟩

/-- A target that is accepted in the course of a run is there when its turn comes. -/
theorem Admits.fits {before after : List Node}
    (admits : copying.Admits targets (before ++ node :: after))
    (named : node.target? targets = some target) :
    target.Fits (copying.run targets before).destination := by
  induction before generalizing copying with
  | nil => exact admits.1 target named
  | cons first rest induction => exact induction admits.2

end Copying

section Steps

variable {view : Graph → Graph} {targets : String → Option Target} {copying : Copying}
  {id : NodeId} {rest : List NodeId} {node : Node}

/-- The step of a node whose dependencies have images and whose target is there. -/
theorem copyNodes_next (found : (view copying.destination).find? id = some node)
    (images : ∀ entry ∈ copying.table, entry.2 ∈ copying.destination.ids)
    (known : ∀ id ∈ node.dependencies, id ∈ copying.table.map Prod.fst)
    (fits : ∀ target, node.target? targets = some target → target.Fits copying.destination) :
    copyNodes view targets copying (id :: rest) =
      copyNodes view targets (copying.next targets node) rest := by
  rw [copyNodes]
  simp only [found]
  by_cases external : node.kind = .external
  · rw [if_pos external]
    have named : node.target? targets = targets node.content.plain := if_pos external
    cases target : targets node.content.plain with
    | some target =>
        rw [target] at named
        simp only [Copying.bind_of_fits (fits _ named), Copying.next_of_bound named]
    | none =>
        rw [target] at named
        have copied := @Copying.copy_of_known
          { copying with unbound := copying.unbound ++ [node.content.plain] } node images known
        simp only [copied, Copying.next_of_free named]
        congr 1
        simp only [Copying.added, Node.names, if_pos external]
        rfl
  · rw [if_neg external]
    have free : node.target? targets = none := if_neg external
    simp only [Copying.copy_of_known images known, Copying.next_of_free free]
    congr 1
    simp only [Copying.added, Node.names, if_neg external, List.append_nil]

/-- The step of a node whose target is not there. -/
theorem copyNodes_stops {target : Target} (found : (view copying.destination).find? id = some node)
    (named : node.target? targets = some target) (unfit : ¬ target.Fits copying.destination) :
    copyNodes view targets copying (id :: rest) =
      (copying, .error (target.fault node.content.plain)) := by
  rw [Node.target?] at named
  obtain ⟨external, isTarget⟩ := Option.ite_none_right_eq_some.mp named
  rw [copyNodes]
  simp only [found, if_pos external, isTarget, Copying.bind_of_unfit unfit]

/-- A run over nodes that find their dependencies before them and their targets in the
destination. -/
theorem copyNodes_run {nodes : List Node} {placed : List NodeId}
    (sequenced : Sequenced placed nodes) (covers : copying.Covers placed)
    (admits : copying.Admits targets nodes)
    (sees : ∀ grown, copying.destination.TakesIn grown →
      ∀ node ∈ nodes, (view grown).find? node.id = some node) :
    copyNodes view targets copying (nodes.map Node.id ++ rest) =
      copyNodes view targets (copying.run targets nodes) rest := by
  induction nodes generalizing copying placed with
  | nil => rfl
  | cons node later induction =>
      have step := @copyNodes_next view targets copying node.id (later.map Node.id ++ rest) node
        (sees copying.destination (.refl _) node List.mem_cons_self) covers.images
        (fun id needed => covers.keys (sequenced.1 id needed)) admits.1
      refine step.trans (induction sequenced.2 (covers.next admits.1) admits.2 ?_)
      intro grown grows other member
      exact sees grown ((Copying.takesIn_next targets copying node).trans grows) other
        (List.mem_cons_of_mem node member)

end Steps

namespace Graph

section Splices

variable {view : Graph → Graph} {targets : String → Option Target} {host : Graph}
  {nodes : List Node} (ids : (view host).ids = nodes.map Node.id) (sequenced : Sequenced [] nodes)
  (sees : ∀ grown, host.TakesIn grown → ∀ node ∈ nodes, (view grown).find? node.id = some node)
include ids sequenced sees

/-- A splice whose targets are all there when their turns come. -/
theorem splice_of_admits (admits : Copying.Admits targets ⟨host, [], []⟩ nodes) :
    splice view targets host =
      ⟨(Copying.run targets ⟨host, [], []⟩ nodes).destination,
        (Copying.run targets ⟨host, [], []⟩ nodes).unbound,
        .ok (Copying.run targets ⟨host, [], []⟩ nodes).table⟩ := by
  have ran := @copyNodes_run view targets ⟨host, [], []⟩ [] nodes [] sequenced
    (Copying.covers_start host) admits sees
  rw [List.append_nil, ← ids] at ran
  simp only [splice, spliceBlock, ran, copyNodes, transaction, Except.map]

/-- A splice comes to an end exactly when all targets are there when their turns come.
Otherwise it stops at the first that is not. -/
theorem splice_ok_or_stops (targets : String → Option Target) :
    Copying.Admits targets ⟨host, [], []⟩ nodes ∨
      ∃ before node after target, nodes = before ++ node :: after ∧
        node.target? targets = some target ∧
        ¬ target.Fits (Copying.run targets ⟨host, [], []⟩ before).destination ∧
        (splice view targets host).answer = .error (target.fault node.content.plain) := by
  rcases Copying.admits_or_stops targets ⟨host, [], []⟩ nodes with
    admits | ⟨before, node, after, target, rfl, admits, named, unfit⟩
  · exact .inl admits
  refine .inr ⟨before, node, after, target, rfl, named, unfit, ?_⟩
  have member : node ∈ before ++ node :: after := by simp
  have found := sees _ (Copying.takesIn_run targets ⟨host, [], []⟩ before) node member
  have ran := @copyNodes_run view targets ⟨host, [], []⟩ (node.id :: after.map Node.id) before []
    sequenced.of_append (Copying.covers_start host) admits fun grown grows other inside =>
      sees grown grows other (List.mem_append_left _ inside)
  rw [copyNodes_stops found named unfit, ← List.map_cons, ← List.map_append, ← ids] at ran
  simp only [splice, spliceBlock, ran, transaction, Except.map]

end Splices

/-- A splice of separate graphs fails exactly when an external node of the source is bound
to a node of another graph, or to a number that the destination neither had nor has handed
out to the copies of the nodes before it.  The destination is then as it was. -/
theorem splice_fails_iff {source scheduled : Graph} (distinct : source.ids.Nodup)
    (ordered : source.schedule = ⟨scheduled, .ok ()⟩) (targets : String → Option Target)
    (destination : Graph) :
    ((∃ fault, (splice (fun _ => scheduled) targets destination).answer = .error fault) ↔
      ∃ before node after target, scheduled.nodes = before ++ node :: after ∧
        node.target? targets = some target ∧
        (target.foreign = true ∨ target.id ∉ destination.ids ∧
          ¬ (destination.nextId ≤ target.id ∧
            target.id < destination.nextId + before.countP (Node.isFree targets)))) ∧
    ∀ fault, (splice (fun _ => scheduled) targets destination).answer = .error fault →
      (splice (fun _ => scheduled) targets destination).destination = destination ∧
      ∃ node ∈ scheduled.nodes, ∃ target, node.target? targets = some target ∧
        fault = target.fault node.content.plain := by
  have schedules := schedules_of_scheduled distinct (schedule_eq_ok_iff.mp ordered)
  have stillDistinct : scheduled.ids.Nodup := schedules.ids.nodup_iff.mpr distinct
  have sees : ∀ grown, destination.TakesIn grown →
      ∀ node ∈ scheduled.nodes, scheduled.find? node.id = some node :=
    fun _ _ _ member => find?_of_mem stillDistinct member
  have unfit : ∀ before (target : Target),
      ¬ target.Fits (Copying.run targets ⟨destination, [], []⟩ before).destination ↔
        target.foreign = true ∨ target.id ∉ destination.ids ∧
          ¬ (destination.nextId ≤ target.id ∧
            target.id < destination.nextId + before.countP (Node.isFree targets)) := by
    intro before target
    rw [Target.Fits, Copying.mem_ids_run, not_and_or, not_or, Bool.not_eq_false]
  have outcome := @splice_ok_or_stops (fun _ => scheduled) destination scheduled.nodes rfl
    schedules.sequenced sees targets
  have stops : ∀ fault, (splice (fun _ => scheduled) targets destination).answer = .error fault →
      ∃ before node after target, scheduled.nodes = before ++ node :: after ∧
        node.target? targets = some target ∧
        ¬ target.Fits (Copying.run targets ⟨destination, [], []⟩ before).destination ∧
        fault = target.fault node.content.plain := by
    intro fault failed
    rcases outcome with admits | ⟨before, node, after, target, split, named, missing, stopped⟩
    · rw [splice_of_admits rfl schedules.sequenced sees admits] at failed
      cases failed
    · rw [stopped] at failed
      exact ⟨before, node, after, target, split, named, missing, (Except.error.inj failed).symm⟩
  refine ⟨⟨?_, ?_⟩, ?_⟩
  · intro fails
    obtain ⟨fault, failed⟩ := fails
    obtain ⟨before, node, after, target, split, named, missing, _⟩ := stops fault failed
    exact ⟨before, node, after, target, split, named, (unfit before target).mp missing⟩
  · intro misses
    obtain ⟨before, node, after, target, split, named, missing⟩ := misses
    rcases outcome with admits | ⟨_, _, _, _, _, _, _, failed⟩
    · rw [split] at admits
      exact absurd (admits.fits named) ((unfit before target).mpr missing)
    · exact ⟨_, failed⟩
  · intro fault failed
    obtain ⟨before, node, after, target, split, named, _, isFault⟩ := stops fault failed
    refine ⟨splice_unchanged failed, node, ?_, target, named, isFault⟩
    rw [split]
    exact List.mem_append_right _ List.mem_cons_self

end Graph

section Sample

/-- A constant that comes before an external node, and a call of the latter. -/
def constantFirst : Graph :=
  ⟨[⟨0, .constant, .int 7, [], .null⟩, ⟨1, .external, .text "x", [], .null⟩,
      ⟨2, .call, .text "+", [1, 1], .null⟩],
    [("y", 2)], 3⟩

def oneConstant : Graph :=
  ⟨[⟨0, .constant, .int 1, [], .null⟩], [], 1⟩

/-- A name that is bound to a number. -/
def bindX (id : NodeId) (name : String) : Option Target :=
  if name = "x" then some ⟨id, false⟩ else none

theorem constantFirst_schedule : constantFirst.schedule = ⟨constantFirst, .ok ()⟩ := by
  cbv

/-- One copy is made before the external node, so only one number is handed out by then. -/
theorem splice_constantFirst_fails :
    (∃ fault, (Graph.splice (fun _ => constantFirst) (bindX 2) oneConstant).answer =
      .error fault) ∧
    ∀ fault, (Graph.splice (fun _ => constantFirst) (bindX 2) oneConstant).answer =
        .error fault →
      (Graph.splice (fun _ => constantFirst) (bindX 2) oneConstant).destination =
        oneConstant := by
  obtain ⟨fails, unchanged⟩ := @Graph.splice_fails_iff constantFirst constantFirst (by decide)
    constantFirst_schedule (bindX 2) oneConstant
  refine ⟨fails.mpr ?_, fun fault failed => (unchanged fault failed).1⟩
  exact ⟨[⟨0, .constant, .int 7, [], .null⟩], ⟨1, .external, .text "x", [], .null⟩,
    [⟨2, .call, .text "+", [1, 1], .null⟩], ⟨2, false⟩, rfl, rfl, .inr ⟨by decide, by decide⟩⟩

/-- That number is accepted as a target, although the destination had no such node: the
external node gives way to the copy of the constant before it. -/
theorem splice_binds_to_copy :
    constantFirst.schedule = ⟨constantFirst, .ok ()⟩ ∧ (1 : NodeId) ∉ oneConstant.ids ∧
      (Graph.splice (fun _ => constantFirst) (bindX 1) oneConstant).answer =
        .ok [(0, 1), (1, 1), (2, 2)] :=
  ⟨constantFirst_schedule, by decide, rfl⟩

end Sample

end FlowGraph

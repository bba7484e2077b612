import FlowGraph.Proofs.Containment
import FlowGraph.Proofs.Interruption
import FlowGraph.Proofs.Preservation
import FlowGraph.Session

/-!
# Operations hand out new numbers only

Whatever an operation does to a graph, and wherever it stops, the numbers that it leaves
are old ones or come from the counter, and the counter does not go back.  No operation
makes a loop either: those of the graph that it leaves come from the graph, from new
contents or from the results of calls.  `Graph.Develops` says both of one graph; it holds
of every step of an operation and so of the operation.
-/

namespace FlowGraph

variable {tag : Nat}

/-- Operations given values without a loop return values without it, and so do names and
the elements and fields of values. -/
structure Interpretation.Avoids (tag : Nat) (meaning : Interpretation) : Prop where
  call : ∀ {name operands value}, (∀ operand ∈ operands, operand.Avoids tag) →
    meaning.call name operands = .ok value → value.Avoids tag
  lookup : ∀ {name value}, meaning.lookup name = .ok value → value.Avoids tag
  element : ∀ {base index value}, base.Avoids tag → meaning.element base index = .ok value →
    value.Avoids tag
  field : ∀ {base name value}, base.Avoids tag → meaning.field base name = .ok value →
    value.Avoids tag

/-- The names of a scope have values without a loop. -/
def Scope.Avoids (tag : Nat) (scope : Scope) : Prop :=
  ∀ name value, scope name = some value → value.Avoids tag

/-- A node of the same number, where no loop of the tag comes in. -/
structure Node.Follows (tag : Nat) (node other : Node) : Prop where
  id : other.id = node.id
  avoids : node.Avoids tag → other.Avoids tag

namespace Node.Follows

theorem refl (node : Node) : node.Follows tag node :=
  ⟨rfl, fun avoids => avoids⟩

theorem loop {node : Node} {loop changed : Loop} (content : node.content = .loop loop)
    (same : changed.tag = loop.tag) (body : loop.body.Avoids tag → changed.body.Avoids tag) :
    node.Follows tag { node with content := .loop changed } := by
  refine ⟨rfl, fun avoids => ⟨?_, avoids.result⟩⟩
  have held := avoids.content
  rw [content, Value.avoids_loop] at held
  exact Value.avoids_loop.mpr ⟨same ▸ held.1, body held.2⟩

end Node.Follows

theorem avoids_of_follows {nodes others : List Node}
    (follow : List.Forall₂ (Node.Follows tag) nodes others)
    (avoids : ∀ node ∈ nodes, node.Avoids tag) : ∀ node ∈ others, node.Avoids tag := by
  induction follow with
  | nil => exact avoids
  | cons first _ induction =>
      rw [List.forall_mem_cons] at avoids ⊢
      exact ⟨first.avoids avoids.1, induction avoids.2⟩

theorem follows_same (nodes : List Node) : List.Forall₂ (Node.Follows tag) nodes nodes :=
  List.forall₂_same.mpr fun node _ => .refl node

namespace Graph

/-- A later state of a graph: its numbers name one node each, they are old ones or new
ones, and the counter has not gone back. -/
structure Continues (graph other : Graph) : Prop where
  tidy : other.Tidy
  counter : graph.nextId ≤ other.nextId
  fresh : ∀ id ∈ other.ids, id ∈ graph.ids ∨ graph.nextId ≤ id

namespace Continues

variable {graph middle other : Graph}

theorem refl (tidy : graph.Tidy) : graph.Continues graph :=
  ⟨tidy, le_refl _, fun _ present => .inl present⟩

theorem trans (first : graph.Continues middle) (second : middle.Continues other) :
    graph.Continues other := by
  refine ⟨second.tidy, first.counter.trans second.counter, ?_⟩
  intro id present
  rcases second.fresh id present with old | new
  · exact first.fresh id old
  · exact .inr (first.counter.trans new)

theorem of_ids (tidy : graph.Tidy) (distinct : other.ids.Nodup) (among : other.ids ⊆ graph.ids)
    (counter : other.nextId = graph.nextId) : graph.Continues other := by
  refine ⟨⟨distinct, ?_⟩, counter.ge, fun id present => .inl (among present)⟩
  intro id present
  rw [counter]
  exact tidy.numbered id (among present)

theorem of_same_ids (tidy : graph.Tidy) (sameIds : other.ids = graph.ids)
    (counter : other.nextId = graph.nextId) : graph.Continues other :=
  of_ids tidy (sameIds ▸ tidy.distinct) (sameIds ▸ List.Subset.refl _) counter

/-- A number that is gone does not come back: it is below the counter by then. -/
theorem absent (tidy : graph.Tidy) (first : graph.Continues middle)
    (second : middle.Continues other) {id : NodeId} (once : id ∈ graph.ids)
    (gone : id ∉ middle.ids) : id ∉ other.ids := by
  intro again
  rcases second.fresh id again with old | new
  · exact gone old
  · exact absurd (tidy.numbered id once) (not_lt.mpr (first.counter.trans new))

end Continues

/-- A graph that an operation leaves. -/
structure Develops (tag : Nat) (graph other : Graph) : Prop where
  avoids : graph.Avoids tag → other.Avoids tag
  continues : graph.Tidy → graph.Continues other

namespace Develops

variable {graph middle other : Graph}

theorem refl (graph : Graph) : graph.Develops tag graph :=
  ⟨fun avoids => avoids, .refl⟩

theorem trans (first : graph.Develops tag middle) (second : middle.Develops tag other) :
    graph.Develops tag other where
  avoids := fun avoids => second.avoids (first.avoids avoids)
  continues := fun tidy =>
    (first.continues tidy).trans (second.continues (first.continues tidy).tidy)

theorem of_sublist (among : other.nodes.Sublist graph.nodes)
    (counter : other.nextId = graph.nextId) : graph.Develops tag other where
  avoids := by
    rw [avoids_iff, avoids_iff]
    exact fun avoids node member => avoids node (among.subset member)
  continues := fun tidy =>
    .of_ids tidy ((among.map Node.id).nodup tidy.distinct) (among.map Node.id).subset counter

theorem of_nodes (follow : List.Forall₂ (Node.Follows tag) graph.nodes other.nodes)
    (counter : other.nextId = graph.nextId) : graph.Develops tag other where
  avoids := by
    rw [avoids_iff, avoids_iff]
    exact avoids_of_follows follow
  continues := by
    intro tidy
    exact .of_same_ids tidy (ids_paired (fun _ _ => Node.Follows.id) follow) counter

theorem extended {kind : Kind} {content : Value} {inputs : List NodeId}
    (avoids : graph.Avoids tag → content.Avoids tag) :
    graph.Develops tag (graph.extended kind content inputs) where
  avoids := by
    intro clear
    rw [avoids_iff]
    intro node inside
    rcases old_or_new_node inside with old | rfl
    · exact avoids_iff.mp clear node old
    · exact ⟨avoids clear, Value.avoids_of_loops (by simp [unsetResult, Value.loops])⟩
  continues := by
    intro tidy
    refine ⟨⟨tidy.numbered.extended_distinct tidy.distinct, tidy.numbered.extended⟩,
      (Int.lt_succ graph.nextId).le, ?_⟩
    intro id present
    exact (mem_extended_ids.mp present).imp_right fun new => new.ge

theorem update {id : NodeId} {change : Node → Node}
    (follows : ∀ node : Node, node.Follows tag (change node)) :
    graph.Develops tag (graph.update id change) := by
  refine .of_nodes ?_ rfl
  rw [Graph.update, List.forall₂_map_right_iff]
  refine List.forall₂_same.mpr fun node _ => ?_
  split
  · exact follows node
  · exact .refl node

end Develops

section Editing

variable {graph other : Graph}

theorem develops_add {kind : Kind} {content : Value} {inputs : List NodeId} {id : NodeId}
    (avoids : content.Avoids tag) (done : graph.add kind content inputs = .ok (other, id)) :
    graph.Develops tag other := by
  rw [(add_eq_ok done).1]
  exact .extended fun _ => avoids

/-- A node that is added as it was read. -/
theorem develops_addRead {kind content : Reading} {kindOf : Value → Except Fault Kind}
    {inputs : List NodeId} {id : NodeId}
    (avoids : ∀ value, content = .ok value → value.Avoids tag)
    (done : (do
      let kind ← kind
      let content ← content
      graph.add (← kindOf kind) content inputs) = .ok (other, id)) :
    graph.Develops tag other := by
  obtain ⟨_, _, afterKind⟩ := bind_eq_ok.mp done
  obtain ⟨value, read, afterContent⟩ := bind_eq_ok.mp afterKind
  obtain ⟨_, _, added⟩ := bind_eq_ok.mp afterContent
  exact develops_add (avoids value read) added

theorem develops_remove (graph : Graph) (ids : List NodeId) :
    graph.Develops tag (graph.remove ids).graph := by
  induction ids generalizing graph with
  | nil => exact .refl graph
  | cons id rest induction =>
      unfold remove
      split
      · have erased : graph.Develops tag (graph.erase id) := .of_sublist List.filter_sublist rfl
        exact erased.trans (induction (graph.erase id))
      · exact .refl graph

theorem develops_reorder {order : List NodeId} (done : graph.reorder order = .ok other) :
    graph.Develops tag other := by
  unfold Graph.reorder at done
  split at done
  swap
  · cases done
  rename_i isPerm
  cases done
  have permutation := List.isPerm_iff.mp isPerm
  refine ⟨?_, fun tidy => ?_⟩
  · rw [avoids_iff, avoids_iff]
    intro avoids node member
    obtain ⟨id, _, found⟩ := List.mem_filterMap.mp member
    exact avoids node (mem_of_find? found).1
  · have sameIds : ({ graph with nodes := order.filterMap graph.find? } : Graph).ids = order :=
      ids_reorder permutation.subset
    refine .of_ids tidy ?_ ?_ rfl
    · rw [sameIds]
      exact permutation.nodup_iff.mpr tidy.distinct
    · rw [sameIds]
      exact permutation.subset

theorem develops_addAll (graph : Graph) (ids : List NodeId) {readings : List NodeReading}
    (avoids : ∀ reading ∈ readings, ∀ value, reading.content = .ok value → value.Avoids tag) :
    graph.Develops tag (graph.addAll ids readings).graph := by
  induction readings generalizing graph ids with
  | nil => exact .refl graph
  | cons reading rest induction =>
      obtain ⟨kind, content, inputs⟩ := reading
      rw [List.forall_mem_cons] at avoids
      unfold addAll
      dsimp only
      split
      · exact .refl graph
      · rename_i next id added
        exact (develops_addRead avoids.1 added).trans (induction next _ avoids.2)

/-- Exits are no part of what a graph develops. -/
theorem develops_exits {graph other : Graph} (nodes : other.nodes = graph.nodes)
    (counter : other.nextId = graph.nextId) : graph.Develops tag other :=
  .of_sublist (nodes ▸ List.Sublist.refl _) counter

theorem develops_build (graph : Graph) {readings : List NodeReading}
    (exits : List (String × NodeId))
    (avoids : ∀ reading ∈ readings, ∀ value, reading.content = .ok value → value.Avoids tag) :
    graph.Develops tag (graph.build readings exits).graph := by
  have added := develops_addAll graph [] avoids
  unfold build
  dsimp only
  split
  · refine added.trans ?_
    generalize (graph.addAll [] readings).graph = built
    induction exits generalizing built with
    | nil => exact .refl built
    | cons exit rest induction =>
        have named : built.Develops tag (built.setExit exit.1 exit.2) := develops_exits rfl rfl
        exact named.trans (induction _)
  · exact added

theorem develops_assignField {id : NodeId} {field : Value → Node → Node} {reading : Option Reading}
    (follows : ∀ value, reading = some (.ok value) → ∀ node : Node,
      node.Follows tag (field value node)) :
    graph.Develops tag (graph.assignField id field reading).graph := by
  unfold assignField
  split
  · exact .refl graph
  · exact .refl graph
  · exact .update (follows _ rfl)

theorem develops_andThen {α β : Type} {outcome : Outcome α} {next : Graph → Outcome β}
    (first : graph.Develops tag outcome.graph)
    (second : ∀ middle : Graph, middle.Develops tag (next middle).graph) :
    graph.Develops tag (outcome.andThen next).graph := by
  unfold Outcome.andThen
  split
  · exact first.trans (second _)
  · exact first

theorem develops_transaction {α : Type} {block : Outcome α}
    (develops : graph.Develops tag block.graph) :
    graph.Develops tag (graph.transaction block).graph := by
  unfold transaction
  split
  · exact develops
  · exact .refl graph

theorem develops_assignFields {id : NodeId} {inputs : Option (List NodeId)}
    {content result : Option Reading}
    (contentAvoids : ∀ value, content = some (.ok value) → value.Avoids tag)
    (resultAvoids : ∀ value, result = some (.ok value) → value.Avoids tag) :
    graph.Develops tag (graph.assignFields id inputs content result).graph := by
  unfold assignFields
  split
  · exact .refl graph
  · rename_i found _
    have started : graph.Develops tag (graph.update id fun node =>
        { node with inputs := inputs.getD found.inputs }) :=
      .update fun node => ⟨rfl, fun avoids => ⟨avoids.content, avoids.result⟩⟩
    apply develops_andThen
    · refine started.trans (develops_assignField fun value read node => ⟨rfl, fun avoids => ?_⟩)
      exact ⟨contentAvoids value read, avoids.result⟩
    · intro middle
      refine develops_assignField fun value read node => ⟨rfl, fun avoids => ?_⟩
      exact ⟨avoids.content, resultAvoids value read⟩

end Editing

end Graph

section Splitting

variable {visit : Graph → Outcome Nat}

theorem follows_visitBodies (visits : ∀ body : Graph, body.Develops tag (visit body).graph)
    (nodes : List Node) : List.Forall₂ (Node.Follows tag) nodes (visitBodies visit nodes).1 := by
  induction nodes with
  | nil => exact .nil
  | cons node rest induction =>
      cases runs : node.loop? with
      | none =>
          by_cases kind : node.kind = .loop
          · rw [visitBodies_bodyless kind runs]
            exact follows_same _
          · rw [visitBodies_plain kind]
            exact .cons (.refl node) induction
      | some loop =>
          have content := (Node.loop?_eq_some.mp runs).2
          have visited : node.Follows tag
              { node with content := .loop { loop with body := (visit loop.body).graph } } :=
            .loop content rfl (visits loop.body).avoids
          cases answer : (visit loop.body).answer with
          | error fault =>
              rw [visitBodies_stops runs answer]
              exact .cons visited (follows_same rest)
          | ok count =>
              rw [visitBodies_goes_on runs answer]
              exact .cons visited induction

namespace Graph

theorem develops_splitScan (graph : Graph) (nodes : List Node) :
    graph.Develops tag (splitScan graph nodes).graph := by
  induction nodes generalizing graph with
  | nil => exact .refl graph
  | cons node rest induction =>
      cases splitScan_step graph node rest with
      | skips _ _ goesOn =>
          rw [goesOn]
          exact induction graph
      | stops _ ends =>
          rw [ends]
          exact .refl graph
      | dangles _ _ ends =>
          rw [ends]
          exact .refl graph
      | @splits name first second third others _ _ _ content _ _ goesOn =>
          have named : node.content.Avoids tag := by
            rw [content]
            exact Value.avoids_of_loops (by simp [Value.loops])
          rw [goesOn]
          refine Develops.trans ?_ (induction _)
          exact Develops.trans (.extended fun _ => named)
            (.update fun found => ⟨rfl, fun avoids => ⟨avoids.content, avoids.result⟩⟩)

theorem develops_splitRounds (fuel : Nat) (graph : Graph) :
    graph.Develops tag (splitRounds fuel graph).graph := by
  induction fuel generalizing graph with
  | zero => exact .refl graph
  | succ fuel induction =>
      have scanned := @develops_splitScan tag graph graph.nodes
      cases answer : (splitScan graph graph.nodes).answer with
      | error fault => simpa only [splitRounds, answer] using scanned
      | ok splits =>
          cases splits with
          | zero => simpa only [splitRounds, answer] using scanned
          | succ splits =>
              simp only [splitRounds, answer]
              exact scanned.trans (induction _)

theorem develops_sweep {level : Graph → Outcome Nat}
    (levels : ∀ graph : Graph, graph.Develops tag (level graph).graph)
    (visits : ∀ body : Graph, body.Develops tag (visit body).graph) (graph : Graph) :
    graph.Develops tag (sweep level visit graph).graph := by
  cases answer : (level graph).answer with
  | error fault => simpa only [sweep, answer] using levels graph
  | ok count =>
      simp only [sweep, answer]
      exact (levels graph).trans (.of_nodes (follows_visitBodies visits _) rfl)

theorem develops_splitLevel (graph : Graph) : graph.Develops tag (splitLevel graph).graph :=
  develops_splitRounds _ graph

theorem develops_splitNested (depth : Nat) (graph : Graph) :
    graph.Develops tag (splitNested depth graph).graph := by
  induction depth generalizing graph with
  | zero => exact develops_sweep develops_splitLevel (fun body => .refl body) graph
  | succ depth induction => exact develops_sweep develops_splitLevel induction graph

end Graph

end Splitting

section Merging

variable {keep remove : NodeId}

theorem Node.follows_redirectInputs (node : Node) :
    node.Follows tag (node.redirectInputs keep remove) := by
  unfold Node.redirectInputs
  split
  · exact .refl node
  · exact ⟨rfl, fun avoids => ⟨avoids.content, avoids.result⟩⟩

theorem Node.follows_redirectLoop (node : Node) :
    node.Follows tag (node.redirectLoop keep remove) := by
  unfold Node.redirectLoop
  split
  · rename_i loop runs
    exact .loop (Node.loop?_eq_some.mp runs).2 rfl fun avoids => avoids
  · exact .refl node

theorem follows_redirectLoops (nodes : List Node) :
    List.Forall₂ (Node.Follows tag) nodes (redirectLoops keep remove nodes).1 := by
  induction nodes with
  | nil => exact .nil
  | cons node rest induction =>
      cases carried : node.isCarried with
      | true =>
          rw [redirectLoops_carried carried]
          exact .cons node.follows_redirectLoop induction
      | false =>
          rw [redirectLoops_bodyless carried]
          exact follows_same _

namespace Graph

theorem develops_replaceNode (graph : Graph) (keep remove : NodeId) :
    graph.Develops tag (graph.replaceNode keep remove).graph := by
  let inputsDone : Graph := { graph with
    nodes := graph.nodes.map (Node.redirectInputs keep remove) }
  have first : graph.Develops tag inputsDone := by
    refine .of_nodes ?_ rfl
    rw [List.forall₂_map_right_iff]
    exact List.forall₂_same.mpr fun node _ => node.follows_redirectInputs
  have redirected : graph.Develops tag
      ⟨(redirectLoops keep remove inputsDone.nodes).1,
        graph.exits.map fun exit => (exit.1, redirect keep remove exit.2), graph.nextId⟩ :=
    first.trans (.of_nodes (follows_redirectLoops _) rfl)
  unfold replaceNode
  dsimp only
  split
  · exact redirected.trans (.of_sublist List.filter_sublist rfl)
  · exact redirected

theorem develops_fuse (graph : Graph) (keep remove : NodeId) :
    graph.Develops tag (graph.fuse keep remove).graph := by
  rcases graph.fuse_cases keep remove with ⟨fault, _, refused⟩ | ⟨_, replaces⟩
  · rw [refused]
    exact .refl graph
  · rw [replaces]
    exact develops_replaceNode graph keep remove

end Graph

end Merging

theorem forall_of_mapM_eq_ok {α β : Type} {property : β → Prop} {items : List α}
    {answer : α → Except Fault β} {results : List β}
    (each : ∀ item ∈ items, ∀ result, answer item = .ok result → property result)
    (done : items.mapM answer = .ok results) : ∀ result ∈ results, property result := by
  induction items generalizing results with
  | nil =>
      cases done
      simp
  | cons item rest induction =>
      rw [List.mapM_cons] at done
      obtain ⟨first, answered, later⟩ := bind_eq_ok.mp done
      obtain ⟨others, restDone, ends⟩ := bind_eq_ok.mp later
      cases ends
      rw [List.forall_mem_cons] at each ⊢
      exact ⟨each.1 first answered, induction each.2 restDone⟩

section Folding

variable {meaning : Interpretation} {policy : FoldPolicy} (given : meaning.Avoids tag)
include given

theorem develops_foldStep (graph : Graph) (call : Node) :
    graph.Develops tag (foldStep meaning graph call).graph := by
  unfold foldStep
  dsimp only
  split
  · exact .refl graph
  · rename_i extended literal done
    obtain ⟨operands, read, afterRead⟩ := bind_eq_ok.mp done
    obtain ⟨value, computed, added⟩ := bind_eq_ok.mp afterRead
    obtain ⟨rfl, rfl, _⟩ := Graph.add_eq_ok added
    have valueAvoids : graph.Avoids tag → value.Avoids tag := by
      intro avoids
      refine given.call (forall_of_mapM_eq_ok ?_ read) computed
      intro id _ content holds
      obtain ⟨node, found, ends⟩ := bind_eq_ok.mp holds
      cases ends
      have member := (Graph.mem_of_find? (Graph.node_eq_ok.mp found)).1
      exact (Graph.avoids_iff.mp avoids node member).content
    have literal : graph.Develops tag (graph.extended .constant value []) := .extended valueAvoids
    refine Graph.develops_andThen (literal.trans (Graph.develops_fuse _ _ _)) fun fused => ?_
    exact .of_sublist List.filter_sublist rfl

theorem develops_foldRounds (fuel : Nat) (graph : Graph) :
    graph.Develops tag (foldRounds meaning policy fuel graph).graph := by
  induction fuel generalizing graph with
  | zero => exact .refl graph
  | succ fuel induction =>
      rw [foldRounds]
      split
      · exact .refl graph
      · exact .refl graph
      · exact Graph.develops_andThen (develops_foldStep given graph _) induction

theorem develops_foldBlock (depth : Nat) (graph : Graph) :
    graph.Develops tag (foldBlock meaning policy depth graph).graph := by
  induction depth generalizing graph with
  | zero =>
      exact Graph.develops_sweep (fun level => develops_foldRounds given _ level)
        (fun body => .refl body) graph
  | succ depth induction =>
      exact Graph.develops_sweep (fun level => develops_foldRounds given _ level)
        (fun body => Graph.develops_transaction (induction body)) graph

theorem Graph.develops_foldConstants (graph : Graph) :
    graph.Develops tag (graph.foldConstants meaning policy).graph :=
  develops_transaction (develops_foldBlock given graph.depth graph)

end Folding

theorem follows_pruneInside {nodes : List Node}
    (visits : ∀ node ∈ nodes, ∀ loop, node.loop? = some loop →
      loop.body.Develops tag loop.body.pruneBlock.graph) :
    List.Forall₂ (Node.Follows tag) nodes (pruneInside nodes).1 := by
  induction nodes with
  | nil =>
      rw [pruneInside]
      exact .nil
  | cons node rest induction =>
      have later := induction fun other member => visits other (List.mem_cons_of_mem _ member)
      cases runs : node.loop? with
      | some loop =>
          have content := (Node.loop?_eq_some.mp runs).2
          have body := Graph.develops_transaction (visits node List.mem_cons_self loop runs)
          rcases inner : loop.body.transaction loop.body.pruneBlock with ⟨pruned, answer⟩
          rw [inner] at body
          cases answer with
          | error fault =>
              rw [pruneInside_stops runs inner]
              exact .cons (.loop content rfl body.avoids) (follows_same rest)
          | ok count =>
              rw [pruneInside_loop runs inner]
              exact .cons (.loop content rfl body.avoids) later
      | none =>
          by_cases kind : node.kind = .loop
          · rw [pruneInside_bodyless kind runs]
            exact follows_same _
          · rw [pruneInside_plain kind]
            exact .cons (.refl node) later

namespace Graph

section Ordering

variable {graph other : Graph}

theorem develops_dropDead (graph : Graph) : graph.Develops tag (dropDead graph).graph := by
  unfold dropDead
  split
  · exact .refl graph
  · exact .of_sublist List.filter_sublist rfl

theorem develops_pruneBlock (graph : Graph) : graph.Develops tag graph.pruneBlock.graph := by
  induction graph using bodyInduction with
  | step graph induction =>
      have visited := follows_pruneInside induction
      obtain ⟨nodes, exits, nextId⟩ := graph
      have revised : Develops tag ⟨nodes, exits, nextId⟩ ⟨(pruneInside nodes).1, exits, nextId⟩ :=
        .of_nodes visited rfl
      rw [pruneBlock]
      dsimp only
      split
      · exact revised
      · exact revised.trans (develops_dropDead _)

theorem develops_prune (graph : Graph) : graph.Develops tag graph.prune.graph :=
  develops_transaction graph.develops_pruneBlock

theorem develops_scheduled (done : graph.scheduled = .ok other) : graph.Develops tag other where
  avoids := fun avoids => avoids.scheduled done
  continues := by
    intro tidy
    have schedules := schedules_of_scheduled tidy.distinct done
    exact .of_ids tidy (schedules.ids.nodup_iff.mpr tidy.distinct) schedules.ids.subset
      schedules.nextId

theorem develops_schedule (graph : Graph) : graph.Develops tag graph.schedule.graph := by
  rw [schedule_eq]
  split
  · rename_i done
    exact develops_scheduled done
  · exact .refl graph

end Ordering

theorem develops_optimize {meaning : Interpretation} {policy : FoldPolicy}
    (given : meaning.Avoids tag) (graph : Graph) :
    graph.Develops tag (graph.optimize meaning policy).graph := by
  apply develops_andThen
  · apply develops_andThen
    · apply develops_andThen
      · exact develops_splitNested graph.depth graph
      · exact develops_foldConstants given
    · exact develops_prune
  · exact develops_schedule

end Graph

section Evaluating

variable {meaning : Interpretation} (given : meaning.Avoids tag)

theorem avoids_resultOf {done : List Node} (avoids : ∀ node ∈ done, node.Avoids tag) {id : NodeId}
    {value : Value} (read : resultOf done id = .ok value) : value.Avoids tag := by
  unfold resultOf at read
  split at read
  · rename_i node found
    cases read
    exact (avoids node (List.mem_of_find?_eq_some found)).result
  · cases read

theorem avoids_firstResult {done : List Node} (avoids : ∀ node ∈ done, node.Avoids tag)
    {ids : List NodeId} {value : Value} (read : firstResult done ids = .ok value) :
    value.Avoids tag := by
  cases ids with
  | nil => cases read
  | cons id rest => exact avoids_resultOf avoids read

theorem avoids_bodyScope {done : List Node} (avoids : ∀ node ∈ done, node.Avoids tag)
    {body : Graph} {scope inner : Scope} {bindings : List (NodeId × NodeId)}
    (outer : scope.Avoids tag) (named : bodyScope done body scope bindings = .ok inner) :
    inner.Avoids tag := by
  induction bindings generalizing scope with
  | nil =>
      cases named
      exact outer
  | cons binding rest induction =>
      obtain ⟨key, source⟩ := binding
      obtain ⟨value, read, afterRead⟩ := bind_eq_ok.mp named
      obtain ⟨node, _, remaining⟩ := bind_eq_ok.mp afterRead
      refine induction (fun name found bound => ?_) remaining
      unfold Scope.bind at bound
      split at bound
      · cases bound
        exact avoids_resultOf avoids read
      · exact outer name found bound

include given

theorem avoids_nodeValue {scope : Scope} {done : List Node} {node : Node} {value : Value}
    (outer : scope.Avoids tag) (before : ∀ node ∈ done, node.Avoids tag)
    (avoids : node.Avoids tag) (computed : nodeValue meaning scope done node = .ok value) :
    value.Avoids tag := by
  have called : (do
      let operands ← node.inputs.mapM (resultOf done)
      meaning.call node.content.plain operands) = .ok value → value.Avoids tag := by
    intro applied
    obtain ⟨operands, read, returned⟩ := bind_eq_ok.mp applied
    exact given.call
      (forall_of_mapM_eq_ok (fun _ _ _ found => avoids_resultOf before found) read) returned
  unfold nodeValue at computed
  split at computed
  · exact called computed
  · exact called computed
  · exact called computed
  · split at computed
    · rename_i found named
      cases computed
      exact outer _ _ named
    · exact given.lookup computed
  · cases computed
    exact avoids.content
  · obtain ⟨base, read, found⟩ := bind_eq_ok.mp computed
    exact given.element (avoids_firstResult before read) found
  · obtain ⟨base, read, found⟩ := bind_eq_ok.mp computed
    exact given.field (avoids_firstResult before read) found
  · exact avoids_firstResult before computed
  · exact avoids_firstResult before computed
  · cases computed
    exact Value.avoids_of_loops (by simp [Value.loops])
  · cases computed

theorem avoids_runNodes {scope : Scope} {done nodes : List Node} (outer : scope.Avoids tag)
    (before : ∀ node ∈ done, node.Avoids tag) (avoids : ∀ node ∈ nodes, node.Avoids tag)
    (bodies : ∀ node ∈ nodes, ∀ loop, node.loop? = some loop → ∀ inner : Scope, inner.Avoids tag →
      loop.body.Avoids tag → (loop.body.run meaning inner).graph.Avoids tag) :
    ∀ node ∈ (runNodes meaning scope done nodes).1, node.Avoids tag := by
  induction nodes generalizing done with
  | nil =>
      rw [runNodes]
      exact before
  | cons node rest induction =>
      rw [List.forall_mem_cons] at avoids
      have restBodies := fun other member => bodies other (List.mem_cons_of_mem _ member)
      have stopped : ∀ changed : Node, changed.Avoids tag →
          ∀ other ∈ done ++ changed :: rest, other.Avoids tag := by
        intro changed clear
        exact List.forall_mem_append.mpr ⟨before, List.forall_mem_cons.mpr ⟨clear, avoids.2⟩⟩
      have extended : ∀ changed : Node, changed.Avoids tag →
          ∀ other ∈ done ++ [changed], other.Avoids tag := by
        intro changed clear
        exact List.forall_mem_append.mpr ⟨before, by simpa using clear⟩
      cases runs : node.loop? with
      | none =>
          rw [runNodes_plain runs]
          split
          · exact stopped node avoids.1
          · rename_i value computed
            have result := avoids_nodeValue given outer before avoids.1 computed
            exact induction (extended _ ⟨avoids.1.content, result⟩) avoids.2 restBodies
      | some loop =>
          have held := avoids.1.content
          rw [(Node.loop?_eq_some.mp runs).2, Value.avoids_loop] at held
          rw [runNodes_loop runs]
          split
          · exact stopped node avoids.1
          · rename_i inner named
            have ran := bodies node List.mem_cons_self loop runs inner
              (avoids_bodyScope before outer named) held.2
            have content : (Value.loop { loop with
                body := (loop.body.run meaning inner).graph }).Avoids tag :=
              Value.avoids_loop.mpr ⟨held.1, ran⟩
            dsimp only
            split
            · exact stopped _ ⟨content, avoids.1.result⟩
            · refine induction (extended _ ⟨content, ?_⟩) avoids.2 restBodies
              exact Value.avoids_of_loops (by simp [Value.loops])

namespace Graph

theorem avoids_run {graph : Graph} {scope : Scope} (outer : scope.Avoids tag)
    (avoids : graph.Avoids tag) : (graph.run meaning scope).graph.Avoids tag := by
  induction graph using bodyInduction generalizing scope with
  | step graph induction =>
      have final : ∀ node ∈ (runNodes meaning scope [] graph.nodes).1, node.Avoids tag :=
        avoids_runNodes given outer (by simp) (avoids_iff.mp avoids)
          fun node member loop runs inner named body => induction node member loop runs named body
      obtain ⟨nodes, exits, nextId⟩ := graph
      exact avoids_iff.mpr final

theorem develops_evaluate {scope : Scope} (outer : scope.Avoids tag) (graph : Graph) :
    graph.Develops tag (graph.evaluate meaning scope).graph := by
  rw [evaluate_eq]
  split
  · rename_i scheduled done
    refine (develops_scheduled done).trans ⟨avoids_run given outer, fun tidy => ?_⟩
    have sameIds : (scheduled.run meaning scope).graph.ids = scheduled.ids :=
      ids_paired (fun _ _ => Node.Resembles.id) (run_resembles meaning scope scheduled)
    refine .of_same_ids tidy sameIds ?_
    cases scheduled
    rfl
  · exact .refl graph

end Graph

end Evaluating

section Splicing

theorem avoids_relinked {copying : Copying} {held : Value} (avoids : held.Avoids tag) :
    (copying.relinked held).Avoids tag := by
  unfold Copying.relinked
  split
  · rw [Value.avoids_loop] at avoids ⊢
    exact avoids
  · exact avoids

/-- Splicing adds nodes of the source, wherever the source is held and wherever it
stops. -/
theorem Graph.develops_spliceBlock {source : Graph → Graph} {targets : String → Option Target}
    {destination : Graph}
    (sourceAvoids : ∀ found : Graph, found.Avoids tag → (source found).Avoids tag) :
    destination.Develops tag (Graph.spliceBlock source targets destination).destination := by
  refine copyNodes_keeps_destination (destination.Develops tag) ?_ (.refl destination)
  intro copying next id node develops found copies
  cases copies with
  | bound => exact develops
  | added =>
      refine develops.trans (.extended fun clear => avoids_relinked ?_)
      exact (avoids_iff.mp (sourceAvoids _ clear) node (mem_of_find? found).1).content

end Splicing

end FlowGraph

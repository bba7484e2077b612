import FlowGraph.Proofs.Fusion
import FlowGraph.Proofs.Pruning

/-!
# The guard of a merge

A merge is refused when the kept node leads to the removed one.  The guard asks this
of the graph as it is, while the cycle that it prevents would show only afterwards.
Both come to the same.  A path from the kept node to the removed one is bent, where
it first arrives, into a cycle through the kept node.  And where there is no such path,
the nodes that the kept one leads to can be ranked below all others, which leaves room
for the kept node wherever the removed one was named.
-/

namespace FlowGraph

namespace Graph

/-- Every other node names the kept node where it named the removed one, which still
stands there as it was. -/
def redirected (keep remove : NodeId) (graph : Graph) : Graph :=
  ⟨graph.nodes.map fun node => if node.id = remove then node else node.fused keep remove,
    graph.exits.map fun (name, id) => (name, redirect keep remove id), graph.nextId⟩

/-- What a merge leaves: all other nodes in their order, with the kept node wherever the
removed one was named, and no cycle. -/
structure Merged (graph : Graph) (keep remove : NodeId) (left : Graph) : Prop where
  order : left.ids = graph.ids.filter fun id => id != remove
  nodes : left.nodes =
    (graph.nodes.filter fun node => node.id != remove).map (Node.fused keep remove)
  exits : left.exits = graph.exits.map fun exit => (exit.1, redirect keep remove exit.2)
  nextId : left.nextId = graph.nextId
  inputsUnnamed : ∀ node ∈ left.nodes, remove ∉ node.inputs
  bindingsUnnamed : ∀ node ∈ left.nodes, ∀ loop, node.content = .loop loop →
    ∀ binding ∈ loop.bindings, binding.2 ≠ remove
  exitsUnnamed : ∀ exit ∈ left.exits, exit.2 ≠ remove
  acyclic : left.Acyclic

section Guard

variable {graph : Graph} {keep remove : NodeId}

theorem mem_redirected_nodes {other : Node} :
    other ∈ (graph.redirected keep remove).nodes ↔
      ∃ node ∈ graph.nodes,
        (if node.id = remove then node else node.fused keep remove) = other :=
  List.mem_map

theorem fused_mem_redirected_nodes {node : Node} (member : node ∈ graph.nodes)
    (stays : node.id ≠ remove) : node.fused keep remove ∈ (graph.redirected keep remove).nodes :=
  mem_redirected_nodes.mpr ⟨node, member, if_neg stays⟩

/-- Every dependency of another node is redirected. -/
theorem DependsOn.redirected
    (plain : ∀ node ∈ graph.nodes, ∀ loop, node.content = .loop loop → node.kind = .loop)
    {id dependency : NodeId} (edge : graph.DependsOn id dependency) (stays : id ≠ remove) :
    (graph.redirected keep remove).DependsOn id (redirect keep remove dependency) := by
  obtain ⟨node, member, rfl, needed⟩ := edge
  refine ⟨node.fused keep remove, fused_mem_redirected_nodes member stays, rfl, ?_⟩
  exact Node.redirect_mem_fused_dependencies (plain node member) needed

/-- A path to the removed node leads to the kept one after redirecting, from where it
first arrives. -/
theorem redirected_path
    (plain : ∀ node ∈ graph.nodes, ∀ loop, node.content = .loop loop → node.kind = .loop)
    {id : NodeId} (path : Relation.ReflTransGen graph.DependsOn id remove) (stays : id ≠ remove) :
    Relation.TransGen (graph.redirected keep remove).DependsOn id keep := by
  induction path using Relation.ReflTransGen.head_induction_on with
  | refl => exact absurd rfl stays
  | head edge _ induction =>
      rename_i first second _
      have bent : (graph.redirected keep remove).DependsOn first (redirect keep remove second) :=
        DependsOn.redirected plain edge stays
      by_cases arrives : second = remove
      · rw [arrives, redirect_self] at bent
        exact .single bent
      · rw [redirect_of_ne arrives] at bent
        exact .head bent (induction arrives)

/-- What the kept node depends on does not lead to the removed one.  Ranking these
nodes below all others leaves room for the kept node wherever the removed one was
named. -/
theorem redirected_acyclic (distinct : graph.ids.Nodup)
    (plain : ∀ node ∈ graph.nodes, ∀ loop, node.content = .loop loop → node.kind = .loop)
    (acyclic : graph.Acyclic) {found : List NodeId} (start : keep ∈ found)
    (closed : ∀ id ∈ found, ∀ node, graph.find? id = some node → node.dependencies ⊆ found)
    (apart : remove ∉ found) : (graph.redirected keep remove).Acyclic := by
  obtain ⟨rank, ranked⟩ := acyclic.exists_rank
  have closedAt : ∀ node ∈ graph.nodes, node.id ∈ found → node.dependencies ⊆ found :=
    fun node member early => closed node.id early node (find?_of_mem distinct member)
  have lifted : (graph.redirected keep remove).RankedBy fun id =>
      if id ∈ found then rank id else rank id + (rank keep + 1) := by
    intro changed member dependency needed
    obtain ⟨node, inside, rfl⟩ := mem_redirected_nodes.mp member
    -- A dependency that was there before stays below, and so does the kept node below
    -- all that named the removed one.
    have unchanged : ∀ original ∈ node.dependencies,
        (if original ∈ found then rank original else rank original + (rank keep + 1)) <
          if node.id ∈ found then rank node.id else rank node.id + (rank keep + 1) := by
      intro original isNeeded
      have below := ranked node inside original isNeeded
      by_cases early : node.id ∈ found
      · rw [if_pos (closedAt node inside early isNeeded), if_pos early]
        exact below
      · rw [if_neg early]
        split <;> omega
    by_cases removed : node.id = remove
    · simp only [removed, if_true] at needed unchanged ⊢
      exact unchanged dependency needed
    · simp only [removed, if_false] at needed ⊢
      obtain ⟨original, isNeeded, rfl⟩ :=
        Node.mem_fused_dependencies (plain node inside) needed
      have sameId : (node.fused keep remove).id = node.id := rfl
      rw [sameId]
      by_cases named : original = remove
      · subst named
        have late : node.id ∉ found := fun early => apart (closedAt node inside early isNeeded)
        rw [redirect_self, if_pos start, if_neg late]
        omega
      · rw [redirect_of_ne named]
        exact unchanged original isNeeded
  exact lifted.acyclic

/-- A graph whose dependencies another one has is free of cycles with it. -/
theorem Acyclic.of_dependsOn {other : Graph} (acyclic : graph.Acyclic)
    (kept : ∀ id dependency, other.DependsOn id dependency → graph.DependsOn id dependency) :
    other.Acyclic :=
  fun id cycle => acyclic id (Relation.TransGen.mono kept id id cycle)

theorem fused_acyclic_of_redirected (acyclic : (graph.redirected keep remove).Acyclic) :
    (graph.fused keep remove).Acyclic := by
  refine acyclic.of_dependsOn fun id dependency edge => ?_
  obtain ⟨changed, member, same, needed⟩ := edge
  obtain ⟨node, inside, stays, rfl⟩ := mem_fused_nodes.mp member
  exact ⟨_, fused_mem_redirected_nodes inside stays, same, needed⟩

/-- A graph stays fit for evaluation when the kept node does not lead to the removed
one. -/
theorem fused_evaluable (evaluable : graph.Evaluable)
    (plain : ∀ node ∈ graph.nodes, ∀ loop, node.content = .loop loop → node.kind = .loop)
    {found : List NodeId} (kept : keep ∈ graph.ids) (different : keep ≠ remove)
    (start : keep ∈ found)
    (closed : ∀ id ∈ found, ∀ node, graph.find? id = some node → node.dependencies ⊆ found)
    (apart : remove ∉ found) : (graph.fused keep remove).Evaluable where
  distinct := fused_ids_sublist.nodup evaluable.distinct
  linked := fused_linked kept different evaluable.linked plain
  exits := by
    intro exit member
    obtain ⟨original, isOriginal, rfl⟩ := List.mem_map.mp member
    exact redirect_mem_fused_ids kept different (evaluable.exits original isOriginal)
  carried := by
    intro changed member isLoop
    obtain ⟨node, inside, _, rfl⟩ := mem_fused_nodes.mp member
    obtain ⟨loop, content⟩ := evaluable.carried node inside isLoop
    have runs : node.loop? = some loop := Node.loop?_eq_some.mpr ⟨isLoop, content⟩
    exact ⟨_, (Node.loop?_eq_some.mp (Node.fused_loop? runs)).2⟩
  keys := by
    intro changed member loop runs binding bound
    obtain ⟨node, inside, _, rfl⟩ := mem_fused_nodes.mp member
    obtain ⟨held, runsNode, rfl⟩ := Node.exists_loop_of_fused runs
    obtain ⟨original, isOriginal, rfl⟩ := List.mem_map.mp bound
    exact evaluable.keys node inside held runsNode original isOriginal
  acyclic := fused_acyclic_of_redirected
    (redirected_acyclic evaluable.distinct plain evaluable.acyclic start closed apart)

/-- What merging checks before it changes anything. -/
theorem fuse_checks (done : (graph.fuse keep remove).answer = .ok ()) :
    keep ≠ remove ∧ ∃ found, graph.ancestors [keep] = .ok found ∧ remove ∉ found := by
  unfold fuse at done
  split at done
  · cases done
  · rename_i different
    split at done
    · cases done
    · split at done
      · cases done
      · rename_i found reached
        split at done
        · cases done
        · rename_i apart
          exact ⟨different, found, reached, apart⟩

theorem redirect_ne_removed (different : keep ≠ remove) (id : NodeId) :
    redirect keep remove id ≠ remove := by
  by_cases removed : id = remove
  · rw [removed, redirect_self]
    exact different
  · rw [redirect_of_ne removed]
    exact removed

theorem merged_fused
    (plain : ∀ node ∈ graph.nodes, ∀ loop, node.content = .loop loop → node.kind = .loop)
    (different : keep ≠ remove) (acyclic : (graph.fused keep remove).Acyclic) :
    graph.Merged keep remove (graph.fused keep remove) where
  order := by
    unfold ids fused
    rw [List.map_map, List.filter_map]
    rfl
  nodes := rfl
  exits := rfl
  nextId := rfl
  inputsUnnamed := by
    intro changed member named
    obtain ⟨node, _, _, rfl⟩ := mem_fused_nodes.mp member
    obtain ⟨input, _, redirectedTo⟩ := List.mem_map.mp named
    exact redirect_ne_removed different input redirectedTo
  bindingsUnnamed := by
    intro changed member loop content binding bound
    obtain ⟨node, inside, _, rfl⟩ := mem_fused_nodes.mp member
    have kind : (node.fused keep remove).kind = .loop := by
      cases runs : node.loop? with
      | some held => exact (Node.loop?_eq_some.mp runs).1
      | none =>
          rw [Node.fused_content runs] at content
          exact plain node inside loop content
    obtain ⟨held, _, rfl⟩ := Node.exists_loop_of_fused (Node.loop?_eq_some.mpr ⟨kind, content⟩)
    obtain ⟨original, _, rfl⟩ := List.mem_map.mp bound
    exact redirect_ne_removed different original.2
  exitsUnnamed := by
    intro exit member
    obtain ⟨original, _, rfl⟩ := List.mem_map.mp member
    exact redirect_ne_removed different original.2
  acyclic := acyclic

/-- The guard looks for a path from the kept node to the removed one. -/
theorem fuse_of_ancestors {found : List NodeId} (different : keep ≠ remove)
    (present : remove ∈ graph.ids) (reached : graph.ancestors [keep] = .ok found) :
    graph.fuse keep remove =
      if remove ∈ found then ⟨graph, .error (.cyclicFusion keep remove)⟩
      else graph.replaceNode keep remove := by
  obtain ⟨removed, foundRemoved⟩ := exists_find? present
  unfold fuse
  rw [if_neg different, node_eq_ok.mpr foundRemoved, reached]

/-- A merge of two nodes is refused exactly when it would make a cycle.  A merge that
is not refused takes the removed node out of every place. -/
theorem fuse_fails_iff_cyclic (valid : graph.validate = .ok ()) (distinct : graph.ids.Nodup)
    (acyclic : graph.Acyclic)
    (loops : ∀ node ∈ graph.nodes, node.kind = .loop ↔ ∃ loop, node.content = .loop loop)
    (kept : keep ∈ graph.ids) (present : remove ∈ graph.ids) (different : keep ≠ remove) :
    ((∃ fault, (graph.fuse keep remove).answer = .error fault) ↔
      ¬ (graph.redirected keep remove).Acyclic) ∧
    ((graph.fuse keep remove).answer = .ok () →
      graph.Merged keep remove (graph.fuse keep remove).graph) := by
  have plain : ∀ node ∈ graph.nodes, ∀ loop, node.content = .loop loop → node.kind = .loop :=
    fun node member loop content => (loops node member).mpr ⟨loop, content⟩
  have linked : ∀ node ∈ graph.nodes, ∀ id ∈ node.dependencies, id ∈ graph.ids :=
    fun node member => ((validate_eq_ok.mp valid).1 node member).dependencies
  obtain ⟨found, reached, _⟩ := ancestors_closed linked (List.cons_subset.mpr ⟨kept, List.nil_subset _⟩)
  have closure := closureOf_ancestors reached
  rw [fuse_of_ancestors different present reached]
  by_cases leads : remove ∈ found
  · rw [if_pos leads]
    obtain ⟨first, isKept, path⟩ := closure.reached remove leads
    rw [List.mem_singleton.mp isKept] at path
    have cycle : Relation.TransGen (graph.redirected keep remove).DependsOn keep keep :=
      redirected_path plain path different
    refine ⟨⟨fun _ free => free keep cycle, fun _ => ⟨_, rfl⟩⟩, ?_⟩
    intro done
    cases done
  · rw [if_neg leads]
    have done : (graph.replaceNode keep remove).answer = .ok () :=
      replaceNode_succeeds fun node member => (loops node member).mp
    have free := redirected_acyclic distinct plain acyclic
      (closure.starts List.mem_cons_self) closure.closed leads
    refine ⟨⟨?_, fun cyclic => absurd free cyclic⟩, ?_⟩
    · rintro ⟨fault, failed⟩
      cases done.symm.trans failed
    · intro _
      rw [replaceNode_eq done]
      exact merged_fused plain different (fused_acyclic_of_redirected free)

end Guard

/-- The loop of the sample reads the sum, so the sum cannot give its place to the loop,
while the loop can give its place to the sum. -/
theorem fuse_tripling :
    (∃ fault, (tripling.fuse 3 2).answer = .error fault) ∧
      (tripling.fuse 2 3).answer = .ok () ∧
      tripling.Merged 2 3 (tripling.fuse 2 3).graph := by
  have formed := tripling_wellFormed
  have looped : ¬ (tripling.redirected 3 2).Acyclic := by
    intro free
    refine free 3 (.single ⟨⟨3, .loop, .loop ⟨0, "i", triplingBody, [(0, 3)]⟩, [], .null⟩, ?_⟩)
    simp [redirected, tripling, triplingOver, Node.fused, Node.loop?, Value.loop?, Node.dependencies,
      Loop.redirectBindings, redirect]
  have ranked : (tripling.redirected 2 3).RankedBy Int.toNat := by
    simp [RankedBy, redirected, tripling, triplingOver, Node.fused, Node.loop?, Node.dependencies,
      redirect]
  have refused : (∃ fault, (tripling.fuse 3 2).answer = .error fault) ↔
      ¬ (tripling.redirected 3 2).Acyclic :=
    (fuse_fails_iff_cyclic formed.valid formed.distinct.here formed.acyclic.here formed.loops.here
      (by decide) (by decide) (by decide)).1
  have allowed := fuse_fails_iff_cyclic formed.valid formed.distinct.here formed.acyclic.here
    formed.loops.here (show (2 : NodeId) ∈ tripling.ids by decide)
    (show (3 : NodeId) ∈ tripling.ids by decide) (by decide)
  have done : (tripling.fuse 2 3).answer = .ok () := by
    cases ended : (tripling.fuse 2 3).answer with
    | ok _ => rfl
    | error fault => exact absurd ranked.acyclic (allowed.1.mp ⟨fault, ended⟩)
  exact ⟨refused.mpr looped, done, allowed.2 done⟩

end Graph

end FlowGraph

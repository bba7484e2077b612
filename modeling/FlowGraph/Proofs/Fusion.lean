import FlowGraph.Graph.Fuse
import FlowGraph.Proofs.Simulation

/-!
# What merging makes of a graph

After one node was merged into another, every node is left as it was, except that
the kept node stands wherever the removed one was named.
-/

namespace FlowGraph

theorem redirect_self (keep remove : NodeId) : redirect keep remove remove = keep :=
  if_pos rfl

theorem redirect_of_ne {keep remove id : NodeId} (different : id ≠ remove) :
    redirect keep remove id = id :=
  if_neg different

/-- Redirecting back undoes redirecting where the kept number was not in use. -/
theorem redirect_redirect {keep remove id : NodeId} (unused : id ≠ keep) :
    redirect remove keep (redirect keep remove id) = id := by
  by_cases removed : id = remove
  · rw [removed, redirect_self, redirect_self]
  · rw [redirect_of_ne removed, redirect_of_ne unused]

namespace Node

/-- The node with the kept node in the place of the removed one. -/
def fused (keep remove : NodeId) (node : Node) : Node :=
  { node with
    inputs := node.inputs.map (redirect keep remove)
    content :=
      match node.loop? with
      | some loop => .loop (loop.redirectBindings keep remove)
      | none => node.content }

variable {keep remove : NodeId} {node : Node}

theorem fused_content (noLoop : node.loop? = none) :
    (node.fused keep remove).content = node.content := by
  simp [fused, noLoop]

theorem fused_loop? {loop : Loop} (runs : node.loop? = some loop) :
    (node.fused keep remove).loop? = some (loop.redirectBindings keep remove) :=
  loop?_eq_some.mpr ⟨(loop?_eq_some.mp runs).1, by simp [fused, runs]⟩

theorem exists_loop_of_fused {changed : Loop}
    (runs : (node.fused keep remove).loop? = some changed) :
    ∃ loop, node.loop? = some loop ∧ changed = loop.redirectBindings keep remove := by
  cases held : node.loop? with
  | some loop =>
      refine ⟨loop, rfl, ?_⟩
      rw [fused_loop? held] at runs
      exact (Option.some.inj runs).symm
  | none =>
      obtain ⟨kind, content⟩ := loop?_eq_some.mp runs
      rw [fused_content held] at content
      cases held.symm.trans (loop?_eq_some.mpr ⟨kind, content⟩)

theorem renumbered_fused (keep remove : NodeId) (node : Node) :
    node.Renumbered (redirect keep remove) (node.fused keep remove) where
  kind := rfl
  inputs := rfl
  content := fun noLoop => fused_content (loop?_eq_none_of_kind noLoop)
  loops := fun _ runs => ⟨_, fused_loop? runs, rfl, rfl⟩

/-- Redirecting back gives the node again, unless it named the kept node before. -/
theorem renumbered_of_fused (unused : keep ∉ node.dependencies) :
    (node.fused keep remove).Renumbered (redirect remove keep) node where
  kind := rfl
  inputs := by
    have back : (node.inputs.map (redirect keep remove)).map (redirect remove keep) =
        node.inputs.map fun input => input := by
      rw [List.map_map]
      refine List.map_congr_left fun input isInput => redirect_redirect ?_
      rintro rfl
      exact unused (node.inputs_subset_dependencies isInput)
    exact (back.trans (List.map_id' _)).symm
  content := fun noLoop =>
    have unfusedKind : node.kind ≠ .loop := noLoop
    (fused_content (loop?_eq_none_of_kind unfusedKind)).symm
  loops := by
    intro changed runs
    obtain ⟨loop, runsNode, rfl⟩ := exists_loop_of_fused runs
    refine ⟨loop, runsNode, rfl, ?_⟩
    have back : (loop.redirectBindings keep remove).bindings.map
          (fun binding => (binding.1, redirect remove keep binding.2)) =
        loop.bindings.map fun binding => binding := by
      unfold Loop.redirectBindings
      rw [List.map_map]
      refine List.map_congr_left fun binding member => Prod.ext rfl (redirect_redirect ?_)
      intro same
      exact unused (same ▸ source_mem_dependencies runsNode member)
    exact (back.trans (List.map_id' _)).symm

theorem source_mem_fused_dependencies {loop : Loop} (runs : node.loop? = some loop)
    {binding : NodeId × NodeId} (member : binding ∈ loop.bindings) :
    redirect keep remove binding.2 ∈ (node.fused keep remove).dependencies := by
  have redirected : (binding.1, redirect keep remove binding.2) ∈
      (loop.redirectBindings keep remove).bindings :=
    List.mem_map.mpr ⟨binding, member, rfl⟩
  exact source_mem_dependencies (fused_loop? runs) redirected

theorem mem_fused_dependencies
    (plain : ∀ loop, node.content = .loop loop → node.kind = .loop) {id : NodeId}
    (needed : id ∈ (node.fused keep remove).dependencies) :
    ∃ original ∈ node.dependencies, redirect keep remove original = id := by
  cases runs : node.loop? with
  | some loop =>
      rcases (dependencies_of_loop (fused_loop? runs)).mp needed with input | source
      · obtain ⟨original, isInput, same⟩ := List.mem_map.mp input
        exact ⟨original, node.inputs_subset_dependencies isInput, same⟩
      · obtain ⟨binding, member, rfl⟩ := List.mem_map.mp source
        obtain ⟨original, isOriginal, rfl⟩ := List.mem_map.mp member
        exact ⟨original.2, source_mem_dependencies runs isOriginal, rfl⟩
  | none =>
      have noLoop : ∀ loop, node.content ≠ .loop loop := fun loop content =>
        nomatch runs.symm.trans (loop?_eq_some.mpr ⟨plain loop content, content⟩)
      have inputsOnly : (node.fused keep remove).dependencies =
          node.inputs.map (redirect keep remove) := by
        unfold dependencies
        rw [fused_content runs]
        split
        · rename_i loop content
          exact absurd content (noLoop loop)
        · rfl
      rw [inputsOnly] at needed
      obtain ⟨original, isInput, same⟩ := List.mem_map.mp needed
      exact ⟨original, node.inputs_subset_dependencies isInput, same⟩

/-- All that a node needs is redirected. -/
theorem redirect_mem_fused_dependencies
    (plain : ∀ loop, node.content = .loop loop → node.kind = .loop) {original : NodeId}
    (needed : original ∈ node.dependencies) :
    redirect keep remove original ∈ (node.fused keep remove).dependencies := by
  have fromInput : original ∈ node.inputs →
      redirect keep remove original ∈ (node.fused keep remove).dependencies := fun isInput =>
    inputs_subset_dependencies _ (List.mem_map_of_mem isInput)
  cases runs : node.loop? with
  | some loop =>
      rcases (dependencies_of_loop runs).mp needed with input | source
      · exact fromInput input
      · obtain ⟨binding, member, rfl⟩ := List.mem_map.mp source
        exact source_mem_fused_dependencies runs member
  | none =>
      have noLoop : ∀ loop, node.content ≠ .loop loop := by
        intro loop content
        cases runs.symm.trans (loop?_eq_some.mpr ⟨plain loop content, content⟩)
      rw [dependencies_of_plain noLoop] at needed
      exact fromInput needed

end Node

/-- The node with redirected bindings. -/
def Node.redirectLoop (keep remove : NodeId) (node : Node) : Node :=
  match node.loop? with
  | some loop => { node with content := .loop (loop.redirectBindings keep remove) }
  | none => node

theorem Node.redirectLoop_redirectInputs {keep remove : NodeId} {node : Node}
    (stays : node.id ≠ remove) :
    (node.redirectInputs keep remove).redirectLoop keep remove = node.fused keep remove := by
  have sameLoop : ({ node with inputs := node.inputs.map (redirect keep remove) } : Node).loop? =
      node.loop? := rfl
  simp only [redirectInputs, stays, if_false, redirectLoop, fused, sameLoop]
  cases node.loop? <;> rfl

theorem redirectLoops_eq {keep remove : NodeId} {nodes : List Node}
    (done : (redirectLoops keep remove nodes).2 = .ok ()) :
    (redirectLoops keep remove nodes).1 = nodes.map (Node.redirectLoop keep remove) := by
  induction nodes with
  | nil => rfl
  | cons node rest induction =>
      by_cases isLoop : node.isLoop = true
      · have kind : node.kind = .loop := by simpa [Node.isLoop] using isLoop
        cases content : node.content
        case loop loop =>
          have runs : node.loop? = some loop := Node.loop?_eq_some.mpr ⟨kind, content⟩
          simp only [redirectLoops, isLoop, if_true, content] at done ⊢
          rw [induction done, List.map_cons, Node.redirectLoop, runs]
        all_goals simp [redirectLoops, isLoop, content] at done
      · have kind : node.kind ≠ .loop := by simpa [Node.isLoop] using isLoop
        simp only [redirectLoops, isLoop, Bool.false_eq_true, if_false] at done ⊢
        rw [induction done, List.map_cons, Node.redirectLoop, Node.loop?_eq_none_of_kind kind]

/-- Redirecting bindings stops only at a loop node without a loop. -/
theorem redirectLoops_succeeds {keep remove : NodeId} {nodes : List Node}
    (carried : ∀ node ∈ nodes, node.kind = .loop → ∃ loop, node.content = .loop loop) :
    (redirectLoops keep remove nodes).2 = .ok () := by
  induction nodes with
  | nil => rfl
  | cons node rest induction =>
      have remaining := induction fun other later => carried other (List.mem_cons_of_mem _ later)
      by_cases isLoop : node.isLoop = true
      · have kind : node.kind = .loop := by simpa [Node.isLoop] using isLoop
        obtain ⟨loop, content⟩ := carried node List.mem_cons_self kind
        simp only [redirectLoops, isLoop, if_true, content]
        exact remaining
      · simp only [redirectLoops, isLoop, Bool.false_eq_true, if_false]
        exact remaining

namespace Graph

/-- The graph that is left when one node was merged into another. -/
def fused (keep remove : NodeId) (graph : Graph) : Graph :=
  ⟨(graph.nodes.filter fun node => node.id != remove).map (Node.fused keep remove),
    graph.exits.map fun (name, id) => (name, redirect keep remove id), graph.nextId⟩

theorem replaceNode_eq {graph : Graph} {keep remove : NodeId}
    (done : (graph.replaceNode keep remove).answer = .ok ()) :
    (graph.replaceNode keep remove).graph = graph.fused keep remove := by
  have answer : (redirectLoops keep remove
      (graph.nodes.map (Node.redirectInputs keep remove))).2 = .ok () := by
    cases ended : (redirectLoops keep remove
      (graph.nodes.map (Node.redirectInputs keep remove))).2 with
    | ok _ => rfl
    | error fault =>
        simp only [replaceNode, ended] at done
        cases done
  have nodes := redirectLoops_eq answer
  have sameIds : ∀ node : Node,
      ((node.redirectInputs keep remove).redirectLoop keep remove).id = node.id := by
    intro node
    unfold Node.redirectLoop Node.redirectInputs
    repeat' split
    all_goals rfl
  have kept : ((graph.nodes.map (Node.redirectInputs keep remove)).map
        (Node.redirectLoop keep remove)).filter (fun node => node.id != remove) =
      (graph.nodes.filter fun node => node.id != remove).map (Node.fused keep remove) := by
    rw [List.map_map, List.filter_map]
    have samePredicate : ((fun node : Node => node.id != remove) ∘
        (Node.redirectLoop keep remove ∘ Node.redirectInputs keep remove)) =
        fun node => node.id != remove := funext fun node => by
      simp only [Function.comp_apply, sameIds]
    rw [samePredicate]
    refine List.map_congr_left fun node member => ?_
    exact Node.redirectLoop_redirectInputs (by simpa using (List.mem_filter.mp member).2)
  unfold replaceNode
  simp only [answer, nodes, erase, fused]
  rw [kept]

theorem fuse_eq {graph : Graph} {keep remove : NodeId}
    (done : (graph.fuse keep remove).answer = .ok ()) :
    (graph.fuse keep remove).graph = graph.fused keep remove := by
  unfold fuse at done ⊢
  split at done
  · cases done
  · split at done
    · cases done
    · split at done
      · cases done
      · split at done
        · cases done
        · simp_all [replaceNode_eq]

theorem replaceNode_succeeds {graph : Graph} {keep remove : NodeId}
    (carried : ∀ node ∈ graph.nodes, node.kind = .loop → ∃ loop, node.content = .loop loop) :
    (graph.replaceNode keep remove).answer = .ok () := by
  have redirected : (redirectLoops keep remove
      (graph.nodes.map (Node.redirectInputs keep remove))).2 = .ok () := by
    refine redirectLoops_succeeds fun other member => ?_
    obtain ⟨node, inGraph, rfl⟩ := List.mem_map.mp member
    unfold Node.redirectInputs
    split
    · exact carried node inGraph
    · exact carried node inGraph
  simp only [replaceNode, redirected]

theorem ancestors_of_leaf {graph : Graph} {id : NodeId} {node : Node}
    (found : graph.find? id = some node) (leaf : node.dependencies = []) :
    graph.ancestors [id] = .ok [id] := by
  unfold ancestors
  rw [List.reverse_singleton, reach]
  split
  · contradiction
  · split
    · rename_i missing
      cases found.symm.trans missing
    · rename_i held foundHeld
      cases found.symm.trans foundHeld
      rw [leaf, List.reverse_nil, List.nil_append, reach]

/-- Every other node can be merged into one that needs nothing. -/
theorem fuse_of_leaf {graph : Graph} {keep remove : NodeId} {node : Node}
    (found : graph.find? keep = some node) (leaf : node.dependencies = [])
    (present : remove ∈ graph.ids) (different : keep ≠ remove)
    (carried : ∀ node ∈ graph.nodes, node.kind = .loop → ∃ loop, node.content = .loop loop) :
    (graph.fuse keep remove).answer = .ok () := by
  obtain ⟨removed, foundRemoved⟩ := exists_find? present
  have notAncestor : remove ∉ [keep] := fun inside =>
    different (List.mem_singleton.mp inside).symm
  unfold fuse
  rw [if_neg different, node_eq_ok.mpr foundRemoved, ancestors_of_leaf found leaf]
  simp only [notAncestor, if_false]
  exact replaceNode_succeeds carried

section Fused

variable {graph : Graph} {keep remove : NodeId}

theorem mem_fused_nodes {other : Node} :
    other ∈ (graph.fused keep remove).nodes ↔
      ∃ node ∈ graph.nodes, node.id ≠ remove ∧ node.fused keep remove = other := by
  simp only [fused, List.mem_map, List.mem_filter, bne_iff_ne, and_assoc]

theorem fused_ids_sublist : (graph.fused keep remove).ids.Sublist graph.ids := by
  have sameIds : (graph.fused keep remove).ids =
      (graph.nodes.filter fun node => node.id != remove).map Node.id := by
    unfold ids fused
    rw [List.map_map]
    rfl
  rw [sameIds]
  exact List.filter_sublist.map Node.id

/-- What named a node of the graph names one that is left. -/
theorem redirect_mem_fused_ids (kept : keep ∈ graph.ids) (different : keep ≠ remove)
    {id : NodeId} (present : id ∈ graph.ids) :
    redirect keep remove id ∈ (graph.fused keep remove).ids := by
  have stays : ∀ other ∈ graph.ids, other ≠ remove → other ∈ (graph.fused keep remove).ids := by
    intro other inGraph notRemoved
    obtain ⟨node, member, rfl⟩ := mem_ids.mp inGraph
    exact mem_ids.mpr ⟨node.fused keep remove,
      mem_fused_nodes.mpr ⟨node, member, notRemoved, rfl⟩, rfl⟩
  by_cases removed : id = remove
  · rw [removed, redirect_self]
    exact stays keep kept different
  · rw [redirect_of_ne removed]
    exact stays id present removed

theorem fused_linked (kept : keep ∈ graph.ids) (different : keep ≠ remove)
    (linked : ∀ node ∈ graph.nodes, ∀ id ∈ node.dependencies, id ∈ graph.ids)
    (plain : ∀ node ∈ graph.nodes, ∀ loop, node.content = .loop loop → node.kind = .loop) :
    ∀ node ∈ (graph.fused keep remove).nodes, ∀ id ∈ node.dependencies,
      id ∈ (graph.fused keep remove).ids := by
  intro other member id needed
  obtain ⟨node, inGraph, _, rfl⟩ := mem_fused_nodes.mp member
  obtain ⟨original, isNeeded, rfl⟩ := Node.mem_fused_dependencies (plain node inGraph) needed
  exact redirect_mem_fused_ids kept different (linked node inGraph original isNeeded)

end Fused

end Graph

end FlowGraph

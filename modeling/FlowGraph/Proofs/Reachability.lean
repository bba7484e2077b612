import FlowGraph.Proofs.WellFormed
import Mathlib.Data.Set.Basic

/-!
# What the search for ancestors finds

The search keeps a stack of pending numbers and a list of seen ones.  Seen nodes lead to seen
and pending numbers only, so that at the end the seen numbers are closed under dependencies;
and what is pending was reached from the start, so that nothing else is found.  The search
fails exactly when a number can be reached that no node has, with cycles or without.
-/

namespace FlowGraph

/-- A node depends on its inputs and, if it holds a loop, on the sources of the bindings. -/
theorem Node.mem_dependencies {node : Node} {id : NodeId} :
    id ∈ node.dependencies ↔ id ∈ node.inputs ∨
      ∃ loop, node.content = .loop loop ∧ id ∈ loop.bindings.map Prod.snd := by
  constructor
  · intro needed
    by_cases plain : ∀ loop, node.content ≠ .loop loop
    · exact .inl (node.dependencies_of_plain plain ▸ needed)
    · push Not at plain
      obtain ⟨loop, content⟩ := plain
      rcases (Node.dependencies_of_content content).mp needed with isInput | isSource
      · exact .inl isInput
      · exact .inr ⟨loop, content, isSource⟩
  · intro either
    rcases either with isInput | ⟨loop, content, isSource⟩
    · exact node.inputs_subset_dependencies isInput
    · exact (Node.dependencies_of_content content).mpr (.inr isSource)

namespace Graph

/-- One step along a dependency: to an input of the node of this number, or to the source of a
binding of the loop that it holds. -/
def Needs (graph : Graph) (id dependency : NodeId) : Prop :=
  ∃ node, graph.find? id = some node ∧
    (dependency ∈ node.inputs ∨
      ∃ loop, node.content = .loop loop ∧ dependency ∈ loop.bindings.map Prod.snd)

/-- The numbers that some numbers lead to in zero or more steps. -/
def reachable (graph : Graph) (start : List NodeId) : Set NodeId :=
  {id | ∃ first ∈ start, Relation.ReflTransGen graph.Needs first id}

variable {graph : Graph} {pending rest seen start found : List NodeId} {id dependency : NodeId}
  {node : Node}

theorem needs_iff :
    graph.Needs id dependency ↔
      ∃ node, graph.find? id = some node ∧ dependency ∈ node.dependencies := by
  simp only [Needs, Node.mem_dependencies]

theorem Needs.dependsOn (needs : graph.Needs id dependency) : graph.DependsOn id dependency := by
  obtain ⟨node, holds, needed⟩ := needs_iff.mp needs
  obtain ⟨member, same⟩ := mem_of_find? holds
  exact ⟨node, member, same, needed⟩

theorem reachable_of_mem (member : id ∈ start) : id ∈ graph.reachable start :=
  ⟨id, member, .refl⟩

theorem reachable_mono (subset : rest ⊆ start) : graph.reachable rest ⊆ graph.reachable start := by
  intro id reached
  obtain ⟨first, member, path⟩ := reached
  exact ⟨first, subset member, path⟩

theorem reachable_append (start more : List NodeId) :
    graph.reachable (start ++ more) = graph.reachable start ∪ graph.reachable more := by
  ext id
  constructor
  · intro reached
    obtain ⟨first, member, path⟩ := reached
    rcases List.mem_append.mp member with early | late
    · exact .inl ⟨first, early, path⟩
    · exact .inr ⟨first, late, path⟩
  · intro either
    rcases either with reached | reached
    · exact reachable_mono (List.subset_append_left _ _) reached
    · exact reachable_mono (List.subset_append_right _ _) reached

theorem exists_path (reached : id ∈ graph.reachable start) :
    ∃ first ∈ start, Relation.ReflTransGen graph.DependsOn first id := by
  obtain ⟨first, member, path⟩ := reached
  exact ⟨first, member, Relation.ReflTransGen.mono (fun _ _ => Needs.dependsOn) _ _ path⟩

/-- What is reached after a node was replaced by its dependencies was reached from it. -/
theorem reachable_expand (holds : graph.find? id = some node) :
    graph.reachable (node.dependencies.reverse ++ rest) ⊆ graph.reachable (id :: rest) := by
  intro other reached
  obtain ⟨first, waiting, path⟩ := reached
  rcases List.mem_append.mp waiting with needed | later
  · have step : graph.Needs id first := needs_iff.mpr ⟨node, holds, List.mem_reverse.mp needed⟩
    exact ⟨id, List.mem_cons_self, .head step path⟩
  · exact ⟨first, List.mem_cons_of_mem _ later, path⟩

/-- The search finds the pending nodes and is closed under dependencies, when the
seen nodes lead to seen and pending nodes only. -/
theorem reach_closed (done : graph.reach pending seen = .ok found)
    (frontier : ∀ id ∈ seen, ∀ node, graph.find? id = some node →
      ∀ dependency ∈ node.dependencies, dependency ∈ seen ∨ dependency ∈ pending) :
    seen ⊆ found ∧ pending ⊆ found ∧
      ∀ id ∈ found, ∀ node, graph.find? id = some node → node.dependencies ⊆ found := by
  fun_induction graph.reach pending seen generalizing found with
  | case1 seen =>
      cases done
      refine ⟨List.Subset.refl _, List.nil_subset _, ?_⟩
      intro id member node holds dependency needed
      exact (frontier id member node holds dependency needed).resolve_right (by simp)
  | case2 seen id rest old induction =>
      have laterFrontier : ∀ other ∈ seen, ∀ node, graph.find? other = some node →
          ∀ dependency ∈ node.dependencies, dependency ∈ seen ∨ dependency ∈ rest := by
        intro other member node holds dependency needed
        rcases frontier other member node holds dependency needed with known | waiting
        · exact .inl known
        · rcases List.mem_cons.mp waiting with same | later
          · exact .inl (same ▸ old)
          · exact .inr later
      obtain ⟨keeps, finds, closed⟩ := induction done laterFrontier
      exact ⟨keeps, List.cons_subset.mpr ⟨keeps old, finds⟩, closed⟩
  | case3 seen id rest new missing => cases done
  | case4 seen id rest new node holds induction =>
      -- The new node leads to its dependencies, which are pending from now on.
      have laterFrontier : ∀ other ∈ id :: seen, ∀ held, graph.find? other = some held →
          ∀ dependency ∈ held.dependencies,
            dependency ∈ id :: seen ∨ dependency ∈ node.dependencies.reverse ++ rest := by
        intro other member held holdsHeld dependency needed
        rcases List.mem_cons.mp member with same | earlier
        · subst same
          cases holds.symm.trans holdsHeld
          exact .inr (List.mem_append_left _ (List.mem_reverse.mpr needed))
        · rcases frontier other earlier held holdsHeld dependency needed with known | waiting
          · exact .inl (List.mem_cons_of_mem _ known)
          · rcases List.mem_cons.mp waiting with same | later
            · exact .inl (same ▸ List.mem_cons_self)
            · exact .inr (List.mem_append_right _ later)
      obtain ⟨keeps, finds, closed⟩ := induction done laterFrontier
      refine ⟨fun other member => keeps (List.mem_cons_of_mem _ member), ?_, closed⟩
      exact List.cons_subset.mpr ⟨keeps List.mem_cons_self,
        fun other member => finds (List.mem_append_right _ member)⟩

/-- What the search finds was seen before, or the graph has it and a pending node leads
to it. -/
theorem reach_origin (done : graph.reach pending seen = .ok found) :
    ∀ id ∈ found, id ∈ seen ∨ id ∈ graph.ids ∧ id ∈ graph.reachable pending := by
  fun_induction graph.reach pending seen generalizing found with
  | case1 seen =>
      cases done
      exact fun id member => .inl member
  | case2 seen id rest old induction =>
      intro other member
      rcases induction done other member with earlier | ⟨present, reached⟩
      · exact .inl earlier
      · exact .inr ⟨present, reachable_mono (List.subset_cons_self _ _) reached⟩
  | case3 seen id rest new missing => cases done
  | case4 seen id rest new node holds induction =>
      intro other member
      rcases induction done other member with earlier | ⟨present, reached⟩
      · rcases List.mem_cons.mp earlier with rfl | before
        · exact .inr ⟨mem_ids_of_find? holds, reachable_of_mem List.mem_cons_self⟩
        · exact .inl before
      · exact .inr ⟨present, reachable_expand holds reached⟩

/-- A search that fails has come from a pending number to one that no node has. -/
theorem reach_missing {fault : Fault} (failed : graph.reach pending seen = .error fault) :
    ∃ id ∈ graph.reachable pending, id ∉ graph.ids ∧ fault = .missingNode id := by
  fun_induction graph.reach pending seen with
  | case1 => cases failed
  | case2 seen id rest old induction =>
      obtain ⟨missing, reached, absent⟩ := induction failed
      exact ⟨missing, reachable_mono (List.subset_cons_self _ _) reached, absent⟩
  | case3 seen id rest new missing =>
      cases failed
      exact ⟨id, reachable_of_mem List.mem_cons_self, find?_eq_none.mp missing, rfl⟩
  | case4 seen id rest new node holds induction =>
      obtain ⟨missing, reached, absent⟩ := induction failed
      exact ⟨missing, reachable_expand holds reached, absent⟩

theorem reach_nodup (done : graph.reach pending seen = .ok found) (distinct : seen.Nodup) :
    found.Nodup := by
  fun_induction graph.reach pending seen generalizing found with
  | case1 seen =>
      cases done
      exact distinct
  | case2 seen id rest old induction => exact induction done distinct
  | case3 seen id rest new missing => cases done
  | case4 seen id rest new node holds induction =>
      exact induction done (List.nodup_cons.mpr ⟨new, distinct⟩)

/-- A list holds the given nodes and all that they lead to, and nothing else. -/
structure ClosureOf (graph : Graph) (start found : List NodeId) : Prop where
  starts : start ⊆ found
  closed : ∀ id ∈ found, ∀ node, graph.find? id = some node → node.dependencies ⊆ found
  present : found ⊆ graph.ids
  reached : ∀ id ∈ found, ∃ first ∈ start, Relation.ReflTransGen graph.DependsOn first id

section Found

variable (done : graph.ancestors start = .ok found)
include done

theorem mem_ancestors_iff : id ∈ found ↔ id ∈ graph.reachable start := by
  constructor
  · intro member
    obtain ⟨_, reached⟩ := (reach_origin done id member).resolve_left (by simp)
    exact reachable_mono (fun _ waiting => List.mem_reverse.mp waiting) reached
  · intro reached
    obtain ⟨first, member, path⟩ := reached
    obtain ⟨_, finds, closed⟩ := reach_closed done (by simp)
    induction path with
    | refl => exact finds (List.mem_reverse.mpr member)
    | tail _ step induction =>
        obtain ⟨node, holds, needed⟩ := needs_iff.mp step
        exact closed _ induction node holds needed

theorem ancestors_present : found ⊆ graph.ids := by
  intro id member
  exact ((reach_origin done id member).resolve_left (by simp)).1

theorem closureOf_ancestors : graph.ClosureOf start found where
  starts := fun _ member => (mem_ancestors_iff done).mpr (reachable_of_mem member)
  closed := (reach_closed done (by simp)).2.2
  present := ancestors_present done
  reached := fun _ member => exists_path ((mem_ancestors_iff done).mp member)

end Found

theorem exists_missing {fault : Fault} (failed : graph.ancestors start = .error fault) :
    ∃ id ∈ graph.reachable start, id ∉ graph.ids ∧ fault = .missingNode id := by
  obtain ⟨id, reached, absent⟩ := reach_missing failed
  exact ⟨id, reachable_mono (fun _ waiting => List.mem_reverse.mp waiting) reached, absent⟩

/-- The search ends well exactly when the graph has all that can be reached. -/
theorem exists_ancestors_iff :
    (∃ found, graph.ancestors start = .ok found) ↔
      ∀ id ∈ graph.reachable start, id ∈ graph.ids := by
  constructor
  · intro ends id reached
    obtain ⟨found, done⟩ := ends
    exact ancestors_present done ((mem_ancestors_iff done).mpr reached)
  · intro present
    cases searched : graph.ancestors start with
    | ok found => exact ⟨found, rfl⟩
    | error fault =>
        obtain ⟨id, reached, absent, _⟩ := exists_missing searched
        exact absurd (present id reached) absent

/-- The search for ancestors ends on every graph, with cycles or without.  It fails exactly
when a number can be reached that no node has, and names such a number; otherwise it finds
the numbers that can be reached, each once.  So the ancestors of two lists of nodes are those
of the one and those of the other. -/
theorem ancestors_finds_reachable (graph : Graph) (start more : List NodeId) :
    ((∃ fault, graph.ancestors start = .error fault) ↔
      ∃ id ∈ graph.reachable start, id ∉ graph.ids) ∧
    (∀ fault, graph.ancestors start = .error fault →
      ∃ id ∈ graph.reachable start, id ∉ graph.ids ∧ fault = .missingNode id) ∧
    (∀ found, graph.ancestors start = .ok found →
      found.Nodup ∧ {id | id ∈ found} = graph.reachable start) ∧
    ((∃ all, graph.ancestors (start ++ more) = .ok all) ↔
      (∃ found, graph.ancestors start = .ok found) ∧
        ∃ others, graph.ancestors more = .ok others) ∧
    ∀ all found others, graph.ancestors (start ++ more) = .ok all →
      graph.ancestors start = .ok found → graph.ancestors more = .ok others →
      {id | id ∈ all} = {id | id ∈ found} ∪ {id | id ∈ others} := by
  have exactly : ∀ {start found}, graph.ancestors start = .ok found →
      {id | id ∈ found} = graph.reachable start :=
    fun done => Set.ext fun _ => mem_ancestors_iff done
  refine ⟨?_, fun fault => exists_missing, ?_, ?_, ?_⟩
  · constructor
    · intro failed
      obtain ⟨fault, failed⟩ := failed
      obtain ⟨id, reached, absent, _⟩ := exists_missing failed
      exact ⟨id, reached, absent⟩
    · intro missing
      obtain ⟨id, reached, absent⟩ := missing
      cases searched : graph.ancestors start with
      | error fault => exact ⟨fault, rfl⟩
      | ok found => exact absurd (exists_ancestors_iff.mp ⟨found, searched⟩ id reached) absent
  · intro found done
    exact ⟨reach_nodup done List.nodup_nil, exactly done⟩
  · rw [exists_ancestors_iff, exists_ancestors_iff, exists_ancestors_iff, reachable_append]
    simp only [Set.mem_union, or_imp, forall_and]
  · intro all found others doneAll done doneMore
    rw [exactly doneAll, exactly done, exactly doneMore, reachable_append]

/-- A property that passes from nodes to their dependencies passes to all that they
lead to. -/
theorem holds_of_path {property : NodeId → Prop}
    (closed : ∀ node ∈ graph.nodes, property node.id → ∀ id ∈ node.dependencies, property id)
    {first id : NodeId} (path : Relation.ReflTransGen graph.DependsOn first id)
    (starts : property first) : property id := by
  induction path with
  | refl => exact starts
  | tail _ edge induction =>
      obtain ⟨node, member, rfl, needed⟩ := edge
      exact closed node member induction _ needed

/-- A part that is closed under dependencies holds all that its nodes lead to. -/
theorem mem_of_path {part : List NodeId}
    (closed : ∀ node ∈ graph.nodes, node.id ∈ part → node.dependencies ⊆ part)
    {first id : NodeId} (path : Relation.ReflTransGen graph.DependsOn first id)
    (starts : first ∈ part) : id ∈ part :=
  @holds_of_path graph (· ∈ part) (fun node member inside _ needed =>
    closed node member inside needed) first id path starts

theorem ancestors_closed (linked : ∀ node ∈ graph.nodes, ∀ id ∈ node.dependencies, id ∈ graph.ids)
    (present : start ⊆ graph.ids) :
    ∃ found, graph.ancestors start = .ok found ∧ start ⊆ found ∧
      ∀ id ∈ found, ∀ node, graph.find? id = some node → node.dependencies ⊆ found := by
  have inside : ∀ id ∈ graph.reachable start, id ∈ graph.ids := by
    intro id reached
    obtain ⟨first, member, path⟩ := exists_path reached
    exact mem_of_path (fun node inGraph _ => linked node inGraph) path (present member)
  obtain ⟨found, done⟩ := exists_ancestors_iff.mpr inside
  have closure := closureOf_ancestors done
  exact ⟨found, done, closure.starts, closure.closed⟩

end Graph

end FlowGraph

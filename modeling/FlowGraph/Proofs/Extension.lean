import FlowGraph.Proofs.WellFormed

/-!
# Graphs with one more node

A new node has a number of its own and depends on nodes that are there already, so
nothing waits for it.  A graph therefore keeps its form when a node of the right form
is added, and so do the graphs of its nest.
-/

namespace FlowGraph

namespace Graph

/-- The node that is added to a graph. -/
def newNode (graph : Graph) (kind : Kind) (content : Value) (inputs : List NodeId) : Node :=
  ⟨graph.nextId, kind, content, inputs, unsetResult⟩

variable {graph : Graph} {kind : Kind} {content : Value} {inputs : List NodeId}

theorem find?_extended_new :
    (graph.extended kind content inputs).find? graph.nextId =
      some (graph.newNode kind content inputs) := by
  rw [find?_extended, if_pos rfl, newNode]

theorem old_or_new {id : NodeId} {node : Node}
    (found : (graph.extended kind content inputs).find? id = some node) :
    graph.find? id = some node ∨ node = graph.newNode kind content inputs := by
  rw [find?_extended] at found
  split at found
  · exact .inr (Option.some.inj found).symm
  · exact .inl found

theorem Numbered.extended (numbered : graph.Numbered) :
    (graph.extended kind content inputs).Numbered := by
  intro id present
  rcases mem_extended_ids.mp present with old | rfl
  · exact Int.lt_trans (numbered id old) (Int.lt_succ graph.nextId)
  · exact Int.lt_succ graph.nextId

/-- No path of dependencies leads to the new node, so a cycle would be one of the
old graph. -/
theorem Acyclic.extended (acyclic : graph.Acyclic) (numbered : graph.Numbered)
    (linked : ∀ node ∈ graph.nodes, ∀ id ∈ node.dependencies, id ∈ graph.ids)
    (newLinked : ∀ id ∈ (graph.newNode kind content inputs).dependencies, id ∈ graph.ids) :
    (graph.extended kind content inputs).Acyclic := by
  have oldTarget : ∀ {id dependency},
      (graph.extended kind content inputs).DependsOn id dependency → dependency ∈ graph.ids := by
    rintro id dependency ⟨node, member, _, needed⟩
    rcases old_or_new_node member with old | rfl
    · exact linked node old dependency needed
    · exact newLinked dependency needed
  have oldEdge : ∀ {id dependency}, id ∈ graph.ids →
      (graph.extended kind content inputs).DependsOn id dependency →
      graph.DependsOn id dependency := by
    rintro id dependency present ⟨node, member, rfl, needed⟩
    rcases old_or_new_node member with old | rfl
    · exact ⟨node, old, rfl, needed⟩
    · exact absurd present numbered.fresh
  have oldPath : ∀ {id other},
      Relation.TransGen (graph.extended kind content inputs).DependsOn id other →
      id ∈ graph.ids → Relation.TransGen graph.DependsOn id other ∧ other ∈ graph.ids := by
    intro id other path present
    induction path with
    | single edge => exact ⟨.single (oldEdge present edge), oldTarget edge⟩
    | tail _ edge induction =>
        exact ⟨induction.1.tail (oldEdge induction.2 edge), oldTarget edge⟩
  intro id cycle
  have present : id ∈ graph.ids := by
    cases cycle with
    | single edge => exact oldTarget edge
    | tail _ edge => exact oldTarget edge
  exact acyclic id (oldPath cycle present).1

theorem Evaluable.extended (evaluable : graph.Evaluable) (numbered : graph.Numbered)
    (linked : ∀ id ∈ (graph.newNode kind content inputs).dependencies, id ∈ graph.ids)
    (carried : kind = .loop → ∃ loop, content = .loop loop)
    (keys : ∀ loop, (graph.newNode kind content inputs).loop? = some loop →
      ∀ binding ∈ loop.bindings, binding.1 ∈ loop.body.ids) :
    (graph.extended kind content inputs).Evaluable where
  distinct := numbered.extended_distinct evaluable.distinct
  linked := by
    intro node member id needed
    refine mem_extended_ids.mpr (.inl ?_)
    rcases old_or_new_node member with old | rfl
    · exact evaluable.linked node old id needed
    · exact linked id needed
  exits := by
    intro exit member
    rw [extended_exits] at member
    exact mem_extended_ids.mpr (.inl (evaluable.exits exit member))
  carried := by
    intro node member isLoop
    rcases old_or_new_node member with old | rfl
    · exact evaluable.carried node old isLoop
    · exact carried isLoop
  keys := by
    intro node member loop runs
    rcases old_or_new_node member with old | rfl
    · exact evaluable.keys node old loop runs
    · exact keys loop runs
  acyclic := evaluable.acyclic.extended numbered evaluable.linked linked

theorem Formed.extended (formed : graph.Formed) (numbered : graph.Numbered)
    (linked : ∀ id ∈ (graph.newNode kind content inputs).dependencies, id ∈ graph.ids)
    (loops : kind = .loop ↔ ∃ loop, content = .loop loop)
    (keys : ∀ loop, (graph.newNode kind content inputs).loop? = some loop →
      ∀ binding ∈ loop.bindings, ∃ bound, loop.body.find? binding.1 = some bound ∧
        bound.kind = .external) :
    (graph.extended kind content inputs).Formed where
  toEvaluable := by
    refine formed.toEvaluable.extended numbered linked loops.mp ?_
    intro loop runs binding member
    obtain ⟨bound, found, _⟩ := keys loop runs binding member
    exact mem_ids_of_find? found
  plain := by
    intro node member loop holds
    rcases old_or_new_node member with old | rfl
    · exact formed.plain node old loop holds
    · exact loops.mpr ⟨loop, holds⟩
  externalKeys := by
    intro node member loop runs
    rcases old_or_new_node member with old | rfl
    · exact formed.externalKeys node old loop runs
    · exact keys loop runs

theorem everywhere_extended {property : Graph → Prop} (everywhere : graph.Everywhere property)
    (here : property (graph.extended kind content inputs))
    (body : ∀ loop, (graph.newNode kind content inputs).loop? = some loop →
      loop.body.Everywhere property) :
    (graph.extended kind content inputs).Everywhere property := by
  refine everywhere_iff.mpr ⟨here, ?_⟩
  intro id node loop found runs
  rcases old_or_new found with old | rfl
  · exact everywhere.body old runs
  · exact body loop runs

end Graph

end FlowGraph

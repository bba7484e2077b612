import FlowGraph.Proofs.Clusters

/-!
# Dotted edges

What a node of a loop body reads from a bound node comes from outside the loop, and from
further outside when the source of the binding is bound in its turn.  A drawing has a dotted
edge from the supplier of the value exactly when the first source outside is not bound again:
bound nodes are not drawn, and edges look no further than one loop outward.
-/

namespace FlowGraph

/-- Dotted edges into a node come from the sources of the bound inputs. -/
theorem mem_edgesInto {marks : Marks} {position : Position} {bindings : List (NodeId × NodeId)}
    {number source target : Nat} {inputs : List NodeId} :
    .edge source target true ∈ edgesInto marks position bindings number inputs ↔
      number = target ∧ ∃ input ∈ inputs, ∃ outer, bindings.lookup input = some outer ∧
        marks.lookup (position.tail, outer) = some (.node source) := by
  rw [edgesInto, List.mem_filterMap]
  constructor
  · intro drawn
    obtain ⟨input, member, edge⟩ := drawn
    cases bound : bindings.lookup input with
    | none =>
        rw [bound] at edge
        simp only at edge
        split at edge <;> simp at edge
    | some outer =>
        rw [bound] at edge
        simp only at edge
        split at edge
        · rename_i marked
          cases edge
          exact ⟨rfl, input, member, outer, bound, marked⟩
        · cases edge
  · intro reads
    obtain ⟨rfl, input, member, outer, bound, marked⟩ := reads
    exact ⟨input, member, by simp [bound, marked]⟩

theorem Declares.no_edge {position : Position} {bound : List NodeId} {number : Nat}
    {nodes : List Node} {declared : Declared}
    (declares : Declares position bound number nodes declared) {source target : Nat}
    {dotted : Bool} : .edge source target dotted ∉ declared.statements :=
  fun member => List.cons_ne_nil _ _ (declares.ends_eq_nil member)

theorem drawExits_no_edge {marks : Marks} {number source target : Nat} {dotted : Bool}
    {exits : List (String × NodeId)} :
    .edge source target dotted ∉ drawExits marks number exits := by
  intro member
  obtain ⟨_, _, _, _, isNote, _⟩ := exists_source_of_mem_drawExits member
  cases isNote

namespace Graph

/-- What the loop around a graph of the nest binds a node to. -/
def boundTo? (graph : Graph) (position : Position) (id : NodeId) : Option NodeId :=
  (graph.bindingsAt position).lookup id

/-- The node that a node has its value from: bindings are followed outward to a node that
is not bound. -/
def supplier (graph : Graph) : Position → NodeId → Position × NodeId
  | [], id => ([], id)
  | loop :: outer, id =>
      match graph.boundTo? (loop :: outer) id with
      | some source => graph.supplier outer source
      | none => (loop :: outer, id)

variable {graph body : Graph} {position place : Position} {id input source : NodeId}
  {node : Node}

theorem boundTo?_eq_none :
    graph.boundTo? position id = none ↔ id ∉ (graph.bindingsAt position).map Prod.fst := by
  rw [boundTo?, List.lookup_eq_none_iff]
  constructor
  · intro different member
    obtain ⟨entry, inside, rfl⟩ := List.mem_map.mp member
    simpa using different entry inside
  · intro absent entry inside
    have different : id ≠ entry.1 := by
      intro same
      exact absent (same ▸ List.mem_map_of_mem inside)
    simpa using different

theorem supplier_of_free (free : graph.boundTo? position id = none) :
    graph.supplier position id = (position, id) := by
  cases position with
  | nil => rfl
  | cons loop outer => simp [supplier, free]

theorem supplier_of_bound (bound : graph.boundTo? position id = some source) :
    graph.supplier position id = graph.supplier position.tail source := by
  cases position with
  | nil => cases bound
  | cons loop outer => simp [supplier, bound]

theorem supplier_length_le (position : Position) (id : NodeId) :
    (graph.supplier position id).1.length ≤ position.length := by
  induction position generalizing id with
  | nil => exact Nat.le_refl _
  | cons loop outer induction =>
      cases bound : graph.boundTo? (loop :: outer) id with
      | none => rw [supplier_of_free bound]
      | some source =>
          rw [supplier_of_bound bound]
          exact (induction source).trans (Nat.le_succ _)

/-- The supplier stands outside each loop that binds the node. -/
theorem supplier_length_lt (bound : graph.boundTo? position id = some source) :
    (graph.supplier position id).1.length < position.length := by
  rw [supplier_of_bound bound]
  cases position with
  | nil => cases bound
  | cons loop outer => exact Nat.lt_succ_of_le (supplier_length_le outer source)

section Suppliers

variable (evaluable : graph.Everywhere Evaluable)
include evaluable

/-- The source of a binding is a node of the graph around the loop. -/
theorem exists_source (reached : graph.within? position.reverse = some body)
    (bound : graph.boundTo? position id = some source) :
    ∃ around, graph.within? position.tail.reverse = some around ∧ source ∈ around.ids := by
  cases position with
  | nil => cases bound
  | cons outer position =>
      obtain ⟨around, node, loop, outside, found, runs, _⟩ := exists_around reached
      refine ⟨around, outside, ?_⟩
      rw [boundTo?, (within?_reverse_cons outside found runs).2] at bound
      apply (evaluable _ _ outside).linked node (mem_of_find? found).1
      exact Node.source_mem_dependencies runs (mem_of_lookup bound)

/-- Following bindings ends at a node of the nest that is not bound. -/
theorem exists_supplier (reached : graph.within? position.reverse = some body)
    (present : id ∈ body.ids) :
    ∃ holder supply, graph.within? (graph.supplier position id).1.reverse = some holder ∧
      holder.find? (graph.supplier position id).2 = some supply ∧
      graph.boundTo? (graph.supplier position id).1 (graph.supplier position id).2 = none := by
  induction position generalizing body id with
  | nil =>
      obtain ⟨node, found⟩ := exists_find? present
      exact ⟨body, node, reached, found, rfl⟩
  | cons outer position induction =>
      cases bound : graph.boundTo? (outer :: position) id with
      | none =>
          obtain ⟨node, found⟩ := exists_find? present
          rw [supplier_of_free bound]
          exact ⟨body, node, reached, found, bound⟩
      | some source =>
          obtain ⟨around, outside, inAround⟩ := exists_source evaluable reached bound
          rw [supplier_of_bound bound]
          exact induction outside inAround

end Suppliers

section Drawn

variable {declared : Declared} (declares : Declares [] [] 1 graph.nodes declared)
  (distinct : graph.Everywhere fun body => body.ids.Nodup)
include declares distinct

/-- A node that is no loop node and is not bound is drawn as a node. -/
theorem exists_drawn (reached : graph.within? place.reverse = some body)
    (found : body.find? id = some node) (kind : node.kind ≠ .loop)
    (free : graph.boundTo? place id = none) :
    ∃ number, declared.marks.lookup (place, id) = some (.node number) := by
  obtain ⟨member, rfl⟩ := mem_of_find? found
  have stands : Stands [] [] graph.nodes place (graph.bindingsAt place) node :=
    (stands_iff distinct).mpr ⟨body, reached, member, rfl⟩
  obtain ⟨mark, statement, clusters, marked, introduces, _⟩ :=
    @Declares.exists_introduced _ _ [] _ _ _ _ _ _ [] declares rfl rfl stands
      (.inr (boundTo?_eq_none.mp free))
  cases introduces with
  | cluster runs => exact absurd (Node.loop?_eq_some.mp runs).1 kind
  | node => exact ⟨_, lookup_of_mem (nodup_keys declares distinct) marked⟩

/-- Both rounds of a drawing get past every node. -/
theorem passable_of_declares {inner : List (NodeId × NodeId)}
    (stands : Stands [] [] graph.nodes place inner node) :
    Passable declared.marks place inner node := by
  obtain ⟨body, reached, member, rfl⟩ := (stands_iff distinct).mp stands
  by_cases kind : node.kind = .loop
  · left
    obtain ⟨mark, statement, clusters, marked, introduces, _⟩ :=
      @Declares.exists_introduced _ _ [] _ _ _ _ _ _ [] declares rfl rfl stands (.inl kind)
    cases introduces with
    | cluster runs => exact ⟨_, runs⟩
    | node other => exact absurd kind other
  · right
    refine ⟨kind, fun free => ?_⟩
    exact exists_drawn declares distinct reached (find?_of_mem (distinct _ _ reached) member) kind
      (boundTo?_eq_none.mpr free)

/-- The second round never misses a mark. -/
theorem exists_edges (done : declareGraph [] [] 1 graph = .ok declared) :
    ∃ edges, graph.statements = .ok (declared.statements ++ edges ++
        drawExits declared.marks declared.next graph.exits) ∧
      ∀ statement, statement ∈ edges ↔ Connects declared.marks [] [] graph.nodes statement := by
  obtain ⟨edges, connected, isEdge⟩ := @exists_connected declared.marks graph.nodes [] []
    fun _ _ _ => passable_of_declares declares distinct
  refine ⟨edges, ?_, isEdge⟩
  exact bind_eq_ok.mpr ⟨declared, done, bind_eq_ok.mpr ⟨edges, (connectGraph_eq graph).trans
    connected, rfl⟩⟩

/-- The dotted edges of a drawing. -/
theorem mem_statements {statements : List Statement}
    (done : declareGraph [] [] 1 graph = .ok declared) (drawn : graph.statements = .ok statements)
    {number target : Nat} :
    .edge number target true ∈ statements ↔
      ∃ place body node input outer, graph.within? place.reverse = some body ∧
        node ∈ body.nodes ∧ node.kind ≠ .loop ∧ graph.boundTo? place node.id = none ∧
        declared.marks.lookup (place, node.id) = some (.node target) ∧ input ∈ node.inputs ∧
        graph.boundTo? place input = some outer ∧
        declared.marks.lookup (place.tail, outer) = some (.node number) := by
  obtain ⟨edges, made, isEdge⟩ := exists_edges declares distinct done
  cases drawn.symm.trans made
  rw [List.mem_append, List.mem_append, isEdge]
  constructor
  · intro either
    rcases either with (early | edge) | late
    · exact absurd early declares.no_edge
    · obtain ⟨place, inner, node, number, stands, kind, free, marked, edge⟩ := edge
      obtain ⟨body, reached, member, rfl⟩ := (stands_iff distinct).mp stands
      obtain ⟨rfl, input, isInput, outer, bound, sourceMarked⟩ := mem_edgesInto.mp edge
      exact ⟨place, body, node, input, outer, reached, member, kind, boundTo?_eq_none.mpr free,
        marked, isInput, bound, sourceMarked⟩
    · exact absurd late drawExits_no_edge
  · intro reads
    obtain ⟨place, body, node, input, outer, reached, member, kind, free, marked, isInput, bound,
      sourceMarked⟩ := reads
    left
    right
    refine ⟨place, graph.bindingsAt place, node, target, ?_, kind, boundTo?_eq_none.mp free,
      marked, ?_⟩
    · exact (stands_iff distinct).mpr ⟨body, reached, member, rfl⟩
    · exact mem_edgesInto.mpr ⟨rfl, input, isInput, outer, bound, sourceMarked⟩

end Drawn

/-- Every well-formed graph can be drawn.  Where a node that is drawn in a loop body reads a
bound node, the value has a supplier outside, and if that is no loop node it is drawn too; the
dotted edge from the supplier to the reader is there exactly when the source of the binding
is not bound in its turn. -/
theorem dotted_edge_drawn_iff (formed : graph.WellFormed) :
    ∃ declared statements, declareGraph [] [] 1 graph = .ok declared ∧
      graph.statements = .ok statements ∧
      ∀ position body node input source, graph.within? position.reverse = some body →
        node ∈ body.nodes → node.kind ≠ .loop → graph.boundTo? position node.id = none →
        input ∈ node.inputs → graph.boundTo? position input = some source →
        ∃ holder supply, graph.within? (graph.supplier position input).1.reverse = some holder ∧
          holder.find? (graph.supplier position input).2 = some supply ∧
          graph.boundTo? (graph.supplier position input).1 (graph.supplier position input).2 =
            none ∧
          (supply.kind ≠ .loop →
            ∃ number target,
              declared.marks.lookup (graph.supplier position input) = some (.node number) ∧
              declared.marks.lookup (position, node.id) = some (.node target) ∧
              (.edge number target true ∈ statements ↔
                graph.boundTo? position.tail source = none)) := by
  have evaluable := formed.formed.evaluable
  have distinct := formed.distinct
  obtain ⟨declared, done, declares⟩ :=
    exists_declared distinct (evaluable.mono fun _ inBody => inBody.carried)
  obtain ⟨edges, drawn, _⟩ := exists_edges declares distinct done
  refine ⟨declared, _, done, drawn, ?_⟩
  intro position body node input source reached member kind free isInput bound
  have present : input ∈ body.ids :=
    (evaluable _ _ reached).linked node member input (node.inputs_subset_dependencies isInput)
  obtain ⟨holder, supply, outside, supplies, unbound⟩ := exists_supplier evaluable reached present
  refine ⟨holder, supply, outside, supplies, unbound, ?_⟩
  intro supplyKind
  obtain ⟨number, numbered⟩ := exists_drawn declares distinct outside supplies supplyKind unbound
  have found := find?_of_mem (distinct _ _ reached) member
  obtain ⟨target, targeted⟩ := exists_drawn declares distinct reached found kind free
  refine ⟨number, target, numbered, targeted, ?_⟩
  rw [mem_statements declares distinct done drawn]
  constructor
  · intro edge
    obtain ⟨place, _, reader, _, outer, _, _, _, _, readerMarked, _, _, outerMarked⟩ := edge
    -- Numbers tell marks apart, so the edge is into the reader and comes from the supplier.
    have sameReader :=
      declares.mark_unique (mem_of_lookup readerMarked) (mem_of_lookup targeted) rfl
    have sameSupply := declares.mark_unique (mem_of_lookup outerMarked) (mem_of_lookup numbered) rfl
    have samePlace : place = position := congrArg (fun entry => entry.1.1) sameReader
    have oneOut : place.tail = (graph.supplier position input).1 :=
      congrArg (fun entry => entry.1.1) sameSupply
    cases again : graph.boundTo? position.tail source with
    | none => rfl
    | some further =>
        have shorter := supplier_length_lt again
        rw [← supplier_of_bound bound, ← oneOut, samePlace] at shorter
        exact absurd shorter (Nat.lt_irrefl _)
  · intro direct
    rw [supplier_of_bound bound, supplier_of_free direct] at numbered
    exact ⟨position, body, node, input, source, reached, member, kind, free, targeted, isInput,
      bound, numbered⟩

end Graph

/-- The sum of the constants is passed into the loop by one binding, so the edge is there. -/
theorem tripling_edge_drawn :
    ∃ statements, tripling.statements = .ok statements ∧ .edge 3 5 true ∈ statements := by
  obtain ⟨declared, statements, done, drawn, edges⟩ :=
    Graph.dotted_edge_drawn_iff tripling_wellFormed
  obtain ⟨holder, supply, outside, supplies, _, marked⟩ := edges [3] triplingBody
    ⟨1, .call, .text "+", [0, 0, 0], .null⟩ 0 2 rfl (by simp [triplingBody]) (by simp) rfl
    (by simp) rfl
  cases outside
  cases supplies
  obtain ⟨number, target, numbered, targeted, edge⟩ := marked (by simp)
  cases done
  cases numbered
  cases targeted
  exact ⟨statements, drawn, edge.mpr rfl⟩

/-- A body that takes the sine of a bound value. -/
def relayedInner : Graph :=
  ⟨[⟨0, .external, .text "x", [], .null⟩, ⟨1, .call, .text "sin", [0], .null⟩], [], 2⟩

/-- A body that passes a bound value on to another loop. -/
def relayedMiddle : Graph :=
  ⟨[⟨0, .external, .text "x", [], .null⟩,
    ⟨1, .loop, .loop ⟨1, "j", relayedInner, [(0, 0)]⟩, [], .null⟩], [], 2⟩

/-- A constant that is passed through one loop into another. -/
def relayed : Graph :=
  ⟨[⟨0, .constant, .int 1, [], .null⟩,
    ⟨1, .loop, .loop ⟨0, "i", relayedMiddle, [(0, 0)]⟩, [], .null⟩], [], 2⟩

theorem everywhere_relayed {property : Graph → Prop} (outer : property relayed)
    (middle : property relayedMiddle) (inner : property relayedInner) :
    relayed.Everywhere property := by
  have middleEverywhere : relayedMiddle.Everywhere property :=
    Graph.everywhere_of_body middle inner
      (by simp [relayedMiddle, Node.loop?, Value.loop?])
      (by simp [relayedInner, Node.loop?])
  have bodies : ∀ node ∈ relayed.nodes, ∀ loop, node.loop? = some loop →
      loop.body = relayedMiddle := by
    simp [relayed, Node.loop?, Value.loop?]
  refine Graph.everywhere_of_bodies outer fun node member loop runs => ?_
  rw [bodies node member loop runs]
  exact middleEverywhere

theorem relayed_wellFormed : relayed.WellFormed where
  valid := rfl
  distinct := everywhere_relayed (by decide) (by decide) (by decide)
  acyclic := by
    have ranked : relayed.RankedBy Int.toNat := by
      simp [Graph.RankedBy, relayed, Node.dependencies]
    have middleRanked : relayedMiddle.RankedBy Int.toNat := by
      simp [Graph.RankedBy, relayedMiddle, Node.dependencies]
    have innerRanked : relayedInner.RankedBy Int.toNat := by
      simp [Graph.RankedBy, relayedInner, Node.dependencies]
    exact everywhere_relayed ranked.acyclic middleRanked.acyclic innerRanked.acyclic
  loops := everywhere_relayed (by simp [relayed]) (by simp [relayedMiddle])
    (by simp [relayedInner])
  externalKeys := everywhere_relayed (by simp [relayed, relayedMiddle])
    (by simp [relayedMiddle, relayedInner]) (by simp [relayedInner])

/-- The sine has its value from the constant, through two bindings.  Both are drawn, and
there is no edge between them. -/
theorem relayed_edge_missing :
    relayed.WellFormed ∧ relayed.within? [1, 1] = some relayedInner ∧
    relayed.boundTo? [1, 1] 1 = none ∧ relayed.boundTo? [1, 1] 0 = some 0 ∧
    relayed.supplier [1, 1] 0 = ([], 0) ∧
    ∃ declared statements, declareGraph [] [] 1 relayed = .ok declared ∧
      relayed.statements = .ok statements ∧
      declared.marks.lookup ([], 0) = some (.node 1) ∧
      declared.marks.lookup ([1, 1], 1) = some (.node 4) ∧
      .edge 1 4 true ∉ statements := by
  refine ⟨relayed_wellFormed, rfl, rfl, rfl, rfl, _, _, rfl, rfl, rfl, rfl, ?_⟩
  decide

end FlowGraph

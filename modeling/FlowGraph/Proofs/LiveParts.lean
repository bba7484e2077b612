import FlowGraph.Proofs.FixedPoints
import Mathlib.Order.Bounds.Basic

/-!
# Pruning leaves what the exits need

In a graph and in every body inside it, pruning leaves the least set of nodes that holds
the exits and, with a node, all that the node depends on.  A loop depends on the sources
of its bindings, and a binding goes when the body loses the node that it starts from.  So
what a graph needs is settled after its bodies.  Nothing in this rules out cycles.
-/

namespace FlowGraph

/-- The loop with another body, and with the bindings that start from nodes of that. -/
def Loop.NarrowsTo (loop changed : Loop) : Prop :=
  changed =
    { loop with
      body := changed.body
      bindings := loop.bindings.filter fun binding => changed.body.contains binding.1 }

theorem Loop.PrunedTo.narrowsTo {loop changed : Loop} (pruned : loop.PrunedTo changed) :
    loop.NarrowsTo changed := by
  obtain ⟨tag, index, body, bindings⟩ := changed
  have sameTag : tag = loop.tag := pruned.tag
  have sameIndex : index = loop.index := pruned.index
  have sameBindings : bindings = remainingBindings body loop.bindings := pruned.bindings
  subst sameTag sameIndex sameBindings
  rfl

namespace Graph

/-- A set that holds the exits and, with a node, all that the node depends on. -/
def Supports (graph : Graph) (part : Set NodeId) : Prop :=
  (∀ exit ∈ graph.exits, exit.2 ∈ part) ∧
    ∀ node ∈ graph.nodes, node.id ∈ part → ∀ id ∈ node.dependencies, id ∈ part

/-- The nodes that are left of a graph are those that its exits need.  They stand in the
order that they had, and they are what they were, but for their loops. -/
structure NarrowsTo (graph left : Graph) : Prop where
  least : IsLeast { part | left.Supports part } { id | id ∈ left.ids }
  survivors : List.Forall₂ (Node.Revised Loop.NarrowsTo)
    (graph.nodes.filter fun node => left.contains node.id) left.nodes
  exits : left.exits = graph.exits
  nextId : left.nextId = graph.nextId

variable {graph pruned : Graph} {count : Nat}

/-- Where an exit leads to every node, the exits need them all. -/
theorem isLeast_of_live
    (linked : ∀ node ∈ graph.nodes, ∀ id ∈ node.dependencies, id ∈ graph.ids)
    (exits : ∀ exit ∈ graph.exits, exit.2 ∈ graph.ids) (live : graph.Live) :
    IsLeast { part | graph.Supports part } { id | id ∈ graph.ids } := by
  refine ⟨⟨exits, fun node member _ => linked node member⟩, ?_⟩
  intro part supports id present
  obtain ⟨exit, isExit, path⟩ := live id present
  apply holds_of_path supports.2 path
  exact supports.1 exit isExit

/-- Nodes are dropped from the revised ones by number, so those that stay are the
revised ones of those that stay. -/
theorem survivors_of_pruned (done : graph.pruned = .ok (pruned, count)) :
    List.Forall₂ (Node.Revised Loop.PrunedTo)
      (graph.nodes.filter fun node => pruned.contains node.id) pruned.nodes := by
  obtain ⟨nodes, inner, dropped, bodies, levelDone, rfl⟩ := pruned_eq_ok_iff.mp done
  obtain ⟨live, searched, ends⟩ := bind_eq_ok.mp levelDone
  cases ends
  have kept := fun {id} => @mem_ids_filter _ _ (closureOf_ancestors searched).present id
  refine List.rel_filter ?_ (pruneBodies_revised bodies)
  intro node other revised
  beta_reduce
  rw [contains_iff, List.contains_iff_mem, revised.id_eq]
  exact kept

theorem narrowsTo_of_pruned (distinct : graph.ids.Nodup)
    (done : graph.pruned = .ok (pruned, count)) : graph.NarrowsTo pruned := by
  have prunes := prunesTo_of_distinct distinct done
  refine ⟨?_, ?_, prunes.exits, prunes.nextId⟩
  · apply isLeast_of_live prunes.linked
    · rw [prunes.exits]
      exact prunes.kept
    · exact live_of_pruned distinct done
  · refine (survivors_of_pruned done).imp fun node other revised => ?_
    exact revised.mono fun _ _ => Loop.PrunedTo.narrowsTo

/-- What is left in a body is what pruning leaves of that body. -/
theorem exists_within?_of_pruned {path : List NodeId} {left : Graph}
    (distinct : graph.Everywhere fun body => body.ids.Nodup)
    (done : graph.pruned = .ok (pruned, count)) (reached : pruned.within? path = some left) :
    ∃ body inner, graph.within? path = some body ∧ body.pruned = .ok (left, inner) := by
  induction path generalizing graph pruned count with
  | nil =>
      cases reached
      exact ⟨graph, count, rfl, done⟩
  | cons id path induction =>
      obtain ⟨other, changed, foundOther, runsOther, deeper⟩ := within?_cons.mp reached
      have prunes := prunesTo_of_distinct distinct.here done
      obtain ⟨node, found, revised⟩ := prunes.origins id other foundOther
      obtain ⟨loop, runs, ⟨_, bodyDone⟩, _⟩ := revised.exists_origin runsOther
      obtain ⟨body, inner, inside, leaves⟩ := induction (distinct.body found runs) bodyDone deeper
      exact ⟨body, inner, within?_cons.mpr ⟨node, loop, found, runs, inside⟩, leaves⟩

/-- A pruned graph has the nodes that its own references lead to. -/
theorem Consistent.of_pruned (consistent : graph.Consistent)
    (done : graph.pruned = .ok (pruned, count)) : pruned.Consistent := by
  have prunes := prunesTo_of_distinct consistent.distinct done
  have distinct := prunes.ids.nodup consistent.distinct
  have origin : ∀ other ∈ pruned.nodes, ∃ node ∈ graph.nodes,
      node.Revised Loop.PrunedTo other := by
    intro other member
    obtain ⟨node, found, revised⟩ := prunes.origins _ other (find?_of_mem distinct member)
    exact ⟨node, (mem_of_find? found).1, revised⟩
  refine
    { distinct := distinct
      linked := prunes.linked
      exits := prunes.exits ▸ prunes.kept
      carried := ?_
      keys := ?_
      plain := ?_ }
  · intro other member kind
    obtain ⟨node, inside, revised⟩ := origin other member
    exact revised.resembles.exists_content (consistent.carried node inside) kind
  · intro other member changed runs binding bound
    obtain ⟨node, _, revised⟩ := origin other member
    obtain ⟨loop, _, related⟩ := revised.exists_origin runs
    exact (related.mem_bindings.mp bound).2
  · intro other member changed content
    obtain ⟨node, inside, revised⟩ := origin other member
    exact revised.resembles.kind_of_content (consistent.plain node inside) content

/-- Pruning leaves of every graph of a valid nest what its exits need, and pruning that
again changes nothing. -/
theorem prune_leaves_what_exits_need (valid : graph.validate = .ok ())
    (distinct : graph.Everywhere fun body => body.ids.Nodup)
    (loops : graph.Everywhere fun body =>
      ∀ node ∈ body.nodes, node.kind = .loop ↔ ∃ loop, node.content = .loop loop) :
    (∃ count, graph.prune.answer = .ok count) ∧
    (∀ path left, graph.prune.graph.within? path = some left →
      ∃ body, graph.within? path = some body ∧ body.NarrowsTo left) ∧
    graph.prune.graph.validate = .ok () ∧
    graph.prune.graph.prune = ⟨graph.prune.graph, .ok 0⟩ := by
  have consistent := consistent_of_valid valid distinct loops
  obtain ⟨pruned, count, done⟩ := pruned_succeeds (consistent.mono fun _ here => here.toClosed)
  have result : graph.prune = ⟨pruned, .ok count⟩ := by
    simp only [prune_eq, done]
  rw [result]
  have consistentLeft : pruned.Everywhere Consistent := by
    intro path left reached
    obtain ⟨body, inner, inside, leaves⟩ := exists_within?_of_pruned distinct done reached
    exact (consistent path body inside).of_pruned leaves
  have pared : pruned.Everywhere Pared := by
    intro path left reached
    obtain ⟨body, inner, inside, leaves⟩ := exists_within?_of_pruned distinct done reached
    have here := consistentLeft path left reached
    exact ⟨here.toClosed, here.keys, live_of_pruned (distinct path body inside) leaves⟩
  refine ⟨⟨count, rfl⟩, ?_, valid_of_consistent consistentLeft, ?_⟩
  · intro path left reached
    obtain ⟨body, inner, inside, leaves⟩ := exists_within?_of_pruned distinct done reached
    exact ⟨body, inside, narrowsTo_of_pruned (distinct path body inside) leaves⟩
  · simp only [prune_eq, pruned_unchanged pared]

end Graph

/-- A loop that waits for a call of itself.  Of the nodes that its bindings start from,
the body needs only one. -/
def waitingLoop : Graph :=
  ⟨[⟨0, .constant, .int 1, [], .null⟩,
      ⟨1, .loop, .loop ⟨0, "i", shadowingBody, [(0, 0), (1, 2)]⟩, [3], .null⟩,
      ⟨2, .constant, .int 2, [], .null⟩,
      ⟨3, .call, .text "f", [1], .null⟩],
    [("loop", 1)], 4⟩

/-- The body loses a node, and the graph the constant that was bound to it.  The loop and
the call stay with each other. -/
theorem pruned_waitingLoop_least :
    waitingLoop.prune.graph.ids = [1, 2, 3] ∧
      IsLeast { part | waitingLoop.prune.graph.Supports part }
        { id | id ∈ waitingLoop.prune.graph.ids } ∧
      waitingLoop.prune.graph.validate = .ok () ∧
      waitingLoop.prune.graph.prune = ⟨waitingLoop.prune.graph, .ok 0⟩ := by
  have everywhere : ∀ {property : Graph → Prop}, property waitingLoop →
      property shadowingBody → waitingLoop.Everywhere property := fun here inside =>
    Graph.everywhere_of_body here inside (by simp [waitingLoop, Node.loop?, Value.loop?])
      (by simp [shadowingBody, Node.loop?])
  obtain ⟨_, narrows, valid, again⟩ := @Graph.prune_leaves_what_exits_need waitingLoop rfl
    (everywhere (by decide) (by decide))
    (everywhere (by simp [waitingLoop]) (by simp [shadowingBody]))
  obtain ⟨_, _, narrowed⟩ := narrows [] _ rfl
  exact ⟨by cbv, narrowed.least, valid, again⟩

end FlowGraph

import FlowGraph.Proofs.Folding
import FlowGraph.Proofs.Totals

/-!
# Other orders of the nodes

Two graphs are the same but for the order of their nodes when the same numbers name the
same nodes, in every graph of the nest.  What depends on the nodes and not on their order is
the same in both.
-/

namespace FlowGraph

namespace Node

/-- The node with nothing in the body of its loop. -/
def hollow (node : Node) : Node :=
  match node.loop? with
  | some loop => { node with content := .loop { loop with body := Graph.empty } }
  | none => node

theorem hollow_eq_of_revised {node other : Node} {related : Loop → Loop → Prop}
    (same : ∀ loop changed, related loop changed →
      ({ changed with body := Graph.empty } : Loop) = { loop with body := Graph.empty })
    (revised : node.Revised related other) : other.hollow = node.hollow := by
  cases revised with
  | same => rfl
  | @loop loop changed runs relates =>
      have changedRuns : ({ node with content := .loop changed } : Node).loop? = some changed :=
        loop?_eq_some.mpr ⟨(loop?_eq_some.mp runs).1, rfl⟩
      simp only [hollow, runs, changedRuns, same loop changed relates]

theorem hollow_eq_of_scheduled {node other : Node}
    (revised : node.Revised Loop.ScheduledTo other) : other.hollow = node.hollow := by
  apply hollow_eq_of_revised _ revised
  intro loop changed scheduled
  rw [scheduled.tag, scheduled.index, scheduled.bindings]

end Node

namespace Graph

/-- The same graph but for the order of its nodes and the bodies of its loops. -/
structure SameLevel (graph other : Graph) : Prop where
  exits : other.exits = graph.exits
  nextId : other.nextId = graph.nextId
  ids : other.ids.Perm graph.ids
  nodes : ∀ id, (other.find? id).map Node.hollow = (graph.find? id).map Node.hollow

/-- The same graph but for the order of its nodes, at every depth. -/
def Rearranges (graph other : Graph) : Prop :=
  ∀ path, Option.Rel SameLevel (graph.within? path) (other.within? path)

theorem SameLevel.refl (graph : Graph) : graph.SameLevel graph :=
  ⟨rfl, rfl, .refl _, fun _ => rfl⟩

theorem Rearranges.refl (graph : Graph) : graph.Rearranges graph := by
  intro path
  cases graph.within? path with
  | none => exact .none
  | some body => exact .some (.refl body)

theorem Schedules.sameLevel {graph scheduled : Graph} (schedules : graph.Schedules scheduled) :
    graph.SameLevel scheduled where
  exits := schedules.exits
  nextId := schedules.nextId
  ids := schedules.ids
  nodes := by
    intro id
    have partners := schedules.nodes id
    generalize graph.find? id = first at partners
    generalize scheduled.find? id = second at partners
    cases partners with
    | none => rfl
    | some revised => rw [Option.map_some, Option.map_some, Node.hollow_eq_of_scheduled revised]

theorem rearranges_of_scheduled {graph scheduled : Graph}
    (distinct : graph.Everywhere fun body => body.ids.Nodup)
    (done : graph.scheduled = .ok scheduled) : graph.Rearranges scheduled :=
  within?_scheduled (fun _ _ distinct done => (schedules_of_scheduled distinct done).sameLevel)
    distinct done

end Graph

namespace Node

variable {node other : Node}

theorem hollow_of_plain (noLoop : node.loop? = none) : node.hollow = node := by
  simp [hollow, noLoop]

theorem hollow_of_loop {loop : Loop} (runs : node.loop? = some loop) :
    node.hollow = { node with content := .loop { loop with body := Graph.empty } } := by
  simp [hollow, runs]

theorem hollow_kind (node : Node) : node.hollow.kind = node.kind := by
  cases runs : node.loop? with
  | none => rw [hollow_of_plain runs]
  | some loop => rw [hollow_of_loop runs]

theorem hollow_inputs (node : Node) : node.hollow.inputs = node.inputs := by
  cases runs : node.loop? with
  | none => rw [hollow_of_plain runs]
  | some loop => rw [hollow_of_loop runs]

theorem hollow_dependencies (node : Node) : node.hollow.dependencies = node.dependencies := by
  cases runs : node.loop? with
  | none => rw [hollow_of_plain runs]
  | some loop =>
      have content := (loop?_eq_some.mp runs).2
      rw [hollow_of_loop runs]
      simp [dependencies, content]

theorem hollow_content (noLoop : node.kind ≠ .loop) : node.hollow.content = node.content := by
  rw [hollow_of_plain (loop?_eq_none_of_kind noLoop)]

section Alike

variable (alike : other.hollow = node.hollow)
include alike

theorem kind_eq_of_hollow : other.kind = node.kind := by
  rw [← other.hollow_kind, alike, node.hollow_kind]

theorem inputs_eq_of_hollow : other.inputs = node.inputs := by
  rw [← other.hollow_inputs, alike, node.hollow_inputs]

theorem dependencies_eq_of_hollow : other.dependencies = node.dependencies := by
  rw [← other.hollow_dependencies, alike, node.hollow_dependencies]

theorem content_eq_of_hollow (noLoop : node.kind ≠ .loop) : other.content = node.content := by
  have otherNoLoop : other.kind ≠ .loop := by rwa [kind_eq_of_hollow alike]
  rw [← hollow_content otherNoLoop, alike, hollow_content noLoop]

end Alike

theorem hollow_isLoop :
    (∃ loop, node.hollow.content = .loop loop) ↔ ∃ loop, node.content = .loop loop := by
  cases runs : node.loop? with
  | none => rw [hollow_of_plain runs]
  | some loop =>
      rw [hollow_of_loop runs]
      exact iff_of_true ⟨_, rfl⟩ ⟨loop, (loop?_eq_some.mp runs).2⟩

end Node

namespace Graph

namespace SameLevel

variable {graph other : Graph} (same : graph.SameLevel other)
include same

theorem symm : other.SameLevel graph :=
  ⟨same.exits.symm, same.nextId.symm, same.ids.symm, fun id => (same.nodes id).symm⟩

theorem mem_ids {id : NodeId} : id ∈ other.ids ↔ id ∈ graph.ids :=
  same.ids.mem_iff

theorem exists_alike {id : NodeId} {node : Node} (found : graph.find? id = some node) :
    ∃ alike, other.find? id = some alike ∧ alike.hollow = node.hollow := by
  have equal := same.nodes id
  rw [found, Option.map_some] at equal
  exact Option.map_eq_some_iff.mp equal

theorem numbered (numbered : graph.Numbered) : other.Numbered := by
  intro id present
  rw [same.nextId]
  exact numbered id (same.mem_ids.mp present)

theorem exact (exact : graph.Exact) : other.Exact := by
  have distinct : other.ids.Nodup := same.ids.nodup_iff.mpr exact.distinct
  have origin : ∀ {alike : Node}, alike ∈ other.nodes →
      ∃ node ∈ graph.nodes, node.hollow = alike.hollow := by
    intro alike member
    obtain ⟨node, found, hollow⟩ := same.symm.exists_alike (find?_of_mem distinct member)
    exact ⟨node, (mem_of_find? found).1, hollow⟩
  refine ⟨⟨distinct, ?_, ?_, ?_⟩, ?_⟩
  · intro alike member id needed
    obtain ⟨node, inside, hollow⟩ := origin member
    rw [← Node.dependencies_eq_of_hollow hollow] at needed
    exact same.mem_ids.mpr (exact.linked node inside id needed)
  · intro exit isExit
    rw [same.exits] at isExit
    exact same.mem_ids.mpr (exact.exits exit isExit)
  · intro alike member kind
    obtain ⟨node, inside, hollow⟩ := origin member
    have held := exact.carried node inside ((Node.kind_eq_of_hollow hollow).trans kind)
    exact Node.hollow_isLoop.mp (hollow ▸ Node.hollow_isLoop.mpr held)
  · intro alike member loop content
    obtain ⟨node, inside, hollow⟩ := origin member
    have held : ∃ loop, node.content = .loop loop :=
      Node.hollow_isLoop.mp (hollow.symm ▸ Node.hollow_isLoop.mpr ⟨loop, content⟩)
    obtain ⟨before, contentBefore⟩ := held
    rw [← Node.kind_eq_of_hollow hollow]
    exact exact.plain node inside before contentBefore

end SameLevel

namespace Rearranges

variable {graph other : Graph} (rearranges : graph.Rearranges other)
include rearranges

theorem here : graph.SameLevel other := by
  have level := rearranges []
  cases level with
  | some same => exact same

theorem loops (id : NodeId) :
    Option.Rel (fun loop changed : Loop => loop.body.Rearranges changed.body)
      ((graph.find? id).bind Node.loop?) ((other.find? id).bind Node.loop?) := by
  have inside := fun path => rearranges (id :: path)
  simp only [within?] at inside
  cases before : (graph.find? id).bind Node.loop? with
  | none =>
      cases after : (other.find? id).bind Node.loop? with
      | none => exact .none
      | some changed =>
          have outside := inside []
          rw [before, after] at outside
          cases outside
  | some loop =>
      cases after : (other.find? id).bind Node.loop? with
      | none =>
          have outside := inside []
          rw [before, after] at outside
          cases outside
      | some changed =>
          rw [before, after] at inside
          exact .some inside

/-- A property that does not depend on the order of the nodes holds of both. -/
theorem everywhere {property : Graph → Prop}
    (transfer : ∀ left right, left.SameLevel right → property left → property right)
    (holds : graph.Everywhere property) : other.Everywhere property := by
  intro path level reached
  obtain ⟨body, before, same⟩ := exists_partnered (rearranges path) reached
  exact transfer body level same (holds path body before)

/-- The totals of a measure that does not depend on the order of the nodes are the same. -/
theorem sum_nest {measure : Graph → Nat}
    (invariant : ∀ left right, left.SameLevel right → measure right = measure left)
    (distinct : graph.Everywhere fun body => body.ids.Nodup) :
    (other.nest.map measure).sum = (graph.nest.map measure).sum := by
  induction graph using bodyInduction generalizing other with
  | step graph induction =>
      have otherDistinct : other.ids.Nodup := rearranges.here.ids.nodup_iff.mpr distinct.here
      rw [Graph.sum_nest, Graph.sum_nest, invariant graph other rearranges.here]
      congr 1
      apply sum_nestOfNodes_congr distinct.here otherDistinct
      intro id
      apply rel_mono (rearranges.loops id)
      intro loop changed found _ bodies
      obtain ⟨node, foundNode, runs⟩ := Option.bind_eq_some_iff.mp found
      exact induction node (mem_of_find? foundNode).1 loop runs bodies
        (distinct.body foundNode runs)

end Rearranges

/-- Every permutation of the nodes is another order. -/
theorem rearranges_of_perm {nodes others : List Node} {exits : List (String × NodeId)}
    {nextId : NodeId} (distinct : (nodes.map Node.id).Nodup) (perm : others.Perm nodes) :
    (⟨nodes, exits, nextId⟩ : Graph).Rearranges ⟨others, exits, nextId⟩ := by
  have otherDistinct : (others.map Node.id).Nodup := (perm.map Node.id).nodup_iff.mpr distinct
  have sameFound : ∀ id, (⟨others, exits, nextId⟩ : Graph).find? id =
      (⟨nodes, exits, nextId⟩ : Graph).find? id := by
    intro id
    apply Option.ext
    intro node
    constructor
    · intro found
      obtain ⟨member, rfl⟩ := mem_of_find? found
      exact FlowGraph.find?_of_mem distinct (perm.mem_iff.mp member)
    · intro found
      obtain ⟨member, rfl⟩ := mem_of_find? found
      exact FlowGraph.find?_of_mem otherDistinct (perm.mem_iff.mpr member)
  intro path
  cases path with
  | nil => exact .some ⟨rfl, rfl, perm.map Node.id, fun id => by rw [sameFound id]⟩
  | cons id path =>
      rw [within?, within?, sameFound id]
      cases ((⟨nodes, exits, nextId⟩ : Graph).find? id).bind Node.loop? with
      | none => exact .none
      | some loop => exact Rearranges.refl loop.body path

end Graph

end FlowGraph

import FlowGraph.Graph.Ancestors
import Mathlib.Data.List.Forall2

/-!
# Nested graphs

Nodes are addressed by their number, and the graphs inside a graph by the path of
loop nodes that leads to them.  A property that holds at every depth is stated
over these paths; a proof that follows the nesting uses `Graph.bodyInduction`.
-/

namespace FlowGraph

namespace Node

/-- The loop that a loop node runs. -/
def loop? (node : Node) : Option Loop :=
  match node.kind with
  | .loop => node.content.loop?
  | _ => none

theorem loop?_eq_some {node : Node} {loop : Loop} :
    node.loop? = some loop ↔ node.kind = .loop ∧ node.content = .loop loop := by
  constructor
  · intro found
    unfold loop? at found
    split at found
    · rename_i kind
      refine ⟨kind, ?_⟩
      cases content : node.content <;> simp_all [Value.loop?]
    · cases found
  · rintro ⟨kind, content⟩
    simp [loop?, kind, content, Value.loop?]

theorem loop?_eq_none_of_kind {node : Node} (other : node.kind ≠ .loop) :
    node.loop? = none := by
  cases found : node.loop? with
  | none => rfl
  | some loop => exact absurd (loop?_eq_some.mp found).1 other

theorem dependencies_of_content {node : Node} {loop : Loop} (content : node.content = .loop loop)
    {id : NodeId} :
    id ∈ node.dependencies ↔ id ∈ node.inputs ∨ id ∈ loop.bindings.map Prod.snd := by
  by_cases input : id ∈ node.inputs <;>
    simp [dependencies, content, input]

theorem dependencies_of_loop {node : Node} {loop : Loop} (runs : node.loop? = some loop)
    {id : NodeId} :
    id ∈ node.dependencies ↔ id ∈ node.inputs ∨ id ∈ loop.bindings.map Prod.snd :=
  dependencies_of_content (loop?_eq_some.mp runs).2

theorem dependencies_of_plain {node : Node} (plain : ∀ loop, node.content ≠ .loop loop) :
    node.dependencies = node.inputs := by
  unfold dependencies
  split
  · rename_i loop content
    exact absurd content (plain loop)
  · rfl

theorem inputs_subset_dependencies (node : Node) : node.inputs ⊆ node.dependencies := by
  intro id member
  unfold dependencies
  split
  · exact List.mem_append_left _ member
  · exact member

theorem source_mem_dependencies {node : Node} {loop : Loop} (runs : node.loop? = some loop)
    {binding : NodeId × NodeId} (member : binding ∈ loop.bindings) :
    binding.2 ∈ node.dependencies :=
  (dependencies_of_loop runs).mpr (.inr (List.mem_map_of_mem member))

end Node

namespace Graph

theorem mem_ids {graph : Graph} {id : NodeId} :
    id ∈ graph.ids ↔ ∃ node ∈ graph.nodes, node.id = id :=
  List.mem_map

theorem contains_iff {graph : Graph} {id : NodeId} :
    graph.contains id = true ↔ id ∈ graph.ids := by
  simp [contains, ids]

theorem find?_eq_none {graph : Graph} {id : NodeId} :
    graph.find? id = none ↔ id ∉ graph.ids := by
  simp [find?, ids]

theorem mem_ids_of_find? {graph : Graph} {id : NodeId} {node : Node}
    (found : graph.find? id = some node) : id ∈ graph.ids :=
  mem_ids.mpr ⟨node, mem_of_find? found⟩

theorem exists_find? {graph : Graph} {id : NodeId} (member : id ∈ graph.ids) :
    ∃ node, graph.find? id = some node := by
  cases found : graph.find? id with
  | none => exact absurd member (find?_eq_none.mp found)
  | some node => exact ⟨node, rfl⟩

end Graph

/-- Different nodes of a list have different numbers, so a node is found under
its own number. -/
theorem find?_of_mem {nodes : List Node} (distinct : (nodes.map Node.id).Nodup)
    {node : Node} (member : node ∈ nodes) :
    (nodes.find? fun found => found.id == node.id) = some node := by
  induction nodes with
  | nil => cases member
  | cons first rest induction =>
      rw [List.map_cons, List.nodup_cons] at distinct
      rcases List.mem_cons.mp member with same | later
      · subst same
        simp
      · have different : first.id ≠ node.id := by
          intro equal
          exact distinct.1 (equal ▸ List.mem_map_of_mem later)
        rw [List.find?_cons_of_neg (by simpa using different)]
        exact induction distinct.2 later

section Tables

variable {κ α : Type} [BEq κ] [LawfulBEq κ] {table : List (κ × α)} {key : κ}

theorem mem_of_lookup {found : α} (known : table.lookup key = some found) :
    (key, found) ∈ table := by
  obtain ⟨before, after, split, _⟩ := List.lookup_eq_some_iff.mp known
  simp [split]

theorem exists_lookup (known : key ∈ table.map Prod.fst) :
    ∃ found, table.lookup key = some found := by
  cases found : table.lookup key with
  | some value => exact ⟨value, rfl⟩
  | none =>
      obtain ⟨entry, member, rfl⟩ := List.mem_map.mp known
      simpa using List.lookup_eq_none_iff.mp found entry member

/-- In a table without repeated keys an entry is found under its key. -/
theorem lookup_of_mem {value : α} (distinct : (table.map Prod.fst).Nodup)
    (entry : (key, value) ∈ table) : table.lookup key = some value := by
  induction table with
  | nil => cases entry
  | cons first rest induction =>
      obtain ⟨other, held⟩ := first
      obtain ⟨notAgain, restDistinct⟩ := List.nodup_cons.mp distinct
      rcases List.mem_cons.mp entry with same | later
      · cases same
        simp
      · have different : key ≠ other := by
          intro again
          subst again
          exact notAgain (List.mem_map.mpr ⟨_, later, rfl⟩)
        rw [List.lookup_cons, beq_eq_false_iff_ne.mpr different]
        exact induction restDistinct later

end Tables

namespace Graph

theorem find?_of_mem {graph : Graph} (distinct : graph.ids.Nodup) {node : Node}
    (member : node ∈ graph.nodes) : graph.find? node.id = some node :=
  FlowGraph.find?_of_mem distinct member

/-- The graph that a path of loop nodes leads to. -/
def within? : Graph → List NodeId → Option Graph
  | graph, [] => some graph
  | graph, id :: path =>
      match (graph.find? id).bind Node.loop? with
      | some loop => loop.body.within? path
      | none => none

theorem within?_cons {graph : Graph} {id : NodeId} {path : List NodeId} {body : Graph} :
    graph.within? (id :: path) = some body ↔
      ∃ node loop, graph.find? id = some node ∧ node.loop? = some loop ∧
        loop.body.within? path = some body := by
  constructor
  · intro reached
    rw [within?] at reached
    split at reached
    · rename_i loop found
      obtain ⟨node, here, runs⟩ := Option.bind_eq_some_iff.mp found
      exact ⟨node, loop, here, runs, reached⟩
    · cases reached
  · rintro ⟨node, loop, here, runs, reached⟩
    simp [within?, here, runs, reached]

theorem within?_append {graph body : Graph} {path : List NodeId}
    (reached : graph.within? path = some body) (deeper : List NodeId) :
    graph.within? (path ++ deeper) = body.within? deeper := by
  induction path generalizing graph with
  | nil =>
      cases reached
      rfl
  | cons id path induction =>
      obtain ⟨node, loop, found, runs, inside⟩ := within?_cons.mp reached
      simpa [within?, found, runs] using induction inside

/-- The result of a node at the end of a path. -/
def resultAt (graph : Graph) (path : List NodeId) (id : NodeId) : Option Value :=
  (graph.within? path).bind fun body => (body.find? id).map Node.result

theorem resultAt_eq_some {graph : Graph} {path : List NodeId} {id : NodeId} {value : Value} :
    graph.resultAt path id = some value ↔
      ∃ body node, graph.within? path = some body ∧ body.find? id = some node ∧
        node.result = value := by
  simp [resultAt, Option.bind_eq_some_iff]

theorem node_eq_ok {graph : Graph} {id : NodeId} {node : Node} :
    graph.node id = .ok node ↔ graph.find? id = some node := by
  unfold Graph.node
  split
  · rename_i found
    simp [found]
  · rename_i found
    simp [found]

/-- A property of the graph and of the bodies of its loops at every depth. -/
def Everywhere (property : Graph → Prop) (graph : Graph) : Prop :=
  ∀ path body, graph.within? path = some body → property body

theorem everywhere_iff {property : Graph → Prop} {graph : Graph} :
    graph.Everywhere property ↔ property graph ∧
      ∀ id node loop, graph.find? id = some node → node.loop? = some loop →
        loop.body.Everywhere property := by
  constructor
  · intro everywhere
    refine ⟨everywhere [] graph rfl, ?_⟩
    intro id node loop found runs path body reached
    exact everywhere (id :: path) body (within?_cons.mpr ⟨node, loop, found, runs, reached⟩)
  · rintro ⟨here, below⟩ path body reached
    cases path with
    | nil =>
        cases reached
        exact here
    | cons id path =>
        obtain ⟨node, loop, found, runs, inside⟩ := within?_cons.mp reached
        exact below id node loop found runs path body inside

namespace Everywhere

variable {property other : Graph → Prop} {graph : Graph}

theorem here (everywhere : graph.Everywhere property) : property graph :=
  (everywhere_iff.mp everywhere).1

theorem body (everywhere : graph.Everywhere property) {id : NodeId} {node : Node} {loop : Loop}
    (found : graph.find? id = some node) (runs : node.loop? = some loop) :
    loop.body.Everywhere property :=
  (everywhere_iff.mp everywhere).2 id node loop found runs

theorem inside (everywhere : graph.Everywhere property) {path : List NodeId} {body : Graph}
    (reached : graph.within? path = some body) : body.Everywhere property :=
  fun deeper found entered =>
    everywhere (path ++ deeper) found ((within?_append reached deeper).trans entered)

theorem mono (everywhere : graph.Everywhere property)
    (implies : ∀ body, property body → other body) : graph.Everywhere other :=
  fun path body reached => implies body (everywhere path body reached)

end Everywhere

theorem within?_of_innermost {graph body : Graph} {path : List NodeId}
    (innermost : ∀ node ∈ graph.nodes, node.loop? = none)
    (reached : graph.within? path = some body) : path = [] ∧ body = graph := by
  cases path with
  | nil =>
      cases reached
      exact ⟨rfl, rfl⟩
  | cons id path =>
      obtain ⟨node, loop, found, runs, _⟩ := within?_cons.mp reached
      cases (innermost node (mem_of_find? found).1).symm.trans runs

theorem everywhere_of_innermost {property : Graph → Prop} {graph : Graph}
    (innermost : ∀ node ∈ graph.nodes, node.loop? = none) (here : property graph) :
    graph.Everywhere property := by
  intro path level reached
  rw [(within?_of_innermost innermost reached).2]
  exact here

theorem everywhere_of_bodies {property : Graph → Prop} {graph : Graph} (here : property graph)
    (inside : ∀ node ∈ graph.nodes, ∀ loop, node.loop? = some loop →
      loop.body.Everywhere property) : graph.Everywhere property :=
  everywhere_iff.mpr ⟨here, fun _ node loop found runs =>
    inside node (mem_of_find? found).1 loop runs⟩

/-- A property of a graph whose loops all have the same body, and that body has no
loops. -/
theorem everywhere_of_body {property : Graph → Prop} {graph body : Graph}
    (here : property graph) (inside : property body)
    (bodies : ∀ node ∈ graph.nodes, ∀ loop, node.loop? = some loop → loop.body = body)
    (innermost : ∀ node ∈ body.nodes, node.loop? = none) : graph.Everywhere property := by
  refine everywhere_of_bodies here fun node member loop runs => ?_
  rw [bodies node member loop runs]
  exact everywhere_of_innermost innermost inside

theorem sizeOf_content_lt {graph : Graph} {node : Node} {loop : Loop}
    (member : node ∈ graph.nodes) (content : node.content = .loop loop) :
    sizeOf loop.body < sizeOf graph := by
  have inGraph := List.sizeOf_lt_of_mem member
  obtain ⟨nodes, exits, nextId⟩ := graph
  obtain ⟨id, kind, held, inputs, result⟩ := node
  obtain ⟨tag, index, body, bindings⟩ := loop
  cases content
  simp only [Node.mk.sizeOf_spec, Value.loop.sizeOf_spec, Loop.mk.sizeOf_spec] at inGraph
  simp only [Graph.mk.sizeOf_spec]
  omega

theorem sizeOf_body_lt {graph : Graph} {node : Node} {loop : Loop}
    (member : node ∈ graph.nodes) (runs : node.loop? = some loop) :
    sizeOf loop.body < sizeOf graph :=
  sizeOf_content_lt member (Node.loop?_eq_some.mp runs).2

/-- A property holds of all graphs when it passes from the bodies of the loops that
the nodes of a graph hold to the graph. -/
theorem contentInduction {motive : Graph → Prop}
    (step : ∀ graph : Graph,
      (∀ node ∈ graph.nodes, ∀ loop, node.content = .loop loop → motive loop.body) → motive graph)
    (graph : Graph) : motive graph :=
  step graph fun _ member _ content =>
    have := sizeOf_content_lt member content
    contentInduction step _
termination_by sizeOf graph

/-- A property holds of all graphs when it passes from the bodies of the loops of
a graph to the graph. -/
theorem bodyInduction {motive : Graph → Prop}
    (step : ∀ graph : Graph,
      (∀ node ∈ graph.nodes, ∀ loop, node.loop? = some loop → motive loop.body) → motive graph)
    (graph : Graph) : motive graph :=
  contentInduction (fun graph induction => step graph fun node member loop runs =>
    induction node member loop (Node.loop?_eq_some.mp runs).2) graph

end Graph

end FlowGraph

import FlowGraph.Proofs.Nesting

/-!
# Names and bindings

Which name an external node has, and which nodes a loop binds, decides which values
names have inside a loop.  Passes that change neither, at any depth, leave the
skeleton of a graph alone.
-/

namespace FlowGraph

namespace Graph

/-- The node of this number at the end of a path is external and has this name. -/
def NamesAt (graph : Graph) (path : List NodeId) (id : NodeId) (name : String) : Prop :=
  ∃ body node, graph.within? path = some body ∧ body.find? id = some node ∧
    node.kind = .external ∧ node.content.plain = name

/-- The loop node of this number at the end of a path binds a node of its body. -/
def BindsAt (graph : Graph) (path : List NodeId) (id key : NodeId) : Prop :=
  ∃ body node loop, graph.within? path = some body ∧ body.find? id = some node ∧
    node.loop? = some loop ∧ key ∈ loop.bindings.map Prod.fst

theorem namesAt_cons {graph : Graph} {id target : NodeId} {path : List NodeId} {name : String} :
    graph.NamesAt (id :: path) target name ↔
      ∃ node loop, graph.find? id = some node ∧ node.loop? = some loop ∧
        loop.body.NamesAt path target name := by
  constructor
  · rintro ⟨body, bound, reached, names⟩
    obtain ⟨node, loop, found, runs, deeper⟩ := within?_cons.mp reached
    exact ⟨node, loop, found, runs, body, bound, deeper, names⟩
  · rintro ⟨node, loop, found, runs, body, bound, deeper, names⟩
    exact ⟨body, bound, within?_cons.mpr ⟨node, loop, found, runs, deeper⟩, names⟩

theorem bindsAt_cons {graph : Graph} {id target key : NodeId} {path : List NodeId} :
    graph.BindsAt (id :: path) target key ↔
      ∃ node loop, graph.find? id = some node ∧ node.loop? = some loop ∧
        loop.body.BindsAt path target key := by
  constructor
  · rintro ⟨body, inner, held, reached, binds⟩
    obtain ⟨node, loop, found, runs, deeper⟩ := within?_cons.mp reached
    exact ⟨node, loop, found, runs, body, inner, held, deeper, binds⟩
  · rintro ⟨node, loop, found, runs, body, inner, held, deeper, binds⟩
    exact ⟨body, inner, held, within?_cons.mpr ⟨node, loop, found, runs, deeper⟩, binds⟩

section Inside

variable {graph : Graph} {id : NodeId} {node : Node} {loop : Loop}
  (found : graph.find? id = some node) (runs : node.loop? = some loop)
include found runs

theorem NamesAt.inside {path : List NodeId} {target : NodeId} {name : String}
    (names : graph.NamesAt (id :: path) target name) : loop.body.NamesAt path target name := by
  obtain ⟨held, heldLoop, foundHeld, runsHeld, inBody⟩ := namesAt_cons.mp names
  cases found.symm.trans foundHeld
  cases runs.symm.trans runsHeld
  exact inBody

theorem BindsAt.inside {path : List NodeId} {target key : NodeId}
    (binds : graph.BindsAt (id :: path) target key) : loop.body.BindsAt path target key := by
  obtain ⟨held, heldLoop, foundHeld, runsHeld, inBody⟩ := bindsAt_cons.mp binds
  cases found.symm.trans foundHeld
  cases runs.symm.trans runsHeld
  exact inBody

end Inside

/-- The names and bindings of a graph are those of another, too. -/
structure Embeds (graph other : Graph) : Prop where
  names : ∀ path id name, graph.NamesAt path id name → other.NamesAt path id name
  bindings : ∀ path id key, graph.BindsAt path id key → other.BindsAt path id key

namespace Embeds

variable {graph middle other : Graph}

theorem refl (graph : Graph) : graph.Embeds graph :=
  ⟨fun _ _ _ names => names, fun _ _ _ binds => binds⟩

theorem trans (first : graph.Embeds middle) (second : middle.Embeds other) : graph.Embeds other :=
  ⟨fun path id name names => second.names path id name (first.names path id name names),
    fun path id key binds => second.bindings path id key (first.bindings path id key binds)⟩

/-- Names and bindings are there again when external nodes and loops are, with bodies
of which this holds. -/
theorem of_nodes
    (externals : ∀ id node, graph.find? id = some node → node.kind = .external →
      ∃ changed, other.find? id = some changed ∧ changed.kind = .external ∧
        changed.content = node.content)
    (loops : ∀ id node loop, graph.find? id = some node → node.loop? = some loop →
      ∃ changedNode changed, other.find? id = some changedNode ∧
        changedNode.loop? = some changed ∧
        changed.bindings.map Prod.fst = loop.bindings.map Prod.fst ∧
        loop.body.Embeds changed.body) : graph.Embeds other := by
  constructor
  · intro path id name names
    cases path with
    | nil =>
        obtain ⟨_, node, ⟨⟩, found, external, rfl⟩ := names
        obtain ⟨changed, foundChanged, externalChanged, sameContent⟩ :=
          externals id node found external
        exact ⟨other, changed, rfl, foundChanged, externalChanged, by rw [sameContent]⟩
    | cons head path =>
        obtain ⟨node, loop, found, runs, deeper⟩ := namesAt_cons.mp names
        obtain ⟨changedNode, changed, foundChanged, runsChanged, _, embeds⟩ :=
          loops head node loop found runs
        exact namesAt_cons.mpr
          ⟨changedNode, changed, foundChanged, runsChanged, embeds.names path id name deeper⟩
  · intro path id key binds
    cases path with
    | nil =>
        obtain ⟨_, node, loop, ⟨⟩, found, runs, bound⟩ := binds
        obtain ⟨changedNode, changed, foundChanged, runsChanged, sameKeys, _⟩ :=
          loops id node loop found runs
        exact ⟨other, changedNode, changed, rfl, foundChanged, runsChanged, sameKeys ▸ bound⟩
    | cons head path =>
        obtain ⟨node, loop, found, runs, deeper⟩ := bindsAt_cons.mp binds
        obtain ⟨changedNode, changed, foundChanged, runsChanged, _, embeds⟩ :=
          loops head node loop found runs
        exact bindsAt_cons.mpr
          ⟨changedNode, changed, foundChanged, runsChanged, embeds.bindings path id key deeper⟩

end Embeds

/-- No binding takes a name that something else reads: when a loop binds an external
node, no other external node of the body has its name, and the external nodes of that
name in bodies further inside are bound by their own loops. -/
structure CaptureFree (graph : Graph) : Prop where
  body : ∀ path id key other name, graph.BindsAt path id key →
    graph.NamesAt (path ++ [id]) key name → graph.NamesAt (path ++ [id]) other name → other = key
  nested : ∀ path id key deeper last other name, graph.BindsAt path id key →
    graph.NamesAt (path ++ [id]) key name →
    graph.NamesAt (path ++ id :: deeper ++ [last]) other name →
    graph.BindsAt (path ++ id :: deeper) last other

theorem CaptureFree.of_embeds {graph other : Graph} (free : graph.CaptureFree)
    (embeds : graph.Embeds other) (embedsBack : other.Embeds graph) : other.CaptureFree where
  body := fun path id key target name binds names namesTarget =>
    free.body path id key target name (embedsBack.bindings _ _ _ binds)
      (embedsBack.names _ _ _ names) (embedsBack.names _ _ _ namesTarget)
  nested := fun path id key deeper last target name binds names namesTarget =>
    embeds.bindings _ _ _ (free.nested path id key deeper last target name
      (embedsBack.bindings _ _ _ binds) (embedsBack.names _ _ _ names)
      (embedsBack.names _ _ _ namesTarget))

theorem CaptureFree.inside {graph : Graph} (free : graph.CaptureFree) {id : NodeId} {node : Node}
    {loop : Loop} (found : graph.find? id = some node) (runs : node.loop? = some loop) :
    loop.body.CaptureFree where
  body := fun path inner key target name binds names namesTarget =>
    free.body (id :: path) inner key target name
      (bindsAt_cons.mpr ⟨node, loop, found, runs, binds⟩)
      (namesAt_cons.mpr ⟨node, loop, found, runs, names⟩)
      (namesAt_cons.mpr ⟨node, loop, found, runs, namesTarget⟩)
  nested := by
    intro path inner key deeper last target name binds names namesTarget
    have bound := free.nested (id :: path) inner key deeper last target name
      (bindsAt_cons.mpr ⟨node, loop, found, runs, binds⟩)
      (namesAt_cons.mpr ⟨node, loop, found, runs, names⟩)
      (namesAt_cons.mpr ⟨node, loop, found, runs, namesTarget⟩)
    exact bound.inside found runs

/-- When a loop of a capture-free graph binds a name that a node inside reads, and the
loop around that node does not bind the node, then the node is the bound one. -/
theorem CaptureFree.eq_key {graph : Graph} (free : graph.CaptureFree) {id target key : NodeId}
    {node : Node} {loop : Loop} {path : List NodeId} {name : String}
    (found : graph.find? id = some node) (runs : node.loop? = some loop)
    (names : graph.NamesAt (id :: path) target name)
    (unbound : ¬ ∃ front last, path = front ++ [last] ∧ loop.body.BindsAt front last target)
    (bound : key ∈ loop.bindings.map Prod.fst) (namesKey : loop.body.NamesAt [] key name) :
    path = [] ∧ target = key := by
  have binds : graph.BindsAt [] id key := ⟨graph, node, loop, rfl, found, runs, bound⟩
  have namesBound : graph.NamesAt [id] key name :=
    namesAt_cons.mpr ⟨node, loop, found, runs, namesKey⟩
  rcases List.eq_nil_or_concat path with rfl | ⟨front, last, rfl⟩
  · exact ⟨rfl, free.body [] id key target name binds namesBound names⟩
  · rw [List.concat_eq_append] at names
    have inside := free.nested [] id key front last target name binds namesBound names
    exact absurd ⟨front, last, List.concat_eq_append, inside.inside found runs⟩ unbound

/-- A graph whose loops all have the same body is capture-free when that body has no
loops and no two external nodes of the same name. -/
theorem captureFree_of_body {graph body : Graph}
    (bodies : ∀ node ∈ graph.nodes, ∀ loop, node.loop? = some loop → loop.body = body)
    (innermost : ∀ node ∈ body.nodes, node.loop? = none)
    (unique : ∀ node ∈ body.nodes, ∀ other ∈ body.nodes, node.kind = .external →
      other.kind = .external → other.content.plain = node.content.plain → other.id = node.id) :
    graph.CaptureFree := by
  have outermost : ∀ {path id key}, graph.BindsAt path id key → path = [] := by
    intro path id key binds
    cases path with
    | nil => rfl
    | cons first path =>
        obtain ⟨node, loop, found, runs, level, inner, held, reached, foundInner, runsInner, _⟩ :=
          bindsAt_cons.mp binds
        rw [bodies node (mem_of_find? found).1 loop runs] at reached
        obtain ⟨_, rfl⟩ := within?_of_innermost innermost reached
        cases (innermost inner (mem_of_find? foundInner).1).symm.trans runsInner
  have named : ∀ {id path target name}, graph.NamesAt (id :: path) target name →
      path = [] ∧ ∃ node ∈ body.nodes, node.id = target ∧ node.kind = .external ∧
        node.content.plain = name := by
    intro id path target name names
    obtain ⟨node, loop, found, runs, level, inner, reached, foundInner, external, plain⟩ :=
      namesAt_cons.mp names
    rw [bodies node (mem_of_find? found).1 loop runs] at reached
    obtain ⟨rfl, rfl⟩ := within?_of_innermost innermost reached
    obtain ⟨member, same⟩ := mem_of_find? foundInner
    exact ⟨rfl, inner, member, same, external, plain⟩
  constructor
  · intro path id key other name binds names namesOther
    obtain rfl := outermost binds
    obtain ⟨_, node, member, rfl, external, plain⟩ := named names
    obtain ⟨_, again, memberAgain, rfl, externalAgain, plainAgain⟩ := named namesOther
    exact unique node member again memberAgain external externalAgain (plainAgain.trans plain.symm)
  · intro path id key deeper last other name binds _ namesOther
    obtain rfl := outermost binds
    have empty := (named namesOther).1
    simp at empty

end Graph

end FlowGraph

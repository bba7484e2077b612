import FlowGraph.Graph.Prune
import FlowGraph.Proofs.Evaluation
import FlowGraph.Proofs.Reachability
import FlowGraph.Proofs.Transactions

/-!
# What pruning keeps

Pruning keeps the nodes that the exits depend on, with all that these depend on,
and drops the bindings of dropped nodes.  A binding gives its value to a name, and
an external node that stays may read that name too.  So results stay the same
exactly when every external node that stays reads the same value without the
dropped bindings.

The nested transactions of pruning come to one request, which is what most proofs are
about (`Graph.prune_eq`).
-/

namespace FlowGraph

/-- Keep the nodes that the exits depend on; the answer is how many were
dropped. -/
def pruneLevel (graph : Graph) : Except Fault (Graph × Nat) := do
  let live ← graph.ancestors (graph.exits.map Prod.snd)
  let kept := graph.nodes.filter fun node => live.contains node.id
  return ({ graph with nodes := kept }, graph.nodes.length - kept.length)

mutual

/-- A graph without the nodes that nothing depends on, and their number. -/
def Graph.pruned : Graph → Except Fault (Graph × Nat)
  | ⟨nodes, exits, nextId⟩ => do
      let (nodes, inner) ← pruneBodies nodes
      let (graph, count) ← pruneLevel ⟨nodes, exits, nextId⟩
      return (graph, inner + count)

/-- Prune the bodies of the loop nodes in order. -/
def pruneBodies : List Node → Except Fault (List Node × Nat)
  | [] => .ok ([], 0)
  | ⟨id, .loop, .loop ⟨tag, index, body, bindings⟩, inputs, result⟩ :: rest => do
      let (body, count) ← body.pruned
      let (rest, others) ← pruneBodies rest
      let content := Value.loop ⟨tag, index, body, remainingBindings body bindings⟩
      return (⟨id, .loop, content, inputs, result⟩ :: rest, count + others)
  | ⟨id, .loop, _, _, _⟩ :: _ => .error (.bodyless id)
  | node :: rest => do
      let (rest, count) ← pruneBodies rest
      return (node :: rest, count)

end

/-- A loop whose body was pruned, with the bindings that remain. -/
structure Loop.PrunedTo (loop changed : Loop) : Prop where
  body : ∃ count, loop.body.pruned = .ok (changed.body, count)
  bindings : changed.bindings = remainingBindings changed.body loop.bindings
  index : changed.index = loop.index
  tag : changed.tag = loop.tag

namespace Loop.PrunedTo

variable {loop changed : Loop} (pruned : loop.PrunedTo changed)
include pruned

theorem mem_bindings {binding : NodeId × NodeId} :
    binding ∈ changed.bindings ↔
      binding ∈ loop.bindings ∧ binding.1 ∈ changed.body.ids := by
  rw [pruned.bindings]
  simp [remainingBindings, Graph.contains_iff]

theorem bindings_subset : changed.bindings ⊆ loop.bindings :=
  fun _ member => (pruned.mem_bindings.mp member).1

end Loop.PrunedTo

theorem pruneBodies_loop {node : Node} {loop : Loop} (runs : node.loop? = some loop)
    (rest : List Node) :
    pruneBodies (node :: rest) = (do
      let (body, count) ← loop.body.pruned
      let (nodes, others) ← pruneBodies rest
      let content := Value.loop
        { loop with body := body, bindings := remainingBindings body loop.bindings }
      return ({ node with content := content } :: nodes, count + others)) := by
  obtain ⟨kind, content⟩ := Node.loop?_eq_some.mp runs
  obtain ⟨id, _, _, inputs, result⟩ := node
  obtain ⟨tag, index, body, bindings⟩ := loop
  cases kind
  cases content
  rfl

theorem pruneBodies_plain {node : Node} (noLoop : node.kind ≠ .loop) (rest : List Node) :
    pruneBodies (node :: rest) = (do
      let (nodes, count) ← pruneBodies rest
      return (node :: nodes, count)) := by
  obtain ⟨id, kind, content, inputs, result⟩ := node
  rw [pruneBodies]
  · rintro _ _ _ _ _ _ _ ⟨⟩
    exact noLoop rfl
  · rintro _ _ _ _ ⟨⟩
    exact noLoop rfl

theorem pruneBodies_bodyless {node : Node} (kind : node.kind = .loop)
    (noLoop : node.loop? = none) (rest : List Node) :
    pruneBodies (node :: rest) = .error (.bodyless node.id) := by
  obtain ⟨id, _, content, inputs, result⟩ := node
  cases kind
  cases content
  case loop => cases noLoop
  all_goals rfl

section Steps

theorem pruneInside_loop {node : Node} {loop : Loop} {body : Graph} {count : Nat}
    (runs : node.loop? = some loop)
    (done : loop.body.transaction loop.body.pruneBlock = ⟨body, .ok count⟩) (rest : List Node) :
    pruneInside (node :: rest) =
      ({ node with content := .loop { loop with
          body := body, bindings := remainingBindings body loop.bindings } } ::
        (pruneInside rest).1, (pruneInside rest).2.map (count + ·)) := by
  obtain ⟨kind, content⟩ := Node.loop?_eq_some.mp runs
  obtain ⟨id, _, _, inputs, result⟩ := node
  obtain ⟨tag, index, before, bindings⟩ := loop
  cases kind
  cases content
  rw [pruneInside, done]

theorem pruneInside_stops {node : Node} {loop : Loop} {body : Graph} {fault : Fault}
    (runs : node.loop? = some loop)
    (stopped : loop.body.transaction loop.body.pruneBlock = ⟨body, .error fault⟩)
    (rest : List Node) :
    pruneInside (node :: rest) =
      ({ node with content := .loop { loop with body := body } } :: rest, .error fault) := by
  obtain ⟨kind, content⟩ := Node.loop?_eq_some.mp runs
  obtain ⟨id, _, _, inputs, result⟩ := node
  obtain ⟨tag, index, before, bindings⟩ := loop
  cases kind
  cases content
  rw [pruneInside, stopped]

theorem pruneInside_plain {node : Node} (noLoop : node.kind ≠ .loop) (rest : List Node) :
    pruneInside (node :: rest) = (node :: (pruneInside rest).1, (pruneInside rest).2) := by
  obtain ⟨id, kind, content, inputs, result⟩ := node
  rw [pruneInside]
  · rintro _ _ _ _ _ _ _ ⟨⟩
    exact noLoop rfl
  · rintro _ _ _ _ ⟨⟩
    exact noLoop rfl

theorem pruneInside_bodyless {node : Node} (kind : node.kind = .loop)
    (noLoop : node.loop? = none) (rest : List Node) :
    pruneInside (node :: rest) = (node :: rest, .error (.bodyless node.id)) := by
  obtain ⟨id, _, content, inputs, result⟩ := node
  cases kind
  cases content
  case loop => cases noLoop
  all_goals rfl

theorem settles_pruneInside {nodes : List Node}
    (bodies : ∀ node ∈ nodes, ∀ loop, node.loop? = some loop →
      loop.body.pruneBlock.Settles loop.body.pruned) :
    match pruneBodies nodes with
    | .ok (others, count) => pruneInside nodes = (others, .ok count)
    | .error fault => (pruneInside nodes).2 = .error fault := by
  induction nodes with
  | nil => rfl
  | cons node rest induction =>
      have later := induction fun other member => bodies other (List.mem_cons_of_mem _ member)
      cases runs : node.loop? with
      | some loop =>
          have inner := Graph.transaction_eq_of_settles loop.body
            (bodies node List.mem_cons_self loop runs)
          rw [pruneBodies_loop runs]
          cases pruned : loop.body.pruned with
          | error fault =>
              rw [pruned] at inner
              rw [pruneInside_stops runs inner]
              rfl
          | ok result =>
              rw [pruned] at inner
              rw [pruneInside_loop runs inner]
              cases remaining : pruneBodies rest with
              | error fault =>
                  rw [remaining] at later
                  simp only [bind, Except.bind, later, Except.map]
              | ok others =>
                  rw [remaining] at later
                  simp only [bind, Except.bind, later, Except.map, pure, Except.pure]
      | none =>
          by_cases kind : node.kind = .loop
          · rw [pruneBodies_bodyless kind runs, pruneInside_bodyless kind runs]
          · rw [pruneBodies_plain kind, pruneInside_plain kind]
            cases remaining : pruneBodies rest with
            | error fault =>
                rw [remaining] at later
                simp only [bind, Except.bind, later]
            | ok others =>
                rw [remaining] at later
                simp only [bind, Except.bind, later, pure, Except.pure]

theorem settles_dropDead (graph : Graph) : (dropDead graph).Settles (pruneLevel graph) := by
  unfold dropDead pruneLevel
  cases graph.ancestors (graph.exits.map Prod.snd) <;> rfl

theorem Graph.settles_pruneBlock (graph : Graph) : graph.pruneBlock.Settles graph.pruned := by
  induction graph using bodyInduction with
  | step graph induction =>
      have inside := settles_pruneInside induction
      obtain ⟨nodes, exits, nextId⟩ := graph
      rw [pruneBlock, pruned]
      cases bodies : pruneBodies nodes with
      | error fault =>
          rw [bodies] at inside
          simp only [inside]
          rfl
      | ok result =>
          rw [bodies] at inside
          simp only [inside]
          have level := (settles_dropDead ⟨result.1, exits, nextId⟩).more result.2
          simp only [bind, Except.bind]
          cases dropped : pruneLevel ⟨result.1, exits, nextId⟩ <;> rw [dropped] at level <;>
            exact level

/-- Pruning gives what the request gives, or it puts the graph back. -/
theorem Graph.prune_eq (graph : Graph) :
    graph.prune =
      match graph.pruned with
      | .ok (pruned, count) => ⟨pruned, .ok count⟩
      | .error fault => ⟨graph, .error fault⟩ := by
  rw [prune, transaction_eq_of_settles graph graph.settles_pruneBlock]
  cases graph.pruned <;> rfl

end Steps

theorem pruneBodies_revised {nodes others : List Node} {count : Nat}
    (done : pruneBodies nodes = .ok (others, count)) :
    List.Forall₂ (Node.Revised Loop.PrunedTo) nodes others := by
  induction nodes generalizing others count with
  | nil =>
      cases done
      exact .nil
  | cons node rest induction =>
      cases runs : node.loop? with
      | some loop =>
          rw [pruneBodies_loop runs] at done
          obtain ⟨⟨body, inner⟩, bodyDone, afterBody⟩ := bind_eq_ok.mp done
          obtain ⟨⟨later, outer⟩, restDone, ends⟩ := bind_eq_ok.mp afterBody
          cases ends
          exact .cons (.loop runs ⟨⟨inner, bodyDone⟩, rfl, rfl, rfl⟩) (induction restDone)
      | none =>
          by_cases kind : node.kind = .loop
          · rw [pruneBodies_bodyless kind runs] at done
            cases done
          · rw [pruneBodies_plain kind] at done
            obtain ⟨⟨later, outer⟩, restDone, ends⟩ := bind_eq_ok.mp done
            cases ends
            exact .cons (.same runs) (induction restDone)

theorem pruneBodies_succeeds {nodes : List Node}
    (carried : ∀ node ∈ nodes, node.kind = .loop → ∃ loop, node.content = .loop loop)
    (bodies : ∀ node ∈ nodes, ∀ loop, node.loop? = some loop →
      ∃ result, loop.body.pruned = .ok result) :
    ∃ result, pruneBodies nodes = .ok result := by
  induction nodes with
  | nil => exact ⟨_, rfl⟩
  | cons node rest induction =>
      obtain ⟨result, restDone⟩ := induction
        (fun other member => carried other (by simp [member]))
        (fun other member => bodies other (by simp [member]))
      by_cases kind : node.kind = .loop
      · obtain ⟨loop, content⟩ := carried node (by simp) kind
        have runs := Node.loop?_eq_some.mpr ⟨kind, content⟩
        obtain ⟨body, bodyDone⟩ := bodies node (by simp) loop runs
        rw [pruneBodies_loop runs]
        exact ⟨_, bind_eq_ok.mpr ⟨body, bodyDone, bind_eq_ok.mpr ⟨result, restDone, rfl⟩⟩⟩
      · rw [pruneBodies_plain kind]
        exact ⟨_, bind_eq_ok.mpr ⟨result, restDone, rfl⟩⟩

/-- What is left of a graph after pruning. -/
structure Graph.PrunesTo (graph pruned : Graph) : Prop where
  exits : pruned.exits = graph.exits
  nextId : pruned.nextId = graph.nextId
  ids : pruned.ids.Sublist graph.ids
  origins : ∀ id other, pruned.find? id = some other →
    ∃ node, graph.find? id = some node ∧ node.Revised Loop.PrunedTo other
  linked : ∀ node ∈ pruned.nodes, ∀ id ∈ node.dependencies, id ∈ pruned.ids
  kept : ∀ exit ∈ graph.exits, exit.2 ∈ pruned.ids

namespace Graph

theorem pruneLevel_succeeds {graph : Graph}
    (linked : ∀ node ∈ graph.nodes, ∀ id ∈ node.dependencies, id ∈ graph.ids)
    (exits : ∀ exit ∈ graph.exits, exit.2 ∈ graph.ids) :
    ∃ result, pruneLevel graph = .ok result := by
  have present : graph.exits.map Prod.snd ⊆ graph.ids := by
    intro id member
    obtain ⟨exit, isExit, rfl⟩ := List.mem_map.mp member
    exact exits exit isExit
  obtain ⟨live, done, _⟩ := ancestors_closed linked present
  exact ⟨_, bind_eq_ok.mpr ⟨live, done, rfl⟩⟩

/-- Of nodes that the graph has, those that are live are the ones that are kept. -/
theorem mem_ids_filter {graph : Graph} {live : List NodeId} (present : live ⊆ graph.ids)
    {id : NodeId} :
    id ∈ (graph.nodes.filter fun node => live.contains node.id).map Node.id ↔ id ∈ live := by
  constructor
  · intro kept
    obtain ⟨node, member, rfl⟩ := List.mem_map.mp kept
    exact List.contains_iff_mem.mp (List.mem_filter.mp member).2
  · intro alive
    obtain ⟨node, inside, rfl⟩ := mem_ids.mp (present alive)
    exact List.mem_map_of_mem (List.mem_filter.mpr ⟨inside, List.contains_iff_mem.mpr alive⟩)

/-- One level of pruning keeps a part of the graph that is closed under
dependencies and holds the exit nodes. -/
theorem pruneLevel_spec {graph pruned : Graph} {count : Nat} (distinct : graph.ids.Nodup)
    (done : pruneLevel graph = .ok (pruned, count)) :
    pruned.exits = graph.exits ∧ pruned.nextId = graph.nextId ∧
      pruned.nodes.Sublist graph.nodes ∧
      (∀ node ∈ pruned.nodes, ∀ id ∈ node.dependencies, id ∈ pruned.ids) ∧
      ∀ exit ∈ graph.exits, exit.2 ∈ pruned.ids := by
  obtain ⟨live, searched, ends⟩ := bind_eq_ok.mp done
  cases ends
  have closure := closureOf_ancestors searched
  have keeps := fun {id} => @mem_ids_filter graph live closure.present id
  refine ⟨rfl, rfl, List.filter_sublist, ?_, ?_⟩
  · intro node member id needed
    obtain ⟨inside, alive⟩ := List.mem_filter.mp member
    have found := find?_of_mem distinct inside
    exact keeps.mpr (closure.closed node.id (by simpa using alive) node found needed)
  · intro exit isExit
    exact keeps.mpr (closure.starts (List.mem_map_of_mem isExit))

/-- Some exit leads to every node. -/
def Live (graph : Graph) : Prop :=
  ∀ id ∈ graph.ids, ∃ exit ∈ graph.exits, Relation.ReflTransGen graph.DependsOn exit.2 id

/-- The paths that lead from the exits to the nodes that are kept are kept with them. -/
theorem live_of_pruneLevel {graph pruned : Graph} {count : Nat} (distinct : graph.ids.Nodup)
    (done : pruneLevel graph = .ok (pruned, count)) : pruned.Live := by
  obtain ⟨live, searched, ends⟩ := bind_eq_ok.mp done
  cases ends
  have closure := closureOf_ancestors searched
  have kept : ∀ {first id}, Relation.ReflTransGen graph.DependsOn first id → first ∈ live →
      id ∈ live ∧ Relation.ReflTransGen (Graph.DependsOn { graph with
        nodes := graph.nodes.filter fun node => live.contains node.id }) first id := by
    intro first id path starts
    induction path with
    | refl => exact ⟨starts, .refl⟩
    | tail _ edge induction =>
        obtain ⟨node, member, rfl, needed⟩ := edge
        obtain ⟨alive, before⟩ := induction
        have stays : node ∈ graph.nodes.filter fun node => live.contains node.id :=
          List.mem_filter.mpr ⟨member, List.contains_iff_mem.mpr alive⟩
        exact ⟨closure.closed node.id alive node (find?_of_mem distinct member) needed,
          before.tail ⟨node, stays, rfl, needed⟩⟩
  intro id present
  obtain ⟨node, member, rfl⟩ := mem_ids.mp present
  have alive : node.id ∈ live := List.contains_iff_mem.mp (List.mem_filter.mp member).2
  obtain ⟨first, starts, path⟩ := closure.reached node.id alive
  obtain ⟨exit, isExit, rfl⟩ := List.mem_map.mp starts
  exact ⟨exit, isExit, (kept path (closure.starts starts)).2⟩

theorem pruned_eq_ok_iff {graph pruned : Graph} {count : Nat} :
    graph.pruned = .ok (pruned, count) ↔ ∃ nodes inner dropped,
      pruneBodies graph.nodes = .ok (nodes, inner) ∧
      pruneLevel ⟨nodes, graph.exits, graph.nextId⟩ = .ok (pruned, dropped) ∧
      count = inner + dropped := by
  obtain ⟨nodes, exits, nextId⟩ := graph
  rw [Graph.pruned, bind_eq_ok]
  constructor
  · rintro ⟨⟨others, inner⟩, bodies, afterBodies⟩
    obtain ⟨⟨level, dropped⟩, levelDone, ends⟩ := bind_eq_ok.mp afterBodies
    cases ends
    exact ⟨others, inner, dropped, bodies, levelDone, rfl⟩
  · rintro ⟨others, inner, dropped, bodies, levelDone, rfl⟩
    exact ⟨(others, inner), bodies, bind_eq_ok.mpr ⟨(pruned, dropped), levelDone, rfl⟩⟩

/-- What pruning leaves of a graph whose nodes are told apart by their numbers. -/
theorem prunesTo_of_distinct {graph pruned : Graph} {count : Nat} (distinct : graph.ids.Nodup)
    (done : graph.pruned = .ok (pruned, count)) : graph.PrunesTo pruned := by
  obtain ⟨nodes, inner, dropped, bodies, levelDone, rfl⟩ := pruned_eq_ok_iff.mp done
  have revised := pruneBodies_revised bodies
  let middle : Graph := ⟨nodes, graph.exits, graph.nextId⟩
  have sameIds : middle.ids = graph.ids := ids_revised revised
  have middleDistinct : middle.ids.Nodup := sameIds ▸ distinct
  obtain ⟨sameExits, sameNext, sublist, linked, kept⟩ := pruneLevel_spec middleDistinct levelDone
  have sublistIds : pruned.ids.Sublist middle.ids := sublist.map Node.id
  refine ⟨sameExits, sameNext, sameIds ▸ sublistIds, ?_, linked, kept⟩
  intro id other found
  obtain ⟨member, rfl⟩ := mem_of_find? found
  exact exists_partnered (find?_revised revised _)
    (find?_of_mem middleDistinct (sublist.subset member))

theorem live_of_pruned {graph pruned : Graph} {count : Nat} (distinct : graph.ids.Nodup)
    (done : graph.pruned = .ok (pruned, count)) : pruned.Live := by
  obtain ⟨nodes, inner, dropped, bodies, levelDone, rfl⟩ := pruned_eq_ok_iff.mp done
  have sameIds : (⟨nodes, graph.exits, graph.nextId⟩ : Graph).ids = graph.ids :=
    ids_revised (pruneBodies_revised bodies)
  exact live_of_pruneLevel (sameIds ▸ distinct) levelDone

/-- Pruning succeeds when all references stay inside, at every depth. -/
theorem pruned_succeeds {graph : Graph} (closed : graph.Everywhere Closed) :
    ∃ pruned count, graph.pruned = .ok (pruned, count) := by
  induction graph using bodyInduction with
  | step graph induction =>
      have here := closed.here
      have inBodies : ∀ node ∈ graph.nodes, ∀ loop, node.loop? = some loop →
          ∃ result, loop.body.pruned = .ok result := by
        intro node member loop runs
        obtain ⟨body, count, done⟩ := induction node member loop runs
          (closed.body (find?_of_mem here.distinct member) runs)
        exact ⟨_, done⟩
      obtain ⟨⟨nodes, inner⟩, bodies⟩ := pruneBodies_succeeds here.carried inBodies
      have revised := pruneBodies_revised bodies
      let middle : Graph := ⟨nodes, graph.exits, graph.nextId⟩
      have sameIds : middle.ids = graph.ids := ids_revised revised
      have linked : ∀ node ∈ middle.nodes, ∀ id ∈ node.dependencies, id ∈ middle.ids := by
        intro other member id needed
        obtain ⟨node, found, related⟩ := exists_partnered (find?_revised revised _)
          (find?_of_mem (sameIds ▸ here.distinct) member)
        rw [sameIds]
        exact here.linked node (List.mem_of_find?_eq_some found) id
          (related.dependencies_subset (fun _ _ pruned => pruned.bindings_subset) needed)
      obtain ⟨⟨pruned, dropped⟩, levelDone⟩ := pruneLevel_succeeds linked
        fun exit isExit => sameIds ▸ here.exits exit isExit
      exact ⟨pruned, inner + dropped,
        pruned_eq_ok_iff.mpr ⟨nodes, inner, dropped, bodies, levelDone, rfl⟩⟩

theorem prunesTo_of_pruned {graph pruned : Graph} {count : Nat}
    (evaluable : graph.Everywhere Evaluable) (done : graph.pruned = .ok (pruned, count)) :
    graph.PrunesTo pruned :=
  prunesTo_of_distinct evaluable.here.distinct done

theorem exists_pruned {graph : Graph} (evaluable : graph.Everywhere Evaluable) :
    ∃ pruned count, graph.pruned = .ok (pruned, count) ∧ graph.PrunesTo pruned := by
  obtain ⟨pruned, count, done⟩ := pruned_succeeds (evaluable.mono fun _ => Evaluable.closed)
  exact ⟨pruned, count, done, prunesTo_of_pruned evaluable done⟩

theorem formed_of_pruned {graph pruned : Graph} {count : Nat}
    (formed : graph.Everywhere Formed) (done : graph.pruned = .ok (pruned, count)) :
    pruned.Everywhere Formed := by
  induction graph using bodyInduction generalizing pruned count with
  | step graph induction =>
      have evaluable := formed.evaluable
      have prunes := prunesTo_of_pruned evaluable done
      refine everywhere_of_origins prunes.origins (formed.here.of_revised
        (prunes.ids.nodup formed.here.distinct) prunes.origins prunes.linked
        (prunes.exits ▸ prunes.kept) (fun _ _ related => related.bindings_subset) ?_) ?_
      · intro id node loop changed found runs related binding member
        obtain ⟨original, present⟩ := related.mem_bindings.mp member
        obtain ⟨_, bodyDone⟩ := related.body
        obtain ⟨target, foundTarget⟩ := exists_find? present
        obtain ⟨bound, foundBound, revised⟩ := (prunesTo_of_pruned
          (evaluable.body found runs) bodyDone).origins binding.1 target foundTarget
        obtain ⟨external, foundExternal, isExternal⟩ := formed.here.externalKeys node
          (mem_of_find? found).1 loop runs binding original
        cases foundBound.symm.trans foundExternal
        exact ⟨target, foundTarget, revised.kind_eq.trans isExternal⟩
      · intro id node loop changed found runs related
        obtain ⟨_, bodyDone⟩ := related.body
        exact induction node (mem_of_find? found).1 loop runs (formed.body found runs) bodyDone

end Graph

/-- One path into a graph and into a part of it.  The scopes of both bodies are made
from the values that the sources have in the whole graph, each with the bindings of
its own side. -/
inductive EntersBoth (meaning : Interpretation) : Graph → Graph → Scope → Scope → List NodeId →
    Graph → Graph → Scope → Scope → Prop where
  | here {graph part : Graph} {before after : Scope} :
      EntersBoth meaning graph part before after [] graph part before after
  | inside {graph part : Graph} {before after : Scope} {id : NodeId} {node other : Node}
      {loop changed : Loop} {values : NodeId → Value} {path : List NodeId} {body rest : Graph}
      {inner outer : Scope}
      (found : graph.find? id = some node) (runs : node.loop? = some loop)
      (foundOther : part.find? id = some other) (runsOther : other.loop? = some changed)
      (sources : ∀ binding ∈ loop.bindings,
        Denotes meaning graph before binding.2 (values binding.2))
      (deeper : EntersBoth meaning loop.body changed.body
        (boundScope loop.body values before loop.bindings)
        (boundScope changed.body values after changed.bindings) path body rest inner outer) :
      EntersBoth meaning graph part before after (id :: path) body rest inner outer

/-- Every external node of a part of a graph, at any depth, reads with the bindings
of the part what it reads with those of the graph. -/
def Graph.KeepsReads (meaning : Interpretation) (graph part : Graph) (before after : Scope) :
    Prop :=
  ∀ path body rest inner outer,
    EntersBoth meaning graph part before after path body rest inner outer →
    ∀ node ∈ rest.nodes, node.kind = .external →
      outer.read meaning node.content.plain = inner.read meaning node.content.plain

theorem Graph.KeepsReads.body {meaning : Interpretation} {graph part : Graph}
    {before after : Scope} {id : NodeId} {node other : Node} {loop changed : Loop}
    {values : NodeId → Value} (keeps : graph.KeepsReads meaning part before after)
    (found : graph.find? id = some node) (runs : node.loop? = some loop)
    (foundOther : part.find? id = some other) (runsOther : other.loop? = some changed)
    (sources : ∀ binding ∈ loop.bindings,
      Denotes meaning graph before binding.2 (values binding.2)) :
    loop.body.KeepsReads meaning changed.body (boundScope loop.body values before loop.bindings)
      (boundScope changed.body values after changed.bindings) :=
  fun path body rest inner outer deeper =>
    keeps (id :: path) body rest inner outer
      (.inside found runs foundOther runsOther sources deeper)

theorem Graph.KeepsReads.refl {meaning : Interpretation} (graph : Graph) (scope : Scope) :
    graph.KeepsReads meaning graph scope scope := by
  intro path body rest inner outer both
  induction path generalizing graph scope with
  | nil =>
      cases both
      exact fun _ _ _ => rfl
  | cons id path induction =>
      cases both with
      | inside found runs foundOther runsOther _ deeper =>
          cases found.symm.trans foundOther
          cases runs.symm.trans runsOther
          exact induction _ _ deeper

namespace Graph.PrunesTo

variable {graph pruned : Graph} (prunes : graph.PrunesTo pruned)
include prunes

theorem exists_origin {id : NodeId} {node : Node} (present : id ∈ pruned.ids)
    (found : graph.find? id = some node) :
    ∃ other, pruned.find? id = some other ∧ node.Revised Loop.PrunedTo other := by
  obtain ⟨other, foundOther⟩ := exists_find? present
  obtain ⟨origin, foundOrigin, revised⟩ := prunes.origins id other foundOther
  cases found.symm.trans foundOrigin
  exact ⟨other, foundOther, revised⟩

theorem prunedTo {id : NodeId} {node other : Node} {loop changed : Loop}
    (found : graph.find? id = some node) (runs : node.loop? = some loop)
    (foundOther : pruned.find? id = some other) (runsOther : other.loop? = some changed) :
    loop.PrunedTo changed := by
  obtain ⟨origin, foundOrigin, revised⟩ := prunes.origins id other foundOther
  cases found.symm.trans foundOrigin
  obtain ⟨held, runsHeld, related⟩ := revised.exists_origin runsOther
  cases runs.symm.trans runsHeld
  exact related

theorem source_mem {id : NodeId} {other : Node} {changed : Loop}
    (foundOther : pruned.find? id = some other) (runsOther : other.loop? = some changed)
    {binding : NodeId × NodeId} (member : binding ∈ changed.bindings) :
    binding.2 ∈ pruned.ids :=
  prunes.linked other (mem_of_find? foundOther).1 binding.2
    (Node.source_mem_dependencies runsOther member)

end Graph.PrunesTo

/-- Nodes that stay keep their denotations when the external nodes that stay keep
their reads. -/
theorem Graph.denotes_pruned {meaning : Interpretation} {graph pruned : Graph} {count : Nat}
    (evaluable : graph.Everywhere Evaluable) (done : graph.pruned = .ok (pruned, count))
    {before after : Scope} (keeps : graph.KeepsReads meaning pruned before after)
    {id : NodeId} {value : Value} (present : id ∈ pruned.ids)
    (denotes : Denotes meaning graph before id value) :
    Denotes meaning pruned after id value := by
  induction graph using bodyInduction generalizing pruned count before after id value with
  | step graph induction =>
      have prunes := prunesTo_of_pruned evaluable done
      refine @Denotes.transport meaning graph pruned before after (fun id => id ∈ pruned.ids)
        Loop.PrunedTo (fun id node alive found => prunes.exists_origin alive found) ?_ ?_ ?_
        id value denotes present
      · intro id node alive found read isRead
        obtain ⟨other, foundOther, revised⟩ := prunes.exists_origin alive found
        refine prunes.linked other (mem_of_find? foundOther).1 read
          (other.inputs_subset_dependencies ?_)
        rw [revised.inputs_eq]
        exact node.reads_subset_inputs isRead
      · intro id node alive found external
        obtain ⟨other, foundOther, revised⟩ := prunes.exists_origin alive found
        have sameContent : other.content = node.content :=
          revised.content_eq (by simp [external])
        rw [← sameContent]
        exact keeps [] graph pruned before after .here other (mem_of_find? foundOther).1
          (revised.kind_eq.trans external)
      · intro id node other loop changed values alive found foundOther runs runsOther related
          sources keys defined
        refine ⟨?_, ?_⟩
        · intro binding member
          obtain ⟨original, remains⟩ := related.mem_bindings.mp member
          exact ⟨original, prunes.source_mem foundOther runsOther member, remains⟩
        · intro inner remains
          obtain ⟨_, bodyDone⟩ := related.body
          have inBody := evaluable.body found runs
          obtain ⟨value, denotes⟩ := defined inner
            ((prunesTo_of_pruned inBody bodyDone).ids.subset remains)
          exact ⟨value, induction node (mem_of_find? found).1 loop runs inBody bodyDone
            (keeps.body found runs foundOther runsOther sources) remains denotes⟩

namespace Graph

variable {meaning : Interpretation} {graph pruned : Graph} {count : Nat}

/-- When reads are kept, the bodies that stay are entered with scopes in which their
nodes keep their values. -/
theorem enters_pruned {before after : Scope} {path : List NodeId} {body rest : Graph}
    (evaluable : graph.Everywhere Evaluable) (done : graph.pruned = .ok (pruned, count))
    (defined : graph.Defined meaning before)
    (keeps : graph.KeepsReads meaning pruned before after)
    (reached : graph.within? path = some body) (reachedRest : pruned.within? path = some rest) :
    ∃ inner outer, Enters meaning graph before path body inner ∧
      Enters meaning pruned after path rest outer ∧
      ∀ id ∈ rest.ids, ∃ value, Denotes meaning body inner id value ∧
        Denotes meaning rest outer id value := by
  induction path generalizing graph pruned count before after with
  | nil =>
      cases reached
      cases reachedRest
      refine ⟨before, after, .here, .here, ?_⟩
      intro id remains
      obtain ⟨value, denotes⟩ := defined id
        ((prunesTo_of_pruned evaluable done).ids.subset remains)
      exact ⟨value, denotes, denotes_pruned evaluable done keeps remains denotes⟩
  | cons id path induction =>
      have prunes := prunesTo_of_pruned evaluable done
      obtain ⟨other, changed, foundOther, runsOther, deeperRest⟩ := within?_cons.mp reachedRest
      obtain ⟨node, held, found, runs, deeper⟩ := within?_cons.mp reached
      have related := prunes.prunedTo found runs foundOther runsOther
      obtain ⟨_, bodyDone⟩ := related.body
      obtain ⟨value, denotes⟩ := defined id (mem_ids_of_find? found)
      obtain ⟨values, sources, _⟩ := denotes.defined_body found runs
      obtain ⟨inner, outer, enters, entersRest, same⟩ := induction (evaluable.body found runs)
        bodyDone (defined.body found runs sources)
        (keeps.body found runs foundOther runsOther sources) deeper deeperRest
      refine ⟨inner, outer, .inside found runs sources enters,
        .inside foundOther runsOther ?_ entersRest, same⟩
      intro binding member
      exact denotes_pruned evaluable done keeps (prunes.source_mem foundOther runsOther member)
        (sources binding (related.bindings_subset member))

/-- When nodes that stay keep their values, external nodes keep their reads. -/
theorem keepsReads_of_values {before after : Scope}
    (evaluable : graph.Everywhere Evaluable) (done : graph.pruned = .ok (pruned, count))
    (defined : graph.Defined meaning before) (definedRest : pruned.Defined meaning after)
    (same : ∀ path body rest inner outer, Enters meaning graph before path body inner →
      Enters meaning pruned after path rest outer → ∀ id ∈ rest.ids, ∀ value,
        Denotes meaning body inner id value → Denotes meaning rest outer id value) :
    graph.KeepsReads meaning pruned before after := by
  intro path body rest inner outer both
  induction both generalizing count with
  | @here graph pruned before after =>
      intro other member external
      have prunes := prunesTo_of_pruned evaluable done
      have foundOther := find?_of_mem (prunes.ids.nodup evaluable.here.distinct) member
      obtain ⟨node, found, revised⟩ := prunes.origins _ other foundOther
      have sameContent : other.content = node.content :=
        revised.content_eq (by simp [← revised.kind_eq, external])
      obtain ⟨value, denotes⟩ := defined other.id (mem_ids_of_find? found)
      have denotesRest := same [] graph pruned before after .here .here other.id
        (mem_ids_of_find? foundOther) value denotes
      rw [denotesRest.read_eq_ok foundOther external, sameContent,
        denotes.read_eq_ok found (revised.kind_eq ▸ external)]
  | @inside graph pruned before after id node other loop changed values path body rest inner outer
      found runs foundOther runsOther sources deeper induction =>
      have prunes := prunesTo_of_pruned evaluable done
      have related := prunes.prunedTo found runs foundOther runsOther
      obtain ⟨_, bodyDone⟩ := related.body
      have sourcesRest : ∀ binding ∈ changed.bindings,
          Denotes meaning pruned after binding.2 (values binding.2) :=
        fun binding member => same [] graph pruned before after .here .here binding.2
          (prunes.source_mem foundOther runsOther member) _
          (sources binding (related.bindings_subset member))
      exact induction (evaluable.body found runs) bodyDone (defined.body found runs sources)
        (definedRest.body foundOther runsOther sourcesRest)
        fun path body rest inner outer enters entersRest =>
          same (id :: path) body rest inner outer (.inside found runs sources enters)
            (.inside foundOther runsOther sourcesRest entersRest)

variable {scope : Scope} {values : List (String × Value)}

/-- When reads are kept, what is left evaluates to the same exit values. -/
theorem defined_pruned (evaluable : graph.Everywhere Evaluable)
    (done : graph.pruned = .ok (pruned, count)) (defined : graph.Defined meaning scope)
    (exits : ExitsDenote meaning scope graph values)
    (keeps : graph.KeepsReads meaning pruned scope scope) :
    pruned.Defined meaning scope ∧ ExitsDenote meaning scope pruned values := by
  have prunes := prunesTo_of_pruned evaluable done
  constructor
  · intro id remains
    obtain ⟨value, denotes⟩ := defined id (prunes.ids.subset remains)
    exact ⟨value, denotes_pruned evaluable done keeps remains denotes⟩
  · unfold ExitsDenote at exits ⊢
    rw [prunes.exits]
    refine ((List.forall₂_and_left _ _).mpr ⟨prunes.kept, exits⟩).imp ?_
    rintro exit found ⟨kept, name, denotes⟩
    exact ⟨name, denotes_pruned evaluable done keeps kept denotes⟩

/-- Pruning keeps the exit values and the results of the nodes that stay exactly when
the external nodes that stay keep their reads. -/
theorem prune_preserves_evaluation_iff (formed : graph.WellFormed)
    (succeeded : (graph.evaluate meaning scope).answer = .ok values) :
    (∃ count, graph.prune.answer = .ok count) ∧
    ((graph.prune.graph.evaluate meaning scope).answer = .ok values ∧
        graph.SameResults graph.prune.graph (graph.evaluate meaning scope).graph
          (graph.prune.graph.evaluate meaning scope).graph ↔
      graph.KeepsReads meaning graph.prune.graph scope scope) := by
  have everywhere := formed.formed
  have evaluable := everywhere.evaluable
  obtain ⟨pruned, count, done, prunes⟩ := exists_pruned evaluable
  have left : graph.prune = ⟨pruned, .ok count⟩ := by
    simp only [prune_eq, done]
  rw [left]
  have evaluableRest : pruned.Everywhere Evaluable :=
    (formed_of_pruned everywhere done).evaluable
  obtain ⟨defined, completes, exits⟩ :=
    (computedBy_evaluate evaluable meaning scope).sound values succeeded
  refine ⟨⟨count, rfl⟩, ?_, ?_⟩
  · -- Results are denotations on both sides, so equal results mean equal reads.
    rintro ⟨succeededRest, same⟩
    obtain ⟨definedRest, completesRest, _⟩ :=
      (computedBy_evaluate evaluableRest meaning scope).sound values succeededRest
    refine keepsReads_of_values evaluable done defined definedRest ?_
    intro path body rest inner outer enters entersRest id remains value denotes
    obtain ⟨outcome, result, resultRest⟩ :=
      same path body rest enters.within? entersRest.within? id denotes.mem_ids remains
    cases result.symm.trans (completes.resultAt_eq enters denotes)
    obtain ⟨_, entersAgain, bodyDefined⟩ := definedRest.exists_enters entersRest.within?
    obtain ⟨_, rfl⟩ := entersRest.unique entersAgain
    obtain ⟨valueRest, denotesRest⟩ := bodyDefined id remains
    cases resultRest.symm.trans (completesRest.resultAt_eq entersRest denotesRest)
    exact denotesRest
  · intro keeps
    obtain ⟨definedRest, exitsRest⟩ := defined_pruned evaluable done defined exits keeps
    have succeededRest := evaluate_eq_ok evaluableRest definedRest exitsRest
    refine ⟨succeededRest, ?_⟩
    intro path body rest reached reachedRest id _ remains
    obtain ⟨inner, outer, enters, entersRest, same⟩ :=
      enters_pruned evaluable done defined keeps reached reachedRest
    obtain ⟨value, denotes, denotesRest⟩ := same id remains
    have completesRest :=
      ((computedBy_evaluate evaluableRest meaning scope).sound values succeededRest).2.1
    exact ⟨value, completes.resultAt_eq enters denotes,
      completesRest.resultAt_eq entersRest denotesRest⟩

end Graph

/-- Nothing of the loop of `tripling` is pruned, so its body reads what it did. -/
theorem tripling_keepsReads :
    tripling.KeepsReads adding tripling.prune.graph (fun _ => none) (fun _ => none) := by
  have pruned : tripling.prune.graph = { tripling with nodes := tripling.nodes.take 4 } := by
    cbv
  rw [pruned]
  intro path body rest inner outer both
  cases both with
  | here =>
      have noExternal : ∀ node ∈ tripling.nodes.take 4, node.kind ≠ .external := by
        simp [tripling, triplingOver]
      exact fun node member external => absurd external (noExternal node member)
  | inside found runs foundOther runsOther _ deeper =>
      obtain ⟨member, same⟩ := Graph.mem_of_find? foundOther
      have foundAgain := Graph.find?_of_mem tripling_wellFormed.distinct.here
        (List.mem_of_mem_take member)
      rw [same] at foundAgain
      cases found.symm.trans foundAgain
      cases runs.symm.trans runsOther
      exact Graph.KeepsReads.refl _ _ _ _ _ _ _ deeper

theorem pruned_tripling_evaluates :
    (tripling.prune.graph.evaluate adding fun _ => none).answer =
      .ok [("total", .int 3), ("loop", .null)] :=
  ((Graph.prune_preserves_evaluation_iff tripling_wellFormed evaluate_tripling).2.mpr
    tripling_keepsReads).1

/-- The body of a loop with two external nodes of the same name. -/
def shadowingBody : Graph :=
  ⟨[⟨0, .external, .text "x", [], .null⟩, ⟨1, .external, .text "x", [], .null⟩], [("y", 1)], 2⟩

/-- A loop that binds the one of them that nothing needs. -/
def shadowing : Graph :=
  ⟨[⟨0, .constant, .int 1, [], .null⟩,
      ⟨1, .loop, .loop ⟨0, "i", shadowingBody, [(0, 0)]⟩, [], .null⟩],
    [("loop", 1)], 2⟩

/-- No operation succeeds and no name is known. -/
def knowingNothing : Interpretation where
  call := fun _ _ => .error .wrongType
  lookup := fun name => .error (.unresolvedName name)
  element := Value.element
  field := Value.field

theorem shadowing_wellFormed : shadowing.WellFormed := by
  have everywhere : ∀ {property : Graph → Prop}, property shadowing → property shadowingBody →
      shadowing.Everywhere property := fun here inside =>
    Graph.everywhere_of_body here inside (by simp [shadowing, Node.loop?, Value.loop?])
      (by simp [shadowingBody, Node.loop?])
  have ranked : shadowing.RankedBy Int.toNat := by
    simp [Graph.RankedBy, shadowing, Node.dependencies]
  have bodyRanked : shadowingBody.RankedBy Int.toNat := by
    simp [Graph.RankedBy, shadowingBody, Node.dependencies]
  exact
    { valid := rfl
      distinct := everywhere (by decide) (by decide)
      acyclic := everywhere ranked.acyclic bodyRanked.acyclic
      loops := everywhere (by simp [shadowing]) (by simp [shadowingBody])
      externalKeys := everywhere (by simp [shadowing, shadowingBody]) (by simp [shadowingBody]) }

/-- Pruning takes the binding that gave the name its value, and with it the success of
the evaluation. -/
theorem prune_loses_shadowed_binding :
    shadowing.WellFormed ∧
      (shadowing.evaluate knowingNothing fun _ => none).answer = .ok [("loop", .null)] ∧
      shadowing.prune.answer = .ok 2 ∧
      (shadowing.prune.graph.evaluate knowingNothing fun _ => none).answer =
        .error (.unresolvedName "x") :=
  ⟨shadowing_wellFormed, by cbv, by cbv, by cbv⟩

end FlowGraph

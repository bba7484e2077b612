import FlowGraph.Graph.Schedule
import FlowGraph.Proofs.Revision
import Mathlib.Data.Finset.Max

/-!
# Schedules are evaluation orders

A graph that is fit for evaluation has a schedule.  The schedule holds the same
nodes, each after the nodes that it depends on, and the same holds in the bodies
of loops.  Denotations do not see the difference.

Scheduling collects the orders of the whole nest and then puts them to use.  No order
fails then, so both come to one descent that arranges each graph by the order it finds
(`Graph.schedule_eq`).
-/

namespace FlowGraph

/-- Nodes in the order of their numbers. -/
def arrange (nodes : List Node) (order : List NodeId) : List Node :=
  order.filterMap fun id => nodes.find? fun node => node.id == id

mutual

/-- A graph and the bodies of its loops in evaluation order. -/
def Graph.scheduled : Graph → Except Fault Graph
  | ⟨nodes, exits, nextId⟩ => do
      let order ← evaluationOrder nodes
      let nodes ← scheduleBodies nodes
      return ⟨arrange nodes order, exits, nextId⟩

/-- Nodes with the bodies of loops in evaluation order. -/
def scheduleBodies : List Node → Except Fault (List Node)
  | [] => .ok []
  | ⟨id, .loop, .loop ⟨tag, index, body, bindings⟩, inputs, result⟩ :: rest => do
      let body ← body.scheduled
      let rest ← scheduleBodies rest
      return ⟨id, .loop, .loop ⟨tag, index, body, bindings⟩, inputs, result⟩ :: rest
  | ⟨id, .loop, _, _, _⟩ :: _ => .error (.bodyless id)
  | node :: rest => do
      let rest ← scheduleBodies rest
      return node :: rest

end

/-- Each node finds its dependencies among the placed nodes and those before it. -/
def Sequenced (placed : List NodeId) : List Node → Prop
  | [] => True
  | node :: rest =>
      (∀ dependency ∈ node.dependencies, dependency ∈ placed) ∧
        Sequenced (node.id :: placed) rest

namespace Sequenced

theorem mono {placed more : List NodeId} {nodes : List Node} (sequenced : Sequenced placed nodes)
    (subset : placed ⊆ more) : Sequenced more nodes := by
  induction nodes generalizing placed more with
  | nil => trivial
  | cons node rest induction =>
      refine ⟨fun dependency needed => subset (sequenced.1 dependency needed), ?_⟩
      exact induction sequenced.2 (List.cons_subset_cons node.id subset)

theorem append {placed : List NodeId} {first second : List Node}
    (firstSequenced : Sequenced placed first)
    (secondSequenced : Sequenced (first.map Node.id ++ placed) second) :
    Sequenced placed (first ++ second) := by
  induction first generalizing placed with
  | nil => exact secondSequenced
  | cons node rest induction =>
      refine ⟨firstSequenced.1, induction firstSequenced.2 (secondSequenced.mono ?_)⟩
      intro id member
      simp only [List.map_cons, List.cons_append, List.mem_cons, List.mem_append] at member ⊢
      tauto

theorem of_append {placed : List NodeId} {first second : List Node}
    (sequenced : Sequenced placed (first ++ second)) : Sequenced placed first := by
  induction first generalizing placed with
  | nil => trivial
  | cons node rest induction => exact ⟨sequenced.1, induction sequenced.2⟩

theorem of_dependencies {placed : List NodeId} {nodes : List Node}
    (placedFirst : ∀ node ∈ nodes, ∀ dependency ∈ node.dependencies, dependency ∈ placed) :
    Sequenced placed nodes := by
  induction nodes generalizing placed with
  | nil => trivial
  | cons node rest induction =>
      refine ⟨placedFirst node (by simp), induction ?_⟩
      intro other member dependency needed
      exact List.mem_cons_of_mem _ (placedFirst other (by simp [member]) dependency needed)

theorem revised {related : Loop → Loop → Prop} {placed : List NodeId} {nodes others : List Node}
    (revised : List.Forall₂ (Node.Revised related) nodes others)
    (bindings : ∀ loop changed, related loop changed → changed.bindings = loop.bindings)
    (sequenced : Sequenced placed nodes) : Sequenced placed others := by
  induction revised generalizing placed with
  | nil => trivial
  | cons first _ induction =>
      refine ⟨?_, ?_⟩
      · rw [first.dependencies_eq bindings]
        exact sequenced.1
      · rw [first.id_eq]
        exact induction sequenced.2

end Sequenced

theorem hasNode_iff {nodes : List Node} {id : NodeId} :
    hasNode nodes id = true ↔ id ∈ nodes.map Node.id := by
  simp [hasNode]

theorem isReady_iff {waiting : List Node} {node : Node} :
    isReady waiting node = true ↔
      ∀ dependency ∈ node.dependencies, dependency ∉ waiting.map Node.id := by
  simp [isReady, ← hasNode_iff]

theorem checkDependencies_eq_ok {nodes rest : List Node} :
    checkDependencies nodes rest = .ok () ↔
      ∀ node ∈ rest, ∀ dependency ∈ node.dependencies, dependency ∈ nodes.map Node.id := by
  induction rest with
  | nil => simp [checkDependencies]
  | cons node rest induction =>
      rw [List.forall_mem_cons, ← induction, checkDependencies]
      cases missing : node.dependencies.find? fun dependency => !hasNode nodes dependency with
      | none =>
          have present : ∀ dependency ∈ node.dependencies, dependency ∈ nodes.map Node.id := by
            intro dependency needed
            simpa [hasNode_iff] using List.find?_eq_none.mp missing dependency needed
          exact ⟨fun restDone => ⟨present, restDone⟩, And.right⟩
      | some dependency =>
          have needed := List.mem_of_find?_eq_some missing
          have absent : dependency ∉ nodes.map Node.id := by
            simpa [← hasNode_iff] using List.find?_some missing
          simp only [reduceCtorEq, false_iff]
          exact fun both => absent (both.1 dependency needed)

/-- Whether a node is ready depends on the numbers of the waiting nodes only. -/
theorem isReady_congr {waiting others : List Node} {node other : Node}
    (same : ∀ id, id ∈ others.map Node.id ↔ id ∈ waiting.map Node.id)
    (dependencies : other.dependencies = node.dependencies) :
    isReady others other = isReady waiting node := by
  rw [Bool.eq_iff_iff, isReady_iff, isReady_iff, dependencies]
  simp only [same]

theorem layers_of_ready {waiting : List Node} {later : List NodeId}
    (progress : waiting.filter (isReady waiting) ≠ [])
    (done : layers (unready waiting) = .ok later) :
    layers waiting = .ok ((waiting.filter (isReady waiting)).map Node.id ++ later) := by
  have nonempty : ¬ waiting.isEmpty := by
    intro empty
    rw [List.isEmpty_iff.mp empty] at progress
    exact progress rfl
  rw [layers, if_neg nonempty, dif_neg progress, done]
  rfl

/-- Nodes that stand in layers already stay in their order: the first layer is ready
again, and the others wait again. -/
theorem layers_of_append {waiting arranged : List Node} {later : List NodeId}
    (progress : waiting.filter (isReady waiting) ≠ [])
    (permutation : arranged.Perm (unready waiting)) (done : layers arranged = .ok later) :
    layers (waiting.filter (isReady waiting) ++ arranged) =
      .ok ((waiting.filter (isReady waiting)).map Node.id ++ later) := by
  have whole : (waiting.filter (isReady waiting) ++ arranged).Perm waiting :=
    (permutation.append_left _).trans (List.filter_append_perm _ _)
  have sameReady : isReady (waiting.filter (isReady waiting) ++ arranged) = isReady waiting := by
    funext node
    exact isReady_congr (fun id => (whole.map Node.id).mem_iff) rfl
  have waits : ∀ node ∈ arranged, isReady waiting node = false := by
    intro node member
    simpa using (List.mem_filter.mp (permutation.subset member)).2
  have noneReady : arranged.filter (isReady waiting) = [] :=
    List.filter_eq_nil_iff.mpr fun node member => by simp [waits node member]
  have allWait : arranged.filter (fun node => !isReady waiting node) = arranged :=
    List.filter_eq_self.mpr fun node member => by simp [waits node member]
  have ready : (waiting.filter (isReady waiting) ++ arranged).filter (isReady waiting) =
      waiting.filter (isReady waiting) := by
    rw [List.filter_append, noneReady, List.append_nil]
    simp
  have waitAgain : unready (waiting.filter (isReady waiting) ++ arranged) = arranged := by
    unfold unready
    rw [sameReady, List.filter_append, allWait]
    simp
  rw [← waitAgain] at done
  have again := layers_of_ready (by rwa [sameReady, ready]) done
  rwa [sameReady, ready] at again

/-- Layers are the waiting nodes in a new order, in which layering leaves them.  A
dependency that does not wait must have been placed before. -/
theorem layers_sequenced {waiting : List Node} {order placed : List NodeId}
    (done : layers waiting = .ok order)
    (known : ∀ node ∈ waiting, ∀ dependency ∈ node.dependencies,
      dependency ∈ placed ∨ dependency ∈ waiting.map Node.id) :
    ∃ arranged : List Node, order = arranged.map Node.id ∧ arranged.Perm waiting ∧
      Sequenced placed arranged ∧ layers arranged = .ok order := by
  fun_induction layers waiting generalizing order placed with
  | case1 waiting empty =>
      cases done
      obtain rfl : waiting = [] := List.isEmpty_iff.mp empty
      exact ⟨[], rfl, .refl _, trivial, by rw [layers]; rfl⟩
  | case2 waiting _ stuck => cases done
  | case3 waiting _ progress induction =>
      obtain ⟨later, laterDone, rfl⟩ : ∃ later, layers (unready waiting) = .ok later ∧
          order = (waiting.filter (isReady waiting)).map Node.id ++ later := by
        obtain ⟨later, laterDone, ends⟩ := bind_eq_ok.mp done
        cases ends
        exact ⟨later, laterDone, rfl⟩
      have split : (waiting.filter (isReady waiting) ++ unready waiting).Perm waiting :=
        List.filter_append_perm _ _
      have laterKnown : ∀ node ∈ unready waiting, ∀ dependency ∈ node.dependencies,
          dependency ∈ (waiting.filter (isReady waiting)).map Node.id ++ placed ∨
            dependency ∈ (unready waiting).map Node.id := by
        intro node member dependency needed
        have inWaiting := (List.mem_filter.mp member).1
        rcases known node inWaiting dependency needed with old | new
        · exact .inl (List.mem_append_right _ old)
        · have either := (split.map Node.id).mem_iff.mpr new
          rw [List.map_append, List.mem_append] at either
          rcases either with ready | unready
          · exact .inl (List.mem_append_left _ ready)
          · exact .inr unready
      obtain ⟨arranged, rfl, permutation, sequenced, again⟩ := induction laterDone laterKnown
      refine ⟨waiting.filter (isReady waiting) ++ arranged, by simp,
        (permutation.append_left _).trans split, .append (.of_dependencies ?_) sequenced,
        layers_of_append progress permutation again⟩
      intro node member dependency needed
      obtain ⟨inWaiting, ready⟩ := List.mem_filter.mp member
      exact (known node inWaiting dependency needed).resolve_right
        (isReady_iff.mp ready dependency needed)

/-- Layers depend on the numbers and the dependencies of the nodes only. -/
theorem layers_paired {nodes others : List Node} {order : List NodeId}
    (paired : List.Forall₂ (fun node other : Node =>
      other.id = node.id ∧ other.dependencies = node.dependencies) nodes others)
    (done : layers nodes = .ok order) : layers others = .ok order := by
  fun_induction layers nodes generalizing others order with
  | case1 nodes empty =>
      cases done
      obtain rfl : nodes = [] := List.isEmpty_iff.mp empty
      cases paired
      rw [layers]
      rfl
  | case2 nodes _ stuck => cases done
  | case3 nodes _ progress induction =>
      obtain ⟨later, laterDone, ends⟩ := bind_eq_ok.mp done
      cases ends
      have sameIds : others.map Node.id = nodes.map Node.id :=
        ids_paired (fun _ _ same => same.1) paired
      have readyAlike : ∀ node other : Node, other.id = node.id ∧
          other.dependencies = node.dependencies → isReady others other = isReady nodes node :=
        fun node other same => isReady_congr (by simp [sameIds]) same.2
      have ready : List.Forall₂ _ (nodes.filter (isReady nodes)) (others.filter (isReady others)) :=
        List.rel_filter (fun node other same => by simp [readyAlike node other same]) paired
      have waiting : List.Forall₂ _ (unready nodes) (unready others) :=
        List.rel_filter (fun node other same => by simp [readyAlike node other same]) paired
      have sameReady := ids_paired (fun _ _ same => same.1) ready
      rw [← sameReady]
      refine layers_of_ready ?_ (induction waiting laterDone)
      intro stuck
      rw [stuck] at sameReady
      exact progress (List.map_eq_nil_iff.mp sameReady.symm)

/-- Among ranked nodes that wait, the lowest is ready, so layering ends well. -/
theorem layers_succeeds {waiting : List Node} {rank : NodeId → Nat}
    (ranked : ∀ node ∈ waiting, ∀ dependency ∈ node.dependencies, rank dependency < rank node.id) :
    ∃ order, layers waiting = .ok order := by
  fun_induction layers waiting with
  | case1 => exact ⟨[], rfl⟩
  | case2 waiting nonempty stuck =>
      exfalso
      have inhabited : (waiting.map Node.id).toFinset.Nonempty := by
        simpa [Finset.nonempty_iff_ne_empty, List.isEmpty_iff] using nonempty
      obtain ⟨lowest, inside, least⟩ := Finset.exists_min_image _ rank inhabited
      obtain ⟨node, member, same⟩ := List.mem_map.mp (List.mem_toFinset.mp inside)
      have ready : isReady waiting node = true := by
        rw [isReady_iff]
        intro dependency needed waits
        have below := ranked node member dependency needed
        have above := least dependency (List.mem_toFinset.mpr waits)
        rw [same] at below
        omega
      have present : node ∈ waiting.filter (isReady waiting) :=
        List.mem_filter.mpr ⟨member, ready⟩
      rw [stuck] at present
      cases present
  | case3 waiting _ progress induction =>
      obtain ⟨later, done⟩ := induction fun node member =>
        ranked node (List.mem_filter.mp member).1
      exact ⟨_, bind_eq_ok.mpr ⟨later, done, rfl⟩⟩

theorem find?_arrange (nodes : List Node) (order : List NodeId) (id : NodeId) :
    ((arrange nodes order).find? fun node => node.id == id) =
      if id ∈ order then nodes.find? fun node => node.id == id else none := by
  induction order with
  | nil => rfl
  | cons first rest induction =>
      unfold arrange at induction ⊢
      rw [List.filterMap_cons]
      cases found : nodes.find? fun node => node.id == first with
      | none =>
          simp only [induction, List.mem_cons]
          by_cases same : id = first
          · subst same
            simp [found]
          · simp [same]
      | some node =>
          have numbered : node.id = first := by simpa using List.find?_some found
          simp only [List.find?_cons, numbered, induction, List.mem_cons]
          by_cases same : first = id
          · subst same
            simp [found]
          · simp [beq_eq_false_iff_ne.mpr same, Ne.symm same]

/-- A loop whose body was put into evaluation order. -/
structure Loop.ScheduledTo (loop changed : Loop) : Prop where
  body : loop.body.scheduled = .ok changed.body
  bindings : changed.bindings = loop.bindings
  index : changed.index = loop.index
  tag : changed.tag = loop.tag

theorem scheduleBodies_loop {node : Node} {loop : Loop} (runs : node.loop? = some loop)
    (rest : List Node) :
    scheduleBodies (node :: rest) = (do
      let body ← loop.body.scheduled
      let others ← scheduleBodies rest
      return { node with content := .loop { loop with body := body } } :: others) := by
  obtain ⟨kind, content⟩ := Node.loop?_eq_some.mp runs
  obtain ⟨id, _, _, inputs, result⟩ := node
  obtain ⟨tag, index, body, bindings⟩ := loop
  cases kind
  cases content
  rfl

theorem scheduleBodies_plain {node : Node} (noLoop : node.kind ≠ .loop) (rest : List Node) :
    scheduleBodies (node :: rest) = (do
      let others ← scheduleBodies rest
      return node :: others) := by
  obtain ⟨id, kind, content, inputs, result⟩ := node
  rw [scheduleBodies]
  · rintro _ _ _ _ _ _ _ ⟨⟩
    exact noLoop rfl
  · rintro _ _ _ _ ⟨⟩
    exact noLoop rfl

theorem scheduleBodies_bodyless {node : Node} (kind : node.kind = .loop)
    (noLoop : node.loop? = none) (rest : List Node) :
    scheduleBodies (node :: rest) = .error (.bodyless node.id) := by
  obtain ⟨id, _, content, inputs, result⟩ := node
  cases kind
  cases content
  case loop => cases noLoop
  all_goals rfl

theorem scheduleBodies_revised {nodes others : List Node}
    (done : scheduleBodies nodes = .ok others) :
    List.Forall₂ (Node.Revised Loop.ScheduledTo) nodes others := by
  induction nodes generalizing others with
  | nil =>
      cases done
      exact .nil
  | cons node rest induction =>
      cases runs : node.loop? with
      | some loop =>
          rw [scheduleBodies_loop runs] at done
          obtain ⟨body, bodyDone, afterBody⟩ := bind_eq_ok.mp done
          obtain ⟨later, restDone, ends⟩ := bind_eq_ok.mp afterBody
          cases ends
          exact .cons (.loop runs ⟨bodyDone, rfl, rfl, rfl⟩) (induction restDone)
      | none =>
          by_cases kind : node.kind = .loop
          · rw [scheduleBodies_bodyless kind runs] at done
            cases done
          · rw [scheduleBodies_plain kind] at done
            obtain ⟨later, restDone, ends⟩ := bind_eq_ok.mp done
            cases ends
            exact .cons (.same runs) (induction restDone)

/-- Scheduling that succeeds has found a loop in every loop node. -/
theorem carried_of_scheduleBodies {nodes others : List Node}
    (done : scheduleBodies nodes = .ok others) :
    ∀ node ∈ nodes, node.kind = .loop → ∃ loop, node.loop? = some loop := by
  induction nodes generalizing others with
  | nil => simp
  | cons node rest induction =>
      cases runs : node.loop? with
      | some loop =>
          rw [scheduleBodies_loop runs] at done
          obtain ⟨_, _, afterBody⟩ := bind_eq_ok.mp done
          obtain ⟨later, restDone, _⟩ := bind_eq_ok.mp afterBody
          exact List.forall_mem_cons.mpr ⟨fun _ => ⟨loop, runs⟩, induction restDone⟩
      | none =>
          by_cases kind : node.kind = .loop
          · rw [scheduleBodies_bodyless kind runs] at done
            cases done
          · rw [scheduleBodies_plain kind] at done
            obtain ⟨later, restDone, _⟩ := bind_eq_ok.mp done
            exact List.forall_mem_cons.mpr ⟨fun isLoop => absurd isLoop kind, induction restDone⟩

theorem scheduleBodies_succeeds {nodes : List Node}
    (carried : ∀ node ∈ nodes, node.kind = .loop → ∃ loop, node.content = .loop loop)
    (bodies : ∀ node ∈ nodes, ∀ loop, node.loop? = some loop →
      ∃ body, loop.body.scheduled = .ok body) :
    ∃ others, scheduleBodies nodes = .ok others := by
  induction nodes with
  | nil => exact ⟨[], rfl⟩
  | cons node rest induction =>
      obtain ⟨others, restDone⟩ := induction (fun other member => carried other (by simp [member]))
        (fun other member => bodies other (by simp [member]))
      by_cases kind : node.kind = .loop
      · obtain ⟨loop, content⟩ := carried node (by simp) kind
        have runs := Node.loop?_eq_some.mpr ⟨kind, content⟩
        obtain ⟨body, bodyDone⟩ := bodies node (by simp) loop runs
        rw [scheduleBodies_loop runs]
        exact ⟨_, bind_eq_ok.mpr ⟨body, bodyDone, bind_eq_ok.mpr ⟨others, restDone, rfl⟩⟩⟩
      · rw [scheduleBodies_plain kind]
        exact ⟨_, bind_eq_ok.mpr ⟨others, restDone, rfl⟩⟩

theorem arrange_revised {related : Loop → Loop → Prop} {nodes others arranged : List Node}
    (revised : List.Forall₂ (Node.Revised related) nodes others)
    (distinct : (nodes.map Node.id).Nodup) (subset : arranged ⊆ nodes) :
    List.Forall₂ (Node.Revised related) arranged (arrange others (arranged.map Node.id)) := by
  induction arranged with
  | nil => exact .nil
  | cons node rest induction =>
      have found := find?_of_mem distinct (subset List.mem_cons_self)
      obtain ⟨other, foundOther, related⟩ := exists_partner (find?_revised revised node.id) found
      unfold arrange at induction ⊢
      rw [List.map_cons, List.filterMap_cons, foundOther]
      exact .cons related (induction fun later member => subset (List.mem_cons_of_mem _ member))

/-- The same nodes in evaluation order, at every depth. -/
structure Graph.Schedules (graph scheduled : Graph) : Prop where
  exits : scheduled.exits = graph.exits
  nextId : scheduled.nextId = graph.nextId
  ids : scheduled.ids.Perm graph.ids
  sequenced : Sequenced [] scheduled.nodes
  nodes : ∀ id, Option.Rel (Node.Revised Loop.ScheduledTo) (graph.find? id) (scheduled.find? id)

theorem Graph.scheduled_eq_ok_iff {graph scheduled : Graph} :
    graph.scheduled = .ok scheduled ↔ ∃ order others,
      evaluationOrder graph.nodes = .ok order ∧ scheduleBodies graph.nodes = .ok others ∧
      scheduled = ⟨arrange others order, graph.exits, graph.nextId⟩ := by
  obtain ⟨nodes, exits, nextId⟩ := graph
  rw [Graph.scheduled, bind_eq_ok]
  constructor
  · rintro ⟨order, ordered, afterOrder⟩
    obtain ⟨others, bodies, ends⟩ := bind_eq_ok.mp afterOrder
    cases ends
    exact ⟨order, others, ordered, bodies, rfl⟩
  · rintro ⟨order, others, ordered, bodies, rfl⟩
    exact ⟨order, ordered, bind_eq_ok.mpr ⟨others, bodies, rfl⟩⟩

/-- Behind every schedule is an arrangement of the nodes of the graph in layers. -/
theorem Graph.exists_arranged {graph : Graph} {order : List NodeId}
    (ordered : evaluationOrder graph.nodes = .ok order) :
    ∃ arranged : List Node, order = arranged.map Node.id ∧ arranged.Perm graph.nodes ∧
      Sequenced [] arranged ∧ layers arranged = .ok order := by
  obtain ⟨checked, layered⟩ := check_eq_ok.mp ordered
  exact layers_sequenced layered fun node member dependency needed =>
    .inr (checkDependencies_eq_ok.mp checked node member dependency needed)

section Collecting

theorem ordersInside_loop {node : Node} {loop : Loop} (runs : node.loop? = some loop)
    (rest : List Node) :
    ordersInside (node :: rest) = (do
      let inner ← loop.body.orders
      let others ← ordersInside rest
      return inner ++ others) := by
  obtain ⟨kind, content⟩ := Node.loop?_eq_some.mp runs
  obtain ⟨id, _, _, inputs, result⟩ := node
  obtain ⟨tag, index, held, bindings⟩ := loop
  cases kind
  cases content
  rfl

theorem ordersInside_plain {node : Node} (noLoop : node.kind ≠ .loop) (rest : List Node) :
    ordersInside (node :: rest) = ordersInside rest := by
  obtain ⟨id, kind, content, inputs, result⟩ := node
  rw [ordersInside]
  · rintro _ _ _ _ _ _ _ ⟨⟩
    exact noLoop rfl
  · rintro _ _ _ _ ⟨⟩
    exact noLoop rfl

theorem ordersInside_bodyless {node : Node} (kind : node.kind = .loop)
    (noLoop : node.loop? = none) (rest : List Node) :
    ordersInside (node :: rest) = .error (.bodyless node.id) := by
  obtain ⟨id, _, content, inputs, result⟩ := node
  cases kind
  cases content
  case loop => cases noLoop
  all_goals rfl

theorem arrangeInside_loop {node : Node} {loop : Loop} {orders others : List (List NodeId)}
    {body : Graph} (runs : node.loop? = some loop)
    (arranged : loop.body.arrangeBy orders = ⟨body, .ok others⟩) (rest : List Node) :
    arrangeInside (node :: rest) orders =
      ({ node with content := .loop { loop with body := body } } ::
        (arrangeInside rest others).1, (arrangeInside rest others).2) := by
  obtain ⟨kind, content⟩ := Node.loop?_eq_some.mp runs
  obtain ⟨id, _, _, inputs, result⟩ := node
  obtain ⟨tag, index, held, bindings⟩ := loop
  cases kind
  cases content
  rw [arrangeInside, arranged]

theorem arrangeInside_plain {node : Node} (noLoop : node.loop? = none) (rest : List Node)
    (orders : List (List NodeId)) :
    arrangeInside (node :: rest) orders =
      (node :: (arrangeInside rest orders).1, (arrangeInside rest orders).2) := by
  obtain ⟨id, kind, content, inputs, result⟩ := node
  rw [arrangeInside]
  rintro _ _ _ _ _ _ _ ⟨⟩
  cases noLoop

/-- The orders of the nest are those of its schedule, and putting them to use leads to
that schedule; without orders there is no schedule. -/
def Graph.FollowsOrders (graph : Graph) : Prop :=
  match graph.orders with
  | .ok orders => ∃ scheduled, graph.scheduled = .ok scheduled ∧
      ∀ rest, graph.arrangeBy (orders ++ rest) = ⟨scheduled, .ok rest⟩
  | .error fault => graph.scheduled = .error fault

theorem arrangeInside_orders {nodes : List Node}
    (bodies : ∀ node ∈ nodes, ∀ loop, node.loop? = some loop → loop.body.FollowsOrders) :
    match ordersInside nodes with
    | .ok orders => ∃ others, scheduleBodies nodes = .ok others ∧
        ∀ rest, arrangeInside nodes (orders ++ rest) = (others, .ok rest)
    | .error fault => scheduleBodies nodes = .error fault := by
  induction nodes with
  | nil => exact ⟨[], rfl, fun rest => by rw [arrangeInside, List.nil_append]⟩
  | cons node rest induction =>
      have later := induction fun other member => bodies other (List.mem_cons_of_mem _ member)
      cases runs : node.loop? with
      | some loop =>
          have inside := bodies node List.mem_cons_self loop runs
          rw [ordersInside_loop runs, scheduleBodies_loop runs]
          unfold Graph.FollowsOrders at inside
          cases inner : loop.body.orders with
          | error fault =>
              rw [inner] at inside
              simp only [inside]
              rfl
          | ok orders =>
              rw [inner] at inside
              obtain ⟨body, bodyDone, arranged⟩ := inside
              rw [bodyDone]
              cases remaining : ordersInside rest with
              | error fault =>
                  rw [remaining] at later
                  rw [later]
                  rfl
              | ok others =>
                  rw [remaining] at later
                  obtain ⟨changed, restDone, arrangedRest⟩ := later
                  rw [restDone]
                  refine ⟨_, rfl, fun more => ?_⟩
                  rw [List.append_assoc, arrangeInside_loop runs (arranged (others ++ more)),
                    arrangedRest]
      | none =>
          by_cases kind : node.kind = .loop
          · rw [ordersInside_bodyless kind runs]
            exact scheduleBodies_bodyless kind runs rest
          · rw [ordersInside_plain kind, scheduleBodies_plain kind]
            cases remaining : ordersInside rest with
            | error fault =>
                rw [remaining] at later
                rw [later]
                rfl
            | ok others =>
                rw [remaining] at later
                obtain ⟨changed, restDone, arrangedRest⟩ := later
                rw [restDone]
                refine ⟨_, rfl, fun more => ?_⟩
                rw [arrangeInside_plain runs, arrangedRest]

/-- A collected order lists each node once, so it is never refused. -/
theorem Graph.followsOrders (graph : Graph) : graph.FollowsOrders := by
  induction graph using bodyInduction with
  | step graph induction =>
      have inside := arrangeInside_orders induction
      obtain ⟨nodes, exits, nextId⟩ := graph
      unfold FollowsOrders
      rw [orders, scheduled]
      cases ordered : evaluationOrder nodes with
      | error fault => rfl
      | ok order =>
          cases inner : ordersInside nodes with
          | error fault =>
              rw [inner] at inside
              rw [inside]
              rfl
          | ok others =>
              rw [inner] at inside
              obtain ⟨changed, bodies, arranged⟩ := inside
              rw [bodies]
              refine ⟨_, rfl, fun rest => ?_⟩
              obtain ⟨placed, rfl, permutation, _, _⟩ :=
                @exists_arranged ⟨nodes, exits, nextId⟩ order ordered
              have sameIds : changed.map Node.id = nodes.map Node.id :=
                ids_revised (scheduleBodies_revised bodies)
              have listed : (placed.map Node.id).isPerm
                  (Graph.mk changed exits nextId).ids = true := by
                rw [List.isPerm_iff, Graph.ids, sameIds]
                exact permutation.map Node.id
              rw [List.cons_append, arrangeBy, arranged]
              simp only [Graph.reorder, if_pos listed]
              rfl

/-- Scheduling puts the graph into its schedule, or it changes nothing. -/
theorem Graph.schedule_eq (graph : Graph) :
    graph.schedule =
      match graph.scheduled with
      | .ok scheduled => ⟨scheduled, .ok ()⟩
      | .error fault => ⟨graph, .error fault⟩ := by
  have follows := graph.followsOrders
  unfold FollowsOrders at follows
  unfold schedule
  cases collected : graph.orders with
  | error fault =>
      rw [collected] at follows
      rw [follows]
  | ok orders =>
      rw [collected] at follows
      obtain ⟨scheduled, done, arranged⟩ := follows
      have whole := arranged []
      rw [List.append_nil] at whole
      simp only [whole, done]
      rfl

theorem Graph.schedule_eq_ok_iff {graph scheduled : Graph} :
    graph.schedule = ⟨scheduled, .ok ()⟩ ↔ graph.scheduled = .ok scheduled := by
  rw [Graph.schedule_eq]
  cases graph.scheduled <;> simp

end Collecting

/-- A schedule holds the nodes of the graph in their order, with schedules of the bodies. -/
theorem Graph.exists_arranged_revised {graph scheduled : Graph} (distinct : graph.ids.Nodup)
    (done : graph.scheduled = .ok scheduled) :
    ∃ arranged : List Node, arranged.Perm graph.nodes ∧
      evaluationOrder graph.nodes = .ok (arranged.map Node.id) ∧
      List.Forall₂ (Node.Revised Loop.ScheduledTo) arranged scheduled.nodes := by
  obtain ⟨order, others, ordered, bodies, rfl⟩ := scheduled_eq_ok_iff.mp done
  obtain ⟨arranged, rfl, permutation, _, _⟩ := exists_arranged ordered
  exact ⟨arranged, permutation, ordered,
    arrange_revised (scheduleBodies_revised bodies) distinct permutation.subset⟩

theorem Graph.schedules_of_scheduled {graph scheduled : Graph} (distinct : graph.ids.Nodup)
    (done : graph.scheduled = .ok scheduled) : graph.Schedules scheduled := by
  obtain ⟨order, others, ordered, bodies, rfl⟩ := scheduled_eq_ok_iff.mp done
  obtain ⟨arranged, rfl, permutation, sequenced, _⟩ := exists_arranged ordered
  have revised := scheduleBodies_revised bodies
  have arrangedRevised := arrange_revised revised distinct permutation.subset
  refine ⟨rfl, rfl, ?_, sequenced.revised arrangedRevised fun _ _ related => related.bindings, ?_⟩
  · exact (List.Perm.of_eq (ids_revised arrangedRevised)).trans (permutation.map Node.id)
  · intro id
    have sameNodes := find?_revised revised id
    unfold Graph.find?
    rw [find?_arrange]
    by_cases present : id ∈ arranged.map Node.id
    · simpa [present] using sameNodes
    · have absent : (graph.nodes.find? fun node => node.id == id) = none := by
        rw [List.find?_eq_none]
        intro node member equal
        exact present ((permutation.map Node.id).mem_iff.mpr
          (beq_iff_eq.mp equal ▸ List.mem_map_of_mem member))
      simp only [present, if_false, absent]
      exact .none

/-- Layering leaves a schedule as it is. -/
theorem Graph.layers_scheduled {graph scheduled : Graph} (distinct : graph.ids.Nodup)
    (done : graph.scheduled = .ok scheduled) : layers scheduled.nodes = .ok scheduled.ids := by
  obtain ⟨order, others, ordered, bodies, rfl⟩ := scheduled_eq_ok_iff.mp done
  obtain ⟨arranged, rfl, permutation, _, layered⟩ := exists_arranged ordered
  have revised := arrange_revised (scheduleBodies_revised bodies) distinct permutation.subset
  have sameIds : (arrange others (arranged.map Node.id)).map Node.id = arranged.map Node.id :=
    ids_revised revised
  unfold Graph.ids
  rw [sameIds]
  refine layers_paired (revised.imp fun node other changed => ?_) layered
  exact ⟨changed.id_eq, changed.dependencies_eq fun _ _ related => related.bindings⟩

/-- What a schedule needs of a graph, cycles apart: numbers name one node each,
references stay inside, and loop nodes have loops. -/
structure Graph.Schedulable (graph : Graph) : Prop where
  distinct : graph.ids.Nodup
  linked : ∀ node ∈ graph.nodes, ∀ id ∈ node.dependencies, id ∈ graph.ids
  carried : ∀ node ∈ graph.nodes, node.kind = .loop → ∃ loop, node.content = .loop loop

theorem Graph.schedulable_of_scheduled {graph scheduled : Graph} (distinct : graph.ids.Nodup)
    (done : graph.scheduled = .ok scheduled) : scheduled.Schedulable := by
  have schedules := schedules_of_scheduled distinct done
  have stillDistinct : scheduled.ids.Nodup := schedules.ids.nodup_iff.mpr distinct
  have origin : ∀ changed ∈ scheduled.nodes, ∃ node, graph.find? changed.id = some node ∧
      node.Revised Loop.ScheduledTo changed :=
    fun _ member => exists_partnered (schedules.nodes _) (find?_of_mem stillDistinct member)
  obtain ⟨order, others, ordered, bodies, _⟩ := scheduled_eq_ok_iff.mp done
  have linked := checkDependencies_eq_ok.mp (check_eq_ok.mp ordered).1
  refine ⟨stillDistinct, ?_, ?_⟩
  · intro changed member id needed
    obtain ⟨node, found, revised⟩ := origin changed member
    rw [revised.dependencies_eq fun _ _ related => related.bindings] at needed
    exact schedules.ids.mem_iff.mpr (linked node (mem_of_find? found).1 id needed)
  · intro changed member kind
    obtain ⟨node, found, revised⟩ := origin changed member
    obtain ⟨loop, runs⟩ := carried_of_scheduleBodies bodies node (mem_of_find? found).1
      (revised.kind_eq ▸ kind)
    obtain ⟨held, runsChanged, _⟩ := revised.exists_loop runs
    exact ⟨held, (Node.loop?_eq_some.mp runsChanged).2⟩

theorem Value.plain_loop (loop : Loop) : (Value.loop loop).plain = loop.describe := by
  rw [Value.plain, Value.describe]
  all_goals simp

/-- The text of a loop shows the size and the exits of its body, and no more of it. -/
theorem Loop.describe_eq {loop changed : Loop} (index : changed.index = loop.index)
    (bindings : changed.bindings = loop.bindings)
    (size : changed.body.nodes.length = loop.body.nodes.length)
    (exits : changed.body.exits = loop.body.exits) : changed.describe = loop.describe := by
  have body : changed.body.describe = loop.body.describe := by
    unfold Graph.describe
    rw [size, exits]
  unfold Loop.describe
  rw [index, bindings, body]

namespace Graph

theorem exists_scheduled {graph : Graph} (evaluable : graph.Everywhere Evaluable) :
    ∃ scheduled, graph.scheduled = .ok scheduled := by
  induction graph using bodyInduction with
  | step graph induction =>
      obtain ⟨distinct, linked, _, carried, _, acyclic⟩ := evaluable.here
      obtain ⟨rank, ranked⟩ := acyclic.exists_rank
      obtain ⟨order, layered⟩ := layers_succeeds ranked
      obtain ⟨others, bodiesDone⟩ := scheduleBodies_succeeds carried fun node member loop runs =>
        induction node member loop runs (evaluable.body (find?_of_mem distinct member) runs)
      have ordered : evaluationOrder graph.nodes = .ok order :=
        check_eq_ok.mpr ⟨checkDependencies_eq_ok.mpr linked, layered⟩
      exact ⟨_, scheduled_eq_ok_iff.mpr ⟨order, others, ordered, bodiesDone, rfl⟩⟩

/-- What a run over the nodes in their order needs of a graph. -/
structure Runnable (graph : Graph) : Prop where
  distinct : graph.ids.Nodup
  sequenced : Sequenced [] graph.nodes
  exits : ∀ exit ∈ graph.exits, exit.2 ∈ graph.ids

namespace Schedules

variable {graph scheduled : Graph} (schedules : graph.Schedules scheduled)
include schedules

theorem forward {id : NodeId} {node : Node} (found : graph.find? id = some node) :
    ∃ other, scheduled.find? id = some other ∧ node.Revised Loop.ScheduledTo other :=
  exists_partner (schedules.nodes _) found

theorem backward {id : NodeId} {other : Node} (found : scheduled.find? id = some other) :
    ∃ node, graph.find? id = some node ∧ node.Revised Loop.ScheduledTo other :=
  exists_partnered (schedules.nodes _) found

theorem resembled {id : NodeId} {other : Node} (found : scheduled.find? id = some other) :
    ∃ node, graph.find? id = some node ∧ node.Resembles Loop.ScheduledTo other := by
  obtain ⟨node, foundNode, revised⟩ := schedules.backward found
  exact ⟨node, foundNode, revised.resembles⟩

theorem mem_ids_iff {id : NodeId} : id ∈ scheduled.ids ↔ id ∈ graph.ids :=
  schedules.ids.mem_iff

end Schedules

theorem schedules_of_evaluable {graph scheduled : Graph} (evaluable : graph.Everywhere Evaluable)
    (done : graph.scheduled = .ok scheduled) : graph.Schedules scheduled :=
  schedules_of_scheduled evaluable.here.distinct done

/-- What every schedule has, the graphs of the nest of a schedule have. -/
theorem everywhere_scheduled {before after : Graph → Prop}
    (distinct : ∀ graph : Graph, before graph → graph.ids.Nodup)
    (step : ∀ graph scheduled : Graph, graph.Everywhere before → graph.scheduled = .ok scheduled →
      after scheduled)
    {graph scheduled : Graph} (everywhere : graph.Everywhere before)
    (done : graph.scheduled = .ok scheduled) : scheduled.Everywhere after := by
  induction graph using bodyInduction generalizing scheduled with
  | step graph induction =>
      have schedules := schedules_of_scheduled (distinct graph everywhere.here) done
      refine everywhere_of_origins (fun _ _ => schedules.backward)
        (step graph scheduled everywhere done) ?_
      intro id node loop changed found runs related
      exact induction node (mem_of_find? found).1 loop runs (everywhere.body found runs)
        related.body

/-- Every path leads to a graph and to its schedule. -/
theorem within?_scheduled {related : Graph → Graph → Prop}
    (step : ∀ graph scheduled : Graph, graph.ids.Nodup → graph.scheduled = .ok scheduled →
      related graph scheduled)
    {graph scheduled : Graph} (distinct : graph.Everywhere fun body => body.ids.Nodup)
    (done : graph.scheduled = .ok scheduled) (path : List NodeId) :
    Option.Rel related (graph.within? path) (scheduled.within? path) := by
  induction graph using bodyInduction generalizing scheduled path with
  | step graph induction =>
      have schedules := schedules_of_scheduled distinct.here done
      cases path with
      | nil => exact .some (step graph scheduled distinct.here done)
      | cons id path =>
          cases found : graph.find? id with
          | none =>
              have absent : scheduled.find? id = none := by
                rw [find?_eq_none, schedules.mem_ids_iff]
                exact find?_eq_none.mp found
              simp only [within?, found, absent, Option.bind_none]
              exact .none
          | some node =>
              obtain ⟨other, foundOther, revised⟩ := schedules.forward found
              cases runs : node.loop? with
              | none =>
                  cases revised with
                  | same =>
                      simp only [within?, found, foundOther, Option.bind_some, runs]
                      exact .none
                  | loop held => cases runs.symm.trans held
              | some loop =>
                  obtain ⟨changed, otherRuns, related⟩ := revised.exists_loop runs
                  simp only [within?, found, foundOther, Option.bind_some, runs, otherRuns]
                  exact induction node (mem_of_find? found).1 loop runs
                    (distinct.body found runs) related.body path

theorem runnable_of_scheduled {graph scheduled : Graph} (evaluable : graph.Everywhere Evaluable)
    (done : graph.scheduled = .ok scheduled) : scheduled.Everywhere Runnable := by
  refine everywhere_scheduled (fun _ => Evaluable.distinct) ?_ evaluable done
  intro graph scheduled evaluable done
  have schedules := schedules_of_evaluable evaluable done
  refine ⟨schedules.ids.nodup_iff.mpr evaluable.here.distinct, schedules.sequenced, ?_⟩
  intro exit member
  rw [schedules.exits] at member
  exact schedules.mem_ids_iff.mpr (evaluable.here.exits exit member)

/-- A schedule of a graph that is fit for evaluation is fit for it too. -/
theorem evaluable_of_scheduled {graph scheduled : Graph} (evaluable : graph.Everywhere Evaluable)
    (done : graph.scheduled = .ok scheduled) : scheduled.Everywhere Evaluable := by
  refine everywhere_scheduled (fun _ => Evaluable.distinct) ?_ evaluable done
  intro graph scheduled evaluable done
  have schedules := schedules_of_evaluable evaluable done
  have runnable := (runnable_of_scheduled evaluable done).here
  refine evaluable.here.of_resembling runnable.distinct
    (fun id other found => schedules.resembled found) ?_ runnable.exits
    (fun _ _ related => related.bindings ▸ List.Subset.refl _) ?_
  · intro other member id needed
    obtain ⟨node, found, revised⟩ := schedules.backward (find?_of_mem runnable.distinct member)
    rw [revised.dependencies_eq fun _ _ related => related.bindings] at needed
    exact schedules.mem_ids_iff.mpr (evaluable.here.linked node (mem_of_find? found).1 id needed)
  · intro id node loop changed found runs related binding member
    rw [related.bindings] at member
    have present := evaluable.here.keys node (mem_of_find? found).1 loop runs binding member
    exact (schedules_of_evaluable (evaluable.body found runs) related.body).mem_ids_iff.mpr present

theorem formed_of_scheduled {graph scheduled : Graph} (formed : graph.Everywhere Formed)
    (done : graph.scheduled = .ok scheduled) : scheduled.Everywhere Formed := by
  refine everywhere_scheduled (fun _ formed => formed.distinct) ?_ formed done
  intro graph scheduled formed done
  have evaluable := formed.evaluable
  have schedules := schedules_of_evaluable evaluable done
  have fit := (evaluable_of_scheduled evaluable done).here
  refine formed.here.of_revised fit.distinct (fun id other found => schedules.backward found)
    fit.linked fit.exits (fun _ _ related => related.bindings ▸ List.Subset.refl _) ?_
  intro id node loop changed found runs related binding member
  rw [related.bindings] at member
  obtain ⟨bound, foundBound, external⟩ :=
    formed.here.externalKeys node (mem_of_find? found).1 loop runs binding member
  obtain ⟨target, foundTarget, revised⟩ := (schedules_of_evaluable
    (evaluable.body found runs) related.body).forward foundBound
  exact ⟨target, foundTarget, revised.kind_eq.trans external⟩

/-- Scheduling leaves the names of nodes alone: the text of a loop does not depend
on the order of its body. -/
theorem names_of_scheduled {graph scheduled : Graph} (evaluable : graph.Everywhere Evaluable)
    (done : graph.scheduled = .ok scheduled) (id : NodeId) :
    (scheduled.find? id).map (fun node => node.content.plain) =
      (graph.find? id).map fun node => node.content.plain := by
  have schedules := schedules_of_evaluable evaluable done
  cases found : graph.find? id with
  | none =>
      have absent := find?_eq_none.mp found
      rw [← schedules.mem_ids_iff, ← find?_eq_none] at absent
      rw [absent]
  | some node =>
      obtain ⟨other, foundOther, revised⟩ := schedules.forward found
      rw [foundOther, Option.map_some, Option.map_some]
      refine congrArg some ?_
      cases revised with
      | same => rfl
      | @loop loop changed runs related =>
          have bodySchedules := schedules_of_evaluable (evaluable.body found runs) related.body
          have sameLength : changed.body.nodes.length = loop.body.nodes.length := by
            simpa [ids] using bodySchedules.ids.length_eq
          rw [(Node.loop?_eq_some.mp runs).2, Value.plain_loop, Value.plain_loop]
          exact Loop.describe_eq related.index related.bindings sameLength bodySchedules.exits

/-- Denotations do not depend on the order of the nodes. -/
theorem denotes_scheduled {meaning : Interpretation} {graph scheduled : Graph}
    (evaluable : graph.Everywhere Evaluable) (done : graph.scheduled = .ok scheduled)
    {scope : Scope} {id : NodeId} {value : Value} :
    Denotes meaning scheduled scope id value ↔ Denotes meaning graph scope id value := by
  induction graph using bodyInduction generalizing scheduled scope id value with
  | step graph induction =>
      have schedules := schedules_of_evaluable evaluable done
      have kept : ∀ {id node loop changed}, graph.find? id = some node →
          node.loop? = some loop → loop.ScheduledTo changed →
          loop.KeptBy meaning changed ∧ changed.KeptBy meaning loop := by
        intro id node loop changed found runs related
        have inBody := evaluable.body found runs
        have names := names_of_scheduled inBody related.body
        have sameDefined : ∀ inner,
            changed.body.Defined meaning inner ↔ loop.body.Defined meaning inner := by
          intro inner
          have bodySchedules := schedules_of_evaluable inBody related.body
          have sameBody : ∀ id value, Denotes meaning changed.body inner id value ↔
              Denotes meaning loop.body inner id value := fun id value =>
            induction node (mem_of_find? found).1 loop runs inBody related.body
          simp only [Defined, bodySchedules.mem_ids_iff, sameBody]
        exact ⟨⟨related.bindings, fun binding _ => names binding.1,
            fun inner => (sameDefined inner).mpr⟩,
          ⟨related.bindings.symm, fun binding _ => (names binding.1).symm,
            fun inner => (sameDefined inner).mp⟩⟩
      constructor
      · refine Denotes.revised ?_
        intro id other foundOther
        obtain ⟨node, found, revised⟩ := schedules.backward foundOther
        refine ⟨node, found, ?_⟩
        cases revised with
        | same noLoop => exact .same noLoop
        | loop runs related =>
            exact (Node.Revised.loop runs (kept found runs related).2).symm
      · refine Denotes.revised ?_
        intro id node found
        obtain ⟨other, foundOther, revised⟩ := schedules.forward found
        refine ⟨other, foundOther, ?_⟩
        cases revised with
        | same noLoop => exact .same noLoop
        | loop runs related => exact .loop runs (kept found runs related).1

theorem enters_scheduled {meaning : Interpretation} {graph scheduled body : Graph}
    (evaluable : graph.Everywhere Evaluable) (done : graph.scheduled = .ok scheduled)
    {scope inner : Scope} {path : List NodeId}
    (enters : Enters meaning graph scope path body inner) :
    ∃ other, Enters meaning scheduled scope path other inner ∧ body.Everywhere Evaluable ∧
      body.scheduled = .ok other := by
  refine @Enters.transport meaning (fun left right =>
    left.Everywhere Evaluable ∧ left.scheduled = .ok right) ?_ _ _ _ _ _ _ enters ⟨evaluable, done⟩
  rintro left right ⟨evaluable, done⟩ id node loop found runs
  have schedules := schedules_of_evaluable evaluable done
  obtain ⟨other, foundOther, revised⟩ := schedules.forward found
  obtain ⟨changed, runsOther, related⟩ := revised.exists_loop runs
  refine ⟨other, changed, foundOther, runsOther, ⟨evaluable.body found runs, related.body⟩, ?_⟩
  intro scope values sources
  refine ⟨values, ?_, ?_⟩
  · intro binding member
    rw [related.bindings] at member
    exact (denotes_scheduled evaluable done).mpr (sources binding member)
  · rw [related.bindings]
    exact boundScope_eq_of_names fun binding _ =>
      names_of_scheduled (evaluable.body found runs) related.body binding.1

end Graph

end FlowGraph

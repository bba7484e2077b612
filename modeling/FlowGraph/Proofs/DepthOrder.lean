import FlowGraph.Proofs.Cycles
import FlowGraph.Proofs.FixedPoints
import FlowGraph.Proofs.Rearrangement
import Mathlib.Data.Nat.Find

/-!
# Schedules sort by depth

The depth of a node is the length of the longest chain of dependencies below it.  A
round of layering places the nodes of one depth, in their old order, so a schedule is
the stable sort of the nodes by depth, in every graph of a nest.
-/

namespace FlowGraph

section Sorting

variable {α : Type} {key : α → Nat} {list sorted other : List α}

/-- The list in the order of the keys, where equal keys keep their order. -/
structure StablySorts (key : α → Nat) (list sorted : List α) : Prop where
  ascending : sorted.Pairwise fun left right => key left ≤ key right
  stable : ∀ level, (sorted.filter fun item => key item = level) =
    list.filter fun item => key item = level

theorem ascending_of_level {level : Nat} (same : ∀ item ∈ list, key item = level) :
    list.Pairwise fun left right => key left ≤ key right := by
  induction list with
  | nil => exact .nil
  | cons item rest induction =>
      rw [List.forall_mem_cons] at same
      refine .cons (fun other later => ?_) (induction same.2)
      rw [same.1, same.2 other later]

theorem head_le {item found : α} {rest : List α}
    (ascending : (item :: rest).Pairwise fun left right => key left ≤ key right)
    (member : found ∈ item :: rest) : key item ≤ key found := by
  rcases List.mem_cons.mp member with rfl | later
  · exact le_refl _
  · exact (List.pairwise_cons.mp ascending).1 found later

/-- Items that lie on one side of a division keep their order under it. -/
theorem filter_divided {side wanted : α → Bool}
    (together : (∀ item ∈ list, wanted item = true → side item = true) ∨
      ∀ item ∈ list, wanted item = true → side item = false) :
    (list.filter side).filter wanted ++ (list.filter fun item => !side item).filter wanted =
      list.filter wanted := by
  rw [List.filter_filter, List.filter_filter]
  rcases together with first | second
  · have none : (list.filter fun item => wanted item && !side item) = [] := by
      rw [List.filter_eq_nil_iff]
      intro item member
      cases asked : wanted item <;> simp [first item member, asked]
    rw [none, List.append_nil]
    refine List.filter_congr fun item member => ?_
    cases asked : wanted item <;> simp [first item member, asked]
  · have none : (list.filter fun item => wanted item && side item) = [] := by
      rw [List.filter_eq_nil_iff]
      intro item member
      cases asked : wanted item <;> simp [second item member, asked]
    rw [none, List.nil_append]
    refine List.filter_congr fun item member => ?_
    cases asked : wanted item <;> simp [second item member, asked]

namespace StablySorts

theorem mem_iff (sorts : StablySorts key list sorted) {item : α} : item ∈ sorted ↔ item ∈ list := by
  have same := congrArg (item ∈ ·) (sorts.stable (key item))
  simpa using same

/-- A list in ascending order is its own stable sort: both start with an item of the least
key, and it is the first one of that key. -/
theorem eq_of_ascending (sorts : StablySorts key list sorted)
    (ascending : list.Pairwise fun left right => key left ≤ key right) : sorted = list := by
  induction list generalizing sorted with
  | nil =>
      cases sorted with
      | nil => rfl
      | cons first others => cases sorts.mem_iff.mp List.mem_cons_self
  | cons item rest induction =>
      cases sorted with
      | nil => cases sorts.mem_iff.mpr List.mem_cons_self
      | cons first others =>
          have below : key first ≤ key item :=
            head_le sorts.ascending (sorts.mem_iff.mpr List.mem_cons_self)
          have above : key item ≤ key first :=
            head_le ascending (sorts.mem_iff.mp List.mem_cons_self)
          have equalKeys : key first = key item := le_antisymm below above
          obtain rfl : first = item := by
            have heads := sorts.stable (key item)
            simp only [List.filter_cons, equalKeys, decide_true, if_true] at heads
            exact (List.cons.inj heads).1
          have tails : StablySorts key rest others := by
            refine ⟨(List.pairwise_cons.mp sorts.ascending).2, fun level => ?_⟩
            have whole := sorts.stable level
            by_cases here : key first = level
            · simpa [List.filter_cons, here] using whole
            · simpa [List.filter_cons, here] using whole
          rw [induction tails (List.pairwise_cons.mp ascending).2]

theorem unique (first : StablySorts key list sorted) (second : StablySorts key list other) :
    sorted = other := by
  refine eq_of_ascending ⟨first.ascending, fun level => ?_⟩ second.ascending
  exact (first.stable level).trans (second.stable level).symm

end StablySorts

theorem stablySorts_mergeSort (key : α → Nat) (list : List α) :
    StablySorts key list (list.mergeSort fun left right => key left ≤ key right) := by
  have transitive : ∀ first second third : α, decide (key first ≤ key second) = true →
      decide (key second ≤ key third) = true → decide (key first ≤ key third) = true := by
    simp only [decide_eq_true_eq]
    omega
  have total : ∀ first second : α,
      (decide (key first ≤ key second) || decide (key second ≤ key first)) = true := by
    simp only [Bool.or_eq_true, decide_eq_true_eq]
    omega
  refine ⟨?_, fun level => ?_⟩
  · simpa using List.pairwise_mergeSort transitive total list
  · have ordered : (list.filter fun item => key item = level).Pairwise
        fun left right => decide (key left ≤ key right) = true := by
      simp only [decide_eq_true_eq]
      apply ascending_of_level
      intro item inside
      simpa using (List.mem_filter.mp inside).2
    have kept := (List.sublist_mergeSort transitive total ordered List.filter_sublist).filter
      fun item => decide (key item = level)
    rw [List.filter_filter] at kept
    simp only [Bool.and_self] at kept
    refine (kept.eq_of_length ?_).symm
    exact ((List.mergeSort_perm list _).filter _).length_eq.symm

end Sorting

namespace Graph

/-- A chain of dependencies of this length leads down from a node. -/
inductive Chain (graph : Graph) : NodeId → Nat → Prop where
  | here (id : NodeId) : Chain graph id 0
  | down {id dependency : NodeId} {length : Nat} (edge : graph.DependsOn id dependency)
      (chain : Chain graph dependency length) : Chain graph id (length + 1)

/-- The longest chain of dependencies below a node has this length. -/
structure IsDepth (graph : Graph) (id : NodeId) (depth : Nat) : Prop where
  chain : graph.Chain id depth
  longest : ∀ length, graph.Chain id length → length ≤ depth

variable {graph : Graph}

theorem Chain.le_rank {rank : NodeId → Nat} (ranked : graph.RankedBy rank) {id : NodeId}
    {length : Nat} (chain : graph.Chain id length) : length ≤ rank id := by
  induction chain with
  | here id => exact Nat.zero_le _
  | down edge _ induction =>
      obtain ⟨node, member, rfl, needed⟩ := edge
      exact lt_of_le_of_lt induction (ranked node member _ needed)

theorem Acyclic.exists_depth (acyclic : graph.Acyclic) :
    ∃ depth : NodeId → Nat, ∀ id, graph.IsDepth id (depth id) := by
  classical
  obtain ⟨rank, ranked⟩ := acyclic.exists_rank
  refine ⟨fun id => Nat.findGreatest (graph.Chain id) (rank id), fun id => ⟨?_, ?_⟩⟩
  · exact Nat.findGreatest_spec (Nat.zero_le _) (.here id)
  · intro length chain
    exact Nat.le_findGreatest (chain.le_rank ranked) chain

theorem IsDepth.lt_of_edge {id dependency : NodeId} {depth below : Nat}
    (deepest : graph.IsDepth id depth) (dependencyDepth : graph.IsDepth dependency below)
    (edge : graph.DependsOn id dependency) : below < depth :=
  deepest.longest _ (.down edge dependencyDepth.chain)

end Graph

/-- The waiting nodes have at least the depth of the round, and below a deeper one there
waits a dependency of the depth before its own. -/
structure Graded (depth : NodeId → Nat) (round : Nat) (waiting : List Node) : Prop where
  reached : ∀ node ∈ waiting, round ≤ depth node.id
  falls : ∀ node ∈ waiting, ∀ dependency ∈ node.dependencies,
    depth dependency < depth node.id
  next : ∀ node ∈ waiting, round < depth node.id → ∃ dependency ∈ node.dependencies,
    dependency ∈ waiting.map Node.id ∧ depth node.id = depth dependency + 1

namespace Graded

variable {depth : NodeId → Nat} {round : Nat} {waiting : List Node}

theorem isReady_iff (graded : Graded depth round waiting) {node : Node} (member : node ∈ waiting) :
    isReady waiting node = true ↔ depth node.id = round := by
  rw [FlowGraph.isReady_iff]
  constructor
  · intro ready
    by_contra deeper
    have above : round < depth node.id :=
      lt_of_le_of_ne (graded.reached node member) (Ne.symm deeper)
    obtain ⟨dependency, needed, waits, _⟩ := graded.next node member above
    exact ready dependency needed waits
  · intro lowest dependency needed waits
    obtain ⟨other, inside, rfl⟩ := List.mem_map.mp waits
    have lower := graded.falls node member _ needed
    have notLower := graded.reached other inside
    omega

theorem mem_unready (graded : Graded depth round waiting) {node : Node} :
    node ∈ unready waiting ↔ node ∈ waiting ∧ round < depth node.id := by
  unfold unready
  rw [List.mem_filter]
  refine and_congr_right fun member => ?_
  have bound := graded.reached node member
  rw [Bool.not_eq_true', ← Bool.not_eq_true, graded.isReady_iff member]
  omega

/-- What one round of layering leaves is graded from the next round on. -/
theorem unready (graded : Graded depth round waiting) :
    Graded depth (round + 1) (unready waiting) where
  reached := fun _ member => (graded.mem_unready.mp member).2
  falls := fun node member => graded.falls node (graded.mem_unready.mp member).1
  next := by
    intro node member deeper
    obtain ⟨dependency, needed, waits, equal⟩ :=
      graded.next node (graded.mem_unready.mp member).1 (by omega)
    obtain ⟨other, inside, rfl⟩ := List.mem_map.mp waits
    exact ⟨_, needed, List.mem_map_of_mem (graded.mem_unready.mpr ⟨inside, by omega⟩), equal⟩

/-- Layering places the nodes of one depth in each round. -/
theorem stablySorts {order : List NodeId} (graded : Graded depth round waiting)
    (done : layers waiting = .ok order) : StablySorts depth (waiting.map Node.id) order := by
  fun_induction layers waiting generalizing round order with
  | case1 waiting empty =>
      cases done
      obtain rfl : waiting = [] := List.isEmpty_iff.mp empty
      exact ⟨.nil, fun _ => rfl⟩
  | case2 => cases done
  | case3 waiting _ _ induction =>
      obtain ⟨later, laterDone, ends⟩ := bind_eq_ok.mp done
      cases ends
      have laterSorts := induction graded.unready laterDone
      have readyDepth : ∀ id ∈ (waiting.filter (isReady waiting)).map Node.id,
          depth id = round := by
        intro id inside
        obtain ⟨node, ready, rfl⟩ := List.mem_map.mp inside
        obtain ⟨member, isReady⟩ := List.mem_filter.mp ready
        exact (graded.isReady_iff member).mp isReady
      have laterDepth : ∀ id ∈ later, round < depth id := by
        intro id inside
        obtain ⟨node, member, rfl⟩ := List.mem_map.mp (laterSorts.mem_iff.mp inside)
        exact (graded.mem_unready.mp member).2
      refine ⟨?_, fun level => ?_⟩
      · refine List.pairwise_append.mpr
          ⟨ascending_of_level readyDepth, laterSorts.ascending, fun left inLeft right inRight => ?_⟩
        rw [readyDepth left inLeft]
        exact (laterDepth right inRight).le
      · rw [List.filter_append, laterSorts.stable, List.filter_map, List.filter_map,
          List.filter_map, ← List.map_append]
        refine congrArg _ (filter_divided ?_)
        -- The nodes of one depth are all ready or all waiting.
        by_cases here : level = round
        · refine .inl fun node member sameDepth => (graded.isReady_iff member).mpr ?_
          simpa [here] using sameDepth
        · refine .inr fun node member sameDepth => ?_
          rw [← Bool.not_eq_true, graded.isReady_iff member]
          intro lowest
          have equal : depth node.id = level := by simpa using sameDepth
          exact here (equal.symm.trans lowest)

end Graded

namespace Graph

theorem graded_of_depth {graph : Graph} {depth : NodeId → Nat} (distinct : graph.ids.Nodup)
    (linked : ∀ node ∈ graph.nodes, ∀ id ∈ node.dependencies, id ∈ graph.ids)
    (depths : ∀ id, graph.IsDepth id (depth id)) : Graded depth 0 graph.nodes where
  reached := fun _ _ => Nat.zero_le _
  falls := by
    intro node member dependency needed
    exact (depths node.id).lt_of_edge (depths dependency) ⟨node, member, rfl, needed⟩
  next := by
    intro node member positive
    obtain ⟨below, equal⟩ := Nat.exists_eq_succ_of_ne_zero positive.ne'
    have chain := (depths node.id).chain
    rw [equal] at chain
    cases chain with
    | @down _ dependency _ edge chain =>
        obtain ⟨other, inside, same, needed⟩ := edge
        obtain rfl : other = node := List.inj_on_of_nodup_map distinct inside member same
        have lower := (depths other.id).lt_of_edge (depths dependency) ⟨other, member, rfl, needed⟩
        have reaches := (depths dependency).longest below chain
        exact ⟨dependency, needed, linked other member dependency needed, by omega⟩

/-- The nodes of a graph in the stable order of their depths. -/
structure SortsByDepth (graph sorted : Graph) (depth : NodeId → Nat) : Prop where
  depths : ∀ id ∈ graph.ids, graph.IsDepth id (depth id)
  order : sorted.ids = graph.ids.mergeSort fun left right => depth left ≤ depth right
  stable : ∀ level, (sorted.ids.filter fun id => depth id = level) =
    graph.ids.filter fun id => depth id = level
  sequenced : Sequenced [] sorted.nodes

theorem sortsByDepth_of_scheduled {graph scheduled : Graph} (distinct : graph.ids.Nodup)
    (done : graph.scheduled = .ok scheduled) : ∃ depth, graph.SortsByDepth scheduled depth := by
  obtain ⟨order, others, ordered, bodies, rfl⟩ := scheduled_eq_ok_iff.mp done
  obtain ⟨checked, layered⟩ := check_eq_ok.mp ordered
  have acyclic : graph.Acyclic := by
    rcases layers_eq_of_waiting distinct (List.Subset.refl _) (fun _ member _ => member)
      with ⟨_, _, acyclic⟩ | ⟨_, failed⟩
    · exact acyclic
    · cases layered.symm.trans failed
  obtain ⟨depth, depths⟩ := acyclic.exists_depth
  have sorts : StablySorts depth graph.ids order :=
    (graded_of_depth distinct (checkDependencies_eq_ok.mp checked) depths).stablySorts layered
  obtain ⟨arranged, rfl, permutation, _, _⟩ := exists_arranged ordered
  have sameIds : (arrange others (arranged.map Node.id)).map Node.id = arranged.map Node.id :=
    ids_revised (arrange_revised (scheduleBodies_revised bodies) distinct permutation.subset)
  refine ⟨depth, fun id _ => depths id, ?_, ?_, (schedules_of_scheduled distinct done).sequenced⟩
  · exact sameIds.trans (sorts.unique (stablySorts_mergeSort depth graph.ids))
  · intro level
    unfold Graph.ids at sorts ⊢
    rw [sameIds]
    exact sorts.stable level

/-- A graph that is scheduled is sorted by depth, as are the bodies of its loops at every
depth: each keeps everything but the order of its nodes, nodes of one depth keep their
order, and dependencies come first.  Scheduling again changes nothing. -/
theorem schedule_sorts_by_depth {graph : Graph}
    (distinct : graph.Everywhere fun body => body.ids.Nodup)
    (done : graph.schedule.answer = .ok ()) :
    (∀ path, Option.Rel (fun body sorted : Graph =>
        body.SameLevel sorted ∧ ∃ depth, body.SortsByDepth sorted depth)
      (graph.within? path) (graph.schedule.graph.within? path)) ∧
    graph.schedule.graph.schedule = ⟨graph.schedule.graph, .ok ()⟩ := by
  have scheduled := schedule_eq_ok done
  have ordered := schedule_eq_ok_iff.mpr scheduled
  generalize graph.schedule.graph = sorted at scheduled ordered ⊢
  refine ⟨within?_scheduled (fun body sorted distinct done => ?_) distinct scheduled, ?_⟩
  · exact ⟨(schedules_of_scheduled distinct done).sameLevel,
      sortsByDepth_of_scheduled distinct done⟩
  · exact (everywhere_schedule_unchanged distinct ordered).here

end Graph

section Sample

/-- Sums that stand before their operands, and two calls of one depth. -/
def shuffledBody : Graph :=
  ⟨[⟨0, .call, .text "+", [3, 1], .null⟩, ⟨1, .call, .text "+", [2, 2], .null⟩,
    ⟨2, .constant, .int 1, [], .null⟩, ⟨3, .call, .text "*", [2, 2], .null⟩], [("y", 0)], 4⟩

def shuffled : Graph :=
  triplingOver shuffledBody

theorem shuffled_distinct : shuffled.Everywhere fun body => body.ids.Nodup := by
  apply Graph.everywhere_of_body
  · decide
  · show shuffledBody.ids.Nodup
    decide
  · simp [shuffled, triplingOver, Node.loop?, Value.loop?]
  · simp [shuffledBody, Node.loop?]

theorem shuffled_sorted :
    (shuffled.schedule.graph.within? [3]).map Graph.ids = some [2, 1, 3, 0] ∧
    (∀ path, Option.Rel (fun body sorted : Graph =>
        body.SameLevel sorted ∧ ∃ depth, body.SortsByDepth sorted depth)
      (shuffled.within? path) (shuffled.schedule.graph.within? path)) ∧
    shuffled.schedule.graph.schedule = ⟨shuffled.schedule.graph, .ok ()⟩ := by
  have done : shuffled.schedule.answer = .ok () := by cbv
  exact ⟨by cbv, Graph.schedule_sorts_by_depth shuffled_distinct done⟩

end Sample

end FlowGraph

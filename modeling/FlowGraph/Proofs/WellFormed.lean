import FlowGraph.Graph.Validation
import FlowGraph.Proofs.Nesting
import Mathlib.Data.Finset.Card
import Mathlib.Data.Finset.Dedup
import Mathlib.Logic.Relation

/-!
# Well-formed graphs

A graph is well-formed when validation accepts it, no graph of its nest has a
cycle of dependencies, loops are the contents of loop nodes and of no others, and
bindings start from external nodes.  `Graph.Evaluable` is the part that evaluation
needs, and `Graph.Formed` the part that every pass keeps, both for one graph of
the nest.
-/

namespace FlowGraph

theorem bind_eq_ok {α β : Type} {first : Except Fault α} {next : α → Except Fault β} {value : β} :
    (first >>= next) = .ok value ↔ ∃ middle, first = .ok middle ∧ next middle = .ok value := by
  cases first with
  | error fault => simp [bind, Except.bind]
  | ok middle => simp [bind, Except.bind]

theorem check_eq_ok {β : Type} {check : Except Fault Unit} {next : Except Fault β} {value : β} :
    (check >>= fun _ => next) = .ok value ↔ check = .ok () ∧ next = .ok value := by
  cases check with
  | error fault => simp [bind, Except.bind]
  | ok _ => simp [bind, Except.bind]

namespace Graph

/-- A node of this number needs a node of that number. -/
def DependsOn (graph : Graph) (id dependency : NodeId) : Prop :=
  ∃ node ∈ graph.nodes, node.id = id ∧ dependency ∈ node.dependencies

/-- Following dependencies never leads back. -/
def Acyclic (graph : Graph) : Prop :=
  ∀ id, ¬ Relation.TransGen graph.DependsOn id id

/-- Dependencies go down a ranking of the numbers. -/
def RankedBy (graph : Graph) (rank : NodeId → Nat) : Prop :=
  ∀ node ∈ graph.nodes, ∀ dependency ∈ node.dependencies, rank dependency < rank node.id

theorem RankedBy.acyclic {graph : Graph} {rank : NodeId → Nat} (ranked : graph.RankedBy rank) :
    graph.Acyclic := by
  have descends : ∀ {id other}, Relation.TransGen graph.DependsOn id other →
      rank other < rank id := by
    intro id other path
    induction path with
    | single edge =>
        obtain ⟨node, member, rfl, dependency⟩ := edge
        exact ranked node member _ dependency
    | tail _ edge induction =>
        obtain ⟨node, member, rfl, dependency⟩ := edge
        exact (ranked node member _ dependency).trans induction
  intro id cycle
  exact Nat.lt_irrefl _ (descends cycle)

/-- A graph without cycles can be ranked: count what a node leads to. -/
theorem Acyclic.exists_rank {graph : Graph} (acyclic : graph.Acyclic) :
    ∃ rank, graph.RankedBy rank := by
  classical
  refine ⟨fun id => (graph.ids.toFinset.filter
    fun other => Relation.ReflTransGen graph.DependsOn id other).card, ?_⟩
  intro node member dependency needs
  have edge : graph.DependsOn node.id dependency := ⟨node, member, rfl, needs⟩
  apply Finset.card_lt_card
  rw [Finset.ssubset_iff_of_subset]
  · refine ⟨node.id, ?_, ?_⟩
    · simpa [mem_ids] using ⟨⟨node, member, rfl⟩, Relation.ReflTransGen.refl⟩
    · intro back
      have returns := (Finset.mem_filter.mp back).2
      exact acyclic node.id (Relation.TransGen.head' edge returns)
  · intro other reached
    obtain ⟨inside, path⟩ := Finset.mem_filter.mp reached
    exact Finset.mem_filter.mpr ⟨inside, Relation.ReflTransGen.head edge path⟩

/-- What validation checks of one node. -/
structure Accepts (graph : Graph) (node : Node) : Prop where
  inputs : ∀ input ∈ node.inputs, input ∈ graph.ids
  bindings : ∀ loop, node.content = .loop loop →
    ∀ binding ∈ loop.bindings, binding.1 ∈ loop.body.ids ∧ binding.2 ∈ graph.ids
  bodies : ∀ loop, node.content = .loop loop → loop.body.validate = .ok ()

end Graph

theorem checkInputs_eq_ok {graph : Graph} {id : NodeId} {inputs : List NodeId} :
    checkInputs graph id inputs = .ok () ↔ ∀ input ∈ inputs, input ∈ graph.ids := by
  unfold checkInputs
  split
  · rename_i input found
    have member := List.mem_of_find?_eq_some found
    have missing : input ∉ graph.ids := by
      simpa [← Graph.contains_iff] using List.find?_some found
    simp only [reduceCtorEq, false_iff]
    intro every
    exact missing (every input member)
  · rename_i found
    simpa [← Graph.contains_iff] using found

theorem checkBindings_eq_ok {graph body : Graph} {id : NodeId}
    {bindings : List (NodeId × NodeId)} :
    checkBindings graph body id bindings = .ok () ↔
      ∀ binding ∈ bindings, binding.1 ∈ body.ids ∧ binding.2 ∈ graph.ids := by
  induction bindings with
  | nil => simp [checkBindings]
  | cons binding rest induction =>
      obtain ⟨inner, outer⟩ := binding
      by_cases key : inner ∈ body.ids
      · by_cases source : outer ∈ graph.ids
        · simpa [checkBindings, Graph.contains_iff.mpr key, Graph.contains_iff.mpr source,
            key, source] using induction
        · have absent : graph.contains outer = false := by
            simpa [← Graph.contains_iff] using source
          simp [checkBindings, Graph.contains_iff.mpr key, absent, source]
      · have absent : body.contains inner = false := by
          simpa [← Graph.contains_iff] using key
        simp [checkBindings, absent, key]

theorem checkExits_eq_ok {graph : Graph} {exits : List (String × NodeId)} :
    checkExits graph exits = .ok () ↔ ∀ exit ∈ exits, exit.2 ∈ graph.ids := by
  induction exits with
  | nil => simp [checkExits]
  | cons exit rest induction =>
      obtain ⟨name, id⟩ := exit
      by_cases present : id ∈ graph.ids
      · simpa [checkExits, Graph.contains_iff.mpr present, present] using induction
      · have absent : graph.contains id = false := by
          simpa [← Graph.contains_iff] using present
        simp [checkExits, absent, present]

theorem validateNodes_cons {graph : Graph} {node : Node} {rest : List Node} :
    validateNodes graph (node :: rest) = .ok () ↔
      graph.Accepts node ∧ validateNodes graph rest = .ok () := by
  obtain ⟨id, kind, content, inputs, result⟩ := node
  cases content
  case loop loop =>
    obtain ⟨tag, index, body, bindings⟩ := loop
    simp only [validateNodes, check_eq_ok, checkInputs_eq_ok, checkBindings_eq_ok]
    constructor
    · rintro ⟨inputsPresent, bindingsPresent, bodyValid, restValid⟩
      refine ⟨⟨inputsPresent, ?_, ?_⟩, restValid⟩
      · rintro _ ⟨⟩
        exact bindingsPresent
      · rintro _ ⟨⟩
        exact bodyValid
    · rintro ⟨accepted, restValid⟩
      exact ⟨accepted.inputs, accepted.bindings _ rfl, accepted.bodies _ rfl, restValid⟩
  all_goals
    simp only [validateNodes, check_eq_ok, checkInputs_eq_ok]
    constructor
    · rintro ⟨inputsPresent, restValid⟩
      refine ⟨⟨inputsPresent, ?_, ?_⟩, restValid⟩ <;>
        · intro loop content
          cases content
    · rintro ⟨accepted, restValid⟩
      exact ⟨accepted.inputs, restValid⟩

theorem validateNodes_eq_ok {graph : Graph} {nodes : List Node} :
    validateNodes graph nodes = .ok () ↔ ∀ node ∈ nodes, graph.Accepts node := by
  induction nodes with
  | nil => simp [validateNodes]
  | cons node rest induction => simp [validateNodes_cons, induction]

namespace Graph

theorem validate_eq_ok {graph : Graph} :
    graph.validate = .ok () ↔
      (∀ node ∈ graph.nodes, graph.Accepts node) ∧ ∀ exit ∈ graph.exits, exit.2 ∈ graph.ids := by
  obtain ⟨nodes, exits, nextId⟩ := graph
  simp only [validate, check_eq_ok, validateNodes_eq_ok, checkExits_eq_ok]

theorem Accepts.dependencies {graph : Graph} {node : Node} (accepted : graph.Accepts node) :
    ∀ id ∈ node.dependencies, id ∈ graph.ids := by
  intro id member
  unfold Node.dependencies at member
  split at member
  · rename_i loop content
    rcases List.mem_append.mp member with input | source
    · exact accepted.inputs id input
    · obtain ⟨binding, bound, rfl⟩ := List.mem_map.mp (List.mem_filter.mp source).1
      exact (accepted.bindings loop content binding bound).2
  · exact accepted.inputs id member

/-- What evaluation needs of a graph: numbers name one node each, references stay
inside, loop nodes have loops, and nothing waits for itself. -/
structure Evaluable (graph : Graph) : Prop where
  distinct : graph.ids.Nodup
  linked : ∀ node ∈ graph.nodes, ∀ id ∈ node.dependencies, id ∈ graph.ids
  exits : ∀ exit ∈ graph.exits, exit.2 ∈ graph.ids
  carried : ∀ node ∈ graph.nodes, node.kind = .loop → ∃ loop, node.content = .loop loop
  keys : ∀ node ∈ graph.nodes, ∀ loop, node.loop? = some loop →
    ∀ binding ∈ loop.bindings, binding.1 ∈ loop.body.ids
  acyclic : graph.Acyclic

theorem Everywhere.of_validate {graph : Graph} (valid : graph.validate = .ok ()) :
    graph.Everywhere fun body => body.validate = .ok () := by
  induction graph using bodyInduction with
  | step graph induction =>
      refine everywhere_iff.mpr ⟨valid, ?_⟩
      intro id node loop found runs
      have member := (mem_of_find? found).1
      have accepted := (validate_eq_ok.mp valid).1 node member
      exact induction node member loop runs
        (accepted.bodies loop (Node.loop?_eq_some.mp runs).2)

/-- References stay inside the graph, and loop nodes have loops. -/
structure Closed (graph : Graph) : Prop where
  distinct : graph.ids.Nodup
  linked : ∀ node ∈ graph.nodes, ∀ id ∈ node.dependencies, id ∈ graph.ids
  exits : ∀ exit ∈ graph.exits, exit.2 ∈ graph.ids
  carried : ∀ node ∈ graph.nodes, node.kind = .loop → ∃ loop, node.content = .loop loop

theorem Evaluable.closed {graph : Graph} (evaluable : graph.Evaluable) : graph.Closed :=
  ⟨evaluable.distinct, evaluable.linked, evaluable.exits, evaluable.carried⟩

theorem closed_of_valid {graph : Graph} (valid : graph.validate = .ok ())
    (distinct : graph.Everywhere fun body => body.ids.Nodup)
    (carried : graph.Everywhere fun body =>
      ∀ node ∈ body.nodes, node.kind = .loop → ∃ loop, node.content = .loop loop) :
    graph.Everywhere Closed := by
  intro path body reached
  obtain ⟨accepted, exits⟩ := validate_eq_ok.mp (Everywhere.of_validate valid path body reached)
  exact
    { distinct := distinct path body reached
      linked := fun node member => (accepted node member).dependencies
      exits := exits
      carried := carried path body reached }

/-- A closed graph whose bindings start from nodes of the bodies, and in which only loop
nodes have loops. -/
structure Consistent (graph : Graph) : Prop extends Closed graph where
  keys : ∀ node ∈ graph.nodes, ∀ loop, node.loop? = some loop →
    ∀ binding ∈ loop.bindings, binding.1 ∈ loop.body.ids
  plain : ∀ node ∈ graph.nodes, ∀ loop, node.content = .loop loop → node.kind = .loop

theorem consistent_of_valid {graph : Graph} (valid : graph.validate = .ok ())
    (distinct : graph.Everywhere fun body => body.ids.Nodup)
    (loops : graph.Everywhere fun body =>
      ∀ node ∈ body.nodes, node.kind = .loop ↔ ∃ loop, node.content = .loop loop) :
    graph.Everywhere Consistent := by
  intro path body reached
  obtain ⟨accepted, _⟩ := validate_eq_ok.mp (Everywhere.of_validate valid path body reached)
  refine
    { toClosed := closed_of_valid valid distinct
        (loops.mono fun _ iff node member => (iff node member).mp) path body reached
      keys := ?_
      plain := fun node member loop content =>
        (loops path body reached node member).mpr ⟨loop, content⟩ }
  intro node member loop runs binding bound
  exact ((accepted node member).bindings loop (Node.loop?_eq_some.mp runs).2 binding bound).1

/-- What is consistent at every depth passes validation. -/
theorem valid_of_consistent {graph : Graph} (consistent : graph.Everywhere Consistent) :
    graph.validate = .ok () := by
  induction graph using bodyInduction with
  | step graph induction =>
      have here := consistent.here
      refine validate_eq_ok.mpr ⟨?_, here.exits⟩
      intro node member
      have runs : ∀ loop, node.content = .loop loop → node.loop? = some loop :=
        fun loop content => Node.loop?_eq_some.mpr ⟨here.plain node member loop content, content⟩
      constructor
      · intro input isInput
        exact here.linked node member input (node.inputs_subset_dependencies isInput)
      · intro loop content binding bound
        have source := Node.source_mem_dependencies (runs loop content) bound
        exact ⟨here.keys node member loop (runs loop content) binding bound,
          here.linked node member binding.2 source⟩
      · intro loop content
        apply induction node member loop (runs loop content)
        exact consistent.body (find?_of_mem here.distinct member) (runs loop content)

/-- A valid graph is fit for evaluation when its nodes are told apart by their
numbers, all loop nodes have loops and there are no cycles, at every depth. -/
theorem evaluable_of_valid {graph : Graph} (valid : graph.validate = .ok ())
    (distinct : graph.Everywhere fun body => body.ids.Nodup)
    (carried : graph.Everywhere fun body =>
      ∀ node ∈ body.nodes, node.kind = .loop → ∃ loop, node.content = .loop loop)
    (acyclic : graph.Everywhere Acyclic) :
    graph.Everywhere Evaluable := by
  intro path body reached
  have closed := closed_of_valid valid distinct carried path body reached
  obtain ⟨accepted, _⟩ := validate_eq_ok.mp (Everywhere.of_validate valid path body reached)
  refine
    { distinct := closed.distinct
      linked := closed.linked
      exits := closed.exits
      carried := closed.carried
      keys := ?_
      acyclic := acyclic path body reached }
  intro node member loop runs binding bound
  exact ((accepted node member).bindings loop (Node.loop?_eq_some.mp runs).2 binding bound).1

/-- Validation accepts the graph, and at every depth numbers name one node each,
there is no cycle, loops are the contents of exactly the loop nodes, and bindings
start from external nodes. -/
structure WellFormed (graph : Graph) : Prop where
  valid : graph.validate = .ok ()
  distinct : graph.Everywhere fun body => body.ids.Nodup
  acyclic : graph.Everywhere Acyclic
  loops : graph.Everywhere fun body =>
    ∀ node ∈ body.nodes, node.kind = .loop ↔ ∃ loop, node.content = .loop loop
  externalKeys : graph.Everywhere fun body =>
    ∀ node ∈ body.nodes, ∀ loop, node.content = .loop loop → ∀ binding ∈ loop.bindings,
      ∃ bound ∈ loop.body.nodes, bound.id = binding.1 ∧ bound.kind = .external

/-- The numbers of the nodes were handed out: they are below the next one. -/
def Numbered (graph : Graph) : Prop :=
  ∀ id ∈ graph.ids, id < graph.nextId

/-- What every graph that operations build is: well-formed, with numbers that were handed
out at every depth. -/
structure Sound (graph : Graph) : Prop where
  wellFormed : graph.WellFormed
  numbered : graph.Everywhere Numbered

theorem Numbered.fresh {graph : Graph} (numbered : graph.Numbered) : graph.nextId ∉ graph.ids :=
  fun old => lt_irrefl _ (numbered _ old)

/-- One graph of the nest of a well-formed graph. -/
structure Formed (graph : Graph) : Prop extends Evaluable graph where
  plain : ∀ node ∈ graph.nodes, ∀ loop, node.content = .loop loop → node.kind = .loop
  externalKeys : ∀ node ∈ graph.nodes, ∀ loop, node.loop? = some loop →
    ∀ binding ∈ loop.bindings, ∃ bound, loop.body.find? binding.1 = some bound ∧
      bound.kind = .external

theorem WellFormed.formed {graph : Graph} (formed : graph.WellFormed) :
    graph.Everywhere Formed := by
  have evaluable := evaluable_of_valid formed.valid formed.distinct
    (formed.loops.mono fun body loops node member => (loops node member).mp) formed.acyclic
  refine fun path body reached =>
    { toEvaluable := evaluable path body reached
      plain := fun node member loop content =>
        (formed.loops path body reached node member).mpr ⟨loop, content⟩
      externalKeys := ?_ }
  intro node member loop runs binding bound
  obtain ⟨target, inside, same, external⟩ := formed.externalKeys path body reached node member
    loop (Node.loop?_eq_some.mp runs).2 binding bound
  have found := find?_of_mem (evaluable path body reached).distinct member
  have bodyDistinct := ((formed.distinct.inside reached).body found runs).here
  exact ⟨target, same ▸ find?_of_mem bodyDistinct inside, external⟩

theorem Everywhere.evaluable {graph : Graph} (formed : graph.Everywhere Formed) :
    graph.Everywhere Evaluable :=
  formed.mono fun _ inBody => inBody.toEvaluable

/-- A graph with one more node, which takes the place of a node that has the next
number already. -/
def extended (graph : Graph) (kind : Kind) (content : Value) (inputs : List NodeId) : Graph :=
  { graph.insertNode ⟨graph.nextId, kind, content, inputs, unsetResult⟩ with
    nextId := graph.nextId + 1 }

section Extended

variable {graph : Graph} {kind : Kind} {content : Value} {inputs : List NodeId}

theorem add_eq_ok {other : Graph} {id : NodeId}
    (done : graph.add kind content inputs = .ok (other, id)) :
    other = graph.extended kind content inputs ∧ id = graph.nextId ∧ inputs ⊆ graph.ids := by
  unfold add at done
  split at done
  · cases done
  · rename_i present
    cases done
    refine ⟨rfl, rfl, fun input isInput => ?_⟩
    simpa [contains_iff] using List.find?_eq_none.mp present input isInput

theorem add_of_subset (present : inputs ⊆ graph.ids) :
    graph.add kind content inputs = .ok (graph.extended kind content inputs, graph.nextId) := by
  have none : (inputs.find? fun input => !graph.contains input) = none := by
    rw [List.find?_eq_none]
    intro input isInput
    simpa [contains_iff] using present isInput
  simp only [add, none]
  rfl

/-- A number that is new comes last. -/
theorem extended_nodes (fresh : graph.nextId ∉ graph.ids) :
    (graph.extended kind content inputs).nodes =
      graph.nodes ++ [⟨graph.nextId, kind, content, inputs, unsetResult⟩] := by
  have absent : graph.contains graph.nextId = false := by
    rwa [← Bool.not_eq_true, contains_iff]
  simp [extended, insertNode, absent]

theorem extended_exits : (graph.extended kind content inputs).exits = graph.exits := by
  unfold extended insertNode
  split <;> rfl

theorem old_or_new_node {node : Node}
    (inside : node ∈ (graph.extended kind content inputs).nodes) :
    node ∈ graph.nodes ∨ node = ⟨graph.nextId, kind, content, inputs, unsetResult⟩ := by
  unfold extended insertNode at inside
  split at inside
  · obtain ⟨old, member, rfl⟩ := List.mem_map.mp inside
    split
    · exact .inr rfl
    · exact .inl member
  · exact (List.mem_append.mp inside).imp_right List.mem_singleton.mp

theorem new_mem_extended : ⟨graph.nextId, kind, content, inputs, unsetResult⟩ ∈
    (graph.extended kind content inputs).nodes := by
  unfold extended insertNode
  split
  · rename_i present
    obtain ⟨old, member, same⟩ := mem_ids.mp (contains_iff.mp present)
    exact List.mem_map.mpr ⟨old, member, by simp [same]⟩
  · exact List.mem_append_right _ List.mem_cons_self

theorem old_mem_extended {node : Node} (fresh : graph.nextId ∉ graph.ids)
    (member : node ∈ graph.nodes) : node ∈ (graph.extended kind content inputs).nodes := by
  rw [extended_nodes fresh]
  exact List.mem_append_left _ member

theorem mem_extended_ids {id : NodeId} :
    id ∈ (graph.extended kind content inputs).ids ↔ id ∈ graph.ids ∨ id = graph.nextId := by
  by_cases present : graph.nextId ∈ graph.ids
  · have sameIds : (graph.extended kind content inputs).ids = graph.ids := by
      simp only [extended, insertNode, contains_iff.mpr present, if_true, ids, update, List.map_map]
      refine List.map_congr_left fun node _ => ?_
      simp only [Function.comp_apply]
      split
      · rename_i same
        exact (beq_iff_eq.mp same).symm
      · rfl
    rw [sameIds, or_iff_left_of_imp]
    rintro rfl
    exact present
  · simp [ids, extended_nodes present]

theorem find?_extended (id : NodeId) :
    (graph.extended kind content inputs).find? id =
      if graph.nextId = id then some ⟨graph.nextId, kind, content, inputs, unsetResult⟩
      else graph.find? id := by
  by_cases present : graph.nextId ∈ graph.ids
  · obtain ⟨old, found⟩ := exists_find? present
    have samePredicate : ((fun node : Node => node.id == id) ∘ fun node =>
        if node.id == graph.nextId
        then ⟨graph.nextId, kind, content, inputs, unsetResult⟩ else node) =
        fun node => node.id == id := by
      funext node
      by_cases same : node.id = graph.nextId <;> simp [same]
    simp only [extended, insertNode, contains_iff.mpr present, if_true, find?, update,
      List.find?_map, samePredicate]
    by_cases isNew : graph.nextId = id
    · subst isNew
      have inside : graph.nodes.find? (fun node => node.id == graph.nextId) = some old := found
      rw [inside, if_pos rfl, Option.map_some, if_pos (by simpa using List.find?_some inside)]
    · rw [if_neg isNew]
      cases inside : graph.nodes.find? fun node => node.id == id with
      | none => rfl
      | some node =>
          have same : node.id = id := by simpa using List.find?_some inside
          rw [Option.map_some, if_neg (by simpa [same] using Ne.symm isNew)]
  · have absent := find?_eq_none.mpr present
    unfold find? at absent ⊢
    rw [extended_nodes present, List.find?_append]
    by_cases isNew : graph.nextId = id
    · subst isNew
      simp [absent]
    · simp [isNew]

theorem Numbered.extended_distinct (numbered : graph.Numbered) (distinct : graph.ids.Nodup) :
    (graph.extended kind content inputs).ids.Nodup := by
  have allIds : (graph.extended kind content inputs).ids = graph.ids ++ [graph.nextId] := by
    simp [ids, extended_nodes numbered.fresh]
  rw [allIds]
  refine List.nodup_append.mpr ⟨distinct, by simp, ?_⟩
  intro id old other new same
  rw [List.mem_singleton] at new
  exact numbered.fresh (new ▸ same ▸ old)

end Extended

end Graph

section Sample

/-- The body of a loop that adds an external value to itself twice. -/
def triplingBody : Graph :=
  ⟨[⟨0, .external, .text "x", [], .null⟩, ⟨1, .call, .text "+", [0, 0, 0], .null⟩], [("y", 1)], 2⟩

/-- A loop that passes a sum of constants to its body, beside an external node that
nothing needs. -/
def triplingOver (body : Graph) : Graph :=
  ⟨[⟨0, .constant, .int 1, [], .null⟩, ⟨1, .constant, .int 2, [], .null⟩,
      ⟨2, .call, .text "+", [0, 1], .null⟩, ⟨3, .loop, .loop ⟨0, "i", body, [(0, 2)]⟩, [], .null⟩,
      ⟨4, .external, .text "z", [], .null⟩],
    [("total", 2), ("loop", 3)], 5⟩

def tripling : Graph :=
  triplingOver triplingBody

theorem tripling_bodies :
    ∀ node ∈ tripling.nodes, ∀ loop, node.loop? = some loop → loop.body = triplingBody := by
  simp [tripling, triplingOver, Node.loop?, Value.loop?]

theorem triplingBody_innermost : ∀ node ∈ triplingBody.nodes, node.loop? = none := by
  simp [triplingBody, Node.loop?]

theorem everywhere_tripling {property : Graph → Prop} (here : property tripling)
    (inside : property triplingBody) : tripling.Everywhere property :=
  Graph.everywhere_of_body here inside tripling_bodies triplingBody_innermost

theorem tripling_wellFormed : tripling.WellFormed where
  valid := rfl
  distinct := everywhere_tripling (by decide) (by decide)
  acyclic := by
    have ranked : tripling.RankedBy Int.toNat := by
      simp [Graph.RankedBy, tripling, triplingOver, Node.dependencies]
    have bodyRanked : triplingBody.RankedBy Int.toNat := by
      simp [Graph.RankedBy, triplingBody, Node.dependencies]
    exact everywhere_tripling ranked.acyclic bodyRanked.acyclic
  loops := everywhere_tripling (by simp [tripling, triplingOver]) (by simp [triplingBody])
  externalKeys := everywhere_tripling (by simp [tripling, triplingOver, triplingBody])
    (by simp [triplingBody])

theorem tripling_numbered : tripling.Everywhere Graph.Numbered := by
  refine everywhere_tripling ?_ ?_
  · unfold Graph.Numbered
    decide
  · unfold Graph.Numbered
    decide

theorem tripling_sound : tripling.Sound :=
  ⟨tripling_wellFormed, tripling_numbered⟩

end Sample

end FlowGraph

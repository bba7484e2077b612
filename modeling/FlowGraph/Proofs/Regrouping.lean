import FlowGraph.Operation.Numeric
import FlowGraph.Proofs.SplitChains

/-!
# Splitting and evaluation

An operation that combines its operands from the left by an associative function gives the
same value when it combines them from the right, which is what a chain of calls does.  So
a graph and the split graph have values in the same scopes, and the nodes that they share
have the same values.  The scope of a body gives values to the texts of bound nodes.  These
stay, except that the text of a loop shows the number of nodes of its body: so a binding
must not name a loop whose body has calls to split.
-/

namespace FlowGraph

/-- Every operation that folds its operands combines two or more of them from the left by an
associative function. -/
def Interpretation.Combines (meaning : Interpretation) : Prop :=
  ∀ name ∈ foldingOperations, ∃ binary : Value → Value → Value, Std.Associative binary ∧
    ∀ first second rest, meaning.call name (first :: second :: rest) =
      .ok ((second :: rest).foldl binary first)

/-- Every operation that folds its operands has one overload, without types: it combines
them by a total associative function, with a rule of its own for a single one. -/
def Registry.FoldsOperands {ι : Type} (registry : Registry ι)
    (run : ι → List Value → Except Fault Value) : Prop :=
  ∀ name ∈ foldingOperations, ∃ action binary single,
    registry.overloadsOf name = [⟨none, action⟩] ∧ Std.Associative binary ∧
    run action = Operation.nary (fun left right => .ok (binary left right)) single

theorem Operation.nary_of_total {binary : Value → Value → Value}
    {single : Value → Except Fault Value} (first second : Value) (rest : List Value) :
    Operation.nary (fun left right => .ok (binary left right)) single (first :: second :: rest) =
      .ok ((second :: rest).foldl binary first) :=
  List.foldlM_pure

theorem Registry.FoldsOperands.combines {ι : Type} {registry : Registry ι}
    {run : ι → List Value → Except Fault Value} (folds : registry.FoldsOperands run) :
    (registry.interpretation run).Combines := by
  intro name folding
  obtain ⟨action, binary, single, overloads, associative, runs⟩ := folds name folding
  refine ⟨binary, associative, ?_⟩
  intro first second rest
  have resolved : registry.resolve name (first :: second :: rest) = .ok action := by
    simp [resolve, overloads, Overload.matchesOperands, Overload.isTyped]
  refine bind_eq_ok.mpr ⟨action, resolved, ?_⟩
  rw [runs]
  exact Operation.nary_of_total first second rest

namespace Interpretation.Combines

variable {meaning : Interpretation} (combines : meaning.Combines) {name : String}
  (folding : name ∈ foldingOperations)
include combines folding

/-- The last operands may be combined first. -/
theorem exists_part (first second third : Value) (rest : List Value) :
    ∃ part, meaning.call name (second :: third :: rest) = .ok part ∧
      meaning.call name [first, part] = meaning.call name (first :: second :: third :: rest) := by
  obtain ⟨binary, associative, calls⟩ := combines name folding
  refine ⟨_, calls second third rest, ?_⟩
  rw [calls, calls, List.foldl_cons, List.foldl_nil]
  exact congrArg Except.ok List.foldl_assoc.symm

end Interpretation.Combines

theorem Interpretation.Combines.regroups {meaning : Interpretation} (combines : meaning.Combines) :
    meaning.Regroups := by
  intro name folding first second third rest value computed
  obtain ⟨part, partCalled, same⟩ := combines.exists_part folding first second third rest
  exact ⟨part, partCalled, same.trans computed⟩

/-- Two graphs have values in the same scopes, and the nodes of the first have the same
values in both. -/
structure Graph.Agrees (meaning : Interpretation) (graph other : Graph) : Prop where
  denotes : ∀ scope id value, id ∈ graph.ids →
    (Denotes meaning other scope id value ↔ Denotes meaning graph scope id value)
  defined : ∀ scope, other.Defined meaning scope ↔ graph.Defined meaning scope

namespace Graph

namespace SplitsCall

variable {graph : Graph} {call : Node} {name : String} {first : NodeId} {others : List NodeId}
  (splits : graph.SplitsCall call name first others) {meaning : Interpretation} {scope : Scope}
include splits

/-- Where the operands of the new call have values and the call has one, it had the same
one before. -/
theorem denotes_before (combines : meaning.Combines) {values : NodeId → Value}
    {start part value : Value} (head : Denotes meaning graph scope first start)
    (operands : ∀ input ∈ others, Denotes meaning graph scope input (values input))
    (partCalled : meaning.call name (others.map values) = .ok part)
    (computed : meaning.call name [start, part] = .ok value) :
    Denotes meaning graph scope call.id value := by
  obtain ⟨second, third, rest, inputs, rfl⟩ := splits.inputs
  obtain ⟨known, isKnown⟩ := exists_denotations meaning graph scope
  have sameOperands : (second :: third :: rest).map known =
      (second :: third :: rest).map values :=
    List.map_congr_left fun input isInput => isKnown _ _ (operands input isInput)
  have reads : ∀ read ∈ call.reads, Denotes meaning graph scope read (known read) := by
    intro read isRead
    have isInput := Node.reads_subset_inputs _ isRead
    rw [inputs] at isInput
    rcases List.mem_cons.mp isInput with rfl | later
    · exact (isKnown _ _ head) ▸ head
    · exact (isKnown _ _ (operands read later)) ▸ operands read later
  refine .plain splits.found reads ?_
  rw [Node.valueFrom_call splits.kind, splits.content, inputs, List.map_cons, sameOperands,
    isKnown _ _ head]
  obtain ⟨whole, wholePart, same⟩ := combines.exists_part splits.folding start (values second)
    (values third) (rest.map values)
  cases Except.ok.inj (wholePart.symm.trans partCalled)
  exact same.symm.trans computed

/-- The values after a split are those from before.  The new call has the value of its
operands. -/
theorem backward (combines : meaning.Combines)
    (linked : ∀ node ∈ graph.nodes, ∀ id ∈ node.dependencies, id ∈ graph.ids) {id : NodeId}
    {value : Value}
    (denotes : Denotes meaning (graph.splitCall call first others) scope id value)
    (present : id ∈ graph.ids) : Denotes meaning graph scope id value := by
  have old : ∀ {node id}, node ∈ graph.nodes → id ∈ node.dependencies → id ≠ graph.nextId :=
    fun member needed isNew => splits.fresh (isNew ▸ linked _ member _ needed)
  have isNode := (mem_of_find? splits.found).1
  have oldInput : ∀ {input}, input ∈ call.inputs → input ≠ graph.nextId :=
    fun isInput => old isNode (call.inputs_subset_dependencies isInput)
  refine (denotes.levelInduction (motive := fun id value =>
    (id = graph.nextId → ∃ values : NodeId → Value,
      (∀ input ∈ others, Denotes meaning graph scope input (values input)) ∧
        meaning.call name (others.map values) = .ok value) ∧
    (id ≠ graph.nextId → Denotes meaning graph scope id value)) ?_ ?_).2
    (fun isNew => splits.fresh (isNew ▸ present))
  · intro id node values value found _ induction computed
    rcases splits.node_cases found with ⟨isNew, rfl⟩ | ⟨isCall, rfl⟩ | foundOld
    · refine ⟨fun _ => ⟨values, ?_, ?_⟩, fun different => absurd isNew different⟩
      · intro input isInput
        exact (induction input isInput).2 (oldInput (splits.others_subset isInput))
      · rw [Node.valueFrom_call rfl, splits.content] at computed
        exact computed
    · subst isCall
      refine ⟨fun isNew => absurd (isNew ▸ mem_ids_of_find? splits.found) splits.fresh, fun _ => ?_⟩
      have kind : ({ call with inputs := [first, graph.nextId] } : Node).kind = .call :=
        splits.kind
      have isRead : ∀ input ∈ [first, graph.nextId],
          input ∈ ({ call with inputs := [first, graph.nextId] } : Node).reads := by
        intro input isInput
        simpa [Node.reads, splits.kind] using isInput
      obtain ⟨operands, denoted, partCalled⟩ :=
        (induction graph.nextId (isRead _ (by simp))).1 rfl
      have head := (induction first (isRead _ (by simp))).2 (oldInput splits.first_mem)
      rw [Node.valueFrom_call kind, splits.content] at computed
      exact splits.denotes_before combines head denoted partCalled computed
    · have member := (mem_of_find? foundOld).1
      refine ⟨fun isNew => absurd (isNew ▸ mem_ids_of_find? foundOld) splits.fresh, fun _ => ?_⟩
      refine .plain foundOld (fun read isRead => (induction read isRead).2 ?_) computed
      exact old member (node.inputs_subset_dependencies (node.reads_subset_inputs isRead))
  · intro id node loop values found runs _ induction keys defined
    have notCall : node.kind ≠ .call := by simp [(Node.loop?_eq_some.mp runs).1]
    have foundOld := (splits.find?_of_kind notCall).mp found
    refine ⟨fun isNew => absurd (isNew ▸ mem_ids_of_find? foundOld) splits.fresh, fun _ => ?_⟩
    refine .of_defined foundOld runs (fun binding bound => (induction binding bound).2 ?_) keys
      defined
    exact old (mem_of_find? foundOld).1 (Node.source_mem_dependencies runs bound)

theorem agrees (combines : meaning.Combines)
    (linked : ∀ node ∈ graph.nodes, ∀ id ∈ node.dependencies, id ∈ graph.ids) :
    graph.Agrees meaning (graph.splitCall call first others) where
  denotes := fun scope id value present =>
    ⟨fun denotes => splits.backward combines linked denotes present,
      splits.forward combines.regroups⟩
  defined := by
    intro scope
    refine ⟨?_, (splits.carries combines.regroups).defined scope⟩
    intro defined id present
    have stays : id ∈ (graph.splitCall call first others).ids := by
      rw [splitCall_ids]
      exact mem_extended_ids.mpr (.inl present)
    obtain ⟨value, denotes⟩ := defined id stays
    exact ⟨value, splits.backward combines linked denotes present⟩

end SplitsCall

namespace Agrees

variable {meaning : Interpretation} {graph middle other : Graph}

theorem refl (graph : Graph) : graph.Agrees meaning graph :=
  ⟨fun _ _ _ _ => Iff.rfl, fun _ => Iff.rfl⟩

theorem trans (first : graph.Agrees meaning middle) (second : middle.Agrees meaning other)
    (kept : graph.ids ⊆ middle.ids) : graph.Agrees meaning other where
  denotes := fun scope id value present =>
    (second.denotes scope id value (kept present)).trans (first.denotes scope id value present)
  defined := fun scope => (second.defined scope).trans (first.defined scope)

/-- Graphs agree when their loops do: the bindings, the texts of the bound nodes and the
scopes in which the bodies have values are the same. -/
theorem of_partners
    (partners : ∀ id, Option.Rel (Node.Revised fun loop changed =>
      loop.KeptBy meaning changed ∧ changed.KeptBy meaning loop)
      (graph.find? id) (other.find? id)) : graph.Agrees meaning other := by
  have forward : ∀ {scope id value}, Denotes meaning graph scope id value →
      Denotes meaning other scope id value := by
    intro scope id value denotes
    apply denotes.revised
    intro id node found
    obtain ⟨changed, foundChanged, revised⟩ := exists_partner (partners id) found
    exact ⟨changed, foundChanged, revised.mono fun _ _ kept => kept.1⟩
  have backward : ∀ {scope id value}, Denotes meaning other scope id value →
      Denotes meaning graph scope id value := by
    intro scope id value denotes
    apply denotes.revised
    intro id changed found
    obtain ⟨node, foundNode, revised⟩ := exists_partnered (partners id) found
    exact ⟨node, foundNode, revised.symm.mono fun _ _ kept => kept.2⟩
  have sameIds : ∀ id, id ∈ other.ids ↔ id ∈ graph.ids := by
    intro id
    constructor
    · intro present
      obtain ⟨changed, found⟩ := exists_find? present
      obtain ⟨node, foundNode, _⟩ := exists_partnered (partners id) found
      exact mem_ids_of_find? foundNode
    · intro present
      obtain ⟨node, found⟩ := exists_find? present
      obtain ⟨changed, foundChanged, _⟩ := exists_partner (partners id) found
      exact mem_ids_of_find? foundChanged
  refine ⟨fun scope id value _ => ⟨backward, forward⟩, fun scope => ⟨?_, ?_⟩⟩
  · intro defined id present
    obtain ⟨value, denotes⟩ := defined id ((sameIds id).mpr present)
    exact ⟨value, backward denotes⟩
  · intro defined id present
    obtain ⟨value, denotes⟩ := defined id ((sameIds id).mp present)
    exact ⟨value, forward denotes⟩

end Agrees

theorem SplitsIn.agrees {meaning : Interpretation} {graph other : Graph} {count : Nat}
    (run : graph.SplitsIn count other) (combines : meaning.Combines)
    (tidy : graph.Everywhere Tidy) (evaluable : graph.Evaluable) :
    graph.Agrees meaning other := by
  induction run with
  | refl => exact .refl graph
  | step earlier splits induction =>
      have linked := (earlier.evaluable tidy evaluable).linked
      exact induction.trans (splits.agrees combines linked) earlier.ids_subset

theorem SplitsIn.eq_of_narrow {graph other : Graph} {count : Nat}
    (run : graph.SplitsIn count other) (tidy : graph.Everywhere Tidy)
    (narrow : ∀ node ∈ graph.nodes, node.isWide = false) : other = graph := by
  have none := excess_of_narrow narrow
  have used := run.excess_eq tidy
  cases run with
  | refl => rfl
  | step => omega

/-- A split changes nothing of a node but its inputs. -/
theorem SplitsIn.exists_found {graph other : Graph} {count : Nat}
    (run : graph.SplitsIn count other) {id : NodeId} {node : Node}
    (found : graph.find? id = some node) :
    ∃ inputs, other.find? id = some { node with inputs := inputs } := by
  induction run with
  | refl =>
      refine ⟨node.inputs, found.trans ?_⟩
      cases node
      rfl
  | @step _ middle call _ first _ _ splits induction =>
      obtain ⟨inputs, held⟩ := induction
      by_cases isCall : id = call.id
      · subst isCall
        have isNode := Option.some.inj (splits.found.symm.trans held)
        exact ⟨_, splits.find?_call.trans (congrArg (fun before : Node =>
          some { before with inputs := [first, middle.nextId] }) isNode)⟩
      · exact ⟨inputs, splits.find?_other held isCall⟩

end Graph

/-- The text of the content of a node stays when the bodies of loops are split: it is not
that of a loop whose body has calls to split. -/
def Node.Steady (node : Node) : Prop :=
  ∀ loop, node.loop? = some loop → ∀ call ∈ loop.body.nodes, call.isWide = false

/-- Bindings give values to texts that stay. -/
def Graph.SteadyKeys (graph : Graph) : Prop :=
  ∀ node ∈ graph.nodes, ∀ loop, node.content = .loop loop → ∀ binding ∈ loop.bindings,
    ∀ bound ∈ loop.body.nodes, bound.id = binding.1 → bound.Steady

namespace Graph

variable {meaning : Interpretation} {graph other : Graph}

/-- Splitting keeps the texts of steady nodes. -/
theorem SplitTo.exists_plain (passes : graph.SplitTo other) {id : NodeId} {node : Node}
    (found : graph.find? id = some node) (steady : node.Steady) :
    ∃ changed, other.find? id = some changed ∧ changed.content.plain = node.content.plain := by
  have through := passes.through
  obtain ⟨count, run⟩ := through.run
  obtain ⟨inputs, held⟩ := run.exists_found found
  obtain ⟨changed, foundChanged, revised⟩ := exists_partner (find?_revised through.bodies id) held
  refine ⟨changed, foundChanged, ?_⟩
  cases revised with
  | same => rfl
  | @loop loop replaced runs related =>
      obtain ⟨done, isSplit⟩ := related.body
      have runsNode : node.loop? = some loop := runs
      have bodyPasses : loop.body.SplitTo replaced.body :=
        ⟨passes.tidy.body found runsNode, done, isSplit⟩
      have bodyThrough := bodyPasses.through
      obtain ⟨splits, bodyRun⟩ := bodyThrough.run
      have unsplit := bodyRun.eq_of_narrow bodyPasses.tidy (steady loop runsNode)
      have size := bodyThrough.bodies.length_eq
      have exits := bodyThrough.exits
      rw [unsplit] at size exits
      rw [(Node.loop?_eq_some.mp runsNode).2, Value.plain_loop, Value.plain_loop]
      have index : replaced.index = loop.index := by rw [related.same]
      have bindings : replaced.bindings = loop.bindings := by rw [related.same]
      exact Loop.describe_eq index bindings size.symm exits

/-- What a graph needs so that splitting keeps its values, in every graph of its nest. -/
structure Regroupable (graph : Graph) : Prop where
  tidy : graph.Everywhere Tidy
  evaluable : graph.Everywhere Evaluable
  steady : graph.Everywhere SteadyKeys

theorem Regroupable.body (fit : graph.Regroupable) {id : NodeId} {node : Node} {loop : Loop}
    (found : graph.find? id = some node) (runs : node.loop? = some loop) :
    loop.body.Regroupable :=
  ⟨fit.tidy.body found runs, fit.evaluable.body found runs, fit.steady.body found runs⟩

/-- The texts of the bound nodes of a loop stay when its body is split. -/
theorem Regroupable.names (fit : graph.Regroupable) {id : NodeId} {node : Node} {loop : Loop}
    (found : graph.find? id = some node) (runs : node.loop? = some loop) {body : Graph}
    (passes : loop.body.SplitTo body) :
    ∀ binding ∈ loop.bindings,
      (body.find? binding.1).map (fun bound => bound.content.plain) =
        (loop.body.find? binding.1).map fun bound => bound.content.plain := by
  have member := (mem_of_find? found).1
  intro binding isBinding
  obtain ⟨bound, foundBound⟩ :=
    exists_find? (fit.evaluable.here.keys node member loop runs binding isBinding)
  obtain ⟨inside, same⟩ := mem_of_find? foundBound
  have steady := fit.steady.here node member loop (Node.loop?_eq_some.mp runs).2 binding isBinding
    bound inside same
  obtain ⟨changed, foundChanged, sameText⟩ := passes.exists_plain foundBound steady
  rw [foundBound, foundChanged, Option.map_some, Option.map_some, sameText]

/-- A graph and the split graph agree, and evaluation can sort and run both. -/
theorem SplitTo.agrees (combines : meaning.Combines) (passes : graph.SplitTo other)
    (fit : graph.Regroupable) : other.Everywhere Evaluable ∧ graph.Agrees meaning other := by
  induction graph using bodyInduction generalizing other with
  | step graph induction =>
      have through := passes.through
      obtain ⟨count, run⟩ := through.run
      have levelEvaluable := run.evaluable passes.tidy fit.evaluable.here
      have sameIds : other.ids = (splitLevel graph).graph.ids := ids_revised through.bodies
      have distinct : other.ids.Nodup := sameIds ▸ levelEvaluable.distinct
      have before : ∀ {id node loop}, (splitLevel graph).graph.find? id = some node →
          node.loop? = some loop → graph.find? id = some node := by
        intro id node loop found runs
        exact (run.find?_of_kind (by simp [(Node.loop?_eq_some.mp runs).1])).mp found
      have bodies : ∀ {id node loop body}, (splitLevel graph).graph.find? id = some node →
          node.loop? = some loop →
          ((∃ count, loop.body.split.answer = .ok count) ∧ body = loop.body.split.graph) →
          loop.body.SplitTo body ∧ body.Everywhere Evaluable ∧ loop.body.Agrees meaning body := by
        intro id node loop body found runs replaced
        have old := before found runs
        have bodyPasses : loop.body.SplitTo body :=
          ⟨passes.tidy.body old runs, replaced.1, replaced.2⟩
        exact ⟨bodyPasses, induction node (mem_of_find? old).1 loop runs bodyPasses
          (fit.body old runs)⟩
      have origins := origins_of_revised through.bodies
      refine ⟨everywhere_of_origins origins ?_ ?_, ?_⟩
      · have sameBindings : ∀ loop changed, Loop.ReplacedBy (fun body changed =>
            (∃ count, body.split.answer = .ok count) ∧ changed = body.split.graph) loop changed →
            changed.bindings = loop.bindings := by
          intro loop changed related
          rw [related.same]
        refine levelEvaluable.of_resembling distinct ?_ ?_ ?_
          (fun loop changed related => sameBindings loop changed related ▸ List.Subset.refl _) ?_
        · intro id changed found
          obtain ⟨node, foundNode, revised⟩ := origins id changed found
          exact ⟨node, foundNode, revised.resembles⟩
        · intro changed member id needed
          obtain ⟨node, found, revised⟩ := origins _ changed (find?_of_mem distinct member)
          rw [revised.dependencies_eq sameBindings] at needed
          exact sameIds ▸ levelEvaluable.linked node (mem_of_find? found).1 id needed
        · intro exit isExit
          rw [through.exits] at isExit
          exact sameIds ▸ levelEvaluable.exits exit isExit
        · intro id node loop changed found runs related binding isBinding
          obtain ⟨bodyPasses, _, _⟩ := bodies found runs related.body
          obtain ⟨_, bodyRun⟩ := bodyPasses.through.run
          have bodyIds : changed.body.ids = _ := ids_revised bodyPasses.through.bodies
          rw [sameBindings loop changed related] at isBinding
          rw [bodyIds]
          exact bodyRun.ids_subset (levelEvaluable.keys node (mem_of_find? found).1 loop runs
            binding isBinding)
      · intro id node loop changed found runs related
        exact (bodies found runs related.body).2.1
      · apply (run.agrees combines passes.tidy fit.evaluable.here).trans _ run.ids_subset
        apply Agrees.of_partners
        intro id
        apply rel_mono (find?_revised through.bodies id)
        intro node changed found _ revised
        cases revised with
        | same noLoop => exact .same noLoop
        | @loop loop replaced runs related =>
            obtain ⟨bodyPasses, _, agrees⟩ := bodies found runs related.body
            have names := fit.names (before found runs) runs bodyPasses
            have sameBindings : replaced.bindings = loop.bindings := by rw [related.same]
            refine .loop runs ⟨⟨sameBindings, names, fun scope => (agrees.defined scope).mpr⟩,
              ⟨sameBindings.symm, ?_, fun scope => (agrees.defined scope).mp⟩⟩
            intro binding isBinding
            exact (names binding (sameBindings ▸ isBinding)).symm

theorem SplitTo.exits_eq (passes : graph.SplitTo other) : other.exits = graph.exits := by
  obtain ⟨count, run⟩ := passes.through.run
  exact passes.through.exits.trans run.exits_eq

/-- Bodies are entered in step, in the same scopes. -/
theorem SplitTo.enters (combines : meaning.Combines) (passes : graph.SplitTo other)
    (fit : graph.Regroupable) {scope inner : Scope} {path : List NodeId} {body : Graph}
    (enters : Enters meaning graph scope path body inner) :
    ∃ split, Enters meaning other scope path split inner ∧ body.SplitTo split ∧
      body.Regroupable := by
  refine @Enters.transport meaning (fun left right => left.SplitTo right ∧ left.Regroupable)
    ?_ _ _ _ _ _ _ enters ⟨passes, fit⟩
  rintro left right ⟨passes, fit⟩ id node loop found runs
  obtain ⟨changed, after, related⟩ := exists_partner (passes.loops id)
    (Option.bind_eq_some_iff.mpr ⟨node, found, runs⟩)
  obtain ⟨other, foundOther, runsOther⟩ := Option.bind_eq_some_iff.mp after
  have sameBindings : changed.bindings = loop.bindings := by rw [related.same]
  refine ⟨other, changed, foundOther, runsOther, ⟨related.body, fit.body found runs⟩, ?_⟩
  intro scope values sources
  refine ⟨values, ?_, ?_⟩
  · intro binding isBinding
    have denotes := sources binding (sameBindings ▸ isBinding)
    exact ((passes.agrees combines fit).2.denotes scope _ _ denotes.mem_ids).mpr denotes
  · rw [sameBindings]
    exact boundScope_eq_of_names (fit.names found runs related.body)

/-- Splitting keeps what a graph evaluates to: evaluation succeeds on the split graph exactly
when it does on the graph, with the same values at the exits and the same results of all
nodes that were there, at every depth. -/
theorem split_preserves_evaluation {ι : Type} {registry : Registry ι}
    {run : ι → List Value → Except Fault Value} (folds : registry.FoldsOperands run)
    {graph : Graph} (valid : graph.validate = .ok ()) (tidy : graph.Everywhere Tidy)
    (acyclic : graph.Everywhere Acyclic)
    (loops : graph.Everywhere fun body =>
      ∀ node ∈ body.nodes, node.kind = .loop ↔ ∃ loop, node.content = .loop loop)
    (steady : graph.Everywhere SteadyKeys) {count : Nat}
    (done : graph.split.answer = .ok count) (scope : Scope) :
    (∀ values, (graph.evaluate (registry.interpretation run) scope).answer = .ok values ↔
      (graph.split.graph.evaluate (registry.interpretation run) scope).answer = .ok values) ∧
    ((∃ values, (graph.evaluate (registry.interpretation run) scope).answer = .ok values) →
      ∀ path body, graph.within? path = some body → ∀ id ∈ body.ids, ∃ value,
        (graph.evaluate (registry.interpretation run) scope).graph.resultAt path id =
            some value ∧
          (graph.split.graph.evaluate (registry.interpretation run) scope).graph.resultAt path id =
            some value) := by
  have combines := folds.combines
  have evaluable := evaluable_of_valid valid (tidy.mono fun _ here => here.distinct)
    (loops.mono fun _ exact node member => (exact node member).mp) acyclic
  have passes : graph.SplitTo graph.split.graph := ⟨tidy, ⟨count, done⟩, rfl⟩
  have fit : graph.Regroupable := ⟨tidy, evaluable, steady⟩
  obtain ⟨splitEvaluable, agrees⟩ := passes.agrees combines fit
  have computed := computedBy_evaluate evaluable (registry.interpretation run) scope
  have splitComputed := computedBy_evaluate splitEvaluable (registry.interpretation run) scope
  have forward : ∀ values,
      (graph.evaluate (registry.interpretation run) scope).answer = .ok values →
      (graph.split.graph.evaluate (registry.interpretation run) scope).answer = .ok values := by
    intro values succeeded
    obtain ⟨defined, _, exits⟩ := computed.sound values succeeded
    apply evaluate_eq_ok splitEvaluable ((agrees.defined scope).mpr defined)
    unfold ExitsDenote
    rw [passes.exits_eq]
    exact exits.imp fun exit found leaves =>
      ⟨leaves.1, (agrees.denotes scope _ _ leaves.2.mem_ids).mpr leaves.2⟩
  refine ⟨fun values => ⟨forward values, ?_⟩, ?_⟩
  · intro succeeded
    obtain ⟨splitDefined, _, _⟩ := splitComputed.sound values succeeded
    obtain ⟨others, before⟩ := computed.complete ((agrees.defined scope).mp splitDefined)
    cases (forward others before).symm.trans succeeded
    exact before
  · rintro ⟨values, succeeded⟩ path body reached id present
    obtain ⟨defined, completes, _⟩ := computed.sound values succeeded
    obtain ⟨_, splitCompletes, _⟩ := splitComputed.sound values (forward values succeeded)
    obtain ⟨inner, enters, bodyDefined⟩ := defined.exists_enters reached
    obtain ⟨split, splitEnters, bodyPasses, bodyFit⟩ := passes.enters combines fit enters
    obtain ⟨value, denotes⟩ := bodyDefined id present
    have splitDenotes := ((bodyPasses.agrees combines bodyFit).2.denotes inner id value present).mpr
      denotes
    exact ⟨value, completes.resultAt_eq enters denotes,
      splitCompletes.resultAt_eq splitEnters splitDenotes⟩

end Graph

/-- What a value adds to a sum. -/
def Value.summand : Value → Int
  | .int number => number
  | _ => 0

/-- The operations that fold their operands add them all up, whatever their name. -/
def summing : Registry Operation :=
  ⟨foldingOperations.map fun name => (name, [⟨none, Operation.nary
      (fun left right => .ok (.int (left.summand + right.summand))) .ok⟩]), [], none⟩

theorem summing_foldsOperands : summing.FoldsOperands id := by
  have associative : Std.Associative fun left right : Value =>
      Value.int (left.summand + right.summand) :=
    ⟨fun first second third => congrArg Value.int (Int.add_assoc _ _ _)⟩
  intro name folding
  refine ⟨_, _, .ok, ?_, associative, rfl⟩
  simp only [foldingOperations, List.mem_cons, List.not_mem_nil, or_false] at folding
  rcases folding with rfl | rfl | rfl | rfl | rfl <;> rfl

theorem manyOperands_regrouped :
    (manyOperands.split.graph.evaluate (summing.interpretation id) fun _ => none).answer =
      .ok [("y", .int 6)] := by
  have ranked : manyOperands.RankedBy Int.toNat := by
    simp [Graph.RankedBy, manyOperands, Node.dependencies]
  have bodyRanked : triplingBody.RankedBy Int.toNat := by
    simp [Graph.RankedBy, triplingBody, Node.dependencies]
  have before : (manyOperands.evaluate (summing.interpretation id) fun _ => none).answer =
      .ok [("y", .int 6)] := by
    with_unfolding_all rfl
  apply ((@Graph.split_preserves_evaluation _ _ _ summing_foldsOperands manyOperands rfl
    manyOperands_tidy (everywhere_manyOperands ranked.acyclic bodyRanked.acyclic)
    (everywhere_manyOperands (by simp [manyOperands]) (by simp [triplingBody]))
    (everywhere_manyOperands ?_ (by simp [Graph.SteadyKeys, triplingBody])) 3 rfl _).1 _).mp before
  simp [Graph.SteadyKeys, manyOperands, triplingBody, Node.Steady, Node.loop?]

/-- A body with a call to split. -/
def wideBody : Graph :=
  ⟨[⟨0, .constant, .int 1, [], .null⟩, ⟨1, .call, .text "+", [0, 0, 0], .null⟩], [], 2⟩

/-- The text of a loop over that body. -/
def wideText : String :=
  Loop.describe ⟨1, "j", wideBody, []⟩

/-- A loop over a body, beside an external node. -/
def namingBody (name : String) (body : Graph) : Graph :=
  ⟨[⟨0, .loop, .loop ⟨1, "j", body, []⟩, [], .null⟩, ⟨1, .external, .text name, [], .null⟩], [], 2⟩

/-- A loop that binds the loop inside its body, and so the text of that loop. -/
def namingOver (name : String) (body : Graph) : Graph :=
  ⟨[⟨0, .constant, .int 1, [], .null⟩,
      ⟨1, .loop, .loop ⟨0, "i", namingBody name body, [(0, 0)]⟩, [], .null⟩],
    [("loop", 1)], 2⟩

theorem everywhere_wideBody {property : Graph → Prop} (here : property wideBody) :
    wideBody.Everywhere property :=
  Graph.everywhere_of_innermost (by simp [wideBody, Node.loop?]) here

theorem everywhere_namingOver {property : Graph → Prop} (name : String) {body : Graph}
    (here : property (namingOver name body)) (inside : property (namingBody name body))
    (deeper : body.Everywhere property) : (namingOver name body).Everywhere property := by
  have middle : (namingBody name body).Everywhere property :=
    Graph.everywhere_of_bodies inside (by simpa [namingBody, Node.loop?, Value.loop?] using deeper)
  refine Graph.everywhere_of_bodies here ?_
  simpa [namingOver, Node.loop?, Value.loop?] using middle

theorem namingOver_acyclic (name : String) {body : Graph}
    (deeper : body.Everywhere Graph.Acyclic) :
    (namingOver name body).Everywhere Graph.Acyclic := by
  have ranked : (namingOver name body).RankedBy Int.toNat := by
    simp [Graph.RankedBy, namingOver, Node.dependencies]
  have bodyRanked : (namingBody name body).RankedBy Int.toNat := by
    simp [Graph.RankedBy, namingBody, Node.dependencies]
  exact everywhere_namingOver name ranked.acyclic bodyRanked.acyclic deeper

theorem namingOver_evaluable (name : String) {body : Graph}
    (deeper : body.Everywhere Graph.Evaluable) :
    (namingOver name body).Everywhere Graph.Evaluable := by
  have acyclic := namingOver_acyclic name (deeper.mono fun _ here => here.acyclic)
  refine everywhere_namingOver name ?_ ?_ deeper
  · exact
      { distinct := by simp [namingOver, Graph.ids]
        linked := by simp [namingOver, Node.dependencies, Graph.ids]
        exits := by simp [namingOver, Graph.ids]
        carried := by simp [namingOver]
        keys := by simp [namingOver, namingBody, Node.loop?, Value.loop?, Graph.ids]
        acyclic := acyclic.here }
  · exact
      { distinct := by simp [namingBody, Graph.ids]
        linked := by simp [namingBody, Node.dependencies]
        exits := by simp [namingBody]
        carried := by simp [namingBody]
        keys := by simp [namingBody, Node.loop?, Value.loop?]
        acyclic := acyclic [1] _ rfl }

section NamedLoop

variable {meaning : Interpretation} {scope : Scope} {name : String} {body : Graph}

theorem namingOver_scope (values : NodeId → Value) :
    boundScope (namingBody name body) values scope [(0, 0)] =
      scope.bind (Loop.describe ⟨1, "j", body, []⟩) (values 0) := by
  rw [← Value.plain_loop]
  rfl

theorem namingOver_source : Denotes meaning (namingOver name body) scope 0 (.int 1) := by
  have found : (namingOver name body).find? 0 = some ⟨0, .constant, .int 1, [], .null⟩ := rfl
  exact Denotes.of_constant found rfl

/-- The external node has a value when its name is the text of the bound loop. -/
theorem namingOver_denotes (inside : ∀ inner, body.Defined meaning inner)
    (named : name = Loop.describe ⟨1, "j", body, []⟩) :
    Denotes meaning (namingOver name body) scope 1 .null := by
  refine @Denotes.of_defined _ _ _ _ _ _ (fun _ => .int 1) rfl rfl
    (by simpa using namingOver_source) (by simp [namingBody, Graph.ids]) ?_
  intro id present
  simp only [namingOver_scope, ← named]
  have either : id = 0 ∨ id = 1 := by simpa [namingBody, Graph.ids] using present
  rcases either with rfl | rfl
  · refine ⟨.null, @Denotes.of_defined _ _ _ _ _ _ (fun _ => .null) rfl rfl ?_ ?_ (inside _)⟩
    · simp
    · simp
  · refine ⟨.int 1, @Denotes.plain _ _ _ _ _ _ (fun _ => .null) rfl (by simp [Node.reads]) ?_⟩
    simp [Node.valueFrom, Node.valueBy, Value.plain, Scope.read, Scope.bind]

theorem namingOver_evaluates (evaluable : (namingOver name body).Everywhere Graph.Evaluable)
    (inside : ∀ inner, body.Defined meaning inner)
    (named : name = Loop.describe ⟨1, "j", body, []⟩) :
    ((namingOver name body).evaluate meaning scope).answer = .ok [("loop", .null)] := by
  have runs := @namingOver_denotes meaning scope name body inside named
  refine Graph.evaluate_eq_ok evaluable ?_ (.cons ⟨rfl, runs⟩ .nil)
  intro id present
  have either : id = 0 ∨ id = 1 := by simpa [namingOver, Graph.ids] using present
  rcases either with rfl | rfl
  · exact ⟨_, namingOver_source⟩
  · exact ⟨_, runs⟩

/-- It has none when the text is another one and the name is not known otherwise. -/
theorem namingOver_undefined (different : name ≠ Loop.describe ⟨1, "j", body, []⟩)
    (unknown : ∀ value, scope.read meaning name ≠ .ok value) :
    ¬ (namingOver name body).Defined meaning scope := by
  intro defined
  obtain ⟨value, denotes⟩ := defined 1 (by simp [Graph.ids, namingOver])
  obtain ⟨values, _, _, bodyDefined, _⟩ := denotes.defined_body rfl rfl
  obtain ⟨read, external⟩ := bodyDefined 1 (by simp [Graph.ids, namingBody])
  have resolved := external.read_eq_ok rfl rfl
  rw [namingOver_scope, Value.plain, Scope.read, Scope.bind, if_neg different] at resolved
  exact unknown read resolved

end NamedLoop

theorem wideBody_defined (scope : Scope) : wideBody.Defined (summing.interpretation id) scope := by
  have found : wideBody.find? 0 = some ⟨0, .constant, .int 1, [], .null⟩ := rfl
  have one : Denotes (summing.interpretation id) wideBody scope 0 (.int 1) :=
    Denotes.of_constant found rfl
  have reads : ∀ read ∈ [(0 : NodeId), 0, 0],
      Denotes (summing.interpretation id) wideBody scope read (.int 1) := by
    simpa using one
  intro id present
  have either : id = 0 ∨ id = 1 := by simpa [wideBody, Graph.ids] using present
  rcases either with rfl | rfl
  · exact ⟨.int 1, one⟩
  · exact ⟨.int 3, @Denotes.plain _ _ _ _ _ _ (fun _ => .int 1) rfl reads rfl⟩

theorem wideBody_regroupable : wideBody.Regroupable where
  tidy := everywhere_wideBody ⟨by decide, by unfold Graph.Numbered; decide⟩
  evaluable := by
    have ranked : wideBody.RankedBy Int.toNat := by
      simp [Graph.RankedBy, wideBody, Node.dependencies]
    exact Graph.evaluable_of_valid rfl (everywhere_wideBody (by decide))
      (everywhere_wideBody (by simp [wideBody])) (everywhere_wideBody ranked.acyclic)
  steady := everywhere_wideBody (by simp [Graph.SteadyKeys, wideBody])

/-- Splitting changes the text of the loop, and with it the success of the evaluation. -/
theorem split_loses_loop_name :
    summing.FoldsOperands id ∧ (namingOver wideText wideBody).validate = .ok () ∧
      (namingOver wideText wideBody).Everywhere Graph.Tidy ∧
      (namingOver wideText wideBody).Everywhere Graph.Acyclic ∧
      ((namingOver wideText wideBody).Everywhere fun body =>
        ∀ node ∈ body.nodes, node.kind = .loop ↔ ∃ loop, node.content = .loop loop) ∧
      (namingOver wideText wideBody).split.answer = .ok 1 ∧
      ((namingOver wideText wideBody).evaluate (summing.interpretation id) fun _ => none).answer =
        .ok [("loop", .null)] ∧
      ∀ values, ((namingOver wideText wideBody).split.graph.evaluate (summing.interpretation id)
        fun _ => none).answer ≠ .ok values := by
  have unknown : ∀ name value,
      Scope.read (fun _ => none) (summing.interpretation id) name ≠ .ok value := by
    intro name value
    simp [Scope.read, Registry.interpretation, Registry.lookup, Registry.member?, summing]
  have fit := wideBody_regroupable
  have passes : wideBody.SplitTo wideBody.split.graph := ⟨fit.tidy, ⟨1, rfl⟩, rfl⟩
  have evaluable := namingOver_evaluable wideText fit.evaluable
  have splitEvaluable : (namingOver wideText wideBody).split.graph.Everywhere Graph.Evaluable :=
    namingOver_evaluable wideText (passes.agrees summing_foldsOperands.combines fit).1
  refine ⟨summing_foldsOperands, rfl, ?_, evaluable.mono fun _ here => here.acyclic, ?_, rfl,
    ?_, ?_⟩
  · exact everywhere_namingOver wideText ⟨by decide, by unfold Graph.Numbered; decide⟩
      ⟨by decide, by unfold Graph.Numbered; decide⟩ fit.tidy
  · exact everywhere_namingOver wideText (by simp [namingOver]) (by simp [namingBody])
      (everywhere_wideBody (by simp [wideBody]))
  · exact namingOver_evaluates evaluable wideBody_defined rfl
  · intro values succeeded
    have computed := Graph.computedBy_evaluate splitEvaluable (summing.interpretation id)
      fun _ => none
    exact namingOver_undefined (by decide +kernel) (unknown wideText)
      (computed.sound values succeeded).1

end FlowGraph

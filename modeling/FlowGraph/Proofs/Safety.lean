import FlowGraph.Proofs.Pruning

/-!
# Safety of valid graphs

What validation checks is enough for the passes that follow.  Pruning a valid graph
succeeds, scheduling it fails for a cycle only, and evaluation without cycles fails
only where a node fails on its own: in its operation, in the name that it looks up, in
the value that it reads from, or because it has nothing to read.

A fault is structural when it is about the shape of a graph: a node that is missing, a
loop without a body, a cycle.  Operations and names do not fail so, and neither does a
node with nothing to read.  What is left is the value that a node reads from: a graph is
a value too, and it is read at a number that it may not have.
-/

namespace FlowGraph

/-- Whether a fault is about the shape of a graph. -/
def Fault.isStructural : Fault → Bool
  | .cycle _ => true
  | .missingNode _ => true
  | .unknownNode _ => true
  | .missingInput _ _ => true
  | .danglingInput _ _ => true
  | .danglingBinding _ _ => true
  | .danglingSource _ _ _ => true
  | .danglingExit _ _ => true
  | .missingDependency _ _ => true
  | .notPermutation => true
  | .bodyless _ => true
  | .selfFusion _ => true
  | .cyclicFusion _ _ => true
  | .foreignTarget _ => true
  | _ => false

/-- The request does not fail with a structural fault. -/
def Benign {α : Type} : Except Fault α → Prop
  | .ok _ => True
  | .error fault => fault.isStructural = false

theorem Benign.fault {α : Type} {request : Except Fault α} {found : Fault}
    (benign : Benign request) (failed : request = .error found) : found.isStructural = false := by
  subst failed
  exact benign

theorem bind_eq_error {α β : Type} {first : Except Fault α} {next : α → Except Fault β}
    {fault : Fault} :
    (first >>= next) = .error fault ↔
      first = .error fault ∨ ∃ middle, first = .ok middle ∧ next middle = .error fault := by
  cases first with
  | error found => simp [bind, Except.bind]
  | ok middle => simp [bind, Except.bind]

section Scheduling

theorem layers_eq_error {waiting : List Node} {fault : Fault}
    (failed : layers waiting = .error fault) : ∃ stuck, fault = .cycle stuck := by
  fun_induction layers waiting with
  | case1 => cases failed
  | case2 waiting =>
      cases failed
      exact ⟨_, rfl⟩
  | case3 waiting _ _ induction =>
      rcases bind_eq_error.mp failed with later | ⟨_, _, ends⟩
      · exact induction later
      · cases ends

theorem scheduleBodies_eq_error {nodes : List Node} {fault : Fault}
    (carried : ∀ node ∈ nodes, node.kind = .loop → ∃ loop, node.content = .loop loop)
    (failed : scheduleBodies nodes = .error fault) :
    ∃ node ∈ nodes, ∃ loop, node.loop? = some loop ∧ loop.body.scheduled = .error fault := by
  induction nodes with
  | nil => cases failed
  | cons node rest induction =>
      have later : scheduleBodies rest = .error fault →
          ∃ other ∈ node :: rest, ∃ loop, other.loop? = some loop ∧
            loop.body.scheduled = .error fault := by
        intro restFailed
        obtain ⟨other, member, found⟩ := induction
          (fun other member => carried other (List.mem_cons_of_mem _ member)) restFailed
        exact ⟨other, List.mem_cons_of_mem _ member, found⟩
      by_cases kind : node.kind = .loop
      · obtain ⟨loop, content⟩ := carried node List.mem_cons_self kind
        have runs := Node.loop?_eq_some.mpr ⟨kind, content⟩
        rw [scheduleBodies_loop runs] at failed
        rcases bind_eq_error.mp failed with here | ⟨_, _, afterBody⟩
        · exact ⟨node, List.mem_cons_self, loop, runs, here⟩
        · rcases bind_eq_error.mp afterBody with restFailed | ⟨_, _, ends⟩
          · exact later restFailed
          · cases ends
      · rw [scheduleBodies_plain kind] at failed
        rcases bind_eq_error.mp failed with restFailed | ⟨_, _, ends⟩
        · exact later restFailed
        · cases ends

/-- Scheduling fails for a cycle only, when all references stay inside. -/
theorem Graph.scheduled_eq_error {graph : Graph} {fault : Fault}
    (closed : graph.Everywhere Closed) (failed : graph.scheduled = .error fault) :
    ∃ stuck, fault = .cycle stuck := by
  induction graph using bodyInduction with
  | step graph induction =>
      obtain ⟨distinct, linked, _, carried⟩ := closed.here
      have checked : checkDependencies graph.nodes graph.nodes = .ok () :=
        checkDependencies_eq_ok.mpr linked
      have bodies : scheduleBodies graph.nodes = .error fault → ∃ stuck, fault = .cycle stuck := by
        intro stopped
        obtain ⟨node, member, loop, runs, inBody⟩ := scheduleBodies_eq_error carried stopped
        exact induction node member loop runs
          (closed.body (find?_of_mem distinct member) runs) inBody
      obtain ⟨nodes, exits, nextId⟩ := graph
      rcases bind_eq_error.mp failed with unordered | ⟨_, _, afterOrder⟩
      · rcases bind_eq_error.mp unordered with missing | ⟨_, _, stuck⟩
        · cases checked.symm.trans missing
        · exact layers_eq_error stuck
      · rcases bind_eq_error.mp afterOrder with stopped | ⟨_, _, ends⟩
        · exact bodies stopped
        · cases ends

end Scheduling

namespace Node

/-- A node fails to read an element or a field of the value that it reads from. -/
inductive Misreads (meaning : Interpretation) (values : NodeId → Value) (node : Node)
    (fault : Fault) : Prop where
  | indexed {base : NodeId} (kind : node.kind = .element) (first : node.inputs.head? = some base)
      (failed : meaning.element (values base) node.content = .error fault) :
      Misreads meaning values node fault
  | accessed {base : NodeId} (kind : node.kind = .field) (first : node.inputs.head? = some base)
      (failed : meaning.field (values base) node.content.plain = .error fault) :
      Misreads meaning values node fault

/-- A node other than a loop fails on its own, when its reads have these values. -/
inductive Fails (meaning : Interpretation) (scope : Scope) (values : NodeId → Value) (node : Node)
    (fault : Fault) : Prop where
  | called
      (applied : node.kind = .call ∨ node.kind = .comparison ∨ node.kind = .allocation)
      (failed : meaning.call node.content.plain (node.inputs.map values) = .error fault) :
      Fails meaning scope values node fault
  | unknown (kind : node.kind = .external) (unbound : scope node.content.plain = none)
      (failed : meaning.lookup node.content.plain = .error fault) :
      Fails meaning scope values node fault
  | misread (misreads : node.Misreads meaning values fault) : Fails meaning scope values node fault
  | bare
      (kind : node.kind = .element ∨ node.kind = .field ∨ node.kind = .elementUpdate ∨
        node.kind = .fieldUpdate)
      (empty : node.inputs = []) (unreadable : fault = .outOfRange) :
      Fails meaning scope values node fault

section Reading

variable {values : NodeId → Value} {inputs : List NodeId}

theorem first_eq_error {fault : Fault}
    (failed : inputs.head?.elim (.error .outOfRange) (fun id => .ok (values id)) =
      (.error fault : Except Fault Value)) :
    inputs = [] ∧ fault = .outOfRange := by
  cases inputs with
  | nil =>
      cases failed
      exact ⟨rfl, rfl⟩
  | cons base rest => cases failed

theorem first_eq_ok {value : Value}
    (read : inputs.head?.elim (.error .outOfRange) (fun id => .ok (values id)) =
      (.ok value : Except Fault Value)) :
    ∃ base, inputs.head? = some base ∧ values base = value := by
  cases inputs with
  | nil => cases read
  | cons base rest =>
      cases read
      exact ⟨base, rfl, rfl⟩

end Reading

theorem fails_of_valueFrom {meaning : Interpretation} {scope : Scope} {values : NodeId → Value}
    {node : Node} {fault : Fault} (noLoop : node.kind ≠ .loop)
    (failed : node.valueFrom meaning scope values = .error fault) :
    node.Fails meaning scope values fault := by
  unfold valueFrom valueBy at failed
  cases kind : node.kind <;> simp only [kind] at failed
  case call =>
    rw [mapM_eq_ok fun _ _ => rfl] at failed
    exact .called (.inl kind) failed
  case comparison =>
    rw [mapM_eq_ok fun _ _ => rfl] at failed
    exact .called (.inr (.inl kind)) failed
  case allocation =>
    rw [mapM_eq_ok fun _ _ => rfl] at failed
    exact .called (.inr (.inr kind)) failed
  case external =>
    unfold Scope.read at failed
    split at failed
    · cases failed
    · exact .unknown kind ‹_› failed
  case element =>
    rcases bind_eq_error.mp failed with unread | ⟨value, read, missed⟩
    · obtain ⟨empty, unreadable⟩ := first_eq_error unread
      exact .bare (.inl kind) empty unreadable
    · obtain ⟨base, first, rfl⟩ := first_eq_ok read
      exact .misread (.indexed kind first missed)
  case field =>
    rcases bind_eq_error.mp failed with unread | ⟨value, read, missed⟩
    · obtain ⟨empty, unreadable⟩ := first_eq_error unread
      exact .bare (.inr (.inl kind)) empty unreadable
    · obtain ⟨base, first, rfl⟩ := first_eq_ok read
      exact .misread (.accessed kind first missed)
  case elementUpdate =>
    obtain ⟨empty, unreadable⟩ := first_eq_error failed
    exact .bare (.inr (.inr (.inl kind))) empty unreadable
  case fieldUpdate =>
    obtain ⟨empty, unreadable⟩ := first_eq_error failed
    exact .bare (.inr (.inr (.inr kind))) empty unreadable
  case constant | within => cases failed
  case loop => exact absurd kind noLoop

theorem Fails.kind_ne_loop {meaning : Interpretation} {scope : Scope} {values : NodeId → Value}
    {node : Node} {fault : Fault} (fails : node.Fails meaning scope values fault) :
    node.kind ≠ .loop := by
  intro loop
  cases fails with
  | called applied => simp [loop] at applied
  | unknown kind => simp [loop] at kind
  | misread misreads =>
      cases misreads with
      | indexed kind => simp [loop] at kind
      | accessed kind => simp [loop] at kind
  | bare kind => simp [loop] at kind

end Node

/-- No operation and no ambient name fails with a structural fault. -/
structure Interpretation.Benign (meaning : Interpretation) : Prop where
  call : ∀ name operands, FlowGraph.Benign (meaning.call name operands)
  lookup : ∀ name, FlowGraph.Benign (meaning.lookup name)

theorem Node.Fails.misreads {meaning : Interpretation} {scope : Scope} {values : NodeId → Value}
    {node : Node} {fault : Fault} (benign : meaning.Benign)
    (fails : node.Fails meaning scope values fault) (structural : fault.isStructural = true) :
    node.Misreads meaning values fault := by
  have excluded : fault.isStructural ≠ false := by simp [structural]
  cases fails with
  | called _ failed => exact absurd ((benign.call _ _).fault failed) excluded
  | unknown _ _ failed => exact absurd ((benign.lookup _).fault failed) excluded
  | misread misreads => exact misreads
  | bare _ _ unreadable => exact absurd (unreadable ▸ rfl) excluded

/-- Some node of the graph, or of the body of a loop at any depth, has the property when
its reads have their values. -/
inductive Graph.Reaches (meaning : Interpretation)
    (property : Scope → (NodeId → Value) → Node → Prop) : Graph → Scope → Prop where
  | node {graph : Graph} {scope : Scope} {id : NodeId} {node : Node} {values : NodeId → Value}
      (found : graph.find? id = some node)
      (reads : ∀ read ∈ node.reads, Denotes meaning graph scope read (values read))
      (holds : property scope values node) : Reaches meaning property graph scope
  | body {graph : Graph} {scope : Scope} {id : NodeId} {node : Node} {loop : Loop}
      {values : NodeId → Value} (found : graph.find? id = some node)
      (runs : node.loop? = some loop)
      (sources : ∀ binding ∈ loop.bindings,
        Denotes meaning graph scope binding.2 (values binding.2))
      (inside : Reaches meaning property loop.body
        (boundScope loop.body values scope loop.bindings)) :
      Reaches meaning property graph scope

namespace Graph

/-- A node, at some depth, fails on its own. -/
def Fails (meaning : Interpretation) (graph : Graph) (scope : Scope) (fault : Fault) : Prop :=
  graph.Reaches meaning (fun inner values node => node.Fails meaning inner values fault) scope

/-- A node, at some depth, fails to read from its value. -/
def Misreads (meaning : Interpretation) (graph : Graph) (scope : Scope) (fault : Fault) : Prop :=
  graph.Reaches meaning (fun _ values node => node.Misreads meaning values fault) scope

variable {meaning : Interpretation} {graph : Graph} {scope : Scope} {fault : Fault}

theorem Reaches.mono {property other : Scope → (NodeId → Value) → Node → Prop}
    (reaches : graph.Reaches meaning property scope)
    (implies : ∀ inner values node, property inner values node → other inner values node) :
    graph.Reaches meaning other scope := by
  induction reaches with
  | node found reads holds => exact .node found reads (implies _ _ _ holds)
  | body found runs sources _ induction => exact .body found runs sources induction

theorem Fails.misreads (benign : meaning.Benign) (fails : graph.Fails meaning scope fault)
    (structural : fault.isStructural = true) : graph.Misreads meaning scope fault :=
  fails.mono fun _ _ _ failing => failing.misreads benign structural

/-- A node at which the sweep stops fails on its own, or a node of its body does. -/
theorem fails_of_stops (evaluable : graph.Evaluable) {node : Node} (member : node ∈ graph.nodes)
    {before results : List Node}
    (finished : List.Forall₂ (Node.Finished meaning graph scope) before results)
    (dependencies : node.dependencies ⊆ before.map Node.id)
    (bodies : ∀ loop, node.loop? = some loop → ∀ inner,
      (loop.body.run meaning inner).answer = .error fault → loop.body.Fails meaning inner fault)
    (stops : node.Stops meaning scope results fault) : graph.Fails meaning scope fault := by
  have found := find?_of_mem evaluable.distinct member
  let values : NodeId → Value := fun id => (resultOf results id).toOption.getD .null
  have read : ∀ id ∈ node.dependencies, resultOf results id = .ok (values id) ∧
      Denotes meaning graph scope id (values id) := by
    intro id needed
    obtain ⟨value, stored, denotes⟩ := resultOf_finished finished (dependencies needed)
    have same : values id = value := by simp [values, stored, Except.toOption]
    rw [same]
    exact ⟨stored, denotes⟩
  have binds : ∀ loop, node.loop? = some loop →
      bodyScope results loop.body scope loop.bindings =
        .ok (boundScope loop.body values scope loop.bindings) := by
    intro loop runs
    rw [bodyScope_eq_scopeBy]
    exact scopeBy_eq_boundScope
      (fun binding bound => (read _ (Node.source_mem_dependencies runs bound)).1)
      (evaluable.keys node member loop runs)
  cases stops with
  | value noLoop failed =>
      have reads : node.reads ⊆ node.dependencies := fun id isRead =>
        node.inputs_subset_dependencies (node.reads_subset_inputs isRead)
      have plain : node.kind ≠ .loop := by
        intro kind
        obtain ⟨loop, content⟩ := evaluable.carried node member kind
        cases noLoop.symm.trans (Node.loop?_eq_some.mpr ⟨kind, content⟩)
      rw [nodeValue_eq_valueBy,
        Node.valueBy_eq_valueFrom fun id isRead => (read id (reads isRead)).1] at failed
      exact .node found (fun id isRead => (read id (reads isRead)).2)
        (Node.fails_of_valueFrom plain failed)
  | names runs failed => cases failed.symm.trans (binds _ runs)
  | body runs bound failed =>
      cases bound.symm.trans (binds _ runs)
      exact .body found runs
        (fun binding bound => (read _ (Node.source_mem_dependencies runs bound)).2)
        (bodies _ runs _ failed)

/-- A run over a graph in evaluation order fails only where some node fails. -/
theorem fails_of_run (evaluable : graph.Everywhere Evaluable) (runnable : graph.Everywhere Runnable)
    (failed : (graph.run meaning scope).answer = .error fault) :
    graph.Fails meaning scope fault := by
  induction graph using bodyInduction generalizing scope with
  | step graph induction =>
      have distinct := runnable.here.distinct
      have computed : ∀ node ∈ graph.nodes, ∀ loop, node.loop? = some loop → ∀ inner,
          loop.body.ComputedBy meaning inner (loop.body.run meaning inner) :=
        fun node member loop runs => computedBy_run
          (runnable.body (find?_of_mem distinct member) runs) meaning
      have nothing : List.Forall₂ (Node.Finished meaning graph scope) [] [] := .nil
      obtain ⟨sound, _, stopped⟩ := runNodes_spec distinct computed
        (List.nil_append graph.nodes) nothing runnable.here.sequenced (List.nil_subset _)
      rw [run_answer] at failed
      rcases bind_eq_error.mp failed with swept | ⟨_, swept, left⟩
      · obtain ⟨node, member, before, results, finished, dependencies, stops⟩ := stopped fault swept
        refine fails_of_stops evaluable.here member finished dependencies ?_ stops
        intro loop runs inner inBody
        have found := find?_of_mem distinct member
        exact induction node member loop runs (evaluable.body found runs)
          (runnable.body found runs) inBody
      · obtain ⟨values, leaving, _⟩ := exitValues_finished (sound swept) runnable.here.exits
        cases left.symm.trans leaving

/-- What fails in a schedule fails in the graph. -/
theorem fails_of_scheduled {scheduled : Graph} (evaluable : graph.Everywhere Evaluable)
    (done : graph.scheduled = .ok scheduled) (fails : scheduled.Fails meaning scope fault) :
    graph.Fails meaning scope fault := by
  induction graph using bodyInduction generalizing scheduled scope with
  | step graph induction =>
      have schedules := schedules_of_evaluable evaluable done
      cases fails with
      | @node _ _ id other values foundOther reads fails =>
          obtain ⟨node, found, revised⟩ := schedules.backward foundOther
          cases revised with
          | same =>
              exact .node found
                (fun read isRead => (denotes_scheduled evaluable done).mp (reads read isRead)) fails
          | loop runs => exact absurd (Node.loop?_eq_some.mp runs).1 fails.kind_ne_loop
      | @body _ _ id other changed values foundOther runsOther sources inside =>
          obtain ⟨node, found, revised⟩ := schedules.backward foundOther
          obtain ⟨loop, runs, related⟩ := revised.exists_origin runsOther
          have inBody := evaluable.body found runs
          have sameScope : boundScope changed.body values scope loop.bindings =
              boundScope loop.body values scope loop.bindings :=
            boundScope_eq_of_names fun binding _ => names_of_scheduled inBody related.body binding.1
          rw [related.bindings] at sources inside
          rw [sameScope] at inside
          refine .body found runs ?_ (induction node (mem_of_find? found).1 loop runs inBody
            related.body inside)
          intro binding bound
          exact (denotes_scheduled evaluable done).mp (sources binding bound)

theorem fails_of_evaluate (evaluable : graph.Everywhere Evaluable)
    (failed : (graph.evaluate meaning scope).answer = .error fault) :
    graph.Fails meaning scope fault := by
  obtain ⟨scheduled, done⟩ := exists_scheduled evaluable
  simp only [evaluate_eq, done] at failed
  exact fails_of_scheduled evaluable done (fails_of_run (evaluable_of_scheduled evaluable done)
    (runnable_of_scheduled evaluable done) failed)

/-- Validation makes the passes safe: pruning succeeds, scheduling fails for a cycle
only, and without cycles evaluation fails only where a node fails on its own, with a
structural fault only where a node reads an element or a field of its value. -/
theorem safe_of_validate (valid : graph.validate = .ok ())
    (distinct : graph.Everywhere fun body => body.ids.Nodup)
    (carried : graph.Everywhere fun body =>
      ∀ node ∈ body.nodes, node.kind = .loop → ∃ loop, node.content = .loop loop) :
    (∃ count, graph.prune.answer = .ok count) ∧
    (∀ fault, graph.schedule.answer = .error fault → ∃ stuck, fault = .cycle stuck) ∧
    (graph.Everywhere Acyclic → ∀ meaning : Interpretation, meaning.Benign → ∀ scope fault,
      (graph.evaluate meaning scope).answer = .error fault →
        graph.Fails meaning scope fault ∧
        (fault.isStructural = true → graph.Misreads meaning scope fault)) := by
  have closed := closed_of_valid valid distinct carried
  refine ⟨?_, ?_, ?_⟩
  · obtain ⟨pruned, count, done⟩ := pruned_succeeds closed
    exact ⟨count, by simp only [prune_eq, done]⟩
  · intro fault failed
    cases done : graph.scheduled with
    | ok scheduled =>
        simp only [schedule_eq, done] at failed
        cases failed
    | error found =>
        simp only [schedule_eq, done] at failed
        cases failed
        exact scheduled_eq_error closed done
  · intro acyclic meaning benign scope fault failed
    have fails := fails_of_evaluate (evaluable_of_valid valid distinct carried acyclic) failed
    exact ⟨fails, fails.misreads benign⟩

end Graph

section Registered

variable {ι : Type} (registry : Registry ι) {run : ι → List Value → Except Fault Value}

theorem Registry.benign_resolve (name : String) (operands : List Value) :
    Benign (registry.resolve name operands) := by
  unfold Registry.resolve
  dsimp only
  split
  · trivial
  · split
    · trivial
    · split <;> trivial

theorem Registry.benign_lookup (name : String) : Benign (registry.lookup name) := by
  unfold Registry.lookup
  split
  · trivial
  · split <;> trivial

/-- A registry adds no structural fault to those of its operations. -/
theorem Registry.benign_interpretation
    (operations : ∀ action operands, Benign (run action operands)) :
    (registry.interpretation run).Benign := by
  constructor
  · intro name operands
    change Benign (registry.resolve name operands >>= fun action => run action operands)
    cases resolved : registry.resolve name operands with
    | ok action => exact operations action operands
    | error fault => exact (registry.benign_resolve name operands).fault resolved
  · exact registry.benign_lookup

end Registered

/-- A registry that knows nothing, with operations that fail. -/
def refusing : Interpretation :=
  (Registry.empty none : Registry Unit).interpretation fun _ _ => .error .standIn

theorem refusing_benign : refusing.Benign :=
  Registry.benign_interpretation _ fun _ _ => rfl

theorem refusing_eq : refusing =
    { call := fun name operands =>
        .error (.unresolvedOperation name (operands.map Value.typeName))
      lookup := fun name => .error (.unresolvedName name)
      element := Value.element
      field := Value.field } := by
  have unknown (name : String) : (Registry.empty none : Registry Unit).member? name = none := by
    simp [Registry.member?, Registry.empty]
  unfold refusing Registry.interpretation
  congr
  · funext name operands
    simp only [Registry.call, Registry.resolve, unknown]
    rfl
  · funext name
    simp only [Registry.lookup, unknown]
    rfl

/-- Read the body of a loop at the number ninety-nine. -/
def bodyReader : Graph :=
  ⟨[⟨0, .external, .text "p", [], .null⟩,
    ⟨1, .field, .text "body", [0], .null⟩,
    ⟨2, .element, .int 99, [1], .null⟩], [], 3⟩

/-- A loop with an empty body, under its name. -/
def loopScope : Scope := fun name =>
  if name = "p" then some (.loop ⟨0, "i", Graph.empty, []⟩) else none

theorem bodyReader_wellFormed : bodyReader.WellFormed := by
  have innermost : ∀ node ∈ bodyReader.nodes, node.loop? = none := by
    simp [bodyReader, Node.loop?]
  have ranked : bodyReader.RankedBy Int.toNat := by
    simp [Graph.RankedBy, bodyReader, Node.dependencies]
  exact
    { valid := rfl
      distinct := Graph.everywhere_of_innermost innermost (by decide)
      acyclic := Graph.everywhere_of_innermost innermost ranked.acyclic
      loops := Graph.everywhere_of_innermost innermost (by simp [bodyReader])
      externalKeys := Graph.everywhere_of_innermost innermost (by simp [bodyReader]) }

theorem evaluate_bodyReader :
    (bodyReader.evaluate refusing loopScope).answer = .error (.missingNode 99) := by
  rw [refusing_eq]
  cbv

theorem tripling_safe :
    (∃ count, tripling.prune.answer = .ok count) ∧
    (∀ fault, tripling.schedule.answer = .error fault → ∃ stuck, fault = .cycle stuck) ∧
    (tripling.evaluate refusing fun _ => none).answer = .error (.unresolvedName "z") ∧
    tripling.Fails refusing (fun _ => none) (.unresolvedName "z") ∧
    bodyReader.Misreads refusing loopScope (.missingNode 99) := by
  obtain ⟨prunes, schedules, evaluates⟩ := Graph.safe_of_validate tripling_wellFormed.valid
    tripling_wellFormed.distinct
    (tripling_wellFormed.loops.mono fun _ loops node member => (loops node member).mp)
  obtain ⟨_, _, reads⟩ := Graph.safe_of_validate bodyReader_wellFormed.valid
    bodyReader_wellFormed.distinct
    (bodyReader_wellFormed.loops.mono fun _ loops node member => (loops node member).mp)
  have failed : (tripling.evaluate refusing fun _ => none).answer =
      .error (.unresolvedName "z") := by
    rw [refusing_eq]
    cbv
  refine ⟨prunes, schedules, failed, ?_, ?_⟩
  · exact (evaluates tripling_wellFormed.acyclic refusing refusing_benign _ _ failed).1
  · exact (reads bodyReader_wellFormed.acyclic refusing refusing_benign _ _
      evaluate_bodyReader).2 rfl

/-- A well-formed graph can fail with a structural fault where no operation does: a node
reads a body at a number that the body does not have. -/
theorem evaluation_fails_structurally :
    bodyReader.WellFormed ∧ refusing.Benign ∧
    (bodyReader.evaluate refusing loopScope).answer = .error (.missingNode 99) ∧
    (Fault.missingNode 99).isStructural = true :=
  ⟨bodyReader_wellFormed, refusing_benign, evaluate_bodyReader, rfl⟩

end FlowGraph

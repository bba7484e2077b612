import FlowGraph.Graph.Evaluate
import FlowGraph.Proofs.WellFormed

/-!
# Denotations

The denotation of a node is computed from the denotations of the nodes that it
reads, whatever the order of the nodes and the results that they hold.
`Graph.denote` computes it and refuses to enter a node twice; `Denotes` is the same
as a relation, and proofs about passes are inductions over its derivations.
-/

namespace FlowGraph

/-- The value of a name: the one in the scope, or else the ambient one. -/
def Scope.read (scope : Scope) (meaning : Interpretation) (name : String) : Except Fault Value :=
  match scope name with
  | some value => .ok value
  | none => meaning.lookup name

/-- A scope in which the names of bound nodes have the values of their sources;
later bindings go over earlier ones. -/
def scopeBy (answer : NodeId → Except Fault Value) (body : Graph) (scope : Scope) :
    List (NodeId × NodeId) → Except Fault Scope
  | [] => .ok scope
  | (key, source) :: rest => do
      let value ← answer source
      let bound ← body.node key
      scopeBy answer body (scope.bind bound.content.plain value) rest

theorem countP_entered_lt {nodes : List Node} {entered : List NodeId} {node : Node}
    (member : node ∈ nodes) (fresh : node.id ∉ entered) :
    (nodes.countP fun other => other.id ∉ node.id :: entered) <
      nodes.countP fun other => other.id ∉ entered := by
  induction nodes with
  | nil => cases member
  | cons first rest induction =>
      have weaker : (rest.countP fun other => other.id ∉ node.id :: entered) ≤
          rest.countP fun other => other.id ∉ entered :=
        List.countP_mono_left fun other _ outside => by simp_all
      rcases List.mem_cons.mp member with same | later
      · subst same
        simp only [List.countP_cons, List.mem_cons, true_or, not_true_eq_false, decide_false,
          Bool.false_eq_true, if_false, fresh, not_false_eq_true, decide_true, if_true]
        simp only [List.mem_cons] at weaker
        omega
      · have smaller := induction later
        rw [List.countP_cons, List.countP_cons]
        by_cases old : first.id ∈ entered <;> by_cases new : first.id = node.id <;>
          simp [old, new] at smaller ⊢ <;> omega

/-- The denotation of a node while those of the entered nodes are computed. -/
def Graph.denoteFrom (meaning : Interpretation) (graph : Graph) (scope : Scope)
    (entered : List NodeId) (id : NodeId) : Except Fault Value :=
  if _again : id ∈ entered then .error (.cycle entered)
  else
    match _found : graph.find? id with
    | none => .error (.missingNode id)
    | some node =>
        match node.kind with
        | .constant => .ok node.content
        | .external => scope.read meaning node.content.plain
        | .call | .comparison | .allocation => do
            let operands ← node.inputs.mapM fun input =>
              graph.denoteFrom meaning scope (id :: entered) input
            meaning.call node.content.plain operands
        | .element =>
            match node.inputs with
            | [] => .error .outOfRange
            | first :: _ => do
                let base ← graph.denoteFrom meaning scope (id :: entered) first
                meaning.element base node.content
        | .field =>
            match node.inputs with
            | [] => .error .outOfRange
            | first :: _ => do
                let base ← graph.denoteFrom meaning scope (id :: entered) first
                meaning.field base node.content.plain
        | .elementUpdate | .fieldUpdate =>
            match node.inputs with
            | [] => .error .outOfRange
            | first :: _ => graph.denoteFrom meaning scope (id :: entered) first
        | .within => .ok .null
        | .loop =>
            match _runs : node.loop? with
            | none => .error (.bodyless id)
            | some loop => do
                let inner ← scopeBy
                  (fun source => graph.denoteFrom meaning scope (id :: entered) source)
                  loop.body scope loop.bindings
                let _ ← loop.body.ids.mapM fun body =>
                  loop.body.denoteFrom meaning inner [] body
                return .null
termination_by (sizeOf graph, graph.nodes.countP fun node => node.id ∉ entered)
decreasing_by
  all_goals
    obtain ⟨member, same⟩ := Graph.mem_of_find? _found
    subst same
    first
    | exact Prod.Lex.right _ (countP_entered_lt member _again)
    | exact Prod.Lex.left _ _ (Graph.sizeOf_body_lt member _runs)

/-- The value of a node by recursion over what it depends on. -/
def Graph.denote (meaning : Interpretation) (scope : Scope) (graph : Graph) (id : NodeId) :
    Except Fault Value :=
  graph.denoteFrom meaning scope [] id

namespace Node

/-- The nodes whose values a node computes with. -/
def reads (node : Node) : List NodeId :=
  match node.kind with
  | .call | .comparison | .allocation => node.inputs
  | .element | .field | .elementUpdate | .fieldUpdate => node.inputs.take 1
  | _ => []

/-- What a node other than a loop computes when its reads are answered. -/
def valueBy (meaning : Interpretation) (scope : Scope)
    (answer : NodeId → Except Fault Value) (node : Node) : Except Fault Value :=
  match node.kind with
  | .call | .comparison | .allocation => do
      let operands ← node.inputs.mapM answer
      meaning.call node.content.plain operands
  | .external => scope.read meaning node.content.plain
  | .constant => .ok node.content
  | .element => do
      let base ← (node.inputs.head?.elim (.error .outOfRange) answer)
      meaning.element base node.content
  | .field => do
      let base ← (node.inputs.head?.elim (.error .outOfRange) answer)
      meaning.field base node.content.plain
  | .elementUpdate | .fieldUpdate => node.inputs.head?.elim (.error .outOfRange) answer
  | .within => .ok .null
  | .loop => .error (.bodyless node.id)

/-- What a node other than a loop computes from the values of its reads. -/
def valueFrom (meaning : Interpretation) (scope : Scope) (values : NodeId → Value)
    (node : Node) : Except Fault Value :=
  node.valueBy meaning scope fun id => .ok (values id)

theorem reads_subset_inputs (node : Node) : node.reads ⊆ node.inputs := by
  intro id member
  unfold reads at member
  split at member
  · exact member
  · exact member
  · exact member
  · exact List.mem_of_mem_take member
  · exact List.mem_of_mem_take member
  · exact List.mem_of_mem_take member
  · exact List.mem_of_mem_take member
  · cases member

end Node

theorem mapM_eq_ok {α β : Type} {items : List α} {answer : α → Except Fault β}
    {values : α → β} (each : ∀ item ∈ items, answer item = .ok (values item)) :
    items.mapM answer = .ok (items.map values) := by
  induction items with
  | nil => rfl
  | cons item rest induction =>
      have first := each item (by simp)
      have others := induction fun other member => each other (by simp [member])
      simp [List.mapM_cons, first, others, bind, Except.bind, pure, Except.pure]

theorem exists_of_mapM_eq_ok {α : Type} {items : List α} {answer : α → Except Fault Value}
    {results : List Value} (done : items.mapM answer = .ok results) :
    ∃ values : α → Value, ∀ item ∈ items, answer item = .ok (values item) := by
  refine ⟨fun item => (answer item).toOption.getD .null, ?_⟩
  induction items generalizing results with
  | nil => simp
  | cons item rest induction =>
      rw [List.mapM_cons, bind_eq_ok] at done
      obtain ⟨value, first, later⟩ := done
      obtain ⟨values, others, _⟩ := bind_eq_ok.mp later
      intro other member
      rcases List.mem_cons.mp member with same | inRest
      · subst same
        simp [first, Except.toOption]
      · exact induction others other inRest

namespace Node

variable {meaning : Interpretation} {scope : Scope} {node : Node}

theorem valueBy_eq_valueFrom {answer : NodeId → Except Fault Value} {values : NodeId → Value}
    (each : ∀ read ∈ node.reads, answer read = .ok (values read)) :
    node.valueBy meaning scope answer = node.valueFrom meaning scope values := by
  have operands : node.reads = node.inputs →
      node.inputs.mapM answer = node.inputs.mapM fun id => .ok (values id) := by
    intro all
    rw [mapM_eq_ok (all ▸ each), mapM_eq_ok fun _ _ => rfl]
  have first : node.reads = node.inputs.take 1 →
      (node.inputs.head?.elim (.error .outOfRange) answer : Except Fault Value) =
        node.inputs.head?.elim (.error .outOfRange) fun id => .ok (values id) := by
    intro one
    rw [one] at each
    cases inputs : node.inputs with
    | nil => rfl
    | cons read rest => exact each read (by simp [inputs])
  unfold valueFrom valueBy
  cases kind : node.kind
  case call | comparison | allocation =>
    simp only [operands (by simp [reads, kind])]
  case element | field | elementUpdate | fieldUpdate =>
    simp only [first (by simp [reads, kind])]
  all_goals rfl

theorem valueBy_eq_ok {answer : NodeId → Except Fault Value} {value : Value} :
    node.valueBy meaning scope answer = .ok value ↔
      ∃ values : NodeId → Value, (∀ read ∈ node.reads, answer read = .ok (values read)) ∧
        node.valueFrom meaning scope values = .ok value := by
  constructor
  · intro computed
    have answered : ∃ values : NodeId → Value,
        ∀ read ∈ node.reads, answer read = .ok (values read) := by
      have first : ∀ base, node.inputs.head?.elim (.error .outOfRange) answer = .ok base →
          ∃ values : NodeId → Value, ∀ read ∈ node.inputs.take 1,
            answer read = .ok (values read) := by
        intro base done
        refine ⟨fun _ => base, ?_⟩
        intro read member
        cases inputs : node.inputs with
        | nil => simp [inputs] at member
        | cons only rest =>
            have same : read = only := by simpa [inputs] using member
            rw [inputs] at done
            exact same ▸ done
      unfold valueBy at computed
      unfold reads
      cases kind : node.kind <;> simp only [kind] at computed ⊢
      case call | comparison | allocation =>
        obtain ⟨operands, done, _⟩ := bind_eq_ok.mp computed
        exact exists_of_mapM_eq_ok done
      case element | field =>
        obtain ⟨base, done, _⟩ := bind_eq_ok.mp computed
        exact first base done
      case elementUpdate | fieldUpdate => exact first value computed
      all_goals exact ⟨fun _ => .null, by simp⟩
    obtain ⟨values, each⟩ := answered
    exact ⟨values, each, valueBy_eq_valueFrom each ▸ computed⟩
  · rintro ⟨values, each, computed⟩
    exact (valueBy_eq_valueFrom each).trans computed

theorem valueFrom_call {values : NodeId → Value} (kind : node.kind = .call) :
    node.valueFrom meaning scope values =
      meaning.call node.content.plain (node.inputs.map values) := by
  simp only [valueFrom, valueBy, kind, mapM_eq_ok fun _ _ => rfl]
  rfl

theorem kind_ne_loop_of_valueFrom {values : NodeId → Value} {value : Value}
    (computed : node.valueFrom meaning scope values = .ok value) : node.kind ≠ .loop := by
  intro kind
  simp [valueFrom, valueBy, kind] at computed

/-- The same content computes the same from inputs that were renumbered together
with their values. -/
theorem valueFrom_renumbered {other : Node} {outer : Scope} {renumber : NodeId → NodeId}
    {values renumbered : NodeId → Value} {value : Value}
    (kind : other.kind = node.kind) (content : other.content = node.content)
    (inputs : other.inputs = node.inputs.map renumber)
    (same : ∀ read ∈ node.reads, renumbered (renumber read) = values read)
    (names : node.kind = .external →
      outer.read meaning node.content.plain = scope.read meaning node.content.plain)
    (computed : node.valueFrom meaning scope values = .ok value) :
    other.valueFrom meaning outer renumbered = .ok value := by
  have noLoop := kind_ne_loop_of_valueFrom computed
  have moved : other.valueFrom meaning outer renumbered =
      node.valueBy meaning outer fun id => .ok (renumbered (renumber id)) := by
    unfold valueFrom valueBy
    rw [kind, content, inputs, List.mapM_map, List.head?_map]
    cases held : node.kind
    case loop => exact absurd held noLoop
    case element | field | elementUpdate | fieldUpdate => cases node.inputs.head? <;> rfl
    all_goals rfl
  have rescoped : node.valueFrom meaning outer values = node.valueFrom meaning scope values := by
    unfold valueFrom valueBy
    cases held : node.kind
    case external => exact names held
    all_goals rfl
  calc
    other.valueFrom meaning outer renumbered = _ := moved
    _ = node.valueFrom meaning outer values :=
      valueBy_eq_valueFrom fun read member => by rw [same read member]
    _ = node.valueFrom meaning scope values := rescoped
    _ = .ok value := computed

end Node

/-- A scope in which the name of a bound node has the value of its source. -/
def bindKey (body : Graph) (values : NodeId → Value) (scope : Scope) (binding : NodeId × NodeId) :
    Scope :=
  match body.find? binding.1 with
  | some bound => scope.bind bound.content.plain (values binding.2)
  | none => scope

/-- The scope of a loop body when the sources of its bindings have these values. -/
def boundScope (body : Graph) (values : NodeId → Value) (scope : Scope)
    (bindings : List (NodeId × NodeId)) : Scope :=
  bindings.foldl (bindKey body values) scope

theorem boundScope_cons (body : Graph) (values : NodeId → Value) (scope : Scope)
    (binding : NodeId × NodeId) (rest : List (NodeId × NodeId)) :
    boundScope body values scope (binding :: rest) =
      boundScope body values (bindKey body values scope binding) rest :=
  rfl

theorem scopeBy_eq_boundScope {answer : NodeId → Except Fault Value} {body : Graph}
    {values : NodeId → Value} {scope : Scope} {bindings : List (NodeId × NodeId)}
    (each : ∀ binding ∈ bindings, answer binding.2 = .ok (values binding.2))
    (keys : ∀ binding ∈ bindings, binding.1 ∈ body.ids) :
    scopeBy answer body scope bindings = .ok (boundScope body values scope bindings) := by
  induction bindings generalizing scope with
  | nil => rfl
  | cons binding rest induction =>
      obtain ⟨key, source⟩ := binding
      obtain ⟨bound, found⟩ := Graph.exists_find? (keys (key, source) (by simp))
      have bindsKey : bindKey body values scope (key, source) =
          scope.bind bound.content.plain (values source) := by simp [bindKey, found]
      rw [boundScope_cons, bindsKey]
      refine bind_eq_ok.mpr ⟨_, each (key, source) (by simp),
        bind_eq_ok.mpr ⟨bound, Graph.node_eq_ok.mpr found, ?_⟩⟩
      exact induction (fun binding member => each binding (by simp [member]))
        (fun binding member => keys binding (by simp [member]))

theorem scopeBy_eq_ok {answer : NodeId → Except Fault Value} {body : Graph}
    {scope inner : Scope} {bindings : List (NodeId × NodeId)} :
    scopeBy answer body scope bindings = .ok inner ↔
      ∃ values : NodeId → Value,
        (∀ binding ∈ bindings, answer binding.2 = .ok (values binding.2)) ∧
        (∀ binding ∈ bindings, binding.1 ∈ body.ids) ∧
        inner = boundScope body values scope bindings := by
  constructor
  · intro done
    have answered : (∀ binding ∈ bindings,
          answer binding.2 = .ok ((answer binding.2).toOption.getD .null)) ∧
        ∀ binding ∈ bindings, binding.1 ∈ body.ids := by
      induction bindings generalizing scope with
      | nil => simp
      | cons binding rest induction =>
          obtain ⟨key, source⟩ := binding
          obtain ⟨value, first, later⟩ := bind_eq_ok.mp done
          obtain ⟨bound, found, others⟩ := bind_eq_ok.mp later
          obtain ⟨restAnswered, restKeys⟩ := induction others
          have present := Graph.mem_ids_of_find? (Graph.node_eq_ok.mp found)
          refine ⟨?_, ?_⟩
          · intro binding member
            rcases List.mem_cons.mp member with same | inRest
            · subst same
              simp [first, Except.toOption]
            · exact restAnswered binding inRest
          · intro binding member
            rcases List.mem_cons.mp member with same | inRest
            · subst same
              exact present
            · exact restKeys binding inRest
    obtain ⟨each, keys⟩ := answered
    refine ⟨fun id => (answer id).toOption.getD .null, each, keys, ?_⟩
    exact Except.ok.inj (done.symm.trans (scopeBy_eq_boundScope each keys))
  · rintro ⟨values, each, keys, rfl⟩
    exact scopeBy_eq_boundScope each keys

theorem boundScope_congr {body other : Graph} {values others : NodeId → Value} {scope : Scope}
    {bindings : List (NodeId × NodeId)} {renumber : NodeId → NodeId}
    (names : ∀ binding ∈ bindings,
      (other.find? binding.1).map (fun bound => bound.content.plain) =
        (body.find? binding.1).map fun bound => bound.content.plain)
    (same : ∀ binding ∈ bindings, others (renumber binding.2) = values binding.2) :
    boundScope other others scope (bindings.map fun (key, source) => (key, renumber source)) =
      boundScope body values scope bindings := by
  induction bindings generalizing scope with
  | nil => rfl
  | cons binding rest induction =>
      have name := names binding (by simp)
      have step : bindKey other others scope (binding.1, renumber binding.2) =
          bindKey body values scope binding := by
        unfold bindKey
        rw [same binding (by simp)]
        cases left : other.find? binding.1 <;> cases right : body.find? binding.1 <;> simp_all
      rw [List.map_cons, boundScope_cons, boundScope_cons, step]
      exact induction (fun binding member => names binding (by simp [member]))
        (fun binding member => same binding (by simp [member]))

theorem boundScope_eq_of_names {body other : Graph} {values : NodeId → Value} {scope : Scope}
    {bindings : List (NodeId × NodeId)}
    (names : ∀ binding ∈ bindings,
      (other.find? binding.1).map (fun bound => bound.content.plain) =
        (body.find? binding.1).map fun bound => bound.content.plain) :
    boundScope other values scope bindings = boundScope body values scope bindings := by
  have unchanged := @boundScope_congr body other values values scope bindings
    (fun source => source) names fun _ _ => rfl
  simpa using unchanged

theorem boundScope_eq_of_values {body : Graph} {values others : NodeId → Value} {scope : Scope}
    {bindings : List (NodeId × NodeId)}
    (same : ∀ binding ∈ bindings, others binding.2 = values binding.2) :
    boundScope body others scope bindings = boundScope body values scope bindings := by
  have unchanged := @boundScope_congr body body values others scope bindings
    (fun source => source) (fun _ _ => rfl) same
  simpa using unchanged

/-- A node has this value in a scope.  A loop has a value when all nodes of its
body have one. -/
inductive Denotes (meaning : Interpretation) : Graph → Scope → NodeId → Value → Prop where
  | plain {graph : Graph} {scope : Scope} {id : NodeId} {node : Node} {value : Value}
      {values : NodeId → Value}
      (found : graph.find? id = some node)
      (reads : ∀ read ∈ node.reads, Denotes meaning graph scope read (values read))
      (computed : node.valueFrom meaning scope values = .ok value) :
      Denotes meaning graph scope id value
  | loop {graph : Graph} {scope : Scope} {id : NodeId} {node : Node} {loop : Loop}
      {values results : NodeId → Value}
      (found : graph.find? id = some node)
      (runs : node.loop? = some loop)
      (sources : ∀ binding ∈ loop.bindings,
        Denotes meaning graph scope binding.2 (values binding.2))
      (keys : ∀ binding ∈ loop.bindings, binding.1 ∈ loop.body.ids)
      (inside : ∀ inner ∈ loop.body.ids,
        Denotes meaning loop.body (boundScope loop.body values scope loop.bindings) inner
          (results inner)) :
      Denotes meaning graph scope id .null

namespace Denotes

variable {meaning : Interpretation} {graph : Graph} {scope : Scope} {id : NodeId}
  {value other : Value}

theorem mem_ids (denotes : Denotes meaning graph scope id value) : id ∈ graph.ids := by
  cases denotes with
  | plain found => exact Graph.mem_ids_of_find? found
  | loop found => exact Graph.mem_ids_of_find? found

theorem deterministic (first : Denotes meaning graph scope id value)
    (second : Denotes meaning graph scope id other) : value = other := by
  induction first generalizing other with
  | @plain graph scope id node value values found reads computed induction =>
      cases second with
      | @plain _ _ _ node' _ values' found' reads' computed' =>
          cases found.symm.trans found'
          have same : node.valueFrom meaning scope values' = node.valueFrom meaning scope values :=
            Node.valueBy_eq_valueFrom fun read member =>
              congrArg Except.ok (induction read member (reads' read member)).symm
          exact Except.ok.inj (computed.symm.trans (same.symm.trans computed'))
      | loop found' runs' =>
          cases found.symm.trans found'
          exact absurd (Node.loop?_eq_some.mp runs').1 (Node.kind_ne_loop_of_valueFrom computed)
  | loop found runs =>
      cases second with
      | plain found' reads' computed' =>
          cases found.symm.trans found'
          exact absurd (Node.loop?_eq_some.mp runs).1 (Node.kind_ne_loop_of_valueFrom computed')
      | loop => rfl

end Denotes

namespace Graph

variable {meaning : Interpretation} {graph : Graph} {scope : Scope} {entered : List NodeId}
  {id : NodeId} {node : Node} {value : Value}

theorem denoteFrom_of_plain (fresh : id ∉ entered) (found : graph.find? id = some node)
    (noLoop : node.loop? = none) :
    graph.denoteFrom meaning scope entered id =
      node.valueBy meaning scope fun read =>
        graph.denoteFrom meaning scope (id :: entered) read := by
  have same := (mem_of_find? found).2
  rw [denoteFrom, dif_neg fresh]
  split
  · rename_i missing
    cases found.symm.trans missing
  · rename_i held heldFound
    cases found.symm.trans heldFound
    unfold Node.valueBy
    cases kind : node.kind
    case element | field | elementUpdate | fieldUpdate => cases node.inputs <;> rfl
    case loop =>
      simp only
      split
      · rw [same]
      · rename_i loop runs
        cases noLoop.symm.trans runs
    all_goals rfl

theorem denoteFrom_of_loop {loop : Loop} (fresh : id ∉ entered)
    (found : graph.find? id = some node) (runs : node.loop? = some loop) :
    graph.denoteFrom meaning scope entered id = (do
      let inner ← scopeBy (fun source => graph.denoteFrom meaning scope (id :: entered) source)
        loop.body scope loop.bindings
      let _ ← loop.body.ids.mapM fun body => loop.body.denoteFrom meaning inner [] body
      return .null) := by
  have kind := (Node.loop?_eq_some.mp runs).1
  rw [denoteFrom, dif_neg fresh]
  split
  · rename_i missing
    cases found.symm.trans missing
  · rename_i held heldFound
    cases found.symm.trans heldFound
    simp only [kind]
    split
    · rename_i none
      cases runs.symm.trans none
    · rename_i other heldRuns
      cases runs.symm.trans heldRuns
      rfl

theorem denotes_of_denoteFrom {meaning : Interpretation} {graph : Graph} {scope : Scope}
    {entered : List NodeId} {id : NodeId} {value : Value}
    (computed : graph.denoteFrom meaning scope entered id = .ok value) :
    Denotes meaning graph scope id value := by
  by_cases again : id ∈ entered
  · rw [denoteFrom, dif_pos again] at computed
    cases computed
  · cases found : graph.find? id with
    | none =>
        rw [denoteFrom, dif_neg again] at computed
        split at computed
        · cases computed
        · rename_i held heldFound
          cases found.symm.trans heldFound
    | some node =>
        obtain ⟨member, same⟩ := mem_of_find? found
        subst same
        have smaller := countP_entered_lt member again
        cases runs : node.loop? with
        | none =>
            rw [denoteFrom_of_plain again found runs] at computed
            obtain ⟨values, answered, value⟩ := Node.valueBy_eq_ok.mp computed
            exact .plain found
              (fun read member => denotes_of_denoteFrom (answered read member)) value
        | some loop =>
            have inner := sizeOf_body_lt member runs
            rw [denoteFrom_of_loop again found runs] at computed
            obtain ⟨bodyScope, bound, entering⟩ := bind_eq_ok.mp computed
            obtain ⟨results, done, ends⟩ := bind_eq_ok.mp entering
            obtain ⟨values, answered, keys, rfl⟩ := scopeBy_eq_ok.mp bound
            obtain ⟨bodyValues, each⟩ := exists_of_mapM_eq_ok done
            cases ends
            exact .loop found runs
              (fun binding member => denotes_of_denoteFrom (answered binding member)) keys
              (fun body member => denotes_of_denoteFrom (each body member))
termination_by (sizeOf graph, graph.nodes.countP fun node => node.id ∉ entered)
decreasing_by
  · exact Prod.Lex.right _ smaller
  · exact Prod.Lex.right _ smaller
  · exact Prod.Lex.left _ _ inner

end Graph

/-- A denotation is computed unless that leads back to an entered node. -/
theorem Denotes.denoteFrom {meaning : Interpretation} {graph : Graph} {scope : Scope}
    {id : NodeId} {value : Value} (denotes : Denotes meaning graph scope id value)
    (acyclic : graph.Everywhere Graph.Acyclic) {entered : List NodeId}
    (above : ∀ outer ∈ entered, Relation.TransGen graph.DependsOn outer id) :
    graph.denoteFrom meaning scope entered id = .ok value := by
  induction denotes generalizing entered with
  | @plain graph scope id node value values found reads computed induction =>
      have fresh : id ∉ entered := fun again => acyclic.here id (above id again)
      obtain ⟨member, same⟩ := Graph.mem_of_find? found
      have noLoop := Node.loop?_eq_none_of_kind (Node.kind_ne_loop_of_valueFrom computed)
      rw [Graph.denoteFrom_of_plain fresh found noLoop]
      refine Node.valueBy_eq_ok.mpr ⟨values, ?_, computed⟩
      intro read isRead
      refine induction read isRead acyclic ?_
      have edge : graph.DependsOn id read :=
        ⟨node, member, same, node.inputs_subset_dependencies (node.reads_subset_inputs isRead)⟩
      intro outer inside
      rcases List.mem_cons.mp inside with rfl | earlier
      · exact .single edge
      · exact (above outer earlier).tail edge
  | @loop graph scope id node loop values results found runs sources keys inside
      sourcesInduction insideInduction =>
      have fresh : id ∉ entered := fun again => acyclic.here id (above id again)
      obtain ⟨member, same⟩ := Graph.mem_of_find? found
      rw [Graph.denoteFrom_of_loop fresh found runs]
      have bound : ∀ binding ∈ loop.bindings,
          graph.denoteFrom meaning scope (id :: entered) binding.2 = .ok (values binding.2) := by
        intro binding bound
        refine sourcesInduction binding bound acyclic ?_
        have edge : graph.DependsOn id binding.2 :=
          ⟨node, member, same, Node.source_mem_dependencies runs bound⟩
        intro outer inside
        rcases List.mem_cons.mp inside with rfl | earlier
        · exact .single edge
        · exact (above outer earlier).tail edge
      refine bind_eq_ok.mpr ⟨_, scopeBy_eq_boundScope bound keys, ?_⟩
      refine bind_eq_ok.mpr ⟨loop.body.ids.map results, mapM_eq_ok ?_, rfl⟩
      intro inner present
      exact insideInduction inner present (acyclic.body found runs) (by simp)

/-- In a graph without cycles the computed denotations are the denotations. -/
theorem Graph.denote_eq_ok {meaning : Interpretation} {graph : Graph} {scope : Scope}
    {id : NodeId} {value : Value} (acyclic : graph.Everywhere Graph.Acyclic) :
    graph.denote meaning scope id = .ok value ↔ Denotes meaning graph scope id value :=
  ⟨Graph.denotes_of_denoteFrom, fun denotes => denotes.denoteFrom acyclic (by simp)⟩

/-- Every node of the graph has a value. -/
def Graph.Defined (meaning : Interpretation) (scope : Scope) (graph : Graph) : Prop :=
  ∀ id ∈ graph.ids, ∃ value, Denotes meaning graph scope id value

/-- The values that leave at the exits are the denotations of the exit nodes. -/
def ExitsDenote (meaning : Interpretation) (scope : Scope) (graph : Graph)
    (values : List (String × Value)) : Prop :=
  List.Forall₂ (fun exit found => found.1 = exit.1 ∧ Denotes meaning graph scope exit.2 found.2)
    graph.exits values

theorem ExitsDenote.unique {meaning : Interpretation} {scope : Scope} {graph : Graph}
    {values others : List (String × Value)} (first : ExitsDenote meaning scope graph values)
    (second : ExitsDenote meaning scope graph others) : values = others := by
  unfold ExitsDenote at first second
  generalize graph.exits = exits at first second
  induction first generalizing others with
  | nil =>
      cases second
      rfl
  | @cons exit value exits values leaves _ induction =>
      cases second with
      | @cons _ other _ _ leavesOther rest =>
          have sameName : value.1 = other.1 := leaves.1.trans leavesOther.1.symm
          have sameValue : value.2 = other.2 := leaves.2.deterministic leavesOther.2
          exact congrArg₂ List.cons (Prod.ext sameName sameValue) (induction rest)

/-- The body at the end of a path, and the scope in which it is evaluated. -/
inductive Enters (meaning : Interpretation) :
    Graph → Scope → List NodeId → Graph → Scope → Prop where
  | here {graph : Graph} {scope : Scope} : Enters meaning graph scope [] graph scope
  | inside {graph : Graph} {scope : Scope} {id : NodeId} {node : Node} {loop : Loop}
      {values : NodeId → Value} {path : List NodeId} {body : Graph} {inner : Scope}
      (found : graph.find? id = some node)
      (runs : node.loop? = some loop)
      (sources : ∀ binding ∈ loop.bindings,
        Denotes meaning graph scope binding.2 (values binding.2))
      (deeper : Enters meaning loop.body (boundScope loop.body values scope loop.bindings) path
        body inner) :
      Enters meaning graph scope (id :: path) body inner

namespace Denotes

variable {meaning : Interpretation} {graph : Graph} {scope : Scope} {id : NodeId}

theorem of_defined {node : Node} {loop : Loop} {values : NodeId → Value}
    (found : graph.find? id = some node) (runs : node.loop? = some loop)
    (sources : ∀ binding ∈ loop.bindings, Denotes meaning graph scope binding.2 (values binding.2))
    (keys : ∀ binding ∈ loop.bindings, binding.1 ∈ loop.body.ids)
    (defined : loop.body.Defined meaning
      (boundScope loop.body values scope loop.bindings)) :
    Denotes meaning graph scope id .null := by
  have valued : ∀ inner, ∃ value, inner ∈ loop.body.ids →
      Denotes meaning loop.body (boundScope loop.body values scope loop.bindings) inner value := by
    intro inner
    by_cases present : inner ∈ loop.body.ids
    · obtain ⟨value, denotes⟩ := defined inner present
      exact ⟨value, fun _ => denotes⟩
    · exact ⟨.null, fun inside => absurd inside present⟩
  obtain ⟨results, inside⟩ := Classical.axiomOfChoice valued
  exact .loop found runs sources keys inside

theorem defined_body {node : Node} {loop : Loop} {value : Value}
    (denotes : Denotes meaning graph scope id value)
    (found : graph.find? id = some node) (runs : node.loop? = some loop) :
    ∃ values : NodeId → Value,
      (∀ binding ∈ loop.bindings, Denotes meaning graph scope binding.2 (values binding.2)) ∧
      (∀ binding ∈ loop.bindings, binding.1 ∈ loop.body.ids) ∧
      loop.body.Defined meaning (boundScope loop.body values scope loop.bindings) ∧
      value = .null := by
  cases denotes with
  | plain found' reads computed =>
      cases found.symm.trans found'
      exact absurd (Node.loop?_eq_some.mp runs).1 (Node.kind_ne_loop_of_valueFrom computed)
  | @loop _ _ _ _ _ values results found' runs' sources keys inside =>
      cases found.symm.trans found'
      cases runs.symm.trans runs'
      exact ⟨values, sources, keys, fun inner present => ⟨results inner, inside inner present⟩, rfl⟩

theorem of_constant {node : Node} (found : graph.find? id = some node)
    (constant : node.kind = .constant) : Denotes meaning graph scope id node.content := by
  have noReads : node.reads = [] := by simp [Node.reads, constant]
  have computed : node.valueFrom meaning scope (fun _ => .null) = .ok node.content := by
    simp [Node.valueFrom, Node.valueBy, constant]
  exact .plain found (by simp [noReads]) computed

theorem read_eq_ok {node : Node} {value : Value} (denotes : Denotes meaning graph scope id value)
    (found : graph.find? id = some node) (external : node.kind = .external) :
    scope.read meaning node.content.plain = .ok value := by
  cases denotes with
  | plain found' _ computed =>
      cases found.symm.trans found'
      simpa [Node.valueFrom, Node.valueBy, external] using computed
  | loop found' runs =>
      cases found.symm.trans found'
      simp [(Node.loop?_eq_some.mp runs).1] at external

theorem values_of_plain {node : Node} {value : Value}
    (denotes : Denotes meaning graph scope id value)
    (found : graph.find? id = some node) (noLoop : node.loop? = none) :
    ∃ values : NodeId → Value,
      (∀ read ∈ node.reads, Denotes meaning graph scope read (values read)) ∧
      node.valueFrom meaning scope values = .ok value := by
  cases denotes with
  | @plain _ _ _ _ _ values found' reads computed =>
      cases found.symm.trans found'
      exact ⟨values, reads, computed⟩
  | loop found' runs =>
      cases found.symm.trans found'
      cases noLoop.symm.trans runs

end Denotes

/-- Induction over the denotations of one graph in one scope.  A derivation also
covers the bodies of loops; here they are only known to be defined. -/
theorem Denotes.levelInduction {meaning : Interpretation} {graph : Graph} {scope : Scope}
    {motive : NodeId → Value → Prop}
    (plain : ∀ id node values value, graph.find? id = some node →
      (∀ read ∈ node.reads, Denotes meaning graph scope read (values read)) →
      (∀ read ∈ node.reads, motive read (values read)) →
      node.valueFrom meaning scope values = .ok value → motive id value)
    (loop : ∀ id node loop values, graph.find? id = some node → node.loop? = some loop →
      (∀ binding ∈ loop.bindings, Denotes meaning graph scope binding.2 (values binding.2)) →
      (∀ binding ∈ loop.bindings, motive binding.2 (values binding.2)) →
      (∀ binding ∈ loop.bindings, binding.1 ∈ loop.body.ids) →
      loop.body.Defined meaning (boundScope loop.body values scope loop.bindings) →
      motive id .null)
    {id : NodeId} {value : Value} (denotes : Denotes meaning graph scope id value) :
    motive id value := by
  -- Inside a loop the graph and the scope are others, so both are generalized; the
  -- hypotheses about bodies are not used.
  generalize atGraph : graph = start at denotes
  generalize atScope : scope = first at denotes
  induction denotes with
  | @plain _ _ id node value values found reads computed induction =>
      subst atGraph atScope
      exact plain id node values value found reads
        (fun read isRead => induction read isRead rfl rfl) computed
  | @loop _ _ id node held values results found runs sources keys inside sourcesInduction _ =>
      subst atGraph atScope
      exact loop id node held values found runs sources
        (fun binding member => sourcesInduction binding member rfl rfl) keys
        fun inner present => ⟨results inner, inside inner present⟩

namespace Enters

variable {meaning : Interpretation} {graph : Graph} {scope : Scope} {path : List NodeId}
  {body other : Graph} {inner outer : Scope}

theorem within? (enters : Enters meaning graph scope path body inner) :
    graph.within? path = some body := by
  induction enters with
  | here => rfl
  | inside found runs _ _ induction =>
      exact Graph.within?_cons.mpr ⟨_, _, found, runs, induction⟩

theorem unique (first : Enters meaning graph scope path body inner)
    (second : Enters meaning graph scope path other outer) : body = other ∧ inner = outer := by
  induction first with
  | here =>
      cases second
      exact ⟨rfl, rfl⟩
  | @inside graph scope id node loop values path body inner found runs sources deeper induction =>
      cases second with
      | @inside _ _ _ _ _ others _ _ _ found' runs' sources' deeper' =>
          cases found.symm.trans found'
          cases runs.symm.trans runs'
          have sameScope : boundScope loop.body others scope loop.bindings =
              boundScope loop.body values scope loop.bindings :=
            boundScope_eq_of_values fun binding member =>
              (sources' binding member).deterministic (sources binding member)
          exact induction (sameScope ▸ deeper')

end Enters

theorem Graph.Defined.body {meaning : Interpretation} {graph : Graph} {scope : Scope}
    {id : NodeId} {node : Node} {loop : Loop} {values : NodeId → Value}
    (defined : graph.Defined meaning scope) (found : graph.find? id = some node)
    (runs : node.loop? = some loop)
    (sources : ∀ binding ∈ loop.bindings,
      Denotes meaning graph scope binding.2 (values binding.2)) :
    loop.body.Defined meaning (boundScope loop.body values scope loop.bindings) := by
  obtain ⟨value, denotes⟩ := defined id (Graph.mem_ids_of_find? found)
  obtain ⟨others, otherSources, _, bodyDefined, _⟩ := denotes.defined_body found runs
  have sameScope : boundScope loop.body others scope loop.bindings =
      boundScope loop.body values scope loop.bindings :=
    boundScope_eq_of_values fun binding member =>
      (otherSources binding member).deterministic (sources binding member)
  exact sameScope ▸ bodyDefined

/-- A defined graph is defined at every depth. -/
theorem Graph.Defined.exists_enters {meaning : Interpretation} {graph body : Graph}
    {scope : Scope} {path : List NodeId} (defined : graph.Defined meaning scope)
    (reached : graph.within? path = some body) :
    ∃ inner, Enters meaning graph scope path body inner ∧ body.Defined meaning inner := by
  induction path generalizing graph scope with
  | nil =>
      cases reached
      exact ⟨scope, .here, defined⟩
  | cons id path induction =>
      obtain ⟨node, loop, found, runs, deeper⟩ := Graph.within?_cons.mp reached
      obtain ⟨value, denotes⟩ := defined id (Graph.mem_ids_of_find? found)
      obtain ⟨values, sources, _, bodyDefined, _⟩ := denotes.defined_body found runs
      obtain ⟨inner, enters, innerDefined⟩ := induction bodyDefined deeper
      exact ⟨inner, .inside found runs sources enters, innerDefined⟩

/-- The body at the end of a path and its scope, computed from denotations. -/
def Graph.enter (meaning : Interpretation) (graph : Graph) (scope : Scope) :
    List NodeId → Except Fault (Graph × Scope)
  | [] => .ok (graph, scope)
  | id :: path =>
      match (graph.find? id).bind Node.loop? with
      | none => .error (.missingNode id)
      | some loop => do
          let inner ← scopeBy (graph.denote meaning scope) loop.body scope loop.bindings
          loop.body.enter meaning inner path

theorem Enters.enter {meaning : Interpretation} {graph body : Graph} {scope inner : Scope}
    {path : List NodeId} (enters : Enters meaning graph scope path body inner)
    (evaluable : graph.Everywhere Graph.Evaluable) :
    graph.enter meaning scope path = .ok (body, inner) := by
  induction enters with
  | here => rfl
  | @inside graph scope id node loop values path body inner found runs sources deeper induction =>
      have acyclic := evaluable.mono fun _ inBody => inBody.acyclic
      have bound : scopeBy (graph.denote meaning scope) loop.body scope loop.bindings =
          .ok (boundScope loop.body values scope loop.bindings) :=
        scopeBy_eq_boundScope
          (fun binding member => (Graph.denote_eq_ok acyclic).mpr (sources binding member))
          (evaluable.here.keys node (Graph.mem_of_find? found).1 loop runs)
      have target : (graph.find? id).bind Node.loop? = some loop := by simp [found, runs]
      simp only [Graph.enter, target]
      exact bind_eq_ok.mpr ⟨_, bound, induction (evaluable.body found runs)⟩

end FlowGraph

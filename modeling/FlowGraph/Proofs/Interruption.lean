import FlowGraph.Proofs.Counters

/-!
# Rewrites that fail half-way

Splitting, merging and optimising a graph can fail after they changed something, and
then the changes stay.  Splitting leaves a valid graph as it was exactly when it comes
to a fault before the first call that it splits, merging exactly when nothing named
the removed node where it was redirected, and optimising exactly when none of the
stages before the fault had anything to do.
-/

namespace FlowGraph

/-- What splitting can come to. -/
inductive Event where
  | split
  | fault
deriving DecidableEq

/-- What a scan comes to at a node. -/
def Node.event? (node : Node) : Option Event :=
  if node.isUnhashable then some .fault
  else if node.isWide then some .split
  else none

mutual

/-- What splitting comes to first: in the nodes of the graph, then in the bodies of
its loops. -/
def Graph.firstEvent? : Graph → Option Event
  | ⟨nodes, _, _⟩ => (nodes.findSome? Node.event?).or (firstEventInside? nodes)

/-- What splitting comes to first in the bodies of some nodes. -/
def firstEventInside? : List Node → Option Event
  | [] => none
  | ⟨_, .loop, .loop ⟨_, _, body, _⟩, _, _⟩ :: rest => body.firstEvent?.or (firstEventInside? rest)
  | ⟨_, .loop, _, _, _⟩ :: _ => some .fault
  | _ :: rest => firstEventInside? rest

end

theorem firstEventInside?_loop {node : Node} {loop : Loop} (runs : node.loop? = some loop)
    (rest : List Node) :
    firstEventInside? (node :: rest) = loop.body.firstEvent?.or (firstEventInside? rest) := by
  obtain ⟨kind, content⟩ := Node.loop?_eq_some.mp runs
  obtain ⟨id, _, _, inputs, result⟩ := node
  obtain ⟨tag, index, body, bindings⟩ := loop
  cases kind
  cases content
  rw [firstEventInside?]

theorem firstEventInside?_bodyless {node : Node} (kind : node.kind = .loop)
    (noLoop : node.loop? = none) (rest : List Node) :
    firstEventInside? (node :: rest) = some .fault := by
  obtain ⟨id, _, content, inputs, result⟩ := node
  cases kind
  rw [firstEventInside?]
  rintro _ _ _ _ ⟨⟩
  cases noLoop

theorem firstEventInside?_plain {node : Node} (noLoop : node.kind ≠ .loop) (rest : List Node) :
    firstEventInside? (node :: rest) = firstEventInside? rest := by
  obtain ⟨id, kind, content, inputs, result⟩ := node
  rw [firstEventInside?]
  · rintro _ _ _ _ _ _ _ ⟨⟩
    exact noLoop rfl
  · rintro _ _ _ _ ⟨⟩
    exact noLoop rfl

theorem Graph.firstEvent?_eq (graph : Graph) :
    graph.firstEvent? = (graph.nodes.findSome? Node.event?).or (firstEventInside? graph.nodes) := by
  obtain ⟨nodes, exits, nextId⟩ := graph
  rw [firstEvent?]

theorem depthOfNodes_cons (node : Node) (rest : List Node) :
    depthOfNodes rest ≤ depthOfNodes (node :: rest) ∧
      ∀ loop, node.content = .loop loop → loop.body.depth < depthOfNodes (node :: rest) := by
  obtain ⟨id, kind, content, inputs, result⟩ := node
  cases content
  case loop loop =>
    obtain ⟨tag, index, body, bindings⟩ := loop
    rw [depthOfNodes]
    refine ⟨by omega, ?_⟩
    rintro _ ⟨⟩
    dsimp only
    omega
  all_goals
    simp [depthOfNodes]

theorem Graph.depth_body_lt {graph : Graph} {node : Node} {loop : Loop}
    (member : node ∈ graph.nodes) (runs : node.loop? = some loop) :
    loop.body.depth < graph.depth := by
  have content := (Node.loop?_eq_some.mp runs).2
  obtain ⟨nodes, exits, nextId⟩ := graph
  rw [depth]
  have below : ∀ nodes : List Node, node ∈ nodes → loop.body.depth < depthOfNodes nodes := by
    intro nodes inside
    induction nodes with
    | nil => cases inside
    | cons first rest induction =>
        obtain ⟨restBelow, firstBelow⟩ := depthOfNodes_cons first rest
        rcases List.mem_cons.mp inside with rfl | later
        · exact firstBelow loop content
        · exact Nat.lt_of_lt_of_le (induction later) restBelow
  exact below nodes member

/-- The outcome of splitting a graph, by what it comes to first. -/
inductive Graph.Meets (graph : Graph) (outcome : Outcome Nat) : Option Event → Prop where
  | passes (done : outcome = ⟨graph, .ok 0⟩) : Meets graph outcome none
  | fails {fault : Fault} (failed : outcome = ⟨graph, .error fault⟩) :
      Meets graph outcome (some .fault)
  | splits {count : Nat} (advances : graph.Advances outcome.graph count) (moved : count ≠ 0) :
      Meets graph outcome (some .split)

/-- The outcome of splitting the bodies of some nodes, by what it comes to first. -/
inductive BodiesMeet (nodes : List Node) (outcome : List Node × Except Fault Nat) :
    Option Event → Prop where
  | passes (done : outcome = (nodes, .ok 0)) : BodiesMeet nodes outcome none
  | fails {fault : Fault} (failed : outcome = (nodes, .error fault)) :
      BodiesMeet nodes outcome (some .fault)
  | splits {count : Nat} (advance : BodiesAdvance nodes outcome.1 count) (moved : count ≠ 0) :
      BodiesMeet nodes outcome (some .split)

section Splitting

variable {graph : Graph}

theorem meets_splitScan {nodes : List Node} (tidy : graph.Everywhere Graph.Tidy)
    (linked : ∀ node ∈ nodes, node.inputs ⊆ graph.ids) :
    graph.Meets (splitScan graph nodes) (nodes.findSome? Node.event?) := by
  induction nodes with
  | nil => exact .passes rfl
  | cons node rest induction =>
      have remaining := induction fun other later => linked other (List.mem_cons_of_mem _ later)
      cases splitScan_step graph node rest with
      | skips narrow hashable goesOn =>
          have event : node.event? = none := by simp [Node.event?, narrow, hashable]
          rw [goesOn, List.findSome?_cons, event]
          exact remaining
      | stops unhashable ends =>
          have event : node.event? = some .fault := by simp [Node.event?, unhashable]
          rw [ends, List.findSome?_cons, event]
          exact .fails rfl
      | dangles wide absent => exact absurd (linked node List.mem_cons_self) absent
      | splits wide hashable _ _ _ _ goesOn =>
          have event : node.event? = some .split := by simp [Node.event?, wide, hashable]
          rw [goesOn, List.findSome?_cons, event]
          have split := @Graph.advances_splitCall graph node tidy
          obtain ⟨count, later⟩ := Graph.exists_advances_splitScan (split _ _).tidy
          exact .splits ((split _ _).trans later) (by omega)

theorem meets_splitLevel (tidy : graph.Everywhere Graph.Tidy)
    (linked : ∀ node ∈ graph.nodes, node.inputs ⊆ graph.ids) :
    graph.Meets (splitLevel graph) (graph.nodes.findSome? Node.event?) := by
  have first := meets_splitScan tidy linked
  unfold splitLevel
  generalize graph.nodes.findSome? Node.event? = event at first
  cases first with
  | passes done =>
      simp only [splitRounds, done]
      exact .passes rfl
  | fails failed =>
      simp only [splitRounds, failed]
      exact .fails rfl
  | @splits count advances moved =>
      cases answer : (splitScan graph graph.nodes).answer with
      | error fault =>
          apply Graph.Meets.splits _ moved
          simpa only [splitRounds, answer] using advances
      | ok splits =>
          cases splits with
          | zero =>
              apply Graph.Meets.splits _ moved
              simpa only [splitRounds, answer] using advances
          | succ splits =>
              obtain ⟨more, later⟩ := @Graph.exists_advances_splitRounds
                (splitScan graph graph.nodes).graph (widestInputs graph.nodes) advances.tidy
              have rounds := advances.trans later
              have result : (splitRounds (widestInputs graph.nodes + 1) graph).graph =
                  (splitRounds (widestInputs graph.nodes)
                    (splitScan graph graph.nodes).graph).graph := by
                simp only [splitRounds, answer]
                rfl
              rw [← result] at rounds
              exact .splits rounds (by omega)

/-- What splitting comes to behind a node whose body it leaves alone. -/
theorem BodiesMeet.cons_same {node : Node} {rest : List Node}
    {outcome : List Node × Except Fault Nat} {event : Option Event}
    (tidy : ∀ loop, node.loop? = some loop → loop.body.Everywhere Graph.Tidy)
    (remaining : BodiesMeet rest outcome event) :
    BodiesMeet (node :: rest) (node :: outcome.1, outcome.2) event := by
  cases remaining with
  | passes done =>
      apply BodiesMeet.passes
      rw [done]
  | fails failed =>
      rw [failed]
      exact .fails rfl
  | splits advance moved => exact .splits (advance.cons_same tidy) moved

theorem bodiesMeet_visitBodies {visit : Graph → Outcome Nat} {nodes : List Node}
    (tidy : ∀ node ∈ nodes, ∀ loop, node.loop? = some loop → loop.body.Everywhere Graph.Tidy)
    (advancing : ∀ body : Graph, body.Everywhere Graph.Tidy →
      ∃ count, body.Advances (visit body).graph count)
    (meets : ∀ node ∈ nodes, ∀ loop, node.loop? = some loop →
      loop.body.Meets (visit loop.body) loop.body.firstEvent?) :
    BodiesMeet nodes (visitBodies visit nodes) (firstEventInside? nodes) := by
  induction nodes with
  | nil => exact .passes rfl
  | cons node rest induction =>
      have tidyRest := fun other later => tidy other (List.mem_cons_of_mem _ later)
      have remaining := induction tidyRest
        fun other later => meets other (List.mem_cons_of_mem _ later)
      have behind := remaining.cons_same (tidy node List.mem_cons_self)
      cases runs : node.loop? with
      | none =>
          by_cases kind : node.kind = .loop
          · rw [firstEventInside?_bodyless kind runs]
            exact .fails (visitBodies_bodyless kind runs rest)
          · rw [firstEventInside?_plain kind, visitBodies_plain kind]
            exact behind
      | some loop =>
          have here := meets node List.mem_cons_self loop runs
          rw [firstEventInside?_loop runs]
          generalize loop.body.firstEvent? = event at here
          cases here with
          | passes done =>
              have same : (visit loop.body).graph = loop.body := by rw [done]
              have noMore : (visitBodies visit rest).2.map (0 + ·) = (visitBodies visit rest).2 := by
                cases (visitBodies visit rest).2 <;> simp [Except.map]
              rw [visitBodies_goes_on runs (by rw [done]), Node.restored runs same, noMore,
                Option.none_or]
              exact behind
          | fails failed =>
              have same : (visit loop.body).graph = loop.body := by rw [failed]
              rw [visitBodies_stops runs (by rw [failed]), Node.restored runs same]
              exact .fails rfl
          | splits advances moved =>
              obtain ⟨more, advance⟩ := visitBodies_advance tidyRest advancing
              cases answer : (visit loop.body).answer with
              | error fault =>
                  rw [visitBodies_stops runs answer]
                  exact .splits (.loop runs advances (.refl tidyRest)) (by omega)
              | ok splits =>
                  rw [visitBodies_goes_on runs answer]
                  exact .splits (.loop runs advances advance) (by omega)

theorem meets_splitWith {visit : Graph → Outcome Nat} (tidy : graph.Everywhere Graph.Tidy)
    (linked : ∀ node ∈ graph.nodes, node.inputs ⊆ graph.ids)
    (advancing : ∀ body : Graph, body.Everywhere Graph.Tidy →
      ∃ count, body.Advances (visit body).graph count)
    (meets : ∀ node ∈ graph.nodes, ∀ loop, node.loop? = some loop →
      loop.body.Meets (visit loop.body) loop.body.firstEvent?) :
    graph.Meets (splitWith visit graph) graph.firstEvent? := by
  have level := meets_splitLevel tidy linked
  have bodies := bodiesMeet_visitBodies (tidy.bodies tidy.here.distinct) advancing meets
  rw [Graph.firstEvent?_eq]
  generalize graph.nodes.findSome? Node.event? = event at level
  generalize firstEventInside? graph.nodes = inner at bodies
  cases level with
  | passes done =>
      simp only [splitWith, sweep, done, Option.none_or]
      cases bodies with
      | passes bodiesDone =>
          rw [bodiesDone, Graph.restored rfl]
          exact .passes rfl
      | fails bodiesFailed =>
          rw [bodiesFailed, Graph.restored rfl]
          exact .fails rfl
      | splits advance moved => exact .splits (advance.advances tidy) moved
  | fails failed =>
      simp only [splitWith, sweep, failed]
      exact .fails rfl
  | splits advances moved =>
      cases answer : (splitLevel graph).answer with
      | error fault =>
          simp only [splitWith, sweep, answer]
          exact .splits advances moved
      | ok splits =>
          simp only [splitWith, sweep, answer]
          obtain ⟨more, advance⟩ :=
            visitBodies_advance (advances.tidy.bodies advances.tidy.here.distinct) advancing
          exact .splits (advances.trans (advance.advances advances.tidy)) (by omega)

theorem meets_splitNested {depth : Nat} (enough : graph.depth ≤ depth)
    (valid : graph.validate = .ok ()) (tidy : graph.Everywhere Graph.Tidy) :
    graph.Meets (splitNested depth graph) graph.firstEvent? := by
  have accepted := (Graph.validate_eq_ok.mp valid).1
  have linked : ∀ node ∈ graph.nodes, node.inputs ⊆ graph.ids :=
    fun node member => (accepted node member).inputs
  induction depth generalizing graph with
  | zero =>
      apply meets_splitWith tidy linked
      · exact fun body bodyTidy => ⟨0, .refl bodyTidy⟩
      · intro node member loop runs
        have below := Graph.depth_body_lt member runs
        omega
  | succ depth induction =>
      apply meets_splitWith tidy linked
      · exact fun body => Graph.exists_advances_splitNested
      · intro node member loop runs
        have below := Graph.depth_body_lt member runs
        have content := (Node.loop?_eq_some.mp runs).2
        have bodyValid := (accepted node member).bodies loop content
        have bodyAccepted := (Graph.validate_eq_ok.mp bodyValid).1
        exact induction (by omega) bodyValid (tidy.bodies tidy.here.distinct node member loop runs)
          bodyAccepted fun node member => (bodyAccepted node member).inputs

end Splitting

/-- Whether a node has a loop, if it is a loop node. -/
def Node.isCarried (node : Node) : Bool :=
  !node.isLoop || node.loop?.isSome

/-- Nothing that merging redirects before it fails names the removed node. -/
structure Graph.Unnamed (graph : Graph) (remove : NodeId) : Prop where
  inputs : ∀ node ∈ graph.nodes, node.id ≠ remove → remove ∉ node.inputs
  exits : ∀ exit ∈ graph.exits, exit.2 ≠ remove
  bindings : ∀ node ∈ graph.nodes.takeWhile Node.isCarried, ∀ loop, node.loop? = some loop →
    ∀ binding ∈ loop.bindings, binding.2 ≠ remove

section Merging

variable {keep remove : NodeId} (different : keep ≠ remove)
include different

theorem redirect_eq_iff {id : NodeId} : redirect keep remove id = id ↔ id ≠ remove := by
  constructor
  · rintro same rfl
    exact different ((redirect_self keep id).symm.trans same)
  · exact redirect_of_ne

theorem map_redirect_eq_iff {α : Type} (pairs : List (α × NodeId)) :
    (pairs.map fun pair => (pair.1, redirect keep remove pair.2)) = pairs ↔
      ∀ pair ∈ pairs, pair.2 ≠ remove := by
  conv_lhs => rhs; rw [← List.map_id pairs]
  rw [List.map_inj_left]
  simp [Prod.ext_iff, redirect_eq_iff different]

theorem Node.redirectInputs_eq_iff (node : Node) :
    (node.redirectInputs keep remove).inputs = node.inputs ↔
      (node.id ≠ remove → remove ∉ node.inputs) := by
  unfold redirectInputs
  split
  · rename_i removed
    simp [removed]
  · rename_i stays
    conv_lhs => rhs; rw [← List.map_id node.inputs]
    rw [List.map_inj_left]
    simp only [id_eq, redirect_eq_iff different]
    constructor
    · intro every _ member
      exact every remove member rfl
    · intro absent id member same
      exact absent stays (same ▸ member)

theorem Loop.redirectBindings_eq_iff (loop : Loop) :
    loop.redirectBindings keep remove = loop ↔ ∀ binding ∈ loop.bindings, binding.2 ≠ remove := by
  rw [← map_redirect_eq_iff different]
  obtain ⟨tag, index, body, bindings⟩ := loop
  constructor
  · intro same
    injection same
  · intro same
    exact congrArg (Loop.mk tag index body) same

omit different in
theorem Node.redirectInputs_eq (node : Node) :
    node.redirectInputs keep remove =
      { node with inputs := (node.redirectInputs keep remove).inputs } := by
  unfold redirectInputs
  split
  · cases node
    rfl
  · rfl

theorem map_redirectInputs_eq_iff (nodes : List Node) :
    nodes.map (Node.redirectInputs keep remove) = nodes ↔
      ∀ node ∈ nodes, node.id ≠ remove → remove ∉ node.inputs := by
  conv_lhs => rhs; rw [← List.map_id nodes]
  rw [List.map_inj_left]
  refine forall₂_congr fun node _ => ?_
  rw [← node.redirectInputs_eq_iff different, node.redirectInputs_eq]
  cases node
  simp

/-- Redirecting the inputs and the bindings of a node changes it where they name the
removed node. -/
theorem Node.redirected_eq_iff (node : Node) :
    (node.redirectInputs keep remove).redirectLoop keep remove = node ↔
      (node.id ≠ remove → remove ∉ node.inputs) ∧
      ∀ loop, node.loop? = some loop → ∀ binding ∈ loop.bindings, binding.2 ≠ remove := by
  rw [← node.redirectInputs_eq_iff different]
  have sameLoop : (node.redirectInputs keep remove).loop? = node.loop? := by
    unfold redirectInputs
    split <;> rfl
  unfold redirectLoop
  rw [sameLoop]
  cases runs : node.loop? with
  | none =>
      rw [node.redirectInputs_eq]
      cases node
      simp
  | some loop =>
      simp only [Option.some.injEq, forall_eq', ← loop.redirectBindings_eq_iff different]
      have content := (Node.loop?_eq_some.mp runs).2
      rw [node.redirectInputs_eq]
      cases node
      cases content
      simp [and_comm]

end Merging

theorem redirectLoops_carried {keep remove : NodeId} {node : Node}
    (carried : node.isCarried = true) (rest : List Node) :
    redirectLoops keep remove (node :: rest) =
      (node.redirectLoop keep remove :: (redirectLoops keep remove rest).1,
        (redirectLoops keep remove rest).2) := by
  unfold Node.redirectLoop
  cases runs : node.loop? with
  | some loop =>
      obtain ⟨kind, content⟩ := Node.loop?_eq_some.mp runs
      have isLoop : node.isLoop = true := by simp [Node.isLoop, kind]
      simp only [redirectLoops, isLoop, if_true, content]
  | none =>
      have isLoop : node.isLoop = false := by simpa [Node.isCarried, runs] using carried
      simp only [redirectLoops, isLoop, Bool.false_eq_true, if_false]

theorem redirectLoops_bodyless {keep remove : NodeId} {node : Node}
    (bodyless : node.isCarried = false) (rest : List Node) :
    redirectLoops keep remove (node :: rest) = (node :: rest, .error .missingField) := by
  have isLoop : node.isLoop = true := by
    simp only [Node.isCarried, Bool.or_eq_false_iff, Bool.not_eq_false'] at bodyless
    exact bodyless.1
  have noLoop : node.loop? = none := by
    simpa [Node.isCarried, isLoop] using bodyless
  have kind : node.kind = .loop := by simpa [Node.isLoop] using isLoop
  cases content : node.content
  case loop loop => cases (Node.loop?_eq_some.mpr ⟨kind, content⟩).symm.trans noLoop
  all_goals simp only [redirectLoops, isLoop, if_true, content]

/-- Redirection that stops at a loop node without a loop changes the nodes unless
none of them names the removed node. -/
theorem redirectLoops_unchanged_iff {keep remove : NodeId} (different : keep ≠ remove)
    {nodes : List Node} {fault : Fault}
    (failed : (redirectLoops keep remove
      (nodes.map (Node.redirectInputs keep remove))).2 = .error fault) :
    fault = .missingField ∧
      ((redirectLoops keep remove (nodes.map (Node.redirectInputs keep remove))).1 = nodes ↔
        (∀ node ∈ nodes, node.id ≠ remove → remove ∉ node.inputs) ∧
        ∀ node ∈ nodes.takeWhile Node.isCarried, ∀ loop, node.loop? = some loop →
          ∀ binding ∈ loop.bindings, binding.2 ≠ remove) := by
  induction nodes with
  | nil => cases failed
  | cons node rest induction =>
      have sameCarried : (node.redirectInputs keep remove).isCarried = node.isCarried := by
        unfold Node.redirectInputs
        split <;> rfl
      rw [List.map_cons] at failed ⊢
      cases carried : node.isCarried with
      | true =>
          rw [redirectLoops_carried (sameCarried.trans carried)] at failed ⊢
          obtain ⟨stops, remaining⟩ := induction failed
          refine ⟨stops, ?_⟩
          rw [List.cons_eq_cons, remaining, node.redirected_eq_iff different,
            List.takeWhile_cons_of_pos carried, List.forall_mem_cons, List.forall_mem_cons]
          tauto
      | false =>
          rw [redirectLoops_bodyless (sameCarried.trans carried)] at failed ⊢
          cases failed
          refine ⟨rfl, ?_⟩
          rw [← List.map_cons, map_redirectInputs_eq_iff different,
            List.takeWhile_cons_of_neg (by simp [carried])]
          simp

namespace Graph

variable {graph : Graph} {keep remove : NodeId} {fault : Fault}

theorem replaceNode_unchanged_iff (different : keep ≠ remove)
    (failed : (graph.replaceNode keep remove).answer = .error fault) :
    fault = .missingField ∧
      ((graph.replaceNode keep remove).graph = graph ↔ graph.Unnamed remove) := by
  cases answer : (redirectLoops keep remove
      (graph.nodes.map (Node.redirectInputs keep remove))).2 with
  | ok _ =>
      simp only [replaceNode, answer] at failed
      cases failed
  | error stopped =>
      simp only [replaceNode, answer] at failed ⊢
      cases failed
      obtain ⟨stops, nodesSame⟩ := redirectLoops_unchanged_iff different answer
      refine ⟨stops, ?_⟩
      have exitsSame := map_redirect_eq_iff different graph.exits
      constructor
      · intro same
        obtain ⟨inputs, bindings⟩ := nodesSame.mp (congrArg Graph.nodes same)
        exact ⟨inputs, exitsSame.mp (congrArg Graph.exits same), bindings⟩
      · intro unnamed
        have nodes := nodesSame.mpr ⟨unnamed.inputs, unnamed.bindings⟩
        have exits := exitsSame.mpr unnamed.exits
        rw [nodes]
        obtain ⟨_, _, nextId⟩ := graph
        exact congrArg (fun found => Graph.mk _ found nextId) exits

/-- Merging checks its nodes before it changes anything. -/
theorem fuse_cases (graph : Graph) (keep remove : NodeId) :
    (∃ fault, fault ≠ .missingField ∧ graph.fuse keep remove = ⟨graph, .error fault⟩) ∨
      keep ≠ remove ∧ graph.fuse keep remove = graph.replaceNode keep remove := by
  unfold fuse
  by_cases same : keep = remove
  · exact .inl ⟨.selfFusion keep, by simp, if_pos same⟩
  rw [if_neg same]
  cases found : graph.find? remove with
  | none => exact .inl ⟨.missingNode remove, by simp, by simp only [node, found]⟩
  | some removed =>
      simp only [node, found]
      cases search : graph.ancestors [keep] with
      | error fault =>
          obtain ⟨id, _, _, rfl⟩ := exists_missing search
          exact .inl ⟨.missingNode id, by simp, rfl⟩
      | ok ancestors =>
          by_cases depends : remove ∈ ancestors
          · exact .inl ⟨.cyclicFusion keep remove, by simp, if_pos depends⟩
          · exact .inr ⟨same, if_neg depends⟩

theorem fuse_unchanged_iff (failed : (graph.fuse keep remove).answer = .error fault) :
    (graph.fuse keep remove).graph = graph ↔ fault ≠ .missingField ∨ graph.Unnamed remove := by
  rcases graph.fuse_cases keep remove with ⟨other, named, refused⟩ | ⟨different, replaces⟩
  · rw [refused] at failed ⊢
    cases failed
    simp [named]
  · rw [replaces] at failed ⊢
    obtain ⟨rfl, unchanged⟩ := replaceNode_unchanged_iff different failed
    simp [unchanged]

/-- Optimisation does nothing before it fails: splitting comes to a fault first, or it
splits nothing, and folding and pruning, as far as they succeed, drop nothing. -/
def Untouched (meaning : Interpretation) (policy : FoldPolicy) (graph : Graph) : Prop :=
  graph.firstEvent? = some .fault ∨
    graph.firstEvent? = none ∧
      ∀ folds, (graph.foldConstants meaning policy).answer = .ok folds → folds = 0 ∧
        ∀ drops, graph.prune.answer = .ok drops → drops = 0

section Optimising

variable {meaning : Interpretation} {policy : FoldPolicy}

/-- The stages of optimisation after splitting. -/
def settle (meaning : Interpretation) (policy : FoldPolicy) (graph : Graph) : Outcome Unit :=
  ((graph.foldConstants meaning policy).andThen prune).andThen schedule

/-- The graph that is left when a stage after splitting failed. -/
inductive Stopped (meaning : Interpretation) (policy : FoldPolicy) (graph : Graph) :
    Graph → Prop where
  | folding {fault : Fault} (failed : (graph.foldConstants meaning policy).answer = .error fault) :
      Stopped meaning policy graph graph
  | pruning {folded : Graph} {count : Nat} {fault : Fault}
      (done : (graph.foldConstants meaning policy).answer = .ok count)
      (advances : graph.Advances folded count) (failed : folded.prune.answer = .error fault) :
      Stopped meaning policy graph folded
  | scheduling {folded pruned : Graph} {count dropped : Nat}
      (done : (graph.foldConstants meaning policy).answer = .ok count)
      (advances : graph.Advances folded count)
      (prunes : folded.prune = ⟨pruned, .ok dropped⟩)
      (drops : folded.pruned = .ok (pruned, dropped)) :
      Stopped meaning policy graph pruned

theorem stopped_of_settle (tidy : graph.Everywhere Tidy)
    (failed : (graph.settle meaning policy).answer = .error fault) :
    graph.Stopped meaning policy (graph.settle meaning policy).graph := by
  unfold settle at failed ⊢
  cases folding : foldNested meaning policy graph.depth graph with
  | error stopped =>
      have unfolded : graph.foldConstants meaning policy = ⟨graph, .error stopped⟩ := by
        simp only [foldConstants_eq, folding]
      simp only [unfolded, Outcome.andThen]
      exact .folding (by rw [unfolded])
  | ok result =>
      obtain ⟨folded, count⟩ := result
      have advances := advances_foldNested tidy folding
      have folds : graph.foldConstants meaning policy = ⟨folded, .ok count⟩ := by
        simp only [foldConstants_eq, folding]
      cases pruning : folded.pruned with
      | error stopped =>
          have unpruned : folded.prune = ⟨folded, .error stopped⟩ := by
            simp only [prune_eq, pruning]
          simp only [folds, Outcome.andThen, unpruned]
          exact .pruning (by rw [folds]) advances (by rw [unpruned])
      | ok result =>
          obtain ⟨pruned, dropped⟩ := result
          have prunes : folded.prune = ⟨pruned, .ok dropped⟩ := by
            simp only [prune_eq, pruning]
          cases scheduling : pruned.scheduled with
          | error stopped =>
              simp only [folds, Outcome.andThen, prunes, schedule_eq, scheduling]
              exact .scheduling (by rw [folds]) advances prunes pruning
          | ok scheduled =>
              simp only [folds, Outcome.andThen, prunes, schedule_eq, scheduling] at failed
              cases failed

theorem Stopped.exists_advances {other : Graph} (tidy : graph.Everywhere Tidy)
    (stopped : graph.Stopped meaning policy other) :
    ∃ middle count, graph.Advances middle count ∧ other.counters.Sublist middle.counters := by
  cases stopped with
  | folding => exact ⟨graph, 0, .refl tidy, .refl _⟩
  | pruning _ advances => exact ⟨_, _, advances, .refl _⟩
  | scheduling _ advances _ drops => exact ⟨_, _, advances, counters_pruned drops⟩

theorem Stopped.unchanged_iff {other : Graph} (valid : graph.validate = .ok ())
    (stopped : graph.Stopped meaning policy other) :
    other = graph ↔
      ∀ folds, (graph.foldConstants meaning policy).answer = .ok folds → folds = 0 ∧
        ∀ drops, graph.prune.answer = .ok drops → drops = 0 := by
  cases stopped with
  | folding failed => simp [failed]
  | @pruning folded count fault done advances failed =>
      constructor
      · rintro rfl folds again
        cases done.symm.trans again
        refine ⟨advances.eq_zero (.refl _), ?_⟩
        intro drops succeeded
        cases failed.symm.trans succeeded
      · intro idle
        exact advances.idle (idle count done).1
  | @scheduling folded pruned count dropped done advances prunes drops =>
      constructor
      · rintro rfl folds again
        cases done.symm.trans again
        have unfolded := advances.eq_zero (counters_pruned drops)
        refine ⟨unfolded, ?_⟩
        cases advances.idle unfolded
        intro again succeeded
        rw [prunes] at succeeded
        cases succeeded
        exact (pruned_unchanged_iff valid drops).mp rfl
      · intro idle
        obtain ⟨unfolded, nothing⟩ := idle count done
        cases advances.idle unfolded
        exact (pruned_unchanged_iff valid drops).mpr (nothing dropped (by rw [prunes]))

theorem optimize_unchanged_iff (valid : graph.validate = .ok ()) (tidy : graph.Everywhere Tidy)
    (failed : (graph.optimize meaning policy).answer = .error fault) :
    (graph.optimize meaning policy).graph = graph ↔ graph.Untouched meaning policy := by
  have meets : graph.Meets graph.split graph.firstEvent? :=
    meets_splitNested (Nat.le_refl _) valid tidy
  have unsplit : ∀ stopped, graph.split.answer = .error stopped →
      (graph.optimize meaning policy).graph = graph.split.graph := by
    intro stopped refused
    simp only [optimize, simplify, Outcome.andThen, refused]
  have goesOn : ∀ splits, graph.split.answer = .ok splits →
      graph.optimize meaning policy = graph.split.graph.settle meaning policy := by
    intro splits done
    simp only [optimize, simplify, Outcome.andThen, done, settle]
  unfold Untouched
  generalize graph.firstEvent? = event at meets
  cases meets with
  | passes done =>
      have settles := goesOn 0 (by rw [done])
      rw [done] at settles
      rw [settles] at failed ⊢
      rw [(stopped_of_settle tidy failed).unchanged_iff valid]
      simp
  | @fails stopped refused =>
      rw [unsplit stopped (by rw [refused]), refused]
      simp
  | @splits count advances moved =>
      simp only [reduceCtorEq, Option.some.injEq, false_and, or_false, iff_false]
      intro same
      apply moved
      cases answer : graph.split.answer with
      | error stopped =>
          rw [unsplit stopped answer] at same
          apply advances.eq_zero
          rw [same]
      | ok splits =>
          rw [goesOn splits answer] at failed same
          have stopped := stopped_of_settle advances.tidy failed
          obtain ⟨middle, more, later, among⟩ := stopped.exists_advances advances.tidy
          have none := (advances.trans later).eq_zero (same ▸ among)
          omega

/-- A failed split, merge or optimisation of a valid graph leaves it as it was exactly
when it failed before it came to anything to change. -/
theorem failed_rewrite_unchanged_iff (valid : graph.validate = .ok ())
    (tidy : graph.Everywhere Tidy) (fault : Fault) :
    (graph.split.answer = .error fault →
      (graph.split.graph = graph ↔ graph.firstEvent? = some .fault)) ∧
    (∀ keep remove, (graph.fuse keep remove).answer = .error fault →
      ((graph.fuse keep remove).graph = graph ↔
        fault ≠ .missingField ∨ graph.Unnamed remove)) ∧
    ∀ meaning policy, (graph.optimize meaning policy).answer = .error fault →
      ((graph.optimize meaning policy).graph = graph ↔ graph.Untouched meaning policy) := by
  refine ⟨?_, fun keep remove => fuse_unchanged_iff,
    fun meaning policy => optimize_unchanged_iff valid tidy⟩
  intro failed
  have meets : graph.Meets graph.split graph.firstEvent? :=
    meets_splitNested (Nat.le_refl _) valid tidy
  generalize graph.firstEvent? = event at meets
  cases meets with
  | passes done =>
      rw [done] at failed
      cases failed
  | fails refused => simp [refused]
  | splits advances moved =>
      simp only [Option.some.injEq, reduceCtorEq, iff_false]
      intro same
      apply moved
      apply advances.eq_zero
      rw [same]

end Optimising

end Graph

section Sample

/-- A call that cannot be looked up before one that is split, a loop node without a
loop, and a node that nothing names. -/
def earlyFault : Graph :=
  ⟨[⟨0, .constant, .int 1, [], .null⟩, ⟨1, .constant, .int 2, [], .null⟩,
      ⟨2, .call, .list [], [0], .null⟩, ⟨3, .call, .text "+", [0, 0, 0], .null⟩,
      ⟨4, .loop, .null, [], .null⟩],
    [("y", 3)], 5⟩

/-- The same faults behind a call that is split, whose operand is merged. -/
def lateFault : Graph :=
  ⟨[⟨0, .constant, .int 1, [], .null⟩, ⟨1, .constant, .int 2, [], .null⟩,
      ⟨2, .call, .text "+", [0, 1, 0], .null⟩, ⟨3, .call, .list [], [0], .null⟩,
      ⟨4, .loop, .null, [], .null⟩],
    [("y", 2)], 5⟩

/-- A sum of constants that is split before it is folded. -/
def wideSum : Graph :=
  ⟨[⟨0, .constant, .int 1, [], .null⟩, ⟨1, .constant, .int 2, [], .null⟩,
      ⟨2, .constant, .int 3, [], .null⟩, ⟨3, .call, .text "+", [0, 1, 2], .null⟩],
    [("y", 3)], 4⟩

theorem earlyFault_tidy : earlyFault.Everywhere Graph.Tidy := by
  refine Graph.everywhere_of_innermost ?_ ?_
  · simp [earlyFault, Node.loop?, Value.loop?]
  · exact ⟨by decide, by unfold Graph.Numbered; decide⟩

theorem lateFault_tidy : lateFault.Everywhere Graph.Tidy := by
  refine Graph.everywhere_of_innermost ?_ ?_
  · simp [lateFault, Node.loop?, Value.loop?]
  · exact ⟨by decide, by unfold Graph.Numbered; decide⟩

theorem wideSum_tidy : wideSum.Everywhere Graph.Tidy := by
  refine Graph.everywhere_of_innermost ?_ ?_
  · simp [wideSum, Node.loop?]
  · exact ⟨by decide, by unfold Graph.Numbered; decide⟩

theorem earlyFault_unnamed : earlyFault.Unnamed 1 where
  inputs := by simp [earlyFault]
  exits := by simp [earlyFault]
  bindings := by simp [earlyFault, Node.isCarried, Node.isLoop, Node.loop?, Value.loop?]

theorem early_faults_change_nothing :
    earlyFault.validate = .ok () ∧ earlyFault.Everywhere Graph.Tidy ∧
    (earlyFault.split.answer = .error .wrongType ∧ earlyFault.split.graph = earlyFault) ∧
    ((earlyFault.fuse 0 1).answer = .error .missingField ∧
      (earlyFault.fuse 0 1).graph = earlyFault) ∧
    (earlyFault.optimize adding .standard).answer = .error .wrongType ∧
      (earlyFault.optimize adding .standard).graph = earlyFault := by
  have valid : earlyFault.validate = .ok () := rfl
  have tidy := earlyFault_tidy
  have first : earlyFault.firstEvent? = some .fault := rfl
  have unsplit : earlyFault.split.answer = .error .wrongType := rfl
  have unmerged : (earlyFault.fuse 0 1).answer = .error .missingField := by cbv
  have stopped : (earlyFault.optimize adding .standard).answer = .error .wrongType := rfl
  obtain ⟨split, _, optimize⟩ := Graph.failed_rewrite_unchanged_iff valid tidy .wrongType
  obtain ⟨_, fuse, _⟩ := Graph.failed_rewrite_unchanged_iff valid tidy .missingField
  exact ⟨valid, tidy, ⟨unsplit, (split unsplit).mpr first⟩,
    ⟨unmerged, (fuse 0 1 unmerged).mpr (.inr earlyFault_unnamed)⟩,
    stopped, (optimize adding .standard stopped).mpr (.inl first)⟩

/-- Splits, redirections and stages that were done before a fault stay done. -/
theorem late_faults_keep_changes :
    lateFault.validate = .ok () ∧ lateFault.Everywhere Graph.Tidy ∧
    (lateFault.split.answer = .error .wrongType ∧ lateFault.split.graph ≠ lateFault) ∧
    ((lateFault.fuse 0 1).answer = .error .missingField ∧
      (lateFault.fuse 0 1).graph ≠ lateFault) ∧
    wideSum.validate = .ok () ∧ wideSum.Everywhere Graph.Tidy ∧
    (wideSum.optimize knowingNothing .standard).answer = .error .wrongType ∧
      (wideSum.optimize knowingNothing .standard).graph ≠ wideSum := by
  have split : lateFault.split.graph.nextId = 6 := rfl
  have merged : ((lateFault.fuse 0 1).graph.nodes.map Node.inputs) =
      [[], [], [0, 0, 0], [0], []] := by cbv
  have optimized : (wideSum.optimize knowingNothing .standard).graph.nextId = 5 := rfl
  refine ⟨rfl, lateFault_tidy, ⟨rfl, ?_⟩, ⟨by cbv, ?_⟩, rfl, wideSum_tidy, rfl, ?_⟩
  · intro same
    rw [same] at split
    revert split
    decide
  · intro same
    rw [same] at merged
    revert merged
    decide
  · intro same
    rw [same] at optimized
    revert optimized
    decide

end Sample

end FlowGraph

import FlowGraph.Proofs.Reevaluation

/-!
# Merging nodes of one value

When two nodes have one value, whatever read the removed node reads the same from the
kept one.  The value of the kept node has to be known first in the merged graph: what it
is computed from does not lead to the removed node, so nothing of that was redirected.
From there all other values follow, and loops find the scopes that they had.
-/

namespace FlowGraph

namespace Graph

section Merge

variable {meaning : Interpretation} {graph : Graph} {scope : Scope} {keep remove : NodeId}

theorem find?_fused (distinct : graph.ids.Nodup) {id : NodeId} {node : Node}
    (found : graph.find? id = some node) (stays : id ≠ remove) :
    (graph.fused keep remove).find? id = some (node.fused keep remove) := by
  obtain ⟨member, rfl⟩ := mem_of_find? found
  have inside : node.fused keep remove ∈ (graph.fused keep remove).nodes :=
    mem_fused_nodes.mpr ⟨node, member, stays, rfl⟩
  exact find?_of_mem (fused_ids_sublist.nodup distinct) inside

theorem exists_of_find?_fused (distinct : graph.ids.Nodup) {id : NodeId} {changed : Node}
    (found : (graph.fused keep remove).find? id = some changed) :
    ∃ node, graph.find? id = some node ∧ id ≠ remove ∧ changed = node.fused keep remove := by
  obtain ⟨member, same⟩ := mem_of_find? found
  obtain ⟨node, inside, stays, rfl⟩ := mem_fused_nodes.mp member
  have sameId : node.id = id := same
  subst sameId
  exact ⟨node, find?_of_mem distinct inside, stays, rfl⟩

/-- A merge leaves the bodies of loops as they are. -/
theorem everywhere_fused {property : Graph → Prop} (everywhere : graph.Everywhere property)
    (distinct : graph.ids.Nodup) (here : property (graph.fused keep remove)) :
    (graph.fused keep remove).Everywhere property := by
  refine everywhere_iff.mpr ⟨here, ?_⟩
  intro id changed held foundChanged runsChanged
  obtain ⟨node, foundNode, _, rfl⟩ := exists_of_find?_fused distinct foundChanged
  obtain ⟨loop, runs, rfl⟩ := Node.exists_loop_of_fused runsChanged
  have inBody : loop.body.Everywhere property := everywhere.body foundNode runs
  exact inBody

/-- Values pass to the merged graph in a part that is closed under dependencies, when the
kept node has the value of the removed one there. -/
theorem denotes_fused_of_part (distinct : graph.ids.Nodup) (part : NodeId → Prop)
    (closed : ∀ id node, graph.find? id = some node → part id →
      ∀ dependency ∈ node.dependencies, part dependency)
    (stands : part remove → ∀ value, Denotes meaning graph scope remove value →
      Denotes meaning (graph.fused keep remove) scope keep value)
    {id : NodeId} {value : Value} (denotes : Denotes meaning graph scope id value)
    (inPart : part id) :
    Denotes meaning (graph.fused keep remove) scope (redirect keep remove id) value := by
  refine denotes.levelInduction (motive := fun id value => part id →
    Denotes meaning (graph.fused keep remove) scope (redirect keep remove id) value) ?_ ?_ inPart
  · intro id node values value found reads induction computed inPart
    by_cases removed : id = remove
    · subst removed
      rw [redirect_self]
      exact stands inPart value (.plain found reads computed)
    · rw [redirect_of_ne removed]
      refine (Node.renumbered_fused keep remove node).denotes (find?_fused distinct found removed)
        ?_ computed
      intro read isRead
      apply induction read isRead
      apply closed id node found inPart
      exact node.inputs_subset_dependencies (node.reads_subset_inputs isRead)
  · intro id node loop values found runs sources induction keys defined inPart
    by_cases removed : id = remove
    · subst removed
      rw [redirect_self]
      exact stands inPart .null (.of_defined found runs sources keys defined)
    · rw [redirect_of_ne removed]
      refine (Node.renumbered_fused keep remove node).denotes_loop
        (find?_fused distinct found removed) runs ?_ keys defined
      intro binding member
      apply induction binding member
      exact closed id node found inPart binding.2 (Node.source_mem_dependencies runs member)

section SameValue

variable (distinct : graph.ids.Nodup) {found : List NodeId}
  (closure : graph.ClosureOf [keep] found) (apart : remove ∉ found)
  {common : Value} (keptValue : Denotes meaning graph scope keep common)
  (removedValue : Denotes meaning graph scope remove common)
include distinct closure apart keptValue removedValue

/-- After the merge every number stands for the value that it stood for before. -/
theorem denotes_fused {id : NodeId} {value : Value}
    (denotes : Denotes meaning graph scope id value) :
    Denotes meaning (graph.fused keep remove) scope (redirect keep remove id) value := by
  have keptFound : keep ∈ found := closure.starts List.mem_cons_self
  have keptStays : keep ≠ remove := fun same => apart (same ▸ keptFound)
  have keptAfter : Denotes meaning (graph.fused keep remove) scope keep common := by
    have moved : Denotes meaning (graph.fused keep remove) scope (redirect keep remove keep)
        common :=
      denotes_fused_of_part distinct (fun id => id ∈ found)
        (fun id node holds inFound _ needed => closure.closed id inFound node holds needed)
        (fun removedFound => absurd removedFound apart) keptValue keptFound
    rwa [redirect_of_ne keptStays] at moved
  have stands : ∀ value, Denotes meaning graph scope remove value →
      Denotes meaning (graph.fused keep remove) scope keep value := by
    intro value denotesRemoved
    rw [denotesRemoved.deterministic removedValue]
    exact keptAfter
  exact denotes_fused_of_part distinct (fun _ => True) (fun _ _ _ _ _ _ => trivial)
    (fun _ => stands) denotes trivial

theorem denotes_fused_of_ne {id : NodeId} {value : Value} (stays : id ≠ remove)
    (denotes : Denotes meaning graph scope id value) :
    Denotes meaning (graph.fused keep remove) scope id value := by
  have moved := denotes_fused distinct closure apart keptValue removedValue denotes
  rwa [redirect_of_ne stays] at moved

theorem fused_defined (defined : graph.Defined meaning scope) :
    (graph.fused keep remove).Defined meaning scope := by
  intro id present
  obtain ⟨changed, foundChanged⟩ := exists_find? present
  obtain ⟨node, foundNode, stays, _⟩ := exists_of_find?_fused distinct foundChanged
  obtain ⟨value, denotes⟩ := defined id (mem_ids_of_find? foundNode)
  exact ⟨value, denotes_fused_of_ne distinct closure apart keptValue removedValue stays denotes⟩

theorem fused_exitsDenote {values : List (String × Value)}
    (exits : ExitsDenote meaning scope graph values) :
    ExitsDenote meaning scope (graph.fused keep remove) values := by
  refine List.forall₂_map_left_iff.mpr (exits.imp fun exit left leaves => ?_)
  exact ⟨leaves.1, denotes_fused distinct closure apart keptValue removedValue leaves.2⟩

/-- A loop that is left runs the body that it ran before, in the same scope. -/
theorem enters_fused (defined : graph.Defined meaning scope) {id : NodeId} {path : List NodeId}
    {body : Graph} (reached : (graph.fused keep remove).within? (id :: path) = some body) :
    ∃ inner, Enters meaning graph scope (id :: path) body inner ∧
      Enters meaning (graph.fused keep remove) scope (id :: path) body inner ∧
      body.Defined meaning inner := by
  obtain ⟨changed, held, foundChanged, runsChanged, deeper⟩ := within?_cons.mp reached
  obtain ⟨node, foundNode, stays, rfl⟩ := exists_of_find?_fused distinct foundChanged
  obtain ⟨loop, runs, rfl⟩ := Node.exists_loop_of_fused runsChanged
  obtain ⟨value, denotes⟩ := defined id (mem_ids_of_find? foundNode)
  obtain ⟨values, sources, _, bodyDefined, _⟩ := denotes.defined_body foundNode runs
  obtain ⟨inner, enters, innerDefined⟩ := bodyDefined.exists_enters deeper
  have moved : ∀ binding ∈ loop.bindings, Denotes meaning (graph.fused keep remove) scope
      (redirect keep remove binding.2) (values binding.2) := fun binding member =>
    denotes_fused distinct closure apart keptValue removedValue (sources binding member)
  obtain ⟨again, others, runsAgain, _, _, sourcesAgain, sameScope⟩ :=
    (Node.renumbered_fused keep remove node).exists_sources runs moved
  cases runsChanged.symm.trans runsAgain
  refine ⟨inner, .inside foundNode runs sources enters, ?_, innerDefined⟩
  refine .inside foundChanged runsChanged sourcesAgain ?_
  rw [sameScope]
  exact enters

/-- The results of a finished graph are those of the finished merged graph, wherever
there is still a node. -/
theorem resultAt_fused (defined : graph.Defined meaning scope) {finished fusedFinished : Graph}
    (completes : graph.Completes meaning scope finished)
    (fusedCompletes : (graph.fused keep remove).Completes meaning scope fusedFinished) :
    ∀ path rest, (graph.fused keep remove).within? path = some rest → ∀ id ∈ rest.ids,
      ∃ value, finished.resultAt path id = some value ∧
        fusedFinished.resultAt path id = some value := by
  intro path rest left id present
  cases path with
  | nil =>
      cases left
      obtain ⟨changed, foundChanged⟩ := exists_find? present
      obtain ⟨node, foundNode, stays, _⟩ := exists_of_find?_fused distinct foundChanged
      obtain ⟨value, denotes⟩ := defined id (mem_ids_of_find? foundNode)
      exact ⟨value, completes.resultAt_eq .here denotes, fusedCompletes.resultAt_eq .here
        (denotes_fused_of_ne distinct closure apart keptValue removedValue stays denotes)⟩
  | cons loopId path =>
      obtain ⟨inner, enters, fusedEnters, bodyDefined⟩ :=
        enters_fused distinct closure apart keptValue removedValue defined left
      obtain ⟨value, denotes⟩ := bodyDefined id present
      exact ⟨value, completes.resultAt_eq enters denotes,
        fusedCompletes.resultAt_eq fusedEnters denotes⟩

end SameValue

/-- Evaluation of a merged graph gives what evaluation of the graph gave. -/
theorem evaluate_fuse {values : List (String × Value)} {common : Value}
    (coherent : graph.Coherent)
    (succeeded : (graph.evaluate meaning scope).answer = .ok values)
    (keptResult : (graph.evaluate meaning scope).graph.resultAt [] keep = some common)
    (removedResult : (graph.evaluate meaning scope).graph.resultAt [] remove = some common)
    (done : (graph.fuse keep remove).answer = .ok ()) :
    ((graph.fuse keep remove).graph.evaluate meaning scope).answer = .ok values ∧
    ∀ path rest, (graph.fuse keep remove).graph.within? path = some rest → ∀ id ∈ rest.ids,
      ∃ value, (graph.evaluate meaning scope).graph.resultAt path id = some value ∧
        ((graph.fuse keep remove).graph.evaluate meaning scope).graph.resultAt path id =
          some value := by
  have evaluable := coherent.evaluable
  have distinct := evaluable.here.distinct
  have plain : ∀ node ∈ graph.nodes, ∀ loop, node.content = .loop loop → node.kind = .loop :=
    fun node member loop content => (coherent.loops.here node member).mpr ⟨loop, content⟩
  obtain ⟨defined, completes, exits⟩ :=
    (computedBy_evaluate evaluable meaning scope).sound values succeeded
  have keptValue : Denotes meaning graph scope keep common :=
    completes.denotes_of_resultAt .here keptResult
  have removedValue : Denotes meaning graph scope remove common :=
    completes.denotes_of_resultAt .here removedResult
  obtain ⟨different, found, reached, apart⟩ := fuse_checks done
  have closure := closureOf_ancestors reached
  have fusedEvaluable : (graph.fused keep remove).Everywhere Evaluable :=
    everywhere_fused evaluable distinct (fused_evaluable evaluable.here plain keptValue.mem_ids
      different (closure.starts List.mem_cons_self) closure.closed apart)
  have fusedDefined := fused_defined distinct closure apart keptValue removedValue defined
  have fusedSucceeded : ((graph.fused keep remove).evaluate meaning scope).answer = .ok values :=
    evaluate_eq_ok fusedEvaluable fusedDefined
      (fused_exitsDenote distinct closure apart keptValue removedValue exits)
  obtain ⟨_, fusedCompletes, _⟩ :=
    (computedBy_evaluate fusedEvaluable meaning scope).sound values fusedSucceeded
  rw [fuse_eq done]
  exact ⟨fusedSucceeded, resultAt_fused distinct closure apart keptValue removedValue defined
    completes fusedCompletes⟩

/-- Two nodes that evaluation gives one result may be merged, in the graph that was evaluated
or in the one that evaluation left: evaluation of what is left succeeds with the same values
at the exits, and gives every node that is left, in the graph and in the bodies of the loops
that are left, the result that it had. -/
theorem fuse_preserves_evaluation {values : List (String × Value)} {common : Value} {start : Graph}
    (coherent : graph.Coherent)
    (succeeded : (graph.evaluate meaning scope).answer = .ok values)
    (keptResult : (graph.evaluate meaning scope).graph.resultAt [] keep = some common)
    (removedResult : (graph.evaluate meaning scope).graph.resultAt [] remove = some common)
    (starts : start = graph ∨ start = (graph.evaluate meaning scope).graph)
    (done : (start.fuse keep remove).answer = .ok ()) :
    ((start.fuse keep remove).graph.evaluate meaning scope).answer = .ok values ∧
    ∀ path rest, (start.fuse keep remove).graph.within? path = some rest → ∀ id ∈ rest.ids,
      ∃ value, (graph.evaluate meaning scope).graph.resultAt path id = some value ∧
        ((start.fuse keep remove).graph.evaluate meaning scope).graph.resultAt path id =
          some value := by
  rcases starts with same | same
  · subst same
    exact evaluate_fuse coherent succeeded keptResult removedResult done
  · -- What evaluation left evaluates to itself, so the results before the merge are the same.
    have again : start.evaluate meaning scope = graph.evaluate meaning scope := by
      rw [same]
      exact evaluate_again coherent succeeded
    have startCoherent : start.Coherent := same ▸ coherent.evaluate succeeded
    rw [← again] at succeeded keptResult removedResult ⊢
    exact evaluate_fuse startCoherent succeeded keptResult removedResult done

end Merge

end Graph

section Sample

/-- In this scope the external node of `tripling` has the value of its sum. -/
def threeForZ : Scope := fun name =>
  if name = "z" then some (.int 3) else none

/-- The graph that evaluation leaves of `tripling`. -/
def evaluatedTripling : Graph :=
  (tripling.evaluate adding threeForZ).graph

/-- The external node takes the place of the sum, as an exit and as the source of the
loop. -/
theorem merged_tripling_evaluates :
    (evaluatedTripling.fuse 4 2).answer = .ok () ∧
    ((evaluatedTripling.fuse 4 2).graph.evaluate adding threeForZ).answer =
      .ok [("total", .int 3), ("loop", .null)] ∧
    ∀ path rest, (evaluatedTripling.fuse 4 2).graph.within? path = some rest → ∀ id ∈ rest.ids,
      ∃ value, evaluatedTripling.resultAt path id = some value ∧
        ((evaluatedTripling.fuse 4 2).graph.evaluate adding threeForZ).graph.resultAt path id =
          some value := by
  have coherent : tripling.Coherent := tripling_wellFormed.coherent [] rfl
  have succeeded : (tripling.evaluate adding threeForZ).answer =
      .ok [("total", .int 3), ("loop", .null)] := by cbv
  have keptResult :
      (tripling.evaluate adding threeForZ).graph.resultAt [] 4 = some (.int 3) := by cbv
  have removedResult :
      (tripling.evaluate adding threeForZ).graph.resultAt [] 2 = some (.int 3) := by cbv
  have done : (evaluatedTripling.fuse 4 2).answer = .ok () := by cbv
  exact ⟨done, Graph.fuse_preserves_evaluation coherent succeeded keptResult removedResult
    (.inr rfl) done⟩

end Sample

end FlowGraph

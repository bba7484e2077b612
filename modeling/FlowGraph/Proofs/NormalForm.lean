import FlowGraph.Proofs.FixedPoints

/-!
# The normal form of optimisation

Splitting ends when no scan comes to a call that it would split, folding when no call
can be folded, pruning keeps what the exits lead to, and scheduling puts the nodes into
layers.  Each stage keeps what the stages before it have reached, in every graph of the
nest, so an optimised graph is in normal form, and optimising it again changes nothing.
-/

namespace FlowGraph

namespace Node

variable {node other : Node}

theorem event?_of_kind (noCall : node.kind ≠ .call) : node.event? = none := by
  simp [event?, isUnhashable, isWide, noCall]

/-- What a scan comes to at a node is decided by the content and the number of inputs
of a call. -/
theorem event?_congr (kind : other.kind = node.kind)
    (content : node.kind = .call → other.content = node.content)
    (width : other.inputs.length = node.inputs.length) : other.event? = node.event? := by
  by_cases isCall : node.kind = .call
  · have unhashable : other.isUnhashable = node.isUnhashable := by
      simp only [isUnhashable, kind, content isCall]
    have wide : other.isWide = node.isWide := by
      simp only [isWide, kind, content isCall, width]
    rw [event?, event?, unhashable, wide]
  · rw [event?_of_kind isCall, event?_of_kind (kind ▸ isCall)]

theorem event?_fused (keep remove : NodeId) (node : Node) :
    (node.fused keep remove).event? = node.event? := by
  apply event?_congr
  · rfl
  · intro isCall
    exact fused_content (loop?_eq_none_of_kind (by simp [isCall]))
  · exact List.length_map _

theorem Revised.event?_eq {related : Loop → Loop → Prop} (revised : node.Revised related other) :
    other.event? = node.event? := by
  apply event?_congr revised.kind_eq
  · intro isCall
    exact revised.content_eq (by simp [isCall])
  · rw [revised.inputs_eq]

/-- A scan passes the node, or splits it while it has few inputs. -/
def WithinWidth (width : Nat) (node : Node) : Prop :=
  node.isUnhashable = false ∧ (node.isWide = true → node.inputs.length ≤ width)

end Node

section Kinds

variable {graph other : Graph} {policy : FoldPolicy}

theorem areConstants_congr {ids : List NodeId}
    (kinds : ∀ id ∈ ids, (other.find? id).map Node.kind = (graph.find? id).map Node.kind) :
    areConstants other ids = areConstants graph ids := by
  induction ids with
  | nil => rfl
  | cons id rest induction =>
      have remaining := induction fun later member => kinds later (List.mem_cons_of_mem _ member)
      have here := kinds id List.mem_cons_self
      rw [areConstants, areConstants, remaining]
      cases found : graph.find? id with
      | none =>
          rw [found, Option.map_none, Option.map_eq_none_iff] at here
          simp only [Graph.node, found, here]
      | some node =>
          rw [found, Option.map_some] at here
          obtain ⟨changed, foundOther, kind⟩ := Option.map_eq_some_iff.mp here
          simp only [Graph.node, found, foundOther]
          simp only [bind, Except.bind, kind]

/-- Whether a node can be folded depends on the node and the kinds of its operands. -/
theorem isFoldable_congr {related : Loop → Loop → Prop} {node changed : Node}
    (revised : node.Revised related changed)
    (kinds : ∀ id ∈ changed.inputs,
      (other.find? id).map Node.kind = (graph.find? id).map Node.kind) :
    isFoldable other policy changed = isFoldable graph policy node := by
  unfold isFoldable
  rw [revised.kind_eq]
  by_cases isCall : node.kind = .call
  · rw [areConstants_congr kinds, revised.inputs_eq, revised.content_eq (by simp [isCall])]
  · simp [isCall]

theorem exists_of_areConstants {ids : List NodeId} (differs : areConstants graph ids = .ok false) :
    ∃ id ∈ ids, ∃ node, graph.find? id = some node ∧ node.kind ≠ .constant := by
  induction ids with
  | nil => cases differs
  | cons id rest induction =>
      obtain ⟨node, found, remaining⟩ := bind_eq_ok.mp differs
      split at remaining
      · obtain ⟨later, member, holds⟩ := induction remaining
        exact ⟨later, List.mem_cons_of_mem _ member, holds⟩
      · rename_i different
        exact ⟨id, List.mem_cons_self, node, Graph.node_eq_ok.mp found, different⟩

end Kinds

namespace Graph

section Origins

variable {graph other : Graph} {related : Loop → Loop → Prop}
  (origins : ∀ id changed, other.find? id = some changed →
    ∃ node, graph.find? id = some node ∧ node.Revised related changed)
include origins

theorem quiet_of_origins (distinct : other.ids.Nodup) (quiet : graph.Quiet) : other.Quiet := by
  intro changed member
  obtain ⟨node, found, revised⟩ := origins changed.id changed (find?_of_mem distinct member)
  rw [revised.event?_eq]
  exact quiet node (mem_of_find? found).1

/-- Nothing more can be folded where the operands are of the same kinds as before. -/
theorem reduced_of_origins {policy : FoldPolicy} (distinct : other.ids.Nodup)
    (kinds : ∀ changed ∈ other.nodes, ∀ id ∈ changed.inputs,
      (other.find? id).map Node.kind = (graph.find? id).map Node.kind)
    (reduced : graph.Reduced policy) : other.Reduced policy := by
  refine ⟨distinct, quiet_of_origins origins distinct reduced.quiet, ?_⟩
  intro changed member
  obtain ⟨node, found, revised⟩ := origins changed.id changed (find?_of_mem distinct member)
  rw [isFoldable_congr revised (kinds changed member)]
  exact reduced.unfoldable node (mem_of_find? found).1

end Origins

theorem everywhere_of_visited {property : Graph → Prop} {graph other : Graph}
    (revised : List.Forall₂ (Node.Revised (Loop.VisitedBy fun _ changed =>
      changed.Everywhere property)) graph.nodes other.nodes)
    (here : property other) : other.Everywhere property :=
  everywhere_of_origins (origins_of_revised revised) here fun _ _ _ _ _ _ visited => visited.body

theorem kind_of_partners {related : Loop → Loop → Prop} {first second : Option Node}
    (partners : Option.Rel (Node.Revised related) first second) :
    second.map Node.kind = first.map Node.kind := by
  cases partners with
  | none => rfl
  | some revised => exact congrArg some revised.kind_eq

/-- A property of the bodies of the loops of a graph. -/
def Bodies (property : Graph → Prop) (graph : Graph) : Prop :=
  ∀ node ∈ graph.nodes, ∀ loop, node.loop? = some loop → property loop.body

section Nesting

variable {α : Type} {step : (Graph → α) → Graph → α} {nested : Nat → Graph → α}
  {innermost : Graph → α} (zero : nested 0 = step innermost)
  (succ : ∀ depth, nested (depth + 1) = step (nested depth))
  (congr : ∀ visit other graph, graph.Bodies (fun body => visit body = other body) →
    step visit graph = step other graph)
include zero succ congr

/-- A bound on the depth of a recursion into the bodies does not matter, as long as it is
one. -/
theorem nested_eq {graph : Graph} {first second : Nat} (enough : graph.depth ≤ first)
    (alsoEnough : graph.depth ≤ second) : nested first graph = nested second graph := by
  induction first generalizing graph second with
  | zero =>
      cases second with
      | zero => rfl
      | succ second =>
          rw [zero, succ]
          apply congr
          intro node member loop runs
          have below := depth_body_lt member runs
          omega
  | succ first induction =>
      cases second with
      | zero =>
          rw [zero, succ]
          apply congr
          intro node member loop runs
          have below := depth_body_lt member runs
          omega
      | succ second =>
          rw [succ, succ]
          apply congr
          intro node member loop runs
          have below := depth_body_lt member runs
          exact induction (by omega) (by omega)

/-- Every body is visited like the graph itself. -/
theorem nested_depth (graph : Graph) :
    nested graph.depth graph = step (fun body => nested body.depth body) graph := by
  rw [nested_eq zero succ congr (Nat.le_refl _) (Nat.le_succ graph.depth), succ]
  apply congr
  intro node member loop runs
  have below := depth_body_lt member runs
  exact nested_eq zero succ congr (by omega) (Nat.le_refl _)

end Nesting

section Steps

variable {graph : Graph} {call : Node} {property : Graph → Prop}

/-- A split leaves all bodies as they are. -/
theorem bodies_splitCall (bodies : graph.Bodies property) (first : NodeId)
    (others : List NodeId) : (graph.splitCall call first others).Bodies property := by
  intro node member loop runs
  obtain ⟨original, inExtended, rfl⟩ := List.mem_map.mp member
  have held : original.loop? = some loop := by
    split at runs <;> exact runs
  rcases old_or_new_node inExtended with old | rfl
  · exact bodies original old loop held
  · cases held

/-- A fold leaves the bodies as they are, since it takes out a call and constants. -/
theorem bodies_foldedCall {value : Value} (bodies : graph.Bodies property) :
    (graph.foldedCall call value).Bodies property := by
  intro node member changed runs
  obtain ⟨original, inExtended, _, rfl⟩ := mem_fused_nodes.mp (mem_of_foldedCall member)
  obtain ⟨loop, held, rfl⟩ := Node.exists_loop_of_fused runs
  rcases old_or_new_node inExtended with old | rfl
  · exact bodies original old loop held
  · cases held

theorem quiet_foldedCall {value : Value} (quiet : graph.Quiet) :
    (graph.foldedCall call value).Quiet := by
  intro node member
  obtain ⟨original, inExtended, _, rfl⟩ := mem_fused_nodes.mp (mem_of_foldedCall member)
  rw [Node.event?_fused]
  rcases old_or_new_node inExtended with old | rfl
  · exact quiet original old
  · exact Node.event?_of_kind (by simp)

/-- A fold takes one call away and adds none. -/
theorem callCount_foldedCall_lt {value : Value} (member : call ∈ graph.nodes)
    (kind : call.kind = .call) :
    callCount (graph.foldedCall call value).nodes < callCount graph.nodes := by
  have dropped : callCount (graph.foldedCall call value).nodes ≤
      callCount ((graph.extended .constant value []).fused graph.nextId call.id).nodes :=
    List.filter_sublist.countP_le
  have merged : callCount ((graph.extended .constant value []).fused graph.nextId call.id).nodes =
      callCount ((graph.extended .constant value []).nodes.filter
        fun node => node.id != call.id) := by
    simp only [callCount, fused, List.countP_map]
    rfl
  have literal : callCount ((graph.extended .constant value []).nodes.filter
        fun node => node.id != call.id) ≤
      callCount (graph.nodes.filter fun node => node.id != call.id) := by
    simp only [callCount, List.countP_filter]
    unfold extended insertNode
    split
    · simp only [update, List.countP_map]
      refine List.countP_mono_left fun node _ counted => ?_
      simp only [Function.comp_apply] at counted
      split at counted
      · simp at counted
      · exact counted
    · simp
  have taken : callCount (graph.nodes.filter fun node => node.id != call.id) <
      callCount graph.nodes := by
    have both := List.countP_eq_countP_filter_add graph.nodes (fun node => node.kind == .call)
      fun node => node.id != call.id
    have removed : 0 < (graph.nodes.filter fun node => !(node.id != call.id)).countP
        fun node => node.kind == .call :=
      List.countP_pos_iff.mpr ⟨call, by simp [member], by simp [kind]⟩
    unfold callCount
    omega
  omega

end Steps

section Splitting

theorem le_widestInputs {nodes : List Node} {node : Node} (member : node ∈ nodes) :
    node.inputs.length ≤ widestInputs nodes := by
  induction nodes with
  | nil => cases member
  | cons first rest induction =>
      have widest : widestInputs (first :: rest) = max first.inputs.length (widestInputs rest) :=
        rfl
      rcases List.mem_cons.mp member with rfl | later
      · omega
      · have inRest := induction later
        omega

theorem bodies_splitScan {property : Graph → Prop} {graph : Graph} (nodes : List Node)
    (bodies : graph.Bodies property) : (splitScan graph nodes).graph.Bodies property := by
  induction nodes generalizing graph with
  | nil => exact bodies
  | cons node rest induction =>
      cases splitScan_step graph node rest with
      | skips _ _ goesOn =>
          rw [goesOn]
          exact induction bodies
      | stops _ ends =>
          rw [ends]
          exact bodies
      | dangles _ _ ends =>
          rw [ends]
          exact bodies
      | splits _ _ _ _ _ _ goesOn =>
          rw [goesOn]
          exact induction (bodies_splitCall bodies _ _)

theorem bodies_splitRounds {property : Graph → Prop} {graph : Graph} (fuel : Nat)
    (bodies : graph.Bodies property) : (splitRounds fuel graph).graph.Bodies property := by
  induction fuel generalizing graph with
  | zero => exact bodies
  | succ fuel induction =>
      have scanned := bodies_splitScan graph.nodes bodies
      simp only [splitRounds]
      split
      · exact scanned
      · exact scanned
      · exact induction scanned

/-- A scan that splits nothing comes to nothing. -/
theorem quiet_of_splitScan {graph : Graph} {nodes : List Node}
    (done : (splitScan graph nodes).answer = .ok 0) : ∀ node ∈ nodes, node.event? = none := by
  induction nodes with
  | nil => simp
  | cons node rest induction =>
      cases splitScan_step graph node rest with
      | skips narrow hashable goesOn =>
          rw [goesOn] at done
          exact List.forall_mem_cons.mpr
            ⟨Node.event?_eq_none.mpr ⟨hashable, narrow⟩, induction done⟩
      | stops _ ends =>
          rw [ends] at done
          cases done
      | dangles _ _ ends =>
          rw [ends] at done
          cases done
      | splits _ _ _ _ _ _ goesOn =>
          rw [goesOn] at done
          obtain ⟨inner, answer⟩ := Outcome.more_answer done
          simp [Outcome.more, answer, Except.map] at done

/-- After a split the call has two operands and the new call one less than the call
had. -/
theorem SplitsCall.withinWidth {graph : Graph} {call : Node} {name : String}
    {first : NodeId} {others : List NodeId} {width : Nat}
    (splits : graph.SplitsCall call name first others) (bounded : call.inputs.length ≤ width + 1)
    {id : NodeId} {node : Node}
    (found : (graph.splitCall call first others).find? id = some node) :
    node.WithinWidth width ∨ id ≠ call.id ∧ graph.find? id = some node := by
  obtain ⟨_, _, _, inputs, _⟩ := splits.inputs
  have hashable : call.content.isHashable = true := by
    rw [splits.content]
    rfl
  by_cases same : id = call.id
  · rw [same, splits.find?_call] at found
    cases found
    exact .inl ⟨by simp [Node.isUnhashable, hashable], by simp [Node.isWide]⟩
  · rcases splits.node_cases found with ⟨_, rfl⟩ | ⟨isCall, _⟩ | old
    · refine .inl ⟨by simp [Node.isUnhashable, hashable], fun _ => ?_⟩
      rw [inputs, List.length_cons] at bounded
      exact Nat.le_of_succ_le_succ bounded
    · exact absurd isCall same
    · exact .inr ⟨same, old⟩

/-- A scan takes an operand from every call that it comes to.  The calls that it has
not come to are still those of the graph. -/
theorem withinWidth_of_splitScan {width count : Nat} {nodes : List Node} {graph : Graph}
    (tidy : graph.Everywhere Tidy) (distinct : (nodes.map Node.id).Nodup)
    (ahead : ∀ node ∈ nodes, graph.find? node.id = some node)
    (bounded : ∀ node ∈ nodes, node.isWide = true → node.inputs.length ≤ width + 1)
    (behind : ∀ node ∈ graph.nodes, node ∈ nodes ∨ node.WithinWidth width)
    (done : (splitScan graph nodes).answer = .ok count) :
    ∀ node ∈ (splitScan graph nodes).graph.nodes, node.WithinWidth width := by
  induction nodes generalizing graph count with
  | nil => exact fun node member => (behind node member).resolve_left (by simp)
  | cons node rest induction =>
      rw [List.map_cons, List.nodup_cons] at distinct
      have aheadRest : ∀ later ∈ rest, graph.find? later.id = some later :=
        fun later member => ahead later (List.mem_cons_of_mem _ member)
      have boundedRest : ∀ later ∈ rest, later.isWide = true → later.inputs.length ≤ width + 1 :=
        fun later member => bounded later (List.mem_cons_of_mem _ member)
      cases splitScan_step graph node rest with
      | skips narrow hashable goesOn =>
          rw [goesOn] at done ⊢
          refine induction tidy distinct.2 aheadRest boundedRest ?_ done
          intro other member
          rcases behind other member with inNodes | within
          · rcases List.mem_cons.mp inNodes with rfl | later
            · exact .inr ⟨hashable, by simp [narrow]⟩
            · exact .inl later
          · exact .inr within
      | stops _ ends =>
          rw [ends] at done
          cases done
      | dangles _ _ ends =>
          rw [ends] at done
          cases done
      | @splits name first second third others wide _ kind content folding inputs goesOn =>
          rw [goesOn] at done ⊢
          obtain ⟨inner, answer⟩ := Outcome.more_answer done
          have splits : graph.SplitsCall node name first (second :: third :: others) :=
            ⟨ahead node List.mem_cons_self, kind, content, folding,
              ⟨second, third, others, inputs, rfl⟩, tidy.here.numbered.fresh⟩
          have splitTidy := @tidy_splitCall _ node tidy first (second :: third :: others)
          refine induction splitTidy distinct.2 ?_ boundedRest ?_ answer
          · intro later member
            apply splits.find?_other (aheadRest later member)
            intro same
            exact distinct.1 (same ▸ List.mem_map_of_mem member)
          · intro other member
            have found := find?_of_mem splitTidy.here.distinct member
            rcases splits.withinWidth (bounded node List.mem_cons_self wide) found with
              within | ⟨different, old⟩
            · exact .inr within
            · rcases behind other (mem_of_find? old).1 with inNodes | within
              · rcases List.mem_cons.mp inNodes with rfl | later
                · exact absurd rfl different
                · exact .inl later
              · exact .inr within

/-- Every scan takes one operand from the widest calls, so the fuel lasts until nothing
is left to split. -/
theorem quiet_of_splitRounds {fuel count : Nat} {graph : Graph} (tidy : graph.Everywhere Tidy)
    (bounded : ∀ node ∈ graph.nodes, node.isWide = true → node.inputs.length ≤ fuel + 2)
    (hashable : fuel = 0 → ∀ node ∈ graph.nodes, node.isUnhashable = false)
    (done : (splitRounds fuel graph).answer = .ok count) :
    (splitRounds fuel graph).graph.Quiet := by
  induction fuel generalizing graph count with
  | zero =>
      intro node member
      refine Node.event?_eq_none.mpr ⟨hashable rfl node member, ?_⟩
      cases wide : node.isWide with
      | false => rfl
      | true =>
          have few := bounded node member wide
          simp [Node.isWide] at wide
          omega
  | succ fuel induction =>
      have distinct := tidy.here.distinct
      have within : ∀ splits, (splitScan graph graph.nodes).answer = .ok splits →
          ∀ node ∈ (splitScan graph graph.nodes).graph.nodes, node.WithinWidth (fuel + 2) :=
        fun splits => withinWidth_of_splitScan tidy distinct
          (fun node member => find?_of_mem distinct member) bounded fun node => .inl
      cases answer : (splitScan graph graph.nodes).answer with
      | error fault =>
          simp only [splitRounds, answer] at done
          cases done
      | ok splits =>
          cases splits with
          | zero =>
              have quiet := quiet_of_splitScan answer
              simp only [splitRounds, splitScan_quiet graph quiet]
              exact quiet
          | succ splits =>
              simp only [splitRounds, answer] at done ⊢
              obtain ⟨rest, later⟩ := Outcome.more_answer done
              have narrower := within (splits + 1) answer
              obtain ⟨_, advances⟩ := @exists_advances_splitScan graph graph.nodes tidy
              exact induction advances.tidy (fun node member => (narrower node member).2)
                (fun _ node member => (narrower node member).1) later

theorem quiet_of_splitLevel {graph : Graph} {count : Nat} (tidy : graph.Everywhere Tidy)
    (done : (splitLevel graph).answer = .ok count) : (splitLevel graph).graph.Quiet := by
  refine quiet_of_splitRounds tidy ?_ (fun empty => by cases empty) done
  intro node member _
  have widest := le_widestInputs member
  omega

theorem quiet_of_splitWith {visit : Graph → Outcome Nat} {graph : Graph} {count : Nat}
    {property : Graph → Prop} (tidy : graph.Everywhere Tidy) (bodies : graph.Bodies property)
    (well : ∀ body inner, property body → (visit body).answer = .ok inner →
      (visit body).graph.Everywhere Quiet)
    (done : (splitWith visit graph).answer = .ok count) :
    (splitWith visit graph).graph.Everywhere Quiet := by
  cases answer : (splitLevel graph).answer with
  | error fault =>
      simp only [splitWith, sweep, answer] at done
      cases done
  | ok splits =>
      have levelQuiet := quiet_of_splitLevel tidy answer
      have levelBodies : (splitLevel graph).graph.Bodies property := bodies_splitRounds _ bodies
      obtain ⟨_, advances⟩ : ∃ count, graph.Advances (splitLevel graph).graph count :=
        exists_advances_splitRounds tidy
      simp only [splitWith, sweep, answer] at done ⊢
      cases visited : (visitBodies visit (splitLevel graph).graph.nodes).2 with
      | error fault =>
          rw [visited] at done
          cases done
      | ok inner =>
          have revised := @visitBodies_revised visit (fun _ changed => changed.Everywhere Quiet)
            _ _ (fun node member loop runs inner =>
              well loop.body inner (levelBodies node member loop runs)) visited
          refine everywhere_of_visited revised
            (quiet_of_origins (origins_of_revised revised) ?_ levelQuiet)
          unfold ids
          rw [ids_revised revised]
          exact advances.tidy.here.distinct

/-- Splitting that succeeds leaves nothing to split in any graph of the nest. -/
theorem quiet_of_splitNested {depth count : Nat} {graph : Graph} (enough : graph.depth ≤ depth)
    (tidy : graph.Everywhere Tidy) (done : (splitNested depth graph).answer = .ok count) :
    (splitNested depth graph).graph.Everywhere Quiet := by
  induction depth generalizing graph count with
  | zero =>
      have noBodies : graph.Bodies fun _ => False := by
        intro node member loop runs
        have below := depth_body_lt member runs
        omega
      exact quiet_of_splitWith tidy noBodies (fun _ _ absurd => absurd.elim) done
  | succ depth induction =>
      have bodies : graph.Bodies fun body => body.depth ≤ depth ∧ body.Everywhere Tidy := by
        intro node member loop runs
        have below := depth_body_lt member runs
        exact ⟨by omega, tidy.bodies tidy.here.distinct node member loop runs⟩
      exact quiet_of_splitWith tidy bodies
        (fun _ _ known succeeded => induction known.1 known.2 succeeded) done

end Splitting

section Folding

variable {meaning : Interpretation} {policy : FoldPolicy}

/-- What the fold of every foldable call keeps, a row of folds keeps. -/
theorem foldCalls_invariant {invariant : Graph → Prop}
    (step : ∀ graph call value, invariant graph → call ∈ graph.nodes →
      isFoldable graph policy call = .ok true → invariant (graph.foldedCall call value))
    {fuel count : Nat} {graph folded : Graph} (starts : invariant graph)
    (done : foldCalls meaning policy fuel graph = .ok (folded, count)) : invariant folded := by
  induction fuel generalizing graph folded count with
  | zero =>
      cases done
      exact starts
  | succ fuel induction =>
      obtain ⟨choice, chosen, remaining⟩ := bind_eq_ok.mp done
      cases choice with
      | none =>
          cases remaining
          exact starts
      | some call =>
          obtain ⟨next, folds, afterFold⟩ := bind_eq_ok.mp remaining
          obtain ⟨⟨final, rest⟩, later, ends⟩ := bind_eq_ok.mp afterFold
          cases ends
          obtain ⟨member, foldable⟩ := isFoldable_of_firstFoldable chosen
          obtain ⟨_, value, _, _, rfl⟩ := foldNode_eq_ok folds
          exact induction (step graph call value starts member foldable) later

/-- What every fold keeps, a row of folds keeps. -/
theorem foldCalls_keeps {invariant : Graph → Prop}
    (step : ∀ graph call value, invariant graph → invariant (graph.foldedCall call value))
    {fuel count : Nat} {graph folded : Graph} (starts : invariant graph)
    (done : foldCalls meaning policy fuel graph = .ok (folded, count)) : invariant folded :=
  foldCalls_invariant (fun graph call value holds _ _ => step graph call value holds) starts done

/-- Every fold takes a call away, so the fuel lasts until no call can be folded. -/
theorem unfoldable_of_foldCalls {fuel count : Nat} {graph folded : Graph}
    (enough : callCount graph.nodes ≤ fuel)
    (done : foldCalls meaning policy fuel graph = .ok (folded, count)) :
    ∀ node ∈ folded.nodes, isFoldable folded policy node = .ok false := by
  induction fuel generalizing graph folded count with
  | zero =>
      cases done
      intro node member
      have noCall : node.kind ≠ .call := by
        simpa using List.countP_eq_zero.mp (Nat.le_zero.mp enough) node member
      simp [isFoldable, noCall]
  | succ fuel induction =>
      obtain ⟨choice, chosen, remaining⟩ := bind_eq_ok.mp done
      cases choice with
      | none =>
          cases remaining
          exact firstFoldable_eq_none_iff.mp chosen
      | some call =>
          obtain ⟨next, folds, afterFold⟩ := bind_eq_ok.mp remaining
          obtain ⟨⟨final, rest⟩, later, ends⟩ := bind_eq_ok.mp afterFold
          cases ends
          obtain ⟨member, foldable⟩ := isFoldable_of_firstFoldable chosen
          obtain ⟨_, value, _, _, rfl⟩ := foldNode_eq_ok folds
          have fewer := @callCount_foldedCall_lt graph call value member
            (isFoldable_eq_true_iff.mp foldable).1.kind
          exact induction (by omega) later

theorem reduced_of_foldWith {visit : Graph → Except Fault (Graph × Nat)} {graph folded : Graph}
    {count : Nat} {property : Graph → Prop} (tidy : graph.Everywhere Tidy) (quiet : graph.Quiet)
    (bodies : graph.Bodies property)
    (well : ∀ body other inner, property body → visit body = .ok (other, inner) →
      other.Everywhere (Reduced policy))
    (done : foldWith meaning policy visit graph = .ok (folded, count)) :
    folded.Everywhere (Reduced policy) := by
  obtain ⟨⟨level, calls⟩, levelDone, afterLevel⟩ := bind_eq_ok.mp done
  obtain ⟨⟨nodes, others⟩, bodiesDone, ends⟩ := bind_eq_ok.mp afterLevel
  cases ends
  have distinct : level.ids.Nodup := (advances_foldCalls tidy levelDone).tidy.here.distinct
  have levelBodies : level.Bodies property :=
    foldCalls_keeps (fun _ _ _ => bodies_foldedCall) bodies levelDone
  have reduced : level.Reduced policy :=
    { distinct := distinct
      quiet := foldCalls_keeps (fun _ _ _ => quiet_foldedCall) quiet levelDone
      unfoldable := unfoldable_of_foldCalls (Nat.le_refl _) levelDone }
  have revised := @foldBodies_revised visit (fun _ changed => changed.Everywhere (Reduced policy))
    _ _ _ (fun node member loop runs body inner =>
      well loop.body body inner (levelBodies node member loop runs)) bodiesDone
  refine everywhere_of_visited revised
    (reduced_of_origins (origins_of_revised revised) ?_ ?_ reduced)
  · unfold ids
    rw [ids_revised revised]
    exact distinct
  · intro changed _ id _
    exact kind_of_partners (find?_revised revised id)

/-- Folding that succeeds leaves nothing to fold in any graph of the nest, and nothing
to split where nothing was left to split. -/
theorem reduced_of_foldNested {depth count : Nat} {graph folded : Graph}
    (enough : graph.depth ≤ depth) (tidy : graph.Everywhere Tidy) (quiet : graph.Everywhere Quiet)
    (done : foldNested meaning policy depth graph = .ok (folded, count)) :
    folded.Everywhere (Reduced policy) := by
  induction depth generalizing graph folded count with
  | zero =>
      have noBodies : graph.Bodies fun _ => False := by
        intro node member loop runs
        have below := depth_body_lt member runs
        omega
      exact reduced_of_foldWith tidy quiet.here noBodies (fun _ _ _ absurd => absurd.elim) done
  | succ depth induction =>
      have bodies : graph.Bodies fun body => body.depth ≤ depth ∧ body.Everywhere Tidy ∧
          body.Everywhere Quiet := by
        intro node member loop runs
        have below := depth_body_lt member runs
        have distinct := tidy.here.distinct
        exact ⟨by omega, tidy.bodies distinct node member loop runs,
          quiet.bodies distinct node member loop runs⟩
      apply reduced_of_foldWith tidy quiet.here bodies _ done
      rintro body other inner ⟨shallow, bodyTidy, bodyQuiet⟩ succeeded
      exact induction shallow bodyTidy bodyQuiet succeeded

end Folding

variable {policy : FoldPolicy}

/-- Pruning that succeeds leaves live nodes only, and what was reduced stays so. -/
theorem trimmed_of_pruned {graph pruned : Graph} {count : Nat}
    (reduced : graph.Everywhere (Reduced policy)) (done : graph.pruned = .ok (pruned, count)) :
    pruned.Everywhere (Trimmed policy) := by
  induction graph using bodyInduction generalizing pruned count with
  | step graph induction =>
      have here := reduced.here
      have prunes := prunesTo_of_distinct here.distinct done
      have distinct := prunes.ids.nodup here.distinct
      refine everywhere_of_origins prunes.origins ?_ ?_
      · refine
          { toReduced := reduced_of_origins prunes.origins distinct ?_ here
            exits := prunes.exits ▸ prunes.kept
            keys := ?_
            live := live_of_pruned here.distinct done }
        · intro changed member id isInput
          have present : id ∈ pruned.ids :=
            prunes.linked changed member id (changed.inputs_subset_dependencies isInput)
          obtain ⟨other, foundOther⟩ := exists_find? present
          obtain ⟨node, found, revised⟩ := prunes.origins id other foundOther
          rw [found, foundOther, Option.map_some, Option.map_some, revised.kind_eq]
        · intro changed member loop runs binding bound
          obtain ⟨node, _, revised⟩ := prunes.origins _ changed (find?_of_mem distinct member)
          obtain ⟨held, _, related⟩ := revised.exists_origin runs
          exact (related.mem_bindings.mp bound).2
      · intro id node loop changed found runs related
        obtain ⟨_, bodyDone⟩ := related.body
        exact induction node (mem_of_find? found).1 loop runs (reduced.body found runs) bodyDone

/-- Scheduling changes no dependency, so paths stay what they were. -/
theorem Schedules.live {graph scheduled : Graph} (schedules : graph.Schedules scheduled)
    (distinct : graph.ids.Nodup) (live : graph.Live) : scheduled.Live := by
  have edges : ∀ first second, graph.DependsOn first second →
      scheduled.DependsOn first second := by
    rintro first second ⟨node, member, rfl, needed⟩
    obtain ⟨other, found, revised⟩ := schedules.forward (find?_of_mem distinct member)
    refine ⟨other, (mem_of_find? found).1, revised.id_eq, ?_⟩
    rwa [revised.dependencies_eq fun _ _ related => related.bindings]
  intro id present
  obtain ⟨exit, isExit, path⟩ := live id (schedules.mem_ids_iff.mp present)
  exact ⟨exit, schedules.exits.symm ▸ isExit, Relation.ReflTransGen.mono edges _ _ path⟩

/-- A schedule of a graph in which nothing is left to split, fold or prune is settled. -/
theorem settled_of_scheduled {graph scheduled : Graph}
    (trimmed : graph.Everywhere (Trimmed policy)) (done : graph.scheduled = .ok scheduled) :
    scheduled.Everywhere (Settled policy) := by
  refine everywhere_scheduled (fun _ trimmed => trimmed.distinct) ?_ trimmed done
  intro graph scheduled trimmed done
  have here := trimmed.here
  have schedules := schedules_of_scheduled here.distinct done
  have distinct : scheduled.ids.Nodup := schedules.ids.nodup_iff.mpr here.distinct
  have origin : ∀ changed ∈ scheduled.nodes, ∃ node, graph.find? changed.id = some node ∧
      node.Revised Loop.ScheduledTo changed :=
    fun _ member => schedules.backward (find?_of_mem distinct member)
  have schedulable := schedulable_of_scheduled here.distinct done
  refine
    { toReduced := reduced_of_origins (fun _ _ => schedules.backward) distinct ?_ here.toReduced
      exits := ?_
      keys := ?_
      live := schedules.live here.distinct here.live
      linked := schedulable.linked
      carried := schedulable.carried
      sequenced := schedules.sequenced
      layered := layers_scheduled here.distinct done }
  · intro changed _ id _
    exact kind_of_partners (schedules.nodes id)
  · intro exit isExit
    rw [schedules.exits] at isExit
    exact schedules.mem_ids_iff.mpr (here.exits exit isExit)
  · intro changed member loop runs binding bound
    obtain ⟨node, found, revised⟩ := origin changed member
    obtain ⟨held, runsNode, related⟩ := revised.exists_origin runs
    have inBody := (trimmed.body found runsNode).here
    rw [related.bindings] at bound
    have present := here.keys node (mem_of_find? found).1 held runsNode binding bound
    exact (schedules_of_scheduled inBody.distinct related.body).mem_ids_iff.mpr present

/-- Every stage of optimisation leaves nothing to do for itself and for the stages
before it. -/
theorem settled_of_optimize {meaning : Interpretation} {graph : Graph}
    (tidy : graph.Everywhere Tidy) (done : (graph.optimize meaning policy).answer = .ok ()) :
    (graph.optimize meaning policy).graph.Everywhere (Settled policy) := by
  obtain ⟨⟨drops, simplified⟩, scheduling⟩ := Outcome.andThen_eq_ok done
  obtain ⟨⟨folds, folded⟩, pruning⟩ := Outcome.andThen_eq_ok simplified
  obtain ⟨⟨splits, split⟩, folding⟩ := Outcome.andThen_eq_ok folded
  rw [folding] at folded pruning
  have simplifies : graph.simplify meaning policy =
      (graph.split.graph.foldConstants meaning policy).graph.prune := by
    rw [simplify, folding]
    exact pruning
  have optimizes : graph.optimize meaning policy =
      (graph.split.graph.foldConstants meaning policy).graph.prune.graph.schedule := by
    rw [← simplifies]
    exact scheduling
  rw [simplifies] at simplified
  rw [optimizes] at done ⊢
  have quiet : graph.split.graph.Everywhere Quiet :=
    quiet_of_splitNested (Nat.le_refl _) tidy split
  obtain ⟨_, advances⟩ : ∃ count, graph.Advances graph.split.graph count :=
    exists_advances_splitNested tidy
  have reduced : (graph.split.graph.foldConstants meaning policy).graph.Everywhere
      (Reduced policy) :=
    reduced_of_foldNested (Nat.le_refl _) advances.tidy quiet (foldConstants_eq_ok folded)
  exact settled_of_scheduled (trimmed_of_pruned reduced (prune_eq_ok simplified))
    (schedule_eq_ok done)

/-- The normal form of a graph for a policy, the bodies of its loops apart: operations
that fold their operands have two at most, a call that may be folded has an operand
that is not a constant, the nodes are those that the exits lead to, and every node
stands behind its dependencies. -/
structure Normal (policy : FoldPolicy) (graph : Graph) : Prop where
  narrow : ∀ node ∈ graph.nodes, node.kind = .call → isFolding node.content = true →
    node.inputs.length ≤ 2
  unfoldable : ∀ node ∈ graph.nodes, node.kind = .call → node.inputs ≠ [] →
    policy.allows node.content = .ok true →
    ∃ input ∈ node.inputs, ∃ operand, graph.find? input = some operand ∧
      operand.kind ≠ .constant
  live : ∀ id, id ∈ graph.ids ↔
    ∃ exit ∈ graph.exits, Relation.ReflTransGen graph.DependsOn exit.2 id
  ordered : Sequenced [] graph.nodes

theorem Settled.normal {graph : Graph} (settled : graph.Settled policy) : graph.Normal policy where
  narrow := by
    intro node member kind folding
    have narrow := (Node.event?_eq_none.mp (settled.quiet node member)).2
    simpa [Node.isWide, kind, folding] using narrow
  unfoldable := by
    intro node member kind inputs allowed
    have unfoldable := settled.unfoldable node member
    simp only [isFoldable, kind, inputs, ne_eq, not_true_eq_false, or_self, if_false, allowed]
      at unfoldable
    exact exists_of_areConstants unfoldable
  live := by
    intro id
    constructor
    · exact settled.live id
    · rintro ⟨exit, isExit, path⟩
      exact mem_of_path (fun node member _ => settled.linked node member) path
        (settled.exits exit isExit)
  ordered := settled.sequenced

/-- Optimising a graph brings it and the bodies of its loops into normal form, where
optimising again folds nothing and changes nothing, whatever the operations are. -/
theorem optimize_reaches_normal_form {meaning : Interpretation} {graph : Graph}
    (tidy : graph.Everywhere Tidy) (done : (graph.optimize meaning policy).answer = .ok ()) :
    (graph.optimize meaning policy).graph.Everywhere (Normal policy) ∧
    ∀ other : Interpretation,
      (graph.optimize meaning policy).graph.foldConstants other policy =
        ⟨(graph.optimize meaning policy).graph, .ok 0⟩ ∧
      (graph.optimize meaning policy).graph.optimize other policy =
        ⟨(graph.optimize meaning policy).graph, .ok ()⟩ := by
  have settled := settled_of_optimize tidy done
  refine ⟨settled.mono fun _ => Settled.normal, fun other => ⟨?_, ?_⟩⟩
  · exact foldConstants_unchanged_of_settled settled other
  · exact optimize_unchanged settled other

end Graph

theorem tripling_tidy : tripling.Everywhere Graph.Tidy :=
  fun path body reached =>
    ⟨tripling_wellFormed.distinct path body reached, tripling_numbered path body reached⟩

/-- Optimising splits, folds and prunes in `tripling`; afterwards it succeeds without
any operation. -/
theorem optimized_tripling_normal :
    (tripling.optimize adding .standard).answer = .ok () ∧
    (tripling.optimize adding .standard).graph.Everywhere (Graph.Normal .standard) ∧
    (tripling.optimize adding .standard).graph.optimize knowingNothing .standard =
      ⟨(tripling.optimize adding .standard).graph, .ok ()⟩ := by
  obtain ⟨normal, again⟩ := Graph.optimize_reaches_normal_form tripling_tidy tripling_optimizes
  exact ⟨tripling_optimizes, normal, (again knowingNothing).2⟩

end FlowGraph

import FlowGraph.Proofs.NormalForm
import Mathlib.Data.Finset.Card
import Mathlib.Order.Bounds.Basic

/-!
# The calls that folding takes out of a graph

A set of nodes is closed when it has every allowed call whose operands are constants or in
the set.  Each fold takes a call out that every closed set must have, and the folds end when
no call is left that a closed set would have to take in: so the calls that are gone are the
least closed set, in whatever order they went.  What named one of them names a constant with
its value.
-/

namespace FlowGraph

section Choice

variable {graph : Graph} {policy : FoldPolicy}

theorem exists_allows {node : Node} {foldable : Bool}
    (checked : isFoldable graph policy node = .ok foldable) (kind : node.kind = .call)
    (inputs : node.inputs ≠ []) : ∃ allowed, policy.allows node.content = .ok allowed := by
  rw [isFoldable, if_neg (not_or.mpr ⟨not_not.mpr kind, inputs⟩)] at checked
  obtain ⟨allowed, decided, _⟩ := bind_eq_ok.mp checked
  exact ⟨allowed, decided⟩

theorem areConstants_succeeds {ids : List NodeId} (linked : ∀ id ∈ ids, id ∈ graph.ids) :
    ∃ all, areConstants graph ids = .ok all := by
  induction ids with
  | nil => exact ⟨true, rfl⟩
  | cons id rest induction =>
      obtain ⟨node, found⟩ := Graph.exists_find? (linked id List.mem_cons_self)
      obtain ⟨others, checked⟩ := induction fun later member =>
        linked later (List.mem_cons_of_mem _ member)
      by_cases constant : node.kind = .constant
      · exact ⟨others, bind_eq_ok.mpr ⟨node, Graph.node_eq_ok.mpr found,
          (if_pos constant).trans checked⟩⟩
      · exact ⟨false, bind_eq_ok.mpr ⟨node, Graph.node_eq_ok.mpr found, if_neg constant⟩⟩

theorem isFoldable_succeeds {node : Node}
    (decided : node.kind = .call → node.inputs ≠ [] →
      ∃ allowed, policy.allows node.content = .ok allowed)
    (linked : ∀ id ∈ node.inputs, id ∈ graph.ids) :
    ∃ foldable, isFoldable graph policy node = .ok foldable := by
  unfold isFoldable
  split
  · exact ⟨false, rfl⟩
  · rename_i candidate
    rw [not_or, not_not] at candidate
    obtain ⟨allowed, checked⟩ := decided candidate.1 candidate.2
    cases allowed with
    | false => exact ⟨false, bind_eq_ok.mpr ⟨false, checked, rfl⟩⟩
    | true =>
        obtain ⟨all, constants⟩ := areConstants_succeeds linked
        exact ⟨all, bind_eq_ok.mpr ⟨true, checked, constants⟩⟩

theorem firstFoldable_succeeds {nodes : List Node}
    (each : ∀ node ∈ nodes, ∃ foldable, isFoldable graph policy node = .ok foldable) :
    ∃ choice, firstFoldable graph policy nodes = .ok choice := by
  induction nodes with
  | nil => exact ⟨none, rfl⟩
  | cons node rest induction =>
      obtain ⟨foldable, checked⟩ := each node List.mem_cons_self
      obtain ⟨choice, chosen⟩ := induction fun later member =>
        each later (List.mem_cons_of_mem _ member)
      cases foldable with
      | true => exact ⟨some node, bind_eq_ok.mpr ⟨true, checked, rfl⟩⟩
      | false => exact ⟨choice, bind_eq_ok.mpr ⟨false, checked, chosen⟩⟩

end Choice

/-- The node with other numbers for the nodes that it depends on. -/
def Node.moved (place : NodeId → NodeId) (node : Node) : Node :=
  { node with
    inputs := node.inputs.map place
    content :=
      match node.loop? with
      | some loop => .loop { loop with
          bindings := loop.bindings.map fun (key, source) => (key, place source) }
      | none => node.content }

namespace Node

variable {place : NodeId → NodeId} {node : Node}

theorem moved_content (noLoop : node.loop? = none) :
    (node.moved place).content = node.content := by
  simp [moved, noLoop]

theorem moved_loop? {loop : Loop} (runs : node.loop? = some loop) :
    (node.moved place).loop? = some { loop with
      bindings := loop.bindings.map fun (key, source) => (key, place source) } :=
  loop?_eq_some.mpr ⟨(loop?_eq_some.mp runs).1, by simp [moved, runs]⟩

theorem moved_loop?_eq_none (noLoop : node.loop? = none) : (node.moved place).loop? = none := by
  have sameKind : (node.moved place).kind = node.kind := rfl
  unfold loop? at noLoop ⊢
  rw [sameKind, moved_content noLoop]
  exact noLoop

theorem moved_id : node.moved (fun id => id) = node := by
  obtain ⟨id, kind, content, inputs, result⟩ := node
  cases runs : Node.loop? ⟨id, kind, content, inputs, result⟩ with
  | none => simp [moved, runs]
  | some loop =>
      obtain ⟨tag, index, body, bindings⟩ := loop
      cases (loop?_eq_some.mp runs).2
      simp [moved, runs]

theorem fused_moved (keep remove : NodeId) :
    (node.moved place).fused keep remove =
      node.moved fun id => redirect keep remove (place id) := by
  cases runs : node.loop? with
  | none =>
      simp only [fused, moved_loop?_eq_none runs]
      simp [moved, runs, Function.comp_def]
  | some loop =>
      simp only [fused, moved_loop? runs]
      simp [moved, runs, Loop.redirectBindings, Function.comp_def]

theorem candidate_moved {policy : FoldPolicy} :
    (node.moved place).Candidate policy ↔ node.Candidate policy := by
  have sameKind : (node.moved place).kind = node.kind := rfl
  have content : node.kind = .call → (node.moved place).content = node.content :=
    fun kind => moved_content (loop?_eq_none_of_kind (by simp [kind]))
  constructor
  · intro candidate
    have kind : node.kind = .call := candidate.kind
    refine ⟨kind, ?_, content kind ▸ candidate.allowed⟩
    intro empty
    exact candidate.inputs (by simp [moved, empty])
  · intro candidate
    refine ⟨candidate.kind, ?_, (content candidate.kind).symm ▸ candidate.allowed⟩
    simpa [moved] using candidate.inputs

end Node

namespace Graph

/-- The number of a constant. -/
def IsConstant (graph : Graph) (id : NodeId) : Prop :=
  ∃ node, graph.find? id = some node ∧ node.kind = .constant

/-- A set that has every allowed call whose operands are constants or in the set. -/
def FoldClosed (policy : FoldPolicy) (graph : Graph) (calls : Set NodeId) : Prop :=
  ∀ id node, graph.find? id = some node → node.Candidate policy →
    (∀ input ∈ node.inputs, graph.IsConstant input ∨ input ∈ calls) → id ∈ calls

/-- What is left of a graph when the calls in `gone` gave way to constants: what named such
a call names its place now. -/
structure FoldedBy (meaning : Interpretation) (policy : FoldPolicy) (graph : Graph)
    (gone : Finset NodeId) (place : NodeId → NodeId) (current : Graph) : Prop where
  exact : current.Exact
  numbered : current.Numbered
  nextId : graph.nextId ≤ current.nextId
  kept : ∀ id, id ∉ gone → place id = id
  calls : ∀ id ∈ gone, ∃ node, graph.find? id = some node ∧ node.kind = .call
  places : ∀ id ∈ gone, graph.nextId ≤ place id ∧ place id < current.nextId
  values : ∀ id ∈ gone, ∃ value, (∀ scope, Denotes meaning graph scope id value) ∧
    ∀ other, current.find? (place id) = some other →
      other = ⟨place id, .constant, value, [], unsetResult⟩
  origins : ∀ id other, current.find? id = some other →
    (∃ node, graph.find? id = some node ∧ id ∉ gone ∧ other = node.moved place) ∨
      id ∉ graph.ids ∧ other.kind = .constant
  survives : ∀ id node, graph.find? id = some node → id ∉ gone →
    id ∈ current.ids ∨ node.kind = .constant
  exits : current.exits = graph.exits.map fun (name, id) => (name, place id)
  denotes : ∀ scope id value, id ∈ graph.ids → id ∈ current.ids →
    (Denotes meaning current scope id value ↔ Denotes meaning graph scope id value)
  forced : ∀ calls, graph.FoldClosed policy calls → ∀ id ∈ gone, id ∈ calls

namespace FoldedBy

variable {meaning : Interpretation} {policy : FoldPolicy} {graph current folded : Graph}
  {gone : Finset NodeId} {place : NodeId → NodeId} {call : Node} {value : Value}

theorem refl (exact : graph.Exact) (numbered : graph.Numbered) :
    graph.FoldedBy meaning policy ∅ (fun id => id) graph where
  exact := exact
  numbered := numbered
  nextId := le_refl _
  kept := fun _ _ => rfl
  calls := by simp
  places := by simp
  values := by simp
  origins := fun _ other found => .inl ⟨other, found, by simp, Node.moved_id.symm⟩
  survives := fun _ _ found _ => .inl (mem_ids_of_find? found)
  exits := (List.map_id' _).symm
  denotes := fun _ _ _ _ _ => Iff.rfl
  forced := by simp

section Stage

variable (stage : graph.FoldedBy meaning policy gone place current)
include stage

/-- A node of the graph that is still there names the places of what it named. -/
theorem found_moved {id : NodeId} {node other : Node} (found : graph.find? id = some node)
    (foundOther : current.find? id = some other) : id ∉ gone ∧ other = node.moved place := by
  rcases stage.origins id other foundOther with ⟨origin, foundOrigin, stays, same⟩ | ⟨isNew, _⟩
  · cases found.symm.trans foundOrigin
    exact ⟨stays, same⟩
  · exact absurd (mem_ids_of_find? found) isNew

theorem find?_moved {id : NodeId} {node : Node} (found : graph.find? id = some node)
    (stays : id ∉ gone) (computed : node.kind ≠ .constant) :
    current.find? id = some (node.moved place) := by
  obtain ⟨other, foundOther⟩ :=
    exists_find? ((stage.survives id node found stays).resolve_right computed)
  rw [foundOther, (stage.found_moved found foundOther).2]

/-- A call that is still there is a call of the graph. -/
theorem exists_call {id : NodeId} {other : Node} (foundOther : current.find? id = some other)
    (kind : other.kind = .call) :
    ∃ node, graph.find? id = some node ∧ id ∉ gone ∧ other = node.moved place := by
  rcases stage.origins id other foundOther with origin | ⟨_, constant⟩
  · exact origin
  · cases kind.symm.trans constant

/-- The place of a node holds a constant when the node was one or is gone. -/
theorem isConstant_place_iff (linked : ∀ node ∈ graph.nodes, ∀ id ∈ node.dependencies,
      id ∈ graph.ids) {node : Node} (member : node ∈ graph.nodes) {input : NodeId}
    (isInput : input ∈ node.inputs) (present : place input ∈ current.ids) :
    current.IsConstant (place input) ↔ graph.IsConstant input ∨ input ∈ gone := by
  obtain ⟨other, foundOther⟩ := exists_find? present
  by_cases isGone : input ∈ gone
  · obtain ⟨value, _, held⟩ := stage.values input isGone
    refine ⟨fun _ => .inr isGone, fun _ => ⟨other, foundOther, ?_⟩⟩
    rw [held other foundOther]
  · have inGraph := linked node member input (node.inputs_subset_dependencies isInput)
    obtain ⟨operand, found⟩ := exists_find? inGraph
    rw [stage.kept input isGone] at foundOther ⊢
    have same := (stage.found_moved found foundOther).2
    constructor
    · rintro ⟨again, foundAgain, constant⟩
      cases foundOther.symm.trans foundAgain
      rw [same] at constant
      exact .inl ⟨operand, found, constant⟩
    · intro either
      obtain ⟨again, foundAgain, constant⟩ := either.resolve_right isGone
      cases found.symm.trans foundAgain
      exact ⟨other, foundOther, same ▸ constant⟩

/-- A foldable call is in every closed set that has the calls which are gone. -/
theorem forced_call (exact : graph.Exact) {calls : Set NodeId}
    (closed : graph.FoldClosed policy calls) (foundCall : current.find? call.id = some call)
    (foldable : isFoldable current policy call = .ok true) : call.id ∈ calls := by
  obtain ⟨candidate, constants⟩ := isFoldable_eq_true_iff.mp foldable
  obtain ⟨node, found, _, same⟩ := stage.exists_call foundCall candidate.kind
  have inputs : call.inputs = node.inputs.map place := congrArg Node.inputs same
  rw [same, Node.candidate_moved] at candidate
  refine closed call.id node found candidate ?_
  intro input isInput
  obtain ⟨operand, foundOperand, constant⟩ :=
    constants (place input) (inputs ▸ List.mem_map_of_mem isInput)
  have either := (stage.isConstant_place_iff exact.linked (mem_of_find? found).1 isInput
    (mem_ids_of_find? foundOperand)).mp ⟨operand, foundOperand, constant⟩
  exact either.imp_right (stage.forced calls closed input)

theorem nextId_notMem (numbered : graph.Numbered) : current.nextId ∉ graph.ids := fun old =>
  absurd (numbered _ old) (not_lt.mpr stage.nextId)

variable (numbered : graph.Numbered) (fold : current.FoldsCall meaning folded call value)
include fold

theorem call_mem_ids : call.id ∈ graph.ids ∧ call.id ∉ gone := by
  obtain ⟨node, found, stays, _⟩ := stage.exists_call fold.found fold.kind
  exact ⟨mem_ids_of_find? found, stays⟩

theorem place_of_call : redirect current.nextId call.id (place call.id) = current.nextId := by
  rw [stage.kept call.id (stage.call_mem_ids fold).2, redirect_self]

theorem survives_after {id : NodeId} {node : Node} (found : graph.find? id = some node)
    (stays : id ∉ insert call.id gone) : id ∈ folded.ids ∨ node.kind = .constant := by
  rw [Finset.mem_insert, not_or] at stays
  by_cases constant : node.kind = .constant
  · exact .inr constant
  · have foundMoved := stage.find?_moved found stays.2 constant
    rcases fold.dropped id _ foundMoved with present | isCall | isConstant
    · exact .inl present
    · exact absurd isCall stays.1
    · exact absurd isConstant constant

include numbered

/-- The places of what went before are above the numbers of the graph, so the call is not
one of them. -/
theorem place_of_gone {id : NodeId} (isGone : id ∈ gone) :
    redirect current.nextId call.id (place id) = place id := by
  apply redirect_of_ne
  intro isCall
  have below := numbered _ (stage.call_mem_ids fold).1
  exact absurd below (not_lt.mpr (isCall ▸ (stage.places id isGone).1))

theorem old_of_folded {id : NodeId} (inGraph : id ∈ graph.ids) (inFolded : id ∈ folded.ids) :
    id ≠ call.id ∧ id ∈ current.ids := by
  obtain ⟨other, foundOther⟩ := exists_find? inFolded
  rcases fold.origins id other foundOther with rfl | ⟨before, foundBefore, different, _⟩
  · exact absurd inGraph (stage.nextId_notMem numbered)
  · exact ⟨different, mem_ids_of_find? foundBefore⟩

theorem values_after {id : NodeId} (isGone : id ∈ insert call.id gone) :
    ∃ value, (∀ scope, Denotes meaning graph scope id value) ∧
      ∀ other, folded.find? (redirect current.nextId call.id (place id)) = some other →
        other = ⟨redirect current.nextId call.id (place id), .constant, value, [], unsetResult⟩ := by
  rcases Finset.mem_insert.mp isGone with rfl | before
  · refine ⟨value, ?_, ?_⟩
    · intro scope
      exact (stage.denotes scope call.id value (stage.call_mem_ids fold).1
        (mem_ids_of_find? fold.found)).mp (fold.denotes scope)
    · intro other foundOther
      rw [stage.place_of_call fold] at foundOther ⊢
      exact Option.some.inj (foundOther.symm.trans fold.literal)
  · obtain ⟨known, denotes, held⟩ := stage.values id before
    refine ⟨known, denotes, ?_⟩
    intro other foundOther
    rw [stage.place_of_gone numbered fold before] at foundOther ⊢
    rcases fold.origins _ other foundOther with isNew | ⟨origin, foundOrigin, _, rfl⟩
    · exact absurd isNew (ne_of_lt (stage.places id before).2)
    · rw [held origin foundOrigin]
      rfl

theorem origins_after {id : NodeId} {other : Node} (foundOther : folded.find? id = some other) :
    (∃ node, graph.find? id = some node ∧ id ∉ insert call.id gone ∧
      other = node.moved fun id => redirect current.nextId call.id (place id)) ∨
      id ∉ graph.ids ∧ other.kind = .constant := by
  rcases fold.origins id other foundOther with rfl | ⟨before, foundBefore, different, rfl⟩
  · refine .inr ⟨stage.nextId_notMem numbered, ?_⟩
    rw [Option.some.inj (foundOther.symm.trans fold.literal)]
  · rcases stage.origins id before foundBefore with ⟨node, found, stays, rfl⟩ | ⟨isNew, constant⟩
    · refine .inl ⟨node, found, ?_, Node.fused_moved _ _⟩
      rw [Finset.mem_insert, not_or]
      exact ⟨different, stays⟩
    · exact .inr ⟨isNew, constant⟩

theorem denotes_after {scope : Scope} {id : NodeId} {result : Value} (inGraph : id ∈ graph.ids)
    (inFolded : id ∈ folded.ids) :
    Denotes meaning folded scope id result ↔ Denotes meaning graph scope id result := by
  obtain ⟨different, inCurrent⟩ := stage.old_of_folded numbered fold inGraph inFolded
  rw [← stage.denotes scope id result inGraph inCurrent]
  constructor
  · intro denotes
    have notNew : id ≠ current.nextId := by
      rintro rfl
      exact stage.nextId_notMem numbered inGraph
    have passed := fold.backward stage.exact.linked denotes
    rwa [redirect_of_ne notNew] at passed
  · intro denotes
    have passed := fold.forward denotes (by rwa [redirect_of_ne different])
    rwa [redirect_of_ne different] at passed

/-- One more fold. -/
theorem step (exact : graph.Exact) (foldable : isFoldable current policy call = .ok true) :
    graph.FoldedBy meaning policy (insert call.id gone)
      (fun id => redirect current.nextId call.id (place id)) folded where
  exact := fold.exact stage.exact
  numbered := fold.numbered stage.numbered
  nextId := fold.nextId ▸ stage.nextId.trans (le_of_lt (Int.lt_succ _))
  kept := by
    intro id notGone
    rw [Finset.mem_insert, not_or] at notGone
    rw [stage.kept id notGone.2, redirect_of_ne notGone.1]
  calls := by
    intro id isGone
    rcases Finset.mem_insert.mp isGone with rfl | before
    · obtain ⟨node, found, _, same⟩ := stage.exists_call fold.found fold.kind
      exact ⟨node, found, (congrArg Node.kind same).symm.trans fold.kind⟩
    · exact stage.calls id before
  places := by
    intro id isGone
    rw [fold.nextId]
    rcases Finset.mem_insert.mp isGone with rfl | before
    · rw [stage.place_of_call fold]
      exact ⟨stage.nextId, Int.lt_succ _⟩
    · rw [stage.place_of_gone numbered fold before]
      exact ⟨(stage.places id before).1, (stage.places id before).2.trans (Int.lt_succ _)⟩
  values := fun _ => stage.values_after numbered fold
  origins := fun _ _ => stage.origins_after numbered fold
  survives := fun _ _ => stage.survives_after fold
  exits := by
    rw [fold.exits, stage.exits, List.map_map]
    rfl
  denotes := fun _ _ _ => stage.denotes_after numbered fold
  forced := by
    intro calls closed id isGone
    rcases Finset.mem_insert.mp isGone with rfl | before
    · exact stage.forced_call exact closed fold.found foldable
    · exact stage.forced calls closed id before

end Stage

section Run

variable (returns : meaning.ReturnsNoLoop) (exact : graph.Exact) (numbered : graph.Numbered)
include exact

/-- When no call can be folded any more, the calls that are gone are a closed set. -/
theorem closed_of_unfoldable (stage : graph.FoldedBy meaning policy gone place current)
    (unfoldable : ∀ node ∈ current.nodes, isFoldable current policy node = .ok false) :
    graph.FoldClosed policy gone := by
  intro id node found candidate operands
  by_contra stays
  have computed : node.kind ≠ .constant := by simp [candidate.kind]
  have foundMoved := stage.find?_moved found stays computed
  have member := (mem_of_find? foundMoved).1
  have constants : ∀ input ∈ (node.moved place).inputs, ∃ operand,
      current.find? input = some operand ∧ operand.kind = .constant := by
    intro input isInput
    have present := stage.exact.linked _ member input
      (Node.inputs_subset_dependencies _ isInput)
    obtain ⟨original, isOriginal, rfl⟩ := List.mem_map.mp isInput
    exact (stage.isConstant_place_iff exact.linked (mem_of_find? found).1 isOriginal
      present).mpr (operands original isOriginal)
  have foldable := isFoldable_eq_true_iff.mpr ⟨Node.candidate_moved.mpr candidate, constants⟩
  cases foldable.symm.trans (unfoldable _ member)

include returns numbered

/-- A row of folds, until no call can be folded or the fuel is used up. -/
theorem exists_of_foldCalls {fuel count : Nat}
    (stage : graph.FoldedBy meaning policy gone place current)
    (done : foldCalls meaning policy fuel current = .ok (folded, count)) :
    ∃ all final, graph.FoldedBy meaning policy all final folded ∧ all.card = gone.card + count := by
  induction fuel generalizing current gone place count with
  | zero =>
      cases done
      exact ⟨gone, place, stage, rfl⟩
  | succ fuel induction =>
      obtain ⟨choice, chosen, remaining⟩ := bind_eq_ok.mp done
      cases choice with
      | none =>
          cases remaining
          exact ⟨gone, place, stage, rfl⟩
      | some call =>
          obtain ⟨next, folds, afterFold⟩ := bind_eq_ok.mp remaining
          obtain ⟨⟨final, rest⟩, later, ends⟩ := bind_eq_ok.mp afterFold
          cases ends
          obtain ⟨member, foldable⟩ := isFoldable_of_firstFoldable chosen
          obtain ⟨candidate, constants⟩ := isFoldable_eq_true_iff.mp foldable
          obtain ⟨value, fold⟩ := foldsCall_of_foldNode returns stage.exact stage.numbered member
            candidate.kind constants folds
          obtain ⟨all, places, ended, size⟩ :=
            induction (stage.step numbered fold exact foldable) later
          refine ⟨all, places, ended, ?_⟩
          rw [size, Finset.card_insert_of_notMem (stage.call_mem_ids fold).2]
          omega

end Run

end FoldedBy

/-- The least set that has every allowed call whose operands are constants or in the set. -/
def constantClosure (policy : FoldPolicy) (graph : Graph) : Set NodeId :=
  { id | ∀ calls, graph.FoldClosed policy calls → id ∈ calls }

/-- What folding needs to come to its end: the policy knows every call with operands, and
the calls that are built from constants alone have values. -/
structure Calculable (meaning : Interpretation) (policy : FoldPolicy) (graph : Graph) : Prop where
  decided : ∀ node ∈ graph.nodes, node.kind = .call → node.inputs ≠ [] →
    ∃ allowed, policy.allows node.content = .ok allowed
  valued : ∀ id ∈ graph.constantClosure policy, ∃ value,
    ∀ scope, Denotes meaning graph scope id value

namespace FoldedBy

variable {meaning : Interpretation} {policy : FoldPolicy} {graph current : Graph}
  {gone : Finset NodeId} {place : NodeId → NodeId}
  (stage : graph.FoldedBy meaning policy gone place current)
include stage

/-- Folding leaves the loops where they are, with the bodies that they have. -/
theorem loops (id : NodeId) :
    Option.Rel (fun loop changed => changed.body = loop.body)
      ((graph.find? id).bind Node.loop?) ((current.find? id).bind Node.loop?) := by
  have unheld : ∀ {other : Node}, current.find? id = some other →
      (∀ node, graph.find? id = some node → node.loop? = none) → other.loop? = none := by
    intro other foundOther noLoop
    rcases stage.origins id other foundOther with ⟨node, found, _, rfl⟩ | ⟨_, constant⟩
    · exact Node.moved_loop?_eq_none (noLoop node found)
    · exact Node.loop?_eq_none_of_kind (by simp [constant])
  cases runs : (graph.find? id).bind Node.loop? with
  | some loop =>
      obtain ⟨node, found, runsNode⟩ := Option.bind_eq_some_iff.mp runs
      have kind := (Node.loop?_eq_some.mp runsNode).1
      have stays : id ∉ gone := by
        intro isGone
        obtain ⟨call, foundCall, isCall⟩ := stage.calls id isGone
        cases found.symm.trans foundCall
        cases kind.symm.trans isCall
      rw [stage.find?_moved found stays (by simp [kind]), Option.bind_some,
        Node.moved_loop? runsNode]
      exact .some rfl
  | none =>
      have noLoop : ∀ node, graph.find? id = some node → node.loop? = none := by
        intro node found
        rwa [found, Option.bind_some] at runs
      cases foundOther : current.find? id with
      | none => exact .none
      | some other =>
          rw [Option.bind_some, unheld foundOther noLoop]
          exact .none

theorem bodies {property : Graph → Prop} (bodies : graph.Bodies property) :
    current.Bodies property := by
  intro node member loop runs
  have found := find?_of_mem stage.exact.distinct member
  obtain ⟨before, held, same⟩ := exists_partnered (stage.loops node.id)
    (Option.bind_eq_some_iff.mpr ⟨node, found, runs⟩)
  obtain ⟨origin, foundOrigin, runsOrigin⟩ := Option.bind_eq_some_iff.mp held
  rw [same]
  exact bodies origin (mem_of_find? foundOrigin).1 before runsOrigin

variable (closed : graph.FoldClosed policy gone)
include closed

theorem isLeast : IsLeast { calls | graph.FoldClosed policy calls } (gone : Set NodeId) :=
  ⟨closed, fun calls isClosed id isGone => stage.forced calls isClosed id isGone⟩

theorem constantClosure_eq : graph.constantClosure policy = gone := by
  apply Set.Subset.antisymm
  · intro id forced
    exact forced gone closed
  · intro id isGone calls isClosed
    exact stage.forced calls isClosed id isGone

/-- Folding that came to its end had all it needs. -/
theorem calculable
    (unfoldable : ∀ node ∈ current.nodes, isFoldable current policy node = .ok false)
    (distinct : graph.ids.Nodup) : graph.Calculable meaning policy where
  decided := by
    intro node member kind inputs
    have found := find?_of_mem distinct member
    by_cases isGone : node.id ∈ gone
    · -- The allowed calls are a closed set, so they have all calls that are gone.
      have allowed : graph.FoldClosed policy
          { id | ∃ node, graph.find? id = some node ∧ node.Candidate policy } :=
        fun id node found candidate _ => ⟨node, found, candidate⟩
      obtain ⟨again, foundAgain, candidate⟩ := stage.forced _ allowed node.id isGone
      cases found.symm.trans foundAgain
      exact ⟨true, candidate.allowed⟩
    · have foundMoved := stage.find?_moved found isGone (by simp [kind])
      have content : (node.moved place).content = node.content :=
        Node.moved_content (Node.loop?_eq_none_of_kind (by simp [kind]))
      rw [← content]
      refine exists_allows (unfoldable _ (mem_of_find? foundMoved).1) kind ?_
      simpa [Node.moved] using inputs
  valued := by
    intro id forced
    rw [stage.constantClosure_eq closed] at forced
    obtain ⟨value, denotes, _⟩ := stage.values id forced
    exact ⟨value, denotes⟩

end FoldedBy

/-- A call that is still there and can be folded computes its value. -/
theorem FoldedBy.foldNode_succeeds {meaning : Interpretation} {policy : FoldPolicy}
    {graph current : Graph} {gone : Finset NodeId} {place : NodeId → NodeId} {call : Node}
    (stage : graph.FoldedBy meaning policy gone place current) (returns : meaning.ReturnsNoLoop)
    (exact : graph.Exact) (calculable : graph.Calculable meaning policy)
    (member : call ∈ current.nodes) (foldable : isFoldable current policy call = .ok true) :
    ∃ folded, foldNode meaning current call = .ok folded := by
  obtain ⟨candidate, constants⟩ := isFoldable_eq_true_iff.mp foldable
  have found := find?_of_mem stage.exact.distinct member
  obtain ⟨node, foundNode, _, _⟩ := stage.exists_call found candidate.kind
  have forced : call.id ∈ graph.constantClosure policy := fun calls closed =>
    stage.forced_call exact closed found foldable
  obtain ⟨value, denotes⟩ := calculable.valued call.id forced
  have noLoop : call.loop? = none := Node.loop?_eq_none_of_kind (by simp [candidate.kind])
  have current := (stage.denotes (fun _ => none) call.id value (mem_ids_of_find? foundNode)
    (mem_ids_of_find? found)).mpr (denotes _)
  obtain ⟨values, reads, computed⟩ := current.values_of_plain found noLoop
  have isRead : call.reads = call.inputs := by simp [Node.reads, candidate.kind]
  rw [isRead] at reads
  rw [Node.valueFrom_call candidate.kind] at computed
  exact ⟨_, foldNode_of_call stage.exact.distinct stage.exact.carried stage.numbered member
    (contentsOf_eq_ok constants reads) computed fun loop isLoop =>
      returns _ _ loop (isLoop ▸ computed)⟩

/-- Folding comes to its end where calls have values. -/
theorem FoldedBy.foldCalls_succeeds {meaning : Interpretation} {policy : FoldPolicy}
    {graph current : Graph} {gone : Finset NodeId} {place : NodeId → NodeId}
    (stage : graph.FoldedBy meaning policy gone place current) (returns : meaning.ReturnsNoLoop)
    (exact : graph.Exact) (numbered : graph.Numbered)
    (calculable : graph.Calculable meaning policy) (fuel : Nat) :
    ∃ result, foldCalls meaning policy fuel current = .ok result := by
  induction fuel generalizing current gone place with
  | zero => exact ⟨(current, 0), rfl⟩
  | succ fuel induction =>
      have each : ∀ node ∈ current.nodes,
          ∃ foldable, isFoldable current policy node = .ok foldable := by
        intro node member
        apply isFoldable_succeeds
        · intro kind inputs
          have found := find?_of_mem stage.exact.distinct member
          obtain ⟨original, foundOriginal, _, rfl⟩ := stage.exists_call found kind
          have isCall : original.kind = .call := kind
          rw [Node.moved_content (Node.loop?_eq_none_of_kind (by simp [isCall]))]
          exact calculable.decided original (mem_of_find? foundOriginal).1 isCall
            (by simpa [Node.moved] using inputs)
        · intro id isInput
          exact stage.exact.linked node member id (node.inputs_subset_dependencies isInput)
      obtain ⟨choice, chosen⟩ := firstFoldable_succeeds each
      cases choice with
      | none => exact ⟨(current, 0), bind_eq_ok.mpr ⟨none, chosen, rfl⟩⟩
      | some call =>
          obtain ⟨member, foldable⟩ := isFoldable_of_firstFoldable chosen
          obtain ⟨candidate, constants⟩ := isFoldable_eq_true_iff.mp foldable
          obtain ⟨next, folds⟩ := stage.foldNode_succeeds returns exact calculable member foldable
          obtain ⟨value, fold⟩ := foldsCall_of_foldNode returns stage.exact stage.numbered member
            candidate.kind constants folds
          obtain ⟨⟨final, count⟩, later⟩ := induction (stage.step numbered fold exact foldable)
          exact ⟨(final, count + 1), bind_eq_ok.mpr ⟨some call, chosen,
            bind_eq_ok.mpr ⟨next, folds, bind_eq_ok.mpr ⟨(final, count), later, rfl⟩⟩⟩⟩

end Graph

end FlowGraph

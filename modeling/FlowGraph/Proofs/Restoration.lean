import FlowGraph.Proofs.Lifetimes
import FlowGraph.Proofs.Rearrangement
import FlowGraph.Proofs.Transactions

/-!
# Failed transactions

A transaction keeps a copy of its graph, and its changes are seen while it runs.  The
loops that the copy holds have tags that no other loop has, so no change in between
reaches them, and after a fault the copy still has the state of the beginning, wherever
the fault came (`Session.transact_spec`).  A graph that holds no loop of the transaction
keeps its state whether the transaction succeeds or not (`Session.restores_elsewhere`).

Splicing puts its source in order before its transaction begins, and comes to what
`Graph.splice` does (`Session.spliceFrom_spec`).  What the source and the destination share
is seen in its new order in both; a destination that shares nothing with the source is
restored.
-/

namespace FlowGraph

/-- All loops of a graph have tags below a bound. -/
def Graph.Issued (bound : Nat) (graph : Graph) : Prop :=
  ∀ tag, bound ≤ tag → graph.Avoids tag

/-- No value that an interpretation gives brings in a tag from a bound on. -/
def Interpretation.Issued (bound : Nat) (meaning : Interpretation) : Prop :=
  ∀ tag, bound ≤ tag → meaning.Avoids tag

theorem Graph.Issued.held {bound : Nat} {graph : Graph} (issued : graph.Issued bound) :
    ∀ loop ∈ graph.held, loop.tag < bound := by
  intro loop member
  by_contra beyond
  exact issued loop.tag (Nat.le_of_not_lt beyond) loop (graph.held_subset member) rfl

namespace Tagged

variable {entry other : Tagged} {tag : Nat} {graph : Graph}

/-- The tags that belong to a graph: its own one and those of the loops that it holds. -/
def owns (entry : Tagged) : List Nat :=
  entry.tag :: entry.graph.held.map Loop.tag

/-- Two graphs of which neither is the other one or is held by it, and no loop is held
by both. -/
def SeparateFrom (entry other : Tagged) : Prop :=
  entry.owns.Disjoint other.owns

theorem SeparateFrom.of_subset {third : Tagged} (separate : entry.SeparateFrom other)
    (among : third.owns ⊆ other.owns) : entry.SeparateFrom third :=
  List.disjoint_of_subset_right among separate

theorem tag_mem_owns (loop : Loop) (held : loop ∈ entry.graph.held) : loop.tag ∈ entry.owns :=
  List.mem_cons_of_mem _ (List.mem_map_of_mem held)

theorem mem_owns {found : Nat} :
    found ∈ entry.owns ↔ found = entry.tag ∨ ∃ loop ∈ entry.graph.held, loop.tag = found := by
  simp [owns]

theorem owns_settled (tag : Nat) (graph : Graph) :
    (⟨tag, graph.settled⟩ : Tagged).owns = (⟨tag, graph⟩ : Tagged).owns := by
  simp only [owns, graph.tags_settled]

theorem put_self (entry : Tagged) (graph : Graph) :
    Tagged.put entry.tag graph entry = ⟨entry.tag, graph⟩ := by
  rw [put, if_pos rfl]

section Separate

variable (separate : entry.SeparateFrom ⟨tag, graph⟩)
include separate

theorem SeparateFrom.shows_eq_none : ∀ loop ∈ entry.graph.held, graph.shows tag loop = none := by
  intro loop member
  have own := tag_mem_owns loop member
  apply Graph.shows_eq_none
  · intro same
    exact separate own (same ▸ List.mem_cons_self)
  · intro found held same
    exact separate own (same ▸ @tag_mem_owns ⟨tag, graph⟩ found held)

theorem put_of_separate :
    entry.put tag graph = ⟨entry.tag, entry.graph.revise (graph.shows tag)⟩ := by
  have different : entry.tag ≠ tag := fun same =>
    separate List.mem_cons_self (same ▸ List.mem_cons_self)
  have notHeld : (graph.held.find? fun loop => loop.tag == entry.tag) = none := by
    rw [List.find?_eq_none]
    intro loop member same
    exact separate List.mem_cons_self
      (beq_iff_eq.mp same ▸ @tag_mem_owns ⟨tag, graph⟩ loop member)
  simp only [put, if_neg different, notHeld]

/-- A graph keeps its state when a separate one changes. -/
theorem state_put : (entry.put tag graph).graph.state = entry.graph.state := by
  rw [put_of_separate separate]
  exact entry.graph.state_revise (graph.keepsTags_shows tag) separate.shows_eq_none

theorem owns_put : (entry.put tag graph).owns = entry.owns := by
  rw [put_of_separate separate, owns, owns, entry.graph.held_revise separate.shows_eq_none]

end Separate

end Tagged

namespace Session

variable {session : Session} {name other : String} {entry third : Tagged} {fault : Fault}

/-- The tags of all graphs and loops that names lead to have been given out. -/
def Issued (session : Session) : Prop :=
  ∀ name entry, session.graphs.lookup name = some entry →
    entry.tag < session.nextTag ∧ entry.graph.Issued session.nextTag

theorem Issued.owns (issued : session.Issued) (known : session.graphs.lookup name = some entry) :
    ∀ tag ∈ entry.owns, tag < session.nextTag := by
  intro tag member
  rcases Tagged.mem_owns.mp member with rfl | ⟨loop, held, rfl⟩
  · exact (issued name entry known).1
  · exact (issued name entry known).2.held loop held

/-- A name stands for a graph with the tag and the state of a given one. -/
def Restores (session : Session) (name : String) (entry : Tagged) : Prop :=
  ∃ restored, session.graphs.lookup name = some ⟨entry.tag, restored⟩ ∧
    restored.state = entry.graph.state

theorem lookup_put (session : Session) (tag : Nat) (graph : Graph) (name : String) :
    (session.put tag graph).graphs.lookup name =
      (session.graphs.lookup name).map (Tagged.put tag graph.settled) :=
  lookup_map_snd (Tagged.put tag graph.settled) session.graphs name

theorem restores_put_self (known : session.graphs.lookup name = some entry) (graph : Graph) :
    (session.put entry.tag graph).Restores name ⟨entry.tag, graph⟩ := by
  refine ⟨graph.settled, ?_, graph.state_settled⟩
  rw [lookup_put, known, Option.map_some, Tagged.put_self]

/-- A graph keeps its state in a change of a separate one, and its tags with it. -/
theorem restores_put {tag : Nat} {graph : Graph} (known : session.graphs.lookup name = some entry)
    (separate : entry.SeparateFrom ⟨tag, graph⟩) :
    ∃ next : Tagged, (session.put tag graph).graphs.lookup name = some next ∧
      next.tag = entry.tag ∧ next.graph.state = entry.graph.state ∧ next.owns = entry.owns := by
  have apart : entry.SeparateFrom ⟨tag, graph.settled⟩ :=
    separate.of_subset (Tagged.owns_settled tag graph ▸ List.Subset.refl _)
  refine ⟨entry.put tag graph.settled, ?_, entry.put_tag tag graph.settled,
    Tagged.state_put apart, Tagged.owns_put apart⟩
  rw [lookup_put, known, Option.map_some]

section Blocks

variable {α : Type} {reply : α → Reply} {block : Outcome α}

/-- The copy that a transaction keeps, after the changes of its block were seen. -/
def savedBehind (session : Session) (entry : Tagged) (block : Outcome α) : Graph :=
  (entry.graph.renew session.nextTag).1.revise (block.graph.settled.shows entry.tag)

theorem transact_of_ok {value : α} (done : block.answer = .ok value) :
    (session.transact entry reply block).1.graphs =
      ((session.begin entry).put entry.tag block.graph).graphs := by
  simp only [transact, done, begin, put, close, List.map_cons, Except.isOk, Except.toBool,
    Bool.not_true, Bool.false_eq_true, if_false]

theorem transact_of_error (failed : block.answer = .error fault) :
    (session.transact entry reply block).1.graphs =
      (((session.begin entry).put entry.tag block.graph).put entry.tag
        (session.savedBehind entry block)).graphs := by
  simp only [transact, failed, begin, put, close, List.map_cons, Except.isOk, Except.toBool,
    Bool.not_false, if_true, Transaction.put, Tagged.put_self, savedBehind]

theorem transact_answer : (session.transact entry reply block).2.answer =
    (entry.graph.transaction block).answer.map reply := by
  cases answer : block.answer <;> simp [transact, Graph.transaction, answer]

section Copy

variable (old : entry.tag < session.nextTag) (issued : block.graph.Issued session.nextTag)
include old issued

/-- No change inside a transaction reaches the loops of the copy. -/
theorem shows_copy_eq_none : ∀ loop ∈ (entry.graph.renew session.nextTag).1.held,
    block.graph.settled.shows entry.tag loop = none := by
  intro loop member
  have new := entry.graph.held_renew session.nextTag loop member
  apply Graph.shows_eq_none
  · omega
  · intro found held
    obtain ⟨original, inside, same⟩ := Graph.exists_held_of_settled held
    have below := issued.held original inside
    omega

theorem state_savedBehind : (session.savedBehind entry block).state = entry.graph.state :=
  (Graph.state_revise (block.graph.settled.keepsTags_shows entry.tag) _
    (shows_copy_eq_none old issued)).trans (entry.graph.state_renew session.nextTag)

theorem owns_savedBehind : ∀ found ∈ (⟨entry.tag, session.savedBehind entry block⟩ : Tagged).owns,
    found = entry.tag ∨ session.nextTag ≤ found := by
  intro found member
  rw [Tagged.owns, savedBehind, Graph.held_revise _ (shows_copy_eq_none old issued)] at member
  rcases List.mem_cons.mp member with own | held
  · exact .inl own
  · obtain ⟨loop, inside, rfl⟩ := List.mem_map.mp held
    exact .inr (entry.graph.held_renew session.nextTag loop inside)

/-- A transaction of a session answers as the transaction of its graph does and leaves the
graph in the state that it comes to. -/
theorem transact_spec (known : session.graphs.lookup name = some entry) :
    (session.transact entry reply block).1.Restores name
      ⟨entry.tag, (entry.graph.transaction block).graph⟩ := by
  cases answer : block.answer with
  | ok value =>
      have committed : (entry.graph.transaction block).graph = block.graph := by
        simp only [Graph.transaction, answer]
      rw [Restores, transact_of_ok answer, committed]
      exact @restores_put_self (session.begin entry) name entry known block.graph
  | error fault =>
      have restored : (entry.graph.transaction block).graph = entry.graph := by
        simp only [Graph.transaction, answer]
      obtain ⟨_, seen, _⟩ := @restores_put_self (session.begin entry) name entry known block.graph
      obtain ⟨final, found, state⟩ := restores_put_self seen (session.savedBehind entry block)
      rw [Restores, transact_of_error answer, restored]
      exact ⟨final, found, state.trans (state_savedBehind old issued)⟩

/-- A graph that is separate from a transaction keeps its state, whatever comes of the
transaction. -/
theorem restores_elsewhere (known : session.graphs.lookup other = some third)
    (before : ∀ tag ∈ third.owns, tag < session.nextTag)
    (separate : third.SeparateFrom ⟨entry.tag, block.graph⟩) :
    (session.transact entry reply block).1.Restores other third := by
  obtain ⟨next, seen, tag, state, owns⟩ :=
    @restores_put (session.begin entry) other third entry.tag block.graph known separate
  cases answer : block.answer with
  | ok value =>
      rw [Restores, transact_of_ok answer, seen]
      exact ⟨next.graph, by rw [← tag], state⟩
  | error fault =>
      have apart : next.SeparateFrom ⟨entry.tag, session.savedBehind entry block⟩ := by
        intro found inside shared
        rw [owns] at inside
        rcases owns_savedBehind old issued found shared with rfl | new
        · exact separate inside List.mem_cons_self
        · exact absurd (before found inside) (Nat.not_lt.mpr new)
      obtain ⟨final, found, sameTag, sameState, _⟩ := restores_put seen apart
      rw [Restores, transact_of_error answer, found]
      exact ⟨final.graph, by rw [← tag, ← sameTag], sameState.trans state⟩

end Copy

end Blocks

theorem perform_known {command : Command} (known : session.graphs.lookup name = some entry)
    (single : ∀ steps fails, command ≠ .transaction steps fails)
    (unhandled : ∀ steps, command ≠ .handle steps) :
    session.perform ⟨name, []⟩ command = session.performOn entry command := by
  have opened : session.introduce name = session := by
    simp [introduce, known]
  have reads : session.read ⟨name, []⟩ = .ok entry := by
    simp [read, graphNamed, known, Tagged.bodyAt]
  rw [perform]
  · simp only [opened, reads]
  · exact single
  · exact unhandled

end Session

/-- The passes that change their graph alone, where operations bring in no tag from a
bound on. -/
inductive Command.Transactional (bound : Nat) : Command → Prop where
  | foldConstants {meaning : Interpretation} (issued : meaning.Issued bound)
      (policy : FoldPolicy) : Transactional bound (.foldConstants meaning policy)
  | prune : Transactional bound .prune
  | schedule : Transactional bound .schedule

namespace Session

variable {session : Session} {name source : String} {entry origin : Tagged} {fault : Fault}

/-- A transaction that fails restores its graph, wherever its block stopped. -/
theorem restores_of_failed_transact {α : Type} {reply : α → Reply} {block : Outcome α}
    (known : session.graphs.lookup name = some entry) (old : entry.tag < session.nextTag)
    (issued : block.graph.Issued session.nextTag)
    (failed : (session.transact entry reply block).2.answer = .error fault) :
    (session.transact entry reply block).1.Restores name entry := by
  rw [transact_answer] at failed
  cases answer : (entry.graph.transaction block).answer with
  | ok value =>
      rw [answer] at failed
      cases failed
  | error stopped =>
      have restored := Graph.transaction_restores answer
      have spec := @transact_spec session name entry α reply block old issued known
      rwa [restored] at spec

theorem restores_of_failed_pass {command : Command} (issued : session.Issued)
    (known : session.graphs.lookup name = some entry)
    (transactional : command.Transactional session.nextTag)
    (failed : (session.perform ⟨name, []⟩ command).2.answer = .error fault) :
    (session.perform ⟨name, []⟩ command).1.Restores name entry := by
  obtain ⟨old, tags⟩ := issued name entry known
  cases transactional with
  | foldConstants given policy =>
      rw [perform_known known (by simp) (by simp)] at failed ⊢
      refine restores_of_failed_transact known old ?_ failed
      exact fun tag beyond =>
        (develops_foldBlock (given tag beyond) _ entry.graph).avoids (tags tag beyond)
  | prune =>
      rw [perform_known known (by simp) (by simp)] at failed ⊢
      refine restores_of_failed_transact known old ?_ failed
      exact fun tag beyond => entry.graph.develops_pruneBlock.avoids (tags tag beyond)
  | schedule =>
      rw [perform_known known (by simp) (by simp)] at failed ⊢
      have unchanged : entry.graph.schedule.graph = entry.graph := by
        rw [Graph.schedule_eq]
        cases ordered : entry.graph.scheduled with
        | error stopped => rfl
        | ok scheduled =>
            rw [performOn, edit, Graph.schedule_eq, ordered] at failed
            cases failed
      rw [performOn, edit, unchanged]
      exact restores_put_self known entry.graph

section Splicing

variable {targets : String → Option Target} {view : Graph → Graph}

/-- The nodes of a destination are those that it had, or they came in under the numbers
that were handed out. -/
theorem spliceBlock_nodes (view : Graph → Graph) (targets : String → Option Target)
    (destination : Graph) : ∀ node ∈ (Graph.spliceBlock view targets destination).destination.nodes,
      node ∈ destination.nodes ∨ (destination.nextId ≤ node.id ∧
        node.id < (Graph.spliceBlock view targets destination).destination.nextId) := by
  suffices invariant : destination.nextId ≤
      (Graph.spliceBlock view targets destination).destination.nextId ∧
      ∀ node ∈ (Graph.spliceBlock view targets destination).destination.nodes,
        node ∈ destination.nodes ∨ (destination.nextId ≤ node.id ∧
          node.id < (Graph.spliceBlock view targets destination).destination.nextId) from
    invariant.2
  refine copyNodes_keeps_destination (fun found => destination.nextId ≤ found.nextId ∧
    ∀ node ∈ found.nodes, node ∈ destination.nodes ∨
      (destination.nextId ≤ node.id ∧ node.id < found.nextId)) ?_ ⟨le_refl _, fun _ => .inl⟩
  intro copying next id node invariant found copies
  obtain ⟨grows, origins⟩ := invariant
  cases copies with
  | bound => exact ⟨grows, origins⟩
  | added =>
      refine ⟨grows.trans (Int.lt_succ _).le, fun other inside => ?_⟩
      rcases Graph.old_or_new_node inside with old | rfl
      · exact (origins other old).imp_right
          fun between => ⟨between.1, between.2.trans (Int.lt_succ _)⟩
      · exact .inr ⟨grows, Int.lt_succ _⟩

/-- The loops that a destination holds after copying are those that it held, or they are
new ones. -/
theorem owns_copyInto {destination : Tagged} : ∀ found ∈ (⟨destination.tag,
      (session.copyInto destination.graph view targets).2.destination⟩ : Tagged).owns,
    found ∈ destination.owns ∨ session.nextTag ≤ found := by
  intro found member
  rcases Tagged.mem_owns.mp member with rfl | ⟨loop, held, rfl⟩
  · exact .inl List.mem_cons_self
  rw [Graph.held_eq] at held
  rcases heldBy_renewWhere _ session.nextTag loop held with new | kept
  · exact .inr new
  obtain ⟨node, inside, outer, content, here⟩ := mem_heldBy.mp kept
  obtain ⟨present, notCopied⟩ := List.mem_filter.mp inside
  refine .inl (Tagged.tag_mem_owns loop (Graph.mem_held.mpr ⟨node, ?_, outer, content, here⟩))
  refine (spliceBlock_nodes view targets destination.graph node present).resolve_right ?_
  intro new
  simp [new.1, new.2] at notCopied

theorem state_copyInto {destination : Graph} :
    (session.copyInto destination view targets).2.destination.state =
      (Graph.spliceBlock view targets destination).destination.state := by
  rw [copyInto, Graph.state_eq, Graph.state_eq (Graph.spliceBlock _ _ _).destination]
  simp only [stateOfNodes_renewWhere]

end Splicing

/-- A splice whose source and targets are there. -/
theorem splice_of_resolved {place : Place} {targets : List (String × NodeRef)}
    (entry : Tagged) (reads : session.read place = .ok origin)
    (resolves : ∀ target ∈ targets, ∃ found, session.resolve target.2 = .ok found) :
    ∃ named, session.splice entry place targets = .ok (session.spliceFrom entry origin named) := by
  have : Nonempty Origin := ⟨⟨0, none⟩⟩
  choose! found resolve using resolves
  have resolved := @mapM_eq_ok _ _ targets (session.resolveTarget entry.tag)
    (fun target => (target.1, ⟨(found target).id, (found target).isForeign entry.tag⟩))
    fun target member => bind_eq_ok.mpr ⟨_, resolve target member, rfl⟩
  exact ⟨_, bind_eq_ok.mpr ⟨origin, reads, bind_eq_ok.mpr ⟨_, resolved, rfl⟩⟩⟩

/-- What a failed splice leaves.  The destination is restored as it was after the source
was put in order, and so is the source; where the two are separate, this is the state of
the destination before. -/
structure RestoresSplice (later : Session) (name source : String) (entry origin : Tagged)
    (arranged : Graph) : Prop where
  order : origin.graph.Rearranges arranged
  destination : later.Restores name (entry.put origin.tag arranged.settled)
  separate : entry.SeparateFrom origin →
    later.Restores name entry ∧ later.Restores source ⟨origin.tag, arranged⟩

section Ordered

variable {arranged : Graph} (owned : (⟨origin.tag, arranged⟩ : Tagged).owns ⊆ origin.owns)
include owned

theorem separate_of_ordered (separate : entry.SeparateFrom origin) :
    entry.SeparateFrom ⟨origin.tag, arranged.settled⟩ := by
  apply separate.of_subset
  rwa [Tagged.owns_settled]

/-- A destination that is separate from the source is restored if it is restored as it
was after the source was put in order. -/
theorem Restores.of_separate {later : Session}
    (restores : later.Restores name (entry.put origin.tag arranged.settled))
    (separate : entry.SeparateFrom origin) : later.Restores name entry := by
  obtain ⟨restored, found, state⟩ := restores
  refine ⟨restored, ?_, state.trans (Tagged.state_put (separate_of_ordered owned separate))⟩
  rw [found, entry.put_tag]

end Ordered

section Copied

variable {arranged : Graph} {view : Graph → Graph} {targets : String → Option Target}
  {copied : Session × Spliced} (issued : session.Issued)
  (known : session.graphs.lookup name = some entry)
  (sourceKnown : session.graphs.lookup source = some origin)
  (ordered : origin.graph.scheduled = .ok arranged)
  (viewAvoids : ∀ tag (found : Graph), arranged.Avoids tag → found.Avoids tag →
    (view found).Avoids tag)
  (copies : (session.put origin.tag arranged).copyInto
    (entry.put origin.tag arranged.settled).graph view targets = copied)

include known copies in
theorem lookup_copied :
    copied.1.graphs.lookup name = some (entry.put origin.tag arranged.settled) := by
  subst copies
  exact (lookup_put session origin.tag arranged name).trans (by rw [known, Option.map_some])

include issued known copies in
theorem tag_copied : (entry.put origin.tag arranged.settled).tag < copied.1.nextTag := by
  have further : session.nextTag ≤ copied.1.nextTag := copies ▸ nextTag_copyInto
  rw [entry.put_tag]
  exact (issued name entry known).1.trans_le further

include issued known sourceKnown ordered viewAvoids copies in
theorem issued_copied : copied.2.destination.Issued copied.1.nextTag := by
  have further : session.nextTag ≤ copied.1.nextTag := copies ▸ nextTag_copyInto
  intro tag beyond
  have inside : arranged.Avoids tag :=
    ((issued source origin sourceKnown).2 tag (further.trans beyond)).scheduled ordered
  have clear : (entry.put origin.tag arranged.settled).graph.Avoids tag :=
    Tagged.put_avoids inside.settled ((issued name entry known).2 tag (further.trans beyond))
  subst copies
  exact (develops_copyInto (fun found => viewAvoids tag found inside) (.inr beyond)).avoids clear

end Copied

section Ends

variable {arranged : Graph} {destination : Tagged} {seen : Graph → Graph}
  {targets : String → Option Target} {copied : Session × Spliced}
  (begins : entry.put origin.tag arranged.settled = destination)
  (sees : (fun found => Tagged.seenWith entry.tag found ⟨origin.tag, arranged.settled⟩) = seen)

include begins sees in
theorem spliceFrom_of_ordered (ordered : origin.graph.schedule = ⟨arranged, .ok ()⟩)
    (copies : (session.put origin.tag arranged).copyInto destination.graph seen targets = copied) :
    (session.spliceFrom entry origin targets).1 = (copied.1.transact destination Reply.table
        ⟨copied.2.destination, copied.2.answer⟩).1 ∧
      (session.spliceFrom entry origin targets).2.answer = (copied.1.transact destination
        Reply.table ⟨copied.2.destination, copied.2.answer⟩).2.answer := by
  subst begins sees copies
  rw [spliceFrom, ordered]
  exact ⟨rfl, rfl⟩

/-- The transaction around the copying is the one of `Graph.splice`, but for the tags of
the loops that were copied. -/
theorem transaction_copied {graph : Graph}
    (copies : session.copyInto graph seen targets = copied) :
    (graph.transaction ⟨copied.2.destination, copied.2.answer⟩).answer =
        (Graph.splice seen targets graph).answer ∧
      (graph.transaction ⟨copied.2.destination, copied.2.answer⟩).graph.state =
        (Graph.splice seen targets graph).destination.state := by
  have state : copied.2.destination.state = _ := copies ▸ state_copyInto
  have answer : copied.2.answer = (Graph.spliceBlock seen targets graph).answer := copies ▸ rfl
  cases ends : (Graph.spliceBlock seen targets graph).answer with
  | error fault => simp only [Graph.splice, Graph.transaction, answer, ends, and_self]
  | ok table => simp only [Graph.splice, Graph.transaction, answer, ends, state, and_self]

include begins sees in
/-- Splicing in a session answers as `Graph.splice` does and leaves the destination in the
state that it comes to. -/
theorem spliceFrom_spec (issued : session.Issued)
    (known : session.graphs.lookup name = some entry)
    (sourceKnown : session.graphs.lookup source = some origin)
    (ordered : origin.graph.schedule = ⟨arranged, .ok ()⟩) :
    (session.spliceFrom entry origin targets).2.answer =
        (Graph.splice seen targets destination.graph).answer.map Reply.table ∧
      (session.spliceFrom entry origin targets).1.Restores name
        ⟨entry.tag, (Graph.splice seen targets destination.graph).destination⟩ := by
  generalize copies :
    (session.put origin.tag arranged).copyInto destination.graph seen targets = copied
  obtain ⟨laterEq, answerEq⟩ := spliceFrom_of_ordered begins sees ordered copies
  obtain ⟨sameAnswer, sameState⟩ := transaction_copied copies
  have sameTag : destination.tag = entry.tag := begins ▸ entry.put_tag _ _
  rw [laterEq, answerEq, transact_answer, sameAnswer]
  subst begins sees
  have tags := issued_copied issued known sourceKnown (Graph.schedule_eq_ok_iff.mp ordered)
    (fun tag found inside avoids => Tagged.seenWith_avoids avoids inside.settled) copies
  obtain ⟨left, found, state⟩ := @transact_spec copied.1 name _ _ Reply.table
    ⟨copied.2.destination, copied.2.answer⟩ (tag_copied issued known copies) tags
    (lookup_copied known copies)
  exact ⟨rfl, left, sameTag ▸ found, state.trans sameState⟩

end Ends

section Failed

variable (known : session.graphs.lookup name = some entry)
  (sourceKnown : session.graphs.lookup source = some origin)
include known sourceKnown

/-- A source that cannot be put in order stays as it is, and no transaction begins. -/
theorem restoresSplice_of_unordered :
    (session.put origin.tag origin.graph).RestoresSplice name source entry origin
      origin.graph where
  order := .refl origin.graph
  destination := ⟨_, by rw [lookup_put, known, Option.map_some], rfl⟩
  separate := by
    intro separate
    obtain ⟨next, found, tag, state, _⟩ := restores_put known separate
    exact ⟨⟨next.graph, by rw [found, ← tag], state⟩, restores_put_self sourceKnown origin.graph⟩

/-- A source that was put in order is copied in a transaction on the destination. -/
theorem restoresSplice_of_ordered {arranged : Graph} {view : Graph → Graph}
    {targets : String → Option Target} (issued : session.Issued)
    (distinct : origin.graph.Everywhere fun body => body.ids.Nodup)
    (ordered : origin.graph.scheduled = .ok arranged)
    (viewAvoids : ∀ tag (found : Graph), arranged.Avoids tag → found.Avoids tag →
      (view found).Avoids tag)
    {copied : Session × Spliced} (copies : (session.put origin.tag arranged).copyInto
      (entry.put origin.tag arranged.settled).graph view targets = copied)
    (failed : (copied.1.transact (entry.put origin.tag arranged.settled) Reply.table
      ⟨copied.2.destination, copied.2.answer⟩).2.answer = .error fault) :
    (copied.1.transact (entry.put origin.tag arranged.settled) Reply.table
      ⟨copied.2.destination, copied.2.answer⟩).1.RestoresSplice name source entry origin
        arranged := by
  have owned : (⟨origin.tag, arranged⟩ : Tagged).owns ⊆ origin.owns := by
    intro tag member
    rcases Tagged.mem_owns.mp member with rfl | ⟨loop, held, rfl⟩
    · exact List.mem_cons_self
    · obtain ⟨before, inside, same⟩ := Graph.held_of_scheduled ordered loop held
      exact same ▸ Tagged.tag_mem_owns before inside
  have further : session.nextTag ≤ copied.1.nextTag := copies ▸ nextTag_copyInto
  have ready : copied.1.graphs = (session.put origin.tag arranged).graphs := copies ▸ rfl
  have copiedTags := issued_copied issued known sourceKnown ordered viewAvoids copies
  have destinationOld := tag_copied issued known copies
  have restores := restores_of_failed_transact (lookup_copied known copies) destinationOld
    copiedTags failed
  refine ⟨Graph.rearranges_of_scheduled distinct ordered, restores, fun separate =>
    ⟨restores.of_separate owned separate, ?_⟩⟩
  -- The source shares nothing with the destination, nor with the copies, which are new.
  have apart : (⟨origin.tag, arranged.settled⟩ : Tagged).SeparateFrom
      ⟨(entry.put origin.tag arranged.settled).tag, copied.2.destination⟩ := by
    intro tag inSource inCopied
    rw [Tagged.owns_settled] at inSource
    subst copies
    rcases owns_copyInto tag inCopied with kept | new
    · rw [Tagged.owns_put (separate_of_ordered owned separate)] at kept
      exact separate kept (owned inSource)
    · exact absurd (issued.owns sourceKnown tag (owned inSource)) (Nat.not_lt.mpr new)
  have sourceReady : copied.1.graphs.lookup source = some ⟨origin.tag, arranged.settled⟩ := by
    rw [ready, lookup_put, sourceKnown, Option.map_some, Tagged.put_self]
  have sourceBefore : ∀ tag ∈ (⟨origin.tag, arranged.settled⟩ : Tagged).owns,
      tag < copied.1.nextTag := by
    intro tag member
    rw [Tagged.owns_settled] at member
    exact (issued.owns sourceKnown tag (owned member)).trans_le further
  obtain ⟨final, found, state⟩ := @restores_elsewhere copied.1 source _ _ _ Reply.table
    ⟨copied.2.destination, copied.2.answer⟩ destinationOld copiedTags sourceReady sourceBefore apart
  exact ⟨final, found, state.trans arranged.state_settled⟩

theorem restoresSplice_of_failed {targets : String → Option Target} (issued : session.Issued)
    (distinct : origin.graph.Everywhere fun body => body.ids.Nodup)
    (failed : (session.spliceFrom entry origin targets).2.answer = .error fault) :
    ∃ arranged, (session.spliceFrom entry origin targets).1.RestoresSplice name source entry origin
      arranged := by
  cases ordered : origin.graph.scheduled with
  | error stopped =>
      have stays : origin.graph.schedule = ⟨origin.graph, .error stopped⟩ := by
        rw [Graph.schedule_eq, ordered]
      refine ⟨origin.graph, ?_⟩
      rw [spliceFrom, stays]
      exact restoresSplice_of_unordered known sourceKnown
  | ok arranged =>
      obtain ⟨laterEq, answerEq⟩ := @spliceFrom_of_ordered session entry origin arranged _ _
        targets _ rfl rfl (Graph.schedule_eq_ok_iff.mpr ordered) rfl
      refine ⟨arranged, ?_⟩
      rw [answerEq] at failed
      rw [laterEq]
      refine restoresSplice_of_ordered known sourceKnown issued distinct ordered ?_ rfl failed
      exact fun tag found inside avoids => Tagged.seenWith_avoids avoids inside.settled

end Failed

/-- Folding, pruning and ordering restore their graph when they fail, whatever it is.  So
does splicing, but for the order of what its source and its destination share. -/
theorem failed_transactions_restore (issued : session.Issued)
    (known : session.graphs.lookup name = some entry) (fault : Fault) :
    (∀ command : Command, command.Transactional session.nextTag →
      (session.perform ⟨name, []⟩ command).2.answer = .error fault →
      (session.perform ⟨name, []⟩ command).1.Restores name entry) ∧
    ∀ source origin targets, session.graphs.lookup source = some origin →
      (∀ target ∈ targets, ∃ found, session.resolve target.2 = .ok found) →
      (origin.graph.Everywhere fun body => body.ids.Nodup) →
      (session.perform ⟨name, []⟩ (.splice ⟨source, []⟩ targets)).2.answer = .error fault →
      ∃ arranged, (session.perform ⟨name, []⟩ (.splice ⟨source, []⟩ targets)).1.RestoresSplice
        name source entry origin arranged := by
  refine ⟨fun _ => restores_of_failed_pass issued known, ?_⟩
  intro source origin targets sourceKnown resolves distinct failed
  have opened : session.introduce source = session := by
    simp [introduce, sourceKnown]
  have reads : session.read ⟨source, []⟩ = .ok origin := by
    simp [read, graphNamed, sourceKnown, Tagged.bodyAt]
  obtain ⟨resolved, spliced⟩ := splice_of_resolved entry reads resolves
  rw [perform_known known (by simp) (by simp), performOn, opened, spliced] at failed ⊢
  exact restoresSplice_of_failed known sourceKnown issued distinct failed

end Session

theorem exists_fault_of_not_isOk {α : Type} {answer : Except Fault α}
    (failed : answer.isOk = false) : ∃ fault, answer = .error fault := by
  cases answer with
  | error fault => exact ⟨fault, rfl⟩
  | ok value => cases failed

section Sample

/-- Sums can be computed, and nothing else. -/
def onlySums : Interpretation where
  call := fun name operands => if name = "+" then adding.call name operands else .error .wrongType
  lookup := fun name => .error (.unresolvedName name)
  element := fun _ _ => .error .wrongType
  field := fun _ _ => .error .missingField

theorem onlySums_issued (bound : Nat) : onlySums.Issued bound := by
  intro tag _
  constructor
  · intro name operands value _ computed
    simp only [onlySums, adding] at computed
    split at computed
    · cases computed
      simp [Value.Avoids, Value.loops]
    · cases computed
  all_goals simp [onlySums]

/-- The body of a loop with one call of a constant. -/
def calling (operation : String) : Graph :=
  ⟨[⟨0, .constant, .int 1, [], .null⟩, ⟨1, .call, .text operation, [0, 0], .null⟩], [("y", 1)], 2⟩

/-- A loop that can be folded, a result that refers to it, and a loop that cannot. -/
def halfFoldable : Graph :=
  ⟨[⟨0, .loop, .loop ⟨1, "i", calling "+", []⟩, [], .null⟩,
      ⟨1, .constant, .int 0, [], .loop ⟨1, "i", calling "+", []⟩⟩,
      ⟨2, .loop, .loop ⟨2, "j", calling "*", []⟩, [], .null⟩], [], 3⟩

/-- A sum whose operand comes after it. -/
def backwardSum : Graph :=
  ⟨[⟨0, .call, .text "+", [1, 1], .null⟩, ⟨1, .external, .text "x", [], .null⟩], [("y", 0)], 2⟩

/-- A graph with loops beside a graph that is separate from it. -/
def twoGraphs : Session :=
  ⟨[("host", ⟨5, halfFoldable⟩), ("guest", ⟨6, backwardSum⟩)], [], 7⟩

theorem twoGraphs_issued : twoGraphs.Issued := by
  intro name entry known
  have member : (name, entry) ∈ twoGraphs.graphs := mem_of_lookup known
  simp only [twoGraphs, List.mem_cons, Prod.mk.injEq, List.not_mem_nil, or_false] at member
  rcases member with ⟨-, rfl⟩ | ⟨-, rfl⟩
  · refine ⟨by decide, fun tag beyond => ?_⟩
    simp only [twoGraphs] at beyond
    simp [Graph.Avoids, halfFoldable, calling, Graph.allLoops, loopsOfNodes, Value.loops]
    omega
  · refine ⟨by decide, fun tag _ => ?_⟩
    simp [Graph.Avoids, backwardSum, Graph.allLoops, loopsOfNodes, Value.loops]

theorem twoGraphs_separate : Tagged.SeparateFrom ⟨5, halfFoldable⟩ ⟨6, backwardSum⟩ := by
  simp [Tagged.SeparateFrom, Tagged.owns, halfFoldable, calling, backwardSum, Graph.held, heldBy,
    List.Disjoint]

theorem twoGraphs_fold_fails : (twoGraphs.perform ⟨"host", []⟩
    (.foldConstants onlySums .standard)).2.answer.isOk = false := by
  decide +kernel

/-- A fault in the second loop comes after the first one was folded, and a target that is
not there after the source was put in order. -/
theorem twoGraphs_restored :
    (twoGraphs.perform ⟨"host", []⟩ (.foldConstants onlySums .standard)).1.Restores "host"
      ⟨5, halfFoldable⟩ ∧
    ∃ arranged, backwardSum.Rearranges arranged ∧
      (twoGraphs.perform ⟨"host", []⟩ (.splice ⟨"guest", []⟩ [("x", .number 9)])).1.Restores
        "host" ⟨5, halfFoldable⟩ ∧
      (twoGraphs.perform ⟨"host", []⟩ (.splice ⟨"guest", []⟩ [("x", .number 9)])).1.Restores
        "guest" ⟨6, arranged⟩ := by
  obtain ⟨foldFault, foldFails⟩ := exists_fault_of_not_isOk twoGraphs_fold_fails
  have spliceFails : (twoGraphs.perform ⟨"host", []⟩
      (.splice ⟨"guest", []⟩ [("x", .number 9)])).2.answer = .error (.missingNode 9) := by
    with_unfolding_all rfl
  have distinct : backwardSum.Everywhere fun body => body.ids.Nodup := by
    intro path body reached
    rw [(Graph.within?_of_innermost (by simp [backwardSum, Node.loop?]) reached).2]
    decide
  have resolves : ∀ target ∈ [("x", NodeRef.number 9)],
      ∃ found, twoGraphs.resolve target.2 = .ok found := by
    simp [Session.resolve]
  obtain ⟨fold, _⟩ := Session.failed_transactions_restore twoGraphs_issued
    (rfl : twoGraphs.graphs.lookup "host" = some ⟨5, halfFoldable⟩) foldFault
  obtain ⟨_, splice⟩ := Session.failed_transactions_restore twoGraphs_issued
    (rfl : twoGraphs.graphs.lookup "host" = some ⟨5, halfFoldable⟩) (.missingNode 9)
  obtain ⟨arranged, order, _, separate⟩ := splice "guest" ⟨6, backwardSum⟩ [("x", .number 9)] rfl
    resolves distinct spliceFails
  exact ⟨fold _ (.foldConstants (onlySums_issued _) .standard) foldFails, arranged, order,
    separate twoGraphs_separate⟩

/-- The numbers of the nodes in the bodies of all loops of a graph. -/
def Graph.bodyIds (graph : Graph) : List (List NodeId) :=
  graph.allLoops.map fun loop => loop.body.ids

/-- A graph with a result that refers to a loop, beside the body of the loop. -/
def referringHost : Session :=
  ⟨[("host", ⟨5, ⟨[⟨0, .constant, .int 1, [], .loop ⟨6, "i", backwardSum, []⟩⟩], [], 1⟩⟩),
    ("guest", ⟨6, backwardSum⟩)], [], 7⟩

/-- An external node and a loop. -/
def holding : Graph :=
  ⟨[⟨0, .external, .text "x", [], .null⟩,
      ⟨1, .loop, .loop ⟨3, "i", backwardSum, []⟩, [], .null⟩], [], 2⟩

/-- Two graphs that hold one loop. -/
def sharingHost : Session :=
  ⟨[("host", ⟨5, holding⟩), ("guest", ⟨6, holding⟩)], [], 7⟩

/-- Where a loop is shared, a failed pass may leave its changes in it.  Folding leaves
them in a loop that a result refers to.  Splicing does so too, although the source and the
destination are separate, and in a loop that both hold, although neither holds the other. -/
theorem shared_loops_not_restored :
    ((twoGraphs.perform ⟨"host", []⟩ (.foldConstants onlySums .standard)).2.answer.isOk = false ∧
      (twoGraphs.graphNamed "host").graph.bodyIds = [[0, 1], [0, 1], [0, 1]] ∧
      ((twoGraphs.perform ⟨"host", []⟩ (.foldConstants onlySums .standard)).1.graphNamed
        "host").graph.bodyIds = [[0, 1], [2], [0, 1]]) ∧
    ((referringHost.graphNamed "host").owns = [5] ∧ (referringHost.graphNamed "guest").owns = [6] ∧
      (referringHost.perform ⟨"host", []⟩ (.splice ⟨"guest", []⟩ [("x", .number 9)])).2.answer =
        .error (.missingNode 9) ∧
      (referringHost.graphNamed "host").graph.bodyIds = [[0, 1]] ∧
      ((referringHost.perform ⟨"host", []⟩ (.splice ⟨"guest", []⟩
        [("x", .number 9)])).1.graphNamed "host").graph.bodyIds = [[1, 0]]) ∧
    ((sharingHost.graphNamed "host").owns = [5, 3] ∧
      (sharingHost.graphNamed "guest").owns = [6, 3] ∧
      (sharingHost.perform ⟨"host", []⟩ (.splice ⟨"guest", []⟩ [("x", .number 9)])).2.answer =
        .error (.missingNode 9) ∧
      (sharingHost.graphNamed "host").graph.bodyIds = [[0, 1]] ∧
      ((sharingHost.perform ⟨"host", []⟩ (.splice ⟨"guest", []⟩
        [("x", .number 9)])).1.graphNamed "host").graph.bodyIds = [[1, 0]]) := by
  refine ⟨⟨twoGraphs_fold_fails, ?_, ?_⟩, ⟨?_, ?_, ?_, ?_, ?_⟩, ?_, ?_, ?_, ?_, ?_⟩
  · rfl
  · decide +kernel
  all_goals with_unfolding_all rfl

end Sample

end FlowGraph

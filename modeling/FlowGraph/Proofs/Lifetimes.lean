import FlowGraph.Proofs.FreshNames
import FlowGraph.Proofs.Numbering

/-!
# Numbers over the life of a graph

A name of a session stands for a graph.  Steps change it, or they change other graphs
and bodies, and a transaction that fails puts back what its graph was.  Over all steps
the numbers of the graph are used once: a number that is gone stays away.

The graph has a tag of its own.  As long as no step brings a loop of that tag in, no
body can take its place, so a step changes the graph by an operation on it or leaves
its numbers as they are (`Session.leadsTo_performOn`).  What a transaction saved keeps
the numbers and the counter that it had (`Transaction.Alike`), so putting it back goes
no further back than the state in which the transaction began.
-/

namespace FlowGraph

variable {tag target : Nat} {name : String} {graph next changed : Graph}

theorem lookup_map_snd {α β : Type} (change : α → β) (entries : List (String × α))
    (name : String) : (entries.map fun item => (item.1, change item.2)).lookup name =
      (entries.lookup name).map change := by
  induction entries with
  | nil => rfl
  | cons first rest induction =>
      obtain ⟨other, value⟩ := first
      cases same : name == other <;> simp [List.lookup_cons, same, induction]

/-- If a value could be read, no loop of the tag occurs in it. -/
def Reading.Avoids (tag : Nat) (reading : Reading) : Prop :=
  ∀ value, reading = .ok value → value.Avoids tag

mutual

/-- A command lets a name stand for the graph that it has, and the values that it gives
or computes hold no loop of the tag. -/
def Command.Spares (name : String) (tag : Nat) : Command → Prop
  | .build nodes _ => ∀ node ∈ nodes, Reading.Avoids tag node.content
  | .add _ content _ => Reading.Avoids tag content
  | .assign _ _ content result _ =>
      (∀ reading ∈ content, Reading.Avoids tag reading) ∧
        ∀ reading ∈ result, Reading.Avoids tag reading
  | .copy other => other ≠ name
  | .transaction steps _ => stepsSpare name tag steps
  | .handle steps => stepsSpare name tag steps
  | .foldConstants meaning _ => meaning.Avoids tag
  | .optimize meaning _ => meaning.Avoids tag
  | .evaluate meaning scope => meaning.Avoids tag ∧ scope.Avoids tag
  | _ => True

/-- Every one of some steps spares the name and the tag. -/
def stepsSpare (name : String) (tag : Nat) : List Step → Prop
  | [] => True
  | ⟨_, command⟩ :: rest => command.Spares name tag ∧ stepsSpare name tag rest

end

section Tags

theorem ids_reviseNodes (change : Loop → Option Loop) (nodes : List Node) :
    (reviseNodes change nodes).map Node.id = nodes.map Node.id := by
  induction nodes with
  | nil => simp [reviseNodes]
  | cons node rest induction => simp [reviseNodes_cons, induction]

theorem ids_reviseNodesAround (change : Loop → Option Loop) (nodes : List Node) :
    (reviseNodesAround change nodes).map Node.id = nodes.map Node.id := by
  induction nodes with
  | nil => simp [reviseNodesAround]
  | cons node rest induction =>
      rcases node.loop_or_plain with ⟨loop, content⟩ | plain
      · simp [reviseNodesAround_loop content, induction]
      · simp [reviseNodesAround_plain plain, induction]

theorem ids_renewNodes (first : Nat) (nodes : List Node) :
    (renewNodes first nodes).1.map Node.id = nodes.map Node.id := by
  induction nodes generalizing first with
  | nil => simp [renewNodes]
  | cons node rest induction =>
      rcases node.loop_or_plain with ⟨loop, content⟩ | plain
      · simp [renewNodes_loop content, induction]
      · simp [renewNodes_plain plain, induction]

theorem ids_renewWhere {copied : Node → Bool} (first : Nat) (nodes : List Node) :
    (renewWhere copied first nodes).1.map Node.id = nodes.map Node.id := by
  induction nodes generalizing first with
  | nil => rfl
  | cons node rest induction =>
      by_cases made : copied node
      · rw [renewWhere_copied made, List.map_append, ids_renewNodes, induction]
        rfl
      · rw [renewWhere_kept made, List.map_cons, List.map_cons, induction]

namespace Graph

theorem ids_revise (graph : Graph) (change : Loop → Option Loop) :
    (graph.revise change).ids = graph.ids := by
  rw [revise_eq]
  exact ids_reviseNodes change graph.nodes

theorem nextId_revise (graph : Graph) (change : Loop → Option Loop) :
    (graph.revise change).nextId = graph.nextId := by
  rw [revise_eq]

theorem develops_settled (graph : Graph) : graph.Develops tag graph.settled where
  avoids := Avoids.settled
  continues := by
    intro tidy
    rw [settled, reviseAround_eq]
    exact .of_same_ids tidy (ids_reviseNodesAround graph.latest graph.nodes) rfl

theorem ids_renew (graph : Graph) (first : Nat) : (graph.renew first).1.ids = graph.ids := by
  rw [renew_eq]
  exact ids_renewNodes first graph.nodes

theorem nextId_renew (graph : Graph) (first : Nat) :
    (graph.renew first).1.nextId = graph.nextId := by
  rw [renew_eq]

theorem develops_renew {first : Nat} (old : tag < first) (graph : Graph) :
    graph.Develops tag (graph.renew first).1 where
  avoids := fun avoids => avoids.renew old
  continues := fun tidy => .of_same_ids tidy (graph.ids_renew first) (graph.nextId_renew first)

end Graph

theorem keepsAvoiding_withBody (target : Nat) (inside : changed.Avoids tag) :
    KeepsAvoiding tag (Loop.withBody target changed) := by
  intro loop other avoids given
  unfold Loop.withBody at given
  split at given
  · cases given
    exact Value.avoids_loop.mpr ⟨(Value.avoids_loop.mp avoids).1, inside⟩
  · cases given

theorem keepsAvoiding_bindings (target : Nat) (bindings : List (NodeId × NodeId)) :
    KeepsAvoiding tag fun loop =>
      if loop.tag = target then some { loop with bindings := bindings } else none := by
  intro loop other avoids given
  dsimp only at given
  split at given
  · cases given
    obtain ⟨differs, inside⟩ := Value.avoids_loop.mp avoids
    exact Value.avoids_loop.mpr ⟨differs, inside⟩
  · cases given

namespace Tagged

theorem put_tag (entry : Tagged) (target : Nat) (changed : Graph) :
    (entry.put target changed).tag = entry.tag := by
  unfold put
  split
  · rename_i same
    exact same.symm
  · split <;> rfl

theorem put_avoids {entry : Tagged} (inside : changed.Avoids tag)
    (avoids : entry.graph.Avoids tag) : (entry.put target changed).graph.Avoids tag := by
  unfold put
  split
  · exact inside
  · split
    · rename_i loop found
      exact inside.body (changed.held_subset (List.mem_of_find?_eq_some found))
    · exact Graph.avoids_revise (Graph.keepsAvoiding_shows inside target) _ avoids

theorem seenWith_avoids {entry : Tagged} (inside : changed.Avoids tag)
    (avoids : entry.graph.Avoids tag) : (entry.seenWith target changed).Avoids tag := by
  unfold seenWith
  split
  · exact inside
  · exact Graph.avoids_revise (keepsAvoiding_withBody target inside) _ avoids

/-- Only a change to the graph of the tag itself can bring numbers in or take them away. -/
theorem continues_put (before : graph.Continues next) (inside : changed.Avoids tag)
    (own : target = tag → graph.Continues changed) :
    graph.Continues (Tagged.put target changed ⟨tag, next⟩).graph := by
  by_cases same : tag = target
  · rw [put, if_pos same]
    exact own same.symm
  · have notHeld : (changed.held.find? fun loop => loop.tag == tag) = none := by
      rw [List.find?_eq_none]
      intro loop member
      simpa using inside loop (changed.held_subset member)
    simp only [put, if_neg same, notHeld]
    apply before.trans
    exact .of_same_ids before.tidy (next.ids_revise _) (next.nextId_revise _)

/-- The graph of an entry holds no loop of the tag, and an entry of that tag is the
graph that the tag stands for. -/
structure Fits (tag : Nat) (graph : Graph) (entry : Tagged) : Prop where
  avoids : entry.graph.Avoids tag
  own : entry.tag = tag → entry.graph = graph

namespace Fits

variable {entry : Tagged}

theorem of_other (avoids : entry.graph.Avoids tag) (other : entry.tag ≠ tag) :
    entry.Fits tag graph :=
  ⟨avoids, fun same => absurd same other⟩

theorem put (fits : entry.Fits tag graph) (inside : changed.Avoids tag) :
    (entry.put target changed).Fits tag (Tagged.put target changed ⟨tag, graph⟩).graph where
  avoids := put_avoids inside fits.avoids
  own := by
    intro same
    rw [put_tag] at same
    rw [← fits.own same, ← same]

theorem bodyAt (fits : entry.Fits tag graph) {path : List NodeId} {body : Tagged}
    (read : entry.bodyAt path = .ok body) : body.Fits tag graph := by
  induction path generalizing entry with
  | nil =>
      cases read
      exact fits
  | cons id rest induction =>
      unfold Tagged.bodyAt at read
      split at read
      · cases read
      · rename_i node found
        split at read
        · rename_i loop content
          have held := (Graph.avoids_iff.mp fits.avoids node (Graph.mem_of_find? found).1).content
          rw [content, Value.avoids_loop] at held
          exact induction (of_other held.2 held.1) read
        · cases read

theorem continues (fits : entry.Fits tag graph) (tidy : graph.Tidy)
    (develops : entry.graph.Develops tag changed) (same : entry.tag = tag) :
    graph.Continues changed := by
  rw [fits.own same] at develops
  exact develops.continues tidy

end Fits

end Tagged

end Tags

/-- The graphs of a transaction hold no loop of the tag. -/
structure Transaction.Avoids (tag : Nat) (transaction : Transaction) : Prop where
  entry : transaction.entry.graph.Avoids tag
  saved : transaction.saved.Avoids tag

/-- A transaction later on: it is about the same graph, and its copy has the same numbers
and the same counter. -/
structure Transaction.Alike (transaction later : Transaction) : Prop where
  tag : later.entry.tag = transaction.entry.tag
  ids : later.saved.ids = transaction.saved.ids
  counter : later.saved.nextId = transaction.saved.nextId

theorem Transaction.Alike.trans {first middle last : Transaction} (before : first.Alike middle)
    (after : middle.Alike last) : first.Alike last :=
  ⟨after.tag.trans before.tag, after.ids.trans before.ids, after.counter.trans before.counter⟩

theorem alike_same (transactions : List Transaction) :
    List.Forall₂ Transaction.Alike transactions transactions :=
  List.forall₂_same.mpr fun _ _ => ⟨rfl, rfl, rfl⟩

theorem alike_map {change : Transaction → Transaction}
    (alike : ∀ transaction : Transaction, transaction.Alike (change transaction))
    (transactions : List Transaction) :
    List.Forall₂ Transaction.Alike transactions (transactions.map change) :=
  List.forall₂_map_right_iff.mpr (List.forall₂_same.mpr fun transaction _ => alike transaction)

theorem alike_trans {first middle last : List Transaction}
    (before : List.Forall₂ Transaction.Alike first middle)
    (after : List.Forall₂ Transaction.Alike middle last) :
    List.Forall₂ Transaction.Alike first last := by
  induction before generalizing last with
  | nil => exact after
  | cons here _ induction =>
      cases after with
      | cons now later => exact .cons (here.trans now) (induction later)

namespace Session

/-- A name stands for a graph whose tag is its own: no other name has it, and no loop of
that tag occurs in the session. -/
structure Houses (session : Session) (name : String) (tag : Nat) (graph : Graph) : Prop where
  known : session.graphs.lookup name = some ⟨tag, graph⟩
  issued : tag < session.nextTag
  own : ∀ item ∈ session.graphs, item.1 ≠ name → item.2.tag ≠ tag
  held : ∀ item ∈ session.graphs, item.2.graph.Avoids tag
  pending : ∀ transaction ∈ session.transactions, transaction.Avoids tag

/-- A session later on: the name stands for a later state of the graph, and the same
transactions are under way. -/
def LeadsTo (name : String) (tag : Nat) (graph : Graph) (session later : Session) : Prop :=
  ∃ next, later.Houses name tag next ∧ graph.Continues next ∧
    List.Forall₂ Transaction.Alike session.transactions later.transactions

variable {session middle later : Session} {entry : Tagged}

theorem LeadsTo.refl (houses : session.Houses name tag graph) (tidy : graph.Tidy) :
    session.LeadsTo name tag graph session :=
  ⟨graph, houses, .refl tidy, alike_same _⟩

theorem LeadsTo.after (second : middle.LeadsTo name tag next later)
    (before : graph.Continues next)
    (alike : List.Forall₂ Transaction.Alike session.transactions middle.transactions) :
    session.LeadsTo name tag graph later := by
  obtain ⟨last, housed, after, alikeAfter⟩ := second
  exact ⟨last, housed, before.trans after, alike_trans alike alikeAfter⟩

theorem LeadsTo.trans (first : session.LeadsTo name tag graph middle)
    (second : ∀ next : Graph, middle.Houses name tag next → next.Tidy →
      middle.LeadsTo name tag next later) : session.LeadsTo name tag graph later := by
  obtain ⟨next, housed, before, alike⟩ := first
  exact (second next housed before.tidy).after before alike

namespace Houses

theorem raise (houses : session.Houses name tag graph) {nextTag : Nat}
    (further : session.nextTag ≤ nextTag) :
    ({ session with nextTag := nextTag } : Session).Houses name tag graph :=
  { houses with issued := houses.issued.trans_le further }

theorem graphNamed (houses : session.Houses name tag graph) :
    session.graphNamed name = ⟨tag, graph⟩ := by
  simp [Session.graphNamed, houses.known]

theorem fits_graphNamed (houses : session.Houses name tag graph) (other : String) :
    (session.graphNamed other).Fits tag graph := by
  by_cases same : other = name
  · rw [same, houses.graphNamed]
    exact ⟨houses.held _ (mem_of_lookup houses.known), fun _ => rfl⟩
  · cases known : session.graphs.lookup other with
    | none =>
        simp only [Session.graphNamed, known, Option.getD_none]
        exact .of_other Graph.avoids_empty houses.issued.ne'
    | some entry =>
        simp only [Session.graphNamed, known, Option.getD_some]
        have member := mem_of_lookup known
        exact .of_other (houses.held _ member) (houses.own _ member same)

theorem fits_read (houses : session.Houses name tag graph) {place : Place}
    (read : session.read place = .ok entry) : entry.Fits tag graph :=
  (houses.fits_graphNamed place.name).bodyAt read

theorem introduce (houses : session.Houses name tag graph) (other : String) :
    (session.introduce other).Houses name tag graph := by
  unfold Session.introduce
  split
  · exact houses
  · rename_i unknown
    refine ⟨?_, houses.issued.trans (Nat.lt_succ_self _), ?_, ?_, houses.pending⟩
    · simp [List.lookup_append, houses.known]
    · simp only [List.forall_mem_append, List.forall_mem_singleton]
      exact ⟨houses.own, fun _ => houses.issued.ne'⟩
    · simp only [List.forall_mem_append, List.forall_mem_singleton]
      exact ⟨houses.held, Graph.avoids_empty⟩

/-- A change of every graph of the session that keeps the tags. -/
theorem map (houses : session.Houses name tag graph) {onEntry : Tagged → Tagged}
    {onTransaction : Transaction → Transaction}
    (tags : ∀ entry, (onEntry entry).tag = entry.tag)
    (held : ∀ entry, entry.graph.Avoids tag → (onEntry entry).graph.Avoids tag)
    (pending : ∀ transaction, transaction.Avoids tag → (onTransaction transaction).Avoids tag) :
    ({ session with
      graphs := session.graphs.map fun item => (item.1, onEntry item.2)
      transactions := session.transactions.map onTransaction } : Session).Houses name tag
        (onEntry ⟨tag, graph⟩).graph where
  known := by
    have sameTag := tags ⟨tag, graph⟩
    rw [lookup_map_snd, houses.known, Option.map_some]
    generalize onEntry ⟨tag, graph⟩ = revised at sameTag
    obtain ⟨found, other⟩ := revised
    cases sameTag
    rfl
  issued := houses.issued
  own := by
    rw [List.forall_mem_map]
    intro item member different
    rw [tags]
    exact houses.own item member different
  held := by
    rw [List.forall_mem_map]
    intro item member
    exact held item.2 (houses.held item member)
  pending := by
    rw [List.forall_mem_map]
    intro transaction member
    exact pending transaction (houses.pending transaction member)

theorem put (houses : session.Houses name tag graph) (inside : changed.Avoids tag) :
    (session.put target changed).Houses name tag
      (Tagged.put target changed.settled ⟨tag, graph⟩).graph := by
  apply houses.map
  · intro entry
    exact entry.put_tag target changed.settled
  · intro entry avoids
    exact Tagged.put_avoids inside.settled avoids
  · intro transaction avoids
    exact ⟨Tagged.put_avoids inside.settled avoids.entry,
      Graph.avoids_revise (Graph.keepsAvoiding_shows inside.settled target) _ avoids.saved⟩

theorem revise (houses : session.Houses name tag graph) {change : Loop → Option Loop}
    (keeps : KeepsAvoiding tag change) :
    (session.revise change).Houses name tag (graph.revise change) := by
  let onEntry := fun entry : Tagged => (⟨entry.tag, entry.graph.revise change⟩ : Tagged)
  refine houses.map (fun entry => (rfl : (onEntry entry).tag = entry.tag)) ?_ ?_
  · intro entry avoids
    exact Graph.avoids_revise keeps _ avoids
  · intro transaction avoids
    exact ⟨Graph.avoids_revise keeps _ avoids.entry, Graph.avoids_revise keeps _ avoids.saved⟩

/-- Another name may come to stand for a copy of a graph. -/
theorem copy (houses : session.Houses name tag graph) (inside : changed.Avoids tag)
    {other : String} (different : other ≠ name) :
    (session.copy changed other).Houses name tag graph := by
  have tags := changed.renew_tags (session.nextTag + 1)
  have copied : (changed.renew (session.nextTag + 1)).1.Avoids tag :=
    inside.renew (houses.issued.trans (Nat.lt_succ_self _))
  refine ⟨?_, ?_, ?_, ?_, houses.pending⟩
  · exact (lookup_assign other name _ session.graphs).trans
      ((if_neg different.symm).trans houses.known)
  · exact (houses.issued.trans (Nat.lt_succ_self _)).trans_le tags.1
  · intro item member
    rcases Graph.mem_assign member with old | new
    · exact houses.own item old
    · rw [new]
      exact fun _ => houses.issued.ne'
  · intro item member
    rcases Graph.mem_assign member with old | new
    · exact houses.held item old
    · rw [new]
      exact copied

theorem begin (houses : session.Houses name tag graph) (fits : entry.Fits tag graph) :
    (session.begin entry).Houses name tag graph := by
  have further := (entry.graph.renew_tags session.nextTag).1
  refine ⟨houses.known, houses.issued.trans_le further, houses.own, houses.held, ?_⟩
  refine List.forall_mem_cons.mpr ⟨⟨fits.avoids, ?_⟩, houses.pending⟩
  exact fits.avoids.renew houses.issued

end Houses

section Steps

theorem alike_put (session : Session) (target : Nat) (changed : Graph) :
    List.Forall₂ Transaction.Alike session.transactions
      (session.put target changed).transactions := by
  apply alike_map
  intro transaction
  exact ⟨transaction.entry.put_tag target changed.settled, transaction.saved.ids_revise _,
    transaction.saved.nextId_revise _⟩

/-- What a change to the graph of the tag itself leaves, its own results included. -/
theorem continues_settled (own : target = tag → graph.Continues changed) :
    target = tag → graph.Continues changed.settled := by
  intro same
  have continues := own same
  exact continues.trans ((@Graph.develops_settled tag changed).continues continues.tidy)

theorem leadsTo_put (houses : session.Houses name tag next) (before : graph.Continues next)
    (inside : changed.Avoids tag) (own : target = tag → graph.Continues changed) :
    session.LeadsTo name tag graph (session.put target changed) :=
  ⟨_, houses.put inside, Tagged.continues_put before inside.settled (continues_settled own),
    session.alike_put target changed⟩

theorem leadsTo_revise (houses : session.Houses name tag graph) (tidy : graph.Tidy)
    {change : Loop → Option Loop} (keeps : KeepsAvoiding tag change) :
    session.LeadsTo name tag graph (session.revise change) := by
  refine ⟨_, houses.revise keeps, ?_, alike_map ?_ _⟩
  · exact .of_same_ids tidy (graph.ids_revise _) (graph.nextId_revise _)
  · intro transaction
    exact ⟨rfl, transaction.saved.ids_revise _, transaction.saved.nextId_revise _⟩

section CopyInto

variable {destination : Graph} {source : Graph → Graph} {targets : String → Option Target}

theorem nextTag_copyInto :
    session.nextTag ≤ (session.copyInto destination source targets).1.nextTag :=
  (renewWhere_tags _ session.nextTag).1

/-- Copying brings no other tags in than those that it gives out. -/
theorem develops_copyInto
    (sourceAvoids : ∀ found : Graph, found.Avoids tag → (source found).Avoids tag)
    (outside : tag < session.nextTag ∨
      (session.copyInto destination source targets).1.nextTag ≤ tag) :
    destination.Develops tag (session.copyInto destination source targets).2.destination := by
  have spliced := @Graph.develops_spliceBlock tag source targets destination sourceAvoids
  refine spliced.trans ⟨?_, ?_⟩
  · intro avoids
    rw [Graph.avoids_iff] at avoids ⊢
    exact avoids_renewWhere outside avoids
  · intro tidy
    exact .of_same_ids tidy (ids_renewWhere session.nextTag _) rfl

end CopyInto

theorem alike_introduce (session : Session) (other : String) :
    List.Forall₂ Transaction.Alike session.transactions
      (session.introduce other).transactions := by
  unfold introduce
  split <;> exact alike_same _

theorem develops_added {kind : KindName} {content : Reading} {inputs : List NodeRef}
    (avoids : Reading.Avoids tag content) :
    graph.Develops tag (graph.outcomeOf (session.add graph kind content inputs)).graph := by
  cases added : session.add graph kind content inputs with
  | error fault => exact .refl graph
  | ok result =>
      obtain ⟨ids, _, afterInputs⟩ := bind_eq_ok.mp added
      cases kind with
      | capitals value => exact Graph.develops_addRead avoids afterInputs
      | written value => exact Graph.develops_addRead avoids afterInputs

theorem develops_reordered (graph : Graph) (order : List NodeId) :
    graph.Develops tag
      (graph.outcomeOf ((graph.reorder order).map fun changed => (changed, ()))).graph := by
  cases done : graph.reorder order with
  | error fault => exact .refl graph
  | ok changed => exact Graph.develops_reorder done

theorem develops_fused (session : Session) (graph : Graph) (keep remove : NodeRef) :
    graph.Develops tag (session.fuse graph keep remove).graph := by
  unfold fuse
  split
  · exact .refl graph
  · split
    · exact .refl graph
    · exact graph.develops_fuse _ _

variable (houses : session.Houses name tag graph) (tidy : graph.Tidy)
  (fits : entry.Fits tag graph)
include houses tidy fits

theorem leadsTo_change (develops : entry.graph.Develops tag changed) :
    session.LeadsTo name tag graph (session.put entry.tag changed) :=
  leadsTo_put houses (.refl tidy) (develops.avoids fits.avoids) (fits.continues tidy develops)

theorem leadsTo_changeCopy (develops : entry.graph.Develops tag changed) :
    session.LeadsTo name tag graph (session.putCopy entry.tag changed) :=
  leadsTo_change (houses.raise (changed.renew_tags session.nextTag).1) tidy fits
    (develops.trans (changed.develops_renew houses.issued))

theorem leadsTo_optimize {meaning : Interpretation} (given : meaning.Avoids tag)
    (policy : FoldPolicy) :
    session.LeadsTo name tag graph (session.optimize entry meaning policy).1 := by
  have develops : entry.graph.Develops tag (entry.graph.optimize meaning policy).graph :=
    Graph.develops_optimize given entry.graph
  unfold optimize
  dsimp only
  split
  · exact leadsTo_changeCopy houses tidy fits develops
  · exact leadsTo_change houses tidy fits develops

omit houses in
/-- The end of a transaction, after what was done in it. -/
theorem leadsTo_close (run : (session.begin entry).LeadsTo name tag graph later)
    (failed : Bool) : session.LeadsTo name tag graph (later.close failed).1 := by
  obtain ⟨next, housed, continues, alike⟩ := run
  cases stack : later.transactions with
  | nil =>
      rw [stack] at alike
      cases alike
  | cons transaction others =>
      rw [stack] at alike
      obtain ⟨first, rest⟩ := List.forall₂_cons.mp alike
      have pending := housed.pending
      rw [stack, List.forall_mem_cons] at pending
      have ended : ({ later with transactions := others } : Session).Houses name tag next :=
        { housed with pending := pending.2 }
      cases failed with
      | false =>
          simp only [close, stack]
          exact ⟨next, ended, continues, rest⟩
      | true =>
          simp only [close, stack]
          refine (leadsTo_put ended continues pending.1.saved ?_).after (.refl tidy) rest
          -- The copy that is put back has the numbers of the graph at the beginning.
          intro same
          have began : entry.graph = graph := fits.own (first.tag.symm.trans same)
          refine .of_same_ids tidy (first.ids.trans ?_) (first.counter.trans ?_)
          · exact (entry.graph.ids_renew session.nextTag).trans (congrArg Graph.ids began)
          · exact (entry.graph.nextId_renew session.nextTag).trans (congrArg Graph.nextId began)

theorem leadsTo_transact {α : Type} {reply : α → Reply} {block : Outcome α}
    (develops : entry.graph.Develops tag block.graph) :
    session.LeadsTo name tag graph (session.transact entry reply block).1 :=
  leadsTo_close tidy fits (leadsTo_change (houses.begin fits) tidy fits develops) _

theorem leadsTo_assign {id : NodeId} {inputs : Option (List NodeId)}
    {content result : Option Reading} {bindings : Option (List (NodeId × NodeId))}
    (contentAvoids : ∀ reading ∈ content, Reading.Avoids tag reading)
    (resultAvoids : ∀ reading ∈ result, Reading.Avoids tag reading) :
    session.LeadsTo name tag graph
      (session.assign entry id inputs content result bindings).1 := by
  have develops : entry.graph.Develops tag
      (entry.graph.assignFields id inputs content result).graph :=
    Graph.develops_assignFields (fun value given => contentAvoids _ given value rfl)
      (fun value given => resultAvoids _ given value rfl)
  have assigned := leadsTo_change houses tidy fits develops
  unfold assign
  dsimp only
  split
  · exact assigned
  · exact assigned
  · split
    · exact assigned.trans fun _ housed tidyNext =>
        leadsTo_revise housed tidyNext (keepsAvoiding_bindings _ _)
    · exact assigned

theorem leadsTo_spliceFrom {origin : Tagged} (originFits : origin.Fits tag graph)
    (targets : String → Option Target) :
    session.LeadsTo name tag graph (session.spliceFrom entry origin targets).1 := by
  have develops : origin.graph.Develops tag origin.graph.schedule.graph :=
    origin.graph.develops_schedule
  have inside := develops.avoids originFits.avoids
  -- The source is put in order first, wherever it is: it may be the graph itself.
  have housed := @Houses.put _ origin.tag _ _ _ _ houses inside
  have before := Tagged.continues_put (.refl tidy) inside.settled
    (continues_settled (originFits.continues tidy develops))
  refine LeadsTo.after ?_ before (session.alike_put origin.tag origin.graph.schedule.graph)
  unfold spliceFrom
  dsimp only
  split
  · exact .refl housed before.tidy
  · -- Then the destination, as it is after that, takes the copies.
    have placed := @Tagged.Fits.put _ origin.tag _ _ _ fits inside.settled
    refine @leadsTo_transact _ _ _ _ _ (housed.raise nextTag_copyInto) before.tidy placed _
      Reply.table ⟨_, _⟩ (develops_copyInto ?_ (.inl housed.issued))
    exact fun _ avoids => Tagged.seenWith_avoids avoids inside.settled

theorem leadsTo_splice {source : Place} {targets : List (String × NodeRef)} {response : Response}
    (done : session.splice entry source targets = .ok (later, response)) :
    session.LeadsTo name tag graph later := by
  obtain ⟨origin, read, afterRead⟩ := bind_eq_ok.mp done
  obtain ⟨resolved, _, spliced⟩ := bind_eq_ok.mp afterRead
  have lead := leadsTo_spliceFrom houses tidy fits (houses.fits_read read)
    fun name => (tabulate resolved).lookup name
  rwa [Except.ok.inj spliced] at lead

/-- One command without steps of its own. -/
theorem leadsTo_performOn {command : Command} (spares : command.Spares name tag) :
    session.LeadsTo name tag graph (session.performOn entry command).1 := by
  cases command with
  | build nodes exits =>
      rw [Command.Spares] at spares
      exact leadsTo_change houses tidy fits (Graph.develops_build entry.graph exits spares)
  | add kind content inputs =>
      rw [Command.Spares] at spares
      exact leadsTo_change houses tidy fits (develops_added spares)
  | assign id inputs content result bindings =>
      rw [Command.Spares] at spares
      exact leadsTo_assign houses tidy fits spares.1 spares.2
  | exit exitName id =>
      cases id with
      | some id => exact leadsTo_change houses tidy fits (Graph.develops_exits rfl rfl)
      | none => exact leadsTo_change houses tidy fits (Graph.develops_exits rfl rfl)
  | reorder order => exact leadsTo_change houses tidy fits (develops_reordered entry.graph order)
  | remove ids => exact leadsTo_change houses tidy fits (Graph.develops_remove entry.graph ids)
  | copy other =>
      rw [Command.Spares] at spares
      exact ⟨graph, houses.copy fits.avoids spares, .refl tidy, alike_same _⟩
  | split => exact leadsTo_change houses tidy fits (Graph.develops_splitNested _ entry.graph)
  | prune => exact leadsTo_transact houses tidy fits (Graph.develops_pruneBlock entry.graph)
  | schedule => exact leadsTo_change houses tidy fits (Graph.develops_schedule entry.graph)
  | fuse keep remove => exact leadsTo_change houses tidy fits (session.develops_fused _ keep remove)
  | foldConstants meaning policy =>
      rw [Command.Spares] at spares
      exact leadsTo_transact houses tidy fits (develops_foldBlock spares _ entry.graph)
  | optimize meaning policy =>
      rw [Command.Spares] at spares
      exact leadsTo_optimize houses tidy fits spares policy
  | evaluate meaning scope =>
      rw [Command.Spares] at spares
      exact leadsTo_change houses tidy fits
        (Graph.develops_evaluate spares.1 spares.2 entry.graph)
  | splice source targets =>
      have opened := houses.introduce source.name
      simp only [performOn]
      split
      · rename_i found done
        exact (leadsTo_splice opened tidy fits done).after (.refl tidy) (alike_introduce _ _)
      · exact ⟨graph, opened, .refl tidy, alike_introduce _ _⟩
  | _ => exact .refl houses tidy

end Steps

theorem leadsTo_perform_single (houses : session.Houses name tag graph) (tidy : graph.Tidy)
    {place : Place} {command : Command} (spares : command.Spares name tag)
    (single : ∀ steps fails, command ≠ .transaction steps fails)
    (unhandled : ∀ steps, command ≠ .handle steps) :
    session.LeadsTo name tag graph (session.perform place command).1 := by
  have opened := houses.introduce place.name
  rw [perform]
  rotate_left
  · exact single
  · exact unhandled
  split
  · exact ⟨graph, opened, .refl tidy, alike_introduce _ _⟩
  · rename_i entry read
    exact (leadsTo_performOn opened tidy (opened.fits_read read) spares).after (.refl tidy)
      (alike_introduce _ _)

mutual

theorem leadsTo_perform {session : Session} {graph : Graph} {place : Place} (command : Command)
    (spares : command.Spares name tag) (houses : session.Houses name tag graph)
    (tidy : graph.Tidy) :
    session.LeadsTo name tag graph (session.perform place command).1 := by
  cases command with
  | transaction steps fails =>
      have opened := houses.introduce place.name
      rw [Command.Spares] at spares
      rw [perform]
      dsimp only
      split
      · exact ⟨graph, opened, .refl tidy, alike_introduce _ _⟩
      · rename_i entry read
        have fits := opened.fits_read read
        have run := leadsTo_performAll steps spares (opened.begin fits) tidy
        exact (leadsTo_close tidy fits run _).after (.refl tidy) (alike_introduce _ _)
  | handle steps =>
      rw [Command.Spares] at spares
      rw [perform]
      exact leadsTo_performAll steps spares houses tidy
  | _ => exact leadsTo_perform_single houses tidy spares (by simp) (by simp)

theorem leadsTo_performAll {session : Session} {graph : Graph} (steps : List Step)
    (spare : stepsSpare name tag steps) (houses : session.Houses name tag graph)
    (tidy : graph.Tidy) :
    session.LeadsTo name tag graph (session.performAll steps).1 := by
  cases steps with
  | nil =>
      rw [performAll]
      exact .refl houses tidy
  | cons step rest =>
      obtain ⟨place, command⟩ := step
      rw [stepsSpare] at spare
      have first := @leadsTo_perform _ _ place command spare.1 houses tidy
      rw [performAll]
      dsimp only
      split
      · exact first
      · exact first.trans fun _ housed tidyNext => leadsTo_performAll rest spare.2 housed tidyNext

end

/-- The session after some steps, whatever they answer. -/
def after (session : Session) (steps : List Step) : Session :=
  steps.foldl (fun found step => (found.perform step.place step.command).1) session

theorem leadsTo_after {steps : List Step}
    (spare : ∀ step ∈ steps, step.command.Spares name tag)
    (houses : session.Houses name tag graph) (tidy : graph.Tidy) :
    session.LeadsTo name tag graph (session.after steps) := by
  induction steps generalizing session graph with
  | nil => exact .refl houses tidy
  | cons step rest induction =>
      rw [List.forall_mem_cons] at spare
      exact (leadsTo_perform step.command spare.1 houses tidy).trans fun _ housed tidyNext =>
        induction spare.2 housed tidyNext

/-- What the graph of a name is after some steps. -/
def stateAfter (session : Session) (name : String) (steps : List Step) : Graph :=
  ((session.after steps).graphNamed name).graph

theorem after_append (session : Session) (first second : List Step) :
    session.after (first ++ second) = (session.after first).after second :=
  List.foldl_append

/-- A graph that starts empty, in every state that steps lead to: each number finds the
one node that has it and is below the counter, the counter does not go back, and a number
that was there and is gone never comes back. -/
theorem numbers_used_once {first second third : List Step}
    (houses : session.Houses name tag Graph.empty)
    (spare : ∀ step ∈ first ++ second ++ third, step.command.Spares name tag) :
    (∀ id node, (session.stateAfter name first).find? id = some node ↔
      node ∈ (session.stateAfter name first).nodes ∧ node.id = id) ∧
    (∀ id ∈ (session.stateAfter name first).ids,
      id < (session.stateAfter name first).nextId) ∧
    (session.stateAfter name first).nextId ≤
      (session.stateAfter name (first ++ second)).nextId ∧
    ∀ id ∈ (session.stateAfter name first).ids,
      id ∉ (session.stateAfter name (first ++ second)).ids →
        id ∉ (session.stateAfter name (first ++ second ++ third)).ids := by
  rw [List.forall_mem_append, List.forall_mem_append] at spare
  have empty : Graph.empty.Tidy :=
    ⟨List.nodup_nil, by simp [Graph.Numbered, Graph.ids, Graph.empty]⟩
  obtain ⟨early, earlyHoused, started, _⟩ := leadsTo_after spare.1.1 houses empty
  obtain ⟨between, betweenHoused, before, _⟩ :=
    leadsTo_after spare.1.2 earlyHoused started.tidy
  obtain ⟨late, lateHoused, rest, _⟩ := leadsTo_after spare.2 betweenHoused before.tidy
  simp only [stateAfter, after_append, earlyHoused.graphNamed, betweenHoused.graphNamed,
    lateHoused.graphNamed]
  refine ⟨?_, started.tidy.numbered, before.counter, ?_⟩
  · intro id node
    constructor
    · exact Graph.mem_of_find?
    · intro found
      obtain ⟨member, same⟩ := found
      exact same ▸ Graph.find?_of_mem started.tidy.distinct member
  · intro id once gone
    exact before.absent started.tidy rest once gone

end Session

section Sample

/-- Every operation gives four, and nothing else is known. -/
def fourAlways : Interpretation where
  call := fun _ _ => .ok (.int 4)
  lookup := fun name => .error (.unresolvedName name)
  element := fun _ _ => .error .wrongType
  field := fun _ _ => .error .missingField

/-- Two graphs, the first of them with three nodes. -/
def openingSteps : List Step :=
  [⟨⟨"flow", []⟩, .build [⟨.ok (.text "constant"), .ok (.int 4), []⟩,
      ⟨.ok (.text "constant"), .ok (.int 5), []⟩, ⟨.ok (.text "call"), .ok (.text "max"), [0]⟩] []⟩,
    ⟨⟨"part", []⟩, .build [⟨.ok (.text "constant"), .ok (.int 6), []⟩] []⟩]

/-- A transaction on the first graph that rolls back, then a removal. -/
def tornSteps : List Step :=
  [⟨⟨"flow", []⟩, .transaction [⟨⟨"flow", []⟩, .remove [0, 2]⟩,
      ⟨⟨"flow", []⟩, .add (.written (.ok (.text "constant"))) (.ok (.int 7)) []⟩] true⟩,
    ⟨⟨"flow", []⟩, .remove [1]⟩]

/-- A splice, a removal that fails and an evaluation. -/
def closingSteps : List Step :=
  [⟨⟨"flow", []⟩, .splice ⟨"part", []⟩ []⟩, ⟨⟨"flow", []⟩, .remove [1]⟩,
    ⟨⟨"flow", []⟩, .evaluate fourAlways fun _ => none⟩]

/-- The number of the node that was removed is not given to the one that is spliced in. -/
theorem tornSteps_numbers :
    ((Session.start 3).introduce "flow").Houses "flow" 3 Graph.empty ∧
    (∀ step ∈ openingSteps ++ tornSteps ++ closingSteps, step.command.Spares "flow" 3) ∧
    (((Session.start 3).introduce "flow").stateAfter "flow" openingSteps).ids = [0, 1, 2] ∧
    (((Session.start 3).introduce "flow").stateAfter "flow"
      (openingSteps ++ tornSteps)).ids = [0, 2] ∧
    (((Session.start 3).introduce "flow").stateAfter "flow"
      (openingSteps ++ tornSteps ++ closingSteps)).ids = [0, 3, 2] ∧
    1 ∉ (((Session.start 3).introduce "flow").stateAfter "flow"
      (openingSteps ++ tornSteps ++ closingSteps)).ids := by
  have houses : ((Session.start 3).introduce "flow").Houses "flow" 3 Graph.empty := by
    constructor <;> simp [Session.introduce, Session.start, Graph.avoids_empty]
  have spare : ∀ step ∈ openingSteps ++ tornSteps ++ closingSteps,
      step.command.Spares "flow" 3 := by
    have plain : fourAlways.Avoids 3 := by
      constructor <;> simp [fourAlways, Value.Avoids, Value.loops]
    simp [openingSteps, tornSteps, closingSteps, Command.Spares, stepsSpare, Reading.Avoids,
      Value.Avoids, Value.loops, Scope.Avoids, plain]
  have early : (((Session.start 3).introduce "flow").stateAfter "flow" openingSteps).ids =
      [0, 1, 2] := by decide +kernel
  have torn : (((Session.start 3).introduce "flow").stateAfter "flow"
      (openingSteps ++ tornSteps)).ids = [0, 2] := by decide +kernel
  refine ⟨houses, spare, early, torn, by decide +kernel, ?_⟩
  exact (Session.numbers_used_once houses spare).2.2.2 1 (by simp [early]) (by simp [torn])

end Sample

end FlowGraph

import FlowGraph.Proofs.Optimization
import FlowGraph.Proofs.FusionGuard
import FlowGraph.Proofs.Splicing

/-!
# Operations keep graphs well-formed

Each operation on a graph is shown to keep soundness: adding and splicing put
nodes after those that they need, merging lets no node depend on itself, and the
passes leave dependencies where they were or drop them.  So every graph that is
built from the empty one is sound.
-/

namespace FlowGraph

namespace Graph

theorem valid_of_formed {graph : Graph} (formed : graph.Everywhere Formed) :
    graph.validate = .ok () := by
  refine valid_of_consistent (formed.mono fun _ inBody => ?_)
  exact ⟨inBody.toEvaluable.closed, inBody.keys, inBody.plain⟩

theorem wellFormed_of_formed {graph : Graph} (formed : graph.Everywhere Formed) :
    graph.WellFormed where
  valid := valid_of_formed formed
  distinct := formed.mono fun _ holds => holds.distinct
  acyclic := formed.mono fun _ holds => holds.acyclic
  loops := formed.mono fun _ holds node member =>
    ⟨holds.carried node member, fun ⟨loop, content⟩ => holds.plain node member loop content⟩
  externalKeys := by
    intro path body reached node member loop content binding bound
    have holds := formed path body reached
    have runs := Node.loop?_eq_some.mpr ⟨holds.plain node member loop content, content⟩
    obtain ⟨target, found, external⟩ := holds.externalKeys node member loop runs binding bound
    obtain ⟨inside, same⟩ := mem_of_find? found
    exact ⟨target, inside, same, external⟩

/-- Soundness is a property of each graph of the nest. -/
theorem sound_iff {graph : Graph} :
    graph.Sound ↔ graph.Everywhere Formed ∧ graph.Everywhere Numbered :=
  ⟨fun sound => ⟨sound.wellFormed.formed, sound.numbered⟩,
    fun ⟨formed, numbered⟩ => ⟨wellFormed_of_formed formed, numbered⟩⟩

namespace Sound

variable {graph : Graph}

theorem formed (sound : graph.Sound) : graph.Everywhere Formed :=
  sound.wellFormed.formed

theorem inside (sound : graph.Sound) (path : List NodeId) {body : Graph}
    (reached : graph.within? path = some body) : body.Sound :=
  sound_iff.mpr ⟨sound.formed.inside reached, sound.numbered.inside reached⟩

theorem body (sound : graph.Sound) {id : NodeId} {node : Node} {loop : Loop}
    (found : graph.find? id = some node) (runs : node.loop? = some loop) : loop.body.Sound :=
  sound_iff.mpr ⟨sound.formed.body found runs, sound.numbered.body found runs⟩

/-- Soundness of a graph from that of the bodies of its loops. -/
theorem of_bodies (formed : graph.Formed) (numbered : graph.Numbered)
    (bodies : ∀ id node loop, graph.find? id = some node → node.loop? = some loop →
      loop.body.Sound) : graph.Sound :=
  sound_iff.mpr ⟨everywhere_iff.mpr ⟨formed, fun id node loop found runs =>
      (bodies id node loop found runs).formed⟩,
    everywhere_iff.mpr ⟨numbered, fun id node loop found runs =>
      (bodies id node loop found runs).numbered⟩⟩

end Sound

theorem Numbered.of_subset {graph other : Graph} (numbered : graph.Numbered)
    (ids : other.ids ⊆ graph.ids) (nextId : other.nextId = graph.nextId) : other.Numbered := by
  intro id present
  rw [nextId]
  exact numbered id (ids present)

theorem sound_empty : Graph.empty.Sound := by
  have ranked : Graph.empty.RankedBy fun _ => 0 := by
    intro node member
    cases member
  refine Sound.of_bodies ?_ ?_ ?_
  · constructor
    · constructor <;> simp [Graph.empty, Graph.ids]
      exact ranked.acyclic
    · simp [Graph.empty]
    · simp [Graph.empty]
  · intro id present
    cases present
  · intro id node loop found
    cases found

/-- External nodes are still found. -/
def KeepsExternals (graph other : Graph) : Prop :=
  ∀ id bound, graph.find? id = some bound → bound.kind = .external →
    ∃ found, other.find? id = some found ∧ found.kind = .external

theorem KeepsExternals.refl (graph : Graph) : graph.KeepsExternals graph :=
  fun _ bound found external => ⟨bound, found, external⟩

theorem keepsExternals_of_paired {graph other : Graph} {related : Loop → Loop → Prop}
    (paired : List.Forall₂ (Node.Resembles related) graph.nodes other.nodes) :
    graph.KeepsExternals other := by
  intro id bound found external
  obtain ⟨target, foundTarget, resembles⟩ :=
    exists_partner (find?_paired (fun _ _ => Node.Resembles.id) paired id) found
  exact ⟨target, foundTarget, resembles.kind.trans external⟩

end Graph

/-- A loop with the same bindings and a sound body that binds the same names. -/
structure Loop.Sustains (loop changed : Loop) : Prop where
  bindings : changed.bindings = loop.bindings
  sound : changed.body.Sound
  externals : loop.body.KeepsExternals changed.body

namespace Graph

/-- A graph that holds the nodes of a sound graph in some order is sound, when loops
are replaced by loops of the same bindings and of sound bodies. -/
theorem Sound.of_resembling {graph other : Graph} (sound : graph.Sound)
    (ids : other.ids.Perm graph.ids) (exits : other.exits = graph.exits)
    (nextId : other.nextId = graph.nextId)
    (origins : ∀ id changed, other.find? id = some changed →
      ∃ node, graph.find? id = some node ∧ node.Resembles Loop.Sustains changed) :
    other.Sound := by
  have formed := sound.formed.here
  have distinct : other.ids.Nodup := ids.nodup_iff.mpr formed.distinct
  have bindings : ∀ loop changed : Loop, loop.Sustains changed →
      changed.bindings ⊆ loop.bindings :=
    fun _ _ sustains => sustains.bindings ▸ List.Subset.refl _
  refine Sound.of_bodies ?_ (sound.numbered.here.of_subset ids.subset nextId) ?_
  · refine formed.of_resembling distinct origins ?_ ?_ bindings ?_
    · intro changed member id needed
      obtain ⟨node, inside, _, resembles⟩ := exists_resembled distinct origins member
      apply ids.mem_iff.mpr
      exact formed.linked node inside id (resembles.dependencies_subset bindings needed)
    · intro exit member
      rw [exits] at member
      exact ids.mem_iff.mpr (formed.exits exit member)
    · intro id node loop changed found runs sustains binding member
      rw [sustains.bindings] at member
      obtain ⟨bound, foundBound, external⟩ :=
        formed.externalKeys node (mem_of_find? found).1 loop runs binding member
      exact sustains.externals binding.1 bound foundBound external
  · intro id changed loop found runs
    obtain ⟨node, _, resembles⟩ := origins id changed found
    obtain ⟨_, _, sustains⟩ := resembles.exists_origin runs
    exact sustains.sound

section Order

variable {graph other : Graph}

theorem Sound.scheduled (sound : graph.Sound) (done : graph.scheduled = .ok other) :
    other.Sound := by
  have formed := sound.formed
  refine sound_iff.mpr ⟨formed_of_scheduled formed done, ?_⟩
  refine @everywhere_scheduled (fun body => body.Formed ∧ body.Numbered) Numbered
    (fun _ holds => holds.1.distinct) ?_ graph other
    (fun path body reached => ⟨formed path body reached, sound.numbered path body reached⟩) done
  intro body scheduled holds bodyDone
  have schedules := schedules_of_evaluable (holds.mono fun _ both => both.1.toEvaluable) bodyDone
  exact holds.here.2.of_subset schedules.ids.subset schedules.nextId

theorem Sound.sustained (sound : graph.Sound) {id : NodeId} {node : Node}
    (found : graph.find? id = some node) : node.Resembles Loop.Sustains node :=
  .refl fun loop runs => ⟨rfl, sound.body found runs, .refl loop.body⟩

theorem ids_reorder {order : List NodeId} (present : order ⊆ graph.ids) :
    (order.filterMap graph.find?).map Node.id = order := by
  induction order with
  | nil => rfl
  | cons id rest induction =>
      obtain ⟨node, found⟩ := exists_find? (present List.mem_cons_self)
      have same := (mem_of_find? found).2
      have others := induction fun other member => present (List.mem_cons_of_mem id member)
      simp [found, same, others]

theorem Sound.reorder (sound : graph.Sound) {order : List NodeId}
    (done : graph.reorder order = .ok other) : other.Sound := by
  unfold Graph.reorder at done
  split at done
  · rename_i isPerm
    cases done
    have permutation := List.isPerm_iff.mp isPerm
    refine sound.of_resembling ?_ rfl rfl ?_
    · exact (List.Perm.of_eq (ids_reorder permutation.subset)).trans permutation
    · intro id node found
      have arranged := found.symm.trans (find?_arrange graph.nodes order id)
      split at arranged
      · exact ⟨node, arranged.symm, sound.sustained arranged.symm⟩
      · cases arranged
  · cases done

end Order

end Graph

/-- A loop as a run leaves it: its body was run, or the run stopped before it. -/
structure Loop.RunTo (meaning : Interpretation) (loop changed : Loop) : Prop where
  index : changed.index = loop.index
  bindings : changed.bindings = loop.bindings
  body : changed.body = loop.body ∨ ∃ scope, changed.body = (loop.body.run meaning scope).graph

theorem Node.resembles_run {related : Loop → Loop → Prop} {node : Node} {loop changed : Loop}
    (runs : node.loop? = some loop) (relates : related loop changed) (result : Value) :
    node.Resembles related { node with content := .loop changed, result := result } := by
  refine ⟨rfl, rfl, rfl, ?_, ?_⟩
  · intro noLoop
    cases noLoop.symm.trans runs
  · intro held runsHeld
    cases runs.symm.trans runsHeld
    exact ⟨changed, Node.loop?_eq_some.mpr ⟨(Node.loop?_eq_some.mp runs).1, rfl⟩, relates⟩

/-- A run changes nothing but results and the bodies of loops, wherever it stops. -/
theorem runNodes_resembles {meaning : Interpretation} {scope : Scope} {done nodes : List Node} :
    ∃ others, (runNodes meaning scope done nodes).1 = done ++ others ∧
      List.Forall₂ (Node.Resembles (Loop.RunTo meaning)) nodes others := by
  have unrun : ∀ nodes : List Node,
      List.Forall₂ (Node.Resembles (Loop.RunTo meaning)) nodes nodes :=
    fun nodes => List.forall₂_same.mpr fun _ _ => .refl fun _ _ => ⟨rfl, rfl, .inl rfl⟩
  induction nodes generalizing done with
  | nil => exact ⟨[], by simp [runNodes], .nil⟩
  | cons node rest induction =>
      cases runs : node.loop? with
      | none =>
          rw [runNodes_plain runs]
          split
          · exact ⟨node :: rest, rfl, unrun _⟩
          · rename_i value _
            obtain ⟨others, same, paired⟩ := @induction (done ++ [{ node with result := value }])
            refine ⟨{ node with result := value } :: others, by simp [same], .cons ?_ paired⟩
            refine ⟨rfl, rfl, rfl, fun _ => rfl, fun loop isLoop => ?_⟩
            cases runs.symm.trans isLoop
      | some loop =>
          rw [runNodes_loop runs]
          split
          · exact ⟨node :: rest, rfl, unrun _⟩
          · rename_i inner _
            let body := (loop.body.run meaning inner).graph
            have ran : loop.RunTo meaning { loop with body := body } :=
              ⟨rfl, rfl, .inr ⟨inner, rfl⟩⟩
            dsimp only
            split
            · exact ⟨_, rfl, .cons (Node.resembles_run runs ran node.result) (unrun rest)⟩
            · obtain ⟨others, same, paired⟩ := @induction
                (done ++ [{ node with content := .loop { loop with body := body }, result := .null }])
              exact ⟨_ :: others, by simpa using same,
                .cons (Node.resembles_run runs ran .null) paired⟩

namespace Graph

theorem run_resembles (meaning : Interpretation) (scope : Scope) (graph : Graph) :
    List.Forall₂ (Node.Resembles (Loop.RunTo meaning)) graph.nodes
      (graph.run meaning scope).graph.nodes := by
  obtain ⟨nodes, exits, nextId⟩ := graph
  obtain ⟨others, same, paired⟩ := @runNodes_resembles meaning scope [] nodes
  rw [List.nil_append] at same
  simp only [run]
  exact same ▸ paired

theorem Sound.run {graph : Graph} (sound : graph.Sound) (meaning : Interpretation)
    (scope : Scope) : (graph.run meaning scope).graph.Sound := by
  induction graph using bodyInduction generalizing scope with
  | step graph induction =>
      have paired := run_resembles meaning scope graph
      have partners : ∀ id, Option.Rel (Node.Resembles (Loop.RunTo meaning)) (graph.find? id)
          ((graph.run meaning scope).graph.find? id) :=
        find?_paired (fun _ _ => Node.Resembles.id) paired
      refine sound.of_resembling (.of_eq (ids_paired (fun _ _ => Node.Resembles.id) paired)) ?_ ?_ ?_
      · cases graph
        rfl
      · cases graph
        rfl
      · intro id other found
        obtain ⟨node, foundNode, resembles⟩ := exists_partnered (partners id) found
        refine ⟨node, foundNode, resembles.mono fun loop changed runs ran => ?_⟩
        have bodySound := sound.body foundNode runs
        refine ⟨ran.bindings, ?_, ?_⟩
        · rcases ran.body with same | ⟨inner, same⟩
          · exact same ▸ bodySound
          · exact same ▸ induction node (mem_of_find? foundNode).1 loop runs bodySound inner
        · rcases ran.body with same | ⟨inner, same⟩
          · exact same ▸ .refl loop.body
          · exact same ▸ keepsExternals_of_paired (run_resembles meaning inner loop.body)

theorem Sound.evaluate {graph : Graph} (sound : graph.Sound) (meaning : Interpretation)
    (scope : Scope) : (graph.evaluate meaning scope).graph.Sound := by
  rw [Graph.evaluate_eq]
  split
  · rename_i scheduled done
    exact (sound.scheduled done).run meaning scope
  · exact sound

section Passes

variable {graph other : Graph}

theorem Sound.pruned (sound : graph.Sound) {count : Nat}
    (done : graph.pruned = .ok (other, count)) : other.Sound := by
  refine sound_iff.mpr ⟨formed_of_pruned sound.formed done, ?_⟩
  induction graph using bodyInduction generalizing other count with
  | step graph induction =>
      have prunes := prunesTo_of_pruned sound.formed.evaluable done
      refine everywhere_of_origins prunes.origins
        (sound.numbered.here.of_subset prunes.ids.subset prunes.nextId) ?_
      intro id node loop changed found runs related
      obtain ⟨_, bodyDone⟩ := related.body
      exact induction node (mem_of_find? found).1 loop runs (sound.body found runs) bodyDone

theorem Sound.prune (sound : graph.Sound) {count : Nat} (done : graph.prune.answer = .ok count) :
    graph.prune.graph.Sound :=
  sound.pruned (prune_eq_ok done)

theorem Sound.schedule (sound : graph.Sound) (done : graph.schedule.answer = .ok ()) :
    graph.schedule.graph.Sound :=
  sound.scheduled (schedule_eq_ok done)

/-- Splitting does not ask what operations mean: any meaning may be assumed. -/
theorem Sound.split (sound : graph.Sound) {count : Nat} (done : graph.split.answer = .ok count) :
    graph.split.graph.Sound := by
  have regroups : knowingNothing.Regroups := by
    intro name _ first second third rest value computed
    cases computed
  have splits : graph.SplitsTo knowingNothing graph.split.graph :=
    splitsTo_of_splitNested regroups sound.formed sound.numbered done
  exact sound_iff.mpr ⟨splits.formed, splits.numbered⟩

variable {meaning : Interpretation} {policy : FoldPolicy} (returns : meaning.ReturnsNoLoop)
include returns

theorem Sound.foldConstants (sound : graph.Sound) {count : Nat}
    (done : (graph.foldConstants meaning policy).answer = .ok count) :
    (graph.foldConstants meaning policy).graph.Sound := by
  have folds := foldsTo_of_foldConstants returns sound.formed sound.numbered done
  exact sound_iff.mpr ⟨folds.formed, folds.numbered⟩

theorem Sound.optimize (sound : graph.Sound)
    (done : (graph.optimize meaning policy).answer = .ok ()) :
    (graph.optimize meaning policy).graph.Sound := by
  obtain ⟨⟨dropped, simplified⟩, scheduling⟩ := Outcome.andThen_eq_ok done
  obtain ⟨⟨folded, folding⟩, pruning⟩ := Outcome.andThen_eq_ok simplified
  obtain ⟨⟨splits, splitting⟩, afterSplit⟩ := Outcome.andThen_eq_ok folding
  rw [afterSplit] at folding pruning
  have foldedSound := (sound.split splitting).foldConstants returns folding
  have simplify : graph.simplify meaning policy =
      (graph.split.graph.foldConstants meaning policy).graph.prune := by
    rw [Graph.simplify, afterSplit]
    exact pruning
  rw [simplify] at simplified
  have prunedSound := foldedSound.prune simplified
  have ordered : graph.optimize meaning policy = (graph.simplify meaning policy).graph.schedule :=
    scheduling
  rw [ordered, simplify] at done ⊢
  exact prunedSound.schedule done

end Passes

section Fusion

variable {graph : Graph} {keep remove : NodeId}

theorem fused_formed (formed : graph.Formed) {found : List NodeId} (kept : keep ∈ graph.ids)
    (different : keep ≠ remove) (start : keep ∈ found)
    (closed : ∀ id ∈ found, ∀ node, graph.find? id = some node → node.dependencies ⊆ found)
    (apart : remove ∉ found) : (graph.fused keep remove).Formed where
  toEvaluable :=
    fused_evaluable formed.toEvaluable formed.plain kept different start closed apart
  plain := by
    intro changed member loop content
    obtain ⟨node, inside, _, rfl⟩ := mem_fused_nodes.mp member
    cases runs : node.loop? with
    | some held => exact (Node.loop?_eq_some.mp runs).1
    | none =>
        rw [Node.fused_content runs] at content
        exact formed.plain node inside loop content
  externalKeys := by
    intro changed member loop runs binding bound
    obtain ⟨node, inside, _, rfl⟩ := mem_fused_nodes.mp member
    obtain ⟨held, runsNode, rfl⟩ := Node.exists_loop_of_fused runs
    obtain ⟨original, isOriginal, rfl⟩ := List.mem_map.mp bound
    exact formed.externalKeys node inside held runsNode original isOriginal

theorem Sound.fuse (sound : graph.Sound) (done : (graph.fuse keep remove).answer = .ok ()) :
    (graph.fuse keep remove).graph.Sound := by
  obtain ⟨different, found, reached, apart⟩ := fuse_checks done
  have formed := sound.formed.here
  have closure := closureOf_ancestors reached
  have starts := closure.starts List.mem_cons_self
  have kept := closure.present starts
  rw [fuse_eq done]
  refine Sound.of_bodies (fused_formed formed kept different starts closure.closed apart)
    (sound.numbered.here.of_subset fused_ids_sublist.subset rfl) ?_
  intro id changed loop foundChanged runs
  obtain ⟨node, inside, _, rfl⟩ := mem_fused_nodes.mp (mem_of_find? foundChanged).1
  obtain ⟨held, runsNode, rfl⟩ := Node.exists_loop_of_fused runs
  have bodySound : held.body.Sound := sound.body (find?_of_mem formed.distinct inside) runsNode
  exact bodySound

end Fusion

/-- What may be added to a graph as a node: a loop exactly to loop nodes, with a sound
body, bindings of external nodes and sources in the graph. -/
structure Admits (graph : Graph) (kind : Kind) (content : Value) : Prop where
  loops : kind = .loop ↔ ∃ loop, content = .loop loop
  bodies : ∀ loop, content = .loop loop → loop.body.Sound
  sources : ∀ loop, content = .loop loop → ∀ binding ∈ loop.bindings, binding.2 ∈ graph.ids
  keys : ∀ loop, content = .loop loop → ∀ binding ∈ loop.bindings,
    ∃ bound ∈ loop.body.nodes, bound.id = binding.1 ∧ bound.kind = .external

theorem Sound.extended {graph : Graph} (sound : graph.Sound) {kind : Kind} {content : Value}
    {inputs : List NodeId} (admits : graph.Admits kind content) (present : inputs ⊆ graph.ids) :
    (graph.extended kind content inputs).Sound := by
  have numbered := sound.numbered.here
  refine Sound.of_bodies (sound.formed.here.extended numbered ?_ admits.loops ?_)
    numbered.extended ?_
  · intro id needed
    by_cases holdsLoop : ∃ loop, content = .loop loop
    · obtain ⟨loop, isLoop⟩ := holdsLoop
      rcases (Node.dependencies_of_content isLoop).mp needed with input | source
      · exact present input
      · obtain ⟨binding, member, rfl⟩ := List.mem_map.mp source
        exact admits.sources loop isLoop binding member
    · rw [Node.dependencies_of_plain (not_exists.mp holdsLoop)] at needed
      exact present needed
  · intro loop runs binding member
    have isLoop := (Node.loop?_eq_some.mp runs).2
    obtain ⟨bound, inside, same, external⟩ := admits.keys loop isLoop binding member
    have distinct := (admits.bodies loop isLoop).formed.here.distinct
    exact ⟨bound, same ▸ find?_of_mem distinct inside, external⟩
  · intro id node loop found runs
    rcases old_or_new found with old | rfl
    · exact sound.body old runs
    · exact admits.bodies loop (Node.loop?_eq_some.mp runs).2

theorem Sound.add {graph other : Graph} (sound : graph.Sound) {kind : Kind} {content : Value}
    {inputs : List NodeId} {id : NodeId} (admits : graph.Admits kind content)
    (done : graph.add kind content inputs = .ok (other, id)) : other.Sound := by
  obtain ⟨rfl, _, present⟩ := add_eq_ok done
  exact sound.extended admits present

end Graph

/-- A copy of a node of a sound graph may be added to the destination. -/
theorem Copying.Copies.sound {targets : String → Option Target} {copying next : Copying}
    {node : Node} {source : Graph} {id : NodeId} (copies : copying.Copies targets node next)
    (placed : ∀ entry ∈ copying.table, entry.2 ∈ copying.destination.ids)
    (fit : source.Sound) (found : source.find? id = some node)
    (sound : copying.destination.Sound) : next.destination.Sound := by
  have formed := fit.formed.here
  have member := (Graph.mem_of_find? found).1
  cases copies with
  | bound => exact sound
  | added free known =>
      have original : ∀ changed, copying.relinked node.content = .loop changed →
          ∃ loop, node.loop? = some loop ∧ changed = { loop with
            bindings := loop.bindings.map fun binding =>
              (binding.1, copying.renumber binding.2) } := by
        intro changed content
        obtain ⟨loop, isLoop, same⟩ := Copying.relinked_eq_loop content
        have kind := formed.plain node member loop isLoop
        exact ⟨loop, Node.loop?_eq_some.mpr ⟨kind, isLoop⟩, same⟩
      have placedImage : ∀ id ∈ node.dependencies,
          copying.renumber id ∈ copying.destination.ids :=
        fun id needed => Copying.image_placed placed (known id needed)
      refine sound.extended ⟨?_, ?_, ?_, ?_⟩ ?_
      · constructor
        · intro isLoop
          obtain ⟨loop, content⟩ := formed.carried node member isLoop
          exact ⟨_, congrArg copying.relinked content⟩
        · rintro ⟨changed, content⟩
          obtain ⟨loop, runs, _⟩ := original changed content
          exact (Node.loop?_eq_some.mp runs).1
      · intro changed content
        obtain ⟨loop, runs, rfl⟩ := original changed content
        have bodySound : loop.body.Sound := fit.body found runs
        exact bodySound
      · intro changed content binding bound
        obtain ⟨loop, runs, rfl⟩ := original changed content
        obtain ⟨binding, isBinding, rfl⟩ := List.mem_map.mp bound
        exact placedImage binding.2 (Node.source_mem_dependencies runs isBinding)
      · intro changed content binding bound
        obtain ⟨loop, runs, rfl⟩ := original changed content
        obtain ⟨binding, isBinding, rfl⟩ := List.mem_map.mp bound
        obtain ⟨target, foundTarget, external⟩ :=
          formed.externalKeys node member loop runs binding isBinding
        obtain ⟨inside, same⟩ := Graph.mem_of_find? foundTarget
        exact ⟨target, inside, same, external⟩
      · intro id isInput
        obtain ⟨input, isOriginal, rfl⟩ := List.mem_map.mp isInput
        exact placedImage input (node.inputs_subset_dependencies isOriginal)

namespace Graph

/-- Splicing keeps a destination sound when its source is sound at every step. -/
theorem Sound.splice {source : Graph → Graph} {targets : String → Option Target}
    {destination : Graph} {table : List (NodeId × NodeId)}
    (fit : ∀ found : Graph, found.Sound → (source found).Sound) (sound : destination.Sound)
    (done : (Graph.splice source targets destination).answer = .ok table) :
    (Graph.splice source targets destination).destination.Sound := by
  obtain ⟨final, copied, sameDestination, _⟩ := splice_eq_ok done
  rw [sameDestination]
  have kept := copyNodes_keeps (fun copying => copying.destination.Sound ∧
    ∀ entry ∈ copying.table, entry.2 ∈ copying.destination.ids) ?_ ⟨sound, by simp⟩ copied
  · exact kept.1
  · rintro copying next id node ⟨sound, placed⟩ found copies
    exact ⟨copies.sound placed (fit _ sound) found sound, copies.placed placed⟩

/-- The graph with another body at the end of a path. -/
def replaceWithin (graph : Graph) : List NodeId → Graph → Graph
  | [], replacement => replacement
  | id :: path, replacement => graph.update id fun node =>
      match node.loop? with
      | some loop =>
          { node with content := .loop { loop with
              body := loop.body.replaceWithin path replacement } }
      | none => node

theorem Sound.replaceWithin {graph body replacement : Graph} {path : List NodeId}
    (sound : graph.Sound) (reached : graph.within? path = some body)
    (fit : replacement.Sound) (externals : body.KeepsExternals replacement) :
    (graph.replaceWithin path replacement).Sound ∧
      graph.KeepsExternals (graph.replaceWithin path replacement) := by
  induction path generalizing graph with
  | nil =>
      cases reached
      exact ⟨fit, externals⟩
  | cons id path induction =>
      obtain ⟨node, loop, found, runs, deeper⟩ := within?_cons.mp reached
      obtain ⟨bodySound, bodyExternals⟩ := induction (sound.body found runs) deeper
      have sustains : loop.Sustains
          { loop with body := loop.body.replaceWithin path replacement } :=
        ⟨rfl, bodySound, bodyExternals⟩
      have paired : List.Forall₂ (Node.Resembles Loop.Sustains) graph.nodes
          (graph.replaceWithin (id :: path) replacement).nodes := by
        refine List.forall₂_map_right_iff.mpr (List.forall₂_same.mpr fun held member => ?_)
        have foundHeld := find?_of_mem sound.formed.here.distinct member
        split
        · rename_i same
          rw [beq_iff_eq.mp same] at foundHeld
          cases found.symm.trans foundHeld
          simp only [runs]
          exact Node.resembles_run runs sustains node.result
        · exact sound.sustained foundHeld
      refine ⟨sound.of_resembling (.of_eq (ids_paired (fun _ _ => Node.Resembles.id) paired)) rfl
        rfl fun key changed => exists_partnered ?_, keepsExternals_of_paired paired⟩
      exact find?_paired (fun _ _ => Node.Resembles.id) paired key

/-- One successful operation on a graph.  A spliced source is another sound graph, or a
graph of the nest itself, which the destination then holds in evaluation order. -/
inductive Step (graph : Graph) : Graph → Prop where
  | add {other : Graph} {kind : Kind} {content : Value} {inputs : List NodeId} {id : NodeId}
      (admits : graph.Admits kind content)
      (done : graph.add kind content inputs = .ok (other, id)) : Step graph other
  | exit {name : String} {id : NodeId} (present : id ∈ graph.ids) :
      Step graph (graph.setExit name id)
  | split {count : Nat} (done : graph.split.answer = .ok count) : Step graph graph.split.graph
  | fuse {keep remove : NodeId} (done : (graph.fuse keep remove).answer = .ok ()) :
      Step graph (graph.fuse keep remove).graph
  | fold {meaning : Interpretation} {policy : FoldPolicy} {count : Nat}
      (returns : meaning.ReturnsNoLoop)
      (done : (graph.foldConstants meaning policy).answer = .ok count) :
      Step graph (graph.foldConstants meaning policy).graph
  | prune {count : Nat} (done : graph.prune.answer = .ok count) : Step graph graph.prune.graph
  | schedule (done : graph.schedule.answer = .ok ()) : Step graph graph.schedule.graph
  | evaluate {meaning : Interpretation} {scope : Scope} :
      Step graph (graph.evaluate meaning scope).graph
  | optimize {meaning : Interpretation} {policy : FoldPolicy} (returns : meaning.ReturnsNoLoop)
      (done : (graph.optimize meaning policy).answer = .ok ()) :
      Step graph (graph.optimize meaning policy).graph
  | reorder {other : Graph} {order : List NodeId} (done : graph.reorder order = .ok other) :
      Step graph other
  | splice {source scheduled : Graph} {targets : String → Option Target}
      {table : List (NodeId × NodeId)} (sound : source.Sound)
      (ordered : source.schedule = ⟨scheduled, .ok ()⟩)
      (done : (Graph.splice (fun _ => scheduled) targets graph).answer = .ok table) :
      Step graph (Graph.splice (fun _ => scheduled) targets graph).destination
  | spliceWithin {path : List NodeId} {body scheduled : Graph} {targets : String → Option Target}
      {table : List (NodeId × NodeId)} (reached : graph.within? path = some body)
      (ordered : body.schedule = ⟨scheduled, .ok ()⟩)
      (done : (Graph.splice (fun found => (found.within? path).getD scheduled) targets
        (graph.replaceWithin path scheduled)).answer = .ok table) :
      Step graph (Graph.splice (fun found => (found.within? path).getD scheduled) targets
        (graph.replaceWithin path scheduled)).destination

theorem mem_assign {α : Type} {key : String} {value : α} {table : List (String × α)}
    {entry : String × α} (member : entry ∈ assign key value table) :
    entry ∈ table ∨ entry.2 = value := by
  induction table with
  | nil =>
      rw [assign, List.mem_singleton] at member
      exact .inr (congrArg Prod.snd member)
  | cons first rest induction =>
      obtain ⟨name, old⟩ := first
      rw [assign] at member
      split at member
      · rcases List.mem_cons.mp member with rfl | later
        · exact .inr rfl
        · exact .inl (List.mem_cons_of_mem _ later)
      · rcases List.mem_cons.mp member with rfl | later
        · exact .inl List.mem_cons_self
        · exact (induction later).imp_left (List.mem_cons_of_mem _)

theorem Sound.setExit {graph : Graph} (sound : graph.Sound) {name : String} {id : NodeId}
    (present : id ∈ graph.ids) : (graph.setExit name id).Sound := by
  have formed := sound.formed.here
  refine Sound.of_bodies ⟨⟨formed.distinct, formed.linked, ?_, formed.carried, formed.keys,
    formed.acyclic⟩, formed.plain, formed.externalKeys⟩ sound.numbered.here
    (fun _ _ _ found runs => sound.body found runs)
  intro exit member
  rcases mem_assign member with old | same
  · exact formed.exits exit old
  · exact same ▸ present

/-- Every operation keeps graphs sound. -/
theorem Step.sound {graph other : Graph} (step : graph.Step other) (sound : graph.Sound) :
    other.Sound := by
  cases step with
  | add admits done => exact sound.add admits done
  | exit present => exact sound.setExit present
  | split done => exact sound.split done
  | fuse done => exact sound.fuse done
  | fold returns done => exact sound.foldConstants returns done
  | prune done => exact sound.prune done
  | schedule done => exact sound.schedule done
  | evaluate => exact sound.evaluate _ _
  | optimize returns done => exact sound.optimize returns done
  | reorder done => exact sound.reorder done
  | splice sourceSound ordered done =>
      have fit := sourceSound.scheduled (schedule_eq_ok_iff.mp ordered)
      exact Sound.splice (fun _ _ => fit) sound done
  | @spliceWithin path body scheduled targets table reached ordered done =>
      have inOrder := schedule_eq_ok_iff.mp ordered
      have fit := (sound.inside path reached).scheduled inOrder
      have externals : body.KeepsExternals scheduled := by
        intro id bound found external
        obtain ⟨target, foundTarget, revised⟩ := (schedules_of_evaluable
          (sound.inside path reached).formed.evaluable inOrder).forward found
        exact ⟨target, foundTarget, revised.kind_eq.trans external⟩
      refine Sound.splice ?_ (sound.replaceWithin reached fit externals).1 done
      intro found foundSound
      cases inside : found.within? path with
      | none => exact fit
      | some current => exact foundSound.inside path inside

/-- Well-formedness is an invariant: a successful operation on a sound graph leaves it
sound, so every graph that operations make of the empty one is sound. -/
theorem operations_preserve_soundness :
    (∀ graph other : Graph, graph.Sound → graph.Step other → other.Sound) ∧
      ∀ graph, Relation.ReflTransGen Step Graph.empty graph → graph.Sound := by
  refine ⟨fun graph other sound step => step.sound sound, ?_⟩
  intro graph run
  induction run with
  | refl => exact sound_empty
  | tail _ step sound => exact step.sound sound

end Graph

section Sample

def builtSum : Graph :=
  (Graph.empty.extended .constant (.int 1) []).extended .call (.text "+") [0, 0]

/-- A sum and a loop that passes it on, built node by node. -/
def builtLoop : Graph :=
  builtSum.extended .loop (.loop ⟨0, "i", triplingBody, [(0, 1)]⟩) []

theorem admits_plain {graph : Graph} {kind : Kind} {content : Value} (noLoop : kind ≠ .loop)
    (noContent : ∀ loop, content ≠ .loop loop) : graph.Admits kind content := by
  constructor
  · exact ⟨fun isLoop => absurd isLoop noLoop, fun ⟨loop, holds⟩ => absurd holds (noContent loop)⟩
  all_goals
    intro loop holds
    exact absurd holds (noContent loop)

theorem builtSum_admits : builtSum.Admits .loop (.loop ⟨0, "i", triplingBody, [(0, 1)]⟩) := by
  have bodySound : triplingBody.Sound := tripling_sound.inside [3] rfl
  constructor
  · simp
  · rintro _ ⟨⟩
    exact bodySound
  · simp [builtSum, Graph.extended, Graph.insertNode, Graph.contains, Graph.ids, Graph.empty]
  · simp [triplingBody]

theorem builtLoop_sound : builtLoop.Sound ∧ tripling.prune.graph.Sound := by
  have constant : Graph.empty.Step (Graph.empty.extended .constant (.int 1) []) :=
    .add (admits_plain (by simp) (by simp)) (rfl : Graph.empty.add .constant (.int 1) [] = .ok (_, 0))
  have sum : (Graph.empty.extended .constant (.int 1) []).Step builtSum :=
    .add (admits_plain (by simp) (by simp))
      (rfl : (Graph.empty.extended .constant (.int 1) []).add .call (.text "+") [0, 0] = .ok (_, 1))
  have loop : builtSum.Step builtLoop :=
    .add builtSum_admits (rfl : builtSum.add .loop _ [] = .ok (_, 2))
  have pruned : tripling.prune.answer = .ok 1 := by cbv
  exact ⟨Graph.operations_preserve_soundness.2 builtLoop (.tail (.tail (.single constant) sum) loop),
    Graph.operations_preserve_soundness.1 tripling _ tripling_sound (.prune pruned)⟩

end Sample

end FlowGraph

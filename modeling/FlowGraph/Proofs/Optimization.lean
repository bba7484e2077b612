import FlowGraph.Graph.Optimize
import FlowGraph.Proofs.Capture
import FlowGraph.Proofs.Folding
import FlowGraph.Proofs.Splitting

/-!
# Optimisation keeps the meaning of a graph

Splitting and folding carry denotations, pruning keeps them in graphs without
captures, and the order of the nodes does not matter.  So the passes in a row keep
what leaves at the exits.
-/

namespace FlowGraph

theorem Outcome.andThen_eq_ok {α β : Type} {outcome : Outcome α} {next : Graph → Outcome β}
    {answer : β} (done : (outcome.andThen next).answer = .ok answer) :
    (∃ middle, outcome.answer = .ok middle) ∧ outcome.andThen next = next outcome.graph := by
  unfold Outcome.andThen at done ⊢
  split
  · rename_i middle succeeded
    exact ⟨⟨middle, succeeded⟩, rfl⟩
  · rename_i fault failed
    rw [failed] at done
    cases done

namespace Graph

variable {meaning : Interpretation} {scope : Scope} {values : List (String × Value)}

namespace Means

variable {graph other : Graph} (means : graph.Means meaning scope values)
include means

theorem pruned {count : Nat} (free : graph.CaptureFree)
    (done : graph.pruned = .ok (other, count)) : other.Means meaning scope values := by
  have evaluable := means.formed.evaluable
  obtain ⟨defined, exits⟩ := defined_pruned evaluable done means.defined means.exits
    (free.keepsReads means.formed done scope)
  exact ⟨formed_of_pruned means.formed done, defined, exits⟩

theorem scheduled (done : graph.scheduled = .ok other) : other.Means meaning scope values := by
  have evaluable := means.formed.evaluable
  have schedules := schedules_of_evaluable evaluable done
  have sameDenotes : ∀ {id value},
      Denotes meaning other scope id value ↔ Denotes meaning graph scope id value :=
    denotes_scheduled evaluable done
  refine ⟨formed_of_scheduled means.formed done, ?_, ?_⟩
  · have defined := means.defined
    simpa only [Defined, schedules.mem_ids_iff, sameDenotes] using defined
  · have exits := means.exits
    simpa only [ExitsDenote, schedules.exits, sameDenotes] using exits

end Means

theorem prune_eq_ok {graph : Graph} {count : Nat} (done : graph.prune.answer = .ok count) :
    graph.pruned = .ok (graph.prune.graph, count) := by
  rw [prune_eq] at done ⊢
  split at done
  · rename_i pruned dropped succeeded
    cases done
    simp only [succeeded]
  · cases done

theorem schedule_eq_ok {graph : Graph} (done : graph.schedule.answer = .ok ()) :
    graph.scheduled = .ok graph.schedule.graph := by
  rw [schedule_eq] at done ⊢
  split at done
  · rename_i scheduled succeeded
    simp only [succeeded]
  · cases done

section Passes

variable {graph : Graph} {policy : FoldPolicy} (returns : meaning.ReturnsNoLoop)
  (regroups : meaning.Regroups)
include returns regroups

/-- Splitting, folding and pruning in a row keep the meaning of a capture-free graph. -/
theorem means_simplify {count : Nat} (means : graph.Means meaning scope values)
    (numbered : graph.Everywhere Numbered) (free : graph.CaptureFree)
    (done : (graph.simplify meaning policy).answer = .ok count) :
    (graph.simplify meaning policy).graph.Means meaning scope values := by
  obtain ⟨⟨foldCount, folded⟩, pruning⟩ := Outcome.andThen_eq_ok done
  obtain ⟨⟨splitCount, split⟩, folding⟩ := Outcome.andThen_eq_ok folded
  have splits := splitsTo_of_splitNested regroups means.formed numbered split
  have splitFree := free.of_embeds splits.carries.embeds splits.embedsBack
  have splitMeans := means.carried splits.formed splits.carries
  rw [folding] at folded pruning
  have folds := foldsTo_of_foldConstants returns splits.formed splits.numbered folded
  have foldFree := splitFree.of_embeds folds.carries.embeds folds.carriesBack.embeds
  have foldMeans := splitMeans.carried folds.formed folds.carries
  have simplified : graph.simplify meaning policy =
      (graph.split.graph.foldConstants meaning policy).graph.prune := by
    rw [simplify, folding]
    exact pruning
  rw [simplified] at done ⊢
  exact foldMeans.pruned foldFree (prune_eq_ok done)

/-- Optimisation fails only where splitting or folding does. -/
theorem optimize_succeeds {splits folds : Nat} (formed : graph.Everywhere Formed)
    (numbered : graph.Everywhere Numbered) (split : graph.split.answer = .ok splits)
    (folded : (graph.split.graph.foldConstants meaning policy).answer = .ok folds) :
    (graph.optimize meaning policy).answer = .ok () := by
  have splitsTo : graph.SplitsTo meaning graph.split.graph :=
    splitsTo_of_splitNested regroups formed numbered split
  have foldsTo := foldsTo_of_foldConstants returns splitsTo.formed splitsTo.numbered folded
  obtain ⟨pruned, count, done, _⟩ := exists_pruned foldsTo.formed.evaluable
  have prunedFormed := formed_of_pruned foldsTo.formed done
  obtain ⟨scheduled, ordered⟩ := exists_scheduled prunedFormed.evaluable
  have simplified : graph.simplify meaning policy = ⟨pruned, .ok count⟩ := by
    simp only [simplify, Outcome.andThen, split, folded, prune_eq, done]
  simp only [optimize, Outcome.andThen, simplified, schedule_eq, ordered]

/-- Optimisation keeps the values at the exits of a capture-free graph. -/
theorem optimize_preserves_meaning (sound : graph.Sound) (free : graph.CaptureFree)
    (succeeded : (graph.evaluate meaning scope).answer = .ok values)
    (optimized : (graph.optimize meaning policy).answer = .ok ()) :
    ((graph.optimize meaning policy).graph.evaluate meaning scope).answer = .ok values := by
  have means := (means_iff sound.wellFormed.formed).mpr succeeded
  obtain ⟨⟨count, simplified⟩, scheduling⟩ := Outcome.andThen_eq_ok optimized
  have simplifiedMeans := means_simplify returns regroups means sound.numbered free simplified
  have ordered : graph.optimize meaning policy = (graph.simplify meaning policy).graph.schedule :=
    scheduling
  rw [ordered] at optimized ⊢
  have scheduledMeans := simplifiedMeans.scheduled (schedule_eq_ok optimized)
  exact (means_iff scheduledMeans.formed).mp scheduledMeans

end Passes

end Graph

theorem adding_regroups : adding.Regroups := by
  intro name _ first second third rest value computed
  refine ⟨_, rfl, ?_⟩
  cases computed
  cases first <;> simp [adding]

theorem tripling_captureFree : tripling.CaptureFree :=
  Graph.captureFree_of_body tripling_bodies triplingBody_innermost (by simp [triplingBody])

theorem tripling_optimizes : (tripling.optimize adding .standard).answer = .ok () := by
  have formed := tripling_wellFormed.formed
  have split : tripling.split.answer = .ok 1 := rfl
  have splits : tripling.SplitsTo adding tripling.split.graph :=
    splitsTo_of_splitNested adding_regroups formed tripling_numbered split
  exact Graph.optimize_succeeds adding_returnsNoLoop adding_regroups formed tripling_numbered split
    (foldConstants_triplingOver splits.formed.here splits.numbered.here rfl)

theorem optimized_tripling_evaluates :
    ((tripling.optimize adding .standard).graph.evaluate adding fun _ => none).answer =
      .ok [("total", .int 3), ("loop", .null)] :=
  Graph.optimize_preserves_meaning adding_returnsNoLoop adding_regroups tripling_sound
    tripling_captureFree evaluate_tripling tripling_optimizes

end FlowGraph

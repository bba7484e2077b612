import FlowGraph.Proofs.Pruning
import FlowGraph.Proofs.Skeleton

/-!
# Pruning without captures

In a capture-free graph the bindings that pruning drops give values to names that
no remaining external node reads through them.  So the reads are kept, and pruning
keeps evaluation.
-/

namespace FlowGraph

section Remaining

variable {body rest : Graph} {values : NodeId → Value} {name : String}

theorem bindKey_of_name {scope : Scope} {binding : NodeId × NodeId} {node : Node}
    (found : body.find? binding.1 = some node) (named : node.content.plain = name) :
    bindKey body values scope binding name = some (values binding.2) := by
  simp [bindKey, found, Scope.bind, named]

theorem bindKey_of_other {scope : Scope} {binding : NodeId × NodeId}
    (different : ∀ node, body.find? binding.1 = some node → node.content.plain ≠ name) :
    bindKey body values scope binding name = scope name := by
  cases found : body.find? binding.1 with
  | none => simp [bindKey, found]
  | some node => simp [bindKey, found, Scope.bind, Ne.symm (different node found)]

/-- The bindings that remain give a name the value that all of them gave it, when no
binding of that name was dropped and the name had one value before or gets one. -/
theorem boundScope_remaining {bindings : List (NodeId × NodeId)} {before after : Scope}
    (contents : ∀ binding ∈ bindings, ∀ other, rest.find? binding.1 = some other →
      ∃ node, body.find? binding.1 = some node ∧ other.content.plain = node.content.plain)
    (stays : ∀ binding ∈ bindings, ∀ node, body.find? binding.1 = some node →
      node.content.plain = name → binding.1 ∈ rest.ids)
    (known : before name = after name ∨ ∃ binding ∈ bindings, ∃ node,
      body.find? binding.1 = some node ∧ node.content.plain = name) :
    boundScope body values before bindings name =
      boundScope rest values after (remainingBindings rest bindings) name := by
  induction bindings generalizing before after with
  | nil => exact known.resolve_right (by simp)
  | cons binding later induction =>
      have laterContents := fun other member => contents other (List.mem_cons_of_mem _ member)
      have laterStays := fun other member => stays other (List.mem_cons_of_mem _ member)
      have kept : binding.1 ∈ rest.ids → remainingBindings rest (binding :: later) =
          binding :: remainingBindings rest later := fun remains => by
        simp [remainingBindings, Graph.contains_iff.mpr remains]
      by_cases named : ∃ node, body.find? binding.1 = some node ∧ node.content.plain = name
      · obtain ⟨node, found, same⟩ := named
        have remains : binding.1 ∈ rest.ids := stays _ List.mem_cons_self node found same
        obtain ⟨other, foundOther⟩ := Graph.exists_find? remains
        obtain ⟨held, foundHeld, sameOther⟩ := contents _ List.mem_cons_self other foundOther
        cases found.symm.trans foundHeld
        rw [kept remains, boundScope_cons, boundScope_cons]
        refine induction laterContents laterStays (.inl ?_)
        rw [bindKey_of_name found same, bindKey_of_name foundOther (sameOther.trans same)]
      · have different : ∀ node, body.find? binding.1 = some node → node.content.plain ≠ name :=
          fun node found same => named ⟨node, found, same⟩
        have laterKnown : before name = after name ∨ ∃ binding ∈ later, ∃ node,
            body.find? binding.1 = some node ∧ node.content.plain = name := by
          refine known.imp (fun same => same) ?_
          rintro ⟨other, member, node, found, same⟩
          rcases List.mem_cons.mp member with rfl | inLater
          · exact absurd same (different node found)
          · exact ⟨other, inLater, node, found, same⟩
        rw [boundScope_cons]
        by_cases remains : binding.1 ∈ rest.ids
        · have differentOther : ∀ other, rest.find? binding.1 = some other →
              other.content.plain ≠ name := by
            intro other foundOther
            obtain ⟨node, found, same⟩ := contents _ List.mem_cons_self other foundOther
            exact same ▸ different node found
          rw [kept remains, boundScope_cons]
          refine induction laterContents laterStays (laterKnown.imp_left fun same => ?_)
          rw [bindKey_of_other different, bindKey_of_other differentOther, same]
        · have dropped : remainingBindings rest (binding :: later) =
              remainingBindings rest later := by
            simp [remainingBindings, Graph.contains_iff, remains]
          rw [dropped]
          refine induction laterContents laterStays (laterKnown.imp_left fun same => ?_)
          rw [bindKey_of_other different, same]

end Remaining

namespace EntersBoth

variable {meaning : Interpretation} {graph pruned body rest : Graph} {count : Nat}
  {before after inner outer : Scope} {path : List NodeId}

theorem pruned_body
    (both : EntersBoth meaning graph pruned before after path body rest inner outer)
    (evaluable : graph.Everywhere Graph.Evaluable) (done : graph.pruned = .ok (pruned, count)) :
    graph.within? path = some body ∧ ∃ inside, body.pruned = .ok (rest, inside) := by
  induction both generalizing count with
  | here => exact ⟨rfl, count, done⟩
  | @inside graph pruned before after id node other loop changed values path body rest inner outer
      found runs foundOther runsOther sources deeper induction =>
      have prunes := Graph.prunesTo_of_pruned evaluable done
      obtain ⟨inside, bodyDone⟩ := (prunes.prunedTo found runs foundOther runsOther).body
      obtain ⟨reached, prunedInside⟩ := induction (evaluable.body found runs) bodyDone
      exact ⟨Graph.within?_cons.mpr ⟨node, loop, found, runs, reached⟩, prunedInside⟩

/-- A name that a remaining external node reads has one value on both sides.  On the
way in it may have two, if the loop around the node binds it again. -/
theorem scope_eq
    (both : EntersBoth meaning graph pruned before after path body rest inner outer)
    (formed : graph.Everywhere Graph.Formed) (done : graph.pruned = .ok (pruned, count))
    (free : graph.CaptureFree) {id : NodeId} {name : String} (names : graph.NamesAt path id name)
    (stays : id ∈ rest.ids)
    (known : before name = after name ∨
      ∃ front last, path = front ++ [last] ∧ graph.BindsAt front last id) :
    inner name = outer name := by
  induction both generalizing count with
  | here => exact known.resolve_right (by simp)
  | @inside graph pruned before after loopId node other loop changed values path body rest inner
      outer found runs foundOther runsOther sources deeper induction =>
      have evaluable := formed.evaluable
      have prunes := Graph.prunesTo_of_pruned evaluable done
      have related := prunes.prunedTo found runs foundOther runsOther
      obtain ⟨inside, bodyDone⟩ := related.body
      have externalKeys :=
        formed.here.externalKeys node (Graph.mem_of_find? found).1 loop runs
      have bodyNames := names.inside found runs
      refine induction (formed.body found runs) bodyDone (free.inside found runs) bodyNames stays ?_
      by_cases own : ∃ front last, path = front ++ [last] ∧ loop.body.BindsAt front last id
      · exact .inr own
      · left
        rw [related.bindings]
        refine boundScope_remaining ?_ ?_ ?_
        · intro binding bound target foundTarget
          obtain ⟨key, foundKey, external⟩ := externalKeys binding bound
          obtain ⟨origin, foundOrigin, revised⟩ := (Graph.prunesTo_of_pruned
            (evaluable.body found runs) bodyDone).origins binding.1 target foundTarget
          cases foundKey.symm.trans foundOrigin
          exact ⟨key, foundKey, by rw [revised.content_eq (by simp [external])]⟩
        · intro binding bound key foundKey named
          obtain ⟨held, foundHeld, external⟩ := externalKeys binding bound
          cases foundKey.symm.trans foundHeld
          obtain ⟨rfl, rfl⟩ := free.eq_key found runs names own (List.mem_map_of_mem bound)
            ⟨loop.body, key, rfl, foundKey, external, named⟩
          cases deeper
          exact stays
        · -- The node is bound on the way in: only by this loop, since it is not bound inside.
          refine known.imp_right ?_
          rintro ⟨front, last, split, binds⟩
          cases front with
          | nil =>
              obtain ⟨rfl, rfl⟩ : loopId = last ∧ path = [] := by simpa using split
              obtain ⟨_, held, heldLoop, ⟨⟩, foundHeld, runsHeld, bound⟩ := binds
              cases found.symm.trans foundHeld
              cases runs.symm.trans runsHeld
              obtain ⟨binding, isBinding, rfl⟩ := List.mem_map.mp bound
              obtain ⟨_, target, ⟨⟩, foundTarget, _, named⟩ := bodyNames
              exact ⟨binding, isBinding, target, foundTarget, named⟩
          | cons head front =>
              obtain ⟨rfl, rfl⟩ : loopId = head ∧ path = front ++ [last] := by simpa using split
              exact absurd ⟨front, last, rfl, binds.inside found runs⟩ own

end EntersBoth

/-- Pruning keeps the reads of a capture-free graph. -/
theorem Graph.CaptureFree.keepsReads {meaning : Interpretation} {graph pruned : Graph}
    {count : Nat} (free : graph.CaptureFree) (formed : graph.Everywhere Formed)
    (done : graph.pruned = .ok (pruned, count)) (scope : Scope) :
    graph.KeepsReads meaning pruned scope scope := by
  intro path body rest inner outer both node member external
  have evaluable := formed.evaluable
  obtain ⟨reached, inside, bodyDone⟩ := both.pruned_body evaluable done
  have prunes := prunesTo_of_pruned (evaluable.inside reached) bodyDone
  have foundNode := find?_of_mem (prunes.ids.nodup (evaluable.inside reached).here.distinct) member
  obtain ⟨origin, foundOrigin, revised⟩ := prunes.origins _ node foundNode
  have originExternal : origin.kind = .external := revised.kind_eq ▸ external
  have sameContent : node.content = origin.content :=
    revised.content_eq (by simp [originExternal])
  have names : graph.NamesAt path node.id node.content.plain :=
    ⟨body, origin, reached, foundOrigin, originExternal, by rw [sameContent]⟩
  have same := both.scope_eq formed done free names (mem_ids_of_find? foundNode) (.inl rfl)
  unfold Scope.read
  rw [same]

end FlowGraph

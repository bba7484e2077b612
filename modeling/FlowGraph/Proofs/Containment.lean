import FlowGraph.Proofs.Copies

/-!
# Graphs that do not hold a loop

A tag stands for one loop or one graph.  A value, a node or a graph avoids a tag when
no loop of that tag occurs in it, at any depth.  Parts of a value avoid what the value
avoids, and so does a value in which a loop was changed or a graph whose loops were
made new.
-/

namespace FlowGraph

variable {tag : Nat}

/-- No loop of the tag occurs in a value. -/
def Value.Avoids (tag : Nat) (value : Value) : Prop :=
  ∀ loop ∈ value.loops, loop.tag ≠ tag

/-- No loop of the tag occurs in a node. -/
structure Node.Avoids (tag : Nat) (node : Node) : Prop where
  content : node.content.Avoids tag
  result : node.result.Avoids tag

/-- No loop of the tag occurs in a graph. -/
def Graph.Avoids (tag : Nat) (graph : Graph) : Prop :=
  ∀ loop ∈ graph.allLoops, loop.tag ≠ tag

theorem avoids_of_loopsOfNodes {nodes : List Node} :
    (∀ loop ∈ loopsOfNodes nodes, loop.tag ≠ tag) ↔ ∀ node ∈ nodes, node.Avoids tag := by
  constructor
  · intro avoids node member
    exact ⟨fun loop inside => avoids loop (mem_loopsOfNodes.mpr ⟨node, member, .inl inside⟩),
      fun loop inside => avoids loop (mem_loopsOfNodes.mpr ⟨node, member, .inr inside⟩)⟩
  · intro avoids loop inside
    obtain ⟨node, member, held⟩ := mem_loopsOfNodes.mp inside
    exact held.elim ((avoids node member).content loop) ((avoids node member).result loop)

theorem Graph.avoids_iff {graph : Graph} :
    graph.Avoids tag ↔ ∀ node ∈ graph.nodes, node.Avoids tag := by
  rw [Graph.Avoids, allLoops_eq]
  exact avoids_of_loopsOfNodes

theorem Graph.avoids_empty : Graph.empty.Avoids tag := by
  simp [avoids_iff, Graph.empty]

theorem Value.avoids_loop {loop : Loop} :
    (Value.loop loop).Avoids tag ↔ loop.tag ≠ tag ∧ loop.body.Avoids tag := by
  simp [Value.Avoids, Graph.Avoids, Value.loops_loop]

theorem Value.avoids_part {kind : LoopPart} {loop : Loop} :
    (Value.part kind loop).Avoids tag ↔ loop.tag ≠ tag ∧ loop.body.Avoids tag := by
  simp [Value.Avoids, Graph.Avoids, Value.loops_part]

theorem mem_loopsOfValues {values : List Value} {loop : Loop} :
    loop ∈ loopsOfValues values ↔ ∃ value ∈ values, loop ∈ value.loops := by
  induction values with
  | nil => simp [loopsOfValues]
  | cons value rest induction => simp [loopsOfValues, induction]

theorem mem_loopsOfEntries {entries : List (String × Value)} {loop : Loop} :
    loop ∈ loopsOfEntries entries ↔ ∃ entry ∈ entries, loop ∈ entry.2.loops := by
  induction entries with
  | nil => simp [loopsOfEntries]
  | cons entry rest induction => simp [loopsOfEntries, induction]

theorem forall_loopsOfValues {values : List Value} :
    (∀ loop ∈ loopsOfValues values, loop.tag ≠ tag) ↔ ∀ value ∈ values, value.Avoids tag := by
  simp only [mem_loopsOfValues, Value.Avoids, forall_exists_index, and_imp]
  exact ⟨fun avoids value member loop => avoids loop value member,
    fun avoids loop value member => avoids value member loop⟩

theorem forall_loopsOfEntries {entries : List (String × Value)} :
    (∀ loop ∈ loopsOfEntries entries, loop.tag ≠ tag) ↔
      ∀ entry ∈ entries, entry.2.Avoids tag := by
  simp only [mem_loopsOfEntries, Value.Avoids, forall_exists_index, and_imp]
  exact ⟨fun avoids entry member loop => avoids loop entry member,
    fun avoids loop entry member => avoids entry member loop⟩

namespace Value

theorem avoids_list {items : List Value} :
    (list items).Avoids tag ↔ ∀ item ∈ items, item.Avoids tag := by
  rw [← forall_loopsOfValues, Avoids, loops]

theorem avoids_tuple {items : List Value} :
    (tuple items).Avoids tag ↔ ∀ item ∈ items, item.Avoids tag := by
  rw [← forall_loopsOfValues, Avoids, loops]

theorem avoids_dict {entries : List (String × Value)} :
    (dict entries).Avoids tag ↔ ∀ entry ∈ entries, entry.2.Avoids tag := by
  rw [← forall_loopsOfEntries, Avoids, loops]

theorem avoids_record {fields : List (String × Value)} :
    (record fields).Avoids tag ↔ ∀ field ∈ fields, field.2.Avoids tag := by
  rw [← forall_loopsOfEntries, Avoids, loops]

theorem avoids_slice {start stop step : Value} :
    (slice start stop step).Avoids tag ↔
      start.Avoids tag ∧ stop.Avoids tag ∧ step.Avoids tag := by
  simp only [Avoids, loops, List.mem_append]
  grind

theorem avoids_expr {head : String} {arguments : List Value} :
    (expr head arguments).Avoids tag ↔ ∀ argument ∈ arguments, argument.Avoids tag := by
  rw [← forall_loopsOfValues, Avoids, loops]

theorem avoids_form {kind : FormTag} {head : String} {arguments : List Value} :
    (form kind head arguments).Avoids tag ↔ ∀ argument ∈ arguments, argument.Avoids tag := by
  rw [← forall_loopsOfValues, Avoids, loops]

/-- A value in which no loop occurs. -/
theorem avoids_of_loops {value : Value} (none : value.loops = []) : value.Avoids tag := by
  simp [Avoids, none]

end Value

section Occurrences

mutual

/-- The loops in the body of a loop of a value occur in the value. -/
theorem Value.body_loops : ∀ (value : Value) {found : Loop}, found ∈ value.loops →
    found.body.allLoops ⊆ value.loops
  | .list items, _, inside => by
      rw [Value.loops] at inside ⊢
      exact bodyLoops_of_values items inside
  | .tuple items, _, inside => by
      rw [Value.loops] at inside ⊢
      exact bodyLoops_of_values items inside
  | .dict entries, _, inside => by
      rw [Value.loops] at inside ⊢
      exact bodyLoops_of_entries entries inside
  | .record fields, _, inside => by
      rw [Value.loops] at inside ⊢
      exact bodyLoops_of_entries fields inside
  | .slice start stop step, _, inside => by
      rw [Value.loops] at inside ⊢
      rcases List.mem_append.mp inside with first | last
      · apply List.subset_append_of_subset_left
        rcases List.mem_append.mp first with inStart | inStop
        · exact List.subset_append_of_subset_left _ (start.body_loops inStart)
        · exact List.subset_append_of_subset_right _ (stop.body_loops inStop)
      · exact List.subset_append_of_subset_right _ (step.body_loops last)
  | .expr head arguments, _, inside => by
      rw [Value.loops] at inside ⊢
      exact bodyLoops_of_values arguments inside
  | .form _ head arguments, _, inside => by
      rw [Value.loops] at inside ⊢
      exact bodyLoops_of_values arguments inside
  | .loop ⟨_, index, body, bindings⟩, _, inside => by
      rw [Value.loops] at inside ⊢
      rcases List.mem_cons.mp inside with rfl | deeper
      · exact List.subset_cons_self _ _
      · exact List.subset_cons_of_subset _ (body.body_loops deeper)
  | .part _ ⟨_, index, body, bindings⟩, _, inside => by
      rw [Value.loops] at inside ⊢
      rcases List.mem_cons.mp inside with rfl | deeper
      · exact List.subset_cons_self _ _
      · exact List.subset_cons_of_subset _ (body.body_loops deeper)
  | .null, _, inside => by simp [Value.loops] at inside
  | .bool _, _, inside => by simp [Value.loops] at inside
  | .int _, _, inside => by simp [Value.loops] at inside
  | .float _, _, inside => by simp [Value.loops] at inside
  | .text _, _, inside => by simp [Value.loops] at inside
  | .symbol _, _, inside => by simp [Value.loops] at inside
  | .tensor _, _, inside => by simp [Value.loops] at inside
  | .member _ _, _, inside => by simp [Value.loops] at inside

theorem bodyLoops_of_values : ∀ (values : List Value) {found : Loop},
    found ∈ loopsOfValues values → found.body.allLoops ⊆ loopsOfValues values
  | [], _, inside => by simp [loopsOfValues] at inside
  | value :: rest, _, inside => by
      rw [loopsOfValues] at inside ⊢
      rcases List.mem_append.mp inside with here | later
      · exact List.subset_append_of_subset_left _ (value.body_loops here)
      · exact List.subset_append_of_subset_right _ (bodyLoops_of_values rest later)

theorem bodyLoops_of_entries : ∀ (entries : List (String × Value)) {found : Loop},
    found ∈ loopsOfEntries entries → found.body.allLoops ⊆ loopsOfEntries entries
  | [], _, inside => by simp [loopsOfEntries] at inside
  | (_, value) :: rest, _, inside => by
      rw [loopsOfEntries] at inside ⊢
      rcases List.mem_append.mp inside with here | later
      · exact List.subset_append_of_subset_left _ (value.body_loops here)
      · exact List.subset_append_of_subset_right _ (bodyLoops_of_entries rest later)

theorem Graph.body_loops : ∀ (graph : Graph) {found : Loop}, found ∈ graph.allLoops →
    found.body.allLoops ⊆ graph.allLoops
  | ⟨nodes, _, _⟩, _, inside => by
      rw [Graph.allLoops] at inside ⊢
      exact bodyLoops_of_nodes nodes inside

theorem bodyLoops_of_nodes : ∀ (nodes : List Node) {found : Loop},
    found ∈ loopsOfNodes nodes → found.body.allLoops ⊆ loopsOfNodes nodes
  | [], _, inside => by simp [loopsOfNodes] at inside
  | ⟨_, _, content, _, result⟩ :: rest, _, inside => by
      rw [loopsOfNodes] at inside ⊢
      rcases List.mem_append.mp inside with here | later
      · apply List.subset_append_of_subset_left
        rcases List.mem_append.mp here with held | computed
        · exact List.subset_append_of_subset_left _ (content.body_loops held)
        · exact List.subset_append_of_subset_right _ (result.body_loops computed)
      · exact List.subset_append_of_subset_right _ (bodyLoops_of_nodes rest later)

end

theorem Graph.Avoids.body {graph : Graph} {loop : Loop} (avoids : graph.Avoids tag)
    (inside : loop ∈ graph.allLoops) : loop.body.Avoids tag :=
  fun found deeper => avoids found (graph.body_loops inside deeper)

end Occurrences

section Revision

/-- A change to loops does not bring the tag in. -/
def KeepsAvoiding (tag : Nat) (change : Loop → Option Loop) : Prop :=
  ∀ loop changed : Loop, (Value.loop loop).Avoids tag → change loop = some changed →
    (Value.loop changed).Avoids tag

variable {change : Loop → Option Loop}

/-- The loop that takes the place of another, or the other with its body changed. -/
theorem KeepsAvoiding.changed (keeps : KeepsAvoiding tag change) {loop : Loop}
    (avoids : (Value.loop loop).Avoids tag)
    (body : loop.body.Avoids tag → (loop.body.revise change).Avoids tag) :
    (Value.loop ((change loop).getD { loop with body := loop.body.revise change })).Avoids
      tag := by
  cases given : change loop with
  | some changed => exact keeps loop changed avoids given
  | none =>
      rw [Value.avoids_loop] at avoids
      exact Value.avoids_loop.mpr ⟨avoids.1, body avoids.2⟩

mutual

theorem Value.avoids_revise (keeps : KeepsAvoiding tag change) :
    ∀ value : Value, value.Avoids tag → (value.revise change).Avoids tag
  | .list items, avoids => by
      rw [Value.revise, Value.avoids_list]
      exact avoids_reviseValues keeps items (Value.avoids_list.mp avoids)
  | .tuple items, avoids => by
      rw [Value.revise, Value.avoids_tuple]
      exact avoids_reviseValues keeps items (Value.avoids_tuple.mp avoids)
  | .dict entries, avoids => by
      rw [Value.revise, Value.avoids_dict]
      exact avoids_reviseEntries keeps entries (Value.avoids_dict.mp avoids)
  | .record fields, avoids => by
      rw [Value.revise, Value.avoids_record]
      exact avoids_reviseEntries keeps fields (Value.avoids_record.mp avoids)
  | .slice start stop step, avoids => by
      obtain ⟨inStart, inStop, inStep⟩ := Value.avoids_slice.mp avoids
      rw [Value.revise, Value.avoids_slice]
      exact ⟨start.avoids_revise keeps inStart, stop.avoids_revise keeps inStop,
        step.avoids_revise keeps inStep⟩
  | .expr head arguments, avoids => by
      rw [Value.revise, Value.avoids_expr]
      exact avoids_reviseValues keeps arguments (Value.avoids_expr.mp avoids)
  | .form _ head arguments, avoids => by
      rw [Value.revise, Value.avoids_form]
      exact avoids_reviseValues keeps arguments (Value.avoids_form.mp avoids)
  | .loop ⟨found, index, body, bindings⟩, avoids => by
      rw [Value.revise_loop]
      exact keeps.changed avoids (body.avoids_revise keeps)
  | .part kind ⟨found, index, body, bindings⟩, avoids => by
      rw [Value.avoids_part, ← Value.avoids_loop] at avoids
      rw [Value.revise_part, Value.avoids_part, ← Value.avoids_loop]
      exact keeps.changed avoids (body.avoids_revise keeps)
  | .null, avoids => by rwa [Value.revise] <;> simp
  | .bool _, avoids => by rwa [Value.revise] <;> simp
  | .int _, avoids => by rwa [Value.revise] <;> simp
  | .float _, avoids => by rwa [Value.revise] <;> simp
  | .text _, avoids => by rwa [Value.revise] <;> simp
  | .symbol _, avoids => by rwa [Value.revise] <;> simp
  | .tensor _, avoids => by rwa [Value.revise] <;> simp
  | .member _ _, avoids => by rwa [Value.revise] <;> simp

theorem avoids_reviseValues (keeps : KeepsAvoiding tag change) :
    ∀ values : List Value, (∀ value ∈ values, value.Avoids tag) →
      ∀ value ∈ reviseValues change values, value.Avoids tag
  | [], _ => by simp [reviseValues]
  | value :: rest, avoids => by
      rw [List.forall_mem_cons] at avoids
      rw [reviseValues, List.forall_mem_cons]
      exact ⟨value.avoids_revise keeps avoids.1, avoids_reviseValues keeps rest avoids.2⟩

theorem avoids_reviseEntries (keeps : KeepsAvoiding tag change) :
    ∀ entries : List (String × Value), (∀ entry ∈ entries, entry.2.Avoids tag) →
      ∀ entry ∈ reviseEntries change entries, entry.2.Avoids tag
  | [], _ => by simp [reviseEntries]
  | (name, value) :: rest, avoids => by
      rw [List.forall_mem_cons] at avoids
      rw [reviseEntries, List.forall_mem_cons]
      exact ⟨value.avoids_revise keeps avoids.1, avoids_reviseEntries keeps rest avoids.2⟩

theorem Graph.avoids_revise (keeps : KeepsAvoiding tag change) :
    ∀ graph : Graph, graph.Avoids tag → (graph.revise change).Avoids tag
  | ⟨nodes, exits, nextId⟩, avoids => by
      rw [Graph.revise, Graph.avoids_iff]
      exact avoids_reviseNodes keeps nodes (Graph.avoids_iff.mp avoids)

theorem avoids_reviseNodes (keeps : KeepsAvoiding tag change) :
    ∀ nodes : List Node, (∀ node ∈ nodes, node.Avoids tag) →
      ∀ node ∈ reviseNodes change nodes, node.Avoids tag
  | [], _ => by simp [reviseNodes]
  | ⟨id, kind, content, inputs, result⟩ :: rest, avoids => by
      rw [List.forall_mem_cons] at avoids
      rw [reviseNodes, List.forall_mem_cons]
      have first := avoids.1
      exact ⟨⟨content.avoids_revise keeps first.content, result.avoids_revise keeps first.result⟩,
        avoids_reviseNodes keeps rest avoids.2⟩

end

theorem Graph.avoids_reviseAround (keeps : KeepsAvoiding tag change) (graph : Graph)
    (avoids : graph.Avoids tag) : (graph.reviseAround change).Avoids tag := by
  induction graph using contentInduction with
  | step graph induction =>
      rw [avoids_iff] at avoids
      rw [reviseAround_eq, avoids_iff]
      generalize graph.nodes = nodes at induction avoids
      induction nodes with
      | nil => simp [reviseNodesAround]
      | cons node rest nodesInduction =>
          rw [List.forall_mem_cons] at avoids
          have remaining := nodesInduction
            (fun other later => induction other (List.mem_cons_of_mem _ later)) avoids.2
          have result := node.result.avoids_revise keeps avoids.1.result
          rcases node.loop_or_plain with ⟨loop, content⟩ | plain
          · have held := avoids.1.content
            rw [content, Value.avoids_loop] at held
            have body := induction node List.mem_cons_self loop content held.2
            rw [reviseNodesAround_loop content]
            exact List.forall_mem_cons.mpr
              ⟨⟨Value.avoids_loop.mpr ⟨held.1, body⟩, result⟩, remaining⟩
          · rw [reviseNodesAround_plain plain]
            exact List.forall_mem_cons.mpr
              ⟨⟨node.content.avoids_revise keeps avoids.1.content, result⟩, remaining⟩

theorem Graph.keepsAvoiding_latest {graph : Graph} (avoids : graph.Avoids tag) :
    KeepsAvoiding tag graph.latest := by
  intro loop changed _ latest
  have inside := graph.held_subset (latest_eq_some latest).1
  exact Value.avoids_loop.mpr ⟨avoids changed inside, avoids.body inside⟩

theorem Graph.keepsAvoiding_shows {graph : Graph} (avoids : graph.Avoids tag) (target : Nat) :
    KeepsAvoiding tag (graph.shows target) := by
  intro loop changed before shows
  rcases shows_cases shows with ⟨_, rfl⟩ | latest
  · exact Value.avoids_loop.mpr ⟨(Value.avoids_loop.mp before).1, avoids⟩
  · exact keepsAvoiding_latest avoids loop changed before latest

theorem Graph.Avoids.settled {graph : Graph} (avoids : graph.Avoids tag) :
    graph.settled.Avoids tag :=
  avoids_reviseAround (keepsAvoiding_latest avoids) graph avoids

end Revision

/-- Copies of nodes take new tags. -/
theorem avoids_renewNodes {nodes : List Node} {next : Nat} (old : tag < next)
    (avoids : ∀ node ∈ nodes, node.Avoids tag) :
    ∀ node ∈ (renewNodes next nodes).1, node.Avoids tag := by
  rw [← avoids_of_loopsOfNodes] at avoids ⊢
  intro loop inside
  rcases (renewNodes_tags fun node _ loop _ next => loop.body.renew_tags next).2 loop inside with
    new | ⟨before, held, same⟩
  · omega
  · exact same ▸ avoids before held

theorem Graph.Avoids.renew {graph : Graph} {next : Nat} (old : tag < next)
    (avoids : graph.Avoids tag) : (graph.renew next).1.Avoids tag := by
  rw [renew_eq, avoids_iff]
  exact avoids_renewNodes old (avoids_iff.mp avoids)

/-- A tag that is not given out to the copies among some nodes does not come in. -/
theorem avoids_renewWhere {copied : Node → Bool} {nodes : List Node} {next : Nat}
    (outside : tag < next ∨ (renewWhere copied next nodes).2 ≤ tag)
    (avoids : ∀ node ∈ nodes, node.Avoids tag) :
    ∀ node ∈ (renewWhere copied next nodes).1, node.Avoids tag := by
  rw [← avoids_of_loopsOfNodes] at avoids ⊢
  intro loop inside
  rcases (renewWhere_tags nodes next).2 loop inside with new | ⟨before, held, same⟩
  · omega
  · exact same ▸ avoids before held

theorem Graph.Avoids.scheduled {graph scheduled : Graph} (avoids : graph.Avoids tag)
    (done : graph.scheduled = .ok scheduled) : scheduled.Avoids tag := by
  intro loop inside
  obtain ⟨old, held, same⟩ := tags_of_scheduled done loop inside
  exact same ▸ avoids old held

end FlowGraph

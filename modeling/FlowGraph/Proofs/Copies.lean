import FlowGraph.Graph.Sharing
import FlowGraph.Proofs.Scheduling

/-!
# Copies and shared loops

The state of a graph is told in two ways.  The loops that its nodes hold belong to it,
with their bodies, whatever their tags are: a copy has the same state (`state_renew`).
A loop that a result or a container refers to is not part of it; which loop it is, is
told by its tag.  So the state does not change when loops that the graph does not hold
are changed elsewhere (`state_revise`).

The loops that a copy holds have new tags, and no change to loops with older tags
reaches them.
-/

namespace FlowGraph

theorem renewNodes_loop {node : Node} {loop : Loop} (content : node.content = .loop loop)
    (next : Nat) (rest : List Node) :
    renewNodes next (node :: rest) =
      ({ node with content := .loop { loop with
          tag := next, body := (loop.body.renew (next + 1)).1 } } ::
        (renewNodes (loop.body.renew (next + 1)).2 rest).1,
        (renewNodes (loop.body.renew (next + 1)).2 rest).2) := by
  obtain ⟨id, kind, _, inputs, result⟩ := node
  obtain ⟨tag, index, body, bindings⟩ := loop
  cases content
  rw [renewNodes]

theorem renewNodes_plain {node : Node} (plain : ∀ loop, node.content ≠ .loop loop)
    (next : Nat) (rest : List Node) :
    renewNodes next (node :: rest) =
      (node :: (renewNodes next rest).1, (renewNodes next rest).2) := by
  obtain ⟨id, kind, content, inputs, result⟩ := node
  rw [renewNodes]
  rintro _ _ _ _ _ _ _ _ ⟨⟩
  exact plain _ rfl

/-- A node holds a loop, or its content is none. -/
theorem Node.loop_or_plain (node : Node) :
    (∃ loop, node.content = .loop loop) ∨ ∀ loop, node.content ≠ .loop loop := by
  by_cases held : ∃ loop, node.content = .loop loop
  · exact .inl held
  · exact .inr (not_exists.mp held)

theorem Graph.renew_eq (graph : Graph) (next : Nat) :
    graph.renew next =
      ({ graph with nodes := (renewNodes next graph.nodes).1 },
        (renewNodes next graph.nodes).2) := by
  obtain ⟨nodes, exits, nextId⟩ := graph
  rw [Graph.renew]

theorem Graph.allLoops_eq (graph : Graph) : graph.allLoops = loopsOfNodes graph.nodes := by
  obtain ⟨nodes, exits, nextId⟩ := graph
  rw [Graph.allLoops]

theorem loopsOfNodes_cons (node : Node) (rest : List Node) :
    loopsOfNodes (node :: rest) =
      node.content.loops ++ node.result.loops ++ loopsOfNodes rest := by
  cases node
  rw [loopsOfNodes]

theorem mem_loopsOfNodes {nodes : List Node} {loop : Loop} :
    loop ∈ loopsOfNodes nodes ↔
      ∃ node ∈ nodes, loop ∈ node.content.loops ∨ loop ∈ node.result.loops := by
  induction nodes with
  | nil => simp [loopsOfNodes]
  | cons node rest induction => simp [loopsOfNodes_cons, induction, or_assoc]

theorem loopsOfNodes_append (first second : List Node) :
    loopsOfNodes (first ++ second) = loopsOfNodes first ++ loopsOfNodes second := by
  induction first with
  | nil => simp [loopsOfNodes]
  | cons node rest induction => simp [loopsOfNodes_cons, induction]

theorem Value.loops_loop (loop : Loop) :
    (Value.loop loop).loops = loop :: loop.body.allLoops := by
  cases loop
  rw [Value.loops]

theorem Value.loops_part (kind : LoopPart) (loop : Loop) :
    (Value.part kind loop).loops = loop :: loop.body.allLoops := by
  cases loop
  rw [Value.loops]

section Held

theorem Graph.held_eq (graph : Graph) : graph.held = heldBy graph.nodes := by
  obtain ⟨nodes, exits, nextId⟩ := graph
  rw [Graph.held]

theorem heldBy_loop {node : Node} {loop : Loop} (content : node.content = .loop loop)
    (rest : List Node) : heldBy (node :: rest) = loop :: (loop.body.held ++ heldBy rest) := by
  obtain ⟨id, kind, _, inputs, result⟩ := node
  obtain ⟨tag, index, body, bindings⟩ := loop
  cases content
  rw [heldBy]

theorem heldBy_plain {node : Node} (plain : ∀ loop, node.content ≠ .loop loop)
    (rest : List Node) : heldBy (node :: rest) = heldBy rest := by
  obtain ⟨id, kind, content, inputs, result⟩ := node
  rw [heldBy]
  rintro _ _ _ _ _ _ _ _ ⟨⟩
  exact plain _ rfl

theorem heldBy_append (first second : List Node) :
    heldBy (first ++ second) = heldBy first ++ heldBy second := by
  induction first with
  | nil => simp [heldBy]
  | cons node rest induction =>
      rw [List.cons_append]
      rcases node.loop_or_plain with ⟨loop, content⟩ | plain
      · rw [heldBy_loop content, heldBy_loop content, induction, List.cons_append,
          List.append_assoc]
      · rw [heldBy_plain plain, heldBy_plain plain, induction]

theorem mem_heldBy {nodes : List Node} {found : Loop} :
    found ∈ heldBy nodes ↔ ∃ node ∈ nodes, ∃ loop, node.content = .loop loop ∧
      (found = loop ∨ found ∈ loop.body.held) := by
  induction nodes with
  | nil => simp [heldBy]
  | cons node rest induction =>
      rw [List.exists_mem_cons_iff, ← induction]
      rcases node.loop_or_plain with ⟨loop, content⟩ | plain
      · simp [heldBy_loop content, content, or_assoc]
      · simp [heldBy_plain plain, plain]

namespace Graph

theorem mem_held {graph : Graph} {found : Loop} :
    found ∈ graph.held ↔ ∃ node ∈ graph.nodes, ∃ loop, node.content = .loop loop ∧
      (found = loop ∨ found ∈ loop.body.held) := by
  rw [held_eq, mem_heldBy]

/-- The loops that a graph holds occur in it. -/
theorem held_subset (graph : Graph) : graph.held ⊆ graph.allLoops := by
  induction graph using contentInduction with
  | step graph induction =>
      intro found member
      obtain ⟨node, inside, loop, content, here⟩ := mem_held.mp member
      rw [allLoops_eq, mem_loopsOfNodes]
      refine ⟨node, inside, .inl ?_⟩
      rw [content, Value.loops_loop, List.mem_cons]
      exact here.imp_right fun deeper => induction node inside loop content deeper

theorem latest_eq_some {graph : Graph} {loop found : Loop}
    (latest : graph.latest loop = some found) :
    found ∈ graph.held ∧ found.tag = loop.tag :=
  ⟨List.mem_of_find?_eq_some latest, by simpa using List.find?_some latest⟩

theorem latest_eq_none {graph : Graph} {loop : Loop}
    (apart : ∀ found ∈ graph.held, found.tag ≠ loop.tag) : graph.latest loop = none := by
  rw [latest, List.find?_eq_none]
  intro found member
  simpa using apart found member

end Graph

end Held

/-- Loops whose tags were given out between two counts, or are those of old loops. -/
def TaggedWithin (next last : Nat) (loops olds : List Loop) : Prop :=
  ∀ found ∈ loops, (next ≤ found.tag ∧ found.tag < last) ∨ ∃ old ∈ olds, old.tag = found.tag

namespace TaggedWithin

variable {next bound limit last : Nat} {first second olds more : List Loop}

theorem of_subset (next last : Nat) (among : first ⊆ olds) : TaggedWithin next last first olds :=
  fun found member => .inr ⟨found, among member, rfl⟩

theorem mono (tagged : TaggedWithin bound limit first olds) (above : next ≤ bound)
    (below : limit ≤ last) (among : olds ⊆ more) : TaggedWithin next last first more := by
  intro found member
  rcases tagged found member with ⟨fresh, given⟩ | ⟨old, inside, same⟩
  · exact .inl ⟨Nat.le_trans above fresh, Nat.lt_of_lt_of_le given below⟩
  · exact .inr ⟨old, among inside, same⟩

theorem append (left : TaggedWithin next last first olds)
    (right : TaggedWithin next last second olds) :
    TaggedWithin next last (first ++ second) olds := by
  intro found member
  rcases List.mem_append.mp member with before | after
  · exact left found before
  · exact right found after

theorem cons {loop : Loop} (fresh : next ≤ loop.tag) (given : loop.tag < last)
    (tagged : TaggedWithin next last first olds) :
    TaggedWithin next last (loop :: first) olds := by
  intro found member
  rcases List.mem_cons.mp member with rfl | later
  · exact .inl ⟨fresh, given⟩
  · exact tagged found later

end TaggedWithin

theorem renewNodes_tags {nodes : List Node} {next : Nat}
    (bodies : ∀ node ∈ nodes, ∀ loop, node.content = .loop loop → ∀ next,
      next ≤ (loop.body.renew next).2 ∧
        TaggedWithin next (loop.body.renew next).2 (loop.body.renew next).1.allLoops
          loop.body.allLoops) :
    next ≤ (renewNodes next nodes).2 ∧
      TaggedWithin next (renewNodes next nodes).2 (loopsOfNodes (renewNodes next nodes).1)
        (loopsOfNodes nodes) := by
  induction nodes generalizing next with
  | nil => exact ⟨Nat.le_refl next, .of_subset next next (List.Subset.refl _)⟩
  | cons node rest induction =>
      have remaining := fun next => @induction next
        fun other later => bodies other (List.mem_cons_of_mem _ later)
      have inContent : node.content.loops ⊆ loopsOfNodes (node :: rest) := by
        simp [loopsOfNodes_cons]
      have inResult : node.result.loops ⊆ loopsOfNodes (node :: rest) := by
        simp [loopsOfNodes_cons]
      have inRest : loopsOfNodes rest ⊆ loopsOfNodes (node :: rest) := by
        simp [loopsOfNodes_cons]
      rcases node.loop_or_plain with ⟨loop, content⟩ | plain
      · obtain ⟨grows, tagged⟩ := bodies node List.mem_cons_self loop content (next + 1)
        obtain ⟨further, later⟩ := remaining (loop.body.renew (next + 1)).2
        have inBody : loop.body.allLoops ⊆ loopsOfNodes (node :: rest) := by
          intro found member
          apply inContent
          rw [content, Value.loops_loop]
          exact List.mem_cons_of_mem _ member
        rw [renewNodes_loop content, loopsOfNodes_cons, Value.loops_loop]
        have given : next < (renewNodes (loop.body.renew (next + 1)).2 rest).2 := by omega
        refine ⟨by omega, .append (.append (.cons (Nat.le_refl next) given ?_) ?_) ?_⟩
        · exact tagged.mono (Nat.le_succ next) further inBody
        · exact .of_subset _ _ inResult
        · exact later.mono (by omega) (Nat.le_refl _) inRest
      · rw [renewNodes_plain plain, loopsOfNodes_cons]
        obtain ⟨further, later⟩ := remaining next
        refine ⟨further, .append (.append ?_ ?_) ?_⟩
        · exact .of_subset _ _ inContent
        · exact .of_subset _ _ inResult
        · exact later.mono (Nat.le_refl next) (Nat.le_refl _) inRest

/-- The loops of a copy have new tags, those among the results their old ones. -/
theorem Graph.renew_tags (graph : Graph) (next : Nat) :
    next ≤ (graph.renew next).2 ∧
      TaggedWithin next (graph.renew next).2 (graph.renew next).1.allLoops graph.allLoops := by
  induction graph using contentInduction generalizing next with
  | step graph induction =>
      rw [renew_eq, allLoops_eq, allLoops_eq]
      exact renewNodes_tags induction

theorem heldBy_renewNodes_of {nodes : List Node} {next : Nat}
    (bodies : ∀ node ∈ nodes, ∀ loop, node.content = .loop loop → ∀ next,
      ∀ found ∈ (loop.body.renew next).1.held, next ≤ found.tag) :
    ∀ found ∈ heldBy (renewNodes next nodes).1, next ≤ found.tag := by
  induction nodes generalizing next with
  | nil => simp [renewNodes, heldBy]
  | cons node rest induction =>
      have remaining := fun next => @induction next
        fun other later => bodies other (List.mem_cons_of_mem _ later)
      rcases node.loop_or_plain with ⟨loop, content⟩ | plain
      · have grows := (loop.body.renew_tags (next + 1)).1
        rw [renewNodes_loop content, heldBy_loop rfl]
        intro found member
        rcases List.mem_cons.mp member with rfl | later
        · exact Nat.le_refl next
        rcases List.mem_append.mp later with inBody | inRest
        · have := bodies node List.mem_cons_self loop content (next + 1) found inBody
          omega
        · have := remaining _ found inRest
          omega
      · rw [renewNodes_plain plain, heldBy_plain plain]
        exact remaining next

/-- The loops that a copy holds have new tags. -/
theorem Graph.held_renew (graph : Graph) (next : Nat) :
    ∀ found ∈ (graph.renew next).1.held, next ≤ found.tag := by
  induction graph using contentInduction generalizing next with
  | step graph induction =>
      rw [renew_eq, held_eq]
      exact heldBy_renewNodes_of induction

theorem heldBy_renewNodes (nodes : List Node) (next : Nat) :
    ∀ found ∈ heldBy (renewNodes next nodes).1, next ≤ found.tag :=
  heldBy_renewNodes_of fun _ _ loop _ next => loop.body.held_renew next

section Copied

variable {copied : Node → Bool}

theorem renewWhere_copied {node : Node} (made : copied node) (next : Nat) (rest : List Node) :
    renewWhere copied next (node :: rest) =
      ((renewNodes next [node]).1 ++ (renewWhere copied (renewNodes next [node]).2 rest).1,
        (renewWhere copied (renewNodes next [node]).2 rest).2) := by
  simp only [renewWhere, if_pos made]

theorem renewWhere_kept {node : Node} (kept : ¬copied node) (next : Nat) (rest : List Node) :
    renewWhere copied next (node :: rest) =
      (node :: (renewWhere copied next rest).1, (renewWhere copied next rest).2) := by
  simp only [renewWhere, if_neg kept, List.singleton_append]

theorem renewWhere_tags (nodes : List Node) (next : Nat) :
    next ≤ (renewWhere copied next nodes).2 ∧
      TaggedWithin next (renewWhere copied next nodes).2
        (loopsOfNodes (renewWhere copied next nodes).1) (loopsOfNodes nodes) := by
  induction nodes generalizing next with
  | nil => exact ⟨Nat.le_refl next, .of_subset next next (List.Subset.refl _)⟩
  | cons node rest induction =>
      have inRest : loopsOfNodes rest ⊆ loopsOfNodes (node :: rest) := by
        simp [loopsOfNodes_cons]
      have here : loopsOfNodes [node] ⊆ loopsOfNodes (node :: rest) := by
        simp [loopsOfNodes_cons, loopsOfNodes]
      by_cases made : copied node
      · obtain ⟨grows, tagged⟩ := @renewNodes_tags [node] next
          fun node _ loop _ next => loop.body.renew_tags next
        obtain ⟨further, later⟩ := induction (renewNodes next [node]).2
        rw [renewWhere_copied made, loopsOfNodes_append]
        refine ⟨by omega, .append ?_ ?_⟩
        · exact tagged.mono (Nat.le_refl next) further here
        · exact later.mono grows (Nat.le_refl _) inRest
      · obtain ⟨further, later⟩ := induction next
        rw [renewWhere_kept made, ← List.singleton_append, loopsOfNodes_append]
        refine ⟨further, .append (.of_subset _ _ here) ?_⟩
        exact later.mono (Nat.le_refl next) (Nat.le_refl _) inRest

/-- The loops that copied nodes hold have new tags; the others are there as before. -/
theorem heldBy_renewWhere (nodes : List Node) (next : Nat) :
    ∀ found ∈ heldBy (renewWhere copied next nodes).1,
      next ≤ found.tag ∨ found ∈ heldBy (nodes.filter fun node => !copied node) := by
  induction nodes generalizing next with
  | nil => simp [renewWhere, heldBy]
  | cons node rest induction =>
      intro found member
      by_cases made : copied node
      · have grows := (@renewNodes_tags [node] next
          fun node _ loop _ next => loop.body.renew_tags next).1
        rw [renewWhere_copied made, heldBy_append] at member
        rw [List.filter_cons_of_neg (by simp [made])]
        rcases List.mem_append.mp member with new | later
        · exact .inl (heldBy_renewNodes [node] next found new)
        · exact (induction _ found later).imp_left (Nat.le_trans grows)
      · rw [renewWhere_kept made, ← List.singleton_append, heldBy_append] at member
        rw [List.filter_cons_of_pos (by simp [made]), ← List.singleton_append, heldBy_append]
        rcases List.mem_append.mp member with here | later
        · exact .inr (List.mem_append_left _ here)
        · exact (induction next found later).imp_right (List.mem_append_right _)

end Copied

section Revision

variable {change : Loop → Option Loop}

theorem Value.revise_loop (change : Loop → Option Loop) (loop : Loop) :
    (Value.loop loop).revise change =
      .loop ((change loop).getD { loop with body := loop.body.revise change }) := by
  cases loop
  rw [Value.revise]

theorem Value.revise_part (change : Loop → Option Loop) (kind : LoopPart) (loop : Loop) :
    (Value.part kind loop).revise change =
      .part kind ((change loop).getD { loop with body := loop.body.revise change }) := by
  cases loop
  rw [Value.revise]

/-- What is no loop does not become one. -/
theorem Value.revise_plain {value : Value} (plain : ∀ loop, value ≠ .loop loop) :
    ∀ loop, value.revise change ≠ .loop loop := by
  cases value
  case loop loop => exact absurd rfl (plain loop)
  case part kind loop => simp [Value.revise_part]
  all_goals simp [Value.revise]

theorem reviseNodes_cons (node : Node) (rest : List Node) :
    reviseNodes change (node :: rest) =
      { node with content := node.content.revise change, result := node.result.revise change } ::
        reviseNodes change rest := by
  cases node
  rw [reviseNodes]

theorem Graph.revise_eq (graph : Graph) (change : Loop → Option Loop) :
    graph.revise change = { graph with nodes := reviseNodes change graph.nodes } := by
  obtain ⟨nodes, exits, nextId⟩ := graph
  rw [Graph.revise]

theorem reviseNodesAround_loop {node : Node} {loop : Loop} (content : node.content = .loop loop)
    (rest : List Node) :
    reviseNodesAround change (node :: rest) =
      { node with
        content := .loop { loop with body := loop.body.reviseAround change }
        result := node.result.revise change } :: reviseNodesAround change rest := by
  obtain ⟨id, kind, _, inputs, result⟩ := node
  obtain ⟨tag, index, body, bindings⟩ := loop
  cases content
  rw [reviseNodesAround]

theorem reviseNodesAround_plain {node : Node} (plain : ∀ loop, node.content ≠ .loop loop)
    (rest : List Node) :
    reviseNodesAround change (node :: rest) =
      { node with content := node.content.revise change, result := node.result.revise change } ::
        reviseNodesAround change rest := by
  obtain ⟨id, kind, content, inputs, result⟩ := node
  rw [reviseNodesAround]
  rintro _ _ _ _ ⟨⟩
  exact plain _ rfl

theorem Graph.reviseAround_eq (graph : Graph) (change : Loop → Option Loop) :
    graph.reviseAround change = { graph with nodes := reviseNodesAround change graph.nodes } := by
  obtain ⟨nodes, exits, nextId⟩ := graph
  rw [Graph.reviseAround]

/-- A change around the loops that a graph holds leaves their tags. -/
theorem Graph.held_reviseAround (graph : Graph) (change : Loop → Option Loop) :
    (graph.reviseAround change).held.map Loop.tag = graph.held.map Loop.tag := by
  induction graph using contentInduction with
  | step graph induction =>
      rw [reviseAround_eq, held_eq, held_eq]
      generalize graph.nodes = nodes at induction
      induction nodes with
      | nil => simp [reviseNodesAround]
      | cons node rest nodesInduction =>
          have remaining := nodesInduction
            fun other later => induction other (List.mem_cons_of_mem _ later)
          rcases node.loop_or_plain with ⟨loop, content⟩ | plain
          · have inBody := induction node List.mem_cons_self loop content
            rw [reviseNodesAround_loop content, heldBy_loop rfl, heldBy_loop content]
            simp [remaining, inBody]
          · rw [reviseNodesAround_plain plain, heldBy_plain plain,
              heldBy_plain (Value.revise_plain plain), remaining]

/-- A change to loops that a graph does not hold leaves those that it holds. -/
theorem Graph.held_revise (graph : Graph) (apart : ∀ loop ∈ graph.held, change loop = none) :
    (graph.revise change).held.map Loop.tag = graph.held.map Loop.tag := by
  induction graph using contentInduction with
  | step graph induction =>
      rw [held_eq] at apart
      rw [revise_eq, held_eq, held_eq]
      generalize graph.nodes = nodes at induction apart
      induction nodes with
      | nil => simp [reviseNodes]
      | cons node rest nodesInduction =>
          have bodies := fun other later => induction other (List.mem_cons_of_mem _ later)
          rcases node.loop_or_plain with ⟨loop, content⟩ | plain
          · rw [heldBy_loop content, List.forall_mem_cons, List.forall_mem_append] at apart
            obtain ⟨here, inBody, later⟩ := apart
            have body := induction node List.mem_cons_self loop content inBody
            have revised : node.content.revise change =
                .loop { loop with body := loop.body.revise change } := by
              rw [content, Value.revise_loop, here, Option.getD_none]
            rw [reviseNodes_cons, heldBy_loop revised, heldBy_loop content]
            simp [nodesInduction bodies later, body]
          · rw [heldBy_plain plain] at apart
            rw [reviseNodes_cons, heldBy_plain (Value.revise_plain plain), heldBy_plain plain,
              nodesInduction bodies apart]

end Revision

section State

/-- A loop of which only the tag is known. -/
def Loop.bare (loop : Loop) : Loop :=
  ⟨loop.tag, "", Graph.empty, []⟩

/-- A value in which loops are told by their tags. -/
def Value.byReference (value : Value) : Value :=
  value.revise fun loop => some loop.bare

mutual

/-- The state of a graph.  The loops that its nodes hold are part of it, and their tags
are not; a loop that a result or a container refers to is told by its tag. -/
def Graph.state : Graph → Graph
  | ⟨nodes, exits, nextId⟩ => ⟨stateOfNodes nodes, exits, nextId⟩

/-- The state of some nodes. -/
def stateOfNodes : List Node → List Node
  | [] => []
  | ⟨id, kind, .loop ⟨_, index, body, bindings⟩, inputs, result⟩ :: rest =>
      ⟨id, kind, .loop ⟨0, index, body.state, bindings⟩, inputs, result.byReference⟩ ::
        stateOfNodes rest
  | ⟨id, kind, content, inputs, result⟩ :: rest =>
      ⟨id, kind, content.byReference, inputs, result.byReference⟩ :: stateOfNodes rest

end

theorem stateOfNodes_loop {node : Node} {loop : Loop} (content : node.content = .loop loop)
    (rest : List Node) :
    stateOfNodes (node :: rest) =
      { node with
        content := .loop { loop with tag := 0, body := loop.body.state }
        result := node.result.byReference } :: stateOfNodes rest := by
  obtain ⟨id, kind, _, inputs, result⟩ := node
  obtain ⟨tag, index, body, bindings⟩ := loop
  cases content
  rw [stateOfNodes]

theorem stateOfNodes_plain {node : Node} (plain : ∀ loop, node.content ≠ .loop loop)
    (rest : List Node) :
    stateOfNodes (node :: rest) =
      { node with content := node.content.byReference, result := node.result.byReference } ::
        stateOfNodes rest := by
  obtain ⟨id, kind, content, inputs, result⟩ := node
  rw [stateOfNodes]
  rintro _ _ _ _ ⟨⟩
  exact plain _ rfl

theorem Graph.state_eq (graph : Graph) :
    graph.state = { graph with nodes := stateOfNodes graph.nodes } := by
  obtain ⟨nodes, exits, nextId⟩ := graph
  rw [Graph.state]

/-- A copy has the state of the graph. -/
theorem Graph.state_renew (graph : Graph) (next : Nat) :
    (graph.renew next).1.state = graph.state := by
  induction graph using contentInduction generalizing next with
  | step graph induction =>
      rw [renew_eq, state_eq, state_eq graph]
      congr 1
      generalize graph.nodes = nodes at induction
      induction nodes generalizing next with
      | nil => rfl
      | cons node rest nodesInduction =>
          have remaining := fun next => nodesInduction next
            fun other later => induction other (List.mem_cons_of_mem _ later)
          rcases node.loop_or_plain with ⟨loop, content⟩ | plain
          · have body := induction node List.mem_cons_self loop content
            rw [renewNodes_loop content, stateOfNodes_loop rfl, stateOfNodes_loop content,
              remaining, body]
          · rw [renewNodes_plain plain, stateOfNodes_plain plain, stateOfNodes_plain plain,
              remaining]

theorem stateOfNodes_append (first second : List Node) :
    stateOfNodes (first ++ second) = stateOfNodes first ++ stateOfNodes second := by
  induction first with
  | nil => rw [stateOfNodes, List.nil_append, List.nil_append]
  | cons node rest induction =>
      rcases node.loop_or_plain with ⟨loop, content⟩ | plain
      · rw [List.cons_append, stateOfNodes_loop content, stateOfNodes_loop content, induction,
          List.cons_append]
      · rw [List.cons_append, stateOfNodes_plain plain, stateOfNodes_plain plain, induction,
          List.cons_append]

theorem stateOfNodes_renewNodes (nodes : List Node) (next : Nat) :
    stateOfNodes (renewNodes next nodes).1 = stateOfNodes nodes := by
  have same := Graph.state_renew ⟨nodes, [], 0⟩ next
  rw [Graph.renew_eq, Graph.state_eq, Graph.state_eq] at same
  exact congrArg Graph.nodes same

/-- New tags for the loops of some of the nodes leave their state. -/
theorem stateOfNodes_renewWhere (copied : Node → Bool) (nodes : List Node) (next : Nat) :
    stateOfNodes (renewWhere copied next nodes).1 = stateOfNodes nodes := by
  induction nodes generalizing next with
  | nil => rfl
  | cons node rest induction =>
      by_cases made : copied node
      · rw [renewWhere_copied made, stateOfNodes_append, stateOfNodes_renewNodes, induction,
          ← stateOfNodes_append, List.singleton_append]
      · rw [renewWhere_kept made, ← List.singleton_append, stateOfNodes_append, induction,
          ← stateOfNodes_append, List.singleton_append]

/-- A change gives way to loops of the same tags. -/
def KeepsTags (change : Loop → Option Loop) : Prop :=
  ∀ loop changed, change loop = some changed → changed.tag = loop.tag

variable {change : Loop → Option Loop}

theorem KeepsTags.bare (keeps : KeepsTags change) (loop : Loop) :
    ((change loop).getD { loop with body := loop.body.revise change }).bare = loop.bare := by
  cases given : change loop with
  | none => rfl
  | some changed => simp [Loop.bare, keeps loop changed given]

mutual

theorem Value.byReference_revise (keeps : KeepsTags change) : ∀ value : Value,
    (value.revise change).byReference = value.byReference
  | .list items => by
      simp only [Value.byReference, Value.revise]
      rw [reviseValues_bare keeps items]
  | .tuple items => by
      simp only [Value.byReference, Value.revise]
      rw [reviseValues_bare keeps items]
  | .dict entries => by
      simp only [Value.byReference, Value.revise]
      rw [reviseEntries_bare keeps entries]
  | .record fields => by
      simp only [Value.byReference, Value.revise]
      rw [reviseEntries_bare keeps fields]
  | .slice start stop step => by
      have first := Value.byReference_revise keeps start
      have middle := Value.byReference_revise keeps stop
      have last := Value.byReference_revise keeps step
      simp only [Value.byReference] at first middle last
      simp only [Value.byReference, Value.revise, first, middle, last]
  | .expr head arguments => by
      simp only [Value.byReference, Value.revise]
      rw [reviseValues_bare keeps arguments]
  | .form tag head arguments => by
      simp only [Value.byReference, Value.revise]
      rw [reviseValues_bare keeps arguments]
  | .loop loop => by
      rw [Value.revise_loop, Value.byReference, Value.byReference, Value.revise_loop,
        Value.revise_loop, Option.getD_some, Option.getD_some, keeps.bare]
  | .part kind loop => by
      rw [Value.revise_part, Value.byReference, Value.byReference, Value.revise_part,
        Value.revise_part, Option.getD_some, Option.getD_some, keeps.bare]
  | .null => by simp [Value.revise]
  | .bool _ => by simp [Value.revise]
  | .int _ => by simp [Value.revise]
  | .float _ => by simp [Value.revise]
  | .text _ => by simp [Value.revise]
  | .symbol _ => by simp [Value.revise]
  | .tensor _ => by simp [Value.revise]
  | .member _ _ => by simp [Value.revise]

theorem reviseValues_bare (keeps : KeepsTags change) : ∀ values : List Value,
    reviseValues (fun loop => some loop.bare) (reviseValues change values) =
      reviseValues (fun loop => some loop.bare) values
  | [] => by rw [reviseValues]
  | value :: rest => by
      have first := Value.byReference_revise keeps value
      simp only [Value.byReference] at first
      simp only [reviseValues, first, reviseValues_bare keeps rest]

theorem reviseEntries_bare (keeps : KeepsTags change) : ∀ entries : List (String × Value),
    reviseEntries (fun loop => some loop.bare) (reviseEntries change entries) =
      reviseEntries (fun loop => some loop.bare) entries
  | [] => by rw [reviseEntries]
  | (name, value) :: rest => by
      have first := Value.byReference_revise keeps value
      simp only [Value.byReference] at first
      simp only [reviseEntries, first, reviseEntries_bare keeps rest]

end

variable (keeps : KeepsTags change)
include keeps

namespace Graph

/-- A change to loops that a graph does not hold leaves its state. -/
theorem state_revise (graph : Graph) (apart : ∀ loop ∈ graph.held, change loop = none) :
    (graph.revise change).state = graph.state := by
  induction graph using contentInduction with
  | step graph induction =>
      rw [held_eq] at apart
      rw [revise_eq, state_eq, state_eq graph]
      congr 1
      generalize graph.nodes = nodes at induction apart
      induction nodes with
      | nil => rw [reviseNodes]
      | cons node rest nodesInduction =>
          have result := Value.byReference_revise keeps node.result
          rcases node.loop_or_plain with ⟨loop, content⟩ | plain
          · rw [heldBy_loop content, List.forall_mem_cons, List.forall_mem_append] at apart
            obtain ⟨here, inBody, later⟩ := apart
            have body := induction node List.mem_cons_self loop content inBody
            have remaining := nodesInduction
              (fun other member => induction other (List.mem_cons_of_mem _ member)) later
            have revised : node.content.revise change =
                .loop { loop with body := loop.body.revise change } := by
              rw [content, Value.revise_loop, here, Option.getD_none]
            rw [reviseNodes_cons, stateOfNodes_loop content, stateOfNodes_loop revised, remaining]
            simp only [body, result]
          · rw [heldBy_plain plain] at apart
            have remaining := nodesInduction
              (fun other member => induction other (List.mem_cons_of_mem _ member)) apart
            rw [reviseNodes_cons, stateOfNodes_plain plain,
              stateOfNodes_plain (Value.revise_plain plain), remaining]
            simp only [result, Value.byReference_revise keeps node.content]

theorem state_reviseAround (graph : Graph) :
    (graph.reviseAround change).state = graph.state := by
  induction graph using contentInduction with
  | step graph induction =>
      rw [reviseAround_eq, state_eq, state_eq graph]
      congr 1
      generalize graph.nodes = nodes at induction
      induction nodes with
      | nil => rw [reviseNodesAround]
      | cons node rest nodesInduction =>
          have result := Value.byReference_revise keeps node.result
          have remaining := nodesInduction
            fun other member => induction other (List.mem_cons_of_mem _ member)
          rcases node.loop_or_plain with ⟨loop, content⟩ | plain
          · have body := induction node List.mem_cons_self loop content
            rw [reviseNodesAround_loop content, stateOfNodes_loop rfl, stateOfNodes_loop content,
              remaining]
            simp only [body, result]
          · rw [reviseNodesAround_plain plain, stateOfNodes_plain plain,
              stateOfNodes_plain (Value.revise_plain plain), remaining]
            simp only [result, Value.byReference_revise keeps node.content]

end Graph

end State

section Showing

variable {graph : Graph} {tag : Nat} {loop changed : Loop}

theorem Graph.keepsTags_latest (graph : Graph) : KeepsTags graph.latest :=
  fun _ _ latest => (latest_eq_some latest).2

theorem Graph.shows_cases (shows : graph.shows tag loop = some changed) :
    (loop.tag = tag ∧ changed = { loop with body := graph }) ∨
      graph.latest loop = some changed := by
  unfold Graph.shows Loop.withBody at shows
  split at shows
  · rename_i same
    cases shows
    exact .inl ⟨same, rfl⟩
  · exact .inr shows

theorem Graph.keepsTags_shows (graph : Graph) (tag : Nat) : KeepsTags (graph.shows tag) := by
  intro loop changed shows
  rcases shows_cases shows with ⟨_, rfl⟩ | latest
  · rfl
  · exact graph.keepsTags_latest loop changed latest

theorem Graph.shows_eq_none (other : loop.tag ≠ tag)
    (apart : ∀ found ∈ graph.held, found.tag ≠ loop.tag) : graph.shows tag loop = none := by
  rw [shows, Loop.withBody, if_neg other, latest_eq_none apart]
  rfl

theorem Graph.state_settled (graph : Graph) : graph.settled.state = graph.state :=
  graph.state_reviseAround graph.keepsTags_latest

theorem Graph.tags_settled (graph : Graph) :
    graph.settled.held.map Loop.tag = graph.held.map Loop.tag :=
  graph.held_reviseAround graph.latest

theorem Graph.exists_held_of_settled {found : Loop} (member : found ∈ graph.settled.held) :
    ∃ loop ∈ graph.held, loop.tag = found.tag := by
  have listed : found.tag ∈ graph.settled.held.map Loop.tag := List.mem_map_of_mem member
  rw [graph.tags_settled] at listed
  exact List.mem_map.mp listed

end Showing

namespace Graph

theorem scheduled_origins {graph scheduled : Graph} (done : graph.scheduled = .ok scheduled) :
    ∀ other ∈ scheduled.nodes, ∃ node ∈ graph.nodes, node.Revised Loop.ScheduledTo other := by
  obtain ⟨order, others, _, bodies, rfl⟩ := scheduled_eq_ok_iff.mp done
  intro other member
  obtain ⟨id, _, found⟩ := List.mem_filterMap.mp member
  obtain ⟨node, foundNode, revised⟩ :=
    exists_partnered (find?_revised (scheduleBodies_revised bodies) id) found
  exact ⟨node, List.mem_of_find?_eq_some foundNode, revised⟩

/-- The loops that a schedule holds have the tags of those that the graph holds. -/
theorem held_of_scheduled {graph scheduled : Graph} (done : graph.scheduled = .ok scheduled) :
    ∀ found ∈ scheduled.held, ∃ old ∈ graph.held, old.tag = found.tag := by
  induction graph using bodyInduction generalizing scheduled with
  | step graph induction =>
      intro found member
      obtain ⟨other, inside, held, holds, here⟩ := mem_held.mp member
      obtain ⟨node, inGraph, revised⟩ := scheduled_origins done other inside
      cases revised with
      | same => exact ⟨found, mem_held.mpr ⟨_, inGraph, held, holds, here⟩, rfl⟩
      | @loop loop changed runs related =>
          have content := (Node.loop?_eq_some.mp runs).2
          cases holds
          rcases here with rfl | deeper
          · exact ⟨loop, mem_held.mpr ⟨node, inGraph, loop, content, .inl rfl⟩, related.tag.symm⟩
          · obtain ⟨old, inBody, same⟩ :=
              induction node inGraph loop runs related.body found deeper
            exact ⟨old, mem_held.mpr ⟨node, inGraph, loop, content, .inr inBody⟩, same⟩

/-- The loops of a schedule have the tags of the loops of the graph. -/
theorem tags_of_scheduled {graph scheduled : Graph} (done : graph.scheduled = .ok scheduled) :
    ∀ found ∈ scheduled.allLoops, ∃ old ∈ graph.allLoops, old.tag = found.tag := by
  induction graph using bodyInduction generalizing scheduled with
  | step graph induction =>
      intro found member
      rw [allLoops_eq] at member
      obtain ⟨other, inside, holds⟩ := mem_loopsOfNodes.mp member
      obtain ⟨node, inGraph, revised⟩ := scheduled_origins done other inside
      have occurs : ∀ {loop : Loop}, loop ∈ node.content.loops ∨ loop ∈ node.result.loops →
          loop ∈ graph.allLoops := by
        intro loop held
        rw [allLoops_eq]
        exact mem_loopsOfNodes.mpr ⟨node, inGraph, held⟩
      cases revised with
      | same => exact ⟨found, occurs holds, rfl⟩
      | @loop loop changed runs related =>
          have content := (Node.loop?_eq_some.mp runs).2
          rcases holds with held | resulting
          · rw [Value.loops_loop] at held
            rcases List.mem_cons.mp held with rfl | deeper
            · refine ⟨loop, occurs (.inl ?_), related.tag.symm⟩
              rw [content, Value.loops_loop]
              exact List.mem_cons_self
            · obtain ⟨old, inBody, same⟩ :=
                induction node inGraph loop runs related.body found deeper
              refine ⟨old, occurs (.inl ?_), same⟩
              rw [content, Value.loops_loop]
              exact List.mem_cons_of_mem _ inBody
          · exact ⟨found, occurs (.inr resulting), rfl⟩

end Graph

end FlowGraph

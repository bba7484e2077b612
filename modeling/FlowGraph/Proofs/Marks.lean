import FlowGraph.Graph.Drawing
import FlowGraph.Proofs.WellFormed

/-!
# The marks of a drawing

A drawing is made in two rounds: declarations give numbers to the nodes of all graphs in a
nest, and edges look the numbers up.  `Stands` says which nodes the two rounds come past, and
where; `Declares` says what the first round makes of each of them.  The marks are numbered in
one row, so that a number belongs to one node, and edges and exits start at marked nodes.
-/

namespace FlowGraph

/-- A node stands in one of the graphs that are nested in some nodes: at this place, in the
body of a loop with these bindings. -/
inductive Stands : Position → List (NodeId × NodeId) → List Node →
    Position → List (NodeId × NodeId) → Node → Prop where
  | here {position : Position} {bindings : List (NodeId × NodeId)} {nodes : List Node}
      {node : Node} (member : node ∈ nodes) :
      Stands position bindings nodes position bindings node
  | inside {position place : Position} {bindings inner : List (NodeId × NodeId)}
      {nodes : List Node} {outer node : Node} {loop : Loop} (member : outer ∈ nodes)
      (runs : outer.loop? = some loop)
      (deeper : Stands (outer.id :: position) loop.bindings loop.body.nodes place inner node) :
      Stands position bindings nodes place inner node

namespace Stands

variable {position place : Position} {bindings inner : List (NodeId × NodeId)}
  {nodes : List Node} {node : Node}

theorem mono {more : List Node} (subset : nodes ⊆ more)
    (stands : Stands position bindings nodes place inner node) :
    Stands position bindings more place inner node := by
  cases stands with
  | here member => exact .here (subset member)
  | inside member runs deeper => exact .inside (subset member) runs deeper

theorem cons_iff {first : Node} :
    Stands position bindings (first :: nodes) place inner node ↔
      (position = place ∧ bindings = inner ∧ first = node) ∨
      (∃ loop, first.loop? = some loop ∧
        Stands (first.id :: position) loop.bindings loop.body.nodes place inner node) ∨
      Stands position bindings nodes place inner node := by
  constructor
  · intro stands
    cases stands with
    | here member =>
        rcases List.mem_cons.mp member with same | later
        · exact .inl ⟨rfl, rfl, same.symm⟩
        · exact .inr (.inr (.here later))
    | inside member runs deeper =>
        rcases List.mem_cons.mp member with same | later
        · subst same
          exact .inr (.inl ⟨_, runs, deeper⟩)
        · exact .inr (.inr (.inside later runs deeper))
  · intro cases
    rcases cases with ⟨rfl, rfl, rfl⟩ | ⟨loop, runs, deeper⟩ | later
    · exact .here List.mem_cons_self
    · exact .inside List.mem_cons_self runs deeper
    · exact later.mono (List.subset_cons_self _ _)

/-- Below a loop node stand the nodes of its body. -/
theorem enter {outer : Node} {loop : Loop}
    (stands : Stands position bindings nodes place inner outer) (runs : outer.loop? = some loop)
    (member : node ∈ loop.body.nodes) :
    Stands position bindings nodes (outer.id :: place) loop.bindings node := by
  induction stands with
  | here outside => exact .inside outside runs (.here member)
  | inside outside runsOutside _ induction =>
      exact .inside outside runsOutside (induction runs)

end Stands

/-- A property of lists of nodes passes from the rest of a list, and from the body of the
loop of its first node, to the list. -/
theorem nestInduction {motive : List Node → Prop} (nil : motive [])
    (loop : ∀ node loop rest, node.loop? = some loop → motive loop.body.nodes → motive rest →
      motive (node :: rest))
    (plain : ∀ node rest, node.loop? = none → motive rest → motive (node :: rest))
    (nodes : List Node) : motive nodes := by
  have bodies : ∀ graph : Graph, motive graph.nodes := by
    intro graph
    induction graph using Graph.bodyInduction with
    | step graph induction =>
        obtain ⟨nodes, exits, nextId⟩ := graph
        have lists : ∀ rest, rest ⊆ nodes → motive rest := by
          intro rest subset
          induction rest with
          | nil => exact nil
          | cons node rest shorter =>
              obtain ⟨member, others⟩ := List.cons_subset.mp subset
              cases runs : node.loop? with
              | none => exact plain node rest runs (shorter others)
              | some held =>
                  exact loop node held rest runs (induction node member held runs) (shorter others)
        exact lists nodes (List.Subset.refl _)
  exact bodies ⟨nodes, [], 0⟩

namespace Graph

/-- What the loop around a graph of the nest binds. -/
def bindingsAt (graph : Graph) : Position → List (NodeId × NodeId)
  | [] => []
  | id :: outer =>
      match ((graph.within? outer.reverse).bind (·.find? id)).bind Node.loop? with
      | some loop => loop.bindings
      | none => []

variable {graph body around : Graph} {position place : Position} {id : NodeId} {node : Node}
  {loop : Loop} {inner : List (NodeId × NodeId)}

/-- One loop further in. -/
theorem within?_reverse_cons (reached : graph.within? position.reverse = some around)
    (found : around.find? id = some node) (runs : node.loop? = some loop) :
    graph.within? (id :: position).reverse = some loop.body ∧
      graph.bindingsAt (id :: position) = loop.bindings := by
  constructor
  · rw [List.reverse_cons, within?_append reached]
    exact within?_cons.mpr ⟨node, loop, found, runs, rfl⟩
  · simp [bindingsAt, reached, found, runs]

/-- The way to a body leads through the loop that it is the body of. -/
theorem exists_around (reached : graph.within? (id :: position).reverse = some body) :
    ∃ around node loop, graph.within? position.reverse = some around ∧
      around.find? id = some node ∧ node.loop? = some loop ∧ loop.body = body := by
  rw [List.reverse_cons] at reached
  cases outside : graph.within? position.reverse with
  | none =>
      exfalso
      generalize position.reverse = path at reached outside
      induction path generalizing graph with
      | nil => cases outside
      | cons first path induction =>
          obtain ⟨node, loop, found, runs, deeper⟩ := within?_cons.mp reached
          apply induction deeper
          simpa [within?, found, runs] using outside
  | some around =>
      rw [within?_append outside] at reached
      obtain ⟨node, loop, found, runs, entered⟩ := within?_cons.mp reached
      exact ⟨around, node, loop, rfl, found, runs, Option.some.inj entered⟩

/-- The nodes that stand in the nest of a graph are those of the graphs that paths of loop
nodes lead to. -/
theorem stands_iff (distinct : graph.Everywhere fun body => body.ids.Nodup) :
    Stands [] [] graph.nodes place inner node ↔
      ∃ body, graph.within? place.reverse = some body ∧ node ∈ body.nodes ∧
        inner = graph.bindingsAt place := by
  constructor
  · have general : ∀ {position : Position} {bindings : List (NodeId × NodeId)}
        {nodes : List Node}, Stands position bindings nodes place inner node →
        ∀ around, graph.within? position.reverse = some around → around.nodes = nodes →
          bindings = graph.bindingsAt position →
          ∃ body, graph.within? place.reverse = some body ∧ node ∈ body.nodes ∧
            inner = graph.bindingsAt place := by
      intro position bindings nodes stands
      induction stands with
      | here member =>
          intro around reached same bound
          exact ⟨around, reached, same ▸ member, bound⟩
      | @inside position place bindings inner nodes outer node loop member runs _ induction =>
          intro around reached same _
          have found := find?_of_mem (distinct _ _ reached) (same ▸ member)
          obtain ⟨entered, bound⟩ := within?_reverse_cons reached found runs
          exact induction loop.body entered rfl bound.symm
    intro stands
    exact general stands graph rfl rfl rfl
  · intro located
    obtain ⟨body, reached, member, bound⟩ := located
    subst bound
    induction place generalizing body node with
    | nil =>
        cases reached
        exact .here member
    | cons id outer induction =>
        obtain ⟨around, loopNode, loop, outside, found, runs, same⟩ := exists_around reached
        subst same
        obtain ⟨outerMember, rfl⟩ := mem_of_find? found
        rw [(within?_reverse_cons outside found runs).2]
        exact (induction around outside outerMember).enter runs member

end Graph

/-- The number of a mark. -/
def Mark.number : Mark → Nat
  | .node number => number
  | .cluster number => number

@[simp]
theorem Mark.number_node (number : Nat) : (Mark.node number).number = number := rfl

@[simp]
theorem Mark.number_cluster (number : Nat) : (Mark.cluster number).number = number := rfl

/-- What the declaration of nodes in their order comes to. -/
inductive Declares : Position → List NodeId → Nat → List Node → Declared → Prop where
  | nil {position : Position} {bound : List NodeId} {number : Nat} :
      Declares position bound number [] ⟨[], [], number⟩
  | loop {position : Position} {bound : List NodeId} {number : Nat} {node : Node} {loop : Loop}
      {rest : List Node} {inner later : Declared} (runs : node.loop? = some loop)
      (body : Declares (node.id :: position) (loop.bindings.map Prod.fst) (number + 1)
        loop.body.nodes inner)
      (others : Declares position bound inner.next rest later) :
      Declares position bound number (node :: rest)
        ⟨.openCluster position.length number ("for " ++ loop.index) :: inner.statements ++
            .closeCluster position.length :: later.statements,
          ((position, node.id), .cluster number) :: inner.marks ++ later.marks, later.next⟩
  | bound {position : Position} {bound : List NodeId} {number : Nat} {node : Node}
      {rest : List Node} {later : Declared} (kind : node.kind ≠ .loop) (isBound : node.id ∈ bound)
      (others : Declares position bound number rest later) :
      Declares position bound number (node :: rest) later
  | drawn {position : Position} {bound : List NodeId} {number : Nat} {node : Node}
      {rest : List Node} {later : Declared} (kind : node.kind ≠ .loop) (free : node.id ∉ bound)
      (others : Declares position bound (number + 1) rest later) :
      Declares position bound number (node :: rest)
        ⟨.declare position.length number node.kind node.label :: later.statements,
          ((position, node.id), .node number) :: later.marks, later.next⟩

theorem declareNodes_plain {position : Position} {bound : List NodeId} {number : Nat}
    {node : Node} {rest : List Node} (other : node.kind ≠ .loop) :
    declareNodes position bound number (node :: rest) =
      if bound.contains node.id then declareNodes position bound number rest
      else do
        let later ← declareNodes position bound (number + 1) rest
        return ⟨.declare position.length number node.kind node.label :: later.statements,
          ((position, node.id), .node number) :: later.marks, later.next⟩ := by
  obtain ⟨id, kind, content, inputs, result⟩ := node
  cases kind with
  | loop => exact absurd rfl other
  | _ => rfl

/-- Declaration succeeds where the loop nodes have loops, whatever the references are. -/
theorem exists_declares {nodes : List Node} {position : Position} {bound : List NodeId}
    {number : Nat} {bindings : List (NodeId × NodeId)}
    (carried : ∀ place inner node, Stands position bindings nodes place inner node →
      node.kind = .loop → ∃ loop, node.content = .loop loop) :
    ∃ declared, declareNodes position bound number nodes = .ok declared ∧
      Declares position bound number nodes declared := by
  induction nodes using nestInduction generalizing position bound number bindings with
  | nil => exact ⟨_, rfl, .nil⟩
  | loop node loop rest runs body others =>
      obtain ⟨inner, innerDone, innerDeclares⟩ :=
        @body (node.id :: position) (loop.bindings.map Prod.fst) (number + 1) loop.bindings
          fun place bound node stands => carried place bound node
            (.inside List.mem_cons_self runs stands)
      obtain ⟨later, laterDone, laterDeclares⟩ :=
        @others position bound inner.next bindings fun place bound node stands =>
          carried place bound node (stands.mono (List.subset_cons_self _ _))
      refine ⟨_, ?_, .loop runs innerDeclares laterDeclares⟩
      obtain ⟨id, kind, content, inputs, result⟩ := node
      obtain ⟨isLoop, holds⟩ := Node.loop?_eq_some.mp runs
      obtain ⟨tag, index, ⟨inside, exits, nextId⟩, inBody⟩ := loop
      cases isLoop
      cases holds
      exact bind_eq_ok.mpr ⟨inner, innerDone, bind_eq_ok.mpr ⟨later, laterDone, rfl⟩⟩
  | plain node rest none others =>
      have kind : node.kind ≠ .loop := by
        intro isLoop
        obtain ⟨loop, holds⟩ := carried _ _ node (.here List.mem_cons_self) isLoop
        cases none.symm.trans (Node.loop?_eq_some.mpr ⟨isLoop, holds⟩)
      have inRest : ∀ place inner node, Stands position bindings rest place inner node →
          node.kind = .loop → ∃ loop, node.content = .loop loop :=
        fun place inner node stands =>
          carried place inner node (stands.mono (List.subset_cons_self _ _))
      rw [declareNodes_plain kind]
      by_cases isBound : node.id ∈ bound
      · obtain ⟨later, laterDone, laterDeclares⟩ := @others position bound number bindings inRest
        rw [if_pos (List.contains_iff_mem.mpr isBound)]
        exact ⟨later, laterDone, .bound kind isBound laterDeclares⟩
      · obtain ⟨later, laterDone, laterDeclares⟩ :=
          @others position bound (number + 1) bindings inRest
        rw [if_neg (by simpa using isBound)]
        exact ⟨_, bind_eq_ok.mpr ⟨later, laterDone, rfl⟩, .drawn kind isBound laterDeclares⟩

/-- A graph is declared where the loop nodes of its nest have loops. -/
theorem Graph.exists_declared {graph : Graph}
    (distinct : graph.Everywhere fun body => body.ids.Nodup)
    (carried : graph.Everywhere fun body =>
      ∀ node ∈ body.nodes, node.kind = .loop → ∃ loop, node.content = .loop loop) :
    ∃ declared, declareGraph [] [] 1 graph = .ok declared ∧
      Declares [] [] 1 graph.nodes declared := by
  have loops : ∀ place inner node, Stands [] [] graph.nodes place inner node →
      node.kind = .loop → ∃ loop, node.content = .loop loop := by
    intro place inner node stands
    obtain ⟨body, reached, member, _⟩ := (stands_iff distinct).mp stands
    exact carried _ _ reached node member
  obtain ⟨declared, done, declares⟩ := @exists_declares graph.nodes [] [] 1 [] loops
  refine ⟨declared, ?_, declares⟩
  cases graph
  exact done

namespace Declares

variable {position place : Position} {bindings inner : List (NodeId × NodeId)}
  {bound : List NodeId} {number : Nat} {nodes : List Node} {declared : Declared}
  {node : Node} {id : NodeId} {mark : Mark}

/-- The marks are numbered one after the other. -/
theorem numbers (declares : Declares position bound number nodes declared) :
    number ≤ declared.next ∧ declared.marks.map (fun entry => entry.2.number) =
      List.range' number (declared.next - number) := by
  induction declares with
  | nil => simp
  | @loop position bound number node loop rest inner later _ _ _ body others =>
      obtain ⟨innerLe, innerNumbers⟩ := body
      obtain ⟨laterLe, laterNumbers⟩ := others
      refine ⟨by simp only; omega, ?_⟩
      have split : later.next - number =
          (inner.next - (number + 1)) + (later.next - inner.next) + 1 := by omega
      have middle : inner.next = number + 1 + 1 * (inner.next - (number + 1)) := by omega
      simp only [List.cons_append, List.map_cons, List.map_append, innerNumbers, laterNumbers,
        Mark.number_cluster]
      rw [split, List.range'_succ, ← List.range'_append, ← middle]
  | bound _ _ _ others => exact others
  | @drawn position bound number node rest later _ _ _ others =>
      obtain ⟨laterLe, laterNumbers⟩ := others
      refine ⟨by simp only; omega, ?_⟩
      have split : later.next - number = later.next - (number + 1) + 1 := by omega
      simp only [List.map_cons, laterNumbers, Mark.number_node]
      rw [split, List.range'_succ]

/-- A number is the number of one mark only. -/
theorem mark_unique (declares : Declares position bound number nodes declared)
    {first second : (Position × NodeId) × Mark} (member : first ∈ declared.marks)
    (other : second ∈ declared.marks) (same : first.2.number = second.2.number) :
    first = second := by
  have distinct : (declared.marks.map fun entry => entry.2.number).Nodup := by
    rw [declares.numbers.2]
    exact List.nodup_range'
  exact List.inj_on_of_nodup_map distinct member other same

/-- Marks are for nodes that stand in the nest: clusters for the loop nodes, and nodes for
all others that are not bound. -/
theorem exists_stands (declares : Declares position bound number nodes declared)
    (keys : bindings.map Prod.fst = bound) (member : ((place, id), mark) ∈ declared.marks) :
    ∃ inner node, Stands position bindings nodes place inner node ∧ node.id = id ∧
      ((node.kind = .loop ∧ mark = .cluster mark.number) ∨
        (node.kind ≠ .loop ∧ id ∉ inner.map Prod.fst ∧ mark = .node mark.number)) := by
  induction declares generalizing bindings with
  | nil => cases member
  | @loop position bound number node loop rest inner later runs _ _ body others =>
      rcases List.mem_cons.mp member with same | deeper
      · cases same
        exact ⟨bindings, node, .here List.mem_cons_self, rfl,
          .inl ⟨(Node.loop?_eq_some.mp runs).1, rfl⟩⟩
      · rcases List.mem_append.mp deeper with inBody | inRest
        · obtain ⟨bound, found, stands, shape⟩ := body rfl inBody
          exact ⟨bound, found, .inside List.mem_cons_self runs stands, shape⟩
        · obtain ⟨bound, found, stands, shape⟩ := others keys inRest
          exact ⟨bound, found, stands.mono (List.subset_cons_self _ _), shape⟩
  | bound _ _ _ others =>
      obtain ⟨bound, found, stands, shape⟩ := others keys member
      exact ⟨bound, found, stands.mono (List.subset_cons_self _ _), shape⟩
  | drawn kind free _ others =>
      rcases List.mem_cons.mp member with same | later
      · cases same
        exact ⟨bindings, _, .here List.mem_cons_self, rfl, .inr ⟨kind, keys ▸ free, rfl⟩⟩
      · obtain ⟨bound, found, stands, shape⟩ := others keys later
        exact ⟨bound, found, stands.mono (List.subset_cons_self _ _), shape⟩

end Declares

/-- An edge leads into a node that stands in the nest, is not bound and has a mark. -/
def Connects (marks : Marks) (position : Position) (bindings : List (NodeId × NodeId))
    (nodes : List Node) (statement : Statement) : Prop :=
  ∃ place inner node target, Stands position bindings nodes place inner node ∧
    node.kind ≠ .loop ∧ node.id ∉ inner.map Prod.fst ∧
    marks.lookup (place, node.id) = some (.node target) ∧
    statement ∈ edgesInto marks place inner target node.inputs

/-- The second round gets past a node: it is a loop node with a loop, or it is bound, or it
has a mark. -/
def Passable (marks : Marks) (place : Position) (inner : List (NodeId × NodeId)) (node : Node) :
    Prop :=
  (∃ loop, node.loop? = some loop) ∨
    (node.kind ≠ .loop ∧ (node.id ∉ inner.map Prod.fst →
      ∃ target, marks.lookup (place, node.id) = some (.node target)))

section Edges

variable {marks : Marks} {position : Position} {bindings : List (NodeId × NodeId)}
  {node : Node} {rest : List Node} {statement : Statement}

theorem connects_nil : ¬ Connects marks position bindings [] statement := by
  intro connects
  obtain ⟨place, inner, node, target, stands, _⟩ := connects
  cases stands <;> contradiction

theorem connects_loop {loop : Loop} (runs : node.loop? = some loop) :
    Connects marks position bindings (node :: rest) statement ↔
      Connects marks (node.id :: position) loop.bindings loop.body.nodes statement ∨
        Connects marks position bindings rest statement := by
  constructor
  · intro connects
    obtain ⟨place, inner, found, target, stands, kind, drawn⟩ := connects
    rcases Stands.cons_iff.mp stands with ⟨_, _, same⟩ | ⟨held, entered, deeper⟩ | later
    · exact absurd (same ▸ (Node.loop?_eq_some.mp runs).1) kind
    · cases runs.symm.trans entered
      exact .inl ⟨place, inner, found, target, deeper, kind, drawn⟩
    · exact .inr ⟨place, inner, found, target, later, kind, drawn⟩
  · intro either
    rcases either with ⟨place, inner, found, target, stands, drawn⟩ |
      ⟨place, inner, found, target, stands, drawn⟩
    · exact ⟨place, inner, found, target, .inside List.mem_cons_self runs stands, drawn⟩
    · exact ⟨place, inner, found, target, stands.mono (List.subset_cons_self _ _), drawn⟩

theorem connects_plain (kind : node.kind ≠ .loop) :
    Connects marks position bindings (node :: rest) statement ↔
      (node.id ∉ bindings.map Prod.fst ∧
        ∃ target, marks.lookup (position, node.id) = some (.node target) ∧
          statement ∈ edgesInto marks position bindings target node.inputs) ∨
      Connects marks position bindings rest statement := by
  constructor
  · intro connects
    obtain ⟨place, inner, found, target, stands, unlooped, free, drawn⟩ := connects
    rcases Stands.cons_iff.mp stands with ⟨here, bound, same⟩ | ⟨held, entered, _⟩ | later
    · subst here bound same
      exact .inl ⟨free, target, drawn⟩
    · exact absurd (Node.loop?_eq_some.mp entered).1 kind
    · exact .inr ⟨place, inner, found, target, later, unlooped, free, drawn⟩
  · intro either
    rcases either with ⟨free, target, drawn⟩ | ⟨place, inner, found, target, stands, drawn⟩
    · exact ⟨position, bindings, node, target, .here List.mem_cons_self, kind, free, drawn⟩
    · exact ⟨place, inner, found, target, stands.mono (List.subset_cons_self _ _), drawn⟩

theorem connectNodes_loop {loop : Loop} (runs : node.loop? = some loop) :
    connectNodes marks position bindings (node :: rest) = (do
      let inside ← connectNodes marks (node.id :: position) loop.bindings loop.body.nodes
      let later ← connectNodes marks position bindings rest
      return inside ++ later) := by
  obtain ⟨id, kind, content, inputs, result⟩ := node
  obtain ⟨isLoop, holds⟩ := Node.loop?_eq_some.mp runs
  obtain ⟨tag, index, ⟨inside, exits, nextId⟩, inBody⟩ := loop
  cases isLoop
  cases holds
  rfl

theorem connectNodes_plain (other : node.kind ≠ .loop) :
    connectNodes marks position bindings (node :: rest) =
      if (bindings.map Prod.fst).contains node.id then connectNodes marks position bindings rest
      else do
        let target ← marks.nodeNumber (position, node.id)
        let later ← connectNodes marks position bindings rest
        return edgesInto marks position bindings target node.inputs ++ later := by
  obtain ⟨id, kind, content, inputs, result⟩ := node
  cases kind with
  | loop => exact absurd rfl other
  | _ => rfl

theorem connectGraph_eq (graph : Graph) :
    connectGraph marks position bindings graph =
      connectNodes marks position bindings graph.nodes := by
  cases graph
  rfl

theorem Marks.nodeNumber_of_lookup {key : Position × NodeId} {number : Nat}
    (marked : marks.lookup key = some (.node number)) : marks.nodeNumber key = .ok number := by
  rw [nodeNumber, marked]

end Edges

/-- Where the second round gets past every node, its edges are those into the nodes that
have marks. -/
theorem exists_connected {marks : Marks} {nodes : List Node} {position : Position}
    {bindings : List (NodeId × NodeId)}
    (passable : ∀ place inner node, Stands position bindings nodes place inner node →
      Passable marks place inner node) :
    ∃ edges, connectNodes marks position bindings nodes = .ok edges ∧
      ∀ statement, statement ∈ edges ↔ Connects marks position bindings nodes statement := by
  induction nodes using nestInduction generalizing position bindings with
  | nil => exact ⟨[], rfl, fun statement => by simp [connects_nil]⟩
  | loop node loop rest runs body others =>
      obtain ⟨inside, insideDone, insideEdges⟩ := body fun place inner found stands =>
        passable place inner found (.inside List.mem_cons_self runs stands)
      obtain ⟨later, laterDone, laterEdges⟩ := others fun place inner found stands =>
        passable place inner found (stands.mono (List.subset_cons_self _ _))
      refine ⟨inside ++ later, ?_, fun statement => ?_⟩
      · rw [connectNodes_loop runs]
        exact bind_eq_ok.mpr ⟨inside, insideDone, bind_eq_ok.mpr ⟨later, laterDone, rfl⟩⟩
      · rw [List.mem_append, insideEdges, laterEdges, connects_loop runs]
  | plain node rest none others =>
      obtain ⟨later, laterDone, laterEdges⟩ := others fun place inner found stands =>
        passable place inner found (stands.mono (List.subset_cons_self _ _))
      rcases passable position bindings node (.here List.mem_cons_self) with
        ⟨loop, runs⟩ | ⟨kind, marked⟩
      · cases none.symm.trans runs
      · rw [connectNodes_plain kind]
        by_cases bound : node.id ∈ bindings.map Prod.fst
        · rw [if_pos (List.contains_iff_mem.mpr bound)]
          refine ⟨later, laterDone, fun statement => ?_⟩
          rw [laterEdges, connects_plain kind]
          simp [bound]
        · obtain ⟨target, targeted⟩ := marked bound
          rw [if_neg (by simpa using bound)]
          refine ⟨edgesInto marks position bindings target node.inputs ++ later,
            bind_eq_ok.mpr ⟨target, Marks.nodeNumber_of_lookup targeted,
              bind_eq_ok.mpr ⟨later, laterDone, rfl⟩⟩, fun statement => ?_⟩
          rw [List.mem_append, laterEdges, connects_plain kind]
          simp [bound, targeted]

/-- An exit leads out of a node that is drawn. -/
theorem exists_source_of_mem_drawExits {marks : Marks} {number : Nat}
    {exits : List (String × NodeId)} {statement : Statement}
    (member : statement ∈ drawExits marks number exits) :
    ∃ note source label key, statement = .leave note source label ∧
      (key, .node source) ∈ marks := by
  induction exits generalizing number with
  | nil => cases member
  | cons exit rest induction =>
      obtain ⟨name, id⟩ := exit
      rw [drawExits] at member
      split at member
      · rename_i marked
        rcases List.mem_cons.mp member with rfl | later
        · exact ⟨_, _, _, _, rfl, mem_of_lookup marked⟩
        · exact induction later
      · exact induction member

end FlowGraph

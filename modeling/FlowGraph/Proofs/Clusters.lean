import FlowGraph.Proofs.Marks

/-!
# Clusters

Read from first to last, the statements of a drawing open and close clusters.  `Statement.pass`
keeps the open ones in a stack, and refuses a statement that does not stand as deep as it says.
The declarations of some nodes leave the stack as they found it, and each node is declared
where the stack holds the clusters of the loops around it and no others.
-/

namespace FlowGraph

namespace Statement

/-- The names that a statement declares. -/
def names : Statement → List DrawnName
  | .openCluster _ number _ => [.cluster number]
  | .declare _ number _ _ => [.node number]
  | .leave number _ _ => [.note number]
  | .closeCluster _ | .edge _ _ _ => []

/-- The ends of the edge that a statement draws. -/
def ends : Statement → List DrawnName
  | .edge source target _ => [.node source, .node target]
  | .leave number source _ => [.node source, .note number]
  | .openCluster _ _ _ | .closeCluster _ | .declare _ _ _ _ => []

/-- The clusters that are open after a statement, the innermost first.  What is open before
must be as deep as the statement says, and only an open cluster can be closed. -/
def pass (clusters : List Nat) : Statement → Option (List Nat)
  | .openCluster depth number _ =>
      if depth = clusters.length then some (number :: clusters) else none
  | .closeCluster depth =>
      match clusters with
      | [] => none
      | _ :: outer => if depth = outer.length then some outer else none
  | .declare depth _ _ _ => if depth = clusters.length then some clusters else none
  | .edge _ _ _ | .leave _ _ _ => some clusters

theorem pass_openCluster (clusters : List Nat) (number : Nat) (label : String) :
    pass clusters (.openCluster clusters.length number label) = some (number :: clusters) :=
  if_pos rfl

theorem pass_closeCluster (clusters : List Nat) (number : Nat) :
    pass (number :: clusters) (.closeCluster clusters.length) = some clusters :=
  if_pos rfl

theorem pass_declare (clusters : List Nat) (number : Nat) (kind : Kind) (label : String) :
    pass clusters (.declare clusters.length number kind label) = some clusters :=
  if_pos rfl

/-- A cluster is closed behind what leaves it open. -/
theorem foldlM_pass_cluster {clusters : List Nat} {number : Nat} {inner : List Statement}
    (closes : inner.foldlM pass (number :: clusters) = some (number :: clusters))
    (label : String) :
    (openCluster clusters.length number label :: inner ++
      [closeCluster clusters.length]).foldlM pass clusters = some clusters := by
  simp only [List.foldlM_append, List.foldlM_cons, List.foldlM_nil, pass_openCluster, closes,
    pass_closeCluster, Option.bind_eq_bind, Option.bind_some, Option.pure_def]

end Statement

/-- A statement stands in a sequence where these clusters are open. -/
def PlacedIn (around : List Nat) (statements : List Statement) (statement : Statement)
    (clusters : List Nat) : Prop :=
  ∃ before after, statements = before ++ statement :: after ∧
    before.foldlM Statement.pass around = some clusters

namespace PlacedIn

variable {around start clusters : List Nat} {statements : List Statement} {statement : Statement}

theorem head : PlacedIn around (statement :: statements) statement around :=
  ⟨[], statements, rfl, rfl⟩

theorem append_right (placed : PlacedIn around statements statement clusters)
    (more : List Statement) : PlacedIn around (statements ++ more) statement clusters := by
  obtain ⟨before, after, rfl, passed⟩ := placed
  exact ⟨before, after ++ more, by simp, passed⟩

theorem append_left (placed : PlacedIn around statements statement clusters)
    {first : List Statement} (passed : first.foldlM Statement.pass start = some around) :
    PlacedIn start (first ++ statements) statement clusters := by
  obtain ⟨before, after, rfl, reached⟩ := placed
  refine ⟨first ++ before, after, by simp, ?_⟩
  rw [List.foldlM_append, passed]
  exact reached

end PlacedIn

/-- The name that a mark stands for. -/
def Mark.name : Mark → DrawnName
  | .node number => .node number
  | .cluster number => .cluster number

/-- The clusters of the loops around a place, the innermost first, seen from a position that
is inside some clusters itself. -/
inductive Surrounds (marks : Marks) (position : Position) (around : List Nat) :
    Position → List Nat → Prop where
  | here : Surrounds marks position around position around
  | inside {outer : Position} {clusters : List Nat} {id : NodeId} {number : Nat}
      (within : Surrounds marks position around outer clusters)
      (marked : ((outer, id), .cluster number) ∈ marks) :
      Surrounds marks position around (id :: outer) (number :: clusters)

/-- What a node becomes in a drawing: its mark and the statement that declares it. -/
inductive Introduces (place : Position) (node : Node) : Mark → Statement → Prop where
  | cluster {loop : Loop} {number : Nat} (runs : node.loop? = some loop) :
      Introduces place node (.cluster number)
        (.openCluster place.length number ("for " ++ loop.index))
  | node {number : Nat} (kind : node.kind ≠ .loop) :
      Introduces place node (.node number)
        (.declare place.length number node.kind node.label)

namespace Surrounds

variable {marks more : Marks} {position place : Position} {around clusters : List Nat}

theorem mono (subset : marks ⊆ more)
    (surrounds : Surrounds marks position around place clusters) :
    Surrounds more position around place clusters := by
  induction surrounds with
  | here => exact .here
  | inside _ marked induction => exact .inside induction (subset marked)

/-- From further out there is one more cluster to pass. -/
theorem outward {id : NodeId} {number : Nat}
    (surrounds : Surrounds marks (id :: position) (number :: around) place clusters)
    (marked : ((position, id), .cluster number) ∈ marks) :
    Surrounds marks position around place clusters := by
  induction surrounds with
  | here => exact .inside .here marked
  | inside _ deeper induction => exact .inside induction deeper

end Surrounds

theorem not_cons_suffix (id : NodeId) (position : Position) : ¬ id :: position <:+ position := by
  intro longer
  have impossible := longer.length_le
  rw [List.length_cons] at impossible
  omega

namespace Stands

variable {position place : Position} {bindings inner : List (NodeId × NodeId)}
  {nodes : List Node} {node : Node}

/-- A place extends the position that it is seen from. -/
theorem suffix (stands : Stands position bindings nodes place inner node) : position <:+ place := by
  induction stands with
  | here => exact List.suffix_rfl
  | inside _ _ _ induction => exact (List.suffix_cons _ _).trans induction

/-- A node is one of the nodes, or stands below one of them. -/
theorem located (stands : Stands position bindings nodes place inner node) :
    (place = position ∧ node ∈ nodes) ∨ ∃ outer ∈ nodes, outer.id :: position <:+ place := by
  cases stands with
  | here member => exact .inl ⟨rfl, member⟩
  | inside member _ deeper => exact .inr ⟨_, member, deeper.suffix⟩

end Stands

namespace Declares

variable {position place : Position} {bindings inner : List (NodeId × NodeId)}
  {bound : List NodeId} {number : Nat} {nodes : List Node} {declared : Declared}
  {node : Node} {id : NodeId} {mark : Mark} {around : List Nat}

/-- The marks are the names that are declared. -/
theorem names (declares : Declares position bound number nodes declared) :
    declared.statements.flatMap Statement.names =
      declared.marks.map fun entry => entry.2.name := by
  induction declares with
  | nil => rfl
  | loop _ _ _ body others =>
      simp only [List.flatMap_append, List.flatMap_cons, List.map_append, List.map_cons,
        Statement.names, Mark.name, List.nil_append, List.cons_append, body, others]
  | bound _ _ _ others => exact others
  | drawn _ _ _ others =>
      simp only [List.flatMap_cons, List.map_cons, Statement.names, Mark.name,
        List.singleton_append, others]

/-- Declarations draw no edges. -/
theorem ends_eq_nil (declares : Declares position bound number nodes declared)
    {statement : Statement} (member : statement ∈ declared.statements) : statement.ends = [] := by
  induction declares with
  | nil => cases member
  | loop _ _ _ body others =>
      rcases List.mem_append.mp member with early | late
      · rcases List.mem_cons.mp early with rfl | inBody
        · rfl
        · exact body inBody
      · rcases List.mem_cons.mp late with rfl | inRest
        · rfl
        · exact others inRest
  | bound _ _ _ others => exact others member
  | drawn _ _ _ others =>
      rcases List.mem_cons.mp member with rfl | inRest
      · rfl
      · exact others inRest

/-- Declarations close the clusters that they open. -/
theorem balanced (declares : Declares position bound number nodes declared)
    (deep : around.length = position.length) :
    declared.statements.foldlM Statement.pass around = some around := by
  induction declares generalizing around with
  | nil => rfl
  | @loop position bound number node loop rest inner later _ _ _ body others =>
      have inBody := @body (number :: around) (by simp [deep])
      have closed := Statement.foldlM_pass_cluster inBody ("for " ++ loop.index)
      rw [List.append_cons, List.foldlM_append, ← deep, closed]
      exact others deep
  | bound _ _ _ others => exact others deep
  | drawn _ _ _ others =>
      rw [List.foldlM_cons, ← deep, Statement.pass_declare]
      exact others deep

/-- Loop nodes, and other nodes that are not bound, are declared inside the clusters of the
loops around them. -/
theorem exists_introduced (declares : Declares position bound number nodes declared)
    (keys : bindings.map Prod.fst = bound) (deep : around.length = position.length)
    (stands : Stands position bindings nodes place inner node)
    (shown : node.kind = .loop ∨ node.id ∉ inner.map Prod.fst) :
    ∃ mark statement clusters, ((place, node.id), mark) ∈ declared.marks ∧
      Introduces place node mark statement ∧
      Surrounds declared.marks position around place clusters ∧
      PlacedIn around declared.statements statement clusters := by
  induction declares generalizing bindings around with
  | nil => cases stands <;> contradiction
  | @loop position bound number outer loop rest inside later runs declaresBody _ body others =>
      have deepBody : (number :: around).length = (outer.id :: position).length := by simp [deep]
      rcases Stands.cons_iff.mp stands with ⟨here, _, same⟩ | ⟨held, entered, deeper⟩ | after
      · subst here same
        exact ⟨_, _, around, List.mem_cons_self, .cluster runs, .here, .head⟩
      · cases runs.symm.trans entered
        obtain ⟨mark, statement, clusters, marked, introduces, surrounds, placed⟩ :=
          body rfl deepBody deeper
        have kept : inside.marks ⊆ ((position, outer.id), .cluster number) :: inside.marks ++
            later.marks := fun _ member => List.mem_cons_of_mem _ (List.mem_append_left _ member)
        have opened : [Statement.openCluster position.length number ("for " ++ loop.index)].foldlM
            Statement.pass around = some (number :: around) := by
          rw [← deep, List.foldlM_cons, Statement.pass_openCluster]
          rfl
        exact ⟨mark, statement, clusters, kept marked, introduces,
          (surrounds.mono kept).outward List.mem_cons_self,
          (placed.append_left opened).append_right _⟩
      · obtain ⟨mark, statement, clusters, marked, introduces, surrounds, placed⟩ :=
          others keys deep after
        have kept : later.marks ⊆ ((position, outer.id), .cluster number) :: inside.marks ++
            later.marks := fun _ member => List.mem_cons_of_mem _ (List.mem_append_right _ member)
        have closed := Statement.foldlM_pass_cluster (declaresBody.balanced deepBody)
          ("for " ++ loop.index)
        refine ⟨mark, statement, clusters, kept marked, introduces, surrounds.mono kept, ?_⟩
        rw [List.append_cons, ← deep]
        exact placed.append_left closed
  | bound isPlain isBound _ others =>
      rcases Stands.cons_iff.mp stands with ⟨_, same, here⟩ | ⟨loop, entered, _⟩ | after
      · subst same here keys
        exact absurd isBound (shown.resolve_left isPlain)
      · exact absurd (Node.loop?_eq_some.mp entered).1 isPlain
      · exact others keys deep after
  | @drawn position bound number outer rest later isPlain _ _ others =>
      rcases Stands.cons_iff.mp stands with ⟨here, _, same⟩ | ⟨loop, entered, _⟩ | after
      · subst here same
        exact ⟨_, _, around, List.mem_cons_self, .node isPlain, .here, .head⟩
      · exact absurd (Node.loop?_eq_some.mp entered).1 isPlain
      · obtain ⟨mark, statement, clusters, marked, introduces, surrounds, placed⟩ :=
          others keys deep after
        have declaredHere : [Statement.declare position.length number outer.kind outer.label].foldlM
            Statement.pass around = some around := by
          rw [← deep, List.foldlM_cons, Statement.pass_declare]
          rfl
        exact ⟨mark, statement, clusters, List.mem_cons_of_mem _ marked, introduces,
          surrounds.mono (List.subset_cons_self _ _), placed.append_left declaredHere⟩

/-- A mark is of one of the nodes, or of a node below one of them. -/
theorem key_located (declares : Declares position bound number nodes declared)
    (keys : bindings.map Prod.fst = bound) (member : (place, id) ∈ declared.marks.map Prod.fst) :
    (place = position ∧ id ∈ nodes.map Node.id) ∨
      ∃ outer ∈ nodes.map Node.id, outer :: position <:+ place := by
  obtain ⟨entry, marked, same⟩ := List.mem_map.mp member
  obtain ⟨key, mark⟩ := entry
  cases same
  obtain ⟨inner, node, stands, rfl, _⟩ := declares.exists_stands keys marked
  rcases stands.located with ⟨here, inNodes⟩ | ⟨outer, inNodes, below⟩
  · exact .inl ⟨here, List.mem_map_of_mem inNodes⟩
  · exact .inr ⟨outer.id, List.mem_map_of_mem inNodes, below⟩

/-- A node that is none of the given ones is not marked among them. -/
theorem key_fresh (declares : Declares position bound number nodes declared)
    (keys : bindings.map Prod.fst = bound) (other : id ∉ nodes.map Node.id) :
    (position, id) ∉ declared.marks.map Prod.fst := by
  intro member
  rcases declares.key_located keys member with ⟨_, known⟩ | ⟨outer, _, below⟩
  · exact other known
  · exact not_cons_suffix outer position below

/-- No node is marked twice. -/
theorem keys_nodup (declares : Declares position bound number nodes declared)
    (keys : bindings.map Prod.fst = bound) (distinct : (nodes.map Node.id).Nodup)
    (inside : ∀ node ∈ nodes, ∀ loop, node.loop? = some loop →
      loop.body.Everywhere fun body => body.ids.Nodup) :
    (declared.marks.map Prod.fst).Nodup := by
  induction declares generalizing bindings with
  | nil => exact List.nodup_nil
  | @loop position bound number node loop rest inner later runs declaresBody declaresRest body
      others =>
      obtain ⟨other, distinctRest⟩ := List.nodup_cons.mp distinct
      obtain ⟨distinctBody, deeper⟩ :=
        Graph.everywhere_iff.mp (inside node List.mem_cons_self loop runs)
      have inBody := body rfl distinctBody fun below member held runsBelow =>
        deeper below.id below held (Graph.find?_of_mem distinctBody member) runsBelow
      have inRest := others keys distinctRest fun below member =>
        inside below (List.mem_cons_of_mem _ member)
      -- Marks in the body stand below the loop node.
      have below : ∀ place id, (place, id) ∈ inner.marks.map Prod.fst →
          node.id :: position <:+ place := by
        intro place id member
        rcases declaresBody.key_located rfl member with ⟨rfl, _⟩ | ⟨outer, _, longer⟩
        · exact List.suffix_rfl
        · exact (List.suffix_cons _ _).trans longer
      simp only [List.cons_append, List.map_cons, List.map_append]
      refine List.nodup_cons.mpr ⟨?_, List.nodup_append'.mpr ⟨inBody, inRest, ?_⟩⟩
      · intro member
        rcases List.mem_append.mp member with early | late
        · exact not_cons_suffix node.id position (below _ _ early)
        · exact declaresRest.key_fresh keys other late
      · intro key early late
        obtain ⟨place, id⟩ := key
        have under := below place id early
        rcases declaresRest.key_located keys late with ⟨rfl, _⟩ | ⟨outer, known, longer⟩
        · exact not_cons_suffix node.id _ under
        · have suffix := List.suffix_of_suffix_length_le under longer (by simp)
          cases suffix.eq_of_length (by simp)
          exact other known
  | bound _ _ _ others =>
      exact others keys (List.nodup_cons.mp distinct).2 fun below member =>
        inside below (List.mem_cons_of_mem _ member)
  | drawn _ _ declaresRest others =>
      obtain ⟨other, distinctRest⟩ := List.nodup_cons.mp distinct
      have inRest := others keys distinctRest fun below member =>
        inside below (List.mem_cons_of_mem _ member)
      exact List.nodup_cons.mpr ⟨declaresRest.key_fresh keys other, inRest⟩

end Declares

/-- No node of a nest is marked twice. -/
theorem Graph.nodup_keys {graph : Graph} {declared : Declared}
    (declares : Declares [] [] 1 graph.nodes declared)
    (distinct : graph.Everywhere fun body => body.ids.Nodup) :
    (declared.marks.map Prod.fst).Nodup := by
  obtain ⟨here, below⟩ := everywhere_iff.mp distinct
  exact @Declares.keys_nodup _ [] _ _ _ _ declares rfl here fun node member loop runs =>
    below node.id node loop (find?_of_mem here member) runs

end FlowGraph

import FlowGraph.Graph.Drawing
import FlowGraph.Graph.Evaluate
import FlowGraph.Graph.Optimize
import FlowGraph.Graph.Sharing
import FlowGraph.Graph.Splice
import FlowGraph.Graph.Validation
import FlowGraph.Value.Equality

/-!
# Sessions

A session holds graphs by name and works on them step by step.  A step names a
place: a graph, or the body of a loop inside it.  Steps go on after a fault; a
transaction ends at the first one and puts its graph back, unless the fault is
handled inside.

A change to a loop shows wherever it occurs.  A transaction keeps a copy of its
graph, whose loops are new ones, and lets the changes be seen before it ends; what
puts a graph back puts the copy there.
-/

namespace FlowGraph

/-- A graph by its name, and the loops on the way into it, the outermost first. -/
structure Place where
  name : String
  path : List NodeId
deriving DecidableEq

/-- A transaction under way: its graph as it is now, and a copy of what it was. -/
structure Transaction where
  entry : Tagged
  saved : Graph

/-- Graphs by name; a name that was not used yet stands for the empty graph. -/
structure Session where
  graphs : List (String × Tagged)
  /-- The transactions under way, the innermost first. -/
  transactions : List Transaction
  /-- The first tag that no loop and no graph has. -/
  nextTag : Nat

/-- A node by its number alone, or a node taken from a graph. -/
inductive NodeRef where
  | number (id : NodeId)
  | node (place : Place) (id : NodeId)

/-- The number of a node, and the tag of the graph that it was taken from. -/
structure Origin where
  id : NodeId
  tag : Option Nat

/-- Whether a node was taken from another graph than that of the tag. -/
def Origin.isForeign (origin : Origin) (tag : Nat) : Bool :=
  origin.tag.any fun found => found != tag

namespace Transaction

/-- The transaction after the graph of the tag `tag` has become `graph`. -/
def put (tag : Nat) (graph : Graph) (transaction : Transaction) : Transaction :=
  ⟨transaction.entry.put tag graph, transaction.saved.revise (graph.shows tag)⟩

/-- The transaction after a change to loops. -/
def revise (change : Loop → Option Loop) (transaction : Transaction) : Transaction :=
  ⟨⟨transaction.entry.tag, transaction.entry.graph.revise change⟩,
    transaction.saved.revise change⟩

end Transaction

namespace Session

/-- The session without graphs; the tags below `nextTag` are in use. -/
def start (nextTag : Nat) : Session :=
  ⟨[], [], nextTag⟩

/-- The graph that a name stands for.  A name that was not used yet stands for an
empty graph that no other place leads to. -/
def graphNamed (session : Session) (name : String) : Tagged :=
  (session.graphs.lookup name).getD ⟨session.nextTag, Graph.empty⟩

/-- The graph at a place. -/
def read (session : Session) (place : Place) : Except Fault Tagged :=
  (session.graphNamed place.name).bodyAt place.path

/-- Let a name that was not used yet have its empty graph from now on. -/
def introduce (session : Session) (name : String) : Session :=
  if (session.graphs.lookup name).isSome then session
  else
    { session with
      graphs := session.graphs ++ [(name, ⟨session.nextTag, Graph.empty⟩)]
      nextTag := session.nextTag + 1 }

/-- Let the graph of a tag become another one.  The loops that it holds are shown
as it holds them, wherever they occur. -/
def put (session : Session) (tag : Nat) (graph : Graph) : Session :=
  { session with
    graphs := session.graphs.map fun (name, entry) => (name, entry.put tag graph.settled)
    transactions := session.transactions.map (Transaction.put tag graph.settled) }

/-- Let the graph of a tag become a copy of another one. -/
def putCopy (session : Session) (tag : Nat) (graph : Graph) : Session :=
  let (copy, later) := graph.renew session.nextTag
  { session with nextTag := later }.put tag copy

/-- Change loops wherever they occur. -/
def revise (session : Session) (change : Loop → Option Loop) : Session :=
  { session with
    graphs := session.graphs.map fun (name, entry) =>
      (name, ⟨entry.tag, entry.graph.revise change⟩)
    transactions := session.transactions.map (Transaction.revise change) }

/-- The node of a reference; a node taken from a graph must be there. -/
def resolve (session : Session) : NodeRef → Except Fault Origin
  | .number id => .ok ⟨id, none⟩
  | .node place id => do
      let entry ← session.read place
      let node ← entry.graph.node id
      return ⟨node.id, some entry.tag⟩

/-- The number of the node of a reference. -/
def idOf (session : Session) (reference : NodeRef) : Except Fault NodeId :=
  (session.resolve reference).map Origin.id

end Session

/-- A value as it was read.  One that could not be built is a fault for the step
that comes to it. -/
abbrev Reading := Except Fault Value

/-- A node as it was read: its kind, its content and its inputs. -/
structure NodeReading where
  kind : Reading
  content : Reading
  inputs : List NodeId

instance : Inhabited NodeReading :=
  ⟨⟨.ok .null, .ok .null, []⟩⟩

/-- How the kind of a new node is given: by its name or in capital letters. -/
inductive KindName where
  | written (value : Reading)
  | capitals (value : Reading)

/-- What a session answers. -/
inductive Reply where
  | done
  | flag (value : Bool)
  | number (value : Int)
  | numbers (values : List NodeId)
  | text (value : String)
  | node (value : Node)
  | named (values : List (String × NodeId))
  | table (values : List (NodeId × NodeId))
  | results (values : List (String × Value))

/-- The response to a step. -/
structure Response where
  answer : Except Fault Reply
  /-- The graph of the step afterwards, where a step shows it. -/
  state : Option Graph
  /-- The responses to the steps of a transaction. -/
  steps : Option (List Response)
  /-- The reports of splicing, and the source afterwards. -/
  source : Option (List String × Graph)

mutual

/-- What can be asked of a graph. -/
inductive Command where
  | build (nodes : List NodeReading) (exits : List (String × NodeId))
  | add (kind : KindName) (content : Reading) (inputs : List NodeRef)
  /-- Assign fields of a node without any check. -/
  | assign (id : NodeId) (inputs : Option (List NodeId)) (content result : Option Reading)
      (bindings : Option (List (NodeId × NodeId)))
  | exit (name : String) (id : Option NodeId)
  | node (id : NodeId)
  | contains (node : NodeRef)
  | length
  | order
  | loops
  | externals
  | describe
  | describeNode (id : NodeId)
  | dependencies (id : NodeId)
  | ancestors (start : List NodeRef)
  | validate
  | reorder (order : List NodeId)
  | remove (ids : List NodeId)
  | copy (name : String)
  | show
  | transaction (steps : List Step) (fails : Bool)
  /-- Perform steps up to the first fault, and go on in spite of it. -/
  | handle (steps : List Step)
  | split
  | prune
  | schedule
  | fuse (keep remove : NodeRef)
  | foldConstants (meaning : Interpretation) (policy : FoldPolicy)
  | optimize (meaning : Interpretation) (policy : FoldPolicy)
  | evaluate (meaning : Interpretation) (scope : Scope)
  | splice (source : Place) (targets : List (String × NodeRef))
  | draw (name : String)
  /-- A step that could not be read. -/
  | reject (fault : Fault) (shows : Bool)

/-- A command and the place where it applies. -/
structure Step where
  place : Place
  command : Command

end

instance : Inhabited Step :=
  ⟨⟨⟨"", []⟩, .show⟩⟩

/-- The kind that a value names. -/
def Kind.ofValue (value : Value) : Except Fault Kind :=
  match value.asText?.bind Kind.ofName? with
  | some kind => .ok kind
  | none => .error (.unknownKind value.describe)

/-- The kind that a value names in capital letters. -/
def Kind.ofCapitals (value : Value) : Except Fault Kind :=
  if value.isHashable then
    match value.asText?.bind Kind.ofCapitals? with
    | some kind => .ok kind
    | none => .error .missingKey
  else .error .wrongType

namespace Graph

/-- Add nodes one after the other, up to the first fault. -/
def addAll (graph : Graph) (ids : List NodeId) : List NodeReading → Outcome (List NodeId)
  | [] => ⟨graph, .ok ids⟩
  | ⟨kind, content, inputs⟩ :: rest =>
      let added := do
        let kind ← kind
        let content ← content
        graph.add (← Kind.ofValue kind) content inputs
      match added with
      | .error fault => ⟨graph, .error fault⟩
      | .ok (extended, id) => extended.addAll (ids ++ [id]) rest

/-- Add nodes, then set exits. -/
def build (graph : Graph) (nodes : List NodeReading) (exits : List (String × NodeId)) :
    Outcome (List NodeId) :=
  let added := graph.addAll [] nodes
  match added.answer with
  | .ok ids =>
      ⟨exits.foldl (fun found (name, id) => found.setExit name id) added.graph, .ok ids⟩
  | .error fault => ⟨added.graph, .error fault⟩

/-- Assign a field of a node, if a value is given for it. -/
def assignField (graph : Graph) (id : NodeId) (field : Value → Node → Node) :
    Option Reading → Outcome Unit
  | none => ⟨graph, .ok ()⟩
  | some (.error fault) => ⟨graph, .error fault⟩
  | some (.ok value) => ⟨graph.update id (field value), .ok ()⟩

/-- Assign inputs, content and result of a node, one after the other and without
any check. -/
def assignFields (graph : Graph) (id : NodeId) (inputs : Option (List NodeId))
    (content result : Option Reading) : Outcome Unit :=
  match graph.node id with
  | .error fault => ⟨graph, .error fault⟩
  | .ok node =>
      let started := graph.update id fun found =>
        { found with inputs := inputs.getD node.inputs }
      (started.assignField id (fun value node => { node with content := value }) content).andThen
        fun changed =>
          changed.assignField id (fun value node => { node with result := value }) result

end Graph

namespace Session

/-- A question that changes nothing. -/
def ask (session : Session) (answer : Except Fault Reply) : Session × Response :=
  (session, ⟨answer, none, none, none⟩)

/-- A change of the graph of a tag, which is shown afterwards or not. -/
def edit {α : Type} (session : Session) (tag : Nat) (shows : Bool) (reply : α → Reply)
    (outcome : Outcome α) : Session × Response :=
  (session.put tag outcome.graph,
    ⟨outcome.answer.map reply, if shows then some outcome.graph.settled else none, none, none⟩)

/-- Begin a transaction on a graph. -/
def begin (session : Session) (entry : Tagged) : Session :=
  let (saved, later) := entry.graph.renew session.nextTag
  { session with transactions := ⟨entry, saved⟩ :: session.transactions, nextTag := later }

/-- End the innermost transaction; the graph of the answer is its graph afterwards.
After a fault that is the copy from the beginning, even if no place leads to the graph
any more. -/
def close (session : Session) (failed : Bool) : Session × Option Graph :=
  match session.transactions with
  | [] => (session, none)
  | transaction :: others =>
      let ended := { session with transactions := others }
      if failed then
        (ended.put transaction.entry.tag transaction.saved, some transaction.saved.settled)
      else (ended, some transaction.entry.graph)

/-- Run a block of changes on a graph as a transaction. -/
def transact {α : Type} (session : Session) (entry : Tagged) (reply : α → Reply)
    (block : Outcome α) : Session × Response :=
  let (later, state) :=
    ((session.begin entry).put entry.tag block.graph).close (!block.answer.isOk)
  (later, ⟨block.answer.map reply, state, none, none⟩)

/-- Run all passes on a graph.  Folding and pruning are transactions: where one of them
failed, the graph is a copy. -/
def optimize (session : Session) (entry : Tagged) (meaning : Interpretation)
    (policy : FoldPolicy) : Session × Response :=
  let outcome := entry.graph.optimize meaning policy
  let splits := entry.graph.split.answer.isOk
  let simplifies := (entry.graph.simplify meaning policy).answer.isOk
  if splits && !simplifies then
    (session.putCopy entry.tag outcome.graph,
      ⟨outcome.answer.map fun _ => .flag true, some outcome.graph.settled, none, none⟩)
  else session.edit entry.tag true (fun _ => .flag true) outcome

/-- Assign fields of a node.  Only a loop has bindings, and they belong to the
loop wherever it occurs. -/
def assign (session : Session) (entry : Tagged) (id : NodeId) (inputs : Option (List NodeId))
    (content result : Option Reading) (bindings : Option (List (NodeId × NodeId))) :
    Session × Response :=
  let outcome := entry.graph.assignFields id inputs content result
  let later := session.put entry.tag outcome.graph
  match outcome.answer, bindings with
  | .error fault, _ => later.ask (.error fault)
  | .ok _, none => later.ask (.ok .done)
  | .ok _, some bindings =>
      match (outcome.graph.find? id).bind fun node => node.content.loop? with
      | some loop =>
          (later.revise fun found =>
            if found.tag = loop.tag then some { found with bindings := bindings }
            else none).ask (.ok .done)
      | none => later.ask (.error .missingField)

/-- Copy a source that is in evaluation order into a graph.  The nodes that have come in
are copies: the loops in them are new ones. -/
def copyInto (session : Session) (destination : Graph) (source : Graph → Graph)
    (targets : String → Option Target) : Session × Spliced :=
  let block := Graph.spliceBlock source targets destination
  let graph := block.destination
  let copied := fun node : Node => destination.nextId ≤ node.id && node.id < graph.nextId
  let (nodes, later) := renewWhere copied session.nextTag graph.nodes
  ({ session with nextTag := later }, { block with destination := { graph with nodes := nodes } })

/-- Splice a graph into another one.  The source is put into evaluation order first,
whether splicing succeeds or not; the copying is a transaction on the destination.  The
source may hold the destination, be held by it or share loops with it. -/
def spliceFrom (session : Session) (entry origin : Tagged) (targets : String → Option Target) :
    Session × Response :=
  let ordered := origin.graph.schedule
  let scheduled := ordered.graph.settled
  let ready := session.put origin.tag ordered.graph
  let destination := entry.put origin.tag scheduled
  match ordered.answer with
  | .error fault => (ready, ⟨.error fault, some destination.graph, none, some ([], scheduled)⟩)
  | .ok _ =>
      let seen := fun found : Graph => Tagged.seenWith entry.tag found ⟨origin.tag, scheduled⟩
      let (copied, block) := ready.copyInto destination.graph seen targets
      let (later, response) :=
        copied.transact destination Reply.table ⟨block.destination, block.answer⟩
      let final := seen (response.state.getD block.destination)
      (later, { response with source := some (block.unbound.map unboundWarning, final) })

/-- What a name is bound to in the graph of a tag. -/
def resolveTarget (session : Session) (tag : Nat) (binding : String × NodeRef) :
    Except Fault (String × Target) := do
  let found ← session.resolve binding.2
  return (binding.1, ⟨found.id, found.isForeign tag⟩)

/-- Splice the graph at a place into another graph. -/
def splice (session : Session) (entry : Tagged) (source : Place)
    (targets : List (String × NodeRef)) : Except Fault (Session × Response) := do
  let origin ← session.read source
  let resolved ← targets.mapM (session.resolveTarget entry.tag)
  return session.spliceFrom entry origin fun name => (tabulate resolved).lookup name

/-- Merge two nodes that are given by reference. -/
def fuse (session : Session) (graph : Graph) (keep remove : NodeRef) : Outcome Unit :=
  match session.idOf keep with
  | .error fault => ⟨graph, .error fault⟩
  | .ok kept =>
      match session.idOf remove with
      | .error fault => ⟨graph, .error fault⟩
      | .ok removed => graph.fuse kept removed

/-- Add one node. -/
def add (session : Session) (graph : Graph) (kind : KindName) (content : Reading)
    (inputs : List NodeRef) : Except Fault (Graph × NodeId) := do
  let ids ← inputs.mapM session.idOf
  match kind with
  | .capitals value =>
      let value ← value
      let content ← content
      graph.add (← Kind.ofCapitals value) content ids
  | .written value =>
      let value ← value
      let content ← content
      graph.add (← Kind.ofValue value) content ids

/-- Let a name stand for a copy of a graph. -/
def copy (session : Session) (graph : Graph) (name : String) : Session :=
  let (copy, later) := graph.renew (session.nextTag + 1)
  { session with
    graphs := FlowGraph.assign name ⟨session.nextTag, copy⟩ session.graphs
    nextTag := later }

/-- Perform a command without steps of its own on a graph. -/
def performOn (session : Session) (entry : Tagged) : Command → Session × Response
  | .build nodes exits =>
      session.edit entry.tag true Reply.numbers (entry.graph.build nodes exits)
  | .add kind content inputs =>
      session.edit entry.tag false Reply.number
        (entry.graph.outcomeOf (session.add entry.graph kind content inputs))
  | .assign id inputs content result bindings =>
      session.assign entry id inputs content result bindings
  | .exit name (some id) =>
      session.edit entry.tag false (fun _ => .done) ⟨entry.graph.setExit name id, .ok ()⟩
  | .exit name none =>
      session.edit entry.tag false (fun _ => .done) ⟨entry.graph.dropExit name, .ok ()⟩
  | .node id => session.ask ((entry.graph.node id).map Reply.node)
  | .contains reference =>
      session.ask ((session.resolve reference).map fun found =>
        .flag (entry.graph.contains found.id && !found.isForeign entry.tag))
  | .length => session.ask (.ok (.number entry.graph.nodes.length))
  | .order => session.ask (.ok (.numbers entry.graph.ids))
  | .loops => session.ask (.ok (.numbers (entry.graph.loops.map Node.id)))
  | .externals => session.ask (.ok (.named entry.graph.externals))
  | .describe => session.ask (.ok (.text entry.graph.describe))
  | .describeNode id =>
      session.ask ((entry.graph.node id).map fun node => .text node.describe)
  | .dependencies id =>
      session.ask ((entry.graph.node id).map fun node => .numbers node.dependencies)
  | .ancestors start =>
      session.ask (do
        let found ← entry.graph.ancestors (← start.mapM session.idOf)
        return .numbers (found.mergeSort fun left right => left ≤ right))
  | .validate => session.ask (entry.graph.validate.map fun _ => .done)
  | .reorder order =>
      session.edit entry.tag true (fun _ => .done)
        (entry.graph.outcomeOf ((entry.graph.reorder order).map fun changed => (changed, ())))
  | .remove ids => session.edit entry.tag true (fun _ => .done) (entry.graph.remove ids)
  | .copy name => (session.copy entry.graph name, ⟨.ok .done, some entry.graph, none, none⟩)
  | .show => (session, ⟨.ok .done, some entry.graph, none, none⟩)
  | .split =>
      session.edit entry.tag true (fun (count : Nat) => .number count) entry.graph.split
  | .prune =>
      session.transact entry (fun (count : Nat) => .number count) entry.graph.pruneBlock
  | .schedule => session.edit entry.tag true (fun _ => .done) entry.graph.schedule
  | .fuse keep remove =>
      session.edit entry.tag true (fun _ => .done) (session.fuse entry.graph keep remove)
  | .foldConstants meaning policy =>
      session.transact entry (fun (count : Nat) => .number count)
        (foldBlock meaning policy entry.graph.depth entry.graph)
  | .optimize meaning policy => session.optimize entry meaning policy
  | .evaluate meaning scope =>
      session.edit entry.tag true Reply.results (entry.graph.evaluate meaning scope)
  | .splice source targets =>
      let opened := session.introduce source.name
      match opened.splice entry source targets with
      | .ok found => found
      | .error fault => (opened, ⟨.error fault, some entry.graph, none, none⟩)
  | .draw name => session.ask ((entry.graph.draw name).map Reply.text)
  | .reject fault shows =>
      (session, ⟨.error fault, if shows then some entry.graph else none, none, none⟩)
  | .transaction _ _ => session.ask (.ok .done)
  | .handle _ => session.ask (.ok .done)

/-- End the innermost transaction after its steps. -/
def finish (session : Session) (responses : List Response) (fault : Option Fault) :
    Session × Response :=
  let (later, state) := session.close fault.isSome
  (later, ⟨fault.elim (.ok .done) .error, state, some responses, none⟩)

mutual

/-- Perform a command at a place. -/
def perform (session : Session) (place : Place) : Command → Session × Response
  | .transaction steps fails =>
      let opened := session.introduce place.name
      match opened.read place with
      | .error fault => opened.ask (.error fault)
      | .ok entry =>
          let (later, responses, fault) := performAll (opened.begin entry) steps
          later.finish responses (if fault.isNone && fails then some Fault.standIn else fault)
  | .handle steps =>
      let (later, responses, _) := session.performAll steps
      (later, ⟨.ok .done, none, some responses, none⟩)
  | command =>
      let opened := session.introduce place.name
      match opened.read place with
      | .error fault => opened.ask (.error fault)
      | .ok entry => opened.performOn entry command

/-- Perform steps up to the first fault. -/
def performAll (session : Session) : List Step → Session × List Response × Option Fault
  | [] => (session, [], none)
  | ⟨place, command⟩ :: rest =>
      let (later, response) := session.perform place command
      match response.answer with
      | .error fault => (later, [response], some fault)
      | .ok _ =>
          let (final, responses, fault) := later.performAll rest
          (final, response :: responses, fault)

end

end Session

end FlowGraph

import FlowGraph.Decimal.Layout
import FlowGraph.Tensor.Display
import FlowGraph.Text.Quoted
import FlowGraph.Value.Form

/-!
# Values as text

Three texts of a value: the described text shows how the value is made, the plain
text is what a name or a label is made of, and the formatted text stands inside
longer texts.  They differ for texts, symbols and tensors only.
-/

namespace FlowGraph

/-- Names in the order of their code points. -/
def sortNames (names : List String) : List String :=
  names.mergeSort fun left right => !decide (right < left)

/-- Texts with a comma between them. -/
def commaSeparated (texts : List String) : String :=
  String.intercalate ", " texts

/-- Texts in parentheses; a single one is followed by a comma. -/
def tupleText : List String → String
  | [text] => "(" ++ text ++ ",)"
  | texts => "(" ++ commaSeparated texts ++ ")"

/-- Texts in braces. -/
def bracesText (texts : List String) : String :=
  "\x7b" ++ commaSeparated texts ++ "\x7d"

/-- The text of a graph: the number of its nodes and the names of its exits. -/
def Graph.describe (graph : Graph) : String :=
  let names := (sortNames (graph.exits.map Prod.fst)).map Text.quoted
  s!"ExGraph(nodes={graph.nodes.length}, exits=[" ++ commaSeparated names ++ "])"

/-- The text of a table of bindings. -/
def describeBindings (bindings : List (NodeId × NodeId)) : String :=
  bracesText (bindings.map fun (inner, outer) => s!"{inner}: {outer}")

/-- The text of a loop. -/
def Loop.describe (loop : Loop) : String :=
  "LoopPayload(var=" ++ Text.quoted loop.index ++ ", body=" ++ loop.body.describe ++
    ", inmap=" ++ describeBindings loop.bindings ++ ")"

/-- The text of a kind. -/
def Kind.describe (kind : Kind) : String :=
  "<NodeKind." ++ kind.name.map Char.toUpper ++ ": " ++ Text.quoted kind.name ++ ">"

namespace Value

mutual

/-- The text that shows how a value is made. -/
def describe : Value → String
  | null => "None"
  | bool value => if value then "True" else "False"
  | int value => toString value
  | float value => Decimal.doubleText value
  | text value => Text.quoted value
  | list items => "[" ++ commaSeparated (describeAll items) ++ "]"
  | tuple items => tupleText (describeAll items)
  | dict entries => bracesText (describeEntries entries)
  | record fields => "namespace(" ++ commaSeparated (describeFields fields) ++ ")"
  | slice start stop step =>
      "slice(" ++ commaSeparated [describe start, describe stop, describe step] ++ ")"
  | symbol name => "Symbol(name=" ++ Text.quoted name ++ ")"
  | expr head arguments =>
      "Expr(head=" ++ Text.quoted head ++ ", args=" ++ tupleText (describeAll arguments) ++ ")"
  | form tag head arguments =>
      tag.name ++ "(head=" ++ Text.quoted head ++ ", args=" ++
        tupleText (describeAll arguments) ++ ")"
  | tensor value => value.describedText
  | loop value => value.describe
  | part .body owner => owner.body.describe
  | part .bindings owner => describeBindings owner.bindings
  | part (.node id) ⟨_, _, ⟨nodes, _, _⟩, _⟩ => describeNodeAmong id nodes
  | member name _ => "<function " ++ name ++ ">"

def describeAll : List Value → List String
  | [] => []
  | value :: rest => describe value :: describeAll rest

def describeEntries : List (String × Value) → List String
  | [] => []
  | (key, value) :: rest => (Text.quoted key ++ ": " ++ describe value) :: describeEntries rest

/-- The text that shows how the node of a number is made. -/
def describeNodeAmong (id : NodeId) : List Node → String
  | [] => ""
  | ⟨found, kind, content, inputs, result⟩ :: rest =>
      if found = id then
        s!"ExNode(id={found}, kind=" ++ kind.describe ++ ", main=" ++ describe content ++
          ", parents=" ++ tupleText (inputs.map toString) ++ ", val=" ++ describe result ++ ")"
      else describeNodeAmong id rest

/-- The fields of a record; one without a name is not shown. -/
def describeFields : List (String × Value) → List String
  | [] => []
  | ("", _) :: rest => describeFields rest
  | (name, value) :: rest => (name ++ "=" ++ describe value) :: describeFields rest

end

/-- The text that a name or a label is made of.  Every whole number has one; a limit on
the number of digits that are written out is a setting of the machine and left out. -/
def plain : Value → String
  | text value => value
  | symbol name => name
  | tensor value => value.plainText
  | value => value.describe

/-- The text of a value inside a longer text. -/
def formatted : Value → String
  | tensor value => value.formattedText
  | value => value.plain

/-- The name of the type of a value. -/
def typeName : Value → String
  | null => "NoneType"
  | bool _ => "bool"
  | int _ => "int"
  | float _ => "float"
  | text _ => "str"
  | list _ => "list"
  | tuple _ => "tuple"
  | dict _ => "dict"
  | record _ => "SimpleNamespace"
  | slice _ _ _ => "slice"
  | symbol _ => "Symbol"
  | expr _ _ => "Expr"
  | form tag _ _ => tag.name
  | tensor _ => "ArrayImpl"
  | loop _ => "LoopPayload"
  | part .body _ => "ExGraph"
  | part .bindings _ => "dict"
  | part (.node _) _ => "ExNode"
  | member _ _ => "function"

end Value

/-- The text of a node: kind, content, last result and inputs. -/
def Node.describe (node : Node) : String :=
  let content :=
    match node.content with
    | .loop loop => "for " ++ loop.index
    | value => value.describe
  let head := "[" ++ node.kind.name ++ "] " ++ content ++ " (" ++ node.result.formatted ++ ")"
  if node.inputs.isEmpty then head
  else head ++ ", from = " ++ String.intercalate " / " (node.inputs.map fun input => s!"#{input}")

end FlowGraph

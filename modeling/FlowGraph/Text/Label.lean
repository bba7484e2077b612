import FlowGraph.Text.Quoted

/-!
# Labels

A label is a text in quotation marks; the quotation mark and the backslash are
escaped by a backslash.
-/

namespace FlowGraph.Text

/-- One character of a label. -/
def escapeLabel (character : Char) : List Char :=
  if character = backslash ∨ character = quotationMark then [backslash, character]
  else [character]

/-- A label between quotation marks. -/
def label (text : String) : String :=
  String.ofList (quotationMark :: text.toList.flatMap escapeLabel ++ [quotationMark])

end FlowGraph.Text

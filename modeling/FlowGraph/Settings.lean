import FlowGraph.Fault
import FlowGraph.Text.CharClass
import FlowGraph.Value.Equality

/-!
# Settings

Settings are given by three optional texts: the radix of temporary names, the
start of derivative names, and the operations that are never folded.
-/

namespace FlowGraph

/-- The operations whose calls stay calls, even on constants. -/
structure FoldPolicy where
  nonFoldable : List String

namespace FoldPolicy

/-- Calls that make arrays keep their shape. -/
def standard : FoldPolicy :=
  ⟨["zeros", "ones", "vcat"]⟩

/-- Read a list of names between commas; blanks around them do not count, and
empty names are dropped. -/
def ofText (text : String) : FoldPolicy :=
  ⟨(((Text.splitAt ',' text.toList).map Text.stripBlanks).filter fun name =>
    !name.isEmpty).map String.ofList⟩

/-- The policy of an optional text. -/
def ofOption (text : Option String) : FoldPolicy :=
  match text with
  | some text => ofText text
  | none => standard

/-- Whether calls with this content may be folded.  What cannot be looked up in
a set has the wrong type. -/
def allows (policy : FoldPolicy) (content : Value) : Except Fault Bool :=
  if content.isHashable then
    match content.asText? with
    | some name => .ok (!policy.nonFoldable.contains name)
    | none => .ok true
  else
    .error .wrongType

/-- Whether two policies name the same operations. -/
def agrees (left right : FoldPolicy) : Bool :=
  left.nonFoldable.all right.nonFoldable.contains &&
    right.nonFoldable.all left.nonFoldable.contains

end FoldPolicy

/-- The three optional texts. -/
structure Environment where
  temporaryName : Option String
  derivativeLead : Option String
  nonFoldable : Option String

/-- What the texts mean. -/
structure Settings where
  temporaryName : String
  derivativeLead : String
  policy : FoldPolicy

def Environment.settings (environment : Environment) : Settings :=
  { temporaryName := environment.temporaryName.getD "_tmp"
    derivativeLead := environment.derivativeLead.getD "d"
    policy := FoldPolicy.ofOption environment.nonFoldable }

end FlowGraph

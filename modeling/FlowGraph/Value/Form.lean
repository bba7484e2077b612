import FlowGraph.Fault
import FlowGraph.Value.Basic

/-!
# Tagged forms of source code

An expression is tagged by its head.  A form can be made with another head than the
one that its tag stands for; what is read from it then goes by the tag.
-/

namespace FlowGraph

namespace FormTag

/-- The head that a tag stands for, if it stands for one. -/
def head? : FormTag → Option String
  | assignment => some "="
  | annotation => some "::"
  | increase => some "+="
  | decrease => some "-="
  | scaling => some "*="
  | transposition => some "'"
  | call => some "call"
  | block => some "block"
  | line => some "line"
  | concatenation => some "vcat"
  | loop => some "for"
  | element => some "ref"
  | branch => some "if"
  | comparison => some "comparison"
  | field => some "."
  | other => none

/-- The written name of a tag. -/
def name : FormTag → String
  | assignment => "ExEqual"
  | annotation => "ExDColon"
  | increase => "ExPEqual"
  | decrease => "ExMEqual"
  | scaling => "ExTEqual"
  | transposition => "ExTrans"
  | call => "ExCall"
  | block => "ExBlock"
  | line => "ExLine"
  | concatenation => "ExVcat"
  | loop => "ExFor"
  | element => "ExRef"
  | branch => "ExIf"
  | comparison => "ExComp"
  | field => "ExDot"
  | other => "ExH"

/-- The tags that stand for a head. -/
def headed : List FormTag :=
  [assignment, annotation, increase, decrease, scaling, transposition, call, block, line,
    concatenation, loop, element, branch, comparison, field]

/-- The tag of a head. -/
def ofHead (head : String) : FormTag :=
  (headed.find? fun tag => tag.head? == some head).getD other

end FormTag

namespace Value

/-- The head and the arguments of a piece of source code.  A record with these
two fields counts as one. -/
def headAndArguments? : Value → Option (String × List Value)
  | expr head arguments => some (head, arguments)
  | form _ head arguments => some (head, arguments)
  | record fields =>
      match fields.lookup "head", fields.lookup "args" with
      | some (text head), some (tuple arguments) => some (head, arguments)
      | some (text head), some (list arguments) => some (head, arguments)
      | _, _ => Option.none
  | _ => Option.none

/-- Tag an expression by its head. -/
def toForm (value : Value) : Except Fault Value :=
  match value.headAndArguments? with
  | some (head, arguments) => .ok (form (FormTag.ofHead head) head arguments)
  | none => .error .missingField

/-- Drop the tag. -/
def toExpr (value : Value) : Except Fault Value :=
  match value.headAndArguments? with
  | some (head, arguments) => .ok (expr head arguments)
  | none => .error .missingField

/-- Whether the value is an expression without a tag. -/
def isExpr : Value → Bool
  | expr _ _ => true
  | _ => false

def isSymbol : Value → Bool
  | symbol _ => true
  | _ => false

/-- A field of a plain name. -/
def isFieldOfName : Value → Bool
  | expr "." (base :: _) => base.isSymbol
  | _ => false

/-- An element of a plain name. -/
def isElementOfName : Value → Bool
  | expr "ref" (base :: _) => base.isSymbol
  | _ => false

end Value

end FlowGraph

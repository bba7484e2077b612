import FlowGraph.Value.Form

/-!
# Variables of source code

The variables that a piece of source code reads or writes.  The operator of a
call, the name of a field, the placeholders of an index range and the operators
of a comparison are symbols, but not variables.
-/

namespace FlowGraph.Fragment

/-- How the arguments of an expression are read. -/
inductive Role where
  /-- The first argument is the operator. -/
  | call
  /-- The arguments after the first are field names. -/
  | field
  /-- All arguments are read, and the reserved names stand for no variable. -/
  | plain (reserved : List String)

/-- The placeholders of an index range. -/
def rangePlaceholders : List String :=
  [":", "end"]

def comparisonOperators : List String :=
  ["<", ">", "<=", ">=", "==", "!=", ".<", ".>", ".<=", ".>=", ".=="]

/-- The role of a tag. -/
def Role.ofTag : FormTag → Role
  | .call => .call
  | .field => .field
  | .element => .plain rangePlaceholders
  | .comparison => .plain comparisonOperators
  | _ => .plain []

/-- The role of a head: that of its tag. -/
def Role.ofHead (head : String) : Role :=
  Role.ofTag (FormTag.ofHead head)

mutual

/-- The variables of a fragment, with repetitions. -/
def symbols : Value → List String
  | .symbol name => [name]
  | .list items => symbolsOfAll items
  | .tuple items => symbolsOfAll items
  | .expr head arguments => symbolsOfArguments (Role.ofHead head) arguments
  | .form tag _ arguments => symbolsOfArguments (Role.ofTag tag) arguments
  | _ => []

/-- The variables of several fragments. -/
def symbolsOfAll : List Value → List String
  | [] => []
  | item :: rest => symbols item ++ symbolsOfAll rest

/-- The variables of the arguments of an expression. -/
def symbolsOfArguments (role : Role) : List Value → List String
  | [] => []
  | first :: rest =>
      match role with
      | .call => symbolsOfAll rest
      | .field => symbols first
      | .plain reserved =>
          (symbols first ++ symbolsOfAll rest).filter fun name => !reserved.contains name

end

end FlowGraph.Fragment

/-!
# Node identifiers and kinds

A node is addressed by a number that its graph handed out, and is of one of
eleven kinds.
-/

namespace FlowGraph

/-- The number of a node in its graph. -/
abbrev NodeId := Int

/-- What a node stands for. -/
inductive Kind where
  /-- A literal value. -/
  | constant
  /-- A value bound from outside by its name. -/
  | external
  /-- An operation applied to the inputs. -/
  | call
  /-- A comparison of the inputs. -/
  | comparison
  /-- An element of the first input. -/
  | element
  /-- A field of the first input. -/
  | field
  /-- An element assignment into the first input. -/
  | elementUpdate
  /-- A field assignment into the first input. -/
  | fieldUpdate
  /-- A fresh array. -/
  | allocation
  /-- A loop with a body of its own. -/
  | loop
  /-- The loop range. -/
  | within
deriving DecidableEq, Repr

namespace Kind

/-- The kinds in their order. -/
def all : List Kind :=
  [constant, external, call, comparison, element, field, elementUpdate,
    fieldUpdate, allocation, loop, within]

/-- The written name of a kind. -/
def name : Kind → String
  | constant => "constant"
  | external => "external"
  | call => "call"
  | comparison => "comp"
  | element => "ref"
  | field => "dot"
  | elementUpdate => "subref"
  | fieldUpdate => "subdot"
  | allocation => "alloc"
  | loop => "for"
  | within => "within"

/-- The kind of a written name. -/
def ofName? (text : String) : Option Kind :=
  all.find? fun kind => kind.name == text

/-- The kind of a name in capital letters. -/
def ofCapitals? (text : String) : Option Kind :=
  all.find? fun kind => kind.name.map Char.toUpper == text

end Kind

end FlowGraph

import FlowGraph.Fragment.Symbols

/-!
# Renaming of variables

Renaming replaces the variables of a piece of source code and keeps its shape.
What is no variable stays: operators of calls, field names, and the reserved
names that stand directly in an index range or a comparison.  Tagged forms and
other values are left alone.
-/

namespace FlowGraph.Fragment

/-- New names of variables; a variable without one keeps its name. -/
abbrev Renaming := String → Option String

/-- The name of a variable after renaming. -/
def Renaming.apply (names : Renaming) (name : String) : String :=
  (names name).getD name

/-- Whether a fragment is one of the reserved symbols. -/
def isReserved (reserved : List String) : Value → Bool
  | .symbol name => reserved.contains name
  | _ => false

mutual

/-- Rename the variables of a fragment. -/
def rename (names : Renaming) : Value → Value
  | .symbol name => .symbol (names.apply name)
  | .list items => .list (renameAll names items)
  | .tuple items => .tuple (renameAll names items)
  | .expr head arguments => .expr head (renameArguments names (Role.ofHead head) arguments)
  | value => value

/-- Rename the variables of several fragments. -/
def renameAll (names : Renaming) : List Value → List Value
  | [] => []
  | item :: rest => rename names item :: renameAll names rest

/-- Rename the variables of several fragments, reserved symbols apart. -/
def renameUnreserved (names : Renaming) (reserved : List String) : List Value → List Value
  | [] => []
  | item :: rest =>
      (if isReserved reserved item then item else rename names item) ::
        renameUnreserved names reserved rest

/-- Rename the variables of the arguments of an expression. -/
def renameArguments (names : Renaming) (role : Role) : List Value → List Value
  | [] => []
  | first :: rest =>
      match role with
      | .call => first :: renameAll names rest
      | .field => rename names first :: rest
      | .plain reserved =>
          (if isReserved reserved first then first else rename names first) ::
            renameUnreserved names reserved rest

end

end FlowGraph.Fragment

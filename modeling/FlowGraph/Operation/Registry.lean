import FlowGraph.Fault
import FlowGraph.Text.CharClass
import FlowGraph.Value.Access

/-!
# Registries of operations

A registry finds the operation of a name and its operands.  Overloads with
operand types are tried in the order of their registration, then the overload
without types, then the function of that name in the library behind the
registry.  Ambient names are found among the definitions first.
-/

namespace FlowGraph

/-- A type that an overload can ask for, known by the operands that are of it. -/
structure OperandType where
  accepts : Value → Bool

namespace OperandType

/-- The type of a name. -/
def called (name : String) : OperandType :=
  ⟨fun operand => operand.typeName == name⟩

def bool : OperandType :=
  called "bool"

def text : OperandType :=
  called "str"

/-- The type of whole numbers; a truth value is one too. -/
def int : OperandType :=
  ⟨fun operand => operand.typeName == "int" || operand.typeName == "bool"⟩

/-- The type of everything. -/
def any : OperandType :=
  ⟨fun _ => true⟩

end OperandType

/-- One operation of a name.  Without types it takes any operands. -/
structure Overload (ι : Type) where
  types : Option (List OperandType)
  action : ι

/-- Whether operands have the types, in number and order. -/
def acceptsAll : List OperandType → List Value → Bool
  | [], [] => true
  | type :: types, operand :: operands => type.accepts operand && acceptsAll types operands
  | _, _ => false

namespace Overload

variable {ι : Type}

def isTyped (overload : Overload ι) : Bool :=
  overload.types.isSome

/-- Whether a typed overload takes the operands. -/
def matchesOperands (overload : Overload ι) (operands : List Value) : Bool :=
  match overload.types with
  | some types => acceptsAll types operands
  | none => false

end Overload

/-- What a library holds under a name. -/
inductive Member (ι : Type) where
  | operation (action : ι)
  | value (value : Value)

/-- The members of a library. -/
abbrev Library (ι : Type) := String → Option (Member ι)

/-- Operations by name and operand types, and ambient names. -/
structure Registry (ι : Type) where
  overloads : List (String × List (Overload ι))
  names : List (String × Value)
  library : Option (Library ι)

/-- How the operations and names of a graph are understood, and how values are read. -/
structure Interpretation where
  /-- Apply the operation of a name. -/
  call : String → List Value → Except Fault Value
  /-- The value of an ambient name. -/
  lookup : String → Except Fault Value
  /-- The element of a value at an index. -/
  element : Value → Value → Except Fault Value
  /-- The field of a value under a name. -/
  field : Value → String → Except Fault Value

namespace Registry

variable {ι : Type}

/-- A registry without operations and names. -/
def empty (library : Option (Library ι)) : Registry ι :=
  ⟨[], [], library⟩

/-- The overloads of a name in the order in which they are kept. -/
def overloadsOf (registry : Registry ι) (name : String) : List (Overload ι) :=
  (registry.overloads.lookup name).getD []

/-- Add an overload; one without types takes the place of the one before it. -/
def register (registry : Registry ι) (name : String) (overload : Overload ι) : Registry ι :=
  let known := registry.overloadsOf name
  let kept := if overload.isTyped then known else known.filter Overload.isTyped
  { registry with overloads := assign name (kept ++ [overload]) registry.overloads }

/-- Give an ambient name a value. -/
def define (registry : Registry ι) (name : String) (value : Value) : Registry ι :=
  { registry with names := assign name value registry.names }

/-- Whether operations or a value are known under a name. -/
def contains (registry : Registry ι) (name : Value) : Except Fault Bool :=
  if name.isHashable then
    match name.asText? with
    | some text =>
        .ok ((registry.overloads.lookup text).isSome || (registry.names.lookup text).isSome)
    | none => .ok false
  else
    .error .wrongType

/-- The member of the library under a name. -/
def member? (registry : Registry ι) (name : String) : Option (Member ι) :=
  if Text.isIdentifier name then registry.library.bind fun library => library name
  else none

/-- The operation that a call of a name with operands runs. -/
def resolve (registry : Registry ι) (name : String) (operands : List Value) : Except Fault ι :=
  let known := registry.overloadsOf name
  match known.find? fun overload => overload.matchesOperands operands with
  | some overload => .ok overload.action
  | none =>
      match known.find? fun overload => !overload.isTyped with
      | some overload => .ok overload.action
      | none =>
          match registry.member? name with
          | some (.operation action) => .ok action
          | _ => .error (.unresolvedOperation name (operands.map Value.typeName))

/-- The value of an ambient name. -/
def lookup (registry : Registry ι) (name : String) : Except Fault Value :=
  match registry.names.lookup name with
  | some value => .ok value
  | none =>
      match registry.member? name with
      | some (.operation _) => .ok (.member name true)
      | some (.value .null) => .error (.unresolvedName name)
      | some (.value value) => .ok value
      | none => .error (.unresolvedName name)

/-- Run the operation of a name. -/
def call (registry : Registry ι) (run : ι → List Value → Except Fault Value) (name : String)
    (operands : List Value) : Except Fault Value := do
  let action ← registry.resolve name operands
  run action operands

/-- A registry as the meaning of operations and names. -/
def interpretation (registry : Registry ι) (run : ι → List Value → Except Fault Value) :
    Interpretation where
  call := registry.call run
  lookup := registry.lookup
  element := Value.element
  field := Value.field

/-- Change what stands for the operations. -/
def map {κ : Type} (change : ι → κ) (registry : Registry ι) : Registry κ :=
  { overloads := registry.overloads.map fun (name, overloads) =>
      (name, overloads.map fun overload => ⟨overload.types, change overload.action⟩)
    names := registry.names
    library := registry.library.map fun library name =>
      (library name).map fun
        | .operation action => .operation (change action)
        | .value value => .value value }

end Registry

end FlowGraph

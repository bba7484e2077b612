import FlowGraph.Fault
import FlowGraph.Tensor.Concatenation
import FlowGraph.Text.Numeral
import FlowGraph.Value.Equality

/-!
# Operands of tensor operations

Numbers and tensors are operands as they are; a plain number is weak.  Some
operations also take lists of numbers, which become tensors first.  The numbers
inside all operands are looked at before the operands themselves.
-/

namespace FlowGraph

/-- The whole part of a double-precision number. -/
def truncate (number : Float) : Except Fault Int :=
  match Decimal.doubleParts number with
  | .notANumber => .error .badValue
  | .infinite _ => .error .overflow
  | .zero _ => .ok 0
  | .finite negative magnitude =>
      let whole : Int := magnitude.wholePart
      .ok (if negative then -whole else whole)

namespace Value

mutual

/-- What is wrong with the first item inside an operand that is no number.
Containers are opened, tables in the order of their keys. -/
def itemFault? : Value → Option Fault
  | null => none
  | bool _ => none
  | int value => if fitsInt32 value then none else some .overflow
  | float _ => none
  | tensor _ => none
  | list items => itemsFault? items
  | tuple items => itemsFault? items
  | dict entries =>
      ((entryFaults entries).mergeSort fun left right => left.1 ≤ right.1).findSome? Prod.snd
  | _ => some .wrongType

def itemsFault? : List Value → Option Fault
  | [] => none
  | item :: rest => (itemFault? item).or (itemsFault? rest)

def entryFaults : List (String × Value) → List (String × Option Fault)
  | [] => []
  | (key, value) :: rest => (key, itemFault? value) :: entryFaults rest

end

/-- The tensors of operands.  An item that is no number is reported before an
operand that is a container of numbers. -/
def toTensors (operands : List Value) : Except Fault (List Tensor) :=
  match itemsFault? operands with
  | some fault => .error fault
  | none => if operands.all isNumeric then operands.mapM toTensor else .error .wrongType

/-- Whether a value is a number, a tensor or a text. -/
def isPlain : Value → Bool
  | text _ => true
  | value => value.isNumeric

/-- The tensors of operands that are plain values, which is checked first. -/
def plainTensors (operands : List Value) : Except Fault (List Tensor) :=
  if operands.all isPlain then toTensors operands else .error .wrongType

mutual

/-- Whether nothing is found where an element should be. -/
def holdsNull : Value → Bool
  | null => true
  | list items => anyHoldsNull items
  | tuple items => anyHoldsNull items
  | dict entries => anyEntryHoldsNull entries
  | _ => false

def anyHoldsNull : List Value → Bool
  | [] => false
  | item :: rest => holdsNull item || anyHoldsNull rest

def anyEntryHoldsNull : List (String × Value) → Bool
  | [] => false
  | (_, value) :: rest => holdsNull value || anyEntryHoldsNull rest

end

/-- The type of an element of a list. -/
def leafType? : Value → Option NumberType
  | bool _ => some ⟨.bool, false⟩
  | int _ => some ⟨.int32, true⟩
  | float _ => some ⟨.float32, true⟩
  | tensor value => some value.numberType
  | _ => Option.none

mutual

/-- The types of all elements of nested lists. -/
def leafTypes? : Value → Option (List NumberType)
  | list items => allLeafTypes? items
  | tuple items => allLeafTypes? items
  | value => value.leafType?.map fun type => [type]

def allLeafTypes? : List Value → Option (List NumberType)
  | [] => some []
  | item :: rest => do
      let first ← leafTypes? item
      let others ← allLeafTypes? rest
      return first ++ others

end

/-- An element brought to a type. -/
def leafTensor (type : ElementType) : Value → Except Fault Tensor
  | int value =>
      if type = .float32 then
        let number := Float.ofInt value
        if number.isFinite then .ok (Tensor.ofFloat32 number.toFloat32 false)
        else .error .overflow
      else (toTensor (int value)).map fun found => found.cast ⟨type, false⟩
  | value => value.toTensor.map fun found => found.cast ⟨type, false⟩

mutual

/-- Nested lists as a tensor of one element type. -/
def nestedTensor (type : ElementType) : Value → Except Fault Tensor
  | list items => do
      let parts ← nestedTensors type items
      (Tensor.stack parts).map fun found => found.cast ⟨type, false⟩
  | tuple items => do
      let parts ← nestedTensors type items
      (Tensor.stack parts).map fun found => found.cast ⟨type, false⟩
  | value => leafTensor type value

def nestedTensors (type : ElementType) : List Value → Except Fault (List Tensor)
  | [] => .ok []
  | item :: rest => do
      let first ← nestedTensor type item
      let others ← nestedTensors type rest
      return first :: others

end

/-- Whether the value is a list or a tuple. -/
def isSequence : Value → Bool
  | list _ => true
  | tuple _ => true
  | _ => false

/-- The tensor of a number, a tensor or a list of numbers.  A list without any
number is of floating-point type. -/
def asTensor (value : Value) : Except Fault Tensor :=
  if value.holdsNull then .error .badValue
  else if value.isSequence then
    match value.leafTypes? with
    | none => .error .wrongType
    | some [] => nestedTensor .float32 value
    | some (first :: rest) => nestedTensor (rest.foldl NumberType.promote first).element value
  else value.toTensor

/-- The whole number that selects an element: a number, a truth value or a whole
tensor without axes. -/
def asIndex? : Value → Option Int
  | tensor ⟨[], .int32 [value], _⟩ => some value.toInt
  | value => value.asWhole?

/-- The extent of an axis that a value gives. -/
def toExtent : Value → Except Fault Int
  | bool value => .ok (if value then 1 else 0)
  | int value => .ok value
  | float value => truncate value
  | text value =>
      match Text.readInt? value with
      | some number => .ok number
      | none => .error .badValue
  | tensor ⟨[], .bool [value], _⟩ => .ok (if value then 1 else 0)
  | tensor ⟨[], .int32 [value], _⟩ => .ok value.toInt
  | tensor ⟨[], .float32 [value], _⟩ => truncate value.toFloat
  | _ => .error .wrongType

end Value

end FlowGraph

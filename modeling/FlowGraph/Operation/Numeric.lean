import FlowGraph.Operation.Operand
import FlowGraph.Tensor.Arithmetic
import FlowGraph.Tensor.Selection

/-!
# Numeric operations

Operations take a list of values and give one value.  The ones here work on
tensors: arithmetic, comparison, reduction, construction and concatenation.
-/

namespace FlowGraph

/-- What is done with the operands of a call. -/
abbrev Operation := List Value → Except Fault Value

namespace Operation

/-- An operation on one tensor. -/
def unary (apply : Tensor → Except Fault Tensor) : Operation
  | [operand] => do
      let tensors ← Value.toTensors [operand]
      match tensors with
      | [tensor] => return .tensor (← apply tensor)
      | _ => .error .wrongType
  | _ => .error .wrongType

/-- An operation on two tensors, with the way to read the operands. -/
def binaryOf (read : List Value → Except Fault (List Tensor))
    (apply : Tensor → Tensor → Except Fault Tensor) : Operation
  | [left, right] => do
      let tensors ← read [left, right]
      match tensors with
      | [left, right] => return .tensor (← apply left right)
      | _ => .error .wrongType
  | _ => .error .wrongType

/-- An operation on two tensors. -/
def binary : (Tensor → Tensor → Except Fault Tensor) → Operation :=
  binaryOf Value.toTensors

/-- An operation on two tensors that looks at the operands before their items. -/
def plainBinary : (Tensor → Tensor → Except Fault Tensor) → Operation :=
  binaryOf Value.plainTensors

/-- An operation on any number of operands: from the left by an operation on
two, with a rule of its own for a single operand. -/
def nary (combine : Value → Value → Except Fault Value) (single : Value → Except Fault Value) :
    Operation
  | [] => .error .noOperand
  | [operand] => single operand
  | first :: rest => rest.foldlM combine first

/-- An operation on two operands as a step of an operation on many. -/
def step (operation : Operation) (left right : Value) : Except Fault Value :=
  operation [left, right]

def sumOfTwo : Operation :=
  plainBinary (Tensor.combine Tensor.addRule)

def difference : Operation :=
  plainBinary (Tensor.combine Tensor.subtractRule)

def product : Operation :=
  plainBinary Tensor.multiply

def quotient : Operation :=
  binary Tensor.divide

def lesser : Operation :=
  binary (Tensor.combine Tensor.minimumRule)

def greater : Operation :=
  binary (Tensor.combine Tensor.maximumRule)

/-- A single operand as a tensor. -/
def single (operand : Value) : Except Fault Value :=
  operand.asTensor.map Value.tensor

def addition : Operation :=
  nary (step sumOfTwo) single

def multiplication : Operation :=
  nary (step product) single

def sum : Operation :=
  nary (step sumOfTwo) fun operand => unary (fun tensor => .ok tensor.total) [operand]

def minimum : Operation :=
  nary (step lesser) fun operand =>
    unary (Tensor.extreme Tensor.minimumRule) [operand]

def maximum : Operation :=
  nary (step greater) fun operand =>
    unary (Tensor.extreme Tensor.maximumRule) [operand]

/-- Change of sign, or difference. -/
def minus : Operation
  | [operand] => unary Tensor.negate [operand]
  | [left, right] => difference [left, right]
  | operands => .error (.minusArity operands.length)

/-- Powers.  A single whole exponent is applied by repeated multiplication. -/
def power : Operation
  | [base, exponent] =>
      if base.isPlain && exponent.isPlain then
        match exponent.asIndex? with
        | some whole => do
            let tensor ← base.toTensor
            return .tensor (← tensor.wholePower whole)
        | none => binary Tensor.power [base, exponent]
      else
        .error .wrongType
  | _ => .error .wrongType

/-- The rank of a value when it is read as a tensor. -/
def hasAxes : Value → Bool
  | .tensor value => !value.isScalar
  | value => value.isSequence

/-- No axis is as long as this. -/
def extentLimit : Int := 9223372036854775808

/-- No tensor has as many elements as this. -/
def sizeLimit : Nat := 2147483648

/-- A tensor of the given extents. -/
def filledShape (one : Bool) (extents : List Int) : Except Fault Value :=
  let shape := extents.map Int.toNat
  if extents.any fun extent => extent < 0 || extentLimit ≤ extent then .error .wrongType
  else if sizeLimit ≤ positionCount shape then .error .outOfMemory
  else .ok (.tensor (Tensor.filled shape .float32 one false))

/-- Zeros or ones: like a single operand that has axes, else of the given
extents. -/
def filled (one : Bool) : Operation
  | [operand] =>
      if hasAxes operand then do
        let tensor ← operand.asTensor
        return .tensor (Tensor.filled tensor.shape tensor.type one tensor.weak)
      else do
        filledShape one [← operand.toExtent]
  | operands => do
      filledShape one (← operands.mapM Value.toExtent)

/-- Concatenation along the first axis. -/
def concatenation : Operation := fun operands => do
  let tensors ← operands.mapM Value.asTensor
  return .tensor (← Tensor.concatenate (tensors.map Tensor.atLeastOneAxis))

/-- An axis by its number, negative ones counting from the last. -/
def axisNumber (rank : Nat) (written : Value) : Except Fault Nat :=
  match written.asIndex? with
  | some axis =>
      if -rank ≤ axis ∧ axis < rank then
        .ok (if axis < 0 then axis + rank else axis).toNat
      else .error .badValue
  | none => .error .wrongType

/-- The order of axes that a value gives. -/
def axisOrder (rank : Nat) : Value → Except Fault (List Nat)
  | .null => .ok (List.range rank).reverse
  | .text "" => if rank = 0 then .ok [] else .error .wrongType
  | .tuple axes => do
      let order ← axes.mapM (axisNumber rank)
      if order.isPerm (List.range rank) then return order else .error .wrongType
  | _ => .error .wrongType

/-- The axes in another order; reversed, if none is given. -/
def transposition : Operation
  | [operand, axes] =>
      if axes.isHashable then
        unary (fun tensor => do return tensor.permute (← axisOrder tensor.rank axes)) [operand]
      else .error .badValue
  | operands => unary (fun tensor => .ok tensor.transpose) operands

def comparison (rule : Tensor.Comparison) : Operation :=
  binary (Tensor.compare rule)

/-- A floating-point function on every element. -/
def floating (function : Float32 → Float32) : Operation :=
  unary fun tensor => .ok (tensor.mapFloating function)

end Operation

end FlowGraph

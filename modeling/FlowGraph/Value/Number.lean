import FlowGraph.Fault
import FlowGraph.Tensor.Promotion
import FlowGraph.Value.Basic

/-!
# Numbers among the values

Plain numbers and tensors are numeric.  A plain number becomes a tensor without
axes that is weak, a truth value one that is not.
-/

namespace FlowGraph

namespace Value

/-- The whole number that a value is; truth values are one and zero. -/
def asWhole? : Value → Option Int
  | bool value => some (if value then 1 else 0)
  | int value => some value
  | _ => Option.none

/-- The text that a value is. -/
def asText? : Value → Option String
  | text value => some value
  | _ => Option.none

/-- Whether the value is a number or a tensor. -/
def isNumeric : Value → Bool
  | bool _ => true
  | int _ => true
  | float _ => true
  | tensor _ => true
  | _ => false

/-- The tensor of a number or a tensor. -/
def toTensor : Value → Except Fault Tensor
  | bool value => .ok (Tensor.ofBool value false)
  | int value =>
      if fitsInt32 value then .ok (Tensor.ofInt32 (Int32.ofInt value) true)
      else .error .overflow
  | float value => .ok (Tensor.ofFloat32 value.toFloat32 true)
  | tensor value => .ok value
  | _ => .error .wrongType

end Value

end FlowGraph

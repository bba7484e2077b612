import FlowGraph.Fault
import FlowGraph.Tensor.Promotion

/-!
# Stacking and concatenation

Joining tensors along an existing first axis, or along a new one.
-/

namespace FlowGraph.Tensor

/-- A tensor with at least one axis. -/
def atLeastOneAxis (tensor : Tensor) : Tensor :=
  if tensor.isScalar then { tensor with shape := [1] } else tensor

/-- Elements of one type, one list after the other. -/
def joinElements (type : ElementType) (parts : List Elements) : Elements :=
  match type with
  | .bool => .bool (parts.flatMap Elements.asBool)
  | .int32 => .int32 (parts.flatMap Elements.asInt32)
  | .float32 => .float32 (parts.flatMap Elements.asFloat32)

/-- The promoted type of the tensors after the first. -/
def promoteAll (first : NumberType) (rest : List Tensor) : NumberType :=
  rest.foldl (fun type tensor => type.promote tensor.numberType) first

/-- Whether two tensors differ in their first extent only. -/
def agreesBehindFirst (left right : Tensor) : Bool :=
  left.rank == right.rank && left.shape.drop 1 == right.shape.drop 1

/-- Join tensors along their first axis.  There must be one at least, and all
other extents must agree. -/
def concatenate : List Tensor → Except Fault Tensor
  | [] => .error .badValue
  | first :: rest =>
      if rest.all fun tensor => agreesBehindFirst first tensor then
        let type := promoteAll first.numberType rest
        let extent := (first :: rest).foldl (fun total tensor => total + tensor.shape.headD 0) 0
        .ok ⟨extent :: first.shape.drop 1,
          joinElements type.element ((first :: rest).map Tensor.elements), type.weak⟩
      else
        .error .wrongType

/-- Stack tensors of one shape along a new first axis. -/
def stack (tensors : List Tensor) : Except Fault Tensor :=
  match tensors with
  | [] => .ok ⟨[0], .float32 [], false⟩
  | first :: rest =>
      if rest.all fun tensor => tensor.shape == first.shape then
        let type := promoteAll first.numberType rest
        .ok ⟨tensors.length :: first.shape,
          joinElements type.element (tensors.map Tensor.elements), false⟩
      else
        .error .badValue

end FlowGraph.Tensor

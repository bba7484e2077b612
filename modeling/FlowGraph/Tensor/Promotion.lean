import FlowGraph.Tensor.Basic

/-!
# Promotion of element types

Operands of an operation are brought to the larger of their types, in the order
`bool`, weak `int32`, `int32`, weak `float32`, `float32`.  A weak `bool` counts
as `bool`.
-/

namespace FlowGraph

/-- An element type together with its weakness. -/
structure NumberType where
  element : ElementType
  weak : Bool
deriving DecidableEq, Repr

namespace NumberType

/-- The place of a type in the order of promotion. -/
def level : NumberType → Nat
  | ⟨.bool, _⟩ => 0
  | ⟨.int32, true⟩ => 1
  | ⟨.int32, false⟩ => 2
  | ⟨.float32, true⟩ => 3
  | ⟨.float32, false⟩ => 4

/-- A truth value is never weak after promotion. -/
def settled : NumberType → NumberType
  | ⟨.bool, _⟩ => ⟨.bool, false⟩
  | type => type

/-- The larger of two types. -/
def promote (left right : NumberType) : NumberType :=
  if left.level < right.level then right.settled else left.settled

/-- The type in which truth values are counted. -/
def counted : NumberType → NumberType
  | ⟨.bool, _⟩ => ⟨.int32, false⟩
  | type => type

/-- The floating-point type that takes the place of a type. -/
def floating : NumberType → NumberType
  | ⟨.bool, _⟩ => ⟨.float32, false⟩
  | ⟨_, weak⟩ => ⟨.float32, weak⟩

end NumberType

/-- Whether a whole number fits into 32 bits. -/
def fitsInt32 (number : Int) : Bool :=
  -2147483648 ≤ number && number ≤ 2147483647

/-- A truth value as a whole number. -/
def truthInt32 (value : Bool) : Int32 :=
  if value then 1 else 0

/-- A truth value as a floating-point number. -/
def truthFloat32 (value : Bool) : Float32 :=
  if value then 1 else 0

namespace Elements

/-- The elements as truth values: all but zero are true. -/
def asBool : Elements → List Bool
  | bool items => items
  | int32 items => items.map (· != 0)
  | float32 items => items.map (· != 0)

/-- The elements as whole numbers, fractions being cut. -/
def asInt32 : Elements → List Int32
  | bool items => items.map truthInt32
  | int32 items => items
  | float32 items => items.map Float32.toInt32

/-- The elements as floating-point numbers. -/
def asFloat32 : Elements → List Float32
  | bool items => items.map truthFloat32
  | int32 items => items.map Int32.toFloat32
  | float32 items => items

def cast (elements : Elements) : ElementType → Elements
  | .bool => bool elements.asBool
  | .int32 => int32 elements.asInt32
  | .float32 => float32 elements.asFloat32

end Elements

namespace Tensor

def numberType (tensor : Tensor) : NumberType :=
  ⟨tensor.type, tensor.weak⟩

def cast (tensor : Tensor) (type : NumberType) : Tensor :=
  { tensor with elements := tensor.elements.cast type.element, weak := type.weak }

end Tensor

/-- The extents of two shapes brought together, written from the last axis to
the first.  An extent of one fits every other. -/
def alignExtents? : List Nat → List Nat → Option (List Nat)
  | [], shape => some shape
  | shape, [] => some shape
  | left :: lefts, right :: rights => do
      let rest ← alignExtents? lefts rights
      if left = right ∨ right = 1 then some (left :: rest)
      else if left = 1 then some (right :: rest)
      else none

/-- The common shape of two operands. -/
def commonShape? (left right : List Nat) : Option (List Nat) :=
  (alignExtents? left.reverse right.reverse).map List.reverse

/-- Repeat items along the axes in which a shape is stretched.  Both shapes have
the same number of axes. -/
def stretch {α : Type} : List Nat → List Nat → List α → List α
  | extent :: source, wanted :: target, items =>
      let parts := (pieces (positionCount source) extent items).map (stretch source target)
      if extent = wanted then parts.flatten
      else (List.replicate wanted parts.flatten).flatten
  | _, _, items => items

/-- Stretch a tensor to a shape that it fits. -/
def Tensor.stretchTo (tensor : Tensor) (shape : List Nat) : Tensor :=
  let padded := List.replicate (shape.length - tensor.rank) 1 ++ tensor.shape
  if positionCount shape = 0 then
    { tensor with shape := shape, elements := tensor.elements.rearrange fun _ => [] }
  else
    { tensor with shape := shape, elements := tensor.elements.rearrange (stretch padded shape) }

end FlowGraph

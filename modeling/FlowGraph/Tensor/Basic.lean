/-!
# Tensors

A tensor is a rectangular block of elements of one type, stored row by row.  A
weak tensor comes from a plain number and gives way to the type of its partner
in arithmetic.
-/

namespace FlowGraph

/-- The types of tensor elements. -/
inductive ElementType where
  | bool
  | int32
  | float32
deriving DecidableEq, Repr

/-- The written name of an element type. -/
def ElementType.name : ElementType → String
  | .bool => "bool"
  | .int32 => "int32"
  | .float32 => "float32"

/-- The elements of a tensor, row by row. -/
inductive Elements where
  | bool (items : List Bool)
  | int32 (items : List Int32)
  | float32 (items : List Float32)
deriving DecidableEq

namespace Elements

def type : Elements → ElementType
  | bool _ => .bool
  | int32 _ => .int32
  | float32 _ => .float32

/-- Rearrange the elements by a rule that does not look at them. -/
def rearrange (rule : {α : Type} → List α → List α) : Elements → Elements
  | bool items => bool (rule items)
  | int32 items => int32 (rule items)
  | float32 items => float32 (rule items)

end Elements

/-- A block of elements with its extents. -/
structure Tensor where
  shape : List Nat
  elements : Elements
  /-- The tensor gives way to the type of its partner. -/
  weak : Bool
deriving DecidableEq

/-- The number of positions of a shape. -/
def positionCount (shape : List Nat) : Nat :=
  shape.foldr (· * ·) 1

/-- Cut a list into a number of pieces of one length. -/
def pieces {α : Type} (length : Nat) : Nat → List α → List (List α)
  | 0, _ => []
  | count + 1, items => items.take length :: pieces length count (items.drop length)

namespace Tensor

def type (tensor : Tensor) : ElementType :=
  tensor.elements.type

def rank (tensor : Tensor) : Nat :=
  tensor.shape.length

def size (tensor : Tensor) : Nat :=
  positionCount tensor.shape

def isScalar (tensor : Tensor) : Bool :=
  tensor.shape.isEmpty

/-- A tensor without axes. -/
def ofBool (value weak : Bool) : Tensor :=
  ⟨[], .bool [value], weak⟩

/-- A tensor without axes. -/
def ofInt32 (value : Int32) (weak : Bool) : Tensor :=
  ⟨[], .int32 [value], weak⟩

/-- A tensor without axes. -/
def ofFloat32 (value : Float32) (weak : Bool) : Tensor :=
  ⟨[], .float32 [value], weak⟩

/-- A tensor of one repeated element of the given type: zero or one. -/
def filled (shape : List Nat) (type : ElementType) (one weak : Bool) : Tensor :=
  let count := positionCount shape
  let elements :=
    match type with
    | .bool => Elements.bool (List.replicate count one)
    | .int32 => Elements.int32 (List.replicate count (if one then 1 else 0))
    | .float32 => Elements.float32 (List.replicate count (if one then 1 else 0))
  ⟨shape, elements, weak⟩

end Tensor

end FlowGraph

import FlowGraph.Fault
import FlowGraph.Slice
import FlowGraph.Tensor.Promotion

/-!
# Selection from a tensor

Selectors are applied to the axes in order: a position drops its axis, a slice
keeps it, and a new axis takes none.  Lists of positions and masks of truth
values take several positions at once; all positions of one selection are
stretched to a common shape and walk together.  A position outside its axis is
moved to the nearer end.  Changing the order of the axes is a selection too.
-/

namespace FlowGraph

/-- What is taken from the axes of a tensor. -/
inductive Selector where
  | position (index : Int)
  | positions (shape : List Nat) (indices : List Int)
  /-- A slice that could not be read is a fault when its axis is reached. -/
  | slice (slice : Except Fault Slice)
  | newAxis
  /-- An axis of one or of no position. -/
  | flag (value : Bool)
  /-- The positions of several axes at which a truth value stands. -/
  | mask (shape : List Nat) (flags : List Bool)

namespace Selector

/-- The number of axes that a selector takes. -/
def axisCount : Selector → Nat
  | newAxis => 0
  | flag _ => 0
  | mask shape _ => shape.length
  | _ => 1

/-- An axis as it is. -/
def whole : Selector :=
  slice (.ok ⟨none, none, 1⟩)

/-- Whether a selector names positions. -/
def picks : Selector → Bool
  | position _ => true
  | positions _ _ => true
  | _ => false

/-- Whether a selector names several positions. -/
def picksMany : Selector → Bool
  | positions _ _ => true
  | _ => false

end Selector

/-- The nearest position inside an axis, negative ones counting from the end. -/
def nearestPosition (extent : Nat) (index : Int) : Nat :=
  let settled := if index < 0 then index + extent else index
  (Slice.clamp 0 (extent - 1) settled).toNat

/-- The coordinates of a place, given by its number in a block. -/
def coordinates : List Nat → Nat → List Nat
  | [], _ => []
  | _ :: shape, place =>
      let length := positionCount shape
      place / length :: coordinates shape (place % length)

/-- The places in a block at which a truth value stands. -/
def truePlaces (shape : List Nat) (flags : List Bool) : List (List Nat) :=
  (flags.zipIdx.filter fun (value, _) => value).map fun (_, place) => coordinates shape place

/-- A mask as lists of positions, one for each of its axes. -/
def maskPositions (shape : List Nat) (flags : List Bool) : List Selector :=
  let places := truePlaces shape flags
  (List.range shape.length).map fun axis =>
    .positions [places.length] (places.map fun place => ((place.getD axis 0 : Nat) : Int))

/-- Whether a mask fits the axes that it takes: an axis of the mask is as long
as that of the tensor, or empty. -/
def fitsMask : List Nat → List Nat → Bool
  | [], _ => true
  | extent :: mask, found :: shape => (extent = 0 || extent = found) && fitsMask mask shape
  | _ :: _, [] => false

/-- Selectors without masks, and with a selector for every axis. -/
def unmask : List Selector → List Nat → Except Fault (List Selector)
  | [], shape => .ok (shape.map fun _ => Selector.whole)
  | .mask mask flags :: rest, shape => do
      if fitsMask mask shape then
        return maskPositions mask flags ++ (← unmask rest (shape.drop mask.length))
      else .error .outOfRange
  | selector :: rest, shape => do
      return selector :: (← unmask rest (shape.drop selector.axisCount))

/-- Put an axis of one position in front of the axis of the given number. -/
def insertAxis (shape : List Nat) (axis : Nat) : List Nat :=
  shape.take axis ++ 1 :: shape.drop axis

/-- Turn truth values into positions of axes of their own.  The new axis has the
number that the truth value has among the selectors. -/
def unflag (place : Nat) (shape : List Nat) :
    List Selector → Except Fault (List Selector × List Nat)
  | [] => .ok ([], shape)
  | .flag value :: rest =>
      if shape.length < place then .error .badValue
      else do
        let (selectors, shape) ← unflag (place + 1) (insertAxis shape place) rest
        return (.positions [value.toNat] (List.replicate value.toNat 0) :: selectors, shape)
  | selector :: rest => do
      let (selectors, shape) ← unflag (place + 1) shape rest
      return (selector :: selectors, shape)

/-- A selector and the axis that it takes: its extent, and how far apart its
positions are. -/
structure Taken where
  selector : Selector
  extent : Nat
  stride : Nat

/-- Give every selector its axis. -/
def takeAxes : List Selector → List Nat → List Taken
  | [], _ => []
  | .newAxis :: rest, shape => ⟨.newAxis, 1, 0⟩ :: takeAxes rest shape
  | selector :: rest, extent :: shape =>
      ⟨selector, extent, positionCount shape⟩ :: takeAxes rest shape
  | _ :: _, [] => []

/-- Some axes of the result: their extents, and how far each of their places is
from the first element. -/
structure Part where
  shape : List Nat
  offset : Nat → Nat

/-- The distances of all places of a result, the last axis being walked first. -/
def offsets : List Part → List Nat
  | [] => [0]
  | part :: rest =>
      let inner := offsets rest
      (List.range (positionCount part.shape)).flatMap fun place =>
        inner.map (part.offset place + ·)

/-- The elements at the places of a result; type and weakness stay. -/
def Tensor.takeParts (tensor : Tensor) (parts : List Part) : Tensor :=
  let shape := parts.flatMap Part.shape
  let places := if positionCount shape = 0 then [] else offsets parts
  { tensor with
    shape := shape
    elements := tensor.elements.rearrange fun items =>
      let table := items.toArray
      places.filterMap fun place => table[place]? }

/-- The shape and the positions that a selector names. -/
def Taken.indices? : Taken → Option (List Nat × List Int)
  | ⟨.position index, _, _⟩ => some ([], [index])
  | ⟨.positions shape indices, _, _⟩ => some (shape, indices)
  | _ => none

/-- Check the positions of a selection in which none is a list. -/
def checkPosition : Taken → Except Fault Unit
  | ⟨.position index, extent, _⟩ =>
      if extent = 0 then .error .outOfRange
      else if fitsInt32 index then .ok ()
      else .error .overflow
  | ⟨.slice (.error fault), _, _⟩ => .error fault
  | _ => .ok ()

/-- Check that a single position fits into 32 bits. -/
def checkIndex : Taken → Except Fault Unit
  | ⟨.position index, _, _⟩ => if fitsInt32 index then .ok () else .error .overflow
  | _ => .ok ()

/-- Check that a slice could be read. -/
def checkSlice : Taken → Except Fault Unit
  | ⟨.slice (.error fault), _, _⟩ => .error fault
  | _ => .ok ()

/-- The distances that the positions of one selector add, in a common shape. -/
def Taken.distances (taken : Taken) (shape : List Nat) : List Nat :=
  match taken.indices? with
  | some (found, indices) =>
      let padded := List.replicate (shape.length - found.length) 1 ++ found
      (stretch padded shape indices).map fun index =>
        nearestPosition taken.extent index * taken.stride
  | none => []

/-- The part of the result that all positions make together. -/
def pickedPart (shape : List Nat) (picked : List Taken) : Part :=
  let start := List.replicate (positionCount shape) 0
  let sums := picked.foldl (fun sums taken =>
    List.zipWith (· + ·) sums (taken.distances shape)) start
  let table := sums.toArray
  ⟨shape, fun place => table.getD place 0⟩

/-- The part of the result that a selector without positions makes. -/
def Taken.part? : Taken → Option Part
  | ⟨.newAxis, _, _⟩ => some ⟨[1], fun _ => 0⟩
  | ⟨.slice (.ok slice), extent, stride⟩ =>
      some ⟨[slice.count extent], fun place => slice.position extent place * stride⟩
  | _ => none

/-- Whether the selectors that name positions stand next to each other. -/
def isContiguous (taken : List Taken) : Bool :=
  let behind := taken.dropWhile fun found => !found.selector.picks
  !(behind.dropWhile fun found => found.selector.picks).any fun found => found.selector.picks

/-- The parts of the result in order.  What the positions make stands where they
stand, or in front when they stand apart. -/
def resultParts (taken : List Taken) (picked : Part) : List Part :=
  if isContiguous taken then
    (taken.takeWhile fun found => !found.selector.picks).filterMap Taken.part? ++
      picked :: (taken.dropWhile fun found => !found.selector.picks).filterMap Taken.part?
  else picked :: taken.filterMap Taken.part?

/-- Check the selectors of a selection, and find the common shape of the
positions. -/
def pickedShape (taken : List Taken) : Except Fault (List Nat) := do
  if taken.any fun found => found.selector.picksMany then
    taken.forM checkIndex
    let shapes := taken.filterMap fun found => found.indices?.map Prod.fst
    match shapes.foldlM commonShape? [] with
    | some shape =>
        taken.forM checkSlice
        return shape
    | none => .error .badValue
  else
    taken.forM checkPosition
    return []

/-- Take what the selectors say; type and weakness stay. -/
def Tensor.select (tensor : Tensor) (selectors : List Selector) : Except Fault Tensor := do
  if tensor.rank < (selectors.map Selector.axisCount).foldl (· + ·) 0 then .error .outOfRange
  else
    let unmasked ← unmask selectors tensor.shape
    let (plain, extents) ← unflag 0 tensor.shape unmasked
    let taken := takeAxes plain extents
    let shape ← pickedShape taken
    let picked := taken.filter fun found => found.selector.picks
    let parts := resultParts taken (pickedPart shape picked)
    if positionCount (parts.flatMap Part.shape) ≠ 0 ∧ picked.any fun found => found.extent = 0 then
      .error .wrongType
    else return tensor.takeParts parts

/-- How far apart the positions of each axis are. -/
def strides : List Nat → List Nat
  | [] => []
  | _ :: shape => positionCount shape :: strides shape

/-- Put the axes into another order, which names each of them once. -/
def Tensor.permute (tensor : Tensor) (order : List Nat) : Tensor :=
  let axes := tensor.shape.zip (strides tensor.shape)
  tensor.takeParts (order.filterMap fun axis =>
    axes[axis]?.map fun (extent, stride) => ⟨[extent], fun place => place * stride⟩)

/-- Reverse the axes. -/
def Tensor.transpose (tensor : Tensor) : Tensor :=
  tensor.permute (List.range tensor.rank).reverse

end FlowGraph

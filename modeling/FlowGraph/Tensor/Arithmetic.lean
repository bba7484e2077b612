import FlowGraph.Fault
import FlowGraph.Tensor.Promotion

/-!
# Tensor arithmetic

Operations on one or two tensors, element by element, after promotion of the
element types and stretching to a common shape.  Whole numbers wrap around at 32
bits and floating-point numbers are rounded to single precision.  A number too
small for full precision counts as a zero of its sign, as an operand and as a
result.
-/

namespace FlowGraph.Tensor

/-- Bring two tensors to one type and one shape. -/
def align (left right : Tensor) : Except Fault (NumberType × Tensor × Tensor) :=
  let type := left.numberType.promote right.numberType
  match commonShape? left.shape right.shape with
  | some shape => .ok (type, (left.cast type).stretchTo shape, (right.cast type).stretchTo shape)
  | none => .error (if left.rank = right.rank then .wrongType else .badValue)

/-- The smallest positive number of full precision. -/
def smallestNormal : Float32 :=
  Float32.ofBits 0x00800000

/-- A number of full precision, or a zero of the same sign. -/
def flush (number : Float32) : Float32 :=
  if number.abs < smallestNormal then
    if number.toBits < 0x80000000 then 0.0 else -0.0
  else number

/-- A function on numbers of full precision. -/
def flushed (function : Float32 → Float32) (number : Float32) : Float32 :=
  flush (function (flush number))

/-- A function of two numbers of full precision. -/
def flushedBoth (function : Float32 → Float32 → Float32) (left right : Float32) : Float32 :=
  flush (function (flush left) (flush right))

def sumOf : Float32 → Float32 → Float32 :=
  flushedBoth (· + ·)

def productOf : Float32 → Float32 → Float32 :=
  flushedBoth (· * ·)

def quotientOf : Float32 → Float32 → Float32 :=
  flushedBoth (· / ·)

/-- A rule of arithmetic for each element type; not every rule is defined on
truth values. -/
structure BinaryRule where
  onBool : Option (Bool → Bool → Bool)
  onInt32 : Int32 → Int32 → Int32
  onFloat32 : Float32 → Float32 → Float32

/-- Apply a rule to two tensors. -/
def combine (rule : BinaryRule) (left right : Tensor) : Except Fault Tensor := do
  let (type, left, right) ← align left right
  match type.element with
  | .bool =>
      match rule.onBool with
      | some onBool =>
          .ok ⟨left.shape, .bool (List.zipWith onBool left.elements.asBool right.elements.asBool),
            type.weak⟩
      | none => .error .wrongType
  | .int32 =>
      .ok ⟨left.shape,
        .int32 (List.zipWith rule.onInt32 left.elements.asInt32 right.elements.asInt32), type.weak⟩
  | .float32 =>
      .ok ⟨left.shape,
        .float32 (List.zipWith rule.onFloat32 left.elements.asFloat32 right.elements.asFloat32),
        type.weak⟩

/-- The smaller number; a result that is not a number wins, and the negative
zero is the smaller one. -/
def lesserFloat (left right : Float32) : Float32 :=
  if left.isNaN then left
  else if right.isNaN then right
  else if left < right then left
  else if right < left then right
  else if left.toBits ≥ right.toBits then left else right

/-- The larger number; a result that is not a number wins, and the positive
zero is the larger one. -/
def greaterFloat (left right : Float32) : Float32 :=
  if left.isNaN then left
  else if right.isNaN then right
  else if left < right then right
  else if right < left then left
  else if left.toBits ≤ right.toBits then left else right

def lesserInt (left right : Int32) : Int32 :=
  if left ≤ right then left else right

def greaterInt (left right : Int32) : Int32 :=
  if left ≤ right then right else left

def addRule : BinaryRule := ⟨some (· || ·), (· + ·), sumOf⟩

def subtractRule : BinaryRule := ⟨none, (· - ·), flushedBoth (· - ·)⟩

def multiplyRule : BinaryRule := ⟨some (· && ·), (· * ·), productOf⟩

def minimumRule : BinaryRule := ⟨some (· && ·), lesserInt, flushedBoth lesserFloat⟩

def maximumRule : BinaryRule := ⟨some (· || ·), greaterInt, flushedBoth greaterFloat⟩

/-- Keep the number where the condition holds, and put zero elsewhere. -/
def keepWhere (condition : Bool) (number : Float32) : Float32 :=
  if condition then number else 0

/-- The conditions that a factor states: a factor of truth values that is not
stretched chooses from the other factor, and is not multiplied. -/
def conditions? (factor : Tensor) (shape : List Nat) : Option (List Bool) :=
  match factor.elements with
  | .bool items => if factor.shape = shape then some items else none
  | _ => none

/-- Products.  A factor of truth values chooses from floating-point numbers. -/
def multiply (left right : Tensor) : Except Fault Tensor := do
  let product ← combine multiplyRule left right
  let (_, alignedLeft, alignedRight) ← align left right
  match product.elements, left.conditions? product.shape, right.conditions? product.shape with
  | .float32 _, some conditions, _ =>
      return { product with
        elements := .float32 (List.zipWith keepWhere conditions alignedRight.elements.asFloat32) }
  | .float32 _, _, some conditions =>
      return { product with
        elements := .float32 (List.zipWith keepWhere conditions alignedLeft.elements.asFloat32) }
  | _, _, _ => return product

/-- Division always gives floating-point numbers.  A divisor that is stretched to
more elements is inverted first and then multiplied with. -/
def divide (left right : Tensor) : Except Fault Tensor := do
  let (type, alignedLeft, alignedRight) ← align left right
  let shape := alignedLeft.shape
  let dividends := alignedLeft.elements.asFloat32
  let divisors := alignedRight.elements.asFloat32
  let quotients :=
    if right.size < positionCount shape then
      let inverses := divisors.map (quotientOf 1)
      match left.conditions? shape with
      | some conditions => List.zipWith keepWhere conditions inverses
      | none => List.zipWith productOf dividends inverses
    else List.zipWith quotientOf dividends divisors
  return ⟨shape, .float32 quotients, type.floating.weak⟩

/-- A comparison for each element type. -/
structure Comparison where
  onInt32 : Int32 → Int32 → Bool
  onFloat32 : Float32 → Float32 → Bool

/-- Compare two tensors after promotion; truth values are compared as numbers. -/
def compare (comparison : Comparison) (left right : Tensor) : Except Fault Tensor := do
  let (type, left, right) ← align left right
  let outcomes :=
    match type.element with
    | .float32 =>
        List.zipWith (fun left right => comparison.onFloat32 (flush left) (flush right))
          left.elements.asFloat32 right.elements.asFloat32
    | _ => List.zipWith comparison.onInt32 left.elements.asInt32 right.elements.asInt32
  .ok ⟨left.shape, .bool outcomes, type.weak⟩

/-- The truth of a tensor of one element. -/
def truth (tensor : Tensor) : Except Fault Bool :=
  match tensor.elements.asBool with
  | [value] => .ok value
  | _ => .error .badValue

def lessThan : Comparison := ⟨fun a b => a < b, fun a b => a < b⟩

def greaterThan : Comparison := ⟨fun a b => b < a, fun a b => b < a⟩

def atMost : Comparison := ⟨fun a b => a ≤ b, fun a b => a ≤ b⟩

def atLeast : Comparison := ⟨fun a b => b ≤ a, fun a b => b ≤ a⟩

def equalTo : Comparison := ⟨fun a b => a == b, fun a b => a == b⟩

def differentFrom : Comparison := ⟨fun a b => a != b, fun a b => a != b⟩

/-- A power by repeated squaring, the factors being multiplied from the lowest
bit of the exponent upwards. -/
def powerBySquaring {α : Type} (multiply : α → α → α) (base : α) (product : Option α) :
    Nat → Nat → Option α
  | 0, _ => product
  | fuel + 1, exponent =>
      if exponent = 0 then product
      else
        let product :=
          if exponent % 2 = 1 then
            match product with
            | none => some base
            | some found => some (multiply found base)
          else product
        powerBySquaring multiply (multiply base base) product fuel (exponent / 2)

/-- A power with a natural exponent. -/
def naturalPower {α : Type} (one : α) (multiply : α → α → α) (base : α) (exponent : Nat) : α :=
  (powerBySquaring multiply base none (exponent.log2 + 1) exponent).getD one

/-- Every element raised to one whole power.  Whole numbers have no negative
powers; a negative power of a floating-point number is the reciprocal. -/
def wholePower (base : Tensor) (exponent : Int) : Except Fault Tensor :=
  let base := base.cast base.numberType.counted
  match base.elements with
  | .float32 items =>
      let raised := items.map fun item => naturalPower 1 productOf item exponent.natAbs
      let powers := if exponent < 0 then raised.map (quotientOf 1) else raised
      .ok { base with elements := .float32 powers }
  | elements =>
      if exponent < 0 then .error .wrongType
      else
        let raised := elements.asInt32.map fun item =>
          naturalPower 1 (· * ·) item exponent.natAbs
        .ok { base with elements := .int32 raised }

/-- Whole powers of whole numbers, element by element.  Only the lowest six bits
of an exponent count, and a power of zero is zero unless the exponent is. -/
def boundedPower (base exponent : Int32) : Int32 :=
  if base = 0 ∧ exponent ≠ 0 then 0
  else naturalPower 1 (· * ·) base (exponent.toInt % 64).toNat

/-- The type of powers.  Powers of whole numbers are never weak, and a whole
exponent of a floating-point number must be weak for the power to be. -/
def powerType (base exponent : NumberType) : NumberType :=
  let type := (base.promote exponent).counted
  match base.element, exponent.element with
  | .float32, .int32 => ⟨.float32, base.weak && exponent.weak⟩
  | _, _ => if type.element = .float32 then type else ⟨type.element, false⟩

/-- Powers element by element. -/
def power (base exponent : Tensor) : Except Fault Tensor := do
  let type := powerType base.numberType exponent.numberType
  let (_, base, exponent) ← align base exponent
  match type.element with
  | .float32 =>
      let powers := List.zipWith (flushedBoth Float32.pow) base.elements.asFloat32
        exponent.elements.asFloat32
      return ⟨base.shape, .float32 powers, type.weak⟩
  | _ =>
      let powers := List.zipWith boundedPower base.elements.asInt32 exponent.elements.asInt32
      return ⟨base.shape, .int32 powers, type.weak⟩

/-- The element with its sign changed; truth values have none. -/
def negate (tensor : Tensor) : Except Fault Tensor :=
  match tensor.elements with
  | .bool _ => .error .wrongType
  | .int32 items => .ok { tensor with elements := .int32 (items.map (- ·)) }
  | .float32 items => .ok { tensor with elements := .float32 (items.map (- ·)) }

/-- Apply a floating-point function, whatever the element type. -/
def mapFloating (function : Float32 → Float32) (tensor : Tensor) : Tensor :=
  let tensor := tensor.cast tensor.numberType.floating
  { tensor with elements := .float32 (tensor.elements.asFloat32.map (flushed function)) }

/-- Absolute values; a small number keeps its digits. -/
def magnitude (tensor : Tensor) : Tensor :=
  match tensor.elements with
  | .bool _ => tensor
  | .int32 items =>
      { tensor with elements := .int32 (items.map fun item => if item < 0 then -item else item) }
  | .float32 items => { tensor with elements := .float32 (items.map Float32.abs) }

/-- Apply a rounding function; whole numbers and truth values stay. -/
def roundWith (function : Float32 → Float32) (tensor : Tensor) : Tensor :=
  match tensor.elements with
  | .float32 items => { tensor with elements := .float32 (items.map (flushed function)) }
  | _ => tensor

/-- The sign of a whole number. -/
def signInt (number : Int32) : Int32 :=
  if number < 0 then -1 else if 0 < number then 1 else 0

/-- The sign of a number: zero and what is not a number stay as they are. -/
def signFloat (number : Float32) : Float32 :=
  if number < 0 then -1 else if 0 < number then 1 else number

def sign (tensor : Tensor) : Except Fault Tensor :=
  match tensor.elements with
  | .bool _ => .error .wrongType
  | .int32 items => .ok { tensor with elements := .int32 (items.map signInt) }
  | .float32 items => .ok { tensor with elements := .float32 (items.map (flushed signFloat)) }

/-- Squares; truth values are squared as whole numbers. -/
def square (tensor : Tensor) : Tensor :=
  let tensor := tensor.cast tensor.numberType.counted
  match tensor.elements with
  | .float32 items =>
      { tensor with elements := .float32 (items.map fun item => productOf item item) }
  | elements =>
      { tensor with elements := .int32 (elements.asInt32.map fun item => item * item) }

/-- The sum of all elements; truth values are counted.  A single number is its
own sum, whatever its precision. -/
def total (tensor : Tensor) : Tensor :=
  match tensor.elements with
  | .float32 [item] => ofFloat32 item false
  | .float32 items => ofFloat32 (items.foldl sumOf 0) false
  | elements => ofInt32 (elements.asInt32.foldl (· + ·) 0) false

/-- One element out of all by a rule for two; there must be at least one. -/
def extreme (rule : BinaryRule) (tensor : Tensor) : Except Fault Tensor :=
  match tensor.elements with
  | .bool (first :: rest) =>
      match rule.onBool with
      | some onBool => .ok (ofBool (rest.foldl onBool first) false)
      | none => .error .wrongType
  | .int32 (first :: rest) => .ok (ofInt32 (rest.foldl rule.onInt32 first) false)
  | .float32 (first :: rest) => .ok (ofFloat32 (rest.foldl rule.onFloat32 first) false)
  | _ => .error .badValue

end FlowGraph.Tensor

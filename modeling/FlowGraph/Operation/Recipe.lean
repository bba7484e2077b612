import FlowGraph.Operation.Numeric

/-!
# Stand-in operations

Small operations with exact numbers that can take the place of others: whole
numbers of any size, double-precision numbers, texts and lists.
-/

namespace FlowGraph

namespace Value

/-- A double-precision number, or a whole number that is near one. -/
def toFloat? : Value → Option (Except Fault Float)
  | float value => some (.ok value)
  | value =>
      value.asWhole?.map fun whole =>
        let number := Float.ofInt whole
        if number.isFinite then .ok number else .error .overflow

/-- Arithmetic on plain numbers: whole as long as both are. -/
def numberRule (onWhole : Int → Int → Int) (onFloat : Float → Float → Float) (left right : Value) :
    Except Fault Value :=
  match left.asWhole?, right.asWhole? with
  | some left, some right => .ok (int (onWhole left right))
  | _, _ =>
      match left.toFloat?, right.toFloat? with
      | some left, some right => do
          let left ← left
          let right ← right
          return float (onFloat left right)
      | _, _ => .error .wrongType

/-- Arithmetic in which a tensor takes part. -/
def tensorRule (rule : Tensor → Tensor → Except Fault Tensor) (left right : Value) :
    Except Fault Value := do
  return tensor (← rule (← left.toTensor) (← right.toTensor))

/-- Whether the value is a tensor. -/
def isTensor : Value → Bool
  | tensor _ => true
  | _ => false

/-- The sum of two numbers, or two sequences of one type joined. -/
def plus (left right : Value) : Except Fault Value :=
  if left.isTensor || right.isTensor then tensorRule (Tensor.combine Tensor.addRule) left right
  else
    match left, right with
    | text left, text right => .ok (text (left ++ right))
    | list left, list right => .ok (list (left ++ right))
    | tuple left, tuple right => .ok (tuple (left ++ right))
    | left, right => numberRule (· + ·) (· + ·) left right

/-- The difference of two numbers. -/
def minus (left right : Value) : Except Fault Value :=
  if left.isTensor || right.isTensor then tensorRule (Tensor.combine Tensor.subtractRule) left right
  else numberRule (· - ·) (· - ·) left right

/-- Counts of repetitions, and lengths of texts, are below this in magnitude. -/
def countLimit : Int := 9223372036854775808

/-- A sequence that would be as long as this cannot be held. -/
def lengthLimit : Nat := 8589934592

/-- A list repeated; not at all for a number below one. -/
def repeated {α : Type} (count : Int) (items : List α) : List α :=
  if items.isEmpty then [] else (List.replicate count.toNat items).flatten

/-- Whether a repeated sequence can be held. -/
def holdsRepeated {α : Type} (count : Int) (items : List α) : Bool :=
  items.length * count.toNat < lengthLimit

/-- A sequence repeated a number of times. -/
def repetition (count : Int) (sequence : Value) : Except Fault Value :=
  if count < -countLimit ∨ countLimit ≤ count then .error .overflow
  else
    match sequence with
    | text value =>
        if countLimit ≤ value.length * count then .error .overflow
        else if holdsRepeated count value.toList then
          .ok (text (String.ofList (repeated count value.toList)))
        else .error .outOfMemory
    | list items =>
        if holdsRepeated count items then .ok (list (repeated count items))
        else .error .outOfMemory
    | tuple items =>
        if holdsRepeated count items then .ok (tuple (repeated count items))
        else .error .outOfMemory
    | _ => .error .wrongType

/-- Whether the value can be repeated. -/
def isRepeatable : Value → Bool
  | text _ => true
  | value => value.isSequence

/-- The count that a value gives for the repetition of a sequence.  A tensor
counts for texts only. -/
def countFor? (sequence : Value) : Value → Option Int
  | tensor value =>
      match sequence with
      | text _ => (tensor value).asIndex?
      | _ => none
  | value => value.asWhole?

/-- The product of two numbers, or a sequence repeated. -/
def times (left right : Value) : Except Fault Value :=
  if left.isRepeatable then
    match countFor? left right with
    | some count => repetition count left
    | none => .error .wrongType
  else if right.isRepeatable then
    match countFor? right left with
    | some count => repetition count right
    | none => .error .wrongType
  else if left.isTensor || right.isTensor then tensorRule Tensor.multiply left right
  else numberRule (· * ·) (· * ·) left right

/-- A number with its sign changed. -/
def negated : Value → Except Fault Value
  | float value => .ok (float (-value))
  | tensor value => value.negate.map tensor
  | value =>
      match value.asWhole? with
      | some whole => .ok (int (-whole))
      | none => .error .wrongType

end Value

/-- A stand-in operation. -/
inductive Recipe where
  /-- The same value whatever the operands. -/
  | constant (value : Value)
  | add
  | subtract
  | multiply
  | negate
  /-- The list of the operands. -/
  | collect
  /-- The number of the operands. -/
  | count
  /-- Always a fault. -/
  | fail

/-- Take exactly two operands. -/
def Operation.ofTwo (apply : Value → Value → Except Fault Value) : Operation
  | [left, right] => apply left right
  | _ => .error .wrongType

/-- Take exactly one operand. -/
def Operation.ofOne (apply : Value → Except Fault Value) : Operation
  | [operand] => apply operand
  | _ => .error .wrongType

/-- What a stand-in does. -/
def Recipe.operation : Recipe → Operation
  | .constant value => fun _ => .ok value
  | .add => Operation.ofTwo Value.plus
  | .subtract => Operation.ofTwo Value.minus
  | .multiply => Operation.ofTwo Value.times
  | .negate => Operation.ofOne Value.negated
  | .collect => fun operands => .ok (.list operands)
  | .count => fun operands => .ok (.int operands.length)
  | .fail => fun _ => .error .standIn

end FlowGraph

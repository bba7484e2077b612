import FlowGraph.Decimal.Layout
import FlowGraph.Tensor.Arithmetic
import FlowGraph.Value.Number

/-!
# Equality of values

Numbers are equal when they stand for the same real number, whatever their
types; truth values count as one and zero.  Containers are equal within one type
only, tables whatever their order.  A tensor is compared element by element, and
a comparison that gives more than one answer is a fault.
-/

namespace FlowGraph

/-- The whole number that a double-precision number stands for. -/
def wholeNumber? (number : Float) : Option Int :=
  match Decimal.doubleParts number with
  | .zero _ => some 0
  | .finite negative magnitude =>
      let whole : Int := magnitude.wholePart
      if magnitude.isWhole then some (if negative then -whole else whole) else none
  | _ => none

namespace Value

/-- Whether a tensor equals a value.  A number or a tensor is compared element by
element, which must give one answer; an open container cannot be compared. -/
def equalsTensor (found : Tensor) : Value → Except Fault Bool
  | list _ => .error .wrongType
  | tuple _ => .error .wrongType
  | dict _ => .error .wrongType
  | value =>
      if value.isNumeric then do
        let answers ← Tensor.compare Tensor.equalTo found (← value.toTensor)
        answers.truth
      else .ok false

/-- Whether two plain numbers are equal. -/
def equalsNumber : Value → Value → Bool
  | float left, float right => left == right
  | float left, right => right.asWhole?.any fun whole => wholeNumber? left == some whole
  | left, float right => left.asWhole?.any fun whole => wholeNumber? right == some whole
  | left, right => left.asWhole?.any fun whole => right.asWhole? == some whole

/-- Whether two tables have the same bindings, in any order. -/
def sameBindings (left right : List (NodeId × NodeId)) : Bool :=
  left.length == right.length && left.all fun (inner, outer) => right.lookup inner == some outer

mutual

/-- Whether two values are equal.  Loops and their bodies are equal to themselves only.
Lists of different lengths are not; tuples are
compared item by item as far as both go. -/
def equals : Value → Value → Except Fault Bool
  | tensor left, right => equalsTensor left right
  | left, tensor right => equalsTensor right left
  | null, null => .ok true
  | text left, text right => .ok (left == right)
  | list left, list right =>
      if left.length = right.length then equalsAll left right else .ok false
  | tuple left, tuple right => equalsAll left right
  | dict left, dict right =>
      if left.length = right.length then equalsWithin left right else .ok false
  | record left, record right =>
      if left.length = right.length then equalsWithin left right else .ok false
  | slice start stop step, slice start' stop' step' => do
      if ← equals start start' then
        if ← equals stop stop' then equals step step' else return false
      else return false
  | symbol left, symbol right => .ok (left == right)
  | expr head arguments, expr head' arguments' =>
      if head = head' then equalsAll arguments arguments' else .ok false
  | form tag head arguments, form tag' head' arguments' =>
      if tag = tag' ∧ head = head' then equalsAll arguments arguments' else .ok false
  | loop left, loop right => .ok (left.tag == right.tag)
  | part .bindings left, part .bindings right => .ok (sameBindings left.bindings right.bindings)
  | part .bindings owner, dict entries => .ok (owner.bindings.isEmpty && entries.isEmpty)
  | dict entries, part .bindings owner => .ok (owner.bindings.isEmpty && entries.isEmpty)
  | part kind left, part kind' right => .ok (kind == kind' && left.tag == right.tag)
  | member left _, member right _ => .ok (left == right)
  | left, right => .ok (equalsNumber left right)

/-- Whether two lists are equal item by item. -/
def equalsAll : List Value → List Value → Except Fault Bool
  | [], [] => .ok true
  | left :: lefts, right :: rights => do
      if ← equals left right then equalsAll lefts rights else return false
  | _, _ => .ok false

/-- Whether every entry of the first table is in the second one. -/
def equalsWithin : List (String × Value) → List (String × Value) → Except Fault Bool
  | [], _ => .ok true
  | (key, left) :: rest, table =>
      match table.lookup key with
      | some right => do
          if ← equals left right then equalsWithin rest table else return false
      | none => .ok false

end

mutual

/-- Whether a value can be looked up in a set: containers that may change, and
everything that holds one, cannot. -/
def isHashable : Value → Bool
  | list _ => false
  | dict _ => false
  | record _ => false
  | slice _ _ _ => false
  | tensor _ => false
  | part .bindings _ => false
  | tuple items => areHashable items
  | expr _ arguments => areHashable arguments
  | form _ _ arguments => areHashable arguments
  | _ => true

def areHashable : List Value → Bool
  | [] => true
  | value :: rest => isHashable value && areHashable rest

end

end Value

end FlowGraph

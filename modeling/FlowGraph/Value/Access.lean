import FlowGraph.Graph.Basic
import FlowGraph.Operation.Operand
import FlowGraph.Tensor.Selection
import FlowGraph.Value.Form

/-!
# Elements and fields of values

Sequences are read by position or by slice, tables by key, tensors by selectors and
graphs by number; records, pieces of source code, loops and what belongs to a loop have
fields.  Functions that belong to a value are not among its fields here.
-/

namespace FlowGraph

namespace Value

/-- A bound of a slice; nothing stands for no bound. -/
def bound? : Value → Except Fault (Option Int)
  | null => .ok Option.none
  | value =>
      match value.asIndex? with
      | some index => .ok (some index)
      | none => .error .wrongType

/-- The slice that three values describe.  The step is read first and must not
be zero. -/
def toSlice (start stop step : Value) : Except Fault Slice := do
  let step := (← step.bound?).getD 1
  if step = 0 then .error .badValue
  else return ⟨← start.bound?, ← stop.bound?, step⟩

/-- Read a sequence by position or by slice. -/
def readSequence {α : Type} (items : List α) (whole : List α → Value) (one : α → Value)
    (index : Value) : Except Fault Value :=
  match index with
  | slice start stop step => do
      let found ← toSlice start stop step
      return whole (found.select items)
  | _ =>
      match index.asIndex? with
      | some position =>
          match itemAt? items position with
          | some item => .ok (one item)
          | none => .error .outOfRange
      | none => .error .wrongType

/-- A step of a slice of a tensor is below this in magnitude. -/
def stepLimit : Nat := 9223372036854775808

/-- The slice of an axis that three values describe. -/
def toAxisSlice (start stop step : Value) : Except Fault Slice := do
  let found ← toSlice start stop step
  if found.step.natAbs < stepLimit then return found else .error .wrongType

/-- What a tensor selects from axes. -/
def tensorSelector : Tensor → Except Fault Selector
  | ⟨[], .bool [value], _⟩ => .ok (.flag value)
  | ⟨shape, .bool flags, _⟩ => .ok (.mask shape flags)
  | ⟨[], .int32 [index], _⟩ => .ok (.position index.toInt)
  | ⟨shape, .int32 indices, _⟩ => .ok (.positions shape (indices.map Int32.toInt))
  | ⟨_, .float32 _, _⟩ => .error .wrongType

/-- What a value selects from the axes of a tensor. -/
def toSelector : Value → Except Fault Selector
  | null => .ok .newAxis
  | bool value => .ok (.flag value)
  | int index => .ok (.position index)
  | float _ => .error .wrongType
  | text _ => .error .wrongType
  | slice start stop step => .ok (.slice (toAxisSlice start stop step))
  | tensor found => tensorSelector found
  | list [] => .ok (.positions [0] [])
  | tuple [] => .ok (.positions [0] [])
  | list items => do tensorSelector (← (list items).asTensor)
  | tuple items => do tensorSelector (← (tuple items).asTensor)
  | _ => .error .outOfRange

/-- Read a tensor: a tuple selects from the axes in order. -/
def readTensor (found : Tensor) : Value → Except Fault Value
  | tuple selectors => do
      return tensor (← found.select (← selectors.mapM toSelector))
  | list _ => .error .wrongType
  | selector => do
      return tensor (← found.select [← selector.toSelector])

/-- The number that a value is as a key. -/
def asKey? : Value → Option Int
  | float number => wholeNumber? number
  | value => value.asWhole?

/-- The node of the body of a loop at an index. -/
def bodyElement (owner : Loop) (index : Value) : Except Fault Value :=
  if index.isHashable then
    match index.asKey? with
    | some id => (owner.body.node id).map fun node => part (.node node.id) owner
    | none => .error (.unknownNode index.formatted)
  else .error .wrongType

/-- The source that the bindings of a loop give to a node of its body. -/
def boundElement (owner : Loop) (index : Value) : Except Fault Value :=
  if index.isHashable then
    match index.asKey?.bind fun id => owner.bindings.lookup id with
    | some source => .ok (int source)
    | none => .error .missingKey
  else .error .wrongType

/-- The element of a value at an index. -/
def element (value index : Value) : Except Fault Value :=
  match value with
  | list items => readSequence items list id index
  | tuple items => readSequence items tuple id index
  | text value =>
      readSequence value.toList (fun found => text (String.ofList found))
        (fun found => text (String.ofList [found])) index
  | dict entries =>
      if index.isHashable then
        match index.asText?.bind fun key => entries.lookup key with
        | some found => .ok found
        | none => .error .missingKey
      else
        .error .wrongType
  | tensor found => readTensor found index
  | part .body owner => bodyElement owner index
  | part .bindings owner => boundElement owner index
  | _ => .error .wrongType

/-- A field that is there or not. -/
def orMissing : Option Value → Except Fault Value
  | some value => .ok value
  | none => .error .missingField

/-- The bytes that an element takes. -/
def elementBytes : ElementType → Nat
  | .bool => 1
  | .int32 => 4
  | .float32 => 4

/-- The fields of a tensor. -/
def tensorField? (found : Tensor) (name : String) : Option Value :=
  match name with
  | "shape" => some (tuple (found.shape.map fun (extent : Nat) => int extent))
  | "ndim" => some (int found.rank)
  | "size" => some (int found.size)
  | "dtype" => some (member "dtype" false)
  | "itemsize" => some (int (elementBytes found.type))
  | "nbytes" => some (int (found.size * elementBytes found.type : Nat))
  | "T" => some (tensor found.transpose)
  | "real" => some (tensor found)
  | "imag" => some (tensor (Tensor.filled found.shape found.type false found.weak))
  | "weak_type" => some (bool found.weak)
  | _ => Option.none

/-- The fields of a whole number. -/
def wholeField? (number : Int) (name : String) : Option Value :=
  match name with
  | "real" => some (int number)
  | "imag" => some (int 0)
  | "numerator" => some (int number)
  | "denominator" => some (int 1)
  | _ => Option.none

/-- The fields of a floating-point number. -/
def floatField? (number : Float) (name : String) : Option Value :=
  match name with
  | "real" => some (float number)
  | "imag" => some (float 0.0)
  | _ => Option.none

/-- The fields of a slice. -/
def sliceField? (start stop step : Value) (name : String) : Option Value :=
  match name with
  | "start" => some start
  | "stop" => some stop
  | "step" => some step
  | _ => Option.none

/-- The fields of an expression. -/
def exprField? (head : String) (arguments : List Value) (name : String) : Option Value :=
  match name with
  | "head" => some (text head)
  | "args" => some (tuple arguments)
  | _ => Option.none

/-- The head that the tag of a form stands for. -/
def tagValue (tag : FormTag) : Value :=
  match tag.head? with
  | some head => text head
  | none => null

/-- The fields of a loop. -/
def loopField? (found : Loop) (name : String) : Option Value :=
  match name with
  | "var" => some (text found.index)
  | "body" => some (part .body found)
  | "inmap" => some (part .bindings found)
  | _ => Option.none

/-- The fields of a graph. -/
def graphField? (found : Graph) (name : String) : Option Value :=
  match name with
  | "exitnodes" => some (dict (found.exits.map fun (exit, id) => (exit, int id)))
  | "_next_id" => some (int found.nextId)
  | _ => Option.none

/-- The fields of a node. -/
def nodeField? (found : Node) (name : String) : Option Value :=
  match name with
  | "id" => some (int found.id)
  | "kind" => some (text found.kind.name)
  | "main" => some found.content
  | "parents" => some (tuple (found.inputs.map int))
  | "val" => some found.result
  | _ => Option.none

/-- The field of a value under a name. -/
def field (value : Value) (name : String) : Except Fault Value :=
  match value with
  | bool found => orMissing (wholeField? (if found then 1 else 0) name)
  | int found => orMissing (wholeField? found name)
  | float found => orMissing (floatField? found name)
  | record fields => orMissing (fields.lookup name)
  | slice start stop step => orMissing (sliceField? start stop step name)
  | symbol found => orMissing (if name = "name" then some (text found) else Option.none)
  | expr head arguments => orMissing (exprField? head arguments name)
  | form tag head arguments =>
      orMissing (if name = "HEAD" then some (tagValue tag) else exprField? head arguments name)
  | tensor found => orMissing (tensorField? found name)
  | loop found => orMissing (loopField? found name)
  | part .body owner => orMissing (graphField? owner.body name)
  | part (.node id) owner =>
      orMissing ((owner.body.find? id).bind fun node => nodeField? node name)
  | _ => .error .missingField

end Value

end FlowGraph

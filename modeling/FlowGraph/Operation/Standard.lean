import FlowGraph.Operation.Recipe
import FlowGraph.Operation.Registry

/-!
# The standard operations

The library of tensor functions, and the registry that gives the operators of
source code their meaning.
-/

namespace FlowGraph

/-- The functions of the tensor library. -/
def libraryFunctions : List (String × Operation) :=
  [("sin", Operation.floating Float32.sin),
    ("tan", Operation.floating Float32.tan),
    ("sinh", Operation.floating Float32.sinh),
    ("tanh", Operation.floating Float32.tanh),
    ("exp", Operation.floating Float32.exp),
    ("cos", Operation.floating Float32.cos),
    ("sqrt", Operation.floating Float32.sqrt),
    ("log", Operation.floating Float32.log),
    ("abs", Operation.unary fun tensor => .ok tensor.magnitude),
    ("square", Operation.unary fun tensor => .ok tensor.square),
    ("sign", Operation.unary Tensor.sign),
    ("floor", Operation.unary fun tensor => .ok (tensor.roundWith Float32.floor)),
    ("ceil", Operation.unary fun tensor => .ok (tensor.roundWith Float32.ceil)),
    ("negative", Operation.unary Tensor.negate),
    ("add", Operation.sumOfTwo),
    ("subtract", Operation.difference),
    ("multiply", Operation.product),
    ("divide", Operation.quotient),
    ("maximum", Operation.greater),
    ("minimum", Operation.lesser),
    ("power", Operation.power),
    ("less", Operation.comparison Tensor.lessThan),
    ("greater", Operation.comparison Tensor.greaterThan),
    ("less_equal", Operation.comparison Tensor.atMost),
    ("greater_equal", Operation.comparison Tensor.atLeast),
    ("equal", Operation.comparison Tensor.equalTo),
    ("not_equal", Operation.comparison Tensor.differentFrom),
    ("sum", Operation.unary fun tensor => .ok tensor.total),
    ("min", Operation.unary (Tensor.extreme Tensor.minimumRule)),
    ("max", Operation.unary (Tensor.extreme Tensor.maximumRule)),
    ("transpose", Operation.transposition)]

/-- The numbers with a name. -/
def namedNumbers : List (String × Value) :=
  [("pi", .float 3.141592653589793), ("e", .float 2.718281828459045),
    ("inf", .float (1.0 / 0.0)), ("nan", .float (0.0 / 0.0))]

/-- The tensor library. -/
def tensorLibrary : Library Operation := fun name =>
  match libraryFunctions.lookup name with
  | some operation => some (.operation operation)
  | none => (namedNumbers.lookup name).map Member.value

/-- The overloads of the standard registry in the order of their registration. -/
def standardOverloads : List (String × Overload Operation) :=
  [("+", ⟨none, Operation.addition⟩),
    ("-", ⟨none, Operation.minus⟩),
    ("*", ⟨some [.text, .text], Operation.ofTwo Value.plus⟩),
    ("*", ⟨none, Operation.multiplication⟩),
    ("/", ⟨none, Operation.quotient⟩),
    ("^", ⟨some [.text, .int], Operation.ofTwo Value.times⟩),
    ("^", ⟨none, Operation.power⟩),
    (".*", ⟨none, Operation.product⟩),
    ("./", ⟨none, Operation.quotient⟩),
    (".^", ⟨none, Operation.power⟩),
    ("sum", ⟨none, Operation.sum⟩),
    ("min", ⟨none, Operation.minimum⟩),
    ("max", ⟨none, Operation.maximum⟩),
    ("<", ⟨none, Operation.comparison Tensor.lessThan⟩),
    (">", ⟨none, Operation.comparison Tensor.greaterThan⟩),
    ("<=", ⟨none, Operation.comparison Tensor.atMost⟩),
    (">=", ⟨none, Operation.comparison Tensor.atLeast⟩),
    ("==", ⟨none, Operation.comparison Tensor.equalTo⟩),
    ("!=", ⟨none, Operation.comparison Tensor.differentFrom⟩),
    ("zeros", ⟨none, Operation.filled false⟩),
    ("ones", ⟨none, Operation.filled true⟩),
    ("vcat", ⟨none, Operation.concatenation⟩),
    ("'", ⟨none, Operation.transposition⟩)]

/-- The registry of the standard operations. -/
def Registry.standard : Registry Operation :=
  let registered := standardOverloads.foldl (fun registry (name, overload) =>
    registry.register name overload) (Registry.empty (some tensorLibrary))
  namedNumbers.foldl (fun registry (name, value) => registry.define name value) registered

end FlowGraph

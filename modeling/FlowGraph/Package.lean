import FlowGraph.Operation.Operand
import FlowGraph.Session

/-!
# The package without the array library

Where the array library is missing, the package still has all its members.  Those that
need the library fail when they are called; the others take their arguments as they
always do.
-/

namespace FlowGraph.Package

/-- How many arguments a function takes. -/
structure Arity where
  least : Nat
  /-- The largest number, if there is one. -/
  most : Option Nat

def Arity.admits (arity : Arity) (count : Nat) : Bool :=
  arity.least ≤ count && arity.most.all fun most => count ≤ most

/-- A function that takes a number of arguments between two bounds. -/
def between (least most : Nat) : Arity :=
  ⟨least, some most⟩

/-- A function that takes a number of arguments. -/
def exactly (count : Nat) : Arity :=
  between count count

/-- A function that takes any number of arguments from one on. -/
def atLeast (least : Nat) : Arity :=
  ⟨least, none⟩

/-- The exported functions and classes that work without the array library. -/
def freeMembers : List (String × Arity) :=
  [("Expr", between 1 2), ("ExH", exactly 2), ("Symbol", exactly 1), ("ex", atLeast 1),
    ("sym", exactly 1), ("to_variant", exactly 1), ("to_expr", exactly 1),
    ("is_symbol", exactly 1), ("is_dot", exactly 1), ("is_ref", exactly 1),
    ("collect_symbols", exactly 1), ("substitute_symbols", exactly 2), ("NameCounter", exactly 0),
    ("dprefix", exactly 1), ("NodeKind", between 1 2), ("ExNode", between 2 5),
    ("ExGraph", exactly 0), ("LoopPayload", between 2 3), ("add_node", atLeast 2),
    ("ancestors", exactly 2), ("dependencies", exactly 1), ("to_dot", exactly 1),
    ("FoldPolicy", between 0 1), ("GraphError", atLeast 0), ("CycleError", exactly 1),
    ("GraphIntegrityError", atLeast 0), ("ResolutionError", atLeast 0),
    ("UnresolvedOperationError", between 1 2), ("UnresolvedNameError", exactly 1),
    ("UnmappedSymbolWarning", atLeast 0)]

/-- The exported members that need the array library. -/
def libraryMembers : List String :=
  ["OperationRegistry", "default_registry", "splitnary", "fusenodes", "evalconstants", "prune",
    "evalsort", "calc", "add_graph", "optimize"]

/-- The parts of the package that are there without the array library. -/
def parts : List String :=
  ["config", "errors", "graph", "naming", "render", "symbols", "syntax"]

/-- The functions that every module has. -/
def moduleFunctions : List (String × Arity) :=
  [("__init__", between 1 2), ("__class__", between 1 2), ("__repr__", exactly 0),
    ("__str__", exactly 0), ("__hash__", exactly 0), ("__dir__", exactly 0),
    ("__sizeof__", exactly 0), ("__getstate__", exactly 0), ("__init_subclass__", exactly 0),
    ("__subclasshook__", atLeast 0), ("__eq__", exactly 1), ("__ne__", exactly 1),
    ("__lt__", exactly 1), ("__le__", exactly 1), ("__gt__", exactly 1), ("__ge__", exactly 1),
    ("__format__", exactly 1), ("__getattribute__", exactly 1), ("__setattr__", exactly 2),
    ("__delattr__", exactly 1), ("__new__", atLeast 1), ("__reduce__", exactly 0),
    ("__reduce_ex__", exactly 1), ("_requires_jax", exactly 1)]

/-- The members that are data. -/
def dataMembers : List String :=
  ["UNSET", "__all__", "__annotations__", "__builtins__", "__cached__", "__dict__", "__doc__",
    "__file__", "__loader__", "__name__", "__package__", "__path__", "__spec__",
    "_jax_import_error"]

/-- Whether the package has a member of a name. -/
def hasMember (name : String) : Bool :=
  (freeMembers.lookup name).isSome || libraryMembers.contains name || parts.contains name ||
    (moduleFunctions.lookup name).isSome || dataMembers.contains name

/-- The items that a value is walked over. -/
def itemsOf : Value → Except Fault (List Value)
  | .list values => .ok values
  | .tuple values => .ok values
  | .dict values => .ok (values.map fun (key, _) => Value.text key)
  | .text value => .ok (value.toList.map fun character => Value.text (String.ofList [character]))
  | _ => .error .wrongType

/-- A function under a name is missing; a field of that name cannot be called. -/
def callField (value : Value) (name : String) : Except Fault Unit := do
  let _ ← value.field name
  .error .wrongType

/-- Draw a value that is no graph. -/
def drawValue (value : Value) : Except Fault Unit := do
  match ← itemsOf value with
  | [] => .error .missingField
  | first :: _ =>
      let kind ← first.field "kind"
      let id ← first.field "id"
      if id.isHashable && kind.isHashable then .error .missingKey else .error .wrongType

/-- The nodes that reach a start, in a value that is no graph. -/
def ancestorsOfValue (value start : Value) : Except Fault Unit := do
  match start with
  | .int _ => callField value "node"
  | .bool _ => callField value "node"
  | _ =>
      let ids ← (← itemsOf start).mapM Value.toExtent
      if ids.isEmpty then return () else callField value "node"

/-- The name of a type of operands. -/
def checkTypeName (type : Value) : Except Fault Unit := do
  match ← type.field "__name__" with
  | .text _ => return ()
  | _ => .error .wrongType

/-- Call a member that works without the array library. -/
def callFree (name : String) (arguments : List Value) : Except Fault Unit := do
  match name, arguments with
  | "to_variant", [fragment] => let _ ← fragment.toForm
  | "to_expr", [fragment] => let _ ← fragment.toExpr
  | "NodeKind", [value] => let _ ← Kind.ofValue value
  | "NodeKind", [value, .null] => let _ ← Kind.ofValue value
  | "NodeKind", _ => .error .wrongType
  | "add_node", graph :: _ => callField graph "add_node"
  | "ancestors", [graph, start] => ancestorsOfValue graph start
  | "dependencies", [node] =>
      let _ ← node.field "main"
      let _ ← node.field "parents"
  | "to_dot", [graph] => drawValue graph
  | "CycleError", [ids] => let _ ← itemsOf ids
  | "UnresolvedOperationError", [_, types] => (← itemsOf types).forM checkTypeName
  | _, _ => return ()

/-- Call a function that every module has. -/
def callModule (name : String) (arguments : List Value) : Except Fault Unit :=
  match name, arguments with
  | "__new__", _ => .error .wrongType
  | "__reduce__", _ => .error .wrongType
  | "__reduce_ex__", _ => .error .wrongType
  | "__init__", .text _ :: _ => .ok ()
  | "__init__", _ => .error .wrongType
  | "__class__", .text _ :: _ => .ok ()
  | "__class__", _ => .error .wrongType
  | "__format__", [.text ""] => .ok ()
  | "__format__", _ => .error .wrongType
  | "__setattr__", .text _ :: _ => .ok ()
  | "__setattr__", _ => .error .wrongType
  | "__getattribute__", [.text member] => if hasMember member then .ok () else .error .missingField
  | "__getattribute__", _ => .error .wrongType
  | "__delattr__", [.text member] => if hasMember member then .ok () else .error .missingField
  | "__delattr__", _ => .error .wrongType
  | _, _ => .ok ()

/-- The name that a member goes by, whether it is exported, and what calling it does. -/
structure Member where
  name : String
  exported : Bool
  call : List Value → Except Fault Unit

/-- A function that checks the number of its arguments before anything else. -/
def checked (arity : Arity) (call : List Value → Except Fault Unit) (arguments : List Value) :
    Except Fault Unit :=
  if arity.admits arguments.length then call arguments else .error .wrongType

/-- The member of a name that can be called. -/
def member? (name : String) : Option Member :=
  if libraryMembers.contains name then
    some ⟨name, true, fun _ => .error (.libraryMissing name)⟩
  else if parts.contains name then
    some ⟨"revdiff_jax." ++ name, false, fun _ => .error .wrongType⟩
  else
    match freeMembers.lookup name, moduleFunctions.lookup name with
    | some arity, _ => some ⟨name, true, checked arity (callFree name)⟩
    | none, some arity =>
        let called := if name = "__class__" then "module" else name
        some ⟨called, false, checked arity (callModule name)⟩
    | none, none => none

/-- Find a member, and call it if arguments are given. -/
def request (name : String) (arguments : Option (List Value)) : Except Fault Member :=
  match member? name, arguments with
  | some member, none => .ok member
  | some member, some arguments => do
      member.call arguments
      return member
  | none, some _ => if dataMembers.contains name then .error .wrongType else .error .missingField
  | none, none => .error .missingField

end FlowGraph.Package

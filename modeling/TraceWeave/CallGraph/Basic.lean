import TraceWeave.Resolve.Target

/-! The call graph of a program, tests included: its functions in file order, and how they are used. -/
namespace TraceWeave

open Go (Kind Node Place)

/-- How a function is called from outside the program. -/
inductive Entry where
  | main
  /-- An HTTP handler, with the name of its request if it has one. -/
  | handler (request : Option String)
  | test
deriving DecidableEq, Repr

/-- A function of the graph. -/
structure GraphFunction where
  key : FunctionKey
  file : Nat
  path : String
  line : Nat
  isTest : Bool
  entry : Option Entry
  /-- Where a new parameter goes. -/
  handleIndex : Nat
  /-- Every parameter has a name. -/
  allNamed : Bool
  /-- A parameter already has the name of the handle. -/
  hasHandle : Bool
  hasBody : Bool
deriving Repr

/-- One use of a function in the program, by position in the graph. -/
inductive Usage where
  | call (caller callee : Nat)
  /-- A function is named without being called. -/
  | value (function : Nat)
  /-- A method is called that could not be tied to a declaration. -/
  | dynamic (method : String)
deriving DecidableEq, Repr

structure CallGraph where
  functions : List GraphFunction
  usages : List Usage
  /-- Method names that interfaces of the program ask for. -/
  interfaceMethods : List String

namespace CallGraph

/-- Methods that implement common interfaces of the standard library. -/
def wellKnownMethods : List String :=
  ["ServeHTTP", "String", "Error", "Read", "Write", "Close", "Len", "Less", "Swap", "MarshalJSON",
    "UnmarshalJSON", "Format", "GoString"]

/-- Whether a declaration of a test file is run by the test tool. -/
def isTestFunction (decl : FunctionDecl) : Bool :=
  decl.receiverType.isNone && ["Test", "Benchmark", "Fuzz", "Example"].any (Text.beginsWith decl.name)

/-- How a declaration is called from outside. -/
def entryOf (source : Source) (package : Package) (http : Option String) (decl : FunctionDecl)
    (groups : List ParameterGroup) : Option Entry :=
  if source.isTest then if isTestFunction decl then some .test else none
  else if decl.isMain package.name then some .main
  else (ParameterGroup.handlerRequest? groups http).map .handler

/-- The function of a declaration. -/
def functionOf (source : Source) (file package : Nat) (owner : Package) (http : Option String)
    (handle : String) (decl : FunctionDecl) : GraphFunction :=
  let groups := decl.groups source.text
  { key := decl.key package
    file
    path := source.path
    line := source.nodeLine decl.place.node
    isTest := source.isTest
    entry := entryOf source owner http decl groups
    handleIndex := ParameterGroup.handleIndex groups
    allNamed := ParameterGroup.allNamed groups
    hasHandle := ParameterGroup.declares groups handle
    hasBody := decl.body.isSome }

/-- Functions of one file. The blank name declares nothing. -/
def functionsOf (program : Program) (handle : String) (file : Nat) : List GraphFunction :=
  match program.files[file]?, program.packageOf? file with
  | some entry, some owner =>
      let http := (program.importsOf entry.source).nameFor? "net/http"
      ((FunctionDecl.all entry.source).filter (·.name != "_")).map
        (functionOf entry.source file entry.package owner http handle)
  | _, _ => []

/-- Add a function unless one with its key is there already. -/
def addFunction (functions : List GraphFunction) (function : GraphFunction) : List GraphFunction :=
  if functions.any (·.key == function.key) then functions else functions ++ [function]

/-- Functions of the program, in file order; of two with one key, the first. -/
def functionsIn (program : Program) (handle : String) : List GraphFunction :=
  ((List.range program.files.length).flatMap (functionsOf program handle)).foldl addFunction []

/-- The position of a function. -/
def position? (functions : List GraphFunction) (key : FunctionKey) : Option Nat :=
  functions.findIdx? (·.key == key)

/-- What a call in `here` is: a call of a function of the graph, or of an unknown method. -/
def callUsage (functions : List GraphFunction) (here : Surroundings) (source : String) (caller : Option Nat)
    (call : Place) : List Usage :=
  match (here.callTarget? source call).bind (position? functions) with
  | some callee => caller.toList.map fun caller => .call caller callee
  | none => (here.dynamicMethod? source call).toList.map .dynamic

/-- The function an expression names as a value. -/
def valueUsage (functions : List GraphFunction) (here : Surroundings) (source : String) (place : Place) :
    List Usage :=
  if place.isCalled || place.declaresName || (place.kind == .identifier && place.isOperand) then []
  else ((here.target? source place).bind (position? functions)).toList.map .value

/-- Usages at one place. Calls outside functions have no caller. -/
def usageAt (functions : List GraphFunction) (here : Surroundings) (source : String) (caller : Option Nat)
    (place : Place) : List Usage :=
  match place.kind with
  | .callExpression => callUsage functions here source caller place
  | .identifier | .selectorExpression => valueUsage functions here source place
  | _ => []

/-- Usages in the body of a declaration that is in the graph. -/
def usagesOfDecl (functions : List GraphFunction) (program : Program) (package : Nat) (imports : Imports)
    (source : String) (decl : FunctionDecl) : List Usage :=
  match position? functions (decl.key package), decl.body with
  | some caller, some body =>
      body.descendants.flatMap
        (usageAt functions (.ofDecl program package imports decl) source (some caller))
  | _, _ => []

/-- Usages in the variables and constants of a file. -/
def usagesOfValues (functions : List GraphFunction) (here : Surroundings) (source : Source) : List Usage :=
  (source.rootPlace.parts.filter fun item =>
      item.kind == .varDeclaration || item.kind == .constDeclaration).flatMap
    fun item => item.descendants.flatMap (usageAt functions here source.text none)

/-- Usages in a file. -/
def usagesOf (functions : List GraphFunction) (program : Program) (file : ProgramFile) : List Usage :=
  let imports := program.importsOf file.source
  (FunctionDecl.all file.source).flatMap
      (usagesOfDecl functions program file.package imports file.source.text) ++
    usagesOfValues functions (.ofFile program file.package imports) file.source

/-- Methods that the interfaces of a file ask for. -/
def interfaceMethodsOf (source : Source) : List String :=
  (source.root.descendants.filter (·.kind == .methodElem)).filterMap
    fun node => (node.child? .name).map (·.text source.text)

/-- The graph of a program, where `handle` is the name of the tracing handle. -/
def build (program : Program) (handle : String) : CallGraph :=
  let functions := functionsIn program handle
  { functions
    usages := program.files.flatMap (usagesOf functions program)
    interfaceMethods := program.files.flatMap fun file => interfaceMethodsOf file.source }

def size (graph : CallGraph) : Nat := graph.functions.length

def function? (graph : CallGraph) (id : Nat) : Option GraphFunction := graph.functions[id]?

def lookup? (graph : CallGraph) (key : FunctionKey) : Option Nat := position? graph.functions key

/-- Whether one function calls another. -/
def calls (graph : CallGraph) (caller callee : Nat) : Bool := graph.usages.contains (.call caller callee)

/-- Functions that a function calls, in graph order. -/
def callees (graph : CallGraph) (caller : Nat) : List Nat :=
  (List.range graph.size).filter (graph.calls caller)

/-- Functions that call a function, in graph order. -/
def callers (graph : CallGraph) (callee : Nat) : List Nat :=
  (List.range graph.size).filter fun caller => graph.calls caller callee

def isValue (graph : CallGraph) (id : Nat) : Bool := graph.usages.contains (.value id)

def isDynamic (graph : CallGraph) (method : String) : Bool := graph.usages.contains (.dynamic method)

/-- Whether a function that is no entry point must keep its parameters: it is used as a value, has
parameters without names or no body, may implement an interface or be called through a value of
unknown type, or is an `init`. -/
def keepsParameters (graph : CallGraph) (id : Nat) (function : GraphFunction) : Bool :=
  let name := function.key.name
  let isMethod := function.key.receiver.isSome
  graph.isValue id || !function.allNamed || !function.hasBody ||
    (isMethod && (graph.interfaceMethods.contains name || wellKnownMethods.contains name ||
      graph.isDynamic name)) ||
    (!isMethod && name == "init")

/-- Whether the parameters of a function must not change. Entry points are no barriers. -/
def isBarrier (graph : CallGraph) (id : Nat) : Bool :=
  match graph.function? id with
  | some function => function.entry.isNone && graph.keepsParameters id function
  | none => false

/-- Whether a function is called from outside the program, other than by tests. -/
def isEntryPoint (function : GraphFunction) : Bool :=
  !function.isTest &&
    match function.entry with
    | some .main | some (.handler _) => true
    | _ => false

/-- Entry points, in graph order. -/
def entryPoints (graph : CallGraph) : List Nat :=
  (List.range graph.size).filter fun id => (graph.function? id).any isEntryPoint

end CallGraph
end TraceWeave

import KernelFusion.IR.Graph

/-!
# Functions

A function has a prototype, which says how it is called, and a body, which may be missing. The
parameters get the first registers of the function; every register's type is recorded.
-/

namespace KernelFusion

/-- Who can see a symbol. -/
inductive Linkage where
  /-- Its own module only. -/
  | priv
  /-- The runtime and other modules. -/
  | pub
  /-- Defined elsewhere. -/
  | ext
deriving DecidableEq

/-- How a function is called. -/
inductive Convention where
  /-- Once per element, by the kernel driver. -/
  | kernel
  /-- As an ordinary function. -/
  | c
deriving DecidableEq

/-- A parameter of a function. -/
structure Parameter where
  /-- The name for readers. -/
  name : String
  /-- The type of the argument. -/
  ty : Ty
  /-- The register that holds the argument. -/
  reg : Register
deriving DecidableEq

/-- Parameters, result and calling convention of a function. -/
structure Prototype where
  /-- The parameters in order. -/
  params : List Parameter
  /-- The type of the result. -/
  result : Ty
  /-- How the function is called. -/
  convention : Convention
deriving DecidableEq

/-- The prototype with these parameters, which have no registers yet. -/
def Prototype.ofParams (params : List (String × Ty)) (result : Ty) (convention : Convention) :
    Prototype :=
  ⟨params.map (fun p => ⟨p.1, p.2, Register.invalid⟩), result, convention⟩

/-- The types of the parameters in order. -/
def Prototype.paramTypes (p : Prototype) : List Ty := p.params.map (·.ty)

/-- Properties of a function besides its prototype and body. -/
structure Attributes where
  /-- Who can see the function. -/
  linkage : Linkage
  /-- Whether the function is marked as free of side effects. -/
  isPure : Bool
deriving DecidableEq

/-- A function of a module. -/
structure Function where
  /-- The function's own number. -/
  id : FunctionId
  /-- The symbol name. -/
  name : String
  /-- How the function is called. -/
  prototype : Prototype
  /-- The body; without blocks if the function is only declared. -/
  graph : Graph
  /-- The recorded types of registers. -/
  registerTypes : IdMap Ty
  /-- Further properties. -/
  attributes : Attributes
  /-- The number of the next register to be allocated. -/
  nextRegister : UInt32
deriving DecidableEq

namespace Function

/-- Give registers from `start` on to parameters. -/
def numberParams (start : UInt32) : List Parameter → List Parameter
  | [] => []
  | p :: rest => { p with reg := start } :: numberParams (start + 1) rest

/-- A function without a body. Its parameters get the registers from zero on, and their types are
recorded. -/
def declaration (id : FunctionId) (name : String) (prototype : Prototype) : Function :=
  let params := numberParams 0 prototype.params
  { id := id
    name := name
    prototype := { prototype with params := params }
    graph := .empty
    registerTypes := IdMap.ofList (params.map (fun p => (p.reg, p.ty)))
    attributes := ⟨.priv, false⟩
    nextRegister := params.length.toUInt32 }

/-- A function with an empty entry block. -/
def new (id : FunctionId) (name : String) (prototype : Prototype) : Function :=
  { declaration id name prototype with graph := .new }

/-- Take the next register. -/
def allocRegister (f : Function) : Function × Register :=
  ({ f with nextRegister := f.nextRegister + 1 }, f.nextRegister)

/-- Record the type of a register. -/
def setRegisterType (f : Function) (r : Register) (ty : Ty) : Function :=
  { f with registerTypes := f.registerTypes.insert r ty }

/-- Change one block of the body, if it exists. -/
def modifyBlock (f : Function) (id : BlockId) (change : Block → Block) : Function :=
  { f with graph := f.graph.modifyBlock id change }

/-- Whether the function has no body. -/
def isDeclaration (f : Function) : Bool := f.graph.isEmpty

/-- The register of a parameter. -/
def paramRegister? (f : Function) (index : Nat) : Option Register :=
  f.prototype.params[index]?.map (·.reg)

/-- The type of the result. -/
def result (f : Function) : Ty := f.prototype.result

/-- Whether the body calls no function. -/
def isLeaf (f : Function) : Bool := f.graph.instructions.all (·.callee.isNone)

/-- The function without its body: prototype and attributes only. -/
def toDeclaration (f : Function) : Function :=
  { declaration f.id f.name f.prototype with attributes := f.attributes }

/-- The first fault of the body; a declaration has none. -/
def fault? (f : Function) : Option GraphFault :=
  if f.isDeclaration then none else f.graph.fault?

/-- Whether two functions are equal, constants compared by value. -/
def alike (f g : Function) : Bool :=
  f.graph.alike g.graph && { f with graph := .empty } == { g with graph := .empty }

end Function

end KernelFusion

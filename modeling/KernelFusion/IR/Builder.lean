import KernelFusion.IR.Module

/-!
# Building functions

A `Builder` is a module together with the function and block under construction. Each step returns
the builder after it; a step that yields a register or a success does so only if there is a place to
write to. The type of every result is recorded where it is known.
-/

namespace KernelFusion

/-- A module and the place in it that is being written. -/
structure Builder where
  /-- The module so far. -/
  module : Module
  /-- The function under construction. -/
  function? : Option FunctionId
  /-- The block under construction. -/
  block? : Option BlockId
deriving DecidableEq

namespace Builder

/-- A builder for a module, with nothing under construction. -/
def new (m : Module) : Builder := ⟨m, none, none⟩

/-- Start a function with an empty entry block and go on in it. -/
def start (b : Builder) (name : String) (prototype : Prototype) (linkage : Linkage) :
    Builder × FunctionId :=
  let (m, id) := b.module.allocFunction
  let made := Function.new id name prototype
  let f := { made with attributes := { made.attributes with linkage := linkage } }
  (⟨m.add f, some id, some f.graph.entry⟩, id)

/-- Declare a function, leaving what is under construction as it is. -/
def declare (b : Builder) (name : String) (prototype : Prototype) (linkage : Linkage) :
    Builder × FunctionId :=
  let (m, id) := b.module.allocFunction
  let made := Function.declaration id name prototype
  let f := { made with attributes := { made.attributes with linkage := linkage } }
  ({ b with module := m.add f }, id)

/-- Leave the function under construction. -/
def finish (b : Builder) : Builder := { b with function? := none, block? := none }

/-- The function under construction. -/
def current? (b : Builder) : Option Function := b.function?.bind b.module.function?

/-- Change the function under construction, if there is one. -/
def modifyCurrent (b : Builder) (change : Function → Function) : Builder :=
  match b.function? with
  | none => b
  | some id =>
    { b with module := { b.module with functions := b.module.functions.modify id change } }

/-- Change the block under construction, and say whether there is one. -/
def modifyBlock (b : Builder) (change : Block → Block) : Builder × Bool :=
  match b.block?, b.current? with
  | some block, some f =>
    if f.graph.blocks.contains block then
      (b.modifyCurrent (fun f => f.modifyBlock block change), true)
    else (b, false)
  | _, _ => (b, false)

/-- Rename the function under construction, and say whether there is one. -/
def rename (b : Builder) (name : String) : Builder × Bool :=
  (b.modifyCurrent (fun f => { f with name := name }), b.current?.isSome)

/-- Label the block under construction. -/
def setLabel (b : Builder) (label : String) : Builder × Bool :=
  b.modifyBlock (fun block => { block with label := some label })

/-- The register of a parameter of the function under construction. -/
def paramRegister? (b : Builder) (index : Nat) : Option Register :=
  b.current?.bind (·.paramRegister? index)

/-- Allocate a register of the function under construction. -/
def allocRegister (b : Builder) : Builder × Option Register :=
  (b.modifyCurrent (fun f => f.allocRegister.1), b.current?.map (fun f => f.allocRegister.2))

/-- The recorded type of a register. -/
def registerType? (b : Builder) (r : Register) : Option Ty :=
  b.current?.bind (fun f => f.registerTypes.get? r)

/-- Record the type of a register of the function under construction. -/
def setRegisterType (b : Builder) (r : Register) (ty : Ty) : Builder :=
  b.modifyCurrent (fun f => f.setRegisterType r ty)

/-- Add an instruction to the block under construction. -/
def push (b : Builder) (i : Instruction) : Builder × Bool :=
  b.modifyBlock (fun block => block.push i)

/-- Allocate a register of a type, if one is known, and add the instruction that writes it. -/
def emit (b : Builder) (ty? : Option Ty) (make : Register → Instruction) :
    Builder × Option Register :=
  match b.allocRegister with
  | (b, none) => (b, none)
  | (b, some r) =>
    let typed := match ty? with
      | none => b
      | some ty => b.setRegisterType r ty
    let (b, pushed) := typed.push (make r)
    (b, if pushed then some r else none)

/-- Set a register to a constant. -/
def const (b : Builder) (value : Constant) : Builder × Option Register :=
  b.emit (some value.ty) (fun dest => .const dest value)

/-- Read memory. -/
def load (b : Builder) (ptr : Register) (ty : Ty) : Builder × Option Register :=
  b.emit (some ty) (fun dest => .load dest ptr ty)

/-- Write memory. -/
def store (b : Builder) (ptr value : Register) : Builder × Bool := b.push (.store ptr value)

/-- Combine two registers. The result has the type of the left one, or else of the right one. -/
def binary (b : Builder) (op : BinaryOp) (left right : Register) : Builder × Option Register :=
  let ty? := (b.registerType? left).or (b.registerType? right)
  b.emit ty? (fun dest => .binary dest op left right)

/-- Change a register's value. The result has the type of the operand. -/
def unary (b : Builder) (op : UnaryOp) (operand : Register) : Builder × Option Register :=
  b.emit (b.registerType? operand) (fun dest => .unary dest op operand)

/-- Compare two registers. -/
def compare (b : Builder) (op : CompareOp) (left right : Register) : Builder × Option Register :=
  b.emit (some .bool) (fun dest => .compare dest op left right)

/-- Convert a number. -/
def cast (b : Builder) (src : Register) (source target : Ty) : Builder × Option Register :=
  b.emit (some target) (fun dest => .cast dest src source target)

/-- Call a function of the module. Only the call of a function that is not void has a result. -/
def call (b : Builder) (callee : FunctionId) (args : List Register) : Builder × Option Register :=
  match b.module.function? callee with
  | none => (b, none)
  | some f =>
    if f.result.isVoid then ((b.push (.call none callee args)).1, none)
    else b.emit (some f.result) (fun dest => .call (some dest) callee args)

/-- End the block under construction with a return. -/
def ret (b : Builder) (value : Option Register) : Builder × Bool :=
  b.modifyBlock (fun block => { block with terminator := .ret value })

end Builder

end KernelFusion

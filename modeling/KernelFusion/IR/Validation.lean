import KernelFusion.IR.Module

/-!
# Validation

The rules a body must keep before it is run: every register is defined once and before it is used,
blocks are terminated and branch to existing blocks, returns agree with the declared result, and
calls agree with the prototype of the function they call. Parameters come first, then the blocks in
ascending order. All violations are reported, in the order of that walk.
-/

namespace KernelFusion

/-- A rule that a body breaks. -/
inductive Violation where
  /-- A register is used before it is defined. -/
  | useBeforeDefine (register : Register)
  /-- A register is defined more than once. -/
  | multipleDefinitions (register : Register)
  /-- A block has no terminator. -/
  | missingTerminator
  /-- A branch goes to a block that does not exist. -/
  | invalidTarget (target : BlockId)
  /-- A return without a value in a function that has a result. -/
  | missingReturnValue (result : Ty)
  /-- A return with a value in a void function. -/
  | unexpectedReturnValue
  /-- A return of a register of another type than declared. -/
  | returnType (found declared : Ty)
  /-- A call of a function that does not exist. -/
  | unknownCallee (callee : FunctionId)
  /-- A call with the wrong number of arguments. -/
  | argumentCount (callee : String) (expected found : Nat)
  /-- A call that drops the result of a function that has one. -/
  | droppedResult (callee : String)
  /-- A call that binds the result of a void function. -/
  | boundVoid (callee : String)
deriving DecidableEq

/-- A violation with the place where it was found. -/
structure ValidationError where
  /-- What is wrong. -/
  violation : Violation
  /-- The name of the function. -/
  function : String
  /-- The block, if the violation lies in one. -/
  block : Option BlockId
deriving DecidableEq

/-- The message of a violation. -/
def Violation.message : Violation → String
  | useBeforeDefine r => "register " ++ Register.text r ++ " used before definition"
  | multipleDefinitions r => "register " ++ Register.text r ++ " defined more than once"
  | missingTerminator => "block is not terminated"
  | invalidTarget target => "branch to missing block " ++ BlockId.text target
  | missingReturnValue result => "void return from function returning " ++ result.text
  | unexpectedReturnValue => "value returned from void function"
  | returnType found declared => "returns " ++ found.text ++ " but declares " ++ declared.text
  | unknownCallee callee => "call to unknown function " ++ FunctionId.text callee
  | argumentCount callee expected found =>
    "call to @" ++ callee ++ " passes " ++ found.repr ++ " arguments, expected " ++ expected.repr
  | droppedResult callee => "call to @" ++ callee ++ ": result of non-void call is dropped"
  | boundVoid callee => "call to @" ++ callee ++ ": void call binds a result"

/-- The message of a validation error: the place, then the violation. -/
def ValidationError.message (e : ValidationError) : String :=
  let place := match e.block with
    | some b => " " ++ BlockId.text b
    | none => ""
  "in @" ++ e.function ++ place ++ ": " ++ e.violation.message

namespace Validation

/-- The violations of using registers where `defined` are defined. -/
def uses (defined : List Register) (regs : List Register) : List Violation :=
  (regs.filter (fun r => r ∉ defined)).map .useBeforeDefine

/-- The violations of defining registers one after the other, and what is defined then. -/
def define (defined : List Register) : List Register → List Violation × List Register
  | [] => ([], defined)
  | r :: rest =>
    if r ∈ defined then
      let (violations, after) := define defined rest
      (.multipleDefinitions r :: violations, after)
    else define (r :: defined) rest

/-- The violations of a call. -/
def call (m : Module) (dest : Option Register) (callee : FunctionId) (args : List Register) :
    List Violation :=
  match m.function? callee with
  | none => [.unknownCallee callee]
  | some f =>
    let expected := f.prototype.params.length
    let count :=
      if expected = args.length then [] else [.argumentCount f.name expected args.length]
    let result :=
      if f.result.isVoid then (if dest.isSome then [.boundVoid f.name] else [])
      else (if dest.isSome then [] else [.droppedResult f.name])
    count ++ result

/-- The violations of an instruction, and what is defined after it. -/
def instruction (m : Module) (defined : List Register) (i : Instruction) :
    List Violation × List Register :=
  let called := match i with
    | .call dest callee args => call m dest callee args
    | _ => []
  let (redefined, after) := define defined i.dest.toList
  (uses defined i.uses ++ called ++ redefined, after)

/-- The violations of instructions one after the other, and what is defined after them. -/
def instructions (m : Module) (defined : List Register) :
    List Instruction → List Violation × List Register
  | [] => ([], defined)
  | i :: rest =>
    let (here, after) := instruction m defined i
    let (later, last) := instructions m after rest
    (here ++ later, last)

/-- The violation of branching to a block, if it does not exist. -/
def target (f : Function) (id : BlockId) : List Violation :=
  if f.graph.blocks.contains id then [] else [.invalidTarget id]

/-- The violations of a return. -/
def ret (f : Function) (defined : List Register) : Option Register → List Violation
  | none => if f.result.isVoid then [] else [.missingReturnValue f.result]
  | some r =>
    if f.result.isVoid then [.unexpectedReturnValue]
    else
      let typed := match f.registerTypes.get? r with
        | none => []
        | some found => if found = f.result then [] else [.returnType found f.result]
      uses defined [r] ++ typed

/-- The violations of a terminator. -/
def terminator (f : Function) (defined : List Register) : Terminator → List Violation
  | .unreachable => [.missingTerminator]
  | .ret value => ret f defined value
  | .branch goal => target f goal
  | .branchIf condition onTrue onFalse =>
    uses defined [condition] ++ target f onTrue ++ target f onFalse

/-- The violations of a block, and what is defined after it. -/
def block (m : Module) (f : Function) (defined : List Register) (b : Block) :
    List Violation × List Register :=
  let (body, after) := instructions m defined b.instructions
  (body ++ terminator f after b.terminator, after)

/-- The errors of blocks one after the other. -/
def blocks (m : Module) (f : Function) (defined : List Register) :
    List Block → List ValidationError
  | [] => []
  | b :: rest =>
    let (violations, after) := block m f defined b
    violations.map (fun v => ⟨v, f.name, some b.id⟩) ++ blocks m f after rest

end Validation

/-- All errors of a function of a module. -/
def Function.errors (m : Module) (f : Function) : List ValidationError :=
  let (violations, defined) := Validation.define [] (f.prototype.params.map (·.reg))
  violations.map (fun v => ⟨v, f.name, none⟩) ++ Validation.blocks m f defined f.graph.blocks.values

/-- All errors of a module: those of its bodies. Pending bodies are not looked at. -/
def Module.errors (m : Module) : List ValidationError :=
  (m.functions.values.filter (fun f => !f.isDeclaration)).flatMap (·.errors m)

end KernelFusion

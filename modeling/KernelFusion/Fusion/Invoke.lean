import KernelFusion.Fusion.Emit
import KernelFusion.Fusion.Error

/-!
# Wrapping invokable functions

An invokable function is exported again under another name by a void function that passes its one
argument through.
-/

namespace KernelFusion

/-- One slot of a module's table of invokable functions. -/
structure InvokableSlot where
  /-- The module. -/
  module : Module
  /-- The position in the table. -/
  slot : Nat
deriving DecidableEq

/-- The name in a slot. All of the module's tables must be in order. -/
def InvokableSlot.name (s : InvokableSlot) : Except FusionError String :=
  match s.module.exports with
  | .error e => .error (.exports e)
  | .ok tables =>
    match tables.invokable[s.slot]? with
    | some name => .ok name
    | none =>
      .error (.exports (.slotOutOfRange s.module.name .invokable s.slot tables.invokable.length))

/-- The void function that calls another and passes its argument through. -/
def wrapper (id : FunctionId) (name : String) (callee : Function) (config : FusionConfig) :
    Function :=
  let params := callee.prototype.params.map (fun p => (p.name, p.ty))
  let start := Emission.start id name (.ofParams params .void callee.prototype.convention) .pub
  let (e, _) := start.call callee.id [start.param 0] callee.result
  e.finish config.entryLabel none

/-- Add a wrapper of an invokable function to the destination and export it. The body of the
function may be materialized there, and stays so if the wrapping fails later. -/
def wrapInvoke (target : InvokableSlot) (name : String) (config : FusionConfig) (dest : Module) :
    Except FusionError FunctionId × Module :=
  match target.name with
  | .error e => (.error e, dest)
  | .ok targetName =>
    if targetName = "" then (.error (.unresolvedFunction targetName target.module.name), dest)
    else if dest.hasSymbol name then (.error (.nameCollision name dest.name), dest)
    else
      let dest := dest.materialize targetName
      match dest.callable? targetName with
      | none => (.error (.unresolvedFunction targetName dest.name), dest)
      | some callee =>
        if callee.prototype.params.length = 1 then
          let (dest, id) := dest.allocFunction
          (.ok id, (dest.add (wrapper id name callee config)).exportInvokable name)
        else (.error (.arityMismatch targetName 1 callee.prototype.params.length), dest)

end KernelFusion

import KernelFusion.Fusion.Emit
import KernelFusion.Fusion.Reconcile

/-!
# Planning and committing a fusion

A plan says what a fused kernel takes and which calls it makes. Building it resolves every stage in
the destination, which may materialize the bodies of entry points there but changes nothing else;
that stays if the plan fails later. Committing a plan adds the function and its export record and
cannot fail.
-/

namespace KernelFusion

/-- A value passed to a call of a fused kernel. -/
inductive Operand where
  /-- The input element. -/
  | dataIn
  /-- The x coordinate. -/
  | x
  /-- The y coordinate. -/
  | y
  /-- The z coordinate. -/
  | z
  /-- The result of the call before. -/
  | previous
deriving DecidableEq

/-- The operand of a coordinate flag. -/
def Operand.ofCoordinate (flag : KernelSignature) : Operand :=
  if flag = .x then x else if flag = .y then y else z

/-- The parameter name of an operand. -/
def Operand.paramName : Operand → String
  | dataIn => "in"
  | x => "x"
  | y => "y"
  | z => "z"
  | previous => "prev"

/-- A parameter of a fused kernel. -/
structure FusedParam where
  /-- The operand that the parameter gives. -/
  operand : Operand
  /-- The name of the parameter. -/
  name : String
  /-- The type of the parameter. -/
  ty : Ty
deriving DecidableEq

/-- The parameter for an operand. -/
def FusedParam.ofOperand (operand : Operand) (ty : Ty) : FusedParam :=
  ⟨operand, operand.paramName, ty⟩

/-- The call of one stage. -/
structure PlannedCall where
  /-- The position of the stage. -/
  stage : Nat
  /-- The number of the entry point in the destination. -/
  callee : FunctionId
  /-- The name of the entry point. -/
  name : String
  /-- What is passed to it. -/
  operands : List Operand
  /-- The type of its result. -/
  result : Ty
deriving DecidableEq

/-- All that is needed to emit a fused kernel. -/
structure FusionPlan where
  /-- The name of the kernel. -/
  name : String
  /-- The merged signature. -/
  signature : KernelSignature
  /-- The parameters. -/
  params : List FusedParam
  /-- The type of the result. -/
  result : Ty
  /-- The calls in order. -/
  calls : List PlannedCall
deriving DecidableEq

/-- A kernel that was added to a module. -/
structure FusedKernel where
  /-- The number of the function. -/
  id : FunctionId
  /-- The name of the kernel. -/
  name : String
  /-- The merged signature. -/
  signature : KernelSignature
  /-- The number of stages. -/
  stages : Nat
deriving DecidableEq

/-- A stage whose entry point was found in the destination. -/
structure ResolvedStage where
  /-- What the tables say about the kernel. -/
  descriptor : KernelDescriptor
  /-- The number of the entry point in the destination. -/
  id : FunctionId
  /-- The types of its parameters. -/
  params : List Ty
  /-- The type of its result. -/
  result : Ty
deriving DecidableEq

/-- Find the entry point of a stage in the destination, materializing its body. -/
def resolveStage (stage : Nat) (k : KernelSlot) (dest : Module) :
    Except FusionError ResolvedStage × Module :=
  match k.describe with
  | .error e => (.error (.exports e), dest)
  | .ok d =>
    if d.hasName then
      let dest := dest.materialize d.name
      match dest.callable? d.name with
      | some f => (.ok ⟨d, f.id, f.prototype.paramTypes, f.result⟩, dest)
      | none => (.error (.unresolvedFunction d.name dest.name), dest)
    else (.error (.unnamedKernel stage d.module d.slot), dest)

/-- The operands of the call of a stage. A stage that reads an input gets the current value. -/
def ResolvedStage.operands (r : ResolvedStage) (stage : Nat) (current : Option Operand) :
    Except FusionError (List Operand) :=
  let coordinates := r.descriptor.signature.coordinates.map Operand.ofCoordinate
  if r.descriptor.signature.has .input then
    match current with
    | some value => .ok (value :: coordinates)
    | none => .error (.voidIntermediate stage r.descriptor.name)
  else .ok coordinates

/-- Plan the call of a stage, given the current value if there is one. -/
def planStage (stage : Nat) (current : Option Operand) (k : KernelSlot) (dest : Module) :
    Except FusionError PlannedCall × Module :=
  match resolveStage stage k dest with
  | (.error e, dest) => (.error e, dest)
  | (.ok r, dest) =>
    match r.operands stage current with
    | .error e => (.error e, dest)
    | .ok operands =>
      if operands.length = r.params.length then
        (.ok ⟨stage, r.id, r.descriptor.name, operands, r.result⟩, dest)
      else (.error (.arityMismatch r.descriptor.name r.params.length operands.length), dest)

/-- The current value after a call. -/
def PlannedCall.leaves (c : PlannedCall) : Option Operand :=
  if c.result.isVoid then none else some .previous

/-- Plan the calls of stages from a position on. -/
def planStages (stage : Nat) (current : Option Operand) :
    List KernelSlot → Module → Except FusionError (List PlannedCall) × Module
  | [], dest => (.ok [], dest)
  | k :: rest, dest =>
    match planStage stage current k dest with
    | (.error e, dest) => (.error e, dest)
    | (.ok call, dest) =>
      match planStages (stage + 1) call.leaves rest dest with
      | (.error e, dest) => (.error e, dest)
      | (.ok calls, dest) => (.ok (call :: calls), dest)

/-- The parameters of a kernel with a merged signature: the input, which has the type of the first
stage's first parameter, then the coordinates. -/
def fusedParams (signature : KernelSignature) (first : ResolvedStage) (config : FusionConfig) :
    Except FusionError (List FusedParam) :=
  let coordinates := signature.coordinates.map (fun flag =>
    FusedParam.ofOperand (.ofCoordinate flag) config.coordinateType)
  if signature.has .input then
    match first.params.head? with
    | some ty => .ok (.ofOperand .dataIn ty :: coordinates)
    | none => .error (.missingInputParameter first.descriptor.name)
  else .ok coordinates

namespace FusionPlan

/-- Plan the fusion of a chain under a name, and give back the destination as it is left. -/
def build (chain : Chain) (name : String) (config : FusionConfig) (dest : Module) :
    Except FusionError FusionPlan × Module :=
  match chain.reconcile with
  | .error e => (.error (.reconciliation e), dest)
  | .ok signature =>
    if dest.hasSymbol name then (.error (.nameCollision name dest.name), dest)
    else
      match resolveStage 0 chain.first dest with
      | (.error e, dest) => (.error e, dest)
      | (.ok first, dest) =>
        match resolveStage (chain.length - 1) chain.last dest with
        | (.error e, dest) => (.error e, dest)
        | (.ok last, dest) =>
          match fusedParams signature first config with
          | .error e => (.error e, dest)
          | .ok params =>
            let current := if signature.has .input then some Operand.dataIn else none
            match planStages 0 current chain.stages dest with
            | (.error e, dest) => (.error e, dest)
            | (.ok calls, dest) => (.ok ⟨name, signature, params, last.result, calls⟩, dest)

/-- The prototype of the kernel that a plan emits. -/
def prototype (p : FusionPlan) : Prototype :=
  .ofParams (p.params.map (fun q => (q.name, q.ty))) p.result .kernel

/-- The register of an operand that is a parameter, or the invalid one if there is no such
parameter. -/
def paramRegister (p : FusionPlan) (e : Emission) (operand : Operand) : Register :=
  match p.params.findIdx? (fun q => q.operand = operand) with
  | some i => e.param i
  | none => Register.invalid

/-- The register of an operand, given the register of the current value. -/
def register (p : FusionPlan) (e : Emission) (current : Register) (operand : Operand) : Register :=
  if operand = .previous then current else p.paramRegister e operand

/-- Emit calls, given the register of the current value. -/
def emitCalls (p : FusionPlan) :
    List PlannedCall → Register → Emission → Emission × Register
  | [], current, e => (e, current)
  | c :: rest, current, e =>
    let (e', result) := e.call c.callee (c.operands.map (p.register e current)) c.result
    p.emitCalls rest result e'

/-- The function that a plan emits under a number. -/
def emit (p : FusionPlan) (id : FunctionId) (config : FusionConfig) : Function :=
  let start := Emission.start id p.name p.prototype .pub
  let (e, result) := p.emitCalls p.calls (p.paramRegister start .dataIn) start
  e.finish config.entryLabel (if p.result.isVoid then none else some result)

/-- Add the kernel of a plan to a module and export it. -/
def commit (p : FusionPlan) (config : FusionConfig) (dest : Module) : FusedKernel × Module :=
  let (dest, id) := dest.allocFunction
  (⟨id, p.name, p.signature, p.calls.length⟩,
    (dest.add (p.emit id config)).exportForeach p.name p.signature)

end FusionPlan

/-- Fuse a chain into a new kernel of the destination. -/
def fuse (chain : Chain) (name : String) (config : FusionConfig) (dest : Module) :
    Except FusionError FusedKernel × Module :=
  match FusionPlan.build chain name config dest with
  | (.error e, dest) => (.error e, dest)
  | (.ok plan, dest) =>
    let (kernel, dest) := plan.commit config dest
    (.ok kernel, dest)

end KernelFusion

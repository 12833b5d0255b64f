import KernelFusion.Export.Slots

/-!
# Errors of fusion requests
-/

namespace KernelFusion

/-- Why the signatures of a chain cannot be merged. -/
inductive ReconcileError where
  /-- A stage reads more than one input. -/
  | unsupportedInput (stage : Nat) (module kernel : String) (count : UInt32)
  /-- A stage has flags that a fusion does not allow. -/
  | unsupportedFlags (stage : Nat) (module kernel : String) (signature unexpected : KernelSignature)
  /-- The export tables of a stage cannot be read. -/
  | exports (stage : Nat) (cause : ExportError)
deriving DecidableEq

/-- The message of a reconciliation error. -/
def ReconcileError.message : ReconcileError → String
  | unsupportedInput stage module kernel count =>
    "stage " ++ stage.repr ++ ": kernel '" ++ kernel ++ "' in module '" ++ module ++ "' reads " ++
      count.toNat.repr ++ " inputs"
  | unsupportedFlags stage module kernel signature unexpected =>
    "stage " ++ stage.repr ++ ": kernel '" ++ kernel ++ "' in module '" ++ module ++
      "' has unexpected signature " ++ signature.text ++ " (bits " ++ unexpected.text ++ ")"
  | exports stage cause => "stage " ++ stage.repr ++ ": " ++ cause.message

/-- Why a fusion or a wrapping fails. -/
inductive FusionError where
  /-- A chain has no stages. -/
  | emptyChain
  /-- There are not as many modules as slots. -/
  | slotCountMismatch (modules slots : Nat)
  /-- The signatures of the chain cannot be merged. -/
  | reconciliation (cause : ReconcileError)
  /-- A stage is an unused slot. -/
  | unnamedKernel (stage : Nat) (module : String) (slot : Nat)
  /-- The destination does not have a function. -/
  | unresolvedFunction (name module : String)
  /-- A kernel should read an input but has no parameters. -/
  | missingInputParameter (name : String)
  /-- A stage should read an input but the stage before it has no result. -/
  | voidIntermediate (stage : Nat) (name : String)
  /-- A function does not take the arguments that a call would give it. -/
  | arityMismatch (function : String) (expected found : Nat)
  /-- The name is taken in the destination. -/
  | nameCollision (name module : String)
  /-- Export tables cannot be read. -/
  | exports (cause : ExportError)
deriving DecidableEq

/-- Whether an error comes from merging signatures. -/
def FusionError.isReconciliation : FusionError → Bool
  | reconciliation _ => true
  | _ => false

/-- The message of a fusion error. -/
def FusionError.message : FusionError → String
  | emptyChain => "cannot fuse an empty kernel chain"
  | slotCountMismatch modules slots =>
    modules.repr ++ " modules given for " ++ slots.repr ++ " slots"
  | reconciliation cause => "signature reconciliation failed: " ++ cause.message
  | unnamedKernel stage module slot =>
    "stage " ++ stage.repr ++ ": slot " ++ slot.repr ++ " of module '" ++ module ++
      "' exports no kernel"
  | unresolvedFunction name module =>
    "'" ++ name ++ "' cannot be resolved in module '" ++ module ++ "'"
  | missingInputParameter name =>
    "kernel '" ++ name ++ "' declares an input but takes no parameters"
  | voidIntermediate stage name =>
    "stage " ++ stage.repr ++ ": kernel '" ++ name ++
      "' expects an input but the previous stage returns void"
  | arityMismatch function expected found =>
    "'" ++ function ++ "' takes " ++ expected.repr ++ " arguments but is given " ++ found.repr
  | nameCollision name module =>
    "symbol '" ++ name ++ "' already exists in module '" ++ module ++ "'"
  | exports cause => cause.message

end KernelFusion

import KernelFusion.Bundle.Basic
import KernelFusion.Fusion.Invoke
import KernelFusion.Fusion.Plan

/-!
# What requests report

The lines that linking, fusing and wrapping report while they work. They follow from the request
alone: each function here gives the lines of the request of its name, up to where it fails.
-/

namespace KernelFusion

/-- How important a report is. -/
inductive LogLevel where
  /-- A step of the work. -/
  | debug
  /-- A result. -/
  | info
  /-- A reason for a failure. -/
  | warn
deriving DecidableEq

/-- A line of a report. -/
structure LogLine where
  /-- How important the line is. -/
  level : LogLevel
  /-- The text of the line. -/
  text : String
deriving DecidableEq

/-- Whether a line is shown. Warnings always are, the others on request. -/
def LogLine.isShown (verbose : Bool) (l : LogLine) : Bool := verbose || l.level == .warn

namespace Module

/-- The lines of linking a source into a module: one for each function that is brought in. -/
def linkLines (dest source : Module) : List LogLine :=
  match dest.placement source with
  | .error _ => []
  | .ok p =>
    match source.renumbered p with
    | .error _ => []
    | .ok functions => functions.map (fun f =>
        ⟨.debug, "link " ++ source.name ++ "::" ++ f.name ++ " -> " ++ dest.name ++ "::" ++
          FunctionId.text f.id⟩)

/-- The lines of linking sources one after the other. -/
def linkAllLines (dest : Module) : List Module → List LogLine
  | [] => []
  | source :: rest =>
    dest.linkLines source ++
      match dest.link source with
      | .ok (linked, _) => linked.linkAllLines rest
      | .error _ => []

end Module

/-- The word for an operand in reports. -/
def Operand.text : Operand → String
  | dataIn => "DataIn"
  | x => "X"
  | y => "Y"
  | z => "Z"
  | previous => "Previous"

/-- The lines of merging the signatures of a chain. -/
def Chain.reconcileLines (c : Chain) : List LogLine :=
  match c.reconcile with
  | .ok signature =>
    [⟨.debug, "chain of " ++ c.length.repr ++ " stages reconciled to " ++ signature.text⟩]
  | .error (.unsupportedInput stage module _ _) =>
    let slot := (c.stages[stage]?.map (·.slot)).getD 0
    [⟨.warn, "Kernel " ++ slot.repr ++ " in module " ++ module ++ " has multiple inputs"⟩]
  | .error (.unsupportedFlags _ _ _ signature _) =>
    [⟨.warn, "Unexpected signature " ++ signature.text ++ " seen while fusing kernels"⟩]
  | .error (.exports _ _) => []

/-- The lines of planning the calls of stages: one for each call that is planned. -/
def stageLines (stage : Nat) (current : Option Operand) : List KernelSlot → Module → List LogLine
  | [], _ => []
  | k :: rest, dest =>
    match planStage stage current k dest with
    | (.error _, _) => []
    | (.ok call, dest) =>
      ⟨.debug, "stage " ++ stage.repr ++ ": call '" ++ call.name ++ "' with [" ++
        String.intercalate ", " (call.operands.map (·.text)) ++ "]"⟩ ::
        stageLines (stage + 1) call.leaves rest dest

/-- The lines of planning the calls of a chain whose signatures were merged. -/
def callLines (chain : Chain) (signature : KernelSignature) (name : String) (config : FusionConfig)
    (dest : Module) : List LogLine :=
  if dest.hasSymbol name then []
  else
    match resolveStage 0 chain.first dest with
    | (.error _, _) => []
    | (.ok first, dest) =>
      match resolveStage (chain.length - 1) chain.last dest with
      | (.error _, _) => []
      | (.ok _, dest) =>
        match fusedParams signature first config with
        | .error _ => []
        | .ok _ =>
          let current := if signature.has .input then some Operand.dataIn else none
          stageLines 0 current chain.stages dest

/-- The lines of fusing a chain. -/
def fuseLines (chain : Chain) (name : String) (config : FusionConfig) (dest : Module) :
    List LogLine :=
  let calls := match chain.reconcile with
    | .ok signature => callLines chain signature name config dest
    | .error _ => []
  let result := match fuse chain name config dest with
    | (.ok kernel, left) =>
      [⟨.info, "fused " ++ kernel.stages.repr ++ " kernels into '" ++ kernel.name ++ "' (" ++
        kernel.signature.text ++ ") in module '" ++ left.name ++ "'"⟩]
    | (.error _, _) => []
  chain.reconcileLines ++ calls ++ result

/-- The lines of wrapping an invokable function. -/
def wrapLines (target : InvokableSlot) (name : String) (config : FusionConfig) (dest : Module) :
    List LogLine :=
  match target.name, wrapInvoke target name config dest with
  | .ok targetName, (.ok _, _) =>
    let callee := (((dest.materialize targetName).callable? targetName).map (·.id)).getD 0
    [⟨.debug, "wrapping '" ++ targetName ++ "' (" ++ FunctionId.text callee ++ ") as '" ++ name ++
        "'"⟩,
      ⟨.info, "wrapped invokable '" ++ targetName ++ "' as '" ++ name ++ "'"⟩]
  | _, _ => []

end KernelFusion

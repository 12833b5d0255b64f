import KernelFusion.Fusion.Chain

/-!
# Merging signatures

The signature of a fused kernel: the coordinates that any stage takes, the input of the first stage
and the output of the last. Stages may read one input at most and have no flags but these.
-/

namespace KernelFusion

/-- What merging needs to know about a stage, or why it cannot take part. -/
def checkStage (stage : Nat) (k : KernelSlot) : Except ReconcileError KernelSignature :=
  match k.describe with
  | .error e => .error (.exports stage e)
  | .ok d =>
    if 1 < d.inputs then .error (.unsupportedInput stage d.module d.name d.inputs)
    else if d.signature.unexpected.isEmpty then .ok d.signature
    else .error (.unsupportedFlags stage d.module d.name d.signature d.signature.unexpected)

/-- The signatures of stages from a position on; the first stage that cannot take part decides. -/
def stageSignatures (stage : Nat) : List KernelSlot → Except ReconcileError (List KernelSignature)
  | [] => .ok []
  | k :: rest =>
    match checkStage stage k with
    | .error e => .error e
    | .ok s => (stageSignatures (stage + 1) rest).map (s :: ·)

/-- The merged signature of a list of signatures. -/
def KernelSignature.merge (signatures : List KernelSignature) : KernelSignature :=
  let all := signatures.foldl .union .empty
  let keepsInput := signatures.head?.any (·.has .input)
  let keepsOutput := signatures.getLast?.any (·.has .output)
  let withInput := if keepsInput then all else all.without .input
  if keepsOutput then withInput else withInput.without .output

/-- The merged signature of a chain. -/
def Chain.reconcile (c : Chain) : Except ReconcileError KernelSignature :=
  (stageSignatures 0 c.stages).map KernelSignature.merge

end KernelFusion

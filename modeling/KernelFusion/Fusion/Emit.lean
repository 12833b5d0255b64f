import KernelFusion.IR.Module

/-!
# Emitting straight-line functions

Fused kernels and wrappers have one block: calls, then a return. An `Emission` is such a function
while its calls are added. The settings of a request say which types and labels are emitted.
-/

namespace KernelFusion

/-- The settings of fusion requests. -/
structure FusionConfig where
  /-- The type of the coordinate parameters of fused kernels. -/
  coordinateType : Ty
  /-- The label of the entry block of emitted functions. -/
  entryLabel : String
  /-- Whether the destination is validated after a request. -/
  verify : Bool
deriving DecidableEq

/-- The settings that hold where nothing else is said. -/
def FusionConfig.standard : FusionConfig := ⟨.u32, "entry", true⟩

/-- A function under construction and the calls of its only block. -/
structure Emission where
  /-- The function, its block still empty. -/
  function : Function
  /-- The calls so far. -/
  body : List Instruction
deriving DecidableEq

namespace Emission

/-- A function without calls. -/
def start (id : FunctionId) (name : String) (prototype : Prototype) (linkage : Linkage) :
    Emission :=
  let made := Function.new id name prototype
  ⟨{ made with attributes := { made.attributes with linkage := linkage } }, []⟩

/-- The register of a parameter, the invalid one if there is no such parameter. -/
def param (e : Emission) (index : Nat) : Register :=
  (e.function.paramRegister? index).getD Register.invalid

/-- Add a call. The register of its result is the invalid one if the callee is void. -/
def call (e : Emission) (callee : FunctionId) (args : List Register) (result : Ty) :
    Emission × Register :=
  if result.isVoid then
    ({ e with body := e.body ++ [.call none callee args] }, Register.invalid)
  else
    let (f, dest) := e.function.allocRegister
    (⟨f.setRegisterType dest result, e.body ++ [.call (some dest) callee args]⟩, dest)

/-- The finished function: its block labelled, with the calls and a return. -/
def finish (e : Emission) (label : String) (value : Option Register) : Function :=
  e.function.modifyBlock e.function.graph.entry (fun b =>
    { b with label := some label, instructions := e.body, terminator := .ret value })

end Emission

end KernelFusion

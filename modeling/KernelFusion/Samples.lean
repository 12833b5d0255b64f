import KernelFusion.Bundle.Basic
import KernelFusion.Fusion.Plan
import KernelFusion.IR.Builder
import KernelFusion.IR.Link

/-!
# Sample modules

Two small modules to try fusions with. The module `image` has kernels that scale by x, add one and
add y, an unused slot, and a setup function. The module `extra` has a generator, a sink, a kernel
with two inputs, one with a context, one that scales by z, and a reset function. Linked into one
module they are the destination of sample fusions.
-/

namespace KernelFusion.Samples

/-- Define a public function of one labelled block; `body` adds its instructions and says what is
returned. -/
def define (b : Builder) (name : String) (params : List (String × Ty)) (result : Ty)
    (convention : Convention) (body : Builder → Builder × Option Register) : Builder :=
  let (b, _) := b.start name (.ofParams params result convention) .pub
  let (b, _) := b.setLabel "entry"
  let (b, value) := body b
  (b.ret value).1.finish

/-- A parameter's register. -/
def param (b : Builder) (index : Nat) : Register :=
  (b.paramRegister? index).getD Register.invalid

/-- Combine the first parameter with the second one, a coordinate made a number. -/
def combineCoordinate (op : BinaryOp) (b : Builder) : Builder × Option Register :=
  let input := param b 0
  match b.cast (param b 1) .u32 .f32 with
  | (b, some coordinate) => b.binary op input coordinate
  | (b, none) => (b, none)

/-- Add one to the first parameter. -/
def addOne (b : Builder) : Builder × Option Register :=
  let input := param b 0
  match b.const (.f32 0x3f800000) with
  | (b, some one) => b.binary .fadd input one
  | (b, none) => (b, none)

/-- Do nothing and return nothing. -/
def nothing (b : Builder) : Builder × Option Register := (b, none)

/-- The flags of a kernel that reads and writes an element, and more. -/
def elementwise (more : KernelSignature) : KernelSignature :=
  ((KernelSignature.kernel.union .input).union .output).union more

/-- The first sample module. -/
def image : Module :=
  let b := Builder.new (Module.new "image")
  let b := define b "scale_x" [("in", .f32), ("x", .u32)] .f32 .kernel (combineCoordinate .fmul)
  let b := define b "offset" [("in", .f32)] .f32 .kernel addOne
  let b := define b "bias_y" [("in", .f32), ("y", .u32)] .f32 .kernel (combineCoordinate .fadd)
  let b := define b "setup" [("params", .ptr .u8)] .void .c nothing
  let m := b.module.exportForeach "scale_x" (elementwise .x)
  let m := m.exportForeach "offset" (elementwise .empty)
  let m := m.exportForeach "bias_y" (elementwise .y)
  let m := m.exportForeach "" .empty
  m.exportInvokable "setup"

/-- The second sample module. -/
def extra : Module :=
  let b := Builder.new (Module.new "extra")
  let b := define b "fill" [("x", .u32)] .f32 .kernel (fun b => b.cast (param b 0) .u32 .f32)
  let b := define b "sink" [("in", .f32)] .void .kernel nothing
  let b := define b "pair" [("a", .f32), ("b", .f32)] .f32 .kernel
    (fun b => b.binary .fadd (param b 0) (param b 1))
  let b := define b "with_ctx" [("in", .f32), ("ctx", .ptr .u8), ("x", .u32)] .f32 .kernel
    (fun b => (b, some (param b 0)))
  let b := define b "depth_z" [("in", .f32), ("z", .u32)] .f32 .kernel (combineCoordinate .fmul)
  let b := define b "reset" [("count", .i32)] .i32 .c (fun b => b.unary .neg (param b 0))
  let m := b.module.exportForeach "fill" ((KernelSignature.kernel.union .output).union .x)
  let m := m.exportForeach "sink" (KernelSignature.kernel.union .input)
  let m := m.exportForeach "pair" (elementwise .empty)
  let m := m.exportForeach "with_ctx" (elementwise (KernelSignature.x.union .context))
  let m := m.exportForeach "depth_z" (elementwise .z)
  m.exportInvokable "reset"

/-- Both sample modules. -/
def bundle : Bundle := ⟨[image, extra]⟩

/-- Both sample modules linked; all bodies are pending. -/
def merged : Module :=
  match Module.linkAll "merged" [image, extra] with
  | .ok m => m
  | .error _ => Module.new "merged"

/-- Scale by x, add one, add y. -/
def filter : Chain := ⟨[⟨image, 0⟩, ⟨image, 1⟩, ⟨image, 2⟩], by simp⟩

/-- The linked modules with the filter as a kernel of its own. -/
def fused : Module := (fuse filter "fused" .standard merged).2

/-- Feed a sink, which has no result, into a kernel that reads one. -/
def blocked : Chain := ⟨[⟨extra, 1⟩, ⟨image, 1⟩], by simp⟩

/-- A module that declares a function of the first sample module. -/
def host : Module :=
  (Module.new "host").add (.declaration 0 "offset" (.ofParams [("in", .f32)] .f32 .kernel))

end KernelFusion.Samples

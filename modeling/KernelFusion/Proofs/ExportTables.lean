import KernelFusion.Export.Slots
import KernelFusion.Proofs.Flags
import KernelFusion.Proofs.Tokens

/-!
# Reading export tables back

The token of a signature is read as that signature, so tables can be read if they hold the names of
kernels beside the tokens of their signatures and the inputs of every kernel can be counted; what is
read are the names and signatures that were recorded. The inputs of a kernel with an input first if
it reads one, then its coordinates, are one or none.
-/

namespace KernelFusion

namespace Module

variable {m : Module}

/-- Exporting a kernel appends its name and its token. -/
theorem records_exportForeach (m : Module) (name : String) (s : KernelSignature) :
    (m.exportForeach name s).records foreachNameTable = m.records foreachNameTable ++ [name] ∧
      (m.exportForeach name s).records foreachTable = m.records foreachTable ++ [s.token] ∧
      (m.exportForeach name s).records invokableTable = m.records invokableTable := by
  simp [records, exportForeach, appendRecord, Tables.records_append, foreachNameTable, foreachTable,
    invokableTable]

/-- Exporting an invokable function appends its name. -/
theorem records_exportInvokable (m : Module) (name : String) :
    (m.exportInvokable name).records foreachNameTable = m.records foreachNameTable ∧
      (m.exportInvokable name).records foreachTable = m.records foreachTable ∧
      (m.exportInvokable name).records invokableTable = m.records invokableTable ++ [name] := by
  simp [records, exportInvokable, appendRecord, Tables.records_append, foreachNameTable,
    foreachTable, invokableTable]

/-- The inputs of a kernel are counted if its entry point takes the input, if there is one, and the
coordinates. -/
theorem inputCount_eq {name : String} {id : FunctionId} {f : Function} {s : KernelSignature}
    (hid : m.idOf? name = some id) (hf : m.function? id = some f)
    (hparams : f.prototype.params.length = s.inputs + s.coordinates.length)
    (hcontext : s.has .context = false) (slot : Nat) :
    m.inputCount slot name s = .ok (if name = "" then 0 else s.inputs.toUInt32) := by
  unfold inputCount
  by_cases hname : name = ""
  · rw [if_pos hname, if_pos hname]
  · rw [if_neg hname, if_neg hname]
    cases hkernel : s.has .kernel with
    | false => simp [s.toUInt32_inputs]
    | true => simp [hid, hf, hparams, hcontext]

/-- Columns are read as what was recorded. -/
theorem foreachColumns_eq {kernels : List (String × KernelSignature)} (slot : Nat)
    (hcount : ∀ e ∈ kernels, ∀ slot, m.inputCount slot e.1 e.2 =
      .ok (if e.1 = "" then 0 else e.2.inputs.toUInt32)) :
    m.foreachColumns slot (kernels.map (fun e => (e.1, e.2.token))) =
      .ok (kernels.map (·.2),
        kernels.map (fun e => if e.1 = "" then 0 else e.2.inputs.toUInt32)) := by
  induction kernels generalizing slot with
  | nil => rfl
  | cons e rest ih =>
    have hhead := hcount e List.mem_cons_self slot
    have hlater := ih (slot + 1) (fun e he => hcount e (List.mem_cons_of_mem _ he))
    rw [List.map_cons, foreachColumns, foreachSlot, KernelSignature.ofToken?_token]
    simp only [hhead, hlater, Except.map, List.map_cons]

/-- Export tables are read as what was recorded. -/
theorem exports_eq {kernels : List (String × KernelSignature)}
    (hnames : m.records foreachNameTable = kernels.map (·.1))
    (htokens : m.records foreachTable = kernels.map (·.2.token))
    (hcount : ∀ e ∈ kernels, ∀ slot, m.inputCount slot e.1 e.2 =
      .ok (if e.1 = "" then 0 else e.2.inputs.toUInt32)) :
    m.exports = .ok ⟨kernels.map (·.1), kernels.map (·.2),
      kernels.map (fun e => if e.1 = "" then 0 else e.2.inputs.toUInt32),
      m.records invokableTable⟩ := by
  have hlength : (kernels.map (·.1)).length = (kernels.map (·.2.token)).length := by simp
  have hzip : (kernels.map (·.1)).zip (kernels.map (·.2.token)) =
      kernels.map (fun e => (e.1, e.2.token)) := List.zip_map'
  unfold exports
  simp only [hnames, htokens, if_pos hlength]
  rw [hzip, foreachColumns_eq 0 hcount]
  rfl

end Module

end KernelFusion

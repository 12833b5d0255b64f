import KernelFusion.Fusion.Error

/-!
# Kernel slots and chains

A stage of a fusion is a kernel slot of some module. A chain is a list of stages that is not empty;
its kernels run one after the other on each element.
-/

namespace KernelFusion

/-- One kernel slot of a module. -/
structure KernelSlot where
  /-- The module. -/
  module : Module
  /-- The position in the tables of the module. -/
  slot : Nat
deriving DecidableEq

/-- What the tables of a module say about a kernel. -/
structure KernelDescriptor where
  /-- The name of the module. -/
  module : String
  /-- The position in the tables of the module. -/
  slot : Nat
  /-- The name of the entry point; empty for an unused slot. -/
  name : String
  /-- The number of inputs the kernel reads. -/
  inputs : UInt32
  /-- The signature of the kernel. -/
  signature : KernelSignature
deriving DecidableEq

/-- Whether the slot is in use. -/
def KernelDescriptor.hasName (d : KernelDescriptor) : Bool := d.name != ""

/-- Read what the tables say about a slot. All of the module's tables must be in order. The slot is
checked against the names; the other columns are as long as these. -/
def KernelSlot.describe (k : KernelSlot) : Except ExportError KernelDescriptor :=
  match h : k.module.exports with
  | .error e => .error e
  | .ok tables =>
    if hname : k.slot < tables.names.length then
      have hsignature : k.slot < tables.signatures.length :=
        (Module.length_exports h).1.symm ▸ hname
      have hinputs : k.slot < tables.inputs.length := (Module.length_exports h).2.symm ▸ hname
      .ok ⟨k.module.name, k.slot, tables.names[k.slot], tables.inputs[k.slot],
        tables.signatures[k.slot]⟩
    else .error (.slotOutOfRange k.module.name .foreach k.slot tables.names.length)

namespace KernelSlot

variable {k : KernelSlot} {tables : Exports}

/-- Where tables cannot be read no slot is described. -/
theorem describe_of_error {e : ExportError} (h : k.module.exports = .error e) :
    k.describe = .error e := by
  unfold describe
  split
  next e' he => rw [Except.error.inj (h.symm.trans he)]
  next tables ht => cases h.symm.trans ht

/-- A slot is described by what stands at its position in all columns. -/
theorem describe_eq_ok_iff (h : k.module.exports = .ok tables) {d : KernelDescriptor} :
    k.describe = .ok d ↔ d.module = k.module.name ∧ d.slot = k.slot ∧
      tables.names[k.slot]? = some d.name ∧ tables.inputs[k.slot]? = some d.inputs ∧
      tables.signatures[k.slot]? = some d.signature := by
  obtain ⟨module, slot, name, inputs, signature⟩ := d
  unfold describe
  split
  next e he => cases h.symm.trans he
  next tables' ht =>
    cases h.symm.trans ht
    split
    next hname =>
      have hsignature : k.slot < tables.signatures.length :=
        (Module.length_exports h).1.symm ▸ hname
      have hinputs : k.slot < tables.inputs.length := (Module.length_exports h).2.symm ▸ hname
      simp [hname, hsignature, hinputs, eq_comm]
    next hname => simp [List.getElem?_eq_none (Nat.le_of_not_lt hname)]

/-- A slot is described unless its position lies behind the tables. -/
theorem describe_eq_error_iff (h : k.module.exports = .ok tables) {e : ExportError} :
    k.describe = .error e ↔ tables.names.length ≤ k.slot ∧
      e = .slotOutOfRange k.module.name .foreach k.slot tables.names.length := by
  unfold describe
  split
  next e' he => cases h.symm.trans he
  next tables' ht =>
    cases h.symm.trans ht
    split
    next hname => simp [Nat.not_le.mpr hname]
    next hname => simp [Nat.le_of_not_lt hname, eq_comm]

end KernelSlot

/-- Kernels to run one after the other. -/
structure Chain where
  /-- The stages in order. -/
  stages : List KernelSlot
  /-- There is at least one stage. -/
  nonempty : stages ≠ []
deriving DecidableEq

namespace Chain

/-- The chain of a list of stages. -/
def ofStages (stages : List KernelSlot) : Except FusionError Chain :=
  if h : stages = [] then .error .emptyChain else .ok ⟨stages, h⟩

/-- The chain of the slots of a list in the modules of another. -/
def ofSlots (modules : List Module) (slots : List Nat) : Except FusionError Chain :=
  if modules.length = slots.length then ofStages (List.zipWith KernelSlot.mk modules slots)
  else .error (.slotCountMismatch modules.length slots.length)

/-- The number of stages. -/
def length (c : Chain) : Nat := c.stages.length

/-- The first stage. -/
def first (c : Chain) : KernelSlot := c.stages.head c.nonempty

/-- The last stage. -/
def last (c : Chain) : KernelSlot := c.stages.getLast c.nonempty

end Chain

end KernelFusion

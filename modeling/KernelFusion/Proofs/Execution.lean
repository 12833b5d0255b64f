import KernelFusion.IR.Module

/-!
# Running functions

What a function of one block computes, on any machine: a machine says what a call does and what
every other instruction does, and running keeps a register file. Running gets stuck on a register
that was never written and on a result without a register or a register without a result.
-/

namespace KernelFusion

/-- What calls and other instructions do: the state after them and their result, if there is one. -/
structure Machine (σ V : Type) where
  /-- Call a function by its number. -/
  call : FunctionId → σ → List V → σ × Option V
  /-- Perform an instruction that is no call, given the values of the registers it reads. -/
  operate : Instruction → σ → List V → σ × Option V

/-- The values of the registers that were written. -/
abbrev RegisterFile (V : Type) := Register → Option V

namespace RegisterFile

variable {V : Type}

/-- Nothing was written yet. -/
def empty : RegisterFile V := fun _ => none

/-- Write a register. -/
def set (regs : RegisterFile V) (r : Register) (value : V) : RegisterFile V :=
  fun other => if other = r then some value else regs other

/-- Read registers; all of them must have been written. -/
def readAll (regs : RegisterFile V) : List Register → Option (List V)
  | [] => some []
  | r :: rest =>
    match regs r, regs.readAll rest with
    | some value, some values => some (value :: values)
    | _, _ => none

/-- Write registers in order, one value for each. -/
def bind (regs : RegisterFile V) : List Register → List V → Option (RegisterFile V)
  | [], [] => some regs
  | r :: rest, value :: values => (regs.set r value).bind rest values
  | _, _ => none

theorem set_self (regs : RegisterFile V) (r : Register) (value : V) :
    regs.set r value r = some value := by
  simp [set]

theorem set_other {regs : RegisterFile V} {r other : Register} {value : V} (h : other ≠ r) :
    regs.set r value other = regs other := by
  simp [set, h]

/-- Registers that hold values are read as these. -/
theorem readAll_eq_some {regs : RegisterFile V} {rs : List Register} {values : List V}
    (h : rs.map regs = values.map some) : regs.readAll rs = some values := by
  induction rs generalizing values with
  | nil =>
    cases values with
    | nil => rfl
    | cons value rest => cases h
  | cons r rest ih =>
    cases values with
    | nil => cases h
    | cons value values =>
      obtain ⟨hr, hrest⟩ := List.cons.inj h
      rw [readAll, hr, ih hrest]

/-- Different registers can be bound to as many values, and then hold these. -/
theorem bind_of_nodup (regs : RegisterFile V) {rs : List Register} (values : List V)
    (hdistinct : rs.Nodup) (hlen : rs.length = values.length) :
    ∃ bound, regs.bind rs values = some bound ∧ rs.map bound = values.map some ∧
      ∀ r, r ∉ rs → bound r = regs r := by
  induction rs generalizing regs values with
  | nil =>
    cases values with
    | nil => exact ⟨regs, rfl, rfl, fun _ _ => rfl⟩
    | cons value rest => cases hlen
  | cons r rest ih =>
    cases values with
    | nil => cases hlen
    | cons value values =>
      obtain ⟨hr, hrest⟩ := List.nodup_cons.mp hdistinct
      obtain ⟨bound, hbind, hvalues, hother⟩ :=
        ih (regs.set r value) values hrest (Nat.succ.inj hlen)
      refine ⟨bound, hbind, ?_, fun r' hr' => ?_⟩
      · rw [List.map_cons, hother r hr, set_self, hvalues, List.map_cons]
      · obtain ⟨hne, hmem⟩ := List.ne_and_not_mem_of_not_mem_cons hr'
        rw [hother r' hmem, set_other hne]

end RegisterFile

variable {σ V : Type}

/-- Perform an instruction. -/
def Instruction.run (machine : Machine σ V) (i : Instruction) (s : σ) (regs : RegisterFile V) :
    Option (σ × RegisterFile V) :=
  match regs.readAll i.uses with
  | none => none
  | some args =>
    let (s, result) := match i with
      | .call _ callee _ => machine.call callee s args
      | _ => machine.operate i s args
    match i.dest, result with
    | some r, some value => some (s, regs.set r value)
    | none, none => some (s, regs)
    | _, _ => none

/-- Perform instructions one after the other. -/
def runInstructions (machine : Machine σ V) :
    List Instruction → σ → RegisterFile V → Option (σ × RegisterFile V)
  | [], s, regs => some (s, regs)
  | i :: rest, s, regs =>
    match i.run machine s regs with
    | none => none
    | some (s, regs) => runInstructions machine rest s regs

/-- Return from a block: with a value, without one, or not at all. -/
def Terminator.leave (regs : RegisterFile V) : Terminator → Option (Option V)
  | .ret none => some none
  | .ret (some r) => (regs r).map some
  | .branch _ | .branchIf _ _ _ | .unreachable => none

/-- Run a function of one block: bind the parameters in order, perform the instructions of the entry
block, return. -/
def Function.run (machine : Machine σ V) (f : Function) (s : σ) (args : List V) :
    Option (σ × Option V) :=
  match RegisterFile.empty.bind (f.prototype.params.map (·.reg)) args,
      f.graph.blocks.get? f.graph.entry with
  | some regs, some block =>
    match runInstructions machine block.instructions s regs with
    | none => none
    | some (s, regs) => (block.terminator.leave regs).map (s, ·)
  | _, _ => none

/-- Instructions behind others go on where these end. -/
theorem runInstructions_append {machine : Machine σ V} {is later : List Instruction} {s s' : σ}
    {regs regs' : RegisterFile V} (h : runInstructions machine is s regs = some (s', regs')) :
    runInstructions machine (is ++ later) s regs = runInstructions machine later s' regs' := by
  induction is generalizing s regs with
  | nil =>
    cases h
    rfl
  | cons i rest ih =>
    rw [runInstructions] at h
    rw [List.cons_append, runInstructions]
    rcases hi : i.run machine s regs with _ | ⟨s₁, regs₁⟩
    · rw [hi] at h
      cases h
    · rw [hi] at h
      exact ih h

/-- A call whose result fits its register: the result is written, or there is none. -/
theorem run_call {machine : Machine σ V} {dest : Option Register} {callee : FunctionId}
    {args : List Register} {s s' : σ} {regs : RegisterFile V} {values : List V} {result : Option V}
    (hargs : args.map regs = values.map some) (hcall : machine.call callee s values = (s', result))
    (hfit : dest.isSome = result.isSome) :
    (Instruction.call dest callee args).run machine s regs = some (s',
      match dest, result with
      | some r, some value => regs.set r value
      | _, _ => regs) := by
  unfold Instruction.run
  rw [show (Instruction.call dest callee args).uses = args from rfl,
    RegisterFile.readAll_eq_some hargs]
  simp only [hcall]
  cases dest <;> cases result <;> first | rfl | cases hfit

end KernelFusion

import KernelFusion.Proofs.Checking
import KernelFusion.Proofs.Lists
import Mathlib.Tactic.MkIffOfInductiveProp

/-!
# What validation accepts

Validation walks over a body with a growing list of defined registers. That it finds nothing comes
down to two things: the body is in order, which is a matter of the positions at which registers are
written and read and of how blocks end, and every call fits the function that it calls. Only the
second depends on the module.
-/

namespace KernelFusion

/-- The registers that instructions write, in order. -/
def writes (is : List Instruction) : List Register := is.filterMap (·.dest)

/-- The registers that a block writes, in order. -/
def Block.writes (b : Block) : List Register := KernelFusion.writes b.instructions

/-- The registers of the parameters, in order. -/
def Function.paramRegisters (f : Function) : List Register := f.prototype.params.map (·.reg)

/-- The registers that a terminator reads. -/
def Terminator.uses : Terminator → List Register
  | branchIf condition _ _ => [condition]
  | ret value => value.toList
  | branch _ | unreachable => []

/-- A call passes as many arguments as the function takes that it calls, and binds a result exactly
if that function has one. Other instructions fit any module. -/
def Instruction.Fits (m : Module) : Instruction → Prop
  | call dest callee args => ∃ f, m.function? callee = some f ∧
      f.prototype.params.length = args.length ∧ dest.isSome = !f.result.isVoid
  | _ => True

/-- An instruction is in order where `defined` are defined before it. -/
@[mk_iff]
structure Instruction.Ordered (defined : List Register) (i : Instruction) : Prop where
  /-- It reads registers that are defined. -/
  reads : i.uses ⊆ defined
  /-- It writes a register that is not defined yet. -/
  fresh : ∀ r, i.dest = some r → r ∉ defined

/-- A terminator of a function is in order where `defined` are defined before it. -/
@[mk_iff]
structure Terminator.Ordered (f : Function) (defined : List Register) (t : Terminator) : Prop where
  /-- It says how the block ends. -/
  terminated : t ≠ .unreachable
  /-- It reads registers that are defined. -/
  reads : t.uses ⊆ defined
  /-- It goes to blocks that exist. -/
  targets : ∀ id ∈ t.successors, f.graph.blocks.contains id = true
  /-- A return gives a value exactly if the function has a result. -/
  returns : ∀ value, t = .ret value → value.isSome = !f.result.isVoid
  /-- A register that is returned has the type of the result, if its type is recorded. -/
  typed : ∀ r, t = .ret (some r) → ∀ ty, f.registerTypes.get? r = some ty → ty = f.result

/-- A block of a function is in order where `defined` are defined before it. -/
@[mk_iff]
structure Block.Ordered (f : Function) (defined : List Register) (b : Block) : Prop where
  /-- Each instruction is in order behind those before it. -/
  instructions : ∀ before i after, b.instructions = before ++ i :: after →
    i.Ordered (defined ++ KernelFusion.writes before)
  /-- The terminator is in order behind the instructions. -/
  terminator : b.terminator.Ordered f (defined ++ b.writes)

/-- The body of a function is in order: the parameters are different, and every block is in order
behind the parameters and the blocks before it. -/
@[mk_iff]
structure Function.Ordered (f : Function) : Prop where
  /-- The parameters have different registers. -/
  params : f.paramRegisters.Nodup
  /-- Every block is in order. -/
  blocks : ∀ before b after, f.graph.blocks.values = before ++ b :: after →
    b.Ordered f (f.paramRegisters ++ before.flatMap Block.writes)

/-- All calls of a body fit. -/
def Function.Fits (m : Module) (f : Function) : Prop := ∀ i ∈ f.graph.instructions, i.Fits m

theorem writes_cons (i : Instruction) (is : List Instruction) :
    writes (i :: is) = i.dest.toList ++ writes is := by
  cases h : i.dest <;> simp [writes, h]

section Congruence

variable {defined defined' : List Register}

/-- It does not matter in which order registers were defined. -/
theorem Instruction.Ordered.congr (h : ∀ r, r ∈ defined ↔ r ∈ defined') {i : Instruction} :
    i.Ordered defined ↔ i.Ordered defined' :=
  ⟨fun hi => ⟨fun r hr => (h r).mp (hi.reads hr), fun r hr => mt (h r).mpr (hi.fresh r hr)⟩,
    fun hi => ⟨fun r hr => (h r).mpr (hi.reads hr), fun r hr => mt (h r).mp (hi.fresh r hr)⟩⟩

theorem Terminator.Ordered.congr (h : ∀ r, r ∈ defined ↔ r ∈ defined') {f : Function}
    {t : Terminator} : t.Ordered f defined ↔ t.Ordered f defined' :=
  ⟨fun ht => { ht with reads := fun r hr => (h r).mp (ht.reads hr) },
    fun ht => { ht with reads := fun r hr => (h r).mpr (ht.reads hr) }⟩

theorem Block.Ordered.congr (h : ∀ r, r ∈ defined ↔ r ∈ defined') {f : Function} {b : Block} :
    b.Ordered f defined ↔ b.Ordered f defined' := by
  have happend (rs : List Register) (r : Register) : r ∈ defined ++ rs ↔ r ∈ defined' ++ rs := by
    rw [List.mem_append, List.mem_append, h]
  constructor
  · exact fun hb => ⟨fun before i after hl =>
      (Instruction.Ordered.congr (happend _)).mp (hb.instructions before i after hl),
      (Terminator.Ordered.congr (happend _)).mp hb.terminator⟩
  · exact fun hb => ⟨fun before i after hl =>
      (Instruction.Ordered.congr (happend _)).mpr (hb.instructions before i after hl),
      (Terminator.Ordered.congr (happend _)).mpr hb.terminator⟩

end Congruence

namespace Validation

variable {m : Module} {f : Function} {defined : List Register}

theorem uses_eq_nil_iff {regs : List Register} : uses defined regs = [] ↔ regs ⊆ defined := by
  refine ⟨fun h r hr => ?_, uses_eq_nil⟩
  unfold uses at h
  rw [List.map_eq_nil_iff, List.filter_eq_nil_iff] at h
  simpa using h r hr

/-- Registers can be defined if they are different and new. -/
theorem define_eq_nil_iff {rs : List Register} :
    (define defined rs).1 = [] ↔ rs.Nodup ∧ ∀ r ∈ rs, r ∉ defined := by
  refine ⟨fun h => ?_, fun ⟨hdistinct, hnew⟩ => by rw [define_of_nodup hdistinct hnew]⟩
  induction rs generalizing defined with
  | nil => simp
  | cons r rest ih =>
    unfold define at h
    split at h
    next => cases h
    next hr =>
      obtain ⟨hdistinct, hnew⟩ := ih h
      refine ⟨List.nodup_cons.mpr ⟨fun hmem => hnew r hmem List.mem_cons_self, hdistinct⟩,
        fun r' hr' => ?_⟩
      rcases List.mem_cons.mp hr' with rfl | hr'
      · exact hr
      · exact fun hmem => hnew r' hr' (List.mem_cons_of_mem r hmem)

/-- What was defined stays defined, and the registers are added. -/
theorem mem_define {rs : List Register} {r : Register} :
    r ∈ (define defined rs).2 ↔ r ∈ defined ++ rs := by
  induction rs generalizing defined with
  | nil => simp [define]
  | cons r' rest ih =>
    unfold define
    split
    next hr =>
      have hmem : r ∈ r' :: rest ∨ r ∈ defined ↔ r ∈ rest ∨ r ∈ defined := by
        rw [List.mem_cons, or_assoc, or_iff_right_iff_imp]
        rintro rfl
        exact Or.inr hr
      rw [ih, List.mem_append, List.mem_append, or_comm, ← hmem, or_comm]
    next => simp only [ih, List.mem_append, List.mem_cons, or_assoc, or_left_comm]

/-- An instruction is valid if it is in order and fits. -/
theorem instruction_eq_nil_iff {i : Instruction} :
    (instruction m defined i).1 = [] ↔ i.Ordered defined ∧ i.Fits m := by
  have hordered : i.Ordered defined ↔
      uses defined i.uses = [] ∧ (define defined i.dest.toList).1 = [] := by
    rw [uses_eq_nil_iff, define_eq_nil_iff, Instruction.ordered_iff]
    cases i.dest <;> simp
  cases i with
  | call dest callee args =>
    simp only [instruction, List.append_eq_nil_iff, hordered, Instruction.Fits, call_eq_nil_iff]
    exact and_right_comm
  | _ => simp only [instruction, List.append_nil, List.append_eq_nil_iff, hordered,
      Instruction.Fits, and_true]

theorem mem_instruction {i : Instruction} {r : Register} :
    r ∈ (instruction m defined i).2 ↔ r ∈ defined ++ i.dest.toList := mem_define

/-- Instructions define what they write. -/
theorem mem_instructions {is : List Instruction} {r : Register} :
    r ∈ (instructions m defined is).2 ↔ r ∈ defined ++ writes is := by
  induction is generalizing defined with
  | nil => simp [instructions, writes]
  | cons i rest ih =>
    simp only [instructions, ih, writes_cons, List.mem_append, mem_instruction, or_assoc]

/-- Instructions are valid if each is in order behind those before it and fits. -/
theorem instructions_eq_nil_iff {is : List Instruction} :
    (instructions m defined is).1 = [] ↔
      (∀ before i after, is = before ++ i :: after → i.Ordered (defined ++ writes before)) ∧
      ∀ i ∈ is, i.Fits m := by
  induction is generalizing defined with
  | nil => simp [instructions]
  | cons i rest ih =>
    have hlater : ∀ before : List Instruction, ∀ r,
        r ∈ (instruction m defined i).2 ++ writes before ↔ r ∈ defined ++ writes (i :: before) := by
      intro before r
      simp only [writes_cons, List.mem_append, mem_instruction, or_assoc]
    have hfirst : defined ++ writes [] = defined := List.append_nil defined
    simp only [instructions, List.append_eq_nil_iff, instruction_eq_nil_iff, ih,
      forall_split_cons, hfirst, Instruction.Ordered.congr (hlater _), List.forall_mem_cons]
    exact and_and_and_comm

theorem target_eq_nil_iff {id : BlockId} :
    target f id = [] ↔ f.graph.blocks.contains id = true := by
  unfold target
  split <;> simp_all

theorem ret_eq_nil_iff {value : Option Register} :
    ret f defined value = [] ↔ value.toList ⊆ defined ∧ value.isSome = (!f.result.isVoid) ∧
      ∀ r, value = some r → ∀ ty, f.registerTypes.get? r = some ty → ty = f.result := by
  cases value with
  | none => cases hvoid : f.result.isVoid <;> simp [ret, hvoid]
  | some r =>
    cases hvoid : f.result.isVoid with
    | true => simp [ret, hvoid]
    | false => cases hty : f.registerTypes.get? r <;> simp [ret, hvoid, hty, uses_eq_nil_iff]

/-- A terminator is valid if it is in order. -/
theorem terminator_eq_nil_iff {t : Terminator} :
    terminator f defined t = [] ↔ t.Ordered f defined := by
  rw [Terminator.ordered_iff]
  cases t with
  | branch goal => simp [terminator, target_eq_nil_iff, Terminator.uses, Terminator.successors]
  | branchIf condition onTrue onFalse =>
    simp [terminator, uses_eq_nil_iff, target_eq_nil_iff, Terminator.uses, Terminator.successors]
  | ret value => simp [terminator, ret_eq_nil_iff, Terminator.uses, Terminator.successors]
  | unreachable => simp [terminator]

/-- A block is valid if it is in order and its calls fit. -/
theorem block_eq_nil_iff {b : Block} :
    (block m f defined b).1 = [] ↔ b.Ordered f defined ∧ ∀ i ∈ b.instructions, i.Fits m := by
  have hafter : ∀ r, r ∈ (instructions m defined b.instructions).2 ↔ r ∈ defined ++ b.writes :=
    fun r => mem_instructions
  simp only [block, List.append_eq_nil_iff, instructions_eq_nil_iff, terminator_eq_nil_iff,
    Block.ordered_iff, Terminator.Ordered.congr hafter]
  exact and_right_comm

theorem mem_block {b : Block} {r : Register} :
    r ∈ (block m f defined b).2 ↔ r ∈ defined ++ b.writes := mem_instructions

/-- Blocks are valid if each is in order behind those before it and all calls fit. -/
theorem blocks_eq_nil_iff {bs : List Block} :
    blocks m f defined bs = [] ↔
      (∀ before b after, bs = before ++ b :: after →
        b.Ordered f (defined ++ before.flatMap Block.writes)) ∧
      ∀ b ∈ bs, ∀ i ∈ b.instructions, i.Fits m := by
  induction bs generalizing defined with
  | nil => simp [blocks]
  | cons b rest ih =>
    have hlater : ∀ before : List Block, ∀ r,
        r ∈ (block m f defined b).2 ++ before.flatMap Block.writes ↔
          r ∈ defined ++ (b :: before).flatMap Block.writes := by
      intro before r
      simp only [List.flatMap_cons, List.mem_append, mem_block, or_assoc]
    have hfirst : defined ++ ([] : List Block).flatMap Block.writes = defined :=
      List.append_nil defined
    simp only [blocks, List.append_eq_nil_iff, List.map_eq_nil_iff, block_eq_nil_iff, ih,
      forall_split_cons, hfirst, Block.Ordered.congr (hlater _), List.forall_mem_cons]
    exact and_and_and_comm

end Validation

/-- A body has no error exactly if it is in order and its calls fit. -/
theorem Function.errors_eq_nil_iff {m : Module} {f : Function} :
    f.errors m = [] ↔ f.Ordered ∧ f.Fits m := by
  have hcalls : f.Fits m ↔
      ∀ b ∈ f.graph.blocks.values, ∀ i ∈ b.instructions, i.Fits m := by
    simp only [Fits, Graph.instructions, List.mem_flatMap]
    exact ⟨fun h b hb i hi => h i ⟨b, hb, hi⟩, fun h i ⟨b, hb, hi⟩ => h b hb i hi⟩
  have hparams : ∀ r, r ∈ (Validation.define [] f.paramRegisters).2 ↔ r ∈ f.paramRegisters :=
    fun r => Validation.mem_define
  have hlater : ∀ before : List Block, ∀ r,
      r ∈ (Validation.define [] f.paramRegisters).2 ++ before.flatMap Block.writes ↔
        r ∈ f.paramRegisters ++ before.flatMap Block.writes := by
    intro before r
    rw [List.mem_append, List.mem_append, hparams]
  have herrors : f.errors m = [] ↔ (Validation.define [] f.paramRegisters).1 = [] ∧
      Validation.blocks m f (Validation.define [] f.paramRegisters).2 f.graph.blocks.values = [] :=
    by simp only [errors, paramRegisters, List.append_eq_nil_iff, List.map_eq_nil_iff]
  rw [herrors, Validation.define_eq_nil_iff, Validation.blocks_eq_nil_iff, Function.ordered_iff,
    hcalls]
  simp only [Block.Ordered.congr (hlater _), List.not_mem_nil, not_false_eq_true, implies_true,
    and_true, and_assoc]

end KernelFusion

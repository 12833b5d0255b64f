import KernelFusion.Proofs.Rules

/-!
# What validation reports

That a body is rejected says little about why. Here every report is tied to its place: a violation
is reported exactly if the rule that it names is broken there, given the registers that are defined
above the place. What is defined above is, as before, the parameters, the blocks before and the
instructions before, and their order does not matter.
-/

namespace KernelFusion

namespace Violation

/-- The rules that a call breaks, wherever it stands. -/
inductive OfCall (m : Module) (dest : Option Register) (callee : FunctionId)
    (args : List Register) : Violation → Prop where
  /-- There is no such function. -/
  | unknown : m.function? callee = none → OfCall m dest callee args (.unknownCallee callee)
  /-- The function takes another number of arguments. -/
  | count {f : Function} : m.function? callee = some f →
      f.prototype.params.length ≠ args.length →
      OfCall m dest callee args (.argumentCount f.name f.prototype.params.length args.length)
  /-- The function has no result, and the call binds one. -/
  | bound {f : Function} : m.function? callee = some f → f.result.isVoid = true →
      dest.isSome = true → OfCall m dest callee args (.boundVoid f.name)
  /-- The function has a result, and the call binds none. -/
  | dropped {f : Function} : m.function? callee = some f → f.result.isVoid = false →
      dest = none → OfCall m dest callee args (.droppedResult f.name)

/-- The rules that an instruction breaks where `defined` are defined above it. -/
inductive OfInstruction (m : Module) (defined : List Register) (i : Instruction) :
    Violation → Prop where
  /-- It reads a register that is not defined. -/
  | read {r : Register} : r ∈ i.uses → r ∉ defined →
      OfInstruction m defined i (.useBeforeDefine r)
  /-- It is a call that breaks a rule. -/
  | call {dest : Option Register} {callee : FunctionId} {args : List Register} {v : Violation} :
      i = .call dest callee args → v.OfCall m dest callee args → OfInstruction m defined i v
  /-- It writes a register that is defined. -/
  | written {r : Register} : i.dest = some r → r ∈ defined →
      OfInstruction m defined i (.multipleDefinitions r)

/-- The rules that a terminator of a function breaks where `defined` are defined above it. -/
inductive OfTerminator (f : Function) (defined : List Register) (t : Terminator) :
    Violation → Prop where
  /-- It does not say how the block ends. -/
  | unterminated : t = .unreachable → OfTerminator f defined t .missingTerminator
  /-- It goes to a block that does not exist. -/
  | target {id : BlockId} : id ∈ t.successors → f.graph.blocks.contains id = false →
      OfTerminator f defined t (.invalidTarget id)
  /-- It reads a register that is not defined. -/
  | read {r : Register} : r ∈ (Point.terminator t).reads f → r ∉ defined →
      OfTerminator f defined t (.useBeforeDefine r)
  /-- It returns nothing though there is a result. -/
  | nothing : t = .ret none → f.result.isVoid = false →
      OfTerminator f defined t (.missingReturnValue f.result)
  /-- It returns a value though there is no result. -/
  | something {r : Register} : t = .ret (some r) → f.result.isVoid = true →
      OfTerminator f defined t .unexpectedReturnValue
  /-- It returns a register of another type than the result has. -/
  | typed {r : Register} {ty : Ty} : t = .ret (some r) → f.result.isVoid = false →
      f.registerTypes.get? r = some ty → ty ≠ f.result →
      OfTerminator f defined t (.returnType ty f.result)

/-- The rules that a block of a function breaks where `defined` are defined above it. -/
inductive OfBlock (m : Module) (f : Function) (defined : List Register) (b : Block)
    (v : Violation) : Prop where
  /-- An instruction breaks the rule. -/
  | instruction {before after : List Instruction} {i : Instruction} :
      b.instructions = before ++ i :: after →
      v.OfInstruction m (defined ++ writes before) i → OfBlock m f defined b v
  /-- The terminator breaks it. -/
  | terminator : v.OfTerminator f (defined ++ b.writes) b.terminator → OfBlock m f defined b v

section Congruence

variable {m : Module} {f : Function} {defined defined' : List Register} {v : Violation}

theorem OfInstruction.of_same (h : ∀ r, r ∈ defined ↔ r ∈ defined') {i : Instruction}
    (hv : v.OfInstruction m defined i) : v.OfInstruction m defined' i := by
  cases hv with
  | read hr hd => exact .read hr (mt (h _).mpr hd)
  | call hi hv => exact .call hi hv
  | written hr hd => exact .written hr ((h _).mp hd)

theorem OfTerminator.of_same (h : ∀ r, r ∈ defined ↔ r ∈ defined') {t : Terminator}
    (hv : v.OfTerminator f defined t) : v.OfTerminator f defined' t := by
  cases hv with
  | unterminated ht => exact .unterminated ht
  | target hid hmissing => exact .target hid hmissing
  | read hr hd => exact .read hr (mt (h _).mpr hd)
  | nothing ht hvoid => exact .nothing ht hvoid
  | something ht hvoid => exact .something ht hvoid
  | typed ht hvoid hty hne => exact .typed ht hvoid hty hne

theorem OfBlock.of_same (h : ∀ r, r ∈ defined ↔ r ∈ defined') {b : Block}
    (hv : v.OfBlock m f defined b) : v.OfBlock m f defined' b := by
  have happend (rs : List Register) (r : Register) : r ∈ defined ++ rs ↔ r ∈ defined' ++ rs := by
    rw [List.mem_append, List.mem_append, h]
  cases hv with
  | instruction hl hv => exact .instruction hl (hv.of_same (happend _))
  | terminator hv => exact .terminator (hv.of_same (happend _))

/-- It does not matter in which order registers were defined. -/
theorem OfInstruction.congr (h : ∀ r, r ∈ defined ↔ r ∈ defined') {i : Instruction} :
    v.OfInstruction m defined i ↔ v.OfInstruction m defined' i :=
  ⟨of_same h, of_same (fun r => (h r).symm)⟩

theorem OfTerminator.congr (h : ∀ r, r ∈ defined ↔ r ∈ defined') {t : Terminator} :
    v.OfTerminator f defined t ↔ v.OfTerminator f defined' t :=
  ⟨of_same h, of_same (fun r => (h r).symm)⟩

theorem OfBlock.congr (h : ∀ r, r ∈ defined ↔ r ∈ defined') {b : Block} :
    v.OfBlock m f defined b ↔ v.OfBlock m f defined' b :=
  ⟨of_same h, of_same (fun r => (h r).symm)⟩

end Congruence

end Violation

namespace Validation

variable {m : Module} {f : Function} {defined : List Register} {v : Violation}

theorem mem_uses_iff {regs : List Register} :
    v ∈ uses defined regs ↔ ∃ r, r ∈ regs ∧ r ∉ defined ∧ v = .useBeforeDefine r := by
  simp only [uses, List.mem_map, List.mem_filter, decide_eq_true_eq, and_assoc, eq_comm (a := v)]

/-- A register is defined again if it is defined already or stands further to the front. -/
theorem mem_define_fst_iff {rs : List Register} :
    v ∈ (define defined rs).1 ↔ ∃ before r after, rs = before ++ r :: after ∧
      (r ∈ defined ++ before ∧ v = .multipleDefinitions r) := by
  induction rs generalizing defined with
  | nil => simp [define]
  | cons r rest ih =>
    rw [exists_split_cons (p := fun before r =>
      r ∈ defined ++ before ∧ v = Violation.multipleDefinitions r), List.append_nil, define]
    split
    next hr =>
      -- The register is defined already, so that it stands in front changes nothing.
      have hmem (before : List Register) (r' : Register) :
          r' ∈ defined ++ r :: before ↔ r' ∈ defined ++ before := by
        simp only [List.mem_append, List.mem_cons]
        constructor
        · rintro (h | rfl | h)
          · exact .inl h
          · exact .inl hr
          · exact .inr h
        · exact Or.imp id .inr
      simp only [List.mem_cons, ih, hr, true_and, hmem]
    next hr =>
      have hmem (before : List Register) (r' : Register) :
          r' ∈ r :: defined ++ before ↔ r' ∈ defined ++ r :: before := by
        simp only [List.mem_append, List.mem_cons, List.cons_append, or_left_comm]
      simp only [ih, hr, false_and, false_or, hmem]

theorem mem_call_iff {dest : Option Register} {callee : FunctionId} {args : List Register} :
    v ∈ call m dest callee args ↔ v.OfCall m dest callee args := by
  unfold call
  constructor
  · intro h
    split at h
    next hnone =>
      cases List.mem_singleton.mp h
      exact .unknown hnone
    next g hg =>
      rcases List.mem_append.mp h with h | h
      · split at h
        next => cases h
        next hlen =>
          cases List.mem_singleton.mp h
          exact .count hg hlen
      · cases hvoid : g.result.isVoid <;> cases dest <;> simp [hvoid] at h
        · exact h ▸ .dropped hg hvoid rfl
        · exact h ▸ .bound hg hvoid rfl
  · intro h
    cases h with
    | unknown hnone => simp [hnone]
    | count hg hlen => simp [hg, hlen]
    | bound hg hvoid hdest => simp [hg, hvoid, hdest]
    | dropped hg hvoid hdest => simp [hg, hvoid, hdest]

/-- An instruction is reported for the rules that it breaks. -/
theorem mem_instruction_fst_iff {i : Instruction} :
    v ∈ (instruction m defined i).1 ↔ v.OfInstruction m defined i := by
  have hparts : v ∈ (instruction m defined i).1 ↔ v ∈ uses defined i.uses ∨
      (∃ dest callee args, i = .call dest callee args ∧ v.OfCall m dest callee args) ∨
      v ∈ (define defined i.dest.toList).1 := by
    cases i <;> simp [instruction, mem_call_iff]
  have hwritten : v ∈ (define defined i.dest.toList).1 ↔
      ∃ r, i.dest = some r ∧ r ∈ defined ∧ v = .multipleDefinitions r := by
    cases i.dest with
    | none => simp [define]
    | some r => by_cases hr : r ∈ defined <;> simp [define, hr]
  rw [hparts, mem_uses_iff, hwritten]
  constructor
  · rintro (⟨r, hr, hd, rfl⟩ | ⟨dest, callee, args, hi, hv⟩ | ⟨r, hr, hd, rfl⟩)
    · exact .read hr hd
    · exact .call hi hv
    · exact .written hr hd
  · intro h
    cases h with
    | read hr hd => exact .inl ⟨_, hr, hd, rfl⟩
    | call hi hv => exact .inr (.inl ⟨_, _, _, hi, hv⟩)
    | written hr hd => exact .inr (.inr ⟨_, hr, hd, rfl⟩)

/-- Instructions are reported each for its own place. -/
theorem mem_instructions_fst_iff {is : List Instruction} :
    v ∈ (instructions m defined is).1 ↔ ∃ before i after, is = before ++ i :: after ∧
      v.OfInstruction m (defined ++ writes before) i := by
  induction is generalizing defined with
  | nil => simp [instructions]
  | cons i rest ih =>
    have hlater (before : List Instruction) (r : Register) :
        r ∈ (instruction m defined i).2 ++ writes before ↔ r ∈ defined ++ writes (i :: before) := by
      simp only [writes_cons, List.mem_append, mem_instruction, or_assoc]
    have hfirst : defined ++ writes [] = defined := List.append_nil defined
    rw [exists_split_cons (p := fun before i => v.OfInstruction m (defined ++ writes before) i),
      hfirst]
    simp only [instructions, List.mem_append, mem_instruction_fst_iff, ih,
      Violation.OfInstruction.congr (hlater _)]

theorem mem_target_iff {id : BlockId} :
    v ∈ target f id ↔ f.graph.blocks.contains id = false ∧ v = .invalidTarget id := by
  unfold target
  cases f.graph.blocks.contains id <;> simp

/-- Every block that a terminator goes to is looked for. -/
theorem target_subset_terminator {t : Terminator} {id : BlockId} (h : id ∈ t.successors) :
    target f id ⊆ terminator f defined t := by
  cases t with
  | branch goal =>
    rw [List.mem_singleton.mp h]
    exact List.Subset.refl _
  | branchIf condition onTrue onFalse =>
    rcases List.mem_pair.mp h with rfl | rfl
    · exact List.subset_append_of_subset_left _ (List.subset_append_right _ _)
    · exact List.subset_append_right _ _
  | ret value => cases h
  | unreachable => cases h

/-- Every register that a terminator reads is looked for. -/
theorem uses_subset_terminator {t : Terminator} :
    uses defined ((Point.terminator t).reads f) ⊆ terminator f defined t := by
  cases t with
  | branch goal => exact List.nil_subset _
  | branchIf condition onTrue onFalse =>
    exact List.subset_append_of_subset_left _ (List.subset_append_left _ _)
  | ret value =>
    cases value with
    | none => exact List.nil_subset _
    | some r =>
      simp only [Point.reads, terminator, ret]
      split
      · exact List.nil_subset _
      · exact List.subset_append_left _ _
  | unreachable => exact List.nil_subset _

/-- A terminator is reported for the rules that it breaks. -/
theorem mem_terminator_iff {t : Terminator} :
    v ∈ terminator f defined t ↔ v.OfTerminator f defined t := by
  constructor
  · intro h
    cases t with
    | unreachable =>
      cases List.mem_singleton.mp h
      exact .unterminated rfl
    | branch goal =>
      obtain ⟨hmissing, rfl⟩ := mem_target_iff.mp h
      exact .target List.mem_cons_self hmissing
    | branchIf condition onTrue onFalse =>
      simp only [terminator, List.mem_append, mem_uses_iff, mem_target_iff] at h
      rcases h with (⟨r, hr, hd, rfl⟩ | ⟨hmissing, rfl⟩) | ⟨hmissing, rfl⟩
      · exact .read hr hd
      · exact .target List.mem_cons_self hmissing
      · exact .target (List.mem_cons_of_mem _ List.mem_cons_self) hmissing
    | ret value =>
      cases hvoid : f.result.isVoid <;> cases value <;> simp [terminator, ret, hvoid] at h
      case false.none => exact h ▸ .nothing rfl hvoid
      case false.some r =>
        rcases h with h | h
        · obtain ⟨r', hr', hd, rfl⟩ := mem_uses_iff.mp h
          exact .read (by simpa [Point.reads, hvoid] using hr') hd
        · cases hty : f.registerTypes.get? r <;> simp [hty] at h
          obtain ⟨hne, rfl⟩ := h
          exact .typed rfl hvoid hty hne
      case true.some r => exact h ▸ .something rfl hvoid
  · intro h
    cases h with
    | unterminated ht => simp [ht, terminator]
    | target hid hmissing =>
      exact target_subset_terminator hid (mem_target_iff.mpr ⟨hmissing, rfl⟩)
    | read hr hd => exact uses_subset_terminator (mem_uses_iff.mpr ⟨_, hr, hd, rfl⟩)
    | nothing ht hvoid => simp [ht, terminator, ret, hvoid]
    | something ht hvoid => simp [ht, terminator, ret, hvoid]
    | typed ht hvoid hty hne => simp [ht, terminator, ret, hvoid, hty, hne]

/-- A block is reported for the rules that it breaks. -/
theorem mem_block_fst_iff {b : Block} :
    v ∈ (block m f defined b).1 ↔ v.OfBlock m f defined b := by
  have hafter (r : Register) :
      r ∈ (instructions m defined b.instructions).2 ↔ r ∈ defined ++ b.writes := mem_instructions
  simp only [block, List.mem_append, mem_instructions_fst_iff, mem_terminator_iff,
    Violation.OfTerminator.congr hafter]
  constructor
  · rintro (⟨before, i, after, hl, hv⟩ | hv)
    · exact .instruction hl hv
    · exact .terminator hv
  · intro h
    cases h with
    | instruction hl hv => exact .inl ⟨_, _, _, hl, hv⟩
    | terminator hv => exact .inr hv

/-- Blocks are reported each for its own place. -/
theorem mem_blocks_iff {bs : List Block} {e : ValidationError} :
    e ∈ blocks m f defined bs ↔ ∃ before b after, bs = before ++ b :: after ∧
      ∃ v : Violation, v.OfBlock m f (defined ++ before.flatMap Block.writes) b ∧
        e = ⟨v, f.name, some b.id⟩ := by
  induction bs generalizing defined with
  | nil => simp [blocks]
  | cons b rest ih =>
    have hlater (before : List Block) (r : Register) :
        r ∈ (block m f defined b).2 ++ before.flatMap Block.writes ↔
          r ∈ defined ++ (b :: before).flatMap Block.writes := by
      simp only [List.flatMap_cons, List.mem_append, mem_block, or_assoc]
    have hfirst : defined ++ ([] : List Block).flatMap Block.writes = defined :=
      List.append_nil defined
    rw [exists_split_cons (p := fun before b => ∃ v : Violation,
      v.OfBlock m f (defined ++ before.flatMap Block.writes) b ∧ e = ⟨v, f.name, some b.id⟩),
      hfirst]
    simp only [blocks, List.mem_append, List.mem_map, mem_block_fst_iff, ih,
      Violation.OfBlock.congr (hlater _), eq_comm (a := e)]

end Validation

/-- An error of a body is a parameter whose register an earlier one has, or a rule that a block
breaks behind the parameters and the blocks before it. -/
theorem Function.mem_errors_iff {m : Module} {f : Function} {e : ValidationError} :
    e ∈ f.errors m ↔
      (∃ before r after, f.paramRegisters = before ++ r :: after ∧ r ∈ before ∧
        e = ⟨.multipleDefinitions r, f.name, none⟩) ∨
      ∃ before b after, f.graph.blocks.values = before ++ b :: after ∧
        ∃ v : Violation, v.OfBlock m f (f.paramRegisters ++ before.flatMap Block.writes) b ∧
          e = ⟨v, f.name, some b.id⟩ := by
  have hlater (before : List Block) (r : Register) :
      r ∈ (Validation.define [] f.paramRegisters).2 ++ before.flatMap Block.writes ↔
        r ∈ f.paramRegisters ++ before.flatMap Block.writes := by
    simp only [List.mem_append, Validation.mem_define, List.nil_append]
  have herrors : e ∈ f.errors m ↔
      (∃ v ∈ (Validation.define [] f.paramRegisters).1, e = ⟨v, f.name, none⟩) ∨
        e ∈ Validation.blocks m f (Validation.define [] f.paramRegisters).2
          f.graph.blocks.values := by
    simp only [errors, paramRegisters, List.mem_append, List.mem_map, eq_comm (a := e)]
  rw [herrors, Validation.mem_blocks_iff]
  simp only [Violation.OfBlock.congr (hlater _), Validation.mem_define_fst_iff, List.nil_append]
  refine or_congr_left ⟨?_, ?_⟩
  · rintro ⟨_, ⟨before, r, after, hl, hr, rfl⟩, rfl⟩
    exact ⟨before, r, after, hl, hr, rfl⟩
  · rintro ⟨before, r, after, hl, hr, rfl⟩
    exact ⟨_, ⟨before, r, after, hl, hr, rfl⟩, rfl⟩

end KernelFusion

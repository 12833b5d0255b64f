import KernelFusion.Proofs.Acceptance
import KernelFusion.Proofs.Maps

/-!
# The rules of validation

Read from top to bottom, a body is one sequence of points: the parameters, then the blocks in
ascending order, each with its instructions and its terminator. Every point defines registers and
reads registers. The rules say that no register is defined twice, that what is read was defined
above, and how returns, branches and calls have to look; they mention neither the order in which
validation walks nor the set of registers that it collects. Validation accepts exactly the bodies
that keep them.
-/

namespace KernelFusion

/-- A place in a body where registers are defined or read. -/
inductive Point where
  /-- A parameter with this register. -/
  | parameter (r : Register)
  /-- An instruction of a block. -/
  | instruction (i : Instruction)
  /-- The terminator of a block. -/
  | terminator (t : Terminator)

/-- The registers that a point defines. -/
def Point.defines : Point → List Register
  | parameter r => [r]
  | instruction i => i.dest.toList
  | terminator _ => []

/-- The registers that have to be defined above a point. A function without a result reads nothing
where it returns. -/
def Point.reads (f : Function) : Point → List Register
  | instruction i => i.uses
  | terminator (.branchIf condition _ _) => [condition]
  | terminator (.ret (some r)) => if f.result.isVoid then [] else [r]
  | terminator _ | parameter _ => []

/-- The points of a block: its instructions in order, then its terminator. -/
def Block.points (b : Block) : List Point :=
  b.instructions.map .instruction ++ [.terminator b.terminator]

/-- The points of a body: its parameters, then its blocks in ascending order of their numbers. -/
def Function.points (f : Function) : List Point :=
  f.paramRegisters.map .parameter ++ f.graph.blocks.values.flatMap Block.points

/-- The rules that a body has to keep in a module. -/
structure Function.KeepsRules (m : Module) (f : Function) : Prop where
  /-- No register is defined twice. -/
  definedOnce : (f.points.flatMap Point.defines).Nodup
  /-- What a point reads is defined strictly above it. -/
  definedAbove : ∀ above p below, f.points = above ++ p :: below →
    p.reads f ⊆ above.flatMap Point.defines
  /-- Every block says how it ends. -/
  terminated : ∀ b ∈ f.graph.blocks.values, b.terminator ≠ .unreachable
  /-- Branches go to blocks of the function. -/
  targets : ∀ b ∈ f.graph.blocks.values, ∀ id ∈ b.successors, f.graph.blocks.contains id = true
  /-- Returns give a value exactly if the function has a result. -/
  returns : ∀ b ∈ f.graph.blocks.values, ∀ value, b.terminator = .ret value →
    (value.isSome = true ↔ f.result.isVoid = false)
  /-- A register that is returned has the type of the result, if its type is recorded. -/
  typed : ∀ b ∈ f.graph.blocks.values, ∀ r, b.terminator = .ret (some r) →
    ∀ ty, f.registerTypes.get? r = some ty → ty = f.result
  /-- Calls go to functions of the module that take as many arguments, and they bind a result
  exactly if there is one. -/
  calls : ∀ dest callee args, .call dest callee args ∈ f.graph.instructions →
    ∃ g, m.function? callee = some g ∧ g.prototype.params.length = args.length ∧
      (dest.isSome = true ↔ g.result.isVoid = false)

theorem Point.flatMap_defines_instructions (is : List Instruction) :
    (is.map Point.instruction).flatMap Point.defines = writes is := by
  induction is with
  | nil => rfl
  | cons i is ih => rw [List.map_cons, List.flatMap_cons, ih, writes_cons, defines]

theorem Point.flatMap_defines_parameters (rs : List Register) :
    (rs.map Point.parameter).flatMap Point.defines = rs := by
  induction rs with
  | nil => rfl
  | cons r rs ih => rw [List.map_cons, List.flatMap_cons, ih, defines, List.singleton_append]

/-- The points of a block define what the block writes. -/
theorem Block.flatMap_defines_points (b : Block) : b.points.flatMap Point.defines = b.writes := by
  rw [points, List.flatMap_append, Point.flatMap_defines_instructions, List.flatMap_singleton,
    Point.defines, List.append_nil, writes]

theorem Block.flatMap_defines_flatMap_points (bs : List Block) :
    (bs.flatMap Block.points).flatMap Point.defines = bs.flatMap Block.writes := by
  simp only [List.flatMap_assoc, flatMap_defines_points]

/-- A point is in order where `defined` are defined above it. -/
@[mk_iff]
structure Point.Ordered (f : Function) (defined : List Register) (p : Point) : Prop where
  /-- It reads registers that are defined. -/
  reads : p.reads f ⊆ defined
  /-- It defines registers that are not defined yet. -/
  fresh : ∀ r ∈ p.defines, r ∉ defined

namespace Point.Ordered

variable {f : Function} {defined : List Register}

theorem parameter_iff {r : Register} :
    (parameter r).Ordered f defined ↔ r ∉ defined := by
  simp [ordered_iff, Point.reads, defines]

theorem instruction_iff {i : Instruction} :
    (instruction i).Ordered f defined ↔ i.Ordered defined := by
  simp [ordered_iff, Instruction.ordered_iff, Point.reads, defines]

theorem terminator_iff {t : Terminator} :
    (terminator t).Ordered f defined ↔ (terminator t).reads f ⊆ defined := by
  simp [ordered_iff, defines]

end Point.Ordered

/-- How a terminator has to look in a function, wherever it stands. -/
@[mk_iff]
structure Terminator.Shaped (f : Function) (t : Terminator) : Prop where
  /-- It says how the block ends. -/
  terminated : t ≠ .unreachable
  /-- It goes to blocks that exist. -/
  targets : ∀ id ∈ t.successors, f.graph.blocks.contains id = true
  /-- A return gives a value exactly if the function has a result. -/
  returns : ∀ value, t = .ret value → (value.isSome = true ↔ f.result.isVoid = false)
  /-- A register that is returned has the type of the result, if its type is recorded. -/
  typed : ∀ r, t = .ret (some r) → ∀ ty, f.registerTypes.get? r = some ty → ty = f.result

/-- A terminator is in order if its shape is right and what it reads is defined. -/
theorem Terminator.ordered_iff_shaped {f : Function} {defined : List Register} {t : Terminator} :
    t.Ordered f defined ↔ (Point.terminator t).reads f ⊆ defined ∧ t.Shaped f := by
  rw [ordered_iff, shaped_iff]
  cases t with
  | ret value =>
    cases value <;> cases hvoid : f.result.isVoid <;>
      simp [Point.reads, uses, successors, hvoid]
  | _ => simp [Point.reads, uses, successors]

/-- A block is in order if all its points are and its terminator has the right shape. -/
theorem Block.ordered_iff_points {f : Function} {defined : List Register} {b : Block} :
    b.Ordered f defined ↔ (∀ above p below, b.points = above ++ p :: below →
      p.Ordered f (defined ++ above.flatMap Point.defines)) ∧ b.terminator.Shaped f := by
  simp only [points, forall_split_append, forall_split_map, forall_split_singleton,
    List.append_nil, Point.flatMap_defines_instructions, Point.Ordered.instruction_iff,
    Point.Ordered.terminator_iff, ordered_iff, Terminator.ordered_iff_shaped, writes, and_assoc]

/-- A body is in order if all its points are and its terminators have the right shape. -/
theorem Function.ordered_iff_points {f : Function} :
    f.Ordered ↔ (∀ above p below, f.points = above ++ p :: below →
        p.Ordered f (above.flatMap Point.defines)) ∧
      ∀ b ∈ f.graph.blocks.values, b.terminator.Shaped f := by
  have hparams : f.paramRegisters.Nodup ↔
      ∀ before r after, f.paramRegisters = before ++ r :: after → r ∉ before := by
    simpa using nodup_flatMap_iff (g := fun r => [r]) (l := f.paramRegisters)
  simp only [ordered_iff, points, forall_split_append, forall_split_map, forall_split_flatMap,
    Point.flatMap_defines_parameters, Point.Ordered.parameter_iff, ← hparams,
    List.flatMap_append, Block.flatMap_defines_flatMap_points, Block.ordered_iff_points, forall_and,
    forall_split_mem, ← List.append_assoc, and_assoc]

/-- All points are in order if no register is defined twice and each is defined above where it is
read. -/
theorem Function.points_ordered_iff {f : Function} :
    (∀ above p below, f.points = above ++ p :: below → p.Ordered f (above.flatMap Point.defines)) ↔
      (f.points.flatMap Point.defines).Nodup ∧
        ∀ above p below, f.points = above ++ p :: below →
          p.reads f ⊆ above.flatMap Point.defines := by
  have hsingle (p : Point) : p.defines.Nodup := by
    cases p with
    | parameter r => exact List.pairwise_singleton _ r
    | instruction i => cases h : i.dest <;> simp [Point.defines, h]
    | terminator t => exact List.nodup_nil
  simp only [Point.ordered_iff, nodup_flatMap_iff, hsingle, true_and, forall_and]
  exact and_comm

/-- An instruction fits a module unless it is a call that does not. -/
theorem Instruction.fits_iff {m : Module} {i : Instruction} :
    i.Fits m ↔ ∀ dest callee args, i = .call dest callee args →
      ∃ g, m.function? callee = some g ∧ g.prototype.params.length = args.length ∧
        (dest.isSome = true ↔ g.result.isVoid = false) := by
  have hbool (a b : Bool) : a = (!b) ↔ (a = true ↔ b = false) := by cases a <;> cases b <;> decide
  cases i with
  | call dest callee args =>
    simp only [Fits, hbool]
    refine ⟨fun h _ _ _ heq => ?_, fun h => h dest callee args rfl⟩
    cases heq
    exact h
  | _ => simp [Fits]

/-- The rules are kept where the body is in order and its calls fit. -/
theorem Function.keepsRules_iff {m : Module} {f : Function} :
    f.KeepsRules m ↔ f.Ordered ∧ f.Fits m := by
  rw [ordered_iff_points, points_ordered_iff]
  constructor
  · intro h
    refine ⟨⟨⟨h.definedOnce, h.definedAbove⟩, fun b hb => ⟨h.terminated b hb, h.targets b hb,
      h.returns b hb, h.typed b hb⟩⟩, fun i hi => Instruction.fits_iff.mpr ?_⟩
    rintro dest callee args rfl
    exact h.calls dest callee args hi
  · rintro ⟨⟨⟨honce, habove⟩, hshaped⟩, hfits⟩
    exact {
      definedOnce := honce
      definedAbove := habove
      terminated := fun b hb => (hshaped b hb).terminated
      targets := fun b hb => (hshaped b hb).targets
      returns := fun b hb => (hshaped b hb).returns
      typed := fun b hb => (hshaped b hb).typed
      calls := fun dest callee args hi =>
        Instruction.fits_iff.mp (hfits _ hi) dest callee args rfl }

/-- Validation finds nothing wrong with a body exactly if it keeps the rules, and nothing wrong with
a module exactly if every function that has a body keeps them. -/
theorem Module.validation_exact (m : Module) :
    (∀ f : Function, f.errors m = [] ↔ f.KeepsRules m) ∧
      (m.errors = [] ↔
        ∀ id f, m.function? id = some f → f.isDeclaration = false → f.KeepsRules m) := by
  have hbody (f : Function) : f.errors m = [] ↔ f.KeepsRules m :=
    Function.errors_eq_nil_iff.trans Function.keepsRules_iff.symm
  refine ⟨hbody, ?_⟩
  rw [Module.errors_eq_nil_iff]
  simp only [hbody, IdMap.mem_values_iff, function?]
  exact ⟨fun h id f hf => h f ⟨id, hf⟩, fun h f ⟨id, hf⟩ => h id f hf⟩

end KernelFusion

import KernelFusion.IR.Validation

/-!
# What validation depends on

Validating a body reads the module only where functions are called: of a callee it asks the number
of parameters and whether there is a result. So a body that is valid in a module stays valid when
functions are added and when functions are replaced by others of the same shape.
-/

namespace KernelFusion

/-- Two functions that look the same to a call. -/
structure Function.SameShape (f g : Function) : Prop where
  /-- They take as many arguments. -/
  arity : g.prototype.params.length = f.prototype.params.length
  /-- Both have a result, or both have none. -/
  result : g.result.isVoid = f.result.isVoid

theorem Function.SameShape.refl (f : Function) : f.SameShape f := ⟨rfl, rfl⟩

/-- Every function of the first module has one of its shape in the second. -/
def Module.Extends (m m' : Module) : Prop :=
  ∀ id f, m.function? id = some f → ∃ g, m'.function? id = some g ∧ f.SameShape g

namespace Validation

variable {m m' : Module}

/-- A call is valid if it fits the function that it calls. -/
theorem call_eq_nil_iff {dest : Option Register} {callee : FunctionId} {args : List Register} :
    call m dest callee args = [] ↔
      ∃ f, m.function? callee = some f ∧ f.prototype.params.length = args.length ∧
        dest.isSome = !f.result.isVoid := by
  unfold call
  cases m.function? callee with
  | none => simp
  | some f =>
    by_cases hlen : f.prototype.params.length = args.length <;>
      cases f.result.isVoid <;> cases dest <;> simp [hlen]

theorem call_extends (h : m.Extends m') {dest : Option Register} {callee : FunctionId}
    {args : List Register} (hcall : call m dest callee args = []) :
    call m' dest callee args = [] := by
  obtain ⟨f, hf, hlen, hdest⟩ := call_eq_nil_iff.mp hcall
  obtain ⟨g, hg, hshape⟩ := h callee f hf
  exact call_eq_nil_iff.mpr ⟨g, hg, hshape.arity.trans hlen, hshape.result ▸ hdest⟩

theorem instruction_extends (h : m.Extends m') {defined : List Register} {i : Instruction}
    (hi : (instruction m defined i).1 = []) :
    instruction m' defined i = instruction m defined i := by
  cases i with
  | call dest callee args =>
    simp only [instruction, List.append_eq_nil_iff] at hi
    simp only [instruction, hi.1.2, call_extends h hi.1.2]
  | _ => rfl

/-- Instructions without a violation have none in an extension. -/
theorem instructions_extends (h : m.Extends m') {is : List Instruction} {defined : List Register}
    (his : (instructions m defined is).1 = []) :
    instructions m' defined is = instructions m defined is := by
  induction is generalizing defined with
  | nil => rfl
  | cons i rest ih =>
    simp only [instructions, List.append_eq_nil_iff] at his
    simp only [instructions, instruction_extends h his.1, ih his.2]

theorem block_extends (h : m.Extends m') {f : Function} {defined : List Register} {b : Block}
    (hb : (block m f defined b).1 = []) : block m' f defined b = block m f defined b := by
  simp only [block, List.append_eq_nil_iff] at hb
  simp only [block, instructions_extends h hb.1]

theorem blocks_extends (h : m.Extends m') {f : Function} {bs : List Block}
    {defined : List Register} (hbs : blocks m f defined bs = []) : blocks m' f defined bs = [] := by
  induction bs generalizing defined with
  | nil => rfl
  | cons b rest ih =>
    simp only [blocks, List.append_eq_nil_iff, List.map_eq_nil_iff] at hbs
    simp only [blocks, block_extends h hbs.1, hbs.1, List.map_nil, List.nil_append]
    exact ih hbs.2

/-- Instructions behind valid ones go on with what these define. -/
theorem instructions_append {is later : List Instruction} {defined after : List Register}
    (h : instructions m defined is = ([], after)) :
    instructions m defined (is ++ later) = instructions m after later := by
  induction is generalizing defined with
  | nil =>
    cases h
    rfl
  | cons i rest ih =>
    simp only [instructions, Prod.mk.injEq, List.append_eq_nil_iff] at h
    obtain ⟨⟨hi, hrest⟩, hafter⟩ := h
    simp only [List.cons_append, instructions, ih (Prod.ext hrest hafter), hi, List.nil_append]

/-- New registers that are all different can be defined. -/
theorem define_of_nodup {rs defined : List Register} (hdistinct : rs.Nodup)
    (hnew : ∀ r ∈ rs, r ∉ defined) : define defined rs = ([], rs.reverse ++ defined) := by
  induction rs generalizing defined with
  | nil => rfl
  | cons r rest ih =>
    obtain ⟨hr, hrest⟩ := List.nodup_cons.mp hdistinct
    have hnew' : ∀ r' ∈ rest, r' ∉ r :: defined := by
      intro r' hr' hmem
      rcases List.mem_cons.mp hmem with rfl | hmem
      · exact hr hr'
      · exact hnew r' (List.mem_cons_of_mem r hr') hmem
    rw [define, if_neg (hnew r List.mem_cons_self), ih hrest hnew', List.reverse_cons,
      List.append_assoc]
    rfl

/-- Registers that are all defined can be used. -/
theorem uses_eq_nil {defined regs : List Register} (h : regs ⊆ defined) :
    uses defined regs = [] := by
  unfold uses
  rw [List.map_eq_nil_iff, List.filter_eq_nil_iff]
  intro r hr
  simp [h hr]

/-- A call that fits its function, reads defined registers and binds a new one is valid. -/
theorem instruction_call {dest : Option Register} {callee : FunctionId}
    {args defined : List Register} (hargs : args ⊆ defined) (hcall : call m dest callee args = [])
    (hnew : ∀ r, dest = some r → r ∉ defined) :
    instruction m defined (.call dest callee args) = ([], dest.toList ++ defined) := by
  have hdefine : define defined dest.toList = ([], dest.toList ++ defined) := by
    cases dest with
    | none => rfl
    | some r => exact define_of_nodup (List.pairwise_singleton _ r) (by simpa using hnew r rfl)
  unfold instruction
  simp only [Instruction.dest, Instruction.uses, uses_eq_nil hargs, hcall, hdefine, List.append_nil]

end Validation

/-- A body without an error has none in an extension of its module. -/
theorem Function.errors_extends {m m' : Module} (h : m.Extends m') {f : Function}
    (hf : f.errors m = []) : f.errors m' = [] := by
  simp only [errors, List.append_eq_nil_iff] at hf ⊢
  exact ⟨hf.1, Validation.blocks_extends h hf.2⟩

/-- A module has no error if none of its bodies has one. -/
theorem Module.errors_eq_nil_iff {m : Module} :
    m.errors = [] ↔ ∀ f ∈ m.functions.values, f.isDeclaration = false → f.errors m = [] := by
  unfold errors
  rw [List.flatMap_eq_nil_iff]
  simp

end KernelFusion

import KernelFusion.Proofs.Emission
import KernelFusion.Proofs.Reconciliation
import KernelFusion.Proofs.Request

/-!
# What a plan says

On a forced module planning changes nothing, so a plan can be described by what the names of its
stages stand for there. Each call is of the function of its stage, with the current value if the
kernel reads one and then its coordinates, and the result of the plan is the result of the last
call.
-/

namespace KernelFusion

/-- The call of a kernel: of the function `f` that its name stands for, given the current value. -/
structure CallOf (view : Module) (current : Option Operand) (d : KernelDescriptor) (f : Function)
    (c : PlannedCall) : Prop where
  /-- The name of the kernel stands for the function. -/
  entry : view.callable? d.name = some f
  /-- The function is called by its number. -/
  callee : c.callee = f.id
  /-- The type of the result is the one of the function. -/
  result : c.result = f.result
  /-- There are as many operands as parameters. -/
  arity : c.operands.length = f.prototype.params.length
  /-- The current value comes first if the kernel reads one, then the coordinates. -/
  operands : c.operands = (if d.signature.has .input then current.toList else []) ++
    d.signature.coordinates.map Operand.ofCoordinate
  /-- There is a current value if the kernel reads one. -/
  input : d.signature.has .input = true → current.isSome = true

/-- The calls of stages, given the current value before the first of them. -/
inductive Planned (view : Module) : Option Operand → List KernelSlot → List PlannedCall → Prop where
  /-- No stages, no calls. -/
  | nil (current : Option Operand) : Planned view current [] []
  /-- A call for the first stage; the others go on with the value that it leaves. -/
  | cons {current : Option Operand} {k : KernelSlot} {d : KernelDescriptor} {f : Function}
      {c : PlannedCall} {rest : List KernelSlot} {calls : List PlannedCall}
      (describe : k.describe = .ok d) (hasName : d.hasName = true)
      (call : CallOf view current d f c)
      (later : Planned view c.leaves rest calls) : Planned view current (k :: rest) (c :: calls)

/-- The value that flows out of calls. -/
def PlannedCall.outflow (current : Option Operand) (calls : List PlannedCall) : Option Operand :=
  calls.getLast?.elim current leaves

theorem PlannedCall.outflow_cons (current : Option Operand) (c : PlannedCall)
    (calls : List PlannedCall) : outflow current (c :: calls) = outflow c.leaves calls := by
  unfold outflow
  rw [List.getLast?_cons]
  cases calls.getLast? <;> rfl

/-- What flows out of some calls depends on the type of the last result. -/
theorem PlannedCall.outflow_eq {calls : List PlannedCall} {ty : Ty} (current : Option Operand)
    (h : calls.getLast?.map (·.result) = some ty) :
    outflow current calls = if ty.isVoid then none else some .previous := by
  obtain ⟨c, hlast, rfl⟩ := Option.map_eq_some_iff.mp h
  rw [outflow, hlast]
  rfl

/-- The value that flows into the first stage. -/
def KernelSignature.current (s : KernelSignature) : Option Operand :=
  if s.has .input then some .dataIn else none

/-- A plan that was built for a chain, as it can be read off the forced module. -/
structure FusionPlan.Built (view : Module) (chain : Chain) (name : String) (config : FusionConfig)
    (plan : FusionPlan) : Prop where
  /-- The signature is the merged one. -/
  signature : chain.reconcile = .ok plan.signature
  /-- The name is free. -/
  free : view.hasSymbol name = false
  /-- The kernel gets the name. -/
  name : plan.name = name
  /-- The parameters are those of the signature, with the input of the first stage. -/
  params : ∃ first, resolveStage 0 chain.first view = (.ok first, view) ∧
    fusedParams plan.signature first config = .ok plan.params
  /-- There is a call for every stage. -/
  calls : Planned view plan.signature.current chain.stages plan.calls
  /-- The kernel has the result of the last call. -/
  result : plan.calls.getLast?.map (·.result) = some plan.result

variable {view left : Module} (hf : view.force = view)

section Steps

include hf

theorem findEntry_forced {name : String} {f : Function}
    (h : findEntry name view = (.ok f, left)) : view.callable? name = some f ∧ left = view := by
  have hstay : view.materialize name = view := by rw [← hf, Module.materialize_force]
  unfold findEntry at h
  simp only [hstay] at h
  rcases hc : view.callable? name with _ | g
  · rw [hc] at h
    cases h
  · rw [hc] at h
    cases h
    exact ⟨rfl, rfl⟩

theorem resolveStage_forced {stage : Nat} {k : KernelSlot} {r : ResolvedStage}
    (h : resolveStage stage k view = (.ok r, left)) :
    ∃ f, k.describe = .ok r.descriptor ∧ r.descriptor.hasName = true ∧
      view.callable? r.descriptor.name = some f ∧
      r = ⟨r.descriptor, f.id, f.prototype.paramTypes, f.result⟩ ∧ left = view := by
  rcases hk : k.describe with e | d
  · rw [resolveStage, hk] at h
    cases h
  · by_cases hname : d.hasName = true
    · rw [resolveStage_eq hk hname] at h
      obtain ⟨f, mid, hfind, hmid⟩ := Attempt.of_andThen_ok h
      obtain ⟨hentry, rfl⟩ := findEntry_forced hf hfind
      cases hmid
      exact ⟨f, rfl, hname, hentry, rfl, rfl⟩
    · simp only [resolveStage, hk, if_neg hname] at h
      cases h

omit hf in
/-- A call that was planned has the operands of its kernel, as many as there are parameters. -/
theorem ResolvedStage.call_ok {r : ResolvedStage} {stage : Nat} {current : Option Operand}
    {c : PlannedCall} (h : r.call stage current = .ok c) :
    c.callee = r.id ∧ c.result = r.result ∧ c.operands.length = r.params.length ∧
      c.operands = (if r.descriptor.signature.has .input then current.toList else []) ++
        r.descriptor.signature.coordinates.map Operand.ofCoordinate ∧
      (r.descriptor.signature.has .input = true → current.isSome = true) := by
  unfold call at h
  rcases ho : r.operands stage current with e | operands
  · rw [ho] at h
    cases h
  · rw [ho] at h
    dsimp only at h
    split at h
    next hlen =>
      cases h
      refine ⟨rfl, rfl, hlen, ?_⟩
      unfold ResolvedStage.operands at ho
      by_cases hin : r.descriptor.signature.has .input = true
      · rw [if_pos hin] at ho
        cases current with
        | none => cases ho
        | some value =>
          cases ho
          simp [hin]
      · rw [if_neg hin] at ho
        cases ho
        simp [hin]
    next => cases h

theorem planStage_forced {stage : Nat} {current : Option Operand} {k : KernelSlot}
    {c : PlannedCall} (h : planStage stage current k view = (.ok c, left)) :
    ∃ d f, k.describe = .ok d ∧ d.hasName = true ∧ CallOf view current d f c ∧ left = view := by
  rw [planStage_eq] at h
  obtain ⟨r, mid, hr, hmid⟩ := Attempt.of_andThen_ok h
  obtain ⟨f, hk, hname, hentry, hreq, rfl⟩ := resolveStage_forced hf hr
  obtain ⟨hc, rfl⟩ := Prod.mk.inj hmid
  obtain ⟨hcallee, hresult, harity, hoperands, hinput⟩ := r.call_ok hc
  refine ⟨r.descriptor, f, hk, hname, ⟨hentry, ?_, ?_, ?_, hoperands, hinput⟩, rfl⟩
  · rw [hcallee, hreq]
  · rw [hresult, hreq]
  · rw [harity, hreq]
    simp [Prototype.paramTypes]

/-- Planning stages gives a call for each of them. -/
theorem planStages_forced {ks : List KernelSlot} {stage : Nat} {current : Option Operand}
    {calls : List PlannedCall} (h : planStages stage current ks view = (.ok calls, left)) :
    Planned view current ks calls ∧ left = view := by
  induction ks generalizing stage current calls with
  | nil =>
    cases h
    exact ⟨.nil current, rfl⟩
  | cons k rest ih =>
    rw [planStages_cons] at h
    obtain ⟨c, mid, hstage, hmid⟩ := Attempt.of_andThen_ok h
    obtain ⟨d, f, hk, hname, hcall, rfl⟩ := planStage_forced hf hstage
    obtain ⟨later, mid', hrest, hmid'⟩ := Attempt.of_andThen_ok hmid
    cases hmid'
    obtain ⟨hlater, rfl⟩ := ih hrest
    exact ⟨.cons hk hname hcall hlater, rfl⟩

omit hf in
/-- The last call is the one of the last stage. -/
theorem Planned.getLast? {current : Option Operand} {ks : List KernelSlot}
    {calls : List PlannedCall} (h : Planned view current ks calls) (hne : ks ≠ []) :
    ∃ d f c, (ks.getLast hne).describe = .ok d ∧ view.callable? d.name = some f ∧
      calls.getLast? = some c ∧ c.result = f.result := by
  induction h with
  | nil => exact absurd rfl hne
  | @cons current k d f c rest calls describe hasName call later ih =>
    cases rest with
    | nil =>
      cases later
      exact ⟨d, f, c, describe, call.entry, rfl, call.result⟩
    | cons k' rest' =>
      obtain ⟨d', f', c', hd, hf', hc, hr⟩ := ih (List.cons_ne_nil k' rest')
      refine ⟨d', f', c', ?_, hf', ?_, hr⟩
      · rw [List.getLast_cons (List.cons_ne_nil k' rest')]
        exact hd
      rw [List.getLast?_cons, hc]
      rfl

omit hf in
/-- There is one call for each stage. -/
theorem Planned.length_eq {current : Option Operand} {ks : List KernelSlot}
    {calls : List PlannedCall} (h : Planned view current ks calls) : calls.length = ks.length := by
  induction h with
  | nil => rfl
  | cons describe hasName call later ih => exact congrArg (· + 1) ih

/-- A plan that was built on the forced module is one for the chain. -/
theorem FusionPlan.build_forced {chain : Chain} {name : String} {config : FusionConfig}
    {plan : FusionPlan} (h : build chain name config view = (.ok plan, left)) :
    plan.Built view chain name config := by
  rcases hs : chain.reconcile with e | signature
  · rw [build, hs] at h
    cases h
  · by_cases hn : view.hasSymbol name = true
    · rw [build, hs] at h
      simp only [if_pos hn] at h
      cases h
    · have hfree : view.hasSymbol name = false := by simpa using hn
      rw [build_eq hs name config hfree] at h
      obtain ⟨first, mid, hfirst, hmid⟩ := Attempt.of_andThen_ok h
      obtain ⟨-, -, -, -, -, rfl⟩ := resolveStage_forced hf hfirst
      obtain ⟨last, mid', hlast, hmid'⟩ := Attempt.of_andThen_ok hmid
      obtain ⟨f, hk, -, hentry, hreq, rfl⟩ := resolveStage_forced hf hlast
      rcases hparams : fusedParams signature first config with e | params
      · rw [hparams] at hmid'
        cases hmid'
      · rw [hparams] at hmid'
        obtain ⟨calls, mid'', hcalls, hmid''⟩ := Attempt.of_andThen_ok hmid'
        obtain ⟨hplanned, rfl⟩ := planStages_forced hf hcalls
        obtain ⟨hplan, rfl⟩ := Prod.mk.inj hmid''
        obtain rfl := Except.ok.inj hplan
        refine ⟨hs, hfree, rfl, ⟨first, hfirst, hparams⟩, hplanned, ?_⟩
        obtain ⟨d', f', c, hd', hf', hc, hr⟩ := hplanned.getLast? chain.nonempty
        have hd : d' = last.descriptor := Except.ok.inj (hd'.symm.trans hk)
        rw [hd, hentry] at hf'
        cases hf'
        rw [hc, hreq]
        exact congrArg some hr

end Steps

theorem Operand.ofCoordinate_ne_previous (flag : KernelSignature) :
    Operand.ofCoordinate flag ≠ .previous := by
  unfold Operand.ofCoordinate
  split
  · simp
  · split <;> simp

/-- The operands of the parameters: the input if there is one, then the coordinates. -/
theorem fusedParams_operands {signature : KernelSignature} {first : ResolvedStage}
    {config : FusionConfig} {params : List FusedParam}
    (h : fusedParams signature first config = .ok params) :
    params.map (·.operand) =
      signature.current.toList ++ signature.coordinates.map Operand.ofCoordinate := by
  unfold fusedParams at h
  unfold KernelSignature.current
  dsimp only at h
  split at h
  next hin =>
    split at h
    · cases h
      simp [hin, FusedParam.ofOperand, Function.comp_def]
    · cases h
  next hin =>
    cases h
    simp [hin, FusedParam.ofOperand, Function.comp_def]

/-- The input has the type of the first parameter of the first kernel. -/
theorem fusedParams_head {signature : KernelSignature} {first : ResolvedStage}
    {config : FusionConfig} {params : List FusedParam}
    (h : fusedParams signature first config = .ok params) (hin : signature.has .input = true) :
    (params.map (·.ty)).head? = first.params.head? := by
  unfold fusedParams at h
  rw [if_pos hin] at h
  split at h
  next ty hty =>
    cases h
    rw [hty]
    rfl
  next => cases h

/-- The first kernel matters for the type of the input only. -/
theorem fusedParams_congr {signature : KernelSignature} {first first' : ResolvedStage}
    {config : FusionConfig}
    (h : signature.has .input = true → first.params.head? = first'.params.head?)
    {params params' : List FusedParam} (hparams : fusedParams signature first config = .ok params)
    (hparams' : fusedParams signature first' config = .ok params') : params = params' := by
  unfold fusedParams at hparams hparams'
  by_cases hin : signature.has .input = true
  · rw [if_pos hin] at hparams hparams'
    rw [h hin] at hparams
    cases hhead : first'.params.head? with
    | none =>
      rw [hhead] at hparams
      cases hparams
    | some ty =>
      rw [hhead] at hparams hparams'
      exact Except.ok.inj (hparams.symm.trans hparams')
  · rw [if_neg hin] at hparams hparams'
    exact Except.ok.inj (hparams.symm.trans hparams')

/-- There is a parameter for the input, if there is one, and one for each coordinate. -/
theorem fusedParams_length {signature : KernelSignature} {first : ResolvedStage}
    {config : FusionConfig} {params : List FusedParam}
    (h : fusedParams signature first config = .ok params) :
    params.length = signature.inputs + signature.coordinates.length := by
  have hlength := congrArg List.length (fusedParams_operands h)
  have hcurrent : signature.current.toList.length = signature.inputs := by
    unfold KernelSignature.current KernelSignature.inputs
    split <;> rfl
  simpa [hcurrent] using hlength

/-- Every coordinate of a stage is an operand of a parameter. -/
theorem FusionPlan.Built.coordinates_subset {chain : Chain} {name : String} {config : FusionConfig}
    {plan : FusionPlan} (h : plan.Built view chain name config) {k : KernelSlot}
    {d : KernelDescriptor} (hk : k ∈ chain.stages) (hd : k.describe = .ok d) :
    d.signature.coordinates.map Operand.ofCoordinate ⊆ plan.params.map (·.operand) := by
  obtain ⟨first, -, hparams⟩ := h.params
  rw [fusedParams_operands hparams]
  exact List.subset_append_of_subset_right _
    (List.map_subset _ (chain.coordinates_reconcile h.signature hk hd))

/-- A plan that was built on a well-formed module can be read off the forced module. -/
theorem FusionPlan.build_built {dest : Module} {chain : Chain} {name : String}
    {config : FusionConfig} {plan : FusionPlan} (hd : dest.WellFormed)
    (h : build chain name config dest = (.ok plan, left)) :
    plan.Built dest.force chain name config := by
  have hprobe := Probes.build hd.force (Module.force_force dest) chain name config
  obtain ⟨hview, -⟩ := hprobe.succeeded hd h
  exact build_forced (Module.force_force dest) (Prod.ext hview rfl)

/-- A fusion that succeeds has built a plan and committed it. -/
theorem fuse_ok {dest : Module} {chain : Chain} {name : String} {config : FusionConfig}
    {kernel : FusedKernel} (hd : dest.WellFormed)
    (h : fuse chain name config dest = (.ok kernel, left)) :
    ∃ plan mid, FusionPlan.build chain name config dest = (.ok plan, mid) ∧
      plan.Built dest.force chain name config ∧ plan.commit config mid = (kernel, left) := by
  rw [fuse_eq] at h
  obtain ⟨plan, mid, hbuild, hcommit⟩ := Attempt.of_andThen_ok h
  obtain ⟨hkernel, rfl⟩ := Prod.mk.inj hcommit
  exact ⟨plan, mid, hbuild, FusionPlan.build_built hd hbuild,
    Prod.ext (Except.ok.inj hkernel) rfl⟩

/-- The kernel of a fusion is the function that its plan emits. -/
theorem fuse_emits {dest : Module} {chain : Chain} {name : String} {config : FusionConfig}
    {kernel : FusedKernel} (hd : dest.WellFormed)
    (h : fuse chain name config dest = (.ok kernel, left)) :
    ∃ plan mid, FusionPlan.build chain name config dest = (.ok plan, mid) ∧
      plan.Built dest.force chain name config ∧ kernel.signature = plan.signature ∧
      left.function? kernel.id = some (plan.emit kernel.id config) := by
  obtain ⟨plan, mid, hbuild, hbuilt, hcommit⟩ := fuse_ok hd h
  cases hcommit
  refine ⟨plan, mid, hbuild, hbuilt, rfl, ?_⟩
  exact (plan.function?_commit config mid mid.nextFunction).trans (if_pos rfl)

/-- The registers of the kernel, if the fusion gets as far as a plan, are numbered without wrapping
around. -/
def FitsRegisters (chain : Chain) (name : String) (config : FusionConfig) (dest : Module) : Prop :=
  ∀ plan left, FusionPlan.build chain name config dest = (.ok plan, left) →
    plan.registerCount < 2 ^ 32

/-- There are registers enough for any chain of a reasonable length. -/
theorem fitsRegisters_of_length {dest : Module} {chain : Chain} (name : String)
    (config : FusionConfig) (hd : dest.WellFormed) (h : chain.length + 4 < 2 ^ 32) :
    FitsRegisters chain name config dest := by
  intro plan left hbuild
  have hbuilt := FusionPlan.build_built hd hbuild
  obtain ⟨first, -, hparams⟩ := hbuilt.params
  have hlen := fusedParams_length hparams
  have hcoordinates : plan.signature.coordinates.length ≤ 3 := List.length_filter_le _ _
  have hinput : plan.signature.inputs ≤ 1 := by
    unfold KernelSignature.inputs
    split <;> simp
  have hcalls : valueCalls plan.calls ≤ chain.length :=
    Nat.le_trans List.countP_le_length (Nat.le_of_eq hbuilt.calls.length_eq)
  unfold FusionPlan.registerCount
  omega

end KernelFusion

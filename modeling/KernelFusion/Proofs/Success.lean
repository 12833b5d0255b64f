import KernelFusion.Proofs.Planning

/-!
# When a fusion succeeds

A fusion succeeds exactly if the signatures of the chain merge, the name is free, and every stage
can be called with the value that flows into it. Whether stages can be called is settled one after
the other, so chains can be cut in two and joined: what flows over the cut depends on the type of
the last result only.
-/

namespace KernelFusion

variable {view : Module} {current : Option Operand} {ks ks' : List KernelSlot}
  {calls calls' : List PlannedCall}

namespace Planned

/-- Calls can be made in any module where the names stand for the same functions. -/
theorem mono {view' : Module}
    (hle : ∀ name f, view.callable? name = some f → view'.callable? name = some f)
    (h : Planned view current ks calls) : Planned view' current ks calls := by
  induction h with
  | nil current => exact .nil current
  | cons describe hasName call later ih =>
    exact .cons describe hasName { call with entry := hle _ _ call.entry } ih

/-- Stages behind others are called with what flows out of these. -/
theorem append (h : Planned view current ks calls)
    (h' : Planned view (PlannedCall.outflow current calls) ks' calls') :
    Planned view current (ks ++ ks') (calls ++ calls') := by
  induction h with
  | nil current => exact h'
  | cons describe hasName call later ih =>
    rw [PlannedCall.outflow_cons] at h'
    exact .cons describe hasName call (ih h')

/-- The calls of a chain that is cut in two. -/
theorem of_append (h : Planned view current (ks ++ ks') calls) :
    ∃ before after, calls = before ++ after ∧ Planned view current ks before ∧
      Planned view (PlannedCall.outflow current before) ks' after := by
  induction ks generalizing current calls with
  | nil => exact ⟨[], calls, rfl, .nil current, h⟩
  | cons k rest ih =>
    cases h with
    | @cons _ _ d f c _ later describe hasName call hlater =>
      obtain ⟨before, after, rfl, hbefore, hafter⟩ := ih hlater
      refine ⟨c :: before, after, rfl, .cons describe hasName call hbefore, ?_⟩
      rw [PlannedCall.outflow_cons]
      exact hafter

/-- The types of results depend on the stages only. -/
theorem results_eq {other : Option Operand} (h : Planned view current ks calls)
    (h' : Planned view other ks calls') : calls.map (·.result) = calls'.map (·.result) := by
  induction h generalizing other calls' with
  | nil => cases h' with | nil => rfl
  | cons describe hasName call later ih =>
    cases h' with
    | cons describe' hasName' call' later' =>
      cases describe.symm.trans describe'
      cases call.entry.symm.trans call'.entry
      rw [List.map_cons, List.map_cons, ih later', call.result, call'.result]

/-- Every stage has a name that stands for a function. -/
theorem entry_of_mem (h : Planned view current ks calls) {k : KernelSlot} (hk : k ∈ ks) :
    ∃ d f, k.describe = .ok d ∧ d.hasName = true ∧ view.callable? d.name = some f := by
  induction h with
  | nil => cases hk
  | @cons current k' d f c rest calls describe hasName call later ih =>
    rcases List.mem_cons.mp hk with rfl | hk
    · exact ⟨d, f, describe, hasName, call.entry⟩
    · exact ih hk

end Planned

/-- A merged signature has an input only if the first stage reads one, so that its function has a
parameter. -/
theorem first_param_of_input {chain : Chain} {s : KernelSignature} {d : KernelDescriptor}
    {f : Function} (hs : chain.reconcile = .ok s) (h : Planned view s.current chain.stages calls)
    (hin : s.has .input = true) (hd : chain.first.describe = .ok d)
    (hf : view.callable? d.name = some f) : ∃ ty, f.prototype.paramTypes.head? = some ty := by
  obtain ⟨signatures, hjoins, rfl⟩ := Chain.reconcile_eq_ok_iff.mp hs
  rw [KernelSignature.has_input_merge] at hin
  rcases chain with ⟨stages, hne⟩
  cases h with
  | nil => exact absurd rfl hne
  | @cons _ k d' f' c rest later describe hasName call hlater =>
    cases hjoins with
    | cons hk hrest =>
      cases hd.symm.trans describe
      cases hf.symm.trans call.entry
      have hreads : d.signature.has .input = true := by
        rw [hk.signature_eq describe]
        simpa using hin
      obtain ⟨o, ho⟩ := Option.isSome_iff_exists.mp (call.input hreads)
      have harity := call.arity
      rw [call.operands, if_pos hreads, ho] at harity
      cases hparams : f.prototype.params with
      | nil => simp [hparams] at harity
      | cons param params => exact ⟨param.ty, by simp [Prototype.paramTypes, hparams]⟩

section Forced

variable (hf : view.force = view)

include hf

theorem resolveStage_of_callable {k : KernelSlot} {d : KernelDescriptor} {f : Function}
    (hk : k.describe = .ok d) (hname : d.hasName = true) (h : view.callable? d.name = some f)
    (stage : Nat) :
    resolveStage stage k view = (.ok ⟨d, f.id, f.prototype.paramTypes, f.result⟩, view) := by
  have hstay : view.materialize d.name = view := by rw [← hf, Module.materialize_force]
  simp only [resolveStage, hk, hname, if_true, hstay, h]

/-- A call that can be made is planned. -/
theorem planStage_of_callOf {k : KernelSlot} {d : KernelDescriptor} {f : Function}
    {c : PlannedCall} (hk : k.describe = .ok d) (hname : d.hasName = true)
    (h : CallOf view current d f c) (stage : Nat) :
    ∃ c', planStage stage current k view = (.ok c', view) ∧ c'.leaves = c.leaves := by
  have hoperands : (⟨d, f.id, f.prototype.paramTypes, f.result⟩ : ResolvedStage).operands stage
      current = .ok c.operands := by
    have hgiven := h.operands
    unfold ResolvedStage.operands
    by_cases hin : d.signature.has .input = true
    · obtain ⟨o, rfl⟩ := Option.isSome_iff_exists.mp (h.input hin)
      simp_all
    · simp_all
  have harity : c.operands.length = f.prototype.paramTypes.length := by
    simpa [Prototype.paramTypes] using h.arity
  refine ⟨⟨stage, f.id, d.name, c.operands, f.result⟩, ?_, ?_⟩
  · simp only [planStage, resolveStage_of_callable hf hk hname h.entry stage, hoperands,
      if_pos harity]
  · rw [PlannedCall.leaves, PlannedCall.leaves, h.result]

/-- Calls that can be made are planned. -/
theorem planStages_of_planned (h : Planned view current ks calls) (stage : Nat) :
    ∃ calls', planStages stage current ks view = (.ok calls', view) := by
  induction h generalizing stage with
  | nil => exact ⟨[], rfl⟩
  | cons describe hasName call later ih =>
    obtain ⟨c', hc, hleaves⟩ := planStage_of_callOf hf describe hasName call stage
    obtain ⟨calls', hcalls⟩ := ih (stage + 1)
    refine ⟨c' :: calls', ?_⟩
    simp only [planStages, hc, hleaves, hcalls]

/-- A plan is built if the signatures merge, the name is free and the stages can be called. -/
theorem FusionPlan.exists_build {chain : Chain} {s : KernelSignature} {name : String}
    (hs : chain.reconcile = .ok s) (hfree : view.hasSymbol name = false)
    (h : Planned view s.current chain.stages calls) (config : FusionConfig) :
    ∃ plan, build chain name config view = (.ok plan, view) := by
  obtain ⟨first, f, hfirst, hfirstName, hf'⟩ := h.entry_of_mem (List.head_mem chain.nonempty)
  obtain ⟨last, g, hlast, hlastName, hg⟩ := h.entry_of_mem (List.getLast_mem chain.nonempty)
  have hopen : resolveStage 0 chain.first view =
      (.ok ⟨first, f.id, f.prototype.paramTypes, f.result⟩, view) :=
    resolveStage_of_callable hf hfirst hfirstName hf' 0
  have hclose : resolveStage (chain.length - 1) chain.last view =
      (.ok ⟨last, g.id, g.prototype.paramTypes, g.result⟩, view) :=
    resolveStage_of_callable hf hlast hlastName hg (chain.length - 1)
  have hparams : ∃ params, fusedParams s ⟨first, f.id, f.prototype.paramTypes, f.result⟩ config =
      .ok params := by
    unfold fusedParams
    by_cases hin : s.has .input = true
    · obtain ⟨ty, hty⟩ := first_param_of_input hs h hin hfirst hf'
      simp [hin, hty]
    · simp [hin]
  obtain ⟨params, hparams⟩ := hparams
  obtain ⟨planned, hplanned⟩ := planStages_of_planned hf h 0
  refine ⟨⟨name, s, params, g.result, planned⟩, ?_⟩
  rw [build_eq hs name config hfree, buildCalls]
  rw [Attempt.andThen_of_ok hopen, Attempt.andThen_of_ok hclose, hparams]
  exact Attempt.andThen_of_ok hplanned

end Forced

/-- A fusion succeeds exactly if the signatures merge, the name is free and the stages can be called
one after the other. -/
theorem fuse_succeeds_iff {dest : Module} (hd : dest.WellFormed) {chain : Chain} {name : String}
    {config : FusionConfig} :
    (∃ kernel, (fuse chain name config dest).1 = .ok kernel) ↔
      ∃ s, chain.reconcile = .ok s ∧ dest.hasSymbol name = false ∧
        ∃ calls, Planned dest.force s.current chain.stages calls := by
  have hforced : dest.force.hasSymbol name = dest.hasSymbol name := by
    rw [Module.hasSymbol, Module.hasSymbol, hd.idOf?_force]
  constructor
  · rintro ⟨kernel, hkernel⟩
    have hfuse : fuse chain name config dest = (.ok kernel, (fuse chain name config dest).2) :=
      Prod.ext hkernel rfl
    obtain ⟨plan, mid, -, hbuilt, -⟩ := fuse_ok hd hfuse
    exact ⟨plan.signature, hbuilt.signature, hforced.symm.trans hbuilt.free, plan.calls,
      hbuilt.calls⟩
  · rintro ⟨s, hs, hfree, calls, hcalls⟩
    obtain ⟨plan, hplan⟩ := FusionPlan.exists_build (Module.force_force dest) hs
      (hforced.trans hfree) hcalls config
    obtain ⟨moved, -, -, hmod⟩ :=
      Probes.build hd.force (Module.force_force dest) chain name config
    have hbuild := hmod dest hd rfl
    rw [hplan] at hbuild
    rw [fuse_eq, Attempt.andThen_of_ok hbuild]
    exact ⟨_, rfl⟩

/-- A wrapping succeeds exactly if the name is free and the slot names a function that takes one
argument. -/
theorem wrap_succeeds_iff {dest : Module} (hd : dest.WellFormed) {target : InvokableSlot}
    {name : String} {config : FusionConfig} :
    (∃ id, (wrapInvoke target name config dest).1 = .ok id) ↔
      dest.hasSymbol name = false ∧ ∃ entry f, target.name = .ok entry ∧ entry ≠ "" ∧
        dest.force.callable? entry = some f ∧ f.prototype.params.length = 1 := by
  unfold wrapInvoke
  rcases target.name with e | entry
  · simp
  · by_cases hempty : entry = ""
    · simp [hempty]
    · cases hn : dest.hasSymbol name with
      | true => simp [hempty]
      | false =>
        simp only [hempty, if_false, Bool.false_eq_true, hd.callable?_materialize]
        cases hf : dest.force.callable? entry with
        | none => simp [hf]
        | some f => by_cases hparams : f.prototype.params.length = 1 <;> simp [hempty, hf, hparams]

end KernelFusion

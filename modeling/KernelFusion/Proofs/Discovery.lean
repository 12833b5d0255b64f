import KernelFusion.Proofs.Stepwise

/-!
# What was made can be found and used again

A request records its function in the last slot of a table, and whoever reads the table gets the
name that was asked for. A slot with an empty name counts as unused, though, and a request does not
mind being given an empty name. So the kernel or the wrapper that was made can be used in a further
request exactly if it has a name.
-/

namespace KernelFusion

/-- The last kernel slot of a module. -/
def Module.lastKernel (m : Module) : KernelSlot := ⟨m, (m.records foreachNameTable).length - 1⟩

/-- The last slot of an invokable function of a module. -/
def Module.lastInvokable (m : Module) : InvokableSlot := ⟨m, (m.records invokableTable).length - 1⟩

section Slots

variable {m : Module} {commits : List Commit} {c : Commit} {name : String} {s : KernelSignature}

/-- A kernel that was committed last is in the last slot. -/
theorem Consistent.describe_lastKernel (h : Consistent m (commits ++ [c]))
    (hkernel : c.kernel? = some (name, s)) :
    m.lastKernel.describe =
      .ok ⟨m.name, m.lastKernel.slot, name, if name = "" then 0 else s.inputs.toUInt32, s⟩ := by
  have hslot : m.lastKernel = ⟨m, (commits.filterMap Commit.kernel?).length⟩ := by
    simp [Module.lastKernel, h.records.names, hkernel]
  rw [hslot]
  exact h.describe_last hkernel

/-- A wrapper that was committed last is in the last slot. -/
theorem Consistent.name_lastInvokable (h : Consistent m (commits ++ [c]))
    (hwrapper : c.wrapper? = some name) : m.lastInvokable.name = .ok name := by
  have hslot : m.lastInvokable = ⟨m, (commits.filterMap Commit.wrapper?).length⟩ := by
    simp [Module.lastInvokable, h.records.invokable, hwrapper]
  rw [hslot]
  exact h.name_last hwrapper

end Slots

section Fusion

variable {dest left : Module} {chain : Chain} {name q : String} {config other : FusionConfig}
  {kernel : FusedKernel} {commits : List Commit}

/-- A slot that stands for a chain can be fused by itself under every free name. -/
theorem FusionPlan.Stage.fuses_alone {p : FusionPlan} {before : Module} {id : FunctionId}
    {k : KernelSlot} (h : p.Stage before left.force chain name config id k)
    (hleft : left.WellFormed) (hfree : left.hasSymbol q = false) :
    ∃ again, (fuse (.starting k []) q other left).1 = .ok again := by
  have hmerged : (Chain.starting k []).reconcile = .ok (.merge [p.signature]) :=
    (Chain.reconcile_starting_iff h.joins).mpr ⟨[], .nil, rfl⟩
  obtain ⟨c, hcalls⟩ := h.planned_starting (.nil _)
  rw [fuse_succeeds_iff hleft]
  exact ⟨_, hmerged, hfree, [c], by rwa [h.current_eq hmerged]⟩

/-- A stage without a name cannot be fused. -/
theorem hasName_of_fuses {k : KernelSlot} {d : KernelDescriptor} (hleft : left.WellFormed)
    (hk : k.describe = .ok d) (h : ∃ again, (fuse (.starting k []) q other left).1 = .ok again) :
    d.hasName = true := by
  obtain ⟨s, -, -, calls, hcalls⟩ := (fuse_succeeds_iff hleft).mp h
  obtain ⟨d', -, hd', hname, -⟩ := hcalls.entry_of_mem List.mem_cons_self
  cases hk.symm.trans hd'
  exact hname

/-- The last kernel slot describes what was fused, and it can be fused again exactly if it has a
name. -/
theorem Consistent.fuse_discoverable (hd : Consistent dest commits)
    (hroom : dest.nextFunction.toNat + 1 < 2 ^ 32)
    (h : fuse chain name config dest = (.ok kernel, left)) :
    left.lastKernel.describe = .ok ⟨left.name, left.lastKernel.slot, name,
        if name = "" then 0 else kernel.signature.inputs.toUInt32, kernel.signature⟩ ∧
      ∀ q other, left.hasSymbol q = false →
        ((∃ again, (fuse (.starting left.lastKernel []) q other left).1 = .ok again) ↔
          name ≠ "") := by
  obtain ⟨hleft, hkernel⟩ := hd.fused hroom h
  have hdescribe := hleft.describe_lastKernel hkernel
  refine ⟨hdescribe, fun q other hfree => ⟨fun hagain => ?_, fun hname => ?_⟩⟩
  · simpa [KernelDescriptor.hasName] using hasName_of_fuses hleft.wellFormed hdescribe hagain
  · obtain ⟨plan, -, -, hadded, hsignature, -⟩ := FusionPlan.added_of_fuse hd.wellFormed hroom h
    rw [if_neg hname, hsignature] at hdescribe
    exact (hadded.stage hd.wellFormed hname hdescribe).fuses_alone hleft.wellFormed hfree

end Fusion

section Wrapping

variable {dest left : Module} {target : InvokableSlot} {name : String} {config : FusionConfig}
  {id : FunctionId} {commits : List Commit}

/-- A wrapping that succeeds is a step that commits a function with one parameter. -/
theorem Step.of_wrap_ok (hd : dest.WellFormed) (hroom : dest.nextFunction.toNat + 1 < 2 ^ 32)
    (h : wrapInvoke target name config dest = (.ok id, left)) :
    Step dest (some ⟨.wrap target name, id⟩) left ∧
      ∃ f, left.function? id = some f ∧ f.prototype.params.length = 1 := by
  refine ⟨Step.of_wrap hd h (fun _ _ => hroom), ?_⟩
  rw [wrapInvoke_eq] at h
  obtain ⟨callee, mid, hresolve, hcommit⟩ := Attempt.of_andThen_ok h
  rw [commitWrapper_eq] at hcommit
  cases hcommit
  have hid := (wrapper_frame mid.nextFunction name callee config).1
  refine ⟨wrapper mid.nextFunction name callee config, ?_, ?_⟩
  · exact (Module.function?_addNext hid mid.nextFunction).trans (if_pos rfl)
  · exact (wrapper_params mid.nextFunction name callee config).trans
      (InvokableSlot.of_resolve_ok hresolve).2

/-- The last slot of an invokable function has the name of the wrapper, and it can be wrapped again
exactly if this is not empty. -/
theorem Consistent.wrap_discoverable (hd : Consistent dest commits)
    (hroom : dest.nextFunction.toNat + 1 < 2 ^ 32)
    (h : wrapInvoke target name config dest = (.ok id, left)) :
    left.lastInvokable.name = .ok name ∧
      ∀ q other, left.hasSymbol q = false →
        ((∃ again, (wrapInvoke left.lastInvokable q other left).1 = .ok again) ↔ name ≠ "") := by
  obtain ⟨hstep, f, hf, hparams⟩ := Step.of_wrap_ok hd.wellFormed hroom h
  have hleft : Consistent left (commits ++ [⟨.wrap target name, id⟩]) := hd.step hstep
  have hname := hleft.name_lastInvokable rfl
  refine ⟨hname, fun q other hfree => ?_⟩
  rw [wrap_succeeds_iff hleft.wellFormed]
  constructor
  · rintro ⟨-, entry, g, hentry, hne, -⟩
    cases hname.symm.trans hentry
    exact hne
  · intro hne
    -- The name in the slot stands for the wrapper itself, whose body is not pending.
    obtain ⟨-, g, hholds⟩ := hstep.holds_commit hd.wellFormed
    cases hf.symm.trans hholds.function
    exact ⟨hfree, name, f, hname, hne, hholds.callable?_force hleft.wellFormed, hparams⟩

end Wrapping

/-- A request that succeeds in linked modules can be found in the tables. The last kernel slot
describes the kernel that was fused, with the name that was asked for, the merged signature and, if
the name is not empty, one input if the signature says so and else none; it has a name exactly if
one was asked for, and it can be fused by itself, under any free name, exactly then. The last slot
of an invokable function has the name that was asked for a wrapper, and it can be wrapped, under any
free name, exactly if this is not empty. -/
theorem request_discoverable {origin : String} {sources : List Module} {dest : Module}
    (hlink : Module.linkAll origin sources = .ok dest)
    (hfit : NumbersFit (sources.map .link) (.new origin))
    (hroom : dest.nextFunction.toNat + 1 < 2 ^ 32) (name : String) (config : FusionConfig) :
    (∀ chain kernel left, fuse chain name config dest = (.ok kernel, left) →
      (∃ d, left.lastKernel.describe = .ok d ∧ d.name = name ∧
        d.signature = kernel.signature ∧ (d.hasName = true ↔ name ≠ "") ∧
        d.inputs = if name ≠ "" ∧ kernel.signature.has .input = true then 1 else 0) ∧
      ∀ q other, left.hasSymbol q = false →
        ((∃ again, (fuse (.starting left.lastKernel []) q other left).1 = .ok again) ↔
          name ≠ "")) ∧
    ∀ target id left, wrapInvoke target name config dest = (.ok id, left) →
      left.lastInvokable.name = .ok name ∧
      ∀ q other, left.hasSymbol q = false →
        ((∃ again, (wrapInvoke left.lastInvokable q other left).1 = .ok again) ↔ name ≠ "") := by
  obtain ⟨hconsistent, -⟩ := (Consistent.start origin).run hfit
  simp only [history_links hlink, List.append_nil] at hconsistent
  refine ⟨fun chain kernel left h => ?_, fun target id left h =>
    hconsistent.wrap_discoverable hroom h⟩
  obtain ⟨hdescribe, hagain⟩ := hconsistent.fuse_discoverable hroom h
  refine ⟨⟨_, hdescribe, rfl, rfl, by simp [KernelDescriptor.hasName], ?_⟩, hagain⟩
  by_cases hname : name = "" <;> simp [hname, KernelSignature.toUInt32_inputs]

/-- The sample modules with an invokable function wrapped. -/
def Samples.wrapped : Module := (wrapInvoke ⟨image, 0⟩ "wrapped" .standard merged).2

/-- The sample filter can be fused again from its slot, and the wrapper can be wrapped again. -/
theorem request_discoverable_filter :
    (∃ d, Samples.fused.lastKernel.describe = .ok d ∧ d.name = "fused" ∧ d.signature = ⟨0x3b⟩ ∧
      d.hasName = true ∧ d.inputs = 1) ∧
    (∃ again,
      (fuse (.starting Samples.fused.lastKernel []) "again" .standard Samples.fused).1 =
        .ok again) ∧
    Samples.wrapped.lastInvokable.name = .ok "wrapped" ∧
    ∃ again, (wrapInvoke Samples.wrapped.lastInvokable "again" .standard Samples.wrapped).1 =
      .ok again := by
  have hlink : Module.linkAll "merged" [Samples.image, Samples.extra] = .ok Samples.merged := rfl
  have hfit : NumbersFit ([Samples.image, Samples.extra].map .link) (.new "merged") :=
    ⟨by decide, by decide, trivial⟩
  have hroom : Samples.merged.nextFunction.toNat + 1 < 2 ^ 32 := by decide
  have hkernel : (fuse Samples.filter "fused" .standard Samples.merged).1 =
      .ok ⟨10, "fused", ⟨0x3b⟩, 3⟩ := by decide +kernel
  have hwrapper : (wrapInvoke ⟨Samples.image, 0⟩ "wrapped" .standard Samples.merged).1 =
      .ok 10 := by decide +kernel
  obtain ⟨⟨d, hd, hname, hsignature, hnamed, hinputs⟩, hagain⟩ :=
    (request_discoverable hlink hfit hroom "fused" .standard).1 Samples.filter _ Samples.fused
      (Prod.ext hkernel rfl)
  obtain ⟨hentry, hrewrap⟩ :=
    (request_discoverable hlink hfit hroom "wrapped" .standard).2 ⟨Samples.image, 0⟩ _
      Samples.wrapped (Prod.ext hwrapper rfl)
  exact ⟨⟨d, hd, hname, hsignature, hnamed.mpr (by decide), hinputs⟩,
    (hagain "again" .standard (by decide +kernel)).mpr (by decide), hentry,
    (hrewrap "again" .standard (by decide +kernel)).mpr (by decide)⟩

/-- Under an empty name both requests succeed, but what was made cannot be found. The kernel has an
input, and its slot counts as unused and reads none. -/
theorem unnamed_not_discoverable :
    Module.linkAll "merged" [Samples.image, Samples.extra] = .ok Samples.merged ∧
    (∃ kernel left, fuse Samples.filter "" .standard Samples.merged = (.ok kernel, left) ∧
      kernel.signature.has .input = true ∧ left.hasSymbol "again" = false ∧
      (∃ d, left.lastKernel.describe = .ok d ∧ d.hasName = false ∧ d.inputs = 0) ∧
      (fuse (.starting left.lastKernel []) "again" .standard left).1 =
        .error (.unnamedKernel 0 "merged" 0)) ∧
    ∃ id left, wrapInvoke ⟨Samples.image, 0⟩ "" .standard Samples.merged = (.ok id, left) ∧
      left.hasSymbol "again" = false ∧
      (wrapInvoke left.lastInvokable "again" .standard left).1 =
        .error (.unresolvedFunction "" "merged") := by
  have hkernel : (fuse Samples.filter "" .standard Samples.merged).1 =
      .ok ⟨10, "", ⟨0x3b⟩, 3⟩ := by decide +kernel
  have hwrapper : (wrapInvoke ⟨Samples.image, 0⟩ "" .standard Samples.merged).1 = .ok 10 := by
    decide +kernel
  have hdescribe : (fuse Samples.filter "" .standard Samples.merged).2.lastKernel.describe =
      .ok ⟨"merged", 0, "", 0, ⟨0x3b⟩⟩ := by decide +kernel
  refine ⟨rfl, ⟨_, _, Prod.ext hkernel rfl, ?_, ?_, ⟨_, hdescribe, ?_, ?_⟩, ?_⟩,
    _, _, Prod.ext hwrapper rfl, ?_, ?_⟩
  all_goals decide +kernel

end KernelFusion

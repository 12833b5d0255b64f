import KernelFusion.Proofs.Composition
import KernelFusion.Proofs.FusedStage
import KernelFusion.Proofs.History

/-!
# Fusing in steps

A chain can be fused at once, or its first stages can be fused and the kernel that this gives put in
front of the others. Either way the fusion succeeds or fails, and the kernels are called alike,
give the same result and make the same calls, if a call of the kernel in front is made by running
its body.
-/

namespace KernelFusion

variable {σ V : Type}

/-- Keep the calls so far beside the state. -/
def Machine.recording (machine : Machine σ V) : Machine (σ × List (FunctionId × List V)) V where
  call id s args :=
    let (state, result) := machine.call id s.1 args
    ((state, s.2 ++ [(id, args)]), result)
  operate i s args :=
    let (state, result) := machine.operate i s.1 args
    ((state, s.2), result)

/-- Call one function by running its body, all others as before. -/
def Machine.through (machine : Machine σ V) (id : FunctionId) (f : Function) : Machine σ V where
  call callee s args :=
    if callee = id then (f.run machine s args).getD (s, none) else machine.call callee s args
  operate := machine.operate

section Machines

variable {machine : Machine σ V} {id : FunctionId} {f : Function}

theorem Machine.RespectsCalls.recording {m : Module} (h : machine.RespectsCalls m) :
    machine.recording.RespectsCalls m :=
  fun id f hf s args hargs => h id f hf s.1 args hargs

theorem Machine.call_through_self {s : σ} {args : List V} {outcome : σ × Option V}
    (h : f.run machine s args = some outcome) :
    (machine.through id f).call id s args = outcome := by
  simp [through, h]

theorem Machine.call_through_other {callee : FunctionId} (h : callee ≠ id) (s : σ)
    (args : List V) : (machine.through id f).call callee s args = machine.call callee s args :=
  if_neg h

end Machines

/-- A fusion that built the plan `p` has made the module `left` out of `dest`: the emitted function
is there under a new number, and all others are as before. -/
structure FusionPlan.Added (p : FusionPlan) (dest left : Module) (chain : Chain) (name : String)
    (config : FusionConfig) (id : FunctionId) : Prop where
  /-- The plan is one for the chain. -/
  built : p.Built dest.force chain name config
  /-- The numbers are consistent. -/
  wellFormed : left.WellFormed
  /-- The number was not in use. -/
  unused : dest.whole? id = none
  /-- A name stands for the same number. -/
  names : ∀ n i, dest.idOf? n = some i → left.idOf? n = some i
  /-- The name of the kernel stands for its number. -/
  symbol : left.idOf? name = some id
  /-- Whole functions are as before, with the emitted one. -/
  whole : ∀ i, left.whole? i = if id = i then some (p.emit id config) else dest.whole? i

section Fusion

variable {dest left : Module} {chain : Chain} {name : String} {config : FusionConfig}
  {kernel : FusedKernel}

/-- A fusion that succeeds is a step that commits its kernel. -/
theorem Step.of_fuse_ok (hd : dest.WellFormed) (hroom : dest.nextFunction.toNat + 1 < 2 ^ 32)
    (h : fuse chain name config dest = (.ok kernel, left)) :
    Step dest (some ⟨.fuse chain name, kernel.id⟩) left := by
  have hrun : (Request.fuse chain name).run config dest = (.ok kernel.id, left) := by
    simp only [Request.run, h]
    rfl
  exact Step.of_fuse hd hrun (fun _ _ => hroom)

/-- A fusion that succeeds has added its kernel. -/
theorem FusionPlan.added_of_fuse (hd : dest.WellFormed)
    (hroom : dest.nextFunction.toNat + 1 < 2 ^ 32)
    (h : fuse chain name config dest = (.ok kernel, left)) :
    ∃ plan mid, build chain name config dest = (.ok plan, mid) ∧
      plan.Added dest left chain name config kernel.id ∧ kernel.signature = plan.signature ∧
      left.function? kernel.id = some (plan.emit kernel.id config) := by
  have hstep := Step.of_fuse_ok hd hroom h
  obtain ⟨-, f, hholds⟩ := hstep.holds_commit hd
  obtain ⟨plan, mid, hbuild, hbuilt, hcommit⟩ := fuse_ok hd h
  have hprobe := Probes.build hd.force (Module.force_force dest) chain name config
  obtain ⟨-, hmid, -, hmoved, -⟩ := hprobe.succeeded hd hbuild
  rw [plan.commit_eq] at hcommit
  obtain ⟨rfl, rfl⟩ := Prod.mk.inj hcommit
  have hid := (plan.emit_frame mid.nextFunction config).1
  have hunused : dest.whole? mid.nextFunction = none := by
    have hnone := hd.function?_of_le (UInt32.le_of_eq hmoved.nextFunction.symm)
    rw [← Option.isNone_iff_eq_none, ← Option.not_isSome, Module.isSome_whole?, hnone]
    rfl
  refine ⟨plan, mid, hbuild, ⟨hbuilt, hstep.wellFormed hd, hunused, (hstep.keeps hd).names,
    hholds.symbol, fun i => ?_⟩, rfl, ?_⟩
  · rw [← hmoved.whole?_eq hd]
    exact hmid.whole?_addNext hid i
  · exact (Module.function?_addNext hid _).trans (if_pos rfl)

/-- A module after a fusion that succeeds is consistent with one commit more. -/
theorem Consistent.fused {commits : List Commit} (hd : Consistent dest commits)
    (hroom : dest.nextFunction.toNat + 1 < 2 ^ 32)
    (h : fuse chain name config dest = (.ok kernel, left)) :
    Consistent left (commits ++ [⟨.fuse chain name, kernel.id⟩]) ∧
      (⟨.fuse chain name, kernel.id⟩ : Commit).kernel? = some (name, kernel.signature) := by
  obtain ⟨plan, mid, -, hbuilt, hsignature, -⟩ := fuse_emits hd.wellFormed h
  refine ⟨hd.step (Step.of_fuse_ok hd.wellFormed hroom h), ?_⟩
  simp [Commit.kernel?, hbuilt.signature, hsignature, Except.toOption]

/-- The first kernel of a module is described as it was fused. -/
theorem describe_fused (hd : Consistent dest []) (hroom : dest.nextFunction.toNat + 1 < 2 ^ 32)
    (hname : name ≠ "") (h : fuse chain name config dest = (.ok kernel, left)) :
    (⟨left, 0⟩ : KernelSlot).describe =
      .ok ⟨left.name, 0, name, kernel.signature.inputs.toUInt32, kernel.signature⟩ := by
  obtain ⟨hleft, hkernel⟩ := hd.fused hroom h
  simpa [hname] using hleft.describe_last hkernel

end Fusion

namespace FusionPlan.Added

variable {p : FusionPlan} {dest left : Module} {chain : Chain} {name : String}
  {config : FusionConfig} {id : FunctionId} {k : KernelSlot} {later : List KernelSlot}
  {machine : Machine σ V}

/-- What could be called can still be called, and it is not the kernel. -/
theorem callable? (h : p.Added dest left chain name config id) (hd : dest.WellFormed) {n : String}
    {f : Function} (hf : dest.force.callable? n = some f) :
    left.force.callable? n = some f ∧ f.id ≠ id := by
  obtain ⟨hid, hwhole⟩ := hd.of_callable?_force hf
  have hne : f.id ≠ id := by
    intro he
    rw [he, h.unused] at hwhole
    cases hwhole
  refine ⟨h.wellFormed.callable?_force_iff.mpr ⟨h.names _ _ hid, ?_⟩, hne⟩
  rw [h.whole, if_neg hne.symm, hwhole]

/-- A slot that describes the kernel can stand for the chain. -/
theorem stage (h : p.Added dest left chain name config id) (hd : dest.WellFormed)
    (hname : name ≠ "")
    (hk : k.describe =
      .ok ⟨k.module.name, k.slot, name, p.signature.inputs.toUInt32, p.signature⟩) :
    p.Stage dest.force left.force chain name config id k where
  built := h.built
  kept _ _ hf := (h.callable? hd hf).1
  describe := hk
  named := hname
  entry := by
    have hid := (p.emit_frame id config).1
    rw [h.wellFormed.callable?_force_iff, hid, h.whole, if_pos rfl]
    exact ⟨h.symbol, rfl⟩

/-- Running the body of the kernel gives a result unless the kernel is void. -/
theorem respectsCalls [Nonempty V] (h : p.Added dest left chain name config id)
    (hd : dest.WellFormed) (hroom : p.registerCount < 2 ^ 32) (hm : machine.RespectsCalls dest) :
    (machine.through id (p.emit id config)).RespectsCalls left := by
  intro callee f hf s args hargs
  rw [h.whole] at hf
  split at hf
  next he =>
    cases hf
    obtain ⟨-, -, outcome, -, -, hrun, hresult⟩ := p.run_emit_args hd h.built hroom hm id s hargs
    rw [← he, Machine.call_through_self hrun, hresult, p.result_emit]
  next hne =>
    rw [Machine.call_through_other (Ne.symm hne)]
    exact hm callee f hf s args hargs

/-- Running the body of the kernel is running its stages. -/
theorem runStages_starting (h : p.Added dest left chain name config id) (hd : dest.WellFormed)
    (hstage : p.Stage dest.force left.force chain name config id k)
    (hroom : p.registerCount < 2 ^ 32) (hm : machine.RespectsCalls dest)
    (input : V) (point : Coordinates V) (s : σ) :
    runStages (machine.through id (p.emit id config)) left point (k :: later) s
        (p.signature.start input) =
      runStages (machine.through id (p.emit id config)) left point (chain.stages ++ later) s
        (p.signature.start input) := by
  obtain ⟨args, outcome, hargs, hstages, hrun, -⟩ :=
    p.run_emit_calls input point hd h.built hroom hm id s
  -- The stages of the chain are not the kernel, so they run as they did before it was there.
  have hbefore : runStages (machine.through id (p.emit id config)) left point chain.stages s
      (p.signature.start input) = some outcome := by
    rw [← hstages]
    refine (runStages_congr (fun stage hstage d hdescribe => ?_) s _).symm
    obtain ⟨d', f, hd', -, hf⟩ := h.built.calls.entry_of_mem hstage
    cases hdescribe.symm.trans hd'
    obtain ⟨hid, -⟩ := hd.of_callable?_force hf
    obtain ⟨-, hne⟩ := h.callable? hd hf
    exact ⟨f.id, hid, h.names _ _ hid, fun s args => (Machine.call_through_other hne s args).symm⟩
  rw [runStages_append later hbefore, runStages, hstage.describe]
  simp only [h.symbol, KernelSignature.arguments_start, hargs, Machine.call_through_self hrun]

/-- Run on the same arguments, the function fused with the kernel in front and the one fused from
the whole chain come to the same outcome. -/
theorem run_eq [Nonempty V] (h : p.Added dest left chain name config id) (hd : dest.WellFormed)
    (hstage : p.Stage dest.force left.force chain name config id k)
    (hroom : p.registerCount < 2 ^ 32) (hm : machine.RespectsCalls dest) {a b : FusionPlan}
    {q : String} {other : FusionConfig}
    (ha : a.Built left.force (.starting k later) q other)
    (hb : b.Built left.force (chain.append later) q other) (hrooma : a.registerCount < 2 ^ 32)
    (hroomb : b.registerCount < 2 ^ 32) (ida idb : FunctionId) (s : σ) {args : List V}
    (hargs : args.length = (a.emit ida other).prototype.params.length) :
    ∃ outcome,
      (a.emit ida other).run (machine.through id (p.emit id config)) s args = some outcome ∧
      (b.emit idb other).run (machine.through id (p.emit id config)) s args = some outcome := by
  have hthrough := h.respectsCalls hd hroom hm
  obtain ⟨hsignature, -, -⟩ :=
    hstage.plan_eq (Module.force_force dest) (Module.force_force left) ha hb
  obtain ⟨input, point, outcome, hargs', hstages, hrun, -⟩ :=
    a.run_emit_args h.wellFormed ha hrooma hthrough ida s hargs
  obtain ⟨args', outcome', hargs'', hstages', hrun', -⟩ :=
    b.run_emit_calls input point h.wellFormed hb hroomb hthrough idb s
  rw [← hsignature] at hargs'' hstages'
  obtain rfl := Option.some.inj (hargs'.symm.trans hargs'')
  have hstart : a.signature.start input = p.signature.start input := by
    rw [KernelSignature.start, KernelSignature.start, hstage.has_input_eq ha.signature]
  rw [hstart] at hstages hstages'
  have hsame : some outcome = some outcome' :=
    hstages.symm.trans ((h.runStages_starting hd hstage hroom hm input point s).trans hstages')
  exact ⟨outcome, hrun, Option.some.inj hsame ▸ hrun'⟩

end FusionPlan.Added

/-- Fusing in steps is fusing at once. A kernel that was fused from a chain in linked modules is
described by its slot with its name and the merged signature, and with one input if the signature
says so, and else none. If further stages are put behind that slot or behind the chain, both fusions
succeed or both fail. If they succeed, the kernels have the same merged signature and the same
parameters and result, and whatever the functions of the linked modules do, on the same arguments
they come to the same state and the same result by the same calls; a call of the kernel in front is
made by running its body. -/
theorem fuse_stepwise {name p : String} {sources : List Module} {dest left : Module}
    {chain : Chain} {config : FusionConfig} {kernel : FusedKernel}
    (hlink : Module.linkAll name sources = .ok dest)
    (hfit : NumbersFit (sources.map .link) (.new name))
    (hroom : dest.nextFunction.toNat + 1 < 2 ^ 32) (hp : p ≠ "")
    (hfuse : fuse chain p config dest = (.ok kernel, left)) :
    chain.reconcile = .ok kernel.signature ∧
    (⟨left, 0⟩ : KernelSlot).describe = .ok ⟨left.name, 0, p,
      if kernel.signature.has .input then 1 else 0, kernel.signature⟩ ∧
    ∀ (later : List KernelSlot) (q : String),
      ((∃ a, (fuse (.starting ⟨left, 0⟩ later) q config left).1 = .ok a) ↔
        ∃ b, (fuse (chain.append later) q config left).1 = .ok b) ∧
      ∀ a b leftA leftB, fuse (.starting ⟨left, 0⟩ later) q config left = (.ok a, leftA) →
        fuse (chain.append later) q config left = (.ok b, leftB) →
        a.signature = b.signature ∧
        ∃ f g h, left.function? kernel.id = some f ∧ leftA.function? a.id = some g ∧
          leftB.function? b.id = some h ∧ g.prototype = h.prototype ∧
          (FitsRegisters chain p config dest →
            FitsRegisters (.starting ⟨left, 0⟩ later) q config left →
            FitsRegisters (chain.append later) q config left →
            ∀ (σ V : Type) [Nonempty V] (machine : Machine σ V), machine.RespectsCalls dest →
              ∀ (s : σ) (args : List V), args.length = g.prototype.params.length →
              ∃ outcome,
                g.run (machine.recording.through kernel.id f) (s, []) args = some outcome ∧
                h.run (machine.recording.through kernel.id f) (s, []) args = some outcome) := by
  obtain ⟨hconsistent, -⟩ := (Consistent.start name).run hfit
  simp only [history_links hlink, List.append_nil] at hconsistent
  have hd := hconsistent.wellFormed
  obtain ⟨plan, mid, hbuild, hadded, hsignature, hfunction⟩ :=
    FusionPlan.added_of_fuse hd hroom hfuse
  have hdescribe := describe_fused hconsistent hroom hp hfuse
  have hslot := hdescribe
  rw [hsignature] at hslot
  have hstage := hadded.stage hd hp hslot
  rw [kernel.signature.toUInt32_inputs] at hdescribe
  refine ⟨hsignature ▸ hadded.built.signature, hdescribe, fun later q =>
    ⟨hstage.succeeds_iff hadded.wellFormed, fun a b leftA leftB hfuseA hfuseB => ?_⟩⟩
  obtain ⟨planA, midA, hbuildA, hbuiltA, hsignatureA, hfunctionA⟩ :=
    fuse_emits hadded.wellFormed hfuseA
  obtain ⟨planB, midB, hbuildB, hbuiltB, hsignatureB, hfunctionB⟩ :=
    fuse_emits hadded.wellFormed hfuseB
  obtain ⟨hsame, hparams, hresult⟩ :=
    hstage.plan_eq (Module.force_force dest) (Module.force_force left) hbuiltA hbuiltB
  refine ⟨by rw [hsignatureA, hsignatureB, hsame], _, _, _, hfunction, hfunctionA, hfunctionB,
    FusionPlan.prototype_emit_congr hparams hresult a.id b.id config, ?_⟩
  intro hregs hregsA hregsB σ V _ machine hm s args hargs
  exact hadded.run_eq hd hstage (hregs plan mid hbuild) hm.recording hbuiltA hbuiltB
    (hregsA planA midA hbuildA) (hregsB planB midB hbuildB) a.id b.id (s, []) hargs

/-- The first two stages of the sample filter. -/
def Samples.head : Chain := ⟨[⟨Samples.image, 0⟩, ⟨Samples.image, 1⟩], by simp⟩

/-- The linked modules with these stages as a kernel of its own. -/
def Samples.headed : Module := (fuse Samples.head "head" .standard Samples.merged).2

/-- With the kernel in front of the third stage or all three stages at once, scaling 7 at x = 1,
y = 2 calls each stage once, with the result of the one before. -/
theorem fuse_stepwise_filter :
    ∃ f g h, Samples.headed.function? 10 = some f ∧
      (fuse (.starting ⟨Samples.headed, 0⟩ [⟨Samples.image, 2⟩]) "fused" .standard
        Samples.headed).2.function? 11 = some g ∧
      (fuse Samples.filter "fused" .standard Samples.headed).2.function? 11 = some h ∧
      g.prototype = h.prototype ∧
      ∃ outcome, outcome.1.2 = [(0, [7, 1]), (1, [0]), (2, [1, 2])] ∧ outcome.2 = some 2 ∧
        g.run ((Machine.tracing Samples.merged).recording.through 10 f) ([], []) [7, 1, 2] =
          some outcome ∧
        h.run ((Machine.tracing Samples.merged).recording.through 10 f) ([], []) [7, 1, 2] =
          some outcome := by
  have hlink : Module.linkAll "merged" [Samples.image, Samples.extra] = .ok Samples.merged := rfl
  have hfit : NumbersFit ([Samples.image, Samples.extra].map .link) (.new "merged") :=
    ⟨by decide, by decide, trivial⟩
  have hfuse : fuse Samples.head "head" .standard Samples.merged =
      (.ok ⟨10, "head", ⟨43⟩, 2⟩, Samples.headed) := rfl
  have hd : Samples.merged.WellFormed := by decide
  have hleft : Samples.headed.WellFormed := by decide
  obtain ⟨-, -, hstep⟩ := fuse_stepwise hlink hfit (by decide) (by decide) hfuse
  obtain ⟨-, hkernels⟩ := hstep [⟨Samples.image, 2⟩] "fused"
  obtain ⟨-, f, g, h, hf, hg, hh, hprototype, hruns⟩ :=
    hkernels ⟨11, "fused", ⟨59⟩, 2⟩ ⟨11, "fused", ⟨59⟩, 3⟩ _ _ rfl rfl
  have hparams : [7, 1, 2].length = g.prototype.params.length := by
    rw [← Option.some.inj hg]
    rfl
  obtain ⟨outcome, hrung, hrunh⟩ := hruns (fitsRegisters_of_length _ _ hd (by decide))
    (fitsRegisters_of_length _ _ hleft (by decide)) (fitsRegisters_of_length _ _ hleft (by decide))
    _ _ (.tracing Samples.merged) (Machine.tracing_respectsResults _).respectsCalls [] _ hparams
  have htrace : h.run ((Machine.tracing Samples.merged).recording.through 10 f) ([], []) [7, 1, 2] =
      some (([(0, [7, 1]), (1, [0]), (2, [1, 2])], [(0, [7, 1]), (1, [0]), (2, [1, 2])]),
        some 2) := by
    rw [← Option.some.inj hh]
    rfl
  have houtcome := Option.some.inj (hrunh.symm.trans htrace)
  refine ⟨f, g, h, hf, hg, hh, hprototype, outcome, ?_, ?_, hrung, hrunh⟩
  · rw [houtcome]
  · rw [houtcome]

end KernelFusion

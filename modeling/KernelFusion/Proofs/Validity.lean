import KernelFusion.Proofs.Checking
import KernelFusion.Proofs.Planning
import KernelFusion.Samples

/-!
# Fused kernels are valid

What the planner checks when it resolves stages is what the validator asks of the emitted function.
While calls are emitted the registers below the next one are those that are defined, and the
register of the current operand is one of them. The bodies that a fusion moves keep all other bodies
valid if they have the shape of their declarations.
-/

namespace KernelFusion

/-- The emission `e` whose last call was `last` is valid in `m` so far. -/
structure Checked (m : Module) (p : FusionPlan) (id : FunctionId) (start : List Register)
    (e : Emission) (register : Register) (last : Option PlannedCall) : Prop
    extends p.Begun id e where
  /-- The calls are valid and define the registers below the next one. -/
  valid : ∃ defined, Validation.instructions m start e.body = ([], defined) ∧
    ∀ r, r ∈ defined ↔ r < e.function.nextRegister
  /-- The register of the current operand is below the next one. -/
  current : ∀ o, last.elim p.signature.current PlannedCall.leaves = some o →
    (if o = .previous then register else p.binding o) < e.function.nextRegister
  /-- The register of the last result has its type. -/
  typed : ∀ c, last = some c → c.result.isVoid = false →
    e.function.registerTypes.get? register = some c.result

namespace Checked

variable {m : Module} {p : FusionPlan} {id : FunctionId} {start : List Register} {e : Emission}
  {register : Register} {last : Option PlannedCall}

/-- The operands of a call are in registers below the next one. -/
theorem operands_lt {view : Module} {current : Option Operand} {d : KernelDescriptor} {f : Function}
    {c : PlannedCall} (h : Checked m p id start e register last)
    (hlast : last.elim p.signature.current PlannedCall.leaves = current)
    (hc : CallOf view current d f c)
    (hsub : d.signature.coordinates.map Operand.ofCoordinate ⊆ p.params.map (·.operand)) :
    ∀ r ∈ c.operands.map (p.register e register), r < e.function.nextRegister := by
  intro r hr
  obtain ⟨o, ho, rfl⟩ := List.mem_map.mp hr
  rw [FusionPlan.register_eq h.frame]
  rw [hc.operands] at ho
  rcases List.mem_append.mp ho with ho | ho
  · split at ho
    · exact h.current o (hlast.trans (by simpa using ho))
    · cases ho
  · obtain ⟨flag, -, rfl⟩ := List.mem_map.mp ho
    obtain ⟨i, hi, hbind, -⟩ := FusionPlan.binding_of_mem (hsub ho)
    rw [if_neg (Operand.ofCoordinate_ne_previous flag), hbind]
    exact lt_of_lt_toNat (Nat.lt_of_lt_of_le hi h.room)

/-- A call of a function of its shape keeps the emission valid. -/
theorem call {view : Module} {current : Option Operand} {d : KernelDescriptor} {f : Function}
    {c : PlannedCall} (h : Checked m p id start e register last)
    (hlast : last.elim p.signature.current PlannedCall.leaves = current)
    (hc : CallOf view current d f c)
    (hsub : d.signature.coordinates.map Operand.ofCoordinate ⊆ p.params.map (·.operand))
    (hf : m.function? f.id = some f)
    (hroom : e.function.nextRegister.toNat + valueCalls [c] < 2 ^ 32) :
    Checked m p id start (e.call c.callee (c.operands.map (p.register e register)) c.result).1
      (e.call c.callee (c.operands.map (p.register e register)) c.result).2 (some c) := by
  have hnext := Emission.nextRegister_call (c.operands.map (p.register e register)) hroom
  have hbegun := h.toBegun.call hroom (c.operands.map (p.register e register))
  obtain ⟨defined, hvalid, hdefined⟩ := h.valid
  have hargs : c.operands.map (p.register e register) ⊆ defined :=
    fun r hr => (hdefined r).mpr (h.operands_lt hlast hc hsub r hr)
  have hcall : ∀ dest : Option Register, dest.isSome = !c.result.isVoid →
      Validation.call m dest c.callee (c.operands.map (p.register e register)) = [] := by
    intro dest hdest
    refine Validation.call_eq_nil_iff.mpr ⟨f, hc.callee ▸ hf, ?_, hc.result ▸ hdest⟩
    rw [List.length_map, hc.arity]
  cases hvoid : c.result.isVoid with
  | true =>
    have hleaves : c.leaves = none := if_pos hvoid
    rw [Emission.call_void hvoid] at hbegun ⊢
    refine ⟨hbegun, ⟨defined, ?_, hdefined⟩, fun o ho => ?_, fun c' hc' hvalue => ?_⟩
    · rw [Validation.instructions_append hvalid, Validation.instructions,
        Validation.instruction_call hargs (hcall none (by simp [hvoid])) (by simp)]
      rfl
    · rw [Option.elim_some, hleaves] at ho
      cases ho
    · cases hc'
      simp [hvoid] at hvalue
  | false =>
    have hleaves : c.leaves = some .previous := if_neg (by simp [hvoid])
    have hcount : valueCalls [c] = 1 := by simp [valueCalls, hvoid]
    rw [Emission.call_value hvoid, hcount] at hnext
    rw [Emission.call_value hvoid] at hbegun ⊢
    have hbelow : ∀ r : Register, r < e.function.nextRegister + 1 ↔
        r = e.function.nextRegister ∨ r < e.function.nextRegister := by
      intro r
      have hstep : (e.function.nextRegister + 1).toNat = e.function.nextRegister.toNat + 1 := hnext
      rw [UInt32.lt_iff_toNat_lt, UInt32.lt_iff_toNat_lt, ← UInt32.toNat_inj, hstep]
      omega
    have hnew : ∀ r, some e.function.nextRegister = some r → r ∉ defined := by
      rintro r hr hmem
      cases hr
      exact absurd ((hdefined _).mp hmem) (UInt32.lt_irrefl _)
    refine ⟨hbegun, ⟨e.function.nextRegister :: defined, ?_, fun r => ?_⟩, fun o ho => ?_,
      fun c' hc' _ => ?_⟩
    · rw [Validation.instructions_append hvalid, Validation.instructions,
        Validation.instruction_call hargs (hcall (some _) (by simp [hvoid])) hnew]
      rfl
    · rw [List.mem_cons, hdefined]
      exact (hbelow r).symm
    · rw [Option.elim_some, hleaves] at ho
      cases ho
      exact (hbelow _).mpr (Or.inl (if_pos rfl))
    · cases hc'
      exact (IdMap.get?_insert e.function.registerTypes _ _ _).trans (if_pos rfl)

/-- The calls of a chain keep the emission valid. -/
theorem calls {view : Module} {current : Option Operand} {ks : List KernelSlot}
    {calls : List PlannedCall} (hplanned : Planned view current ks calls)
    (hsub : ∀ k ∈ ks, ∀ d, k.describe = .ok d →
      d.signature.coordinates.map Operand.ofCoordinate ⊆ p.params.map (·.operand))
    (hview : ∀ k ∈ ks, ∀ d f, k.describe = .ok d → d.hasName = true →
      view.callable? d.name = some f → m.function? f.id = some f)
    (hlast : last.elim p.signature.current PlannedCall.leaves = current)
    (h : Checked m p id start e register last)
    (hroom : e.function.nextRegister.toNat + valueCalls calls < 2 ^ 32) :
    Checked m p id start (p.emitCalls calls register e).1 (p.emitCalls calls register e).2
      (calls.getLast?.or last) := by
  -- The last call so far decides what is current, so it changes along with the emission.
  induction hplanned generalizing e register last with
  | nil => exact h
  | @cons current k d f c rest calls describe hasName call later ih =>
    have hcount := valueCalls_cons c calls
    have hfew : e.function.nextRegister.toNat + valueCalls [c] < 2 ^ 32 := by omega
    have hstep := h.call hlast call (hsub k List.mem_cons_self d describe)
      (hview k List.mem_cons_self d f describe hasName call.entry) hfew
    have hnext := Emission.nextRegister_call (c.operands.map (p.register e register)) hfew
    have hend := ih (fun k' hk' => hsub k' (List.mem_cons_of_mem k hk'))
      (fun k' hk' => hview k' (List.mem_cons_of_mem k hk')) rfl hstep (by omega)
    have hor : (c :: calls).getLast?.or last = calls.getLast?.or (some c) := by
      rw [List.getLast?_cons]
      cases calls.getLast? <;> rfl
    rw [hor]
    exact hend

end Checked

/-- A function of one block is valid if its calls and its return are. -/
theorem errors_finish {m : Module} {e : Emission} {start defined : List Register}
    (hgraph : e.function.graph = .new)
    (hstart : Validation.define [] (e.function.prototype.params.map (·.reg)) = ([], start))
    (hbody : Validation.instructions m start e.body = ([], defined)) (label : String)
    (value : Option Register) (hret : Validation.ret (e.finish label value) defined value = []) :
    (e.finish label value).errors m = [] := by
  obtain ⟨-, hblocks⟩ := Emission.entry_finish hgraph label value
  have hparams : (e.finish label value).prototype = e.function.prototype := rfl
  simp only [Function.errors, hparams, hstart, IdMap.values, hblocks, List.map_cons, List.map_nil,
    Validation.blocks, Validation.block, hbody, Validation.terminator, hret, List.append_nil]

/-- Returning a defined register of the declared type is valid. -/
theorem ret_eq_nil {e : Emission} {ty : Ty} {defined : List Register} {label : String}
    {register : Register} {value : Option Register} (hresult : e.function.prototype.result = ty)
    (hvoid : ty.isVoid = false) (hmem : register ∈ defined)
    (htype : e.function.registerTypes.get? register = some ty) :
    Validation.ret (e.finish label value) defined (some register) = [] := by
  have hreturn : (e.finish label value).result = ty := hresult
  have htypes : (e.finish label value).registerTypes = e.function.registerTypes := rfl
  simp [Validation.ret, hreturn, hvoid, htypes, htype,
    Validation.uses_eq_nil (List.cons_subset.mpr ⟨hmem, List.nil_subset _⟩)]

namespace FusionPlan

variable {p : FusionPlan}

/-- Before the first call the registers of the parameters are defined. -/
theorem checked_opening (m : Module) {first : ResolvedStage} {config : FusionConfig}
    (h : fusedParams p.signature first config = .ok p.params) (hroom : p.params.length < 2 ^ 32)
    (id : FunctionId) :
    Checked m p id ((List.range p.params.length).map Nat.toUInt32).reverse (p.opening id)
      (p.binding .dataIn) none := by
  have hnext := nextRegister_opening hroom id
  refine ⟨begun_opening hroom id, ⟨_, rfl, fun r => ?_⟩, fun o ho => ?_, fun c hc => by cases hc⟩
  · rw [List.mem_reverse, List.mem_map, UInt32.lt_iff_toNat_lt, hnext]
    constructor
    · rintro ⟨i, hi, rfl⟩
      rw [toNat_toUInt32 (Nat.lt_trans (List.mem_range.mp hi) hroom)]
      exact List.mem_range.mp hi
    · intro hr
      exact ⟨r.toNat, List.mem_range.mpr hr, by simp [Nat.toUInt32]⟩
  · have hinput : p.signature.current = some o := ho
    have hmem : o ∈ p.params.map (·.operand) := by
      rw [fusedParams_operands h, hinput]
      exact List.mem_cons_self
    obtain ⟨i, hi, hbind, -⟩ := binding_of_mem hmem
    unfold KernelSignature.current at hinput
    split at hinput
    next =>
      cases hinput
      rw [if_neg (by simp), hbind]
      exact lt_of_lt_toNat (hnext ▸ hi)
    next => cases hinput

/-- The emitted function is valid in a module that has the functions of the stages. -/
theorem errors_emit {m view : Module} {chain : Chain} {name : String} {config : FusionConfig}
    (hb : p.Built view chain name config) (hroom : p.registerCount < 2 ^ 32)
    (hview : ∀ k ∈ chain.stages, ∀ d f, k.describe = .ok d → d.hasName = true →
      view.callable? d.name = some f → m.function? f.id = some f)
    (id : FunctionId) : (p.emit id config).errors m = [] := by
  obtain ⟨first, -, hparams⟩ := hb.params
  have hfew : p.params.length < 2 ^ 32 := Nat.lt_of_le_of_lt (Nat.le_add_right _ _) hroom
  have hopening := checked_opening m hparams hfew id
  have hchecked := hopening.calls hb.calls (fun k hk d => hb.coordinates_subset hk) hview rfl
    (by rw [nextRegister_opening hfew id]; exact hroom)
  obtain ⟨c, hlast, hresult⟩ := Option.map_eq_some_iff.mp hb.result
  rw [hlast, Option.some_or] at hchecked
  have hend : Checked m p id _ (p.emission id).1 (p.emission id).2 (some c) := hchecked
  obtain ⟨defined, hvalid, hdefined⟩ := hend.valid
  have hregisters := p.registers_emit id config
  rw [(p.emit_frame id config).2.2, ← hend.frame.prototype] at hregisters
  have hstart : Validation.define [] ((p.emission id).1.function.prototype.params.map (·.reg)) =
      ([], ((List.range p.params.length).map Nat.toUInt32).reverse) := by
    rw [hregisters, Validation.define_of_nodup (nodup_registers hfew) (fun _ _ => List.not_mem_nil),
      List.append_nil]
  have hdeclared : (p.emission id).1.function.prototype.result = p.result := by
    rw [hend.frame.prototype]
    rfl
  rw [emit_eq]
  refine errors_finish hend.frame.graph hstart hvalid config.entryLabel _ ?_
  cases hvoid : p.result.isVoid with
  | true =>
    have hreturn : ((p.emission id).1.finish config.entryLabel none).result.isVoid = true :=
      (congrArg Ty.isVoid hdeclared).trans hvoid
    simp [Validation.ret, hreturn]
  | false =>
    have hvalue : c.result.isVoid = false := hresult ▸ hvoid
    have hlt := hend.current .previous (if_neg (by simp [hvalue]))
    have hmem : (p.emission id).2 ∈ defined := (hdefined _).mpr (by simpa using hlt)
    have htype := hend.typed c rfl hvalue
    rw [hresult] at htype
    exact ret_eq_nil hdeclared hvoid hmem htype

end FusionPlan

/-- After building a plan the functions of the stages are stored with their bodies. -/
theorem function?_of_build {dest mid : Module} {chain : Chain} {name : String}
    {config : FusionConfig} {plan : FusionPlan} (hd : dest.WellFormed)
    (hbuild : FusionPlan.build chain name config dest = (.ok plan, mid)) {k : KernelSlot}
    {d : KernelDescriptor} {f : Function} (hk : k ∈ chain.stages) (hdescribe : k.describe = .ok d)
    (hname : d.hasName = true) (hf : dest.force.callable? d.name = some f) :
    mid.function? f.id = some f := by
  have hprobe := Probes.build hd.force (Module.force_force dest) chain name config
  obtain ⟨-, -, hforce, -, hpending⟩ := hprobe.succeeded hd hbuild
  obtain ⟨hid, hwhole⟩ := hd.of_callable?_force hf
  have hnone := hpending d.name (Chain.mem_entryNames hk hdescribe hname) f.id hid
  rw [← Module.whole?_of_pending_none hnone, Module.whole?_of_force_eq hforce, hwhole]

/-- A fused kernel is valid. If pending bodies have the shape of their declarations and all bodies
of the destination are valid, the module that a fusion leaves is valid. -/
theorem fuse_valid {dest left : Module} {chain : Chain} {name : String} {config : FusionConfig}
    {kernel : FusedKernel} (hd : dest.WellFormed)
    (hfuse : fuse chain name config dest = (.ok kernel, left))
    (hroom : FitsRegisters chain name config dest) :
    (∃ f, left.function? kernel.id = some f ∧ f.errors left = []) ∧
      ((∀ id f body, dest.function? id = some f → dest.pending.get? id = some body →
          f.SameShape body) →
        (∀ id f, dest.whole? id = some f → f.isDeclaration = false → f.errors dest = []) →
        left.errors = []) := by
  obtain ⟨plan, mid, hbuild, hbuilt, hcommit⟩ := fuse_ok hd hfuse
  cases hcommit
  have hprobe := Probes.build hd.force (Module.force_force dest) chain name config
  obtain ⟨-, hmid, hforce, hmoved, -⟩ := hprobe.succeeded hd hbuild
  have hstored := plan.function?_commit config mid
  have hkept : ∀ id f, mid.function? id = some f →
      (plan.commit config mid).2.function? id = some f := by
    intro id f hf
    rw [hstored, if_neg (UInt32.ne_of_lt (hmid.id_lt hf)).symm, hf]
  have hkernel : (plan.emit mid.nextFunction config).errors (plan.commit config mid).2 = [] :=
    plan.errors_emit hbuilt (hroom plan mid hbuild)
      (fun k hk d f hdescribe hname hf =>
        hkept f.id f (function?_of_build hd hbuild hk hdescribe hname hf)) mid.nextFunction
  refine ⟨⟨_, (hstored mid.nextFunction).trans (if_pos rfl), hkernel⟩, fun hshape hvalid => ?_⟩
  have hextends : dest.Extends (plan.commit config mid).2 := by
    intro id f hf
    rcases hmoved.moved id with ⟨hsame, -⟩ | ⟨-, body, hpending, hbody, -⟩
    · exact ⟨f, hkept id f (hsame.trans hf), .refl f⟩
    · exact ⟨body, hkept id body hbody, hshape id f body hf hpending⟩
  refine Module.errors_eq_nil_iff.mpr (fun f hf hbody => ?_)
  obtain ⟨id, hid⟩ := IdMap.mem_values_iff.mp hf
  have hfound : (plan.commit config mid).2.function? id = some f := hid
  rw [hstored] at hfound
  split at hfound
  · cases hfound
    exact hkernel
  · have hwhole := hmid.whole?_of_function? hfound hbody
    rw [Module.whole?_of_force_eq hforce] at hwhole
    exact Function.errors_extends hextends (hvalid id f hwhole hbody)

/-- Fusing the three kernels of the first sample module leaves both sample modules valid. -/
theorem fuse_valid_filter : Samples.fused.errors = [] := by
  have hd : Samples.merged.WellFormed := by decide
  have hfuse : fuse Samples.filter "fused" .standard Samples.merged =
      (.ok ⟨10, "fused", ⟨59⟩, 3⟩, Samples.fused) := rfl
  have hshapes : ∀ e ∈ Samples.merged.pending.entries, ∀ f ∈ Samples.merged.function? e.1,
      e.2.prototype.params.length = f.prototype.params.length ∧
        e.2.result.isVoid = f.result.isVoid := by decide
  have hbodies : ∀ f ∈ Samples.merged.force.functions.values,
      f.isDeclaration = false → f.errors Samples.merged = [] := by decide
  refine (fuse_valid hd hfuse (fitsRegisters_of_length _ _ hd (by decide))).2 ?_ ?_
  · intro id f body hf hbody
    obtain ⟨harity, hresult⟩ := hshapes (id, body) (IdMap.mem_entries_iff.mpr hbody) f hf
    exact ⟨harity, hresult⟩
  · intro id f hf
    exact hbodies f (IdMap.mem_values_iff.mpr ⟨id, Module.function?_force.trans hf⟩)

end KernelFusion

import KernelFusion.Proofs.Success

/-!
# Fused kernels as stages

A fused kernel can be a stage of another fusion. Put in front of further stages it stands for the
chain that it was fused from: the signatures merge to the same one, the further stages are called
with the same value, and the kernel that is made in the end has the same parameters and the same
result as the one of the whole chain.
-/

namespace KernelFusion

namespace Chain

/-- A chain with further stages behind it. -/
def append (c : Chain) (later : List KernelSlot) : Chain :=
  ⟨c.stages ++ later, List.append_ne_nil_of_left_ne_nil c.nonempty later⟩

/-- A stage with further stages behind it. -/
def starting (k : KernelSlot) (later : List KernelSlot) : Chain :=
  ⟨k :: later, List.cons_ne_nil k later⟩

theorem first_append (c : Chain) (later : List KernelSlot) : (c.append later).first = c.first :=
  List.head_append_of_ne_nil c.nonempty

end Chain

section Signatures

variable {chain : Chain} {s t : KernelSignature} {k : KernelSlot} {later : List KernelSlot}

theorem KernelSlot.Joins.unique {s' : KernelSignature} (h : k.Joins s) (h' : k.Joins s') :
    s = s' := by
  obtain ⟨d, hd, -, -, hs⟩ := h
  rw [← hs, h'.signature_eq hd]

/-- Signatures merge behind a stage as behind its signature. -/
theorem Chain.reconcile_starting_iff (hk : k.Joins s) :
    (starting k later).reconcile = .ok t ↔
      ∃ behind, List.Forall₂ KernelSlot.Joins later behind ∧ .merge (s :: behind) = t := by
  rw [reconcile_eq_ok_iff]
  constructor
  · rintro ⟨signatures, hjoins, rfl⟩
    obtain ⟨s', behind, hs', hbehind, rfl⟩ := List.forall₂_cons_left_iff.mp hjoins
    exact ⟨behind, hbehind, by rw [hs'.unique hk]⟩
  · rintro ⟨behind, hbehind, rfl⟩
    exact ⟨s :: behind, .cons hk hbehind, rfl⟩

/-- Signatures merge behind a chain as behind its merged signature. -/
theorem Chain.reconcile_append_iff (hs : chain.reconcile = .ok s) :
    (chain.append later).reconcile = .ok t ↔
      ∃ behind, List.Forall₂ KernelSlot.Joins later behind ∧ .merge (s :: behind) = t := by
  obtain ⟨before, hbefore, rfl⟩ := reconcile_eq_ok_iff.mp hs
  have hne : before ≠ [] := by
    rintro rfl
    exact chain.nonempty (List.forall₂_nil_right_iff.mp hbefore)
  rw [reconcile_eq_ok_iff]
  constructor
  · rintro ⟨signatures, hjoins, rfl⟩
    have hfirst := List.forall₂_take chain.stages.length hjoins
    have hbehind := List.forall₂_drop chain.stages.length hjoins
    rw [append, List.take_left] at hfirst
    rw [append, List.drop_left] at hbehind
    have hsame := List.right_unique_forall₂' (fun _ _ _ h h' => h.unique h') hfirst hbefore
    refine ⟨_, hbehind, ?_⟩
    rw [KernelSignature.merge_cons_merge hne, ← hsame, List.take_append_drop]
  · rintro ⟨behind, hbehind, rfl⟩
    exact ⟨before ++ behind, List.rel_append hbefore hbehind,
      (KernelSignature.merge_cons_merge hne behind).symm⟩

end Signatures

/-- The slot `k` describes the kernel that the plan `p` for a chain emitted under the number `id`.
The plan was built in the module `before`, the kernel can be called in the module `view`, and so can
all that could be called before. -/
structure FusionPlan.Stage (p : FusionPlan) (before view : Module) (chain : Chain) (name : String)
    (config : FusionConfig) (id : FunctionId) (k : KernelSlot) : Prop where
  /-- The plan is one for the chain. -/
  built : p.Built before chain name config
  /-- What a name stood for it still stands for. -/
  kept : ∀ n f, before.callable? n = some f → view.callable? n = some f
  /-- The slot has name and signature of the kernel. -/
  describe : k.describe =
    .ok ⟨k.module.name, k.slot, name, p.signature.inputs.toUInt32, p.signature⟩
  /-- The slot is in use. -/
  named : name ≠ ""
  /-- The name stands for the emitted function. -/
  entry : view.callable? name = some (p.emit id config)

namespace FusionPlan.Stage

variable {p : FusionPlan} {before view : Module} {chain : Chain} {name q : String}
  {config other : FusionConfig} {id : FunctionId} {k : KernelSlot} {later : List KernelSlot}
  {calls calls' : List PlannedCall} {current current' : Option Operand}

/-- The kernel can take part in a fusion. -/
theorem joins (h : p.Stage before view chain name config id k) : k.Joins p.signature := by
  refine ⟨_, h.describe, ?_, chain.unexpected_reconcile h.built.signature, rfl⟩
  show p.signature.inputs.toUInt32 ≤ 1
  rw [p.signature.toUInt32_inputs]
  split <;> decide

/-- The signatures of the chain and of the kernel merge with others alike. -/
theorem reconcile_iff (h : p.Stage before view chain name config id k) {t : KernelSignature} :
    (Chain.starting k later).reconcile = .ok t ↔ (chain.append later).reconcile = .ok t := by
  rw [Chain.reconcile_starting_iff h.joins, Chain.reconcile_append_iff h.built.signature]

/-- The fusion with the kernel in front has an input if the kernel has one. -/
theorem has_input_eq (h : p.Stage before view chain name config id k) {t : KernelSignature}
    (ht : (Chain.starting k later).reconcile = .ok t) :
    t.has .input = p.signature.has .input := by
  obtain ⟨behind, -, rfl⟩ := (Chain.reconcile_starting_iff h.joins).mp ht
  rw [KernelSignature.has_input_merge]
  rfl

/-- The same value flows into both. -/
theorem current_eq (h : p.Stage before view chain name config id k) {t : KernelSignature}
    (ht : (Chain.starting k later).reconcile = .ok t) : t.current = p.signature.current := by
  rw [KernelSignature.current, KernelSignature.current, h.has_input_eq ht]

/-- The stages of the chain can be called as before. -/
theorem planned_stages (h : p.Stage before view chain name config id k) :
    Planned view p.signature.current chain.stages p.calls :=
  h.built.calls.mono h.kept

/-- The stages of the chain leave the value that the kernel leaves. -/
theorem outflow_eq (h : p.Stage before view chain name config id k)
    (hcalls : Planned view current chain.stages calls) :
    PlannedCall.outflow current calls = if p.result.isVoid then none else some .previous := by
  refine PlannedCall.outflow_eq current ?_
  rw [← List.getLast?_map, hcalls.results_eq h.planned_stages, List.getLast?_map, h.built.result]

/-- The kernel can be called, and leaves what its stages leave. -/
theorem planned_starting (h : p.Stage before view chain name config id k)
    (hlater : Planned view (if p.result.isVoid then none else some .previous) later calls) :
    ∃ c, Planned view p.signature.current (k :: later) (c :: calls) := by
  obtain ⟨first, -, hparams⟩ := h.built.params
  have hlength := fusedParams_length hparams
  have htypes := congrArg List.length (p.paramTypes_emit id config)
  have hin : p.signature.has .input = true → p.signature.current.isSome = true := by
    intro hin
    rw [KernelSignature.current, if_pos hin]
    rfl
  have hcall : CallOf view p.signature.current
      ⟨k.module.name, k.slot, name, p.signature.inputs.toUInt32, p.signature⟩ (p.emit id config)
      ⟨0, (p.emit id config).id, name, p.params.map (·.operand), (p.emit id config).result⟩ := by
    refine ⟨h.entry, rfl, rfl, ?_, ?_, hin⟩
    · simpa [Prototype.paramTypes, eq_comm] using htypes
    · rw [fusedParams_operands hparams]
      by_cases hin : p.signature.has .input = true <;> simp [KernelSignature.current, hin]
  refine ⟨_, .cons h.describe (by simp [KernelDescriptor.hasName, h.named]) hcall ?_⟩
  rw [PlannedCall.leaves, p.result_emit]
  exact hlater

/-- What follows a call of the kernel goes on with what its stages leave. -/
theorem of_planned_starting (h : p.Stage before view chain name config id k)
    (hcalls : Planned view current (k :: later) calls) :
    ∃ c behind, calls = c :: behind ∧ c.result = p.result ∧
      Planned view (if p.result.isVoid then none else some .previous) later behind := by
  cases hcalls with
  | @cons _ _ d f c _ behind describe hasName call hlater =>
    cases h.describe.symm.trans describe
    cases h.entry.symm.trans call.entry
    have hresult : c.result = p.result := call.result.trans (p.result_emit id config)
    refine ⟨c, behind, rfl, hresult, ?_⟩
    rwa [PlannedCall.leaves, hresult] at hlater

/-- Further stages can be called behind the kernel exactly if they can be called behind the
chain. -/
theorem planned_iff (h : p.Stage before view chain name config id k) :
    (∃ calls, Planned view p.signature.current (k :: later) calls) ↔
      ∃ calls, Planned view p.signature.current (chain.stages ++ later) calls := by
  constructor
  · rintro ⟨calls, hcalls⟩
    obtain ⟨c, behind, -, -, hlater⟩ := h.of_planned_starting hcalls
    refine ⟨p.calls ++ behind, h.planned_stages.append ?_⟩
    rw [h.outflow_eq h.planned_stages]
    exact hlater
  · rintro ⟨calls, hcalls⟩
    obtain ⟨front, behind, -, hfront, hlater⟩ := hcalls.of_append
    rw [h.outflow_eq hfront] at hlater
    obtain ⟨c, hc⟩ := h.planned_starting hlater
    exact ⟨c :: behind, hc⟩

/-- The last call has the same result either way. -/
theorem result_eq (h : p.Stage before view chain name config id k)
    (hcalls : Planned view current (k :: later) calls)
    (hcalls' : Planned view current' (chain.stages ++ later) calls') :
    calls.getLast?.map (·.result) = calls'.getLast?.map (·.result) := by
  obtain ⟨c, behind, rfl, hresult, hlater⟩ := h.of_planned_starting hcalls
  obtain ⟨front, behind', rfl, hfront, hlater'⟩ := hcalls'.of_append
  have hlast : (front.map (·.result)).getLast? = some p.result := by
    rw [hfront.results_eq h.planned_stages, List.getLast?_map, h.built.result]
  rw [← List.getLast?_map, ← List.getLast?_map, List.map_cons, List.map_append, List.getLast?_cons,
    List.getLast?_append, hlast, hlater.results_eq hlater', hresult]
  cases (behind'.map (·.result)).getLast? <;> rfl

/-- A fusion with the kernel in front succeeds exactly if the fusion of the whole chain does. -/
theorem succeeds_iff {left : Module} (hleft : left.WellFormed)
    (h : p.Stage before left.force chain name config id k) :
    (∃ a, (fuse (.starting k later) q other left).1 = .ok a) ↔
      ∃ b, (fuse (chain.append later) q other left).1 = .ok b := by
  rw [fuse_succeeds_iff hleft, fuse_succeeds_iff hleft]
  constructor
  · rintro ⟨t, ht, hfree, hcalls⟩
    rw [h.current_eq ht] at hcalls
    refine ⟨t, h.reconcile_iff.mp ht, hfree, ?_⟩
    rw [h.current_eq ht]
    exact h.planned_iff.mp hcalls
  · rintro ⟨t, ht, hfree, hcalls⟩
    have ht' := h.reconcile_iff.mpr ht
    rw [h.current_eq ht'] at hcalls
    refine ⟨t, ht', hfree, ?_⟩
    rw [h.current_eq ht']
    exact h.planned_iff.mpr hcalls

/-- The plan with the kernel in front has signature, parameters and result of the plan for the whole
chain. -/
theorem plan_eq (hbefore : before.force = before) (hview : view.force = view)
    (h : p.Stage before view chain name config id k) {a b : FusionPlan}
    (ha : a.Built view (.starting k later) q other)
    (hb : b.Built view (chain.append later) q other) :
    a.signature = b.signature ∧ a.params = b.params ∧ a.result = b.result := by
  have hsignature : a.signature = b.signature :=
    Except.ok.inj ((h.reconcile_iff.mp ha.signature).symm.trans hb.signature)
  refine ⟨hsignature, ?_, ?_⟩
  · -- The input has the type of the kernel's first parameter, which is that of the first stage's.
    obtain ⟨first, hfirst, hparams⟩ := h.built.params
    obtain ⟨firstA, hfirstA, hparamsA⟩ := ha.params
    obtain ⟨firstB, hfirstB, hparamsB⟩ := hb.params
    rw [← hsignature] at hparamsB
    refine fusedParams_congr (fun hin => ?_) hparamsA hparamsB
    rw [h.has_input_eq ha.signature] at hin
    have hstarting : firstA.params = p.params.map (·.ty) := by
      obtain ⟨f, hd, -, hf, hresolved, -⟩ := resolveStage_forced hview hfirstA
      rw [← Except.ok.inj (h.describe.symm.trans hd), h.entry] at hf
      cases hf
      rw [hresolved, p.paramTypes_emit]
    have happend : firstB.params = first.params := by
      rw [Chain.first_append] at hfirstB
      obtain ⟨f, hd, -, hf, hresolved, -⟩ := resolveStage_forced hbefore hfirst
      obtain ⟨f', hd', -, hf', hresolved', -⟩ := resolveStage_forced hview hfirstB
      rw [← Except.ok.inj (hd.symm.trans hd'), h.kept _ _ hf] at hf'
      cases hf'
      rw [hresolved, hresolved']
    rw [hstarting, happend]
    exact fusedParams_head hparams hin
  · have hlast := h.result_eq ha.calls hb.calls
    rw [ha.result, hb.result] at hlast
    exact Option.some.inj hlast

end FusionPlan.Stage

end KernelFusion

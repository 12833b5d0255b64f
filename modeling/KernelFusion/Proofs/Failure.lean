import KernelFusion.Proofs.Flags
import KernelFusion.Proofs.Request
import KernelFusion.Samples

/-!
# Failed requests

A fusion or a wrapping that fails leaves the destination as it was, but for pending bodies of the
functions it names, which may have moved over their declarations. Errors that are found before the
first function is looked up leave everything in place, and a repeated request fails in the same way.
-/

namespace KernelFusion

/-- Whether an error is found before any function of the destination is looked up. -/
def FusionError.isEarly : FusionError → Bool
  | reconciliation _ | nameCollision _ _ => true
  | _ => false

/-- A step whose errors come from looking up functions. -/
def NeverEarly {α : Type} (r : Attempt α) : Prop :=
  ∀ m e, (r m).1 = .error e → e.isEarly = false

/-- There is an operand for each argument of the kernel. -/
theorem ResolvedStage.operands_length {r : ResolvedStage} {stage : Nat} {current : Option Operand}
    {operands : List Operand} (h : r.operands stage current = .ok operands) :
    operands.length = r.descriptor.signature.argumentCount := by
  rw [KernelSignature.argumentCount_eq, KernelSignature.inputs]
  unfold ResolvedStage.operands at h
  dsimp only at h
  split at h
  next hin =>
    cases current with
    | none => cases h
    | some value =>
      cases h
      simp [hin, Nat.add_comm]
  next hin =>
    cases h
    simp [hin]

/-- A call is not planned when the input is missing or the number of arguments is wrong. -/
theorem ResolvedStage.call_error {r : ResolvedStage} {stage : Nat} {current : Option Operand}
    {e : FusionError} (h : r.call stage current = .error e) :
    (e = .voidIntermediate stage r.descriptor.name ∧ r.descriptor.signature.has .input = true ∧
      current = none) ∨
    (e = .arityMismatch r.descriptor.name r.params.length r.descriptor.signature.argumentCount ∧
      r.params.length ≠ r.descriptor.signature.argumentCount) := by
  unfold call at h
  rcases ho : r.operands stage current with e' | operands
  · rw [ho] at h
    cases h
    unfold operands at ho
    dsimp only at ho
    split at ho
    next hin =>
      cases current with
      | none =>
        cases ho
        exact Or.inl ⟨rfl, hin, rfl⟩
      | some value => cases ho
    next => cases ho
  · have hlength := r.operands_length ho
    rw [ho] at h
    dsimp only at h
    split at h
    next => cases h
    next hne =>
      cases h
      rw [hlength] at hne ⊢
      exact Or.inr ⟨rfl, Ne.symm hne⟩

/-- Parameters are missing only when the first kernel has none for the input. -/
theorem fusedParams_error {signature : KernelSignature} {first : ResolvedStage}
    {config : FusionConfig} {e : FusionError} (h : fusedParams signature first config = .error e) :
    e = .missingInputParameter first.descriptor.name ∧ signature.has .input = true ∧
      first.params = [] := by
  unfold fusedParams at h
  dsimp only at h
  split at h
  next hin =>
    split at h
    next => cases h
    next hnone =>
      cases h
      exact ⟨rfl, hin, List.head?_eq_none_iff.mp hnone⟩
  next => cases h

namespace NeverEarly

variable {α β : Type}

theorem andThen {first : Attempt α} {next : α → Attempt β} (h : NeverEarly first)
    (hnext : ∀ a, NeverEarly (next a)) : NeverEarly (first.andThen next) := by
  intro m e he
  rcases hm : first m with ⟨e' | a, left⟩
  · rw [Attempt.andThen_of_error hm] at he
    cases he
    exact h m e (by rw [hm])
  · rw [Attempt.andThen_of_ok hm] at he
    exact hnext a left e he

theorem ok (a : α) : NeverEarly (fun m => (.ok a, m)) := fun _ _ h => nomatch h

theorem findEntry (name : String) : NeverEarly (findEntry name) := by
  intro m e he
  unfold KernelFusion.findEntry at he
  dsimp only at he
  split at he
  · cases he
  · cases he
    rfl

theorem resolveStage (stage : Nat) (k : KernelSlot) : NeverEarly (resolveStage stage k) := by
  rcases hk : k.describe with e | d
  · intro m e' he
    rw [KernelFusion.resolveStage, hk] at he
    cases he
    rfl
  · by_cases hname : d.hasName = true
    · rw [resolveStage_eq hk hname]
      exact andThen (findEntry d.name) (fun f => ok _)
    · intro m e he
      simp only [KernelFusion.resolveStage, hk, if_neg hname] at he
      cases he
      rfl

theorem planStage (stage : Nat) (current : Option Operand) (k : KernelSlot) :
    NeverEarly (planStage stage current k) := by
  rw [planStage_eq]
  refine andThen (resolveStage stage k) (fun r m e he => ?_)
  rcases r.call_error he with ⟨rfl, -⟩ | ⟨rfl, -⟩ <;> rfl

theorem planStages (ks : List KernelSlot) (stage : Nat) (current : Option Operand) :
    NeverEarly (planStages stage current ks) := by
  induction ks generalizing stage current with
  | nil => exact ok []
  | cons k rest ih =>
    rw [planStages_cons]
    exact andThen (planStage stage current k) (fun call =>
      andThen (ih (stage + 1) call.leaves) (fun calls => ok (call :: calls)))

theorem buildCalls (chain : Chain) (signature : KernelSignature) (name : String)
    (config : FusionConfig) : NeverEarly (FusionPlan.buildCalls chain signature name config) := by
  refine andThen (resolveStage 0 chain.first) (fun first => ?_)
  refine andThen (resolveStage (chain.length - 1) chain.last) (fun last => ?_)
  rcases hp : fusedParams signature first config with e | params
  · intro m e' he
    cases he
    rw [(fusedParams_error hp).1]
    rfl
  · exact andThen (planStages chain.stages 0 _) (fun calls => ok _)

theorem wrapped (name : String) :
    NeverEarly (Attempt.andThen (KernelFusion.findEntry name)
      (fun callee m => (takesOne name callee, m))) := by
  refine andThen (findEntry name) (fun callee m e he => ?_)
  unfold takesOne at he
  dsimp only at he
  split at he
  · cases he
  · cases he
    rfl

end NeverEarly

/-- Building a plan leaves the module alone if it fails before the first stage is resolved. -/
theorem FusionPlan.build_early {chain : Chain} {name : String} {config : FusionConfig}
    {dest left : Module} {e : FusionError} (h : build chain name config dest = (.error e, left))
    (he : e.isEarly = true) : left = dest := by
  rcases hs : chain.reconcile with cause | signature
  · rw [build, hs] at h
    exact (Prod.mk.inj h).2.symm
  · by_cases hn : dest.hasSymbol name = true
    · rw [build, hs] at h
      simp only [if_pos hn] at h
      exact (Prod.mk.inj h).2.symm
    · rw [build_eq hs name config (by simpa using hn)] at h
      have hlate := NeverEarly.buildCalls chain signature name config dest e (by rw [h])
      rw [hlate] at he
      cases he

/-- Finding an invokable function leaves the module alone if the name of the wrapper is taken. -/
theorem InvokableSlot.resolve_early {target : InvokableSlot} {name : String} {dest left : Module}
    {e : FusionError} (h : target.resolve name dest = (.error e, left)) (he : e.isEarly = true) :
    left = dest := by
  rcases ht : target.name with cause | targetName
  · rw [resolve, ht] at h
    exact (Prod.mk.inj h).2.symm
  · rw [resolve, ht] at h
    by_cases hempty : targetName = ""
    · simp only [if_pos hempty] at h
      exact (Prod.mk.inj h).2.symm
    · by_cases hn : dest.hasSymbol name = true
      · simp only [if_neg hempty, if_pos hn] at h
        exact (Prod.mk.inj h).2.symm
      · simp only [if_neg hempty, if_neg hn] at h
        have hlate := NeverEarly.wrapped targetName dest e (by rw [h])
        rw [hlate] at he
        cases he

namespace Request

/-- A request is a probe and then a commit. -/
theorem run_error_iff {config : FusionConfig} {dest left : Module} {e : FusionError}
    {r : Request} :
    r.run config dest = (.error e, left) ↔
      match r with
      | fuse chain name => FusionPlan.build chain name config dest = (.error e, left)
      | wrap target name => target.resolve name dest = (.error e, left) := by
  cases r with
  | fuse chain name =>
    have hiff : run config (fuse chain name) dest = (.error e, left) ↔
        KernelFusion.fuse chain name config dest = (.error e, left) := by
      rcases h : KernelFusion.fuse chain name config dest with ⟨e' | kernel, left'⟩ <;>
        simp [run, h, Except.map]
    rw [hiff, fuse_eq]
    exact Attempt.andThen_eq_error_iff (fun plan m => ⟨_, rfl⟩)
  | wrap target name =>
    rw [run, wrapInvoke_eq]
    exact Attempt.andThen_eq_error_iff (fun callee m => ⟨_, rfl⟩)

/-- A request that fails moves some pending bodies of the functions it names over their
declarations, and none if the signatures cannot be merged or the name is taken. Repeated, it fails
in the same way and changes nothing. -/
theorem failed_leaves_destination {config : FusionConfig} {r : Request} {dest left : Module}
    {e : FusionError} (hd : dest.WellFormed) (hr : r.run config dest = (.error e, left)) :
    Module.MovedOnly (fun id => ∃ n ∈ r.entryNames, dest.idOf? n = some id) dest left ∧
      ((∃ cause, e = .reconciliation cause) ∨ (∃ n m, e = .nameCollision n m) → left = dest) ∧
      r.run config left = (.error e, left) := by
  have hearly : (∃ cause, e = .reconciliation cause) ∨ (∃ n m, e = .nameCollision n m) →
      e.isEarly = true := by
    rintro (⟨cause, rfl⟩ | ⟨n, m, rfl⟩) <;> rfl
  have hview := hd.force
  have hforce := Module.force_force dest
  rw [run_error_iff] at hr
  cases r with
  | fuse chain name =>
    obtain ⟨hmoved, hagain⟩ := (Probes.build hview hforce chain name config).failed hd hr
    refine ⟨hmoved, fun he => FusionPlan.build_early hr (hearly he), ?_⟩
    rw [run_error_iff]
    exact hagain
  | wrap target name =>
    obtain ⟨hmoved, hagain⟩ := (Probes.resolveInvokable hview hforce target name).failed hd hr
    refine ⟨hmoved, fun he => target.resolve_early hr (hearly he), ?_⟩
    rw [run_error_iff]
    exact hagain

/-- Fusing a sink with a kernel behind it fails at the second stage, when both bodies were moved;
once more it fails in the same way. -/
theorem failed_leaves_destination_blocked :
    ((fuse Samples.blocked "fused").run .standard Samples.merged).2.pending.size = 8 ∧
      (fuse Samples.blocked "fused").run .standard
          ((fuse Samples.blocked "fused").run .standard Samples.merged).2 =
        (.error (.voidIntermediate 1 "offset"),
          ((fuse Samples.blocked "fused").run .standard Samples.merged).2) := by
  have hd : Samples.merged.WellFormed := by decide
  have hr : (fuse Samples.blocked "fused").run .standard Samples.merged =
      (.error (.voidIntermediate 1 "offset"),
        ((fuse Samples.blocked "fused").run .standard Samples.merged).2) := rfl
  exact ⟨rfl, (failed_leaves_destination hd hr).2.2⟩

end Request

end KernelFusion

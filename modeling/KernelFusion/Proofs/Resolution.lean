import KernelFusion.Proofs.Addition

/-!
# How requests look at a module

Before it adds a function, a request does no more than to check that its name is free and to find
functions by the names of its stages. `Resolves` says so as an inductive predicate on steps. What is
to be shown of every request is shown for these few kinds of steps.
-/

namespace KernelFusion

/-- The step is made of answers, of finding functions with names among `entries`, and of checks that
`name` is free. -/
inductive Resolves (name : String) (entries : List String) : {α : Type} → Attempt α → Prop where
  /-- An answer without a look at the module. -/
  | answer {α : Type} (x : Except FusionError α) : Resolves name entries (fun m => (x, m))
  /-- Finding a function. -/
  | findEntry {entry : String} (h : entry ∈ entries) :
      Resolves name entries (KernelFusion.findEntry entry)
  /-- A step after another one. -/
  | andThen {α β : Type} {first : Attempt α} {next : α → Attempt β}
      (h : Resolves name entries first) (hnext : ∀ x, Resolves name entries (next x)) :
      Resolves name entries (first.andThen next)
  /-- A step that is taken only if the name is free. -/
  | unlessTaken {α : Type} {r : Attempt α} (h : Resolves name entries r) :
      Resolves name entries (fun m =>
        if m.hasSymbol name then (.error (.nameCollision name m.name), m) else r m)

namespace Resolves

variable {name : String} {entries : List String}

/-- Resolving a stage is finding its kernel. -/
theorem resolveStage {k : KernelSlot} (hk : k.entryNames ⊆ entries) (stage : Nat) :
    Resolves name entries (resolveStage stage k) := by
  unfold KernelSlot.entryNames at hk
  rcases hd : k.describe with e | d
  · have hr : KernelFusion.resolveStage stage k = fun m => (.error (.exports e), m) := by
      funext m
      rw [KernelFusion.resolveStage, hd]
    rw [hr]
    exact answer _
  · rw [hd] at hk
    dsimp only at hk
    by_cases hname : d.hasName = true
    · rw [if_pos hname] at hk
      rw [resolveStage_eq hd hname]
      exact andThen (findEntry (hk List.mem_cons_self)) (fun f => answer _)
    · have hr : KernelFusion.resolveStage stage k =
          fun m => (.error (.unnamedKernel stage d.module d.slot), m) := by
        funext m
        simp only [KernelFusion.resolveStage, hd, if_neg hname]
      rw [hr]
      exact answer _

theorem planStage {k : KernelSlot} (hk : k.entryNames ⊆ entries) (stage : Nat)
    (current : Option Operand) : Resolves name entries (planStage stage current k) := by
  rw [planStage_eq]
  exact andThen (resolveStage hk stage) (fun r => answer (r.call stage current))

/-- Planning stages is finding their kernels. -/
theorem planStages {ks : List KernelSlot} (hks : ∀ k ∈ ks, k.entryNames ⊆ entries) (stage : Nat)
    (current : Option Operand) : Resolves name entries (planStages stage current ks) := by
  induction ks generalizing stage current with
  | nil => exact answer (.ok [])
  | cons k rest ih =>
    rw [planStages_cons]
    refine andThen (planStage (hks k List.mem_cons_self) stage current) (fun call => ?_)
    refine andThen (ih (fun k hk => hks k (List.mem_cons_of_mem _ hk)) _ _) (fun calls => ?_)
    exact answer (.ok (call :: calls))

/-- Building a plan is finding the kernels of the chain if the name is free. -/
theorem build (chain : Chain) (name : String) (config : FusionConfig) :
    Resolves name chain.entryNames (FusionPlan.build chain name config) := by
  have hks : ∀ k ∈ chain.stages, k.entryNames ⊆ chain.entryNames :=
    fun k hk n hn => List.mem_flatMap.mpr ⟨k, hk, hn⟩
  rcases hs : chain.reconcile with e | signature
  · have hr : FusionPlan.build chain name config = fun m => (.error (.reconciliation e), m) := by
      funext m
      rw [FusionPlan.build, hs]
    rw [hr]
    exact answer _
  · have hcalls : Resolves name chain.entryNames
        (FusionPlan.buildCalls chain signature name config) := by
      refine andThen (resolveStage (hks _ (List.head_mem chain.nonempty)) 0) (fun first => ?_)
      refine andThen (resolveStage (hks _ (List.getLast_mem chain.nonempty)) _) (fun last => ?_)
      cases fusedParams signature first config with
      | error e => exact answer (.error e)
      | ok params => exact andThen (planStages hks 0 _) (fun calls => answer _)
    have hr : FusionPlan.build chain name config = fun m =>
        if m.hasSymbol name then (.error (.nameCollision name m.name), m)
        else FusionPlan.buildCalls chain signature name config m := by
      funext m
      split
      next hn =>
        rw [FusionPlan.build, hs]
        simp only [if_pos hn]
      next hn => exact FusionPlan.build_eq hs name config (Bool.not_eq_true _ ▸ hn)
    rw [hr]
    exact unlessTaken hcalls

/-- Finding the function to be wrapped, if the name is free. -/
theorem resolveInvokable (target : InvokableSlot) (name : String) :
    Resolves name target.entryNames (target.resolve name) := by
  unfold InvokableSlot.entryNames InvokableSlot.resolve
  rcases target.name with e | targetName
  · exact answer (.error e)
  · dsimp only
    by_cases hempty : targetName = ""
    · simp only [if_pos hempty]
      exact answer (.error (.unresolvedFunction targetName target.module.name))
    · simp only [if_neg hempty]
      exact unlessTaken (andThen (findEntry List.mem_cons_self)
        (fun callee => answer (takesOne targetName callee)))

/-- Finding what a request adds. -/
theorem find (r : Request) (config : FusionConfig) :
    Resolves r.name r.entryNames (r.find config) := by
  cases r with
  | fuse chain name =>
    exact andThen (build chain name config) (fun p => answer (.ok (p.addition config)))
  | wrap target name =>
    exact andThen (resolveInvokable target name)
      (fun callee => answer (.ok (wrapperAddition callee name config)))

end Resolves

end KernelFusion

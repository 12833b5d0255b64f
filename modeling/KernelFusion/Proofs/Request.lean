import KernelFusion.Proofs.Probe

/-!
# Fusions and wrappings as requests

A request fuses a chain or wraps an invokable function. It is a probe followed by a commit that
cannot fail. So a request that fails has materialized some of the functions it names and done
nothing else, and it fails in the same way when it is repeated.
-/

namespace KernelFusion

/-- The names that resolving a stage materializes: the name of its kernel, if the slot is in use. -/
def KernelSlot.entryNames (k : KernelSlot) : List String :=
  match k.describe with
  | .ok d => if d.hasName then [d.name] else []
  | .error _ => []

/-- The names of the kernels of a chain. -/
def Chain.entryNames (c : Chain) : List String := c.stages.flatMap KernelSlot.entryNames

theorem Chain.mem_entryNames {c : Chain} {k : KernelSlot} {d : KernelDescriptor}
    (hk : k ∈ c.stages) (hd : k.describe = .ok d) (hname : d.hasName = true) :
    d.name ∈ c.entryNames := by
  refine List.mem_flatMap.mpr ⟨k, hk, ?_⟩
  simp [KernelSlot.entryNames, hd, hname]

/-- The name of the invokable function. -/
def InvokableSlot.entryNames (s : InvokableSlot) : List String :=
  match s.name with
  | .ok name => [name]
  | .error _ => []

/-- The call of a stage that was resolved, given the current value if there is one. -/
def ResolvedStage.call (r : ResolvedStage) (stage : Nat) (current : Option Operand) :
    Except FusionError PlannedCall :=
  match r.operands stage current with
  | .error e => .error e
  | .ok operands =>
    if operands.length = r.params.length then
      .ok ⟨stage, r.id, r.descriptor.name, operands, r.result⟩
    else .error (.arityMismatch r.descriptor.name r.params.length operands.length)

/-- The function that a name stands for once it is materialized. -/
def findEntry (name : String) : Attempt Function := fun dest =>
  let dest := dest.materialize name
  match dest.callable? name with
  | some f => (.ok f, dest)
  | none => (.error (.unresolvedFunction name dest.name), dest)

/-- A function to be wrapped takes one argument. -/
def takesOne (name : String) (callee : Function) : Except FusionError Function :=
  if callee.prototype.params.length = 1 then .ok callee
  else .error (.arityMismatch name 1 callee.prototype.params.length)

/-- The function that a wrapping calls, if the name of the wrapper is free and the function takes
one argument. -/
def InvokableSlot.resolve (target : InvokableSlot) (name : String) : Attempt Function := fun dest =>
  match target.name with
  | .error e => (.error e, dest)
  | .ok targetName =>
    if targetName = "" then (.error (.unresolvedFunction targetName target.module.name), dest)
    else if dest.hasSymbol name then (.error (.nameCollision name dest.name), dest)
    else
      Attempt.andThen (findEntry targetName) (fun callee m => (takesOne targetName callee, m)) dest

/-- Add the wrapper of a function to a module and export it. -/
def commitWrapper (callee : Function) (name : String) (config : FusionConfig) (dest : Module) :
    FunctionId × Module :=
  let (dest, id) := dest.allocFunction
  (id, (dest.add (wrapper id name callee config)).exportInvokable name)

/-- A request to a module. -/
inductive Request where
  /-- Fuse a chain under a name. -/
  | fuse (chain : Chain) (name : String)
  /-- Wrap an invokable function under a name. -/
  | wrap (target : InvokableSlot) (name : String)

namespace Request

/-- The number of the new function, or the error, and the module that is left. -/
def run (config : FusionConfig) : Request → Attempt FunctionId
  | fuse chain name => fun dest =>
    let (answer, left) := KernelFusion.fuse chain name config dest
    (answer.map (·.id), left)
  | wrap target name => wrapInvoke target name config

/-- The names of the functions that a request calls. -/
def entryNames : Request → List String
  | fuse chain _ => chain.entryNames
  | wrap target _ => target.entryNames

end Request

section Steps

/-- Resolving a slot in use is finding the entry point of its kernel. -/
theorem resolveStage_eq {k : KernelSlot} {d : KernelDescriptor} (hk : k.describe = .ok d)
    (hname : d.hasName = true) (stage : Nat) :
    resolveStage stage k = Attempt.andThen (findEntry d.name)
      (fun f m => (.ok ⟨d, f.id, f.prototype.paramTypes, f.result⟩, m)) := by
  funext m
  unfold resolveStage Attempt.andThen findEntry
  simp only [hk, hname, if_true]
  rcases (m.materialize d.name).callable? d.name with _ | f <;> rfl

/-- Planning a call is resolving the stage, then a computation. -/
theorem planStage_eq (stage : Nat) (current : Option Operand) (k : KernelSlot) :
    planStage stage current k =
      Attempt.andThen (resolveStage stage k) (fun r m => (r.call stage current, m)) := by
  funext m
  unfold planStage
  rcases h : resolveStage stage k m with ⟨e | r, left⟩
  · rw [Attempt.andThen_of_error h]
  · rw [Attempt.andThen_of_ok h]
    unfold ResolvedStage.call
    rcases ho : r.operands stage current with e | operands
    · simp only [ho]
    · simp only [ho]
      split <;> rfl

/-- Planning stages is planning the first, then the others with the value that it leaves. -/
theorem planStages_cons (stage : Nat) (current : Option Operand) (k : KernelSlot)
    (rest : List KernelSlot) :
    planStages stage current (k :: rest) =
      Attempt.andThen (planStage stage current k) (fun call =>
        Attempt.andThen (planStages (stage + 1) call.leaves rest)
          (fun calls m => (.ok (call :: calls), m))) := by
  funext m
  rw [planStages]
  rcases h : planStage stage current k m with ⟨e | call, left⟩
  · rw [Attempt.andThen_of_error h]
  · rw [Attempt.andThen_of_ok h]
    rcases hr : planStages (stage + 1) call.leaves rest left with ⟨e | calls, last⟩
    · rw [Attempt.andThen_of_error hr]
      simp only [hr]
    · rw [Attempt.andThen_of_ok hr]
      simp only [hr]

/-- Building a plan, once the signature is merged and the name is free. -/
def FusionPlan.buildCalls (chain : Chain) (signature : KernelSignature) (name : String)
    (config : FusionConfig) : Attempt FusionPlan :=
  Attempt.andThen (resolveStage 0 chain.first) (fun first =>
    Attempt.andThen (resolveStage (chain.length - 1) chain.last) (fun last =>
      match fusedParams signature first config with
      | .error e => fun m => (.error e, m)
      | .ok params =>
        Attempt.andThen
          (planStages 0 (if signature.has .input then some Operand.dataIn else none) chain.stages)
          (fun calls m => (.ok ⟨name, signature, params, last.result, calls⟩, m))))

/-- With a merged signature and a free name, building a plan is resolving and planning. -/
theorem FusionPlan.build_eq {chain : Chain} {signature : KernelSignature}
    (hs : chain.reconcile = .ok signature) (name : String) (config : FusionConfig)
    {dest : Module} (hn : dest.hasSymbol name = false) :
    FusionPlan.build chain name config dest =
      FusionPlan.buildCalls chain signature name config dest := by
  unfold FusionPlan.build FusionPlan.buildCalls
  simp only [hs, hn, Bool.false_eq_true, if_false]
  rcases hfirst : resolveStage 0 chain.first dest with ⟨e | first, left⟩
  · rw [Attempt.andThen_of_error hfirst]
  · rw [Attempt.andThen_of_ok hfirst]
    rcases hlast : resolveStage (chain.length - 1) chain.last left with ⟨e | last, left'⟩
    · rw [Attempt.andThen_of_error hlast]
      simp only [hlast]
    · rw [Attempt.andThen_of_ok hlast]
      simp only [hlast]
      rcases hparams : fusedParams signature first config with e | params
      · rfl
      · dsimp only
        rcases hcalls : planStages 0
          (if signature.has .input then some Operand.dataIn else none) chain.stages left' with
          ⟨e | calls, left''⟩
        · rw [Attempt.andThen_of_error hcalls]
        · rw [Attempt.andThen_of_ok hcalls]

/-- Fusing is building a plan, then committing it. -/
theorem fuse_eq (chain : Chain) (name : String) (config : FusionConfig) :
    fuse chain name config =
      Attempt.andThen (FusionPlan.build chain name config)
        (fun plan m => (.ok (plan.commit config m).1, (plan.commit config m).2)) := by
  funext m
  unfold fuse
  rcases h : FusionPlan.build chain name config m with ⟨e | plan, left⟩
  · rw [Attempt.andThen_of_error h]
  · rw [Attempt.andThen_of_ok h]

/-- Wrapping is finding the function, then committing the wrapper. -/
theorem wrapInvoke_eq (target : InvokableSlot) (name : String) (config : FusionConfig) :
    wrapInvoke target name config =
      Attempt.andThen (target.resolve name) (fun callee m =>
        (.ok (commitWrapper callee name config m).1, (commitWrapper callee name config m).2)) := by
  funext m
  unfold wrapInvoke Attempt.andThen InvokableSlot.resolve Attempt.andThen findEntry takesOne
  rcases target.name with e | targetName
  · rfl
  · dsimp only
    split
    · rfl
    · split
      · rfl
      · rcases (m.materialize targetName).callable? targetName with _ | callee
        · rfl
        · dsimp only
          split <;> rfl

end Steps

namespace Probes

variable {view : Module}

theorem name_eq {m : Module} (h : m.force = view) : m.name = view.name := by
  rw [← h]
  rfl

/-- Whether a name is taken can be seen in the forced module. -/
theorem hasSymbol_eq {m : Module} (hm : m.WellFormed) (h : m.force = view) (name : String) :
    m.hasSymbol name = view.hasSymbol name := by
  unfold Module.hasSymbol
  rw [← h, hm.idOf?_force]

/-- Finding an entry point materializes it. -/
theorem findEntry (name : String) : Probes (findEntry name) view [name] := by
  refine ⟨[name], fun _ h => h, fun _ _ _ h => h, fun m hm hforce => ?_⟩
  have hstay : view.materialize name = view := by rw [← hforce, Module.materialize_force]
  unfold KernelFusion.findEntry
  dsimp only
  rw [hm.callable?_materialize, hstay, hforce, (Module.materialize_frame m name).1, name_eq hforce]
  cases view.callable? name <;> rfl

variable (hv : view.WellFormed) (hf : view.force = view)

include hv hf

/-- Resolving a stage materializes its kernel. -/
theorem resolveStage (stage : Nat) (k : KernelSlot) :
    Probes (resolveStage stage k) view k.entryNames := by
  unfold KernelSlot.entryNames
  rcases hk : k.describe with e | d
  · refine congr hv hf (fun m _ _ => ?_) (error (.exports e) [])
    rw [KernelFusion.resolveStage, hk]
  · dsimp only
    by_cases hname : d.hasName = true
    · rw [if_pos hname, resolveStage_eq hk hname, ← List.append_nil [d.name]]
      exact andThen hv hf (findEntry d.name) (fun f _ => pure _)
    · rw [if_neg hname]
      refine congr hv hf (fun m _ _ => ?_) (error (.unnamedKernel stage d.module d.slot) [])
      simp only [KernelFusion.resolveStage, hk, if_neg hname]

theorem planStage (stage : Nat) (current : Option Operand) (k : KernelSlot) :
    Probes (planStage stage current k) view k.entryNames := by
  rw [planStage_eq, ← List.append_nil k.entryNames]
  exact andThen hv hf (resolveStage hv hf stage k) (fun r _ => pure (r.call stage current))

/-- Planning stages materializes their kernels. -/
theorem planStages (ks : List KernelSlot) (stage : Nat) (current : Option Operand) :
    Probes (planStages stage current ks) view (ks.flatMap KernelSlot.entryNames) := by
  induction ks generalizing stage current with
  | nil => exact pure (.ok [])
  | cons k rest ih =>
    rw [planStages_cons, List.flatMap_cons]
    refine andThen hv hf (planStage hv hf stage current k) (fun call _ => ?_)
    rw [← List.append_nil (rest.flatMap _)]
    exact andThen hv hf (ih (stage + 1) call.leaves) (fun calls _ => pure (.ok (call :: calls)))

theorem buildCalls (chain : Chain) (signature : KernelSignature) (name : String)
    (config : FusionConfig) :
    Probes (FusionPlan.buildCalls chain signature name config) view chain.entryNames := by
  have hfirst : chain.first.entryNames ⊆ chain.entryNames := fun n hn =>
    List.mem_flatMap.mpr ⟨chain.first, List.head_mem chain.nonempty, hn⟩
  have hlast : chain.last.entryNames ⊆ chain.entryNames := fun n hn =>
    List.mem_flatMap.mpr ⟨chain.last, List.getLast_mem chain.nonempty, hn⟩
  have h : Probes (FusionPlan.buildCalls chain signature name config) view
      (chain.first.entryNames ++ (chain.last.entryNames ++ chain.entryNames)) := by
    refine andThen hv hf (resolveStage hv hf 0 chain.first) (fun first _ => ?_)
    refine andThen hv hf (resolveStage hv hf (chain.length - 1) chain.last) (fun last _ => ?_)
    cases fusedParams signature first config with
    | error e => exact error e chain.entryNames
    | ok params =>
      rw [← List.append_nil chain.entryNames]
      exact andThen hv hf (planStages hv hf chain.stages 0 _) (fun calls _ => pure _)
  refine h.names_congr ?_ ?_
  · exact List.append_subset.mpr ⟨hfirst, List.append_subset.mpr ⟨hlast, fun _ h => h⟩⟩
  · exact fun n hn => List.mem_append_right _ (List.mem_append_right _ hn)

/-- Building a plan materializes kernels of the chain. -/
theorem build (chain : Chain) (name : String) (config : FusionConfig) :
    Probes (FusionPlan.build chain name config) view chain.entryNames := by
  rcases hs : chain.reconcile with e | signature
  · refine congr hv hf (fun m _ _ => ?_) (error (.reconciliation e) chain.entryNames)
    rw [FusionPlan.build, hs]
  · by_cases hn : view.hasSymbol name = true
    · refine congr hv hf (fun m hm hforce => ?_)
        (error (.nameCollision name view.name) chain.entryNames)
      have htaken : m.hasSymbol name = true := (hasSymbol_eq hm hforce name).trans hn
      rw [FusionPlan.build, hs]
      simp only [if_pos htaken, name_eq hforce]
    · have hfree : view.hasSymbol name = false := by simpa using hn
      refine congr hv hf (fun m hm hforce => ?_) (buildCalls hv hf chain signature name config)
      exact FusionPlan.build_eq hs name config ((hasSymbol_eq hm hforce name).trans hfree)

/-- Finding an invokable function materializes it. -/
theorem resolveInvokable (target : InvokableSlot) (name : String) :
    Probes (target.resolve name) view target.entryNames := by
  unfold InvokableSlot.resolve InvokableSlot.entryNames
  rcases ht : target.name with e | targetName
  · exact error e []
  · dsimp only
    by_cases hempty : targetName = ""
    · simp only [if_pos hempty]
      exact error (.unresolvedFunction targetName target.module.name) [targetName]
    · simp only [if_neg hempty]
      by_cases hn : view.hasSymbol name = true
      · refine congr hv hf (fun m hm hforce => ?_)
          (error (.nameCollision name view.name) [targetName])
        have htaken : m.hasSymbol name = true := (hasSymbol_eq hm hforce name).trans hn
        simp only [if_pos htaken, name_eq hforce]
      · have hprobe : Probes (Attempt.andThen (KernelFusion.findEntry targetName)
            (fun callee m => (takesOne targetName callee, m))) view ([targetName] ++ []) :=
          andThen hv hf (findEntry targetName) (fun callee _ => pure (takesOne targetName callee))
        refine congr hv hf (fun m hm hforce => ?_) hprobe
        rw [if_neg (by rw [hasSymbol_eq hm hforce name]; exact hn)]

end Probes

end KernelFusion

import KernelFusion.Proofs.Failure
import KernelFusion.Proofs.Merging
import Mathlib.Data.List.Chain

/-!
# Which fusions can be planned

A plan is built exactly if the signatures of the chain merge, the name is free, every kernel has an
entry point in the destination with as many parameters as its signature has arguments, and no kernel
reads the result of a void one. The conditions are checked one after the other, and bodies are
materialized in between; but nothing else is checked, and every error tells of a condition that does
not hold, with the stage or the function for which it does not.
-/

namespace KernelFusion

namespace Module

/-- The function that a name stands for, with its body if one is pending. -/
def lookup? (m : Module) (name : String) : Option Function := (m.idOf? name).bind m.whole?

variable {m : Module}

/-- The entry point of a name is what the name stands for in the forced module. -/
theorem WellFormed.callable?_force (h : m.WellFormed) (name : String) :
    m.force.callable? name = m.lookup? name := by
  have hforced := h.idOf?_force name
  cases hid : m.idOf? name with
  | none => rw [lookup?, hid, callable?_of_idOf?_none (hforced.trans hid), Option.bind_none]
  | some id =>
    rw [h.force.callable?_of_idOf? (hforced.trans hid) pending_force, function?_force, lookup?, hid,
      Option.bind_some]

/-- A name has no entry point if no function has the name. -/
theorem WellFormed.lookup?_eq_none_iff (h : m.WellFormed) {name : String} :
    m.lookup? name = none ↔ ∀ id f, m.function? id = some f → f.name ≠ name := by
  rw [← idOf?_eq_none_iff]
  cases hid : m.idOf? name with
  | none => simp [lookup?, hid]
  | some id =>
    obtain ⟨f, hf, -⟩ := h.of_idOf? hid
    simp [lookup?, hid, whole?, hf]

theorem hasSymbol_eq_false_iff {name : String} :
    m.hasSymbol name = false ↔ ∀ id f, m.function? id = some f → f.name ≠ name := by
  rw [hasSymbol, Option.isSome_eq_false_iff, Option.isNone_iff_eq_none, idOf?_eq_none_iff]

end Module

/-- The kernel of a stage has an entry point that takes the arguments of its signature. -/
def KernelSlot.CallableIn (k : KernelSlot) (dest : Module) : Prop :=
  ∃ d f, k.describe = .ok d ∧ d.name ≠ "" ∧ dest.lookup? d.name = some f ∧
    f.prototype.params.length = d.signature.argumentCount

/-- If the second of two stages reads an input, the first one has a result. -/
def KernelSlot.Feeds (dest : Module) (k k' : KernelSlot) : Prop :=
  ∀ d d' f, k.describe = .ok d → k'.describe = .ok d' → d'.signature.has .input = true →
    dest.lookup? d.name = some f → f.result.isVoid = false

/-- A chain can be fused under a name. -/
structure Chain.FusibleInto (chain : Chain) (dest : Module) (name : String) : Prop where
  /-- The signatures of the stages merge. -/
  merges : ∃ s, chain.reconcile = .ok s
  /-- No function has the name. -/
  free : ∀ id f, dest.function? id = some f → f.name ≠ name
  /-- Every stage has a name that some function has. -/
  named : ∀ k ∈ chain.stages, ∀ d, k.describe = .ok d →
    d.name ≠ "" ∧ ∃ id f, dest.function? id = some f ∧ f.name = d.name
  /-- Every entry point takes the arguments of its stage's signature. -/
  arity : ∀ k ∈ chain.stages, ∀ d f, k.describe = .ok d → dest.lookup? d.name = some f →
    f.prototype.params.length = d.signature.argumentCount
  /-- A stage that reads an input comes first or behind one with a result. -/
  fed : chain.stages.IsChain (KernelSlot.Feeds dest)

/-- What is wrong with the fusion of a chain under a name, as the errors tell it. -/
inductive Chain.Obstacle (chain : Chain) (dest : Module) (name : String) : FusionError → Prop where
  /-- The signatures of the stages do not merge. -/
  | reconciliation {cause : ReconcileError} (refused : chain.reconcile = .error cause) :
    Obstacle chain dest name (.reconciliation cause)
  /-- A function has the name. -/
  | nameCollision {id : FunctionId} {f : Function} (function : dest.function? id = some f)
    (taken : f.name = name) : Obstacle chain dest name (.nameCollision name dest.name)
  /-- The stage at the position is an unused slot. -/
  | unnamedKernel {before after : List KernelSlot} {k : KernelSlot} {d : KernelDescriptor}
    (stages : chain.stages = before ++ k :: after) (describe : k.describe = .ok d)
    (unnamed : d.name = "") :
    Obstacle chain dest name (.unnamedKernel before.length d.module d.slot)
  /-- No function has the name of some stage. -/
  | unresolvedFunction {k : KernelSlot} {d : KernelDescriptor} (stage : k ∈ chain.stages)
    (describe : k.describe = .ok d) (named : d.name ≠ "")
    (missing : ∀ id f, dest.function? id = some f → f.name ≠ d.name) :
    Obstacle chain dest name (.unresolvedFunction d.name dest.name)
  /-- The first stage reads an input, but its entry point takes nothing. -/
  | missingInputParameter {d : KernelDescriptor} {f : Function}
    (describe : chain.first.describe = .ok d) (reads : d.signature.has .input = true)
    (entry : dest.lookup? d.name = some f) (none : f.prototype.params = []) :
    Obstacle chain dest name (.missingInputParameter d.name)
  /-- The stage at the position reads an input, but the entry point of the one before is void. -/
  | voidIntermediate {before after : List KernelSlot} {k k' : KernelSlot} {d d' : KernelDescriptor}
    {f : Function} (stages : chain.stages = before ++ k :: k' :: after)
    (describe : k.describe = .ok d) (describe' : k'.describe = .ok d')
    (reads : d'.signature.has .input = true) (entry : dest.lookup? d.name = some f)
    (void : f.result.isVoid = true) :
    Obstacle chain dest name (.voidIntermediate (before.length + 1) d'.name)
  /-- The entry point of some stage does not take the arguments of the stage's signature. -/
  | arityMismatch {k : KernelSlot} {d : KernelDescriptor} {f : Function} (stage : k ∈ chain.stages)
    (describe : k.describe = .ok d) (entry : dest.lookup? d.name = some f)
    (arity : f.prototype.params.length ≠ d.signature.argumentCount) :
    Obstacle chain dest name
      (.arityMismatch d.name f.prototype.params.length d.signature.argumentCount)

section Acceptance

variable {dest : Module} {chain : Chain} {name : String} {config : FusionConfig}

/-- The current value, if it is read, and the coordinates are as many as the arguments. -/
theorem KernelSignature.length_operands {s : KernelSignature} {current : Option Operand}
    (hin : s.has .input = true → current.isSome = true) :
    ((if s.has .input then current.toList else []) ++
      s.coordinates.map Operand.ofCoordinate).length = s.argumentCount := by
  rw [argumentCount_eq, inputs]
  by_cases h : s.has .input = true
  · obtain ⟨value, rfl⟩ := Option.isSome_iff_exists.mp (hin h)
    simp [h, Nat.add_comm]
  · simp [h]

/-- The entry point of a stage that is called takes the arguments of its signature. -/
theorem CallOf.params_length {view : Module} {current : Option Operand} {d : KernelDescriptor}
    {f : Function} {c : PlannedCall} (h : CallOf view current d f c) :
    f.prototype.params.length = d.signature.argumentCount := by
  have harity := h.arity
  rw [h.operands, KernelSignature.length_operands h.input] at harity
  exact harity.symm

/-- A stage can be called if its entry point takes the arguments of its signature and there is a
value for it. -/
theorem exists_callOf {current : Option Operand} {d : KernelDescriptor} {f : Function}
    (hd : dest.WellFormed) (hf : dest.lookup? d.name = some f)
    (harity : f.prototype.params.length = d.signature.argumentCount)
    (hin : d.signature.has .input = true → current.isSome = true) :
    ∃ c, CallOf dest.force current d f c := by
  have hentry : dest.force.callable? d.name = some f := (hd.callable?_force d.name).trans hf
  have hlength := (KernelSignature.length_operands hin).trans harity.symm
  exact ⟨⟨0, f.id, d.name, _, f.result⟩, hentry, rfl, rfl, hlength, rfl, hin⟩

/-- Stages can be called one after the other if each can be called, each is fed by the one before,
and there is a value for the first if it reads one. -/
theorem exists_planned_iff (hd : dest.WellFormed) {current : Option Operand}
    {ks : List KernelSlot} :
    (∃ calls, Planned dest.force current ks calls) ↔
      (∀ k ∈ ks, k.CallableIn dest) ∧ ks.IsChain (KernelSlot.Feeds dest) ∧
        ∀ k ∈ ks.head?, ∀ d, k.describe = .ok d → d.signature.has .input = true →
          current.isSome = true := by
  induction ks generalizing current with
  | nil => simpa using ⟨[], Planned.nil current⟩
  | cons k rest ih =>
    constructor
    · rintro ⟨calls, hcalls⟩
      cases hcalls with
      | @cons _ _ d f c _ later hk hname hcall hlater =>
        have hentry : dest.lookup? d.name = some f := (hd.callable?_force d.name) ▸ hcall.entry
        obtain ⟨hrest, hfed, hnext⟩ := ih.mp ⟨later, hlater⟩
        refine ⟨List.forall_mem_cons.mpr ⟨⟨d, f, hk, ?_, hentry, hcall.params_length⟩, hrest⟩,
          List.isChain_cons.mpr ⟨fun k' hk' => ?_, hfed⟩, ?_⟩
        · simpa [KernelDescriptor.hasName] using hname
        · -- The value that the call leaves is there exactly if the function has a result.
          intro d₀ d' f₀ hd₀ hd' hreads hf₀
          obtain rfl := Except.ok.inj (hk.symm.trans hd₀)
          obtain rfl := Option.some.inj (hentry.symm.trans hf₀)
          have hleaves := hnext k' hk' d' hd' hreads
          rw [PlannedCall.leaves, hcall.result] at hleaves
          cases hvoid : f.result.isVoid with
          | false => rfl
          | true => simp [hvoid] at hleaves
        · intro k₀ hk₀ d₀ hd₀ hreads
          obtain rfl := Option.some.inj hk₀
          obtain rfl := Except.ok.inj (hk.symm.trans hd₀)
          exact hcall.input hreads
    · rintro ⟨hcallable, hfed, hfirst⟩
      obtain ⟨⟨d, f, hk, hname, hentry, harity⟩, hrest⟩ := List.forall_mem_cons.mp hcallable
      obtain ⟨hfeeds, hlaterFed⟩ := List.isChain_cons.mp hfed
      obtain ⟨c, hcall⟩ := exists_callOf hd hentry harity (hfirst k rfl d hk)
      have hnext : ∀ k' ∈ rest.head?, ∀ d', k'.describe = .ok d' →
          d'.signature.has .input = true → c.leaves.isSome = true := by
        intro k' hk' d' hd' hreads
        have hvoid := hfeeds k' hk' d d' f hk hd' hreads hentry
        rw [PlannedCall.leaves, hcall.result, hvoid]
        rfl
      obtain ⟨later, hlater⟩ := ih.mpr ⟨hrest, hlaterFed, hnext⟩
      exact ⟨c :: later, .cons hk (by simpa [KernelDescriptor.hasName] using hname) hcall hlater⟩

/-- A plan is built exactly if the fusion succeeds. -/
theorem exists_build_iff_fuse :
    (∃ plan, (FusionPlan.build chain name config dest).1 = .ok plan) ↔
      ∃ kernel, (fuse chain name config dest).1 = .ok kernel := by
  rw [fuse_eq]
  rcases h : FusionPlan.build chain name config dest with ⟨e | plan, left⟩
  · rw [Attempt.andThen_of_error h]
    simp
  · rw [Attempt.andThen_of_ok h]
    simp

/-- The merged signature has an input if the first stage reads one. -/
theorem Chain.has_input_reconcile {s : KernelSignature} {d : KernelDescriptor}
    (hs : chain.reconcile = .ok s) (hd : chain.first.describe = .ok d) :
    s.has .input = d.signature.has .input := by
  obtain ⟨parts, hparts, hmerges⟩ := chain.merges_of_reconcile hs
  rcases chain with ⟨stages, hne⟩
  cases hparts with
  | nil => exact absurd rfl hne
  | @cons k p rest behind hk hrest =>
    obtain ⟨d', hd', rfl⟩ := hk
    obtain rfl := Except.ok.inj (hd.symm.trans hd')
    simpa using hmerges.input

theorem Chain.exists_describe {s : KernelSignature} (hs : chain.reconcile = .ok s) {k : KernelSlot}
    (hk : k ∈ chain.stages) : ∃ d, k.describe = .ok d := by
  obtain ⟨d, hd, -⟩ := Chain.exists_reconcile_iff.mp ⟨s, hs⟩ k hk
  exact ⟨d, hd⟩

/-- A plan is built exactly if the chain can be fused under the name. -/
theorem FusionPlan.exists_build_iff (hd : dest.WellFormed) :
    (∃ plan, (build chain name config dest).1 = .ok plan) ↔ chain.FusibleInto dest name := by
  rw [exists_build_iff_fuse, fuse_succeeds_iff hd]
  constructor
  · rintro ⟨s, hs, hfree, hcalls⟩
    obtain ⟨hcallable, hfed, -⟩ := (exists_planned_iff hd).mp hcalls
    refine ⟨⟨s, hs⟩, Module.hasSymbol_eq_false_iff.mp hfree, fun k hk d hdescribe => ?_,
      fun k hk d f hdescribe hf => ?_, hfed⟩
    · obtain ⟨d', f, hd', hname, hf, -⟩ := hcallable k hk
      obtain rfl := Except.ok.inj (hd'.symm.trans hdescribe)
      refine ⟨hname, ?_⟩
      by_contra hnone
      have hmissing : dest.lookup? d'.name = none := by
        rw [hd.lookup?_eq_none_iff]
        exact fun id g hg hgname => hnone ⟨id, g, hg, hgname⟩
      cases hf.symm.trans hmissing
    · obtain ⟨d', f', hd', -, hf', harity⟩ := hcallable k hk
      obtain rfl := Except.ok.inj (hd'.symm.trans hdescribe)
      obtain rfl := Option.some.inj (hf'.symm.trans hf)
      exact harity
  · intro h
    obtain ⟨s, hs⟩ := h.merges
    refine ⟨s, hs, Module.hasSymbol_eq_false_iff.mpr h.free, ?_⟩
    rw [exists_planned_iff hd]
    refine ⟨fun k hk => ?_, h.fed, fun k hk d hdescribe hreads => ?_⟩
    · obtain ⟨d, hdescribe⟩ := chain.exists_describe hs hk
      obtain ⟨hname, id, g, hg, hgname⟩ := h.named k hk d hdescribe
      cases hf : dest.lookup? d.name with
      | none => exact absurd hgname (hd.lookup?_eq_none_iff.mp hf id g hg)
      | some f => exact ⟨d, f, hdescribe, hname, hf, h.arity k hk d f hdescribe hf⟩
    · have hfirst : chain.first = k := by
        rw [List.head?_eq_some_head chain.nonempty] at hk
        exact Option.some.inj hk
      have hin := chain.has_input_reconcile hs (hfirst ▸ hdescribe)
      rw [KernelSignature.current, hin, hreads]
      rfl

end Acceptance

/-- On a module where it changes nothing, a step fails with errors of this kind only. -/
structure Blames {α : Type} (r : Attempt α) (view : Module) (kind : FusionError → Prop) : Prop where
  /-- The module is left as it was. -/
  stays : (r view).2 = view
  /-- The errors are of the kind. -/
  errors : ∀ e, (r view).1 = .error e → kind e

namespace Blames

section Steps

variable {α β : Type} {view : Module} {kind : FusionError → Prop}

/-- A step that fails fails with its one error. -/
theorem of_error {r : Attempt α} {e : FusionError} (h : r view = (.error e, view)) (he : kind e) :
    Blames r view kind where
  stays := by rw [h]
  errors e' he' := by
    rw [h] at he'
    cases he'
    exact he

/-- A step that succeeds has no errors. -/
theorem of_ok {r : Attempt α} {a : α} (h : r view = (.ok a, view)) : Blames r view kind where
  stays := by rw [h]
  errors e he := by
    rw [h] at he
    cases he

theorem ok (a : α) : Blames (fun m => (.ok a, m)) view kind := of_ok rfl

/-- The errors of two steps are the errors of either. -/
theorem andThen {first : Attempt α} {next : α → Attempt β} (h : Blames first view kind)
    (hnext : ∀ a, (first view).1 = .ok a → Blames (next a) view kind) :
    Blames (first.andThen next) view kind := by
  cases ha : (first view).1 with
  | error e =>
    have hfirst : first view = (.error e, view) := Prod.ext ha h.stays
    exact of_error (Attempt.andThen_of_error hfirst) (h.errors e ha)
  | ok a =>
    have hfirst : first view = (.ok a, view) := Prod.ext ha h.stays
    have hboth : first.andThen next view = next a view := Attempt.andThen_of_ok hfirst
    obtain ⟨hstays, herrors⟩ := hnext a ha
    exact ⟨by rw [hboth, hstays], by rwa [hboth]⟩

end Steps

variable {dest : Module} {chain : Chain} {name : String} {config : FusionConfig}
  {s : KernelSignature}

/-- Resolving a stage fails if its slot is unused or no function has its name. -/
theorem resolveStage (hd : dest.WellFormed) (hs : chain.reconcile = .ok s)
    {before after : List KernelSlot} {k : KernelSlot}
    (hstages : chain.stages = before ++ k :: after) :
    Blames (resolveStage before.length k) dest.force (chain.Obstacle dest name) := by
  have hmem : k ∈ chain.stages := by simp [hstages]
  have hstay : ∀ n, dest.force.materialize n = dest.force := Module.materialize_force dest
  obtain ⟨d, hk⟩ := chain.exists_describe hs hmem
  by_cases hname : d.name = ""
  · have hunnamed : KernelFusion.resolveStage before.length k dest.force =
        (.error (.unnamedKernel before.length d.module d.slot), dest.force) := by
      simp [KernelFusion.resolveStage, hk, KernelDescriptor.hasName, hname]
    exact of_error hunnamed (.unnamedKernel hstages hk hname)
  · have hnamed : d.hasName = true := by simp [KernelDescriptor.hasName, hname]
    cases hf : dest.lookup? d.name with
    | none =>
      have hunresolved : KernelFusion.resolveStage before.length k dest.force =
          (.error (.unresolvedFunction d.name dest.name), dest.force) := by
        simp only [KernelFusion.resolveStage, hk, hnamed, if_true, hstay, hd.callable?_force, hf]
        rfl
      exact of_error hunresolved
        (.unresolvedFunction hmem hk hname (hd.lookup?_eq_none_iff.mp hf))
    | some f =>
      exact of_ok (resolveStage_of_callable (Module.force_force dest) hk hnamed
        ((hd.callable?_force d.name).trans hf) before.length)

/-- What is known when there is no current value: the stage before is void, or the next one reads
none because it is the first. -/
def Unfed (dest : Module) (before ks : List KernelSlot) : Prop :=
  (∃ init k d f, before = init ++ [k] ∧ k.describe = .ok d ∧ dest.lookup? d.name = some f ∧
    f.result.isVoid = true) ∨
  ∀ k ∈ ks.head?, ∀ d, k.describe = .ok d → d.signature.has .input = false

/-- Planning a call fails as resolving the stage does, or if there is no value for it or the number
of parameters is wrong. -/
theorem planStage (hd : dest.WellFormed) (hs : chain.reconcile = .ok s)
    {before after : List KernelSlot} {k : KernelSlot} {current : Option Operand}
    (hstages : chain.stages = before ++ k :: after)
    (hcurrent : current = none → Unfed dest before (k :: after)) :
    Blames (planStage before.length current k) dest.force (chain.Obstacle dest name) := by
  have hmem : k ∈ chain.stages := by simp [hstages]
  rw [planStage_eq]
  refine (resolveStage hd hs hstages).andThen (fun r hr => ⟨rfl, fun e he => ?_⟩)
  obtain ⟨f, hk, -, hf, hresolved, -⟩ :=
    resolveStage_forced (Module.force_force dest) (Prod.ext hr rfl)
  rw [hd.callable?_force] at hf
  have hlength : r.params.length = f.prototype.params.length := by
    rw [hresolved]
    simp [Prototype.paramTypes]
  rcases r.call_error he with ⟨rfl, hreads, hnone⟩ | ⟨rfl, harity⟩
  · rcases hcurrent hnone with ⟨init, j, d, g, rfl, hj, hg, hvoid⟩ | hfirst
    · have hadjacent : chain.stages = init ++ j :: k :: after := by simpa using hstages
      rw [List.length_append, List.length_singleton]
      exact .voidIntermediate hadjacent hj hk hreads hg hvoid
    · have hreadsNot := hfirst k rfl r.descriptor hk
      rw [hreads] at hreadsNot
      cases hreadsNot
  · rw [hlength] at harity ⊢
    exact .arityMismatch hmem hk hf harity

/-- Planning stages fails for one of them. -/
theorem planStages (hd : dest.WellFormed) (hs : chain.reconcile = .ok s)
    {before ks : List KernelSlot} {current : Option Operand} (hstages : chain.stages = before ++ ks)
    (hcurrent : current = none → Unfed dest before ks) :
    Blames (planStages before.length current ks) dest.force (chain.Obstacle dest name) := by
  induction ks generalizing before current with
  | nil => exact ok []
  | cons k rest ih =>
    rw [planStages_cons]
    refine (planStage hd hs hstages hcurrent).andThen (fun c hc => ?_)
    obtain ⟨d, f, hk, -, hcall, -⟩ :=
      planStage_forced (Module.force_force dest) (Prod.ext hc rfl)
    have hentry : dest.lookup? d.name = some f := (hd.callable?_force d.name) ▸ hcall.entry
    have hlater : chain.stages = (before ++ [k]) ++ rest := by simpa using hstages
    -- The value is missing behind the stage only if its entry point is void.
    have hleaves : c.leaves = none → Unfed dest (before ++ [k]) rest := by
      intro hnone
      rw [PlannedCall.leaves, hcall.result] at hnone
      have hvoid : f.result.isVoid = true := by
        by_contra hvalue
        simp [hvalue] at hnone
      exact Or.inl ⟨before, k, d, f, rfl, hk, hentry, hvoid⟩
    have hrest := ih hlater hleaves
    rw [List.length_append, List.length_singleton] at hrest
    exact hrest.andThen (fun calls _ => ok (c :: calls))

/-- With a merged signature, planning fails for a stage. -/
theorem buildCalls (hd : dest.WellFormed) (hs : chain.reconcile = .ok s) :
    Blames (FusionPlan.buildCalls chain s name config) dest.force (chain.Obstacle dest name) := by
  have hfirst : chain.stages = [] ++ chain.first :: chain.stages.tail :=
    (List.cons_head_tail chain.nonempty).symm
  have hlast : chain.stages = chain.stages.dropLast ++ [chain.last] :=
    (List.dropLast_append_getLast chain.nonempty).symm
  have hposition : chain.length - 1 = chain.stages.dropLast.length := List.length_dropLast.symm
  unfold FusionPlan.buildCalls
  refine (resolveStage hd hs hfirst).andThen (fun first hopen => ?_)
  rw [hposition]
  refine (resolveStage hd hs hlast).andThen (fun last _ => ?_)
  obtain ⟨f, hk, -, hf, hresolved, -⟩ :=
    resolveStage_forced (Module.force_force dest) (Prod.ext hopen rfl)
  rw [hd.callable?_force] at hf
  have hinput := chain.has_input_reconcile hs hk
  cases hparams : fusedParams s first config with
  | error e =>
    obtain ⟨rfl, hin, hnone⟩ := fusedParams_error hparams
    rw [hresolved] at hnone
    have hempty : f.prototype.params = [] := by simpa [Prototype.paramTypes] using hnone
    exact of_error rfl (.missingInputParameter hk (hinput.symm.trans hin) hf hempty)
  | ok params =>
    have hcurrent : (if s.has .input then some Operand.dataIn else none) = none →
        Unfed dest [] chain.stages := by
      intro hnone
      refine Or.inr (fun k hhead d hd' => ?_)
      rw [List.head?_eq_some_head chain.nonempty] at hhead
      obtain rfl := Option.some.inj hhead
      rw [← chain.has_input_reconcile hs hd']
      by_contra hin
      simp [hin] at hnone
    have hstages : chain.stages = [] ++ chain.stages := rfl
    exact (planStages hd hs hstages hcurrent).andThen (fun calls _ => ok _)

/-- Building a plan fails with an error that holds of the request. -/
theorem build (hd : dest.WellFormed) :
    Blames (FusionPlan.build chain name config) dest.force (chain.Obstacle dest name) := by
  rcases hs : chain.reconcile with cause | s
  · have hbuild : FusionPlan.build chain name config dest.force =
        (.error (.reconciliation cause), dest.force) := by rw [FusionPlan.build, hs]
    exact of_error hbuild (.reconciliation hs)
  · cases hn : dest.force.hasSymbol name with
    | true =>
      have hbuild : FusionPlan.build chain name config dest.force =
          (.error (.nameCollision name dest.name), dest.force) := by
        rw [FusionPlan.build, hs]
        simp only [hn, if_true]
        rfl
      obtain ⟨id, hid⟩ := Option.isSome_iff_exists.mp hn
      obtain ⟨f, hf, htaken⟩ := hd.of_idOf? ((hd.idOf?_force name).symm.trans hid)
      exact of_error hbuild (.nameCollision hf htaken)
    | false =>
      have hbuild := FusionPlan.build_eq hs name config hn
      obtain ⟨hstays, herrors⟩ : Blames (FusionPlan.buildCalls chain s name config) dest.force
          (chain.Obstacle dest name) := buildCalls hd hs
      exact ⟨by rw [hbuild, hstays], by rwa [hbuild]⟩

end Blames

/-- A plan is built exactly if the chain can be fused under the name, and every error says what
stands in the way. -/
theorem FusionPlan.build_spec {dest : Module} (hd : dest.WellFormed) (chain : Chain) (name : String)
    (config : FusionConfig) :
    ((∃ plan, (build chain name config dest).1 = .ok plan) ↔ chain.FusibleInto dest name) ∧
      ∀ e, (build chain name config dest).1 = .error e → chain.Obstacle dest name e := by
  refine ⟨exists_build_iff hd, fun e he => ?_⟩
  obtain ⟨moved, -, -, hsame⟩ := Probes.build hd.force (Module.force_force dest) chain name config
  have hforced := hsame dest hd rfl
  rw [hforced] at he
  exact (Blames.build hd).errors e he

/-- The filter can be fused into the linked modules, and a kernel behind a sink cannot: it would
read the result of a void function. -/
theorem FusionPlan.build_spec_blocked :
    Samples.filter.FusibleInto Samples.merged "fused" ∧
      Samples.blocked.Obstacle Samples.merged "fused" (.voidIntermediate 1 "offset") := by
  have hd : Samples.merged.WellFormed := by decide
  have hfilter := (build_spec hd Samples.filter "fused" .standard).1
  have hblocked := (build_spec hd Samples.blocked "fused" .standard).2
  exact ⟨hfilter.mp ⟨_, rfl⟩, hblocked _ rfl⟩

end KernelFusion

import KernelFusion.Proofs.Commit
import KernelFusion.Proofs.Growth
import KernelFusion.Samples

/-!
# When bodies are moved cannot be observed

A module may have moved any of its pending bodies over their declarations. Fusions, wrappings and
links give the same answers whether it has or not, and they leave modules that force alike. The one
exception is a pending body without blocks: while it is pending it counts as the body of its symbol,
and once it is moved the symbol has none, so that a link can define it again.
-/

namespace KernelFusion

/-- The same answer, and modules are left that force alike. -/
structure SameOutcome {α : Type} (a b : α × Module) : Prop where
  /-- The answers are equal. -/
  answer : a.1 = b.1
  /-- The modules that are left are equal once all bodies are moved. -/
  force : a.2.force = b.2.force

section Requests

variable {a b : Module}

/-- A probe does not observe which bodies are moved. -/
theorem Probes.sameOutcome {α : Type} {r : Attempt α} {names : List String}
    (h : Probes r b.force names) (ha : a.WellFormed) (hb : b.WellFormed)
    (hforce : a.force = b.force) :
    SameOutcome (r a) (r b) ∧ (r a).2.WellFormed ∧ (r b).2.WellFormed := by
  obtain ⟨moved, -, -, hmod⟩ := h
  rw [hmod a ha hforce, hmod b hb rfl]
  refine ⟨⟨rfl, ?_⟩, ha.materializeAll moved, hb.materializeAll moved⟩
  rw [ha.force_materializeAll, hb.force_materializeAll, hforce]

/-- Going on after a probe does not observe which bodies are moved if the next step does not. -/
theorem Probes.sameOutcome_andThen {α β : Type} {r : Attempt α} {next : α → Attempt β}
    {names : List String} (h : Probes r b.force names) (ha : a.WellFormed) (hb : b.WellFormed)
    (hforce : a.force = b.force)
    (hnext : ∀ x (c d : Module), c.WellFormed → d.WellFormed → c.force = d.force →
      SameOutcome (next x c) (next x d)) :
    SameOutcome (r.andThen next a) (r.andThen next b) := by
  obtain ⟨⟨hanswer, hleft⟩, hra, hrb⟩ := h.sameOutcome ha hb hforce
  unfold Attempt.andThen
  rcases hr : r a with ⟨answer, left⟩
  rcases hr' : r b with ⟨answer', left'⟩
  rw [hr, hr'] at hanswer hleft
  rw [hr] at hra
  rw [hr'] at hrb
  dsimp only at hanswer hleft hra hrb
  subst hanswer
  cases answer with
  | error e => exact ⟨rfl, hleft⟩
  | ok x => exact hnext x left left' hra hrb hleft

/-- Committing a plan does not observe which bodies are moved. -/
theorem FusionPlan.sameOutcome_commit (p : FusionPlan) (config : FusionConfig)
    (ha : a.WellFormed) (hb : b.WellFormed) (hforce : a.force = b.force) :
    SameOutcome (p.commit config a) (p.commit config b) := by
  have hnext : a.nextFunction = b.nextFunction := (Module.force_eq_iff.mp hforce).2.2.1
  have ha' := ha.force_addNext (p.emit_frame a.nextFunction config).1
  have hb' := hb.force_addNext (p.emit_frame b.nextFunction config).1
  rw [p.commit_eq, p.commit_eq]
  rw [hnext, hforce] at ha'
  rw [hnext]
  exact ⟨rfl, congrArg (·.exportForeach p.name p.signature) (ha'.trans hb'.symm)⟩

/-- Committing a wrapper does not observe which bodies are moved. -/
theorem sameOutcome_commitWrapper (callee : Function) (name : String) (config : FusionConfig)
    (ha : a.WellFormed) (hb : b.WellFormed) (hforce : a.force = b.force) :
    SameOutcome (commitWrapper callee name config a) (commitWrapper callee name config b) := by
  have hnext : a.nextFunction = b.nextFunction := (Module.force_eq_iff.mp hforce).2.2.1
  have ha' := ha.force_addNext (wrapper_frame a.nextFunction name callee config).1
  have hb' := hb.force_addNext (wrapper_frame b.nextFunction name callee config).1
  rw [commitWrapper_eq, commitWrapper_eq]
  rw [hnext, hforce] at ha'
  rw [hnext]
  exact ⟨rfl, congrArg (·.exportInvokable name) (ha'.trans hb'.symm)⟩

end Requests

namespace Module

section Link

variable {m a b source : Module} {f : Function} {fs : List Function}

/-- Pending bodies belong to functions that are stored. -/
def Covered (m : Module) : Prop := ∀ id, m.function? id = none → m.pending.get? id = none

theorem WellFormed.covered (hm : m.WellFormed) : m.Covered :=
  fun _ hnone => hm.pending_of_none hnone

theorem Covered.register (hm : m.Covered) (f : Function) : (m.register f).1.Covered := by
  intro id hnone
  rw [function?_register] at hnone
  rw [pending_register]
  split at hnone
  next => cases hnone
  next hold =>
    rw [if_neg]
    · exact hm id hnone
    · rintro ⟨he, -⟩
      exact hold ⟨he, hnone⟩

/-- What stands under the number of a function that was brought in depends on what was stored there,
pending bodies aside. -/
theorem Covered.whole?_register (hm : m.Covered) (f : Function) (id : FunctionId) :
    (m.register f).1.whole? id =
      if f.id = id then
        some (if m.function? id = none ∧ f.isDeclaration = true then f.toDeclaration
          else f.underDeclaration (m.function? id))
      else m.whole? id := by
  have hf := function?_register m f id
  have hp := pending_register m f id
  by_cases he : f.id = id
  · rw [if_pos he]
    cases hd : m.function? id with
    | none =>
      have hnone := hm id hd
      cases hbody : f.isDeclaration <;> simp_all [whole?, fullFunction]
    | some declared => simp_all [whole?, fullFunction]
  · rw [if_neg he]
    exact whole?_congr (hf.trans (if_neg (fun h => he h.1))) (hp.trans (if_neg (fun h => he h.1)))

/-- Modules that force alike and store the same under the numbers of `fs`. -/
structure InStep (fs : List Function) (a b : Module) : Prop where
  /-- They are equal once all bodies are moved. -/
  force : a.force = b.force
  /-- What is still to be brought in finds the same. -/
  stored : ∀ f ∈ fs, a.function? f.id = b.function? f.id
  /-- Pending bodies of the one belong to functions. -/
  left : a.Covered
  /-- Pending bodies of the other belong to functions. -/
  right : b.Covered

/-- Bringing in one function keeps modules in step. -/
theorem InStep.register (h : InStep (f :: fs) a b) :
    InStep fs (a.register f).1 (b.register f).1 ∧ (a.register f).2 = (b.register f).2 := by
  have hstored := h.stored f List.mem_cons_self
  obtain ⟨hname, htables, hnext, hwhole⟩ := force_eq_iff.mp h.force
  obtain ⟨hna, hta, hxa⟩ := register_frame a f
  obtain ⟨hnb, htb, hxb⟩ := register_frame b f
  have hadd : (a.add f).nextFunction = (b.add f).nextFunction := by simp only [add, hnext]
  refine ⟨⟨force_eq_iff.mpr ⟨?_, ?_, ?_, fun id => ?_⟩, fun g hg => ?_, h.left.register f,
    h.right.register f⟩, ?_⟩
  · rw [hna, hnb, hname]
  · rw [hta, htb, htables]
  · rw [hxa, hxb, hstored, hnext, hadd]
  · rw [h.left.whole?_register, h.right.whole?_register]
    by_cases he : f.id = id
    · rw [if_pos he, if_pos he, ← he, hstored]
    · rw [if_neg he, if_neg he, hwhole]
  · rw [function?_register, function?_register, h.stored g (List.mem_cons_of_mem f hg)]
  · unfold Module.register
    rw [hstored]
    cases b.function? f.id <;> rfl

/-- Bringing in functions keeps modules in step, and counts the same new ones. -/
theorem InStep.registerAll (h : InStep fs a b) :
    (a.registerAll fs).1.force = (b.registerAll fs).1.force ∧
      (a.registerAll fs).2 = (b.registerAll fs).2 := by
  induction fs generalizing a b with
  | nil => exact ⟨h.force, rfl⟩
  | cons f rest ih =>
    obtain ⟨hstep, hflag⟩ := h.register
    obtain ⟨hforce, hcount⟩ := ih hstep
    refine ⟨hforce, ?_⟩
    simp only [Module.registerAll, hflag, hcount]

/-- A symbol keeps its body when it is moved, if it has blocks. -/
theorem MovedOnly.hasBody_eq {allowed : FunctionId → Prop} (h : MovedOnly allowed a b)
    (hblocks : ∀ id body, a.pending.get? id = some body → b.pending.get? id = none →
      body.isDeclaration = false) (id : FunctionId) : b.hasBody id = a.hasBody id := by
  rcases h.moved id with ⟨hf, hp⟩ | ⟨-, body, hp, hf, hnone⟩
  · simp only [hasBody, IdMap.contains, hf, hp]
  · simp [hasBody, IdMap.contains, hf, hp, hnone, hblocks id body hp hnone]

/-- Where the functions of a source go depends on names, numbers and which symbols have bodies. -/
theorem placement_congr (hname : b.name = a.name) (hnext : b.nextFunction = a.nextFunction)
    (hid : ∀ name, b.idOf? name = a.idOf? name) (hbody : ∀ id, b.hasBody id = a.hasBody id)
    (source : Module) : b.placement source = a.placement source := by
  have hstep : b.placeOne source = a.placeOne source := by
    funext p e
    simp only [placeOne, hid, hbody, hname]
  rw [placement, placement, hstep, hnext]

/-- Symbols without a body store the same before and after bodies are moved. -/
theorem MovedOnly.stored_eq {allowed : FunctionId → Prop} (h : MovedOnly allowed a b)
    (ha : a.WellFormed) {next : FunctionId} (hf : a.Receives next (f.id, f)) :
    a.function? f.id = b.function? f.id := by
  rcases hf with ⟨-, -, hfree⟩ | ⟨-, hge, -⟩
  · rcases h.moved f.id with ⟨hsame, -⟩ | ⟨-, body, hp, -, -⟩
    · exact hsame.symm
    · simp [hasBody, IdMap.contains, hp] at hfree
  · rw [ha.function?_of_le hge, (h.wellFormed ha).function?_of_le (h.nextFunction ▸ hge)]

/-- Linking into a module does not observe which bodies are moved, if those have blocks. -/
theorem MovedOnly.sameOutcome_linkInto {allowed : FunctionId → Prop} (h : MovedOnly allowed a b)
    (ha : a.WellFormed) (hroom : a.nextFunction.toNat + a.newSymbols source < 2 ^ 32)
    (hblocks : ∀ id body, a.pending.get? id = some body → b.pending.get? id = none →
      body.isDeclaration = false) :
    SameOutcome (a.linkInto source) (b.linkInto source) := by
  have hplacement : b.placement source = a.placement source :=
    placement_congr h.name h.nextFunction (h.idOf?_eq ha) (h.hasBody_eq hblocks) source
  have hforce := (h.force_eq ha).symm
  unfold linkInto
  rw [hplacement]
  cases hp : a.placement source with
  | error e => exact ⟨rfl, hforce⟩
  | ok p =>
    dsimp only
    cases hr : source.renumbered p with
    | error e => exact ⟨rfl, hforce⟩
    | ok fs =>
      obtain rfl := renumbered_eq_ok hr
      obtain ⟨hclean, hplaced⟩ := placed_of_ok ha hroom hp
      have hstep : InStep (arrivals p) (a.reserve p) (b.reserve p) := by
        refine ⟨?_, fun f hf => ?_, ha.covered, (h.wellFormed ha).covered⟩
        · exact congrArg (·.reserve p) hforce
        · exact h.stored_eq ha (hplaced.receives hclean f hf)
      obtain ⟨hlinked, hcount⟩ := hstep.registerAll
      exact ⟨by simp only [hcount], hlinked⟩

/-- Linking a module does not observe which of its bodies are moved. -/
theorem linkInto_of_force_eq (hforce : a.force = b.force) (m : Module) :
    m.linkInto a = m.linkInto b := by
  have hname : a.name = b.name := (force_eq_iff.mp hforce).1
  have hplacement : m.placement a = m.placement b := by
    rw [placement_eq, placement_eq, hforce, hname]
  have hrenumbered : ∀ p, a.renumbered p = b.renumbered p := by
    intro p
    simp only [renumbered, hname]
  simp only [linkInto, hplacement, hrenumbered]

end Link

/-- Whether pending bodies were moved over their declarations cannot be observed: building a plan,
fusing, wrapping and linking into the module give the same answers and leave modules that force
alike, and linking it into another module gives the same. For a link into the module the bodies that
were moved must have blocks. -/
theorem MovedOnly.unobservable {dest dest2 : Module} (hd : dest.WellFormed)
    (h : MovedOnly (fun _ => True) dest dest2) :
    (∀ chain name config,
      SameOutcome (FusionPlan.build chain name config dest)
        (FusionPlan.build chain name config dest2) ∧
      SameOutcome (fuse chain name config dest) (fuse chain name config dest2)) ∧
    (∀ target name config,
      SameOutcome (wrapInvoke target name config dest) (wrapInvoke target name config dest2)) ∧
    (∀ source : Module, dest.nextFunction.toNat + dest.newSymbols source < 2 ^ 32 →
      (∀ id body, dest.pending.get? id = some body → dest2.pending.get? id = none →
        body.isDeclaration = false) →
      SameOutcome (dest.linkInto source) (dest2.linkInto source)) ∧
    ∀ m : Module, m.linkInto dest = m.linkInto dest2 := by
  have hforce := (h.force_eq hd).symm
  have hd2 := h.wellFormed hd
  refine ⟨fun chain name config => ?_, fun target name config => ?_,
    fun source hroom hblocks => h.sameOutcome_linkInto hd hroom hblocks,
    linkInto_of_force_eq hforce⟩
  · have hbuild := Probes.build hd2.force (force_force dest2) chain name config
    refine ⟨(hbuild.sameOutcome hd hd2 hforce).1, ?_⟩
    rw [fuse_eq]
    refine hbuild.sameOutcome_andThen hd hd2 hforce (fun plan c d hc hd' hcd => ?_)
    obtain ⟨hanswer, hleft⟩ := plan.sameOutcome_commit config hc hd' hcd
    exact ⟨congrArg Except.ok hanswer, hleft⟩
  · have hresolve := Probes.resolveInvokable hd2.force (force_force dest2) target name
    rw [wrapInvoke_eq]
    refine hresolve.sameOutcome_andThen hd hd2 hforce (fun callee c d hc hd' hcd => ?_)
    obtain ⟨hanswer, hleft⟩ := sameOutcome_commitWrapper callee name config hc hd' hcd
    exact ⟨congrArg Except.ok hanswer, hleft⟩

/-- Moving a body of the linked sample modules is not observed by fusing the sample filter, by
wrapping the setup function or by linking a module that declares the function. -/
theorem MovedOnly.unobservable_merged :
    SameOutcome (fuse Samples.filter "fused" .standard Samples.merged)
      (fuse Samples.filter "fused" .standard (Samples.merged.materialize "offset")) ∧
    SameOutcome (wrapInvoke ⟨Samples.image, 0⟩ "wrapped" .standard Samples.merged)
      (wrapInvoke ⟨Samples.image, 0⟩ "wrapped" .standard (Samples.merged.materialize "offset")) ∧
    SameOutcome (Samples.merged.linkInto Samples.host)
      ((Samples.merged.materialize "offset").linkInto Samples.host) ∧
    Samples.host.linkInto Samples.merged =
      Samples.host.linkInto (Samples.merged.materialize "offset") := by
  have hd : Samples.merged.WellFormed := by decide
  have hmoved : MovedOnly (fun _ => True) Samples.merged (Samples.merged.materialize "offset") :=
    (hd.movedOnly_materializeAll ["offset"]).mono (fun _ _ => trivial)
  have hbodies : ∀ e ∈ Samples.merged.pending.entries, e.2.isDeclaration = false := by decide
  obtain ⟨hfuse, hwrap, hlink, hsource⟩ := MovedOnly.unobservable hd hmoved
  exact ⟨(hfuse Samples.filter "fused" .standard).2, hwrap ⟨Samples.image, 0⟩ "wrapped" .standard,
    hlink Samples.host (by decide)
      (fun id body hb _ => hbodies (id, body) (IdMap.mem_entries_iff.mpr hb)),
    hsource Samples.host⟩

/-- A module that declares a function, with a body without blocks pending for it. -/
def hollow : Module :=
  let f : Function := .declaration 0 "f" (.ofParams [] .void .c)
  { Module.new "d" with
    functions := IdMap.empty.insert 0 f
    pending := IdMap.empty.insert 0 f
    nextFunction := 1 }

/-- A module that defines the function. -/
def definer : Module :=
  (Samples.define (Builder.new (Module.new "s")) "f" [] .void .c Samples.nothing).module

/-- A body without blocks counts as a definition while it is pending and not once it is moved, and a
link observes that. -/
theorem blockless_body_observed :
    hollow.WellFormed ∧ MovedOnly (fun _ => True) hollow (hollow.materialize "f") ∧
      hollow.nextFunction.toNat + hollow.newSymbols definer < 2 ^ 32 ∧
      (hollow.linkInto definer).1 = .error (.duplicateDefinition "f" "d" "s") ∧
      ((hollow.materialize "f").linkInto definer).1 = .ok ⟨0, 1⟩ ∧
      ¬ SameOutcome (hollow.linkInto definer) ((hollow.materialize "f").linkInto definer) := by
  have hd : hollow.WellFormed := by decide
  have hpending : (hollow.linkInto definer).1 = .error (.duplicateDefinition "f" "d" "s") := rfl
  have hmoved : ((hollow.materialize "f").linkInto definer).1 = .ok ⟨0, 1⟩ := rfl
  refine ⟨hd, (hd.movedOnly_materializeAll ["f"]).mono (fun _ _ => trivial), by decide, hpending,
    hmoved, fun h => ?_⟩
  have hanswer := h.answer
  rw [hpending, hmoved] at hanswer
  cases hanswer

end Module

end KernelFusion

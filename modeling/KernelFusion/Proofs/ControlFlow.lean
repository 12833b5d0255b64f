import KernelFusion.Proofs.Paths
import KernelFusion.Proofs.Store
import KernelFusion.Proofs.Violations
import KernelFusion.Samples

/-!
# Two checks of control flow

The integrity check of a module and validation look at bodies independently of each other. The one
asks for the entry block and then goes through the blocks until it meets a first fault; the other
goes through all blocks, whether one of them is the entry or not, and reports whatever is wrong in
them. Where control goes is the same matter for both: every block is terminated, and branches go to
blocks of the body.
-/

namespace KernelFusion

/-- Control that starts in a graph stays in it and ends only where a block returns. -/
structure Graph.Closed (g : Graph) : Prop where
  /-- There is a block to start with. -/
  entry : g.blocks.contains g.entry = true
  /-- Every block says how it ends. -/
  terminated : ∀ b ∈ g.blocks.values, b.terminator ≠ .unreachable
  /-- Branches go to blocks of the graph. -/
  targets : ∀ b ∈ g.blocks.values, ∀ id ∈ b.successors, g.blocks.contains id = true

/-- The entry block of a body exists, and validation reports neither a missing terminator nor a
branch to a missing block. -/
structure Function.FlowAccepted (m : Module) (f : Function) : Prop where
  /-- The entry block exists. -/
  entry : f.graph.blocks.contains f.graph.entry = true
  /-- No missing terminator is reported. -/
  terminated : ∀ e ∈ f.errors m, e.violation ≠ .missingTerminator
  /-- No branch to a missing block is reported. -/
  targets : ∀ e ∈ f.errors m, ∀ id, e.violation ≠ .invalidTarget id

/-! ## The first fault -/

namespace Graph

variable {g : Graph}

/-- A block has no fault if it is terminated and goes to blocks of the graph. -/
theorem blockFault?_eq_none_iff {id : BlockId} {b : Block} :
    g.blockFault? id b = none ↔
      b.terminator ≠ .unreachable ∧ ∀ s ∈ b.successors, g.blocks.contains s = true := by
  have hterminated : b.isTerminated = true ↔ b.terminator ≠ .unreachable := bne_iff_ne
  rw [blockFault?, ← hterminated]
  split
  next h => simp [h]
  next h => simp [h]

/-- The search for a fault ends without one exactly in a closed graph. -/
theorem fault?_eq_none_iff : g.fault? = none ↔ g.Closed := by
  have hblocks : (∀ e ∈ g.blocks.entries, g.blockFault? e.1 e.2 = none) ↔
      ∀ b ∈ g.blocks.values, b.terminator ≠ .unreachable ∧
        ∀ s ∈ b.successors, g.blocks.contains s = true := by
    simp only [blockFault?_eq_none_iff, IdMap.values, List.forall_mem_map]
  rw [fault?]
  split
  next hentry =>
    rw [List.findSome?_eq_none_iff, hblocks]
    exact ⟨fun h => ⟨hentry, fun b hb => (h b hb).1, fun b hb => (h b hb).2⟩,
      fun h b hb => ⟨h.terminated b hb, h.targets b hb⟩⟩
  next hentry => exact iff_of_false (Option.some_ne_none _) (fun h => hentry h.entry)

end Graph

/-- A body has no fault exactly if its graph is closed. -/
theorem Function.fault?_eq_none_iff {f : Function} (hbody : f.isDeclaration = false) :
    f.fault? = none ↔ f.graph.Closed := by
  rw [fault?, hbody, if_neg Bool.false_ne_true, Graph.fault?_eq_none_iff]

/-! ## The reports -/

section Reports

variable {m : Module} {f : Function}

/-- That a block is not terminated depends on its terminator only. -/
theorem Violation.ofBlock_missingTerminator_iff {defined : List Register} {b : Block} :
    missingTerminator.OfBlock m f defined b ↔ b.terminator = .unreachable := by
  constructor
  · intro h
    cases h with
    | instruction hl hv =>
      cases hv with
      | call hi hv => cases hv
    | terminator hv =>
      cases hv with
      | unterminated ht => exact ht
  · exact fun ht => .terminator (.unterminated ht)

/-- That a block goes to a missing block depends on its successors only. -/
theorem Violation.ofBlock_invalidTarget_iff {defined : List Register} {b : Block} {id : BlockId} :
    (invalidTarget id).OfBlock m f defined b ↔
      id ∈ b.successors ∧ f.graph.blocks.contains id = false := by
  constructor
  · intro h
    cases h with
    | instruction hl hv =>
      cases hv with
      | call hi hv => cases hv
    | terminator hv =>
      cases hv with
      | target hid hmissing => exact ⟨hid, hmissing⟩
  · exact fun ⟨hid, hmissing⟩ => .terminator (.target hid hmissing)

/-- A violation that blocks show whatever is defined above them is reported if some block shows it.
-/
theorem Function.reports_iff {v : Violation} {shows : Block → Prop}
    (hblock : ∀ defined b, v.OfBlock m f defined b ↔ shows b)
    (hparameter : ∀ r, v ≠ .multipleDefinitions r) :
    (∃ e ∈ f.errors m, e.violation = v) ↔ ∃ b ∈ f.graph.blocks.values, shows b := by
  constructor
  · rintro ⟨e, he, rfl⟩
    rcases mem_errors_iff.mp he with ⟨-, r, -, -, -, rfl⟩ | ⟨before, b, after, hl, v, hv, rfl⟩
    · exact absurd rfl (hparameter r)
    · exact ⟨b, hl ▸ List.mem_append_right before List.mem_cons_self, (hblock _ b).mp hv⟩
  · rintro ⟨b, hb, hshows⟩
    obtain ⟨before, after, hl⟩ := List.append_of_mem hb
    exact ⟨⟨v, f.name, some b.id⟩, mem_errors_iff.mpr
      (.inr ⟨before, b, after, hl, v, (hblock _ b).mpr hshows, rfl⟩), rfl⟩

/-- Validation accepts the flow of a body exactly if its graph is closed. -/
theorem Function.flowAccepted_iff : f.FlowAccepted m ↔ f.graph.Closed := by
  have hterminator := reports_iff (m := m) (f := f)
    (fun _ _ => Violation.ofBlock_missingTerminator_iff) (by simp)
  have htarget (id : BlockId) := reports_iff (m := m) (f := f) (v := .invalidTarget id)
    (fun _ _ => Violation.ofBlock_invalidTarget_iff) (by simp)
  constructor
  · intro h
    refine ⟨h.entry, fun b hb ht => ?_, fun b hb id hid => ?_⟩
    · obtain ⟨e, he, hv⟩ := hterminator.mpr ⟨b, hb, ht⟩
      exact h.terminated e he hv
    · refine Bool.not_eq_false _ ▸ fun hmissing => ?_
      obtain ⟨e, he, hv⟩ := (htarget id).mpr ⟨b, hb, hid, hmissing⟩
      exact h.targets e he id hv
  · intro h
    refine ⟨h.entry, fun e he hv => ?_, fun e he id hv => ?_⟩
    · obtain ⟨b, hb, ht⟩ := hterminator.mp ⟨e, he, hv⟩
      exact h.terminated b hb ht
    · obtain ⟨b, hb, hid, hmissing⟩ := (htarget id).mp ⟨e, he, hv⟩
      exact Bool.false_ne_true (hmissing.symm.trans (h.targets b hb id hid))

end Reports

/-! ## Modules -/

namespace Module

/-- A module has no fault if no function of it has one and every pending body stands under the
number of a function. -/
theorem fault?_eq_none_iff {m : Module} :
    m.fault? = none ↔ (∀ id f, m.function? id = some f → f.fault? = none) ∧
      ∀ id, m.pending.contains id = true → m.functions.contains id = true := by
  have hfunctions : m.functions.entries.findSome? (fun e => e.2.fault?.map (.function e.1)) =
      (none : Option ModuleFault) ↔ ∀ id f, m.function? id = some f → f.fault? = none := by
    simp only [List.findSome?_eq_none_iff, Option.map_eq_none_iff, Prod.forall,
      IdMap.mem_entries_iff, function?]
  have hpending : (m.pending.keys.find? (fun id => !m.functions.contains id)).map
      ModuleFault.undeclared = none ↔
        ∀ id, m.pending.contains id = true → m.functions.contains id = true := by
    simp only [Option.map_eq_none_iff, List.find?_eq_none, IdMap.mem_keys_iff, Bool.not_eq_true',
      Bool.not_eq_false]
  rw [fault?, Option.or_eq_none_iff, hfunctions, hpending]

/-- The integrity check and validation agree about control flow. A body passes the one exactly if
its entry block exists and the other reports neither a missing terminator nor a branch to a missing
block. A module passes the integrity check exactly if this holds of all its bodies and pending
bodies stand under the numbers of functions; so it passes if validation finds nothing wrong with it,
all entry blocks exist and pending bodies stand under the numbers of functions. -/
theorem integrity_agrees (m : Module) :
    (∀ f : Function, f.isDeclaration = false → (f.fault? = none ↔ f.FlowAccepted m)) ∧
      (m.fault? = none ↔
        (∀ id f, m.function? id = some f → f.isDeclaration = false → f.FlowAccepted m) ∧
          ∀ id, m.pending.contains id = true → m.functions.contains id = true) ∧
      (m.errors = [] →
        (∀ id f, m.function? id = some f → f.isDeclaration = false →
          f.graph.blocks.contains f.graph.entry = true) →
        (∀ id, m.pending.contains id = true → m.functions.contains id = true) →
        m.fault? = none) := by
  have hbody : ∀ f : Function, f.isDeclaration = false → (f.fault? = none ↔ f.FlowAccepted m) :=
    fun f hf => (Function.fault?_eq_none_iff hf).trans Function.flowAccepted_iff.symm
  have hfunctions : (∀ id f, m.function? id = some f → f.fault? = none) ↔
      ∀ id f, m.function? id = some f → f.isDeclaration = false → f.FlowAccepted m := by
    refine ⟨fun h id f hf hdefined => (hbody f hdefined).mp (h id f hf), fun h id f hf => ?_⟩
    cases hdeclared : f.isDeclaration with
    | false => exact (hbody f hdeclared).mpr (h id f hf hdeclared)
    | true => rw [Function.fault?, hdeclared, if_pos rfl]
  refine ⟨hbody, by rw [fault?_eq_none_iff, hfunctions], fun herrors hentry hpending => ?_⟩
  refine fault?_eq_none_iff.mpr ⟨hfunctions.mpr fun id f hf hdefined => ?_, hpending⟩
  have hnone : f.errors m = [] :=
    errors_eq_nil_iff.mp herrors f (IdMap.mem_values_iff.mpr ⟨id, hf⟩) hdefined
  exact ⟨hentry id f hf hdefined, by simp [hnone], by simp [hnone]⟩

/-- A module with a body without its entry block. -/
def headless : Module := (new "m").add Function.headless

/-- Validation finds nothing wrong with a body without its entry block, but neither check lets it
pass. The linked sample modules with a fused kernel, some of whose bodies are pending, pass both. -/
theorem integrity_agrees_headless :
    (Function.headless.isDeclaration = false ∧ headless.errors = [] ∧
      ¬ Function.headless.FlowAccepted headless ∧
      headless.fault? = some (.function 0 .noEntry) ∧
      ¬ ∀ id f, headless.function? id = some f → f.isDeclaration = false →
        f.FlowAccepted headless) ∧
    (Samples.fused.errors = [] ∧
      (∀ id f, Samples.fused.function? id = some f → f.isDeclaration = false →
        f.graph.blocks.contains f.graph.entry = true) ∧
      (∀ id, Samples.fused.pending.contains id = true →
        Samples.fused.functions.contains id = true) ∧
      Samples.fused.fault? = none) := by
  have hfault : headless.fault? = some (.function 0 .noEntry) := by decide
  have herrors : Samples.fused.errors = [] := by decide +kernel
  have hentries : ∀ e ∈ Samples.fused.functions.entries, e.2.isDeclaration = false →
      e.2.graph.blocks.contains e.2.graph.entry = true := by decide +kernel
  have hkeys : Samples.fused.pending.keys.all Samples.fused.functions.contains = true := by
    decide +kernel
  have hentry (id : FunctionId) (f : Function) (hf : Samples.fused.function? id = some f) :=
    hentries (id, f) (IdMap.mem_entries_iff.mpr hf)
  have hpending (id : FunctionId) (hid : Samples.fused.pending.contains id = true) :=
    List.all_eq_true.mp hkeys id (IdMap.mem_keys_iff.mpr hid)
  refine ⟨⟨rfl, rfl, fun haccepted => ?_, hfault, fun haccepted => ?_⟩, herrors, hentry, hpending,
    (integrity_agrees Samples.fused).2.2 herrors hentry hpending⟩
  · have hnone := ((integrity_agrees headless).1 Function.headless rfl).mpr haccepted
    cases hnone
  · have hnone := (integrity_agrees headless).2.1.mpr
      ⟨haccepted, fun _ hid => absurd hid Bool.false_ne_true⟩
    cases hfault.symm.trans hnone

end Module

end KernelFusion

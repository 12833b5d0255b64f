import KernelFusion.Proofs.Flags
import Mathlib.Data.List.Forall2

/-!
# Stages whose signatures merge

Signatures of a chain are merged if every stage can be described, reads one input at most and has no
unexpected flags. The merged signature is that of the stages' signatures and has no unexpected flags
either.
-/

namespace KernelFusion

/-- A stage can take part in a fusion, with this signature. -/
def KernelSlot.Joins (k : KernelSlot) (s : KernelSignature) : Prop :=
  ∃ d, k.describe = .ok d ∧ d.inputs ≤ 1 ∧ s.unexpected.isEmpty = true ∧ d.signature = s

theorem checkStage_eq_ok_iff {stage : Nat} {k : KernelSlot} {s : KernelSignature} :
    checkStage stage k = .ok s ↔ k.Joins s := by
  unfold checkStage KernelSlot.Joins
  rcases k.describe with e | d
  · simp
  · by_cases hinputs : 1 < d.inputs
    · simp only [if_pos hinputs, reduceCtorEq, false_iff]
      rintro ⟨d', hd, hle, -⟩
      cases hd
      exact UInt32.not_le.mpr hinputs hle
    · by_cases hflags : d.signature.unexpected.isEmpty = true
      · simp only [if_neg hinputs, if_pos hflags, Except.ok.injEq]
        constructor
        · rintro rfl
          exact ⟨d, rfl, UInt32.not_lt.mp hinputs, hflags, rfl⟩
        · rintro ⟨d', hd, -, -, hs⟩
          cases hd
          exact hs
      · simp only [if_neg hinputs, if_neg hflags, Except.ok.injEq, reduceCtorEq, false_iff]
        rintro ⟨d', hd, -, hs, rfl⟩
        cases hd
        exact hflags hs

/-- Signatures are collected if all stages can take part. -/
theorem stageSignatures_eq_ok_iff {stage : Nat} {ks : List KernelSlot}
    {signatures : List KernelSignature} :
    stageSignatures stage ks = .ok signatures ↔ List.Forall₂ KernelSlot.Joins ks signatures := by
  induction ks generalizing stage signatures with
  | nil => simp [stageSignatures, eq_comm]
  | cons k rest ih =>
    rw [stageSignatures, List.forall₂_cons_left_iff]
    rcases hc : checkStage stage k with e | s
    · simp only [reduceCtorEq, false_iff]
      rintro ⟨s, later, hs, -⟩
      cases hc.symm.trans (checkStage_eq_ok_iff.mpr hs)
    · have hs := checkStage_eq_ok_iff.mp hc
      rcases hr : stageSignatures (stage + 1) rest with e | later
      · simp only [Except.map, reduceCtorEq, false_iff]
        rintro ⟨s', later, -, hlater, -⟩
        cases hr.symm.trans (ih.mpr hlater)
      · have hlater := ih.mp hr
        simp only [Except.map, Except.ok.injEq]
        constructor
        · rintro rfl
          exact ⟨s, later, hs, hlater, rfl⟩
        · rintro ⟨s', later', hs', hlater', rfl⟩
          have hc' : checkStage stage k = .ok s' := checkStage_eq_ok_iff.mpr hs'
          have hr' := hr.symm.trans (ih.mpr hlater')
          rw [Except.ok.inj (hc.symm.trans hc'), Except.ok.inj hr']

/-- A chain is reconciled if all stages can take part. -/
theorem Chain.reconcile_eq_ok_iff {c : Chain} {s : KernelSignature} :
    c.reconcile = .ok s ↔
      ∃ signatures, List.Forall₂ KernelSlot.Joins c.stages signatures ∧ .merge signatures = s := by
  unfold reconcile
  rcases h : stageSignatures 0 c.stages with e | signatures
  · simp only [Except.map, reduceCtorEq, false_iff]
    rintro ⟨signatures, hjoins, -⟩
    cases h.symm.trans (stageSignatures_eq_ok_iff.mpr hjoins)
  · have hjoins := stageSignatures_eq_ok_iff.mp h
    simp only [Except.map, Except.ok.injEq]
    constructor
    · exact fun hs => ⟨signatures, hjoins, hs⟩
    · rintro ⟨signatures', hjoins', hs⟩
      have heq := h.symm.trans (stageSignatures_eq_ok_iff.mpr hjoins')
      rw [Except.ok.inj heq, hs]

theorem KernelSlot.Joins.signature_eq {k : KernelSlot} {s : KernelSignature}
    {d : KernelDescriptor} (h : k.Joins s) (hd : k.describe = .ok d) : d.signature = s := by
  obtain ⟨d', hd', -, -, hs⟩ := h
  cases hd.symm.trans hd'
  exact hs

/-- Every stage has its signature among those that are merged. -/
theorem mem_signatures {ks : List KernelSlot} {signatures : List KernelSignature}
    (h : List.Forall₂ KernelSlot.Joins ks signatures) {k : KernelSlot} {d : KernelDescriptor}
    (hk : k ∈ ks) (hd : k.describe = .ok d) : d.signature ∈ signatures := by
  induction h with
  | nil => cases hk
  | cons hs hrest ih =>
    rcases List.mem_cons.mp hk with rfl | hk
    · exact hs.signature_eq hd ▸ List.mem_cons_self
    · exact List.mem_cons_of_mem _ (ih hk)

theorem unexpected_of_joins {ks : List KernelSlot} {signatures : List KernelSignature}
    (h : List.Forall₂ KernelSlot.Joins ks signatures) :
    ∀ s ∈ signatures, s.unexpected.isEmpty = true := by
  induction h with
  | nil => simp
  | cons hs hrest ih =>
    obtain ⟨d, -, -, hflags, -⟩ := hs
    exact List.forall_mem_cons.mpr ⟨hflags, ih⟩

/-- A merged signature has no unexpected flags. -/
theorem Chain.unexpected_reconcile {c : Chain} {s : KernelSignature} (h : c.reconcile = .ok s) :
    s.unexpected.isEmpty = true := by
  obtain ⟨signatures, hjoins, rfl⟩ := reconcile_eq_ok_iff.mp h
  exact KernelSignature.isEmpty_unexpected_merge (unexpected_of_joins hjoins)

/-- The coordinates of a stage are among those of the merged signature. -/
theorem Chain.coordinates_reconcile {c : Chain} {s : KernelSignature} (h : c.reconcile = .ok s)
    {k : KernelSlot} {d : KernelDescriptor} (hk : k ∈ c.stages) (hd : k.describe = .ok d) :
    d.signature.coordinates ⊆ s.coordinates := by
  obtain ⟨signatures, hjoins, rfl⟩ := reconcile_eq_ok_iff.mp h
  exact KernelSignature.coordinates_merge (mem_signatures hjoins hk hd)

end KernelFusion

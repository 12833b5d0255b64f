import KernelFusion.Proofs.FusedStage
import KernelFusion.Proofs.Lists
import KernelFusion.Samples

/-!
# The merged signature of a chain

A chain has a merged signature exactly if every stage can be described, reads one input at most and
has no flags but input, output, coordinates and the kernel style. The merged signature has the input
of the first stage, the output of the last, and of the other flags those that some stage has. If
some stage cannot take part, the first such stage decides, and the error is its own, with its
position. Chains can be merged one by one and their merged signatures then merged like those of two
stages.
-/

namespace KernelFusion

namespace KernelSignature

/-- The flags that a kernel of a fusion may have. -/
def fusionFlags : List KernelSignature := [input, output, x, y, z, kernel]

/-- Only flags that a kernel of a fusion may have are set. -/
def IsFusible (s : KernelSignature) : Prop :=
  ∀ k < 32, s.bit k = true → ∃ flag ∈ fusionFlags, flag.bit k = true

/-- The signature of a chain, given the signatures of its stages. -/
structure Merges (s : KernelSignature) (parts : List KernelSignature) : Prop where
  /-- The input is that of the first stage. -/
  input : s.has .input = parts.head?.any (·.has .input)
  /-- The output is that of the last stage. -/
  output : s.has .output = parts.getLast?.any (·.has .output)
  /-- Coordinates and kernel style are those of all stages together. -/
  union : ∀ flag ∈ [x, y, z, kernel], s.has flag = parts.any (·.has flag)
  /-- There are no other flags. -/
  fusible : s.IsFusible

/-- The flags that a kernel may have stand for six places of the mask. -/
theorem fusionFlags_bit {k : Nat} (hk : k < 32) :
    (∃ flag ∈ fusionFlags, flag.bit k = true) ↔ k ∈ [0, 1, 3, 4, 5, 6] := by
  revert k
  decide

theorem isFusible_iff {s : KernelSignature} : s.IsFusible ↔ s.unexpected.isEmpty = true := by
  have hplaces : ∀ k < 32, fusible.bit k = true ↔ k ∈ [0, 1, 3, 4, 5, 6] := by decide
  rw [isEmpty_unexpected_iff]
  refine forall_congr' (fun k => forall_congr' (fun hk => ?_))
  rw [fusionFlags_bit hk, ← hplaces k hk]
  cases s.bit k <;> cases fusible.bit k <;> simp

/-- There is one merged signature only. -/
theorem Merges.unique {s t : KernelSignature} {parts : List KernelSignature} (hs : s.Merges parts)
    (ht : t.Merges parts) : s = t := by
  have hunion : ∀ flag ∈ [x, y, z, kernel], ∀ k < 32,
      flag.bits.toBitVec = BitVec.twoPow 32 k → s.bit k = t.bit k := by
    intro flag hflag k hk hbits
    rw [← has_of_bits hk hbits, ← has_of_bits hk hbits, hs.union flag hflag, ht.union flag hflag]
  refine ext_bit (fun k hk => ?_)
  by_cases hplace : k ∈ [0, 1, 3, 4, 5, 6]
  · simp only [List.mem_cons, List.not_mem_nil, or_false] at hplace
    rcases hplace with rfl | rfl | rfl | rfl | rfl | rfl
    · rw [← has_input, ← has_input, hs.input, ht.input]
    · rw [← has_output, ← has_output, hs.output, ht.output]
    · exact hunion x (by simp) 3 hk (by decide)
    · exact hunion y (by simp) 4 hk (by decide)
    · exact hunion kernel (by simp) 5 hk (by decide)
    · exact hunion z (by simp) 6 hk (by decide)
  · have hunset : ∀ r : KernelSignature, r.IsFusible → r.bit k = false := by
      intro r hr
      rw [← Bool.not_eq_true]
      exact fun hbit => hplace ((fusionFlags_bit hk).mp (hr k hk hbit))
    rw [hunset s hs.fusible, hunset t ht.fusible]

/-- Merging signatures that may take part gives the signature of their chain. -/
theorem merges_merge {parts : List KernelSignature} (h : ∀ p ∈ parts, p.IsFusible) :
    (merge parts).Merges parts where
  input := has_input_merge parts
  output := has_output_merge parts
  union := by
    intro flag hflag
    simp only [List.mem_cons, List.not_mem_nil, or_false] at hflag
    rcases hflag with rfl | rfl | rfl | rfl
    · exact has_merge (k := 3) parts (by decide) (by decide) (by decide) (by decide)
    · exact has_merge (k := 4) parts (by decide) (by decide) (by decide) (by decide)
    · exact has_merge (k := 6) parts (by decide) (by decide) (by decide) (by decide)
    · exact has_merge (k := 5) parts (by decide) (by decide) (by decide) (by decide)
  fusible := isFusible_iff.mpr (isEmpty_unexpected_merge (fun p hp => isFusible_iff.mp (h p hp)))

/-- A signature that may take part is its own merged signature. -/
theorem merges_singleton {s : KernelSignature} (h : s.IsFusible) : s.Merges [s] where
  input := by simp
  output := by simp
  union := by simp
  fusible := h

/-- Parts behind others can be merged first. -/
theorem merge_append_merge (l : List KernelSignature) {l' : List KernelSignature} (hne : l' ≠ []) :
    merge (l ++ [merge l']) = merge (l ++ l') := by
  refine ext_bit (fun k hk => ?_)
  by_cases h0 : k = 0
  · subst h0
    rw [← has_input, ← has_input, has_input_merge, has_input_merge, List.head?_append,
      List.head?_append]
    cases l with
    | nil => simp [has_input_merge]
    | cons s rest => rfl
  · by_cases h1 : k = 1
    · subst h1
      rw [← has_output, ← has_output, has_output_merge, has_output_merge, List.getLast?_append,
        List.getLast?_append]
      cases hlast : l'.getLast? with
      | none => exact absurd (List.getLast?_eq_none_iff.mp hlast) hne
      | some s => simp [has_output_merge, hlast]
    · rw [bit_merge _ hk h0 h1, bit_merge _ hk h0 h1, List.any_append, List.any_append,
        List.any_cons, List.any_nil, Bool.or_false, bit_merge _ hk h0 h1]

/-- Two chains of parts can be merged first, each by itself. -/
theorem merge_merge_merge {l l' : List KernelSignature} (hl : l ≠ []) (hl' : l' ≠ []) :
    merge [merge l, merge l'] = merge (l ++ l') :=
  (merge_cons_merge hl [merge l']).trans (merge_append_merge l hl')

end KernelSignature

namespace KernelSlot

/-- A stage can take part in a fusion. -/
def CanJoin (k : KernelSlot) : Prop :=
  ∃ d, k.describe = .ok d ∧ d.inputs ≤ 1 ∧ d.signature.IsFusible

/-- Why a stage at a position cannot take part. The tables come before the inputs, and these before
the flags. -/
inductive Offends (k : KernelSlot) (stage : Nat) : ReconcileError → Prop where
  /-- The export tables of the stage cannot be read. -/
  | exports {cause : ExportError} (describe : k.describe = .error cause) :
    Offends k stage (.exports stage cause)
  /-- The stage reads more than one input. -/
  | inputs {d : KernelDescriptor} (describe : k.describe = .ok d) (many : 1 < d.inputs) :
    Offends k stage (.unsupportedInput stage d.module d.name d.inputs)
  /-- The stage has other flags than a fusion allows. -/
  | flags {d : KernelDescriptor} (describe : k.describe = .ok d) (few : d.inputs ≤ 1)
    (other : ¬ d.signature.IsFusible) :
    Offends k stage (.unsupportedFlags stage d.module d.name d.signature d.signature.unexpected)

/-- The tables give a stage this signature. -/
def Signed (k : KernelSlot) (s : KernelSignature) : Prop :=
  ∃ d, k.describe = .ok d ∧ d.signature = s

variable {k : KernelSlot} {s : KernelSignature}

theorem canJoin_iff : k.CanJoin ↔ ∃ s, k.Joins s := by
  constructor
  · rintro ⟨d, hd, hinputs, hflags⟩
    exact ⟨d.signature, d, hd, hinputs, KernelSignature.isFusible_iff.mp hflags, rfl⟩
  · rintro ⟨s, d, hd, hinputs, hflags, rfl⟩
    exact ⟨d, hd, hinputs, KernelSignature.isFusible_iff.mpr hflags⟩

theorem Joins.signed (h : k.Joins s) : k.Signed s := by
  obtain ⟨d, hd, -, -, hs⟩ := h
  exact ⟨d, hd, hs⟩

end KernelSlot

section Stages

variable {k : KernelSlot} {ks : List KernelSlot} {stage : Nat} {e : ReconcileError}

/-- A stage is refused with the error of what is wrong with it. -/
theorem checkStage_eq_error_iff : checkStage stage k = .error e ↔ k.Offends stage e := by
  unfold checkStage
  rcases hk : k.describe with cause | d
  · constructor
    · rintro ⟨⟩
      exact .exports hk
    · rintro (hd | ⟨hd, -⟩ | ⟨hd, -, -⟩)
      · cases hk.symm.trans hd
        rfl
      · cases hk.symm.trans hd
      · cases hk.symm.trans hd
  · by_cases hinputs : 1 < d.inputs
    · simp only [if_pos hinputs]
      constructor
      · rintro ⟨⟩
        exact .inputs hk hinputs
      · rintro (hd | ⟨hd, -⟩ | ⟨hd, hfew, -⟩)
        · cases hk.symm.trans hd
        · cases hk.symm.trans hd
          rfl
        · cases hk.symm.trans hd
          exact absurd hinputs (UInt32.not_lt.mpr hfew)
    · by_cases hflags : d.signature.unexpected.isEmpty = true
      · simp only [if_neg hinputs, if_pos hflags, reduceCtorEq, false_iff]
        rintro (hd | ⟨hd, hmany⟩ | ⟨hd, -, hother⟩)
        · cases hk.symm.trans hd
        · cases hk.symm.trans hd
          exact hinputs hmany
        · cases hk.symm.trans hd
          exact hother (KernelSignature.isFusible_iff.mpr hflags)
      · simp only [if_neg hinputs, if_neg hflags]
        constructor
        · rintro ⟨⟩
          exact .flags hk (UInt32.not_lt.mp hinputs)
            (fun hfusible => hflags (KernelSignature.isFusible_iff.mp hfusible))
        · rintro (hd | ⟨hd, hmany⟩ | ⟨hd, -, -⟩)
          · cases hk.symm.trans hd
          · cases hk.symm.trans hd
            exact absurd hmany hinputs
          · cases hk.symm.trans hd
            rfl

/-- The first stage that cannot take part decides. -/
theorem stageSignatures_eq_error_iff :
    stageSignatures stage ks = .error e ↔
      ∃ before k after, ks = before ++ k :: after ∧ (∀ j ∈ before, j.CanJoin) ∧
        k.Offends (stage + before.length) e := by
  induction ks generalizing stage with
  | nil => simp [stageSignatures]
  | cons first rest ih =>
    rw [stageSignatures]
    rcases hfirst : checkStage stage first with e' | s
    · have hoffends := checkStage_eq_error_iff.mp hfirst
      constructor
      · rintro ⟨⟩
        exact ⟨[], first, rest, rfl, by simp, hoffends⟩
      · rintro ⟨before, k, after, hsplit, hbefore, hk⟩
        cases before with
        | nil =>
          obtain ⟨rfl, rfl⟩ := List.cons.inj hsplit
          cases hfirst.symm.trans (checkStage_eq_error_iff.mpr hk)
          rfl
        | cons j before =>
          obtain ⟨rfl, rfl⟩ := List.cons.inj hsplit
          obtain ⟨s, hs⟩ := KernelSlot.canJoin_iff.mp (hbefore first List.mem_cons_self)
          cases hfirst.symm.trans (checkStage_eq_ok_iff.mpr hs)
    · have hjoins : first.CanJoin := KernelSlot.canJoin_iff.mpr ⟨s, checkStage_eq_ok_iff.mp hfirst⟩
      have hlater : (stageSignatures (stage + 1) rest).map (s :: ·) = .error e ↔
          stageSignatures (stage + 1) rest = .error e := by
        cases stageSignatures (stage + 1) rest <;> simp [Except.map]
      dsimp only
      rw [hlater, ih]
      constructor
      · rintro ⟨before, k, after, rfl, hbefore, hk⟩
        refine ⟨first :: before, k, after, rfl, List.forall_mem_cons.mpr ⟨hjoins, hbefore⟩, ?_⟩
        rwa [List.length_cons, Nat.add_comm before.length 1, ← Nat.add_assoc]
      · rintro ⟨before, k, after, hsplit, hbefore, hk⟩
        cases before with
        | nil =>
          obtain ⟨rfl, rfl⟩ := List.cons.inj hsplit
          cases hfirst.symm.trans (checkStage_eq_error_iff.mpr hk)
        | cons j before =>
          obtain ⟨rfl, rfl⟩ := List.cons.inj hsplit
          refine ⟨before, k, after, rfl, (List.forall_mem_cons.mp hbefore).2, ?_⟩
          rwa [List.length_cons, Nat.add_comm before.length 1, ← Nat.add_assoc] at hk

/-- Stages have signatures to merge if each of them can take part. -/
theorem exists_joins_iff :
    (∃ parts, List.Forall₂ KernelSlot.Joins ks parts) ↔ ∀ k ∈ ks, k.CanJoin := by
  simp only [exists_forall₂_iff, KernelSlot.canJoin_iff]

end Stages

namespace Chain

variable {c later : Chain} {s s' : KernelSignature} {e : ReconcileError}

theorem exists_reconcile_iff : (∃ s, c.reconcile = .ok s) ↔ ∀ k ∈ c.stages, k.CanJoin := by
  rw [← exists_joins_iff]
  constructor
  · rintro ⟨s, hs⟩
    obtain ⟨parts, hparts, -⟩ := reconcile_eq_ok_iff.mp hs
    exact ⟨parts, hparts⟩
  · rintro ⟨parts, hparts⟩
    exact ⟨.merge parts, reconcile_eq_ok_iff.mpr ⟨parts, hparts, rfl⟩⟩

/-- A merged signature is that of the signatures of the stages. -/
theorem merges_of_reconcile (h : c.reconcile = .ok s) :
    ∃ parts, List.Forall₂ KernelSlot.Signed c.stages parts ∧ s.Merges parts := by
  obtain ⟨parts, hjoins, rfl⟩ := reconcile_eq_ok_iff.mp h
  refine ⟨parts, hjoins.imp (fun _ _ hk => hk.signed), KernelSignature.merges_merge ?_⟩
  exact fun p hp => KernelSignature.isFusible_iff.mpr (unexpected_of_joins hjoins p hp)

/-- A chain of one stage keeps the signature of the stage. -/
theorem reconcile_single (h : c.reconcile = .ok s) {k : KernelSlot} (hk : c.stages = [k]) :
    k.Signed s := by
  obtain ⟨parts, hjoins, rfl⟩ := reconcile_eq_ok_iff.mp h
  rw [hk] at hjoins
  obtain ⟨p, rest, hp, hrest, rfl⟩ := List.forall₂_cons_left_iff.mp hjoins
  cases hrest
  have hfusible : ∀ q ∈ [p], q.IsFusible := fun q hq =>
    KernelSignature.isFusible_iff.mpr (unexpected_of_joins hjoins q hq)
  have hsame : KernelSignature.merge [p] = p :=
    (KernelSignature.merges_merge hfusible).unique
      (KernelSignature.merges_singleton (hfusible p List.mem_cons_self))
  rw [hsame]
  exact hp.signed

theorem reconcile_eq_error_iff :
    c.reconcile = .error e ↔
      ∃ before k after, c.stages = before ++ k :: after ∧ (∀ j ∈ before, j.CanJoin) ∧
        k.Offends before.length e := by
  have herror : c.reconcile = .error e ↔ stageSignatures 0 c.stages = .error e := by
    unfold reconcile
    cases stageSignatures 0 c.stages <;> simp [Except.map]
  rw [herror, stageSignatures_eq_error_iff]
  simp only [Nat.zero_add]

/-- Behind a chain another one is merged as its merged signature. -/
theorem reconcile_append (h : c.reconcile = .ok s) (h' : later.reconcile = .ok s') :
    (c.append later.stages).reconcile = .ok (.merge [s, s']) := by
  obtain ⟨parts, hjoins, rfl⟩ := reconcile_eq_ok_iff.mp h
  obtain ⟨parts', hjoins', rfl⟩ := reconcile_eq_ok_iff.mp h'
  have hne : parts ≠ [] := by
    rintro rfl
    exact c.nonempty (List.forall₂_nil_right_iff.mp hjoins)
  have hne' : parts' ≠ [] := by
    rintro rfl
    exact later.nonempty (List.forall₂_nil_right_iff.mp hjoins')
  rw [KernelSignature.merge_merge_merge hne hne']
  exact reconcile_eq_ok_iff.mpr ⟨parts ++ parts', List.rel_append hjoins hjoins', rfl⟩

/-- A chain has a merged signature exactly if all its stages can take part, and it is the one of
their signatures, that of the stage if there is only one. If not, the error is the one of the first
stage that cannot take part. A chain with another one behind it has a merged signature exactly if
both have one, and then it is the one of these two. -/
theorem reconcile_spec (c : Chain) :
    ((∃ s, c.reconcile = .ok s) ↔ ∀ k ∈ c.stages, k.CanJoin) ∧
    (∀ s, c.reconcile = .ok s →
      (∃ parts, List.Forall₂ KernelSlot.Signed c.stages parts ∧ s.Merges parts) ∧
      ∀ k, c.stages = [k] → k.Signed s) ∧
    (∀ e, c.reconcile = .error e ↔
      ∃ before k after, c.stages = before ++ k :: after ∧ (∀ j ∈ before, j.CanJoin) ∧
        k.Offends before.length e) ∧
    ∀ later : Chain,
      ((∃ t, (c.append later.stages).reconcile = .ok t) ↔
        (∃ s, c.reconcile = .ok s) ∧ ∃ s', later.reconcile = .ok s') ∧
      ∀ s s', c.reconcile = .ok s → later.reconcile = .ok s' →
        (c.append later.stages).reconcile = .ok (.merge [s, s']) := by
  refine ⟨exists_reconcile_iff, fun s hs => ⟨merges_of_reconcile hs, fun k hk => ?_⟩,
    fun e => reconcile_eq_error_iff, fun later => ⟨?_, fun s s' hs hs' => ?_⟩⟩
  · exact reconcile_single hs hk
  · rw [exists_reconcile_iff, exists_reconcile_iff, exists_reconcile_iff]
    exact List.forall_mem_append
  · exact reconcile_append hs hs'

/-- The filter has a merged signature, and one with a kernel of two inputs and one with a context
behind it fails for the inputs. -/
theorem reconcile_spec_filter :
    (Samples.filter.reconcile = .ok ⟨0x3b⟩ ∧
      ∃ parts, List.Forall₂ KernelSlot.Signed Samples.filter.stages parts ∧
        KernelSignature.Merges ⟨0x3b⟩ parts) ∧
    (Samples.filter.append [⟨Samples.extra, 4⟩]).reconcile = .ok (.merge [⟨0x3b⟩, ⟨0x63⟩]) ∧
    (Samples.filter.append [⟨Samples.extra, 2⟩, ⟨Samples.extra, 3⟩]).reconcile =
      .error (.unsupportedInput 3 "extra" "pair" 2) := by
  have hfilter : Samples.filter.reconcile = .ok ⟨0x3b⟩ := by decide +kernel
  obtain ⟨hjoins, hmerged, -, hbehind⟩ := Samples.filter.reconcile_spec
  obtain ⟨-, -, hrefused, -⟩ :=
    (Samples.filter.append [⟨Samples.extra, 2⟩, ⟨Samples.extra, 3⟩]).reconcile_spec
  refine ⟨⟨hfilter, (hmerged _ hfilter).1⟩, ?_, ?_⟩
  · exact (hbehind ⟨[⟨Samples.extra, 4⟩], by simp⟩).2 _ _ hfilter (by decide +kernel)
  · refine (hrefused _).mpr ⟨Samples.filter.stages, ⟨Samples.extra, 2⟩, [⟨Samples.extra, 3⟩], rfl,
      hjoins.mp ⟨_, hfilter⟩, ?_⟩
    exact .inputs (d := ⟨"extra", 2, "pair", 2, ⟨0x23⟩⟩) (by decide +kernel) (by decide)

end Chain

end KernelFusion

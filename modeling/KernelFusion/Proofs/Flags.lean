import KernelFusion.Fusion.Reconcile

/-!
# Flags of signatures

A signature is a set of flags, one for each bit. Merging takes the union and may then drop the input
and the output, so the coordinates of a merged signature are those of all stages together.
-/

namespace KernelFusion.KernelSignature

/-- Whether a bit of the mask is set. -/
def bit (s : KernelSignature) (k : Nat) : Bool := s.bits.toBitVec.getLsbD k

/-- Having a flag is having its bit. -/
theorem has_of_bits {s flag : KernelSignature} {k : Nat} (hk : k < 32)
    (h : flag.bits.toBitVec = BitVec.twoPow 32 k) : s.has flag = s.bit k := by
  have hnonzero : BitVec.twoPow 32 k ≠ 0#32 := by
    intro hz
    have hbit := congrArg (·.getLsbD k) hz
    simp [hk] at hbit
  rw [has, bit, Bool.eq_iff_iff, beq_iff_eq, ← UInt32.toBitVec_inj, UInt32.toBitVec_and, h,
    BitVec.and_twoPow]
  cases s.bits.toBitVec.getLsbD k <;> simp [hnonzero.symm]

/-- A flag has no other bit than its own. -/
theorem bit_of_bits {flag : KernelSignature} {j k : Nat}
    (h : flag.bits.toBitVec = BitVec.twoPow 32 j) (hne : j ≠ k) : flag.bit k = false := by
  rw [bit, h, BitVec.getLsbD_twoPow]
  simp [hne]

theorem bit_union (s t : KernelSignature) (k : Nat) : (s.union t).bit k = (s.bit k || t.bit k) := by
  simp [bit, union]

theorem bit_without (s t : KernelSignature) {k : Nat} (hk : k < 32) :
    (s.without t).bit k = (s.bit k && !t.bit k) := by
  simp [bit, without, hk]

/-- Signatures with the same bits are equal. -/
theorem ext_bit {s t : KernelSignature} (h : ∀ k < 32, s.bit k = t.bit k) : s = t := by
  have hbits : s.bits.toBitVec = t.bits.toBitVec := BitVec.eq_of_getLsbD_eq h
  cases s
  cases t
  exact congrArg mk (UInt32.toBitVec_inj.mp hbits)

/-- The union of signatures has the bits of all of them. -/
theorem bit_foldl_union (l : List KernelSignature) (s : KernelSignature) (k : Nat) :
    (l.foldl union s).bit k = (s.bit k || l.any (·.bit k)) := by
  induction l generalizing s with
  | nil => simp
  | cons t rest ih => rw [List.foldl_cons, ih, bit_union, List.any_cons, Bool.or_assoc]

/-- The union of signatures has no other bits. -/
theorem bit_all (l : List KernelSignature) (k : Nat) :
    (l.foldl union empty).bit k = l.any (·.bit k) := by
  rw [bit_foldl_union]
  simp [bit, empty]

/-- Bits other than input and output are merged by union. -/
theorem bit_merge (l : List KernelSignature) {k : Nat} (hk : k < 32) (h0 : k ≠ 0) (h1 : k ≠ 1) :
    (merge l).bit k = l.any (·.bit k) := by
  have hin : KernelSignature.input.bit k = false := bit_of_bits (by decide) (Ne.symm h0)
  have hout : KernelSignature.output.bit k = false := bit_of_bits (by decide) (Ne.symm h1)
  unfold merge
  dsimp only
  split <;> split <;> simp [bit_without _ _ hk, bit_all, hin, hout]

theorem has_input (s : KernelSignature) : s.has .input = s.bit 0 :=
  has_of_bits (by decide) (by decide)

theorem has_output (s : KernelSignature) : s.has .output = s.bit 1 :=
  has_of_bits (by decide) (by decide)

/-- The input of a merged signature is that of the first part. -/
theorem has_input_merge (l : List KernelSignature) :
    (merge l).has .input = l.head?.any (·.has .input) := by
  have hin : KernelSignature.input.bit 0 = true := by decide
  have hout : KernelSignature.output.bit 0 = false := by decide
  have hall := bit_all l 0
  rw [has_input]
  unfold merge
  dsimp only
  cases l with
  | nil => simp [bit_without, hin, hout]
  | cons s rest => split <;> split <;> simp_all [bit_without, has_input]

/-- The output of a merged signature is that of the last part. -/
theorem has_output_merge (l : List KernelSignature) :
    (merge l).has .output = l.getLast?.any (·.has .output) := by
  have hin : KernelSignature.input.bit 1 = false := by decide
  have hout : KernelSignature.output.bit 1 = true := by decide
  have hall := bit_all l 1
  rw [has_output]
  unfold merge
  dsimp only
  cases hlast : l.getLast? with
  | none => simp [bit_without, hout]
  | some s =>
    have hs := List.mem_of_getLast? hlast
    have hany : s.bit 1 = true → l.any (·.bit 1) = true :=
      fun h => List.any_eq_true.mpr ⟨s, hs, h⟩
    split <;> split <;> simp_all [bit_without, has_output]

/-- Parts can be merged first. -/
theorem merge_cons_merge {l : List KernelSignature} (hne : l ≠ []) (l' : List KernelSignature) :
    merge (merge l :: l') = merge (l ++ l') := by
  refine ext_bit (fun k hk => ?_)
  by_cases h0 : k = 0
  · subst h0
    rw [← has_input, ← has_input, has_input_merge, has_input_merge, List.head?_append]
    cases l with
    | nil => exact absurd rfl hne
    | cons s rest => simp [has_input_merge]
  · by_cases h1 : k = 1
    · subst h1
      rw [← has_output, ← has_output, has_output_merge, has_output_merge, List.getLast?_cons,
        List.getLast?_append]
      cases l'.getLast? with
      | none => simp [has_output_merge]
      | some s => rfl
    · rw [bit_merge _ hk h0 h1, bit_merge _ hk h0 h1, List.any_cons, List.any_append,
        bit_merge _ hk h0 h1]

/-- A flag other than input and output is merged by union. -/
theorem has_merge (l : List KernelSignature) {flag : KernelSignature} {k : Nat} (hk : k < 32)
    (h0 : k ≠ 0) (h1 : k ≠ 1) (hflag : flag.bits.toBitVec = BitVec.twoPow 32 k) :
    (merge l).has flag = l.any (·.has flag) := by
  simp only [has_of_bits hk hflag]
  exact bit_merge l hk h0 h1

/-- A merged signature has a flag other than input and output if a part has it. -/
theorem has_merge_of_mem {l : List KernelSignature} {s flag : KernelSignature} {k : Nat}
    (hk : k < 32) (h0 : k ≠ 0) (h1 : k ≠ 1) (hflag : flag.bits.toBitVec = BitVec.twoPow 32 k)
    (hs : s ∈ l) (hhas : s.has flag = true) : (merge l).has flag = true := by
  rw [has_merge l hk h0 h1 hflag]
  exact List.any_eq_true.mpr ⟨s, hs, hhas⟩

/-- A flag among the coordinates is one of x, y and z. -/
theorem mem_coordinates {s flag : KernelSignature} :
    flag ∈ s.coordinates ↔ (flag = .x ∨ flag = .y ∨ flag = .z) ∧ s.has flag = true := by
  simp [coordinates, List.mem_filter]

/-- A merged signature has the coordinates of its parts. -/
theorem coordinates_merge {l : List KernelSignature} {s : KernelSignature} (hs : s ∈ l) :
    s.coordinates ⊆ (merge l).coordinates := by
  intro flag hflag
  rw [mem_coordinates] at hflag ⊢
  obtain ⟨hcases, hhas⟩ := hflag
  refine ⟨hcases, ?_⟩
  rcases hcases with rfl | rfl | rfl
  · exact has_merge_of_mem (k := 3) (by decide) (by decide) (by decide) (by decide) hs hhas
  · exact has_merge_of_mem (k := 4) (by decide) (by decide) (by decide) (by decide) hs hhas
  · exact has_merge_of_mem (k := 6) (by decide) (by decide) (by decide) (by decide) hs hhas

/-- A signature is empty if no bit is set. -/
theorem isEmpty_iff {s : KernelSignature} : s.isEmpty = true ↔ ∀ k < 32, s.bit k = false := by
  have hempty : ∀ k, KernelSignature.empty.bit k = false := fun k => by simp [bit, empty]
  constructor
  · intro h k _
    have hs : s = .empty := by
      cases s
      exact congrArg mk (by simpa [isEmpty] using h)
    rw [hs, hempty]
  · intro h
    rw [ext_bit (s := s) (t := .empty) (fun k hk => (h k hk).trans (hempty k).symm)]
    rfl

/-- A signature has no unexpected flags if all its bits are ones that a fusion allows. -/
theorem isEmpty_unexpected_iff {s : KernelSignature} :
    s.unexpected.isEmpty = true ↔ ∀ k < 32, fusible.bit k = false → s.bit k = false := by
  rw [isEmpty_iff]
  refine forall_congr' (fun k => forall_congr' (fun hk => ?_))
  rw [unexpected, bit_without _ _ hk]
  cases fusible.bit k <;> simp

/-- Merging adds no unexpected flags. -/
theorem isEmpty_unexpected_merge {l : List KernelSignature}
    (h : ∀ s ∈ l, s.unexpected.isEmpty = true) : (merge l).unexpected.isEmpty = true := by
  rw [isEmpty_unexpected_iff]
  intro k hk hnot
  have h0 : k ≠ 0 := by
    rintro rfl
    cases hnot
  have h1 : k ≠ 1 := by
    rintro rfl
    cases hnot
  rw [bit_merge l hk h0 h1, List.any_eq_false]
  intro s hs
  simpa using isEmpty_unexpected_iff.mp (h s hs) k hk hnot

/-- The number of inputs of a kernel that reads one input at most. -/
def inputs (s : KernelSignature) : Nat := if s.has .input then 1 else 0

/-- As a number of 32 bits it is the one that the tables have. -/
theorem toUInt32_inputs (s : KernelSignature) :
    s.inputs.toUInt32 = if s.has .input then 1 else 0 := by
  unfold inputs
  split <;> rfl

/-- The number of arguments of a kernel: its input if it reads one, and its coordinates. -/
def argumentCount (s : KernelSignature) : Nat := [input, x, y, z].countP s.has

theorem argumentCount_eq (s : KernelSignature) :
    s.argumentCount = s.inputs + s.coordinates.length := by
  rw [argumentCount, List.countP_cons, List.countP_eq_length_filter, Nat.add_comm]
  rfl

/-- A kernel of a fusion takes no context. -/
theorem has_context_of_unexpected {s : KernelSignature} (h : s.unexpected.isEmpty = true) :
    s.has .context = false := by
  rw [has_of_bits (k := 7) (by decide) (by decide)]
  exact isEmpty_unexpected_iff.mp h 7 (by decide) (by decide)

end KernelFusion.KernelSignature

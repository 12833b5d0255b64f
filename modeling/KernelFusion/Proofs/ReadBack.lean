import KernelFusion.Proofs.ExportTables
import KernelFusion.Proofs.Extraction

/-!
# Signatures read back

A token is read exactly if it is a numeral of a number of 32 bits, and the token that is written for
a signature is read as that signature, whatever its flags. So it is with whole tables: the slots of
kernels that were exported one after the other come behind the slots that were there before, with
the signatures that they were exported with. Whether they can be read depends on the entry points of
the kernels alone.
-/

namespace KernelFusion

namespace Module

/-- The module when it exports further kernels, one after the other. -/
def exportAll (m : Module) (kernels : List (String × KernelSignature)) : Module :=
  kernels.foldl (fun m kernel => m.exportForeach kernel.1 kernel.2) m

/-- A slot gives out the signature that a kernel was exported with, and how many inputs it has in
its module. -/
structure GivesOut (m : Module) (kernel : String × KernelSignature) (r : KernelSignature × UInt32) :
    Prop where
  /-- The signature is that of the kernel. -/
  signature : r.1 = kernel.2
  /-- The inputs are those of the kernel, whatever its slot is. -/
  inputs : ∀ slot, m.inputCount slot kernel.1 kernel.2 = .ok r.2

/-- Kernels that a module exports further are read back as they were exported. -/
structure ReadsBack (m : Module) (kernels : List (String × KernelSignature)) : Prop where
  /-- Extraction succeeds if it did before and the inputs of every kernel can be counted. -/
  readable : (Extractor.new (m.exportAll kernels)).extract.1 = .ok () ↔
    (Extractor.new m).extract.1 = .ok () ∧
      ∀ kernel ∈ kernels, ∃ n, ∀ slot, m.inputCount slot kernel.1 kernel.2 = .ok n
  /-- The names come behind those from before. -/
  names : (Extractor.new (m.exportAll kernels)).extract.1 = .ok () →
    (Extractor.new (m.exportAll kernels)).extract.2.names =
      (Extractor.new m).extract.2.names ++ kernels.map (·.1)
  /-- The signatures come behind those from before, none of them changed. -/
  signatures : (Extractor.new (m.exportAll kernels)).extract.1 = .ok () →
    (Extractor.new (m.exportAll kernels)).extract.2.signatures =
      (Extractor.new m).extract.2.signatures ++ kernels.map (·.2)

end Module

namespace Extractor

variable {m : Module}

/-- Extraction succeeds if the tables can be read. -/
theorem extract_fst_eq_ok_iff :
    (Extractor.new m).extract.1 = .ok () ↔ ∃ tables, m.exports = .ok tables := by
  rw [extract, new]
  rcases m.exports with e | tables <;> simp

/-- What is extracted are the tables that are read. -/
theorem extract_snd_of_exports {tables : Exports} (h : m.exports = .ok tables) :
    (Extractor.new m).extract.2 = ⟨m, tables⟩ := by
  rw [extract, new, h]

end Extractor

namespace Module

section Exports

variable {m : Module} {kernels : List (String × KernelSignature)}

/-- Exporting kernels appends their names and their tokens. -/
theorem records_exportAll (m : Module) (kernels : List (String × KernelSignature)) :
    (m.exportAll kernels).records foreachNameTable =
        m.records foreachNameTable ++ kernels.map (·.1) ∧
      (m.exportAll kernels).records foreachTable =
        m.records foreachTable ++ kernels.map (·.2.token) ∧
      (m.exportAll kernels).records invokableTable = m.records invokableTable := by
  induction kernels generalizing m with
  | nil => simp [exportAll]
  | cons kernel rest ih =>
    obtain ⟨hnames, htokens, hinvokable⟩ := m.records_exportForeach kernel.1 kernel.2
    obtain ⟨hnames', htokens', hinvokable'⟩ := ih (m.exportForeach kernel.1 kernel.2)
    rw [hnames, List.append_assoc] at hnames'
    rw [htokens, List.append_assoc] at htokens'
    exact ⟨hnames', htokens', hinvokable'.trans hinvokable⟩

/-- What is read from the name and the token of a slot is a matter of the functions. -/
theorem foreachSlot_exportAll (m : Module) (kernels : List (String × KernelSignature)) :
    (m.exportAll kernels).foreachSlot = m.foreachSlot := by
  induction kernels generalizing m with
  | nil => rfl
  | cons kernel rest ih => exact ih (m.exportForeach kernel.1 kernel.2)

/-- A slot with the token of a kernel is read as what the kernel was exported with. -/
theorem foreachSlot_token_eq_ok_iff {kernel : String × KernelSignature}
    {r : KernelSignature × UInt32} :
    (∀ slot, m.foreachSlot slot kernel.1 kernel.2.token = .ok r) ↔ m.GivesOut kernel r := by
  have hread (slot : Nat) : m.foreachSlot slot kernel.1 kernel.2.token =
      (m.inputCount slot kernel.1 kernel.2).map (kernel.2, ·) := by
    rw [foreachSlot, KernelSignature.ofToken?_token]
  simp only [hread]
  constructor
  · intro h
    have hfirst := h 0
    cases hn : m.inputCount 0 kernel.1 kernel.2 with
    | error e =>
      rw [hn] at hfirst
      cases hfirst
    | ok n =>
      rw [hn] at hfirst
      cases hfirst
      exact ⟨rfl, inputCount_of_eq_ok hn⟩
  · rintro ⟨hsignature, hinputs⟩ slot
    rw [hinputs slot, ← hsignature]
    rfl

/-- The tables of a module that exports further kernels are read if they were read before and every
kernel is given out by a slot. -/
theorem exports_exportAll_eq_ok_iff {tables : Exports} :
    (m.exportAll kernels).exports = .ok tables ↔ ∃ before rows, m.exports = .ok before ∧
      List.Forall₂ m.GivesOut kernels rows ∧
      tables = ⟨before.names ++ kernels.map (·.1), before.signatures ++ rows.map (·.1),
        before.inputs ++ rows.map (·.2), before.invokable⟩ := by
  obtain ⟨hnames, htokens, hinvokable⟩ := m.records_exportAll kernels
  simp only [exports_eq_ok_iff, slots, hnames, htokens, hinvokable, List.length_append,
    List.length_map, Nat.add_right_cancel_iff, foreachSlot_exportAll]
  constructor
  · rintro ⟨hlength, all, hall, rfl⟩
    rw [List.zip_append hlength, List.zip_map', forall₂_append_left_iff] at hall
    obtain ⟨earlier, rows, hearlier, hrows, rfl⟩ := hall
    simp only [List.forall₂_map_left_iff, foreachSlot_token_eq_ok_iff] at hrows
    exact ⟨_, rows, ⟨hlength, earlier, hearlier, rfl⟩, hrows, by simp only [List.map_append]⟩
  · rintro ⟨before, rows, ⟨hlength, earlier, hearlier, rfl⟩, hrows, rfl⟩
    refine ⟨hlength, earlier ++ rows, ?_, by simp only [List.map_append]⟩
    rw [List.zip_append hlength, List.zip_map', forall₂_append_left_iff]
    refine ⟨earlier, rows, hearlier, ?_, rfl⟩
    simpa only [List.forall₂_map_left_iff, foreachSlot_token_eq_ok_iff] using hrows

/-- The slots of kernels have their signatures. -/
theorem map_fst_of_givesOut {rows : List (KernelSignature × UInt32)}
    (h : List.Forall₂ m.GivesOut kernels rows) : rows.map (·.1) = kernels.map (·.2) := by
  induction h with
  | nil => rfl
  | cons hrow _ ih => rw [List.map_cons, List.map_cons, hrow.signature, ih]

/-- The inputs of all kernels can be counted if there are slots that give them out. -/
theorem exists_givesOut_iff : (∃ rows, List.Forall₂ m.GivesOut kernels rows) ↔
    ∀ kernel ∈ kernels, ∃ n, ∀ slot, m.inputCount slot kernel.1 kernel.2 = .ok n := by
  have hkernel (kernel : String × KernelSignature) : (∃ r, m.GivesOut kernel r) ↔
      ∃ n, ∀ slot, m.inputCount slot kernel.1 kernel.2 = .ok n :=
    ⟨fun ⟨r, hr⟩ => ⟨r.2, hr.inputs⟩, fun ⟨n, hn⟩ => ⟨(kernel.2, n), rfl, hn⟩⟩
  simp only [exists_forall₂_iff, hkernel]

/-- Kernels that a module exports further are read back: their slots come behind those that were
there, and they can be read if their inputs can be counted. -/
theorem readsBack (m : Module) (kernels : List (String × KernelSignature)) :
    m.ReadsBack kernels := by
  have hcolumns (hok : (Extractor.new (m.exportAll kernels)).extract.1 = .ok ()) :
      (Extractor.new (m.exportAll kernels)).extract.2.names =
          (Extractor.new m).extract.2.names ++ kernels.map (·.1) ∧
        (Extractor.new (m.exportAll kernels)).extract.2.signatures =
          (Extractor.new m).extract.2.signatures ++ kernels.map (·.2) := by
    obtain ⟨tables, htables⟩ := Extractor.extract_fst_eq_ok_iff.mp hok
    obtain ⟨before, rows, hbefore, hrows, rfl⟩ := exports_exportAll_eq_ok_iff.mp htables
    rw [Extractor.extract_snd_of_exports htables, Extractor.extract_snd_of_exports hbefore]
    exact ⟨rfl, congrArg (before.signatures ++ ·) (map_fst_of_givesOut hrows)⟩
  refine ⟨?_, fun hok => (hcolumns hok).1, fun hok => (hcolumns hok).2⟩
  rw [Extractor.extract_fst_eq_ok_iff, Extractor.extract_fst_eq_ok_iff, ← exists_givesOut_iff]
  simp only [exports_exportAll_eq_ok_iff]
  constructor
  · rintro ⟨tables, before, rows, hbefore, hrows, -⟩
    exact ⟨⟨before, hbefore⟩, rows, hrows⟩
  · rintro ⟨⟨before, hbefore⟩, rows, hrows⟩
    exact ⟨_, before, rows, hbefore, hrows, rfl⟩

end Exports

end Module

/-- Signature tokens are exact. A token is read with the number that it is a numeral of if that has
32 bits, and otherwise not at all; the token that is written for a signature, whatever its flags, is
read as the signature; and so kernels that a module exports are read back with their signatures. -/
theorem KernelSignature.tokens_exact :
    (∀ token n, (ofToken? token).map (·.bits.toNat) = some n ↔
      Text.Numeral n token ∧ n < 2 ^ 32) ∧
    (∀ token, ofToken? token = none ↔ ∀ n, Text.Numeral n token → 2 ^ 32 ≤ n) ∧
    (∀ s : KernelSignature, ofToken? s.token = some s) ∧
    ∀ (m : Module) (kernels : List (String × KernelSignature)), m.ReadsBack kernels :=
  ⟨fun _ _ => map_bits_ofToken?_eq_some_iff, fun _ => ofToken?_eq_none_iff, ofToken?_token,
    Module.readsBack⟩

/-- Two slots whose signatures have all flags, without the kernel style and with it. -/
def Samples.flagged : List (String × KernelSignature) := [("old", ⟨0xffffffdf⟩), ("", ⟨0xffffffff⟩)]

/-- The greatest mask may stand behind zeros and between blanks of any kind, and one more is too
much. Signatures with flags that have no name are read back behind those of the first sample module.
-/
theorem KernelSignature.tokens_exact_extremes :
    Text.Numeral 4294967295 "\u3000+0004294967295\n" ∧
    (∀ n, Text.Numeral n "\u30000004294967296" → 2 ^ 32 ≤ n) ∧
    (Extractor.new (Samples.image.exportAll Samples.flagged)).extract.1 = .ok () ∧
    (Extractor.new (Samples.image.exportAll Samples.flagged)).extract.2.signatures =
      (Extractor.new Samples.image).extract.2.signatures ++ [⟨0xffffffdf⟩, ⟨0xffffffff⟩] := by
  have hread : (ofToken? "\u3000+0004294967295\n").map (·.bits.toNat) = some 4294967295 := by
    decide
  have hnone : ofToken? "\u30000004294967296" = none := by decide
  have hok : (Extractor.new (Samples.image.exportAll Samples.flagged)).extract.1 = .ok () := by
    decide +kernel
  obtain ⟨hsome, hnever, -, hback⟩ := tokens_exact
  exact ⟨((hsome _ _).mp hread).1, (hnever _).mp hnone, hok, (hback _ _).signatures hok⟩

end KernelFusion

import KernelFusion.Export.Extractor
import KernelFusion.Fusion.Chain
import KernelFusion.Proofs.Lists
import KernelFusion.Proofs.Store
import KernelFusion.Proofs.Tokens
import KernelFusion.Samples

/-!
# What extraction reads

The export tables of a module can be read exactly if the two tables of kernels are equally long,
every signature is a token, and every kernel of the kernel style has an entry point with a parameter
for each of its coordinates and its context. Then all columns are as long as the tables and agree
with them slot by slot. Otherwise nothing is read at all, and the error is that of the first slot
that cannot be read.
-/

namespace KernelFusion

/-- The number of parameters of a kernel that are not inputs: one for every coordinate and one for
the context. -/
def KernelSignature.special (s : KernelSignature) : Nat := [x, y, z, context].countP s.has

namespace Module

/-- The function that a name stands for: the one with the lowest number of all that have it. -/
structure FirstNamed (m : Module) (name : String) (f : Function) : Prop where
  /-- The function is stored under its number. -/
  stored : m.function? f.id = some f
  /-- It has the name. -/
  named : f.name = name
  /-- No function with the name has a lower number. -/
  lowest : ∀ id g, m.function? id = some g → g.name = name → f.id ≤ id

/-- The number of inputs of a kernel slot. -/
inductive Counts (m : Module) (name : String) (s : KernelSignature) : UInt32 → Prop where
  /-- An unused slot reads nothing. -/
  | unused (unnamed : name = "") : Counts m name s 0
  /-- A kernel of the old style reads what its signature says. -/
  | legacy (named : name ≠ "") (style : s.has .kernel = false) :
    Counts m name s (if s.has .input then 1 else 0)
  /-- A kernel reads the parameters that are left. -/
  | kernel {f : Function} (named : name ≠ "") (style : s.has .kernel = true)
    (entry : m.FirstNamed name f) (enough : s.special ≤ f.prototype.params.length) :
    Counts m name s (f.prototype.params.length - s.special).toUInt32

/-- What is read from the name and the token of a slot: a signature and a number of inputs. -/
structure SlotReads (m : Module) (name token : String) (r : KernelSignature × UInt32) : Prop where
  /-- The token is one of the signature. -/
  valid : r.1.IsToken token
  /-- The inputs are those of the signature. -/
  counted : m.Counts name r.1 r.2

/-- Why a slot cannot be read. The token comes before the entry point, and this before its
parameters. -/
inductive SlotFault (m : Module) (slot : Nat) (name token : String) : ExportError → Prop where
  /-- The token is none of a signature. -/
  | invalidSignature (invalid : ∀ s : KernelSignature, ¬s.IsToken token) :
    SlotFault m slot name token (.invalidSignature m.name slot token)
  /-- No function has the name of the kernel. -/
  | missingKernel {s : KernelSignature} (valid : s.IsToken token) (named : name ≠ "")
    (style : s.has .kernel = true) (missing : ∀ id f, m.function? id = some f → f.name ≠ name) :
    SlotFault m slot name token (.missingKernel m.name name)
  /-- The entry point has too few parameters. -/
  | malformedKernel {s : KernelSignature} {f : Function} (valid : s.IsToken token)
    (named : name ≠ "") (style : s.has .kernel = true) (entry : m.FirstNamed name f)
    (few : f.prototype.params.length < s.special) :
    SlotFault m slot name token
      (.malformedKernel m.name slot name f.prototype.params.length s.special)

/-- The kernel slots of a module: names and tokens side by side. -/
def slots (m : Module) : List (String × String) :=
  (m.records foreachNameTable).zip (m.records foreachTable)

/-- The export tables of a module can be read. -/
structure Extractable (m : Module) : Prop where
  /-- There are as many names as signatures. -/
  lengths : (m.records foreachNameTable).length = (m.records foreachTable).length
  /-- Every signature is a token. -/
  tokens : ∀ token ∈ m.records foreachTable, ∃ s : KernelSignature, s.IsToken token
  /-- Every named kernel of the kernel style has an entry point with enough parameters. -/
  kernels : ∀ name token, (name, token) ∈ m.slots → ∀ s : KernelSignature, s.IsToken token →
    name ≠ "" → s.has .kernel = true →
    ∃ f, m.FirstNamed name f ∧ s.special ≤ f.prototype.params.length

/-- Why export tables cannot be read. -/
inductive ExtractionFault (m : Module) : ExportError → Prop where
  /-- There are not as many names as signatures. -/
  | lengths (differ : (m.records foreachNameTable).length ≠ (m.records foreachTable).length) :
    ExtractionFault m (.lengthMismatch m.name (m.records foreachNameTable).length
      (m.records foreachTable).length)
  /-- A slot cannot be read, and all slots before it can. -/
  | slot {before after : List (String × String)} {p : String × String} {e : ExportError}
    (lengths : (m.records foreachNameTable).length = (m.records foreachTable).length)
    (slots : m.slots = before ++ p :: after) (fault : m.SlotFault before.length p.1 p.2 e)
    (sound : ∀ q ∈ before, ∃ r, m.SlotReads q.1 q.2 r) : ExtractionFault m e

end Module

/-- The columns of an extractor are those of the tables of a module. -/
structure Extractor.Columns (x : Extractor) (m : Module) : Prop where
  /-- The names are those of the table. -/
  names : x.names = m.records foreachNameTable
  /-- There is a signature for each of them. -/
  signatures : x.signatures.length = (m.records foreachNameTable).length
  /-- There is a number of inputs for each of them. -/
  inputs : x.inputs.length = (m.records foreachNameTable).length
  /-- Signatures and numbers are those of the names and tokens in their slots. -/
  agree : ∀ (slot : Nat) name token s n, (m.records foreachNameTable)[slot]? = some name →
    (m.records foreachTable)[slot]? = some token → x.signatures[slot]? = some s →
    x.inputs[slot]? = some n → s.IsToken token ∧ m.Counts name s n
  /-- The names of invokable functions are those of the table. -/
  invokable : x.invokable = m.records invokableTable

namespace Module

variable {m : Module} {name token : String} {s : KernelSignature}

theorem Numbered.idOf?_firstNamed (h : m.Numbered) {f : Function} :
    (∃ id, m.idOf? name = some id ∧ m.function? id = some f) ↔ m.FirstNamed name f := by
  constructor
  · rintro ⟨id, hid, hf⟩
    obtain ⟨⟨g, hg, hname⟩, hleast⟩ := h.idOf?_eq_some_iff.mp hid
    cases hf.symm.trans hg
    cases h id f hf
    exact ⟨hf, hname, hleast⟩
  · exact fun hf => ⟨f.id, h.idOf?_eq_some_iff.mpr ⟨⟨f, hf.stored, hf.named⟩, hf.lowest⟩, hf.stored⟩

end Module

theorem KernelSignature.special_eq (s : KernelSignature) :
    s.coordinates.length + (if s.has .context then 1 else 0) = s.special := by
  rw [special, coordinates, ← List.countP_eq_length_filter]
  simp only [List.countP_cons, List.countP_nil]
  omega

namespace Module

section Slots

variable {m : Module} {name token : String} {s : KernelSignature}

/-- Neither whether inputs can be counted nor how many they are depends on the slot. -/
theorem inputCount_of_eq_ok {slot : Nat} {n : UInt32} (hn : m.inputCount slot name s = .ok n)
    (other : Nat) : m.inputCount other name s = .ok n := by
  grind [inputCount]

/-- A slot that is read is read alike at any other place. -/
theorem foreachSlot_of_eq_ok {slot : Nat} {r : KernelSignature × UInt32}
    (hr : m.foreachSlot slot name token = .ok r) (other : Nat) :
    m.foreachSlot other name token = .ok r := by
  unfold foreachSlot at hr ⊢
  cases hs : KernelSignature.ofToken? token with
  | none =>
    rw [hs] at hr
    cases hr
  | some s =>
    rw [hs] at hr
    dsimp only at hr ⊢
    cases hn : m.inputCount slot name s with
    | error e =>
      rw [hn] at hr
      cases hr
    | ok n => rwa [inputCount_of_eq_ok hn other, ← hn]

/-- Columns are read if each slot is, and they hold what is read there. -/
theorem foreachColumns_eq_ok_iff {l : List (String × String)} (slot : Nat)
    {columns : List KernelSignature × List UInt32} :
    m.foreachColumns slot l = .ok columns ↔ ∃ rows,
      List.Forall₂ (fun p r => ∀ other, m.foreachSlot other p.1 p.2 = .ok r) l rows ∧
        columns = (rows.map (·.1), rows.map (·.2)) := by
  induction l generalizing slot columns with
  | nil => simp [foreachColumns, eq_comm]
  | cons p rest ih =>
    have hhead (r : KernelSignature × UInt32) :
        (∀ other, m.foreachSlot other p.1 p.2 = .ok r) ↔ m.foreachSlot slot p.1 p.2 = .ok r :=
      ⟨fun hr => hr slot, foreachSlot_of_eq_ok⟩
    simp only [foreachColumns_cons_eq_ok_iff, ih, List.forall₂_cons_left_iff, hhead]
    constructor
    · rintro ⟨r, later, hr, ⟨rows, hrows, rfl⟩, rfl⟩
      exact ⟨r :: rows, ⟨r, rows, hr, hrows, rfl⟩, rfl⟩
    · rintro ⟨_, ⟨r, rows, hr, hrows, rfl⟩, rfl⟩
      exact ⟨r, _, hr, ⟨rows, hrows, rfl⟩, rfl⟩

/-- A slot can be read if its token is one of a signature and its entry point, if it needs one, has
enough parameters. -/
theorem exists_slotReads_iff (name token : String) :
    (∃ r, m.SlotReads name token r) ↔ (∃ s : KernelSignature, s.IsToken token) ∧
      ∀ s : KernelSignature, s.IsToken token → name ≠ "" → s.has .kernel = true →
        ∃ f, m.FirstNamed name f ∧ s.special ≤ f.prototype.params.length := by
  constructor
  · rintro ⟨⟨s, n⟩, hvalid, hcounts⟩
    change m.Counts name s n at hcounts
    refine ⟨⟨s, hvalid⟩, fun s' hvalid' hname hstyle => ?_⟩
    cases hvalid.unique hvalid'
    cases hcounts with
    | unused unnamed => exact absurd unnamed hname
    | legacy named style => cases style.symm.trans hstyle
    | kernel named style entry enough => exact ⟨_, entry, enough⟩
  · rintro ⟨⟨s, hvalid⟩, hkernel⟩
    by_cases hname : name = ""
    · exact ⟨(s, 0), hvalid, .unused hname⟩
    · cases hstyle : s.has .kernel with
      | false => exact ⟨(s, _), hvalid, .legacy hname hstyle⟩
      | true =>
        obtain ⟨f, hentry, henough⟩ := hkernel s hvalid hname hstyle
        exact ⟨(s, _), hvalid, .kernel hname hstyle hentry henough⟩

variable (h : m.Numbered)

include h

/-- Of a kernel of the kernel style the parameters of its entry point are counted. -/
theorem Numbered.inputCount_kernel {f : Function} (hname : name ≠ "")
    (hstyle : s.has .kernel = true) (hf : m.FirstNamed name f) (slot : Nat) :
    m.inputCount slot name s =
      if s.special ≤ f.prototype.params.length then
        .ok (f.prototype.params.length - s.special).toUInt32
      else .error (.malformedKernel m.name slot name f.prototype.params.length s.special) := by
  obtain ⟨id, hid, hstored⟩ := h.idOf?_firstNamed.mpr hf
  simp [inputCount, hname, hstyle, hid, hstored, KernelSignature.special_eq]

theorem Counts.inputCount_eq {n : UInt32} (hcounts : m.Counts name s n) (slot : Nat) :
    m.inputCount slot name s = .ok n := by
  cases hcounts with
  | unused unnamed => rw [inputCount, if_pos unnamed]
  | legacy named style => simp [inputCount, named, style]
  | kernel named style entry enough => rw [h.inputCount_kernel named style entry, if_pos enough]

/-- A slot that can be read is read. -/
theorem SlotReads.foreachSlot_eq {r : KernelSignature × UInt32}
    (hreads : m.SlotReads name token r) (slot : Nat) :
    m.foreachSlot slot name token = .ok r := by
  obtain ⟨hvalid, hcounts⟩ := hreads
  rw [foreachSlot, KernelSignature.ofToken?_eq_some_iff.mpr hvalid]
  simp only [hcounts.inputCount_eq h slot]
  rfl

/-- A slot that cannot be read is an error. -/
theorem SlotFault.foreachSlot_eq {slot : Nat} {e : ExportError}
    (hfault : m.SlotFault slot name token e) : m.foreachSlot slot name token = .error e := by
  unfold foreachSlot
  cases hfault with
  | invalidSignature invalid =>
    have hnone : KernelSignature.ofToken? token = none := Option.eq_none_iff_forall_ne_some.mpr
      (fun s hs => invalid s (KernelSignature.ofToken?_eq_some_iff.mp hs))
    rw [hnone]
  | missingKernel valid named style missing =>
    have hcount := idOf?_eq_none_iff.mpr missing
    simp [KernelSignature.ofToken?_eq_some_iff.mpr valid, inputCount, named, style, hcount,
      Except.map]
  | malformedKernel valid named style entry few =>
    rw [KernelSignature.ofToken?_eq_some_iff.mpr valid]
    simp only [h.inputCount_kernel named style entry slot, if_neg (Nat.not_le.mpr few)]
    rfl

/-- There is a reading of every slot or a reason why there is none. -/
theorem Numbered.reads_or_fault (slot : Nat) (name token : String) :
    (∃ r, m.SlotReads name token r) ∨ ∃ e, m.SlotFault slot name token e := by
  refine or_iff_not_imp_left.mpr (fun hnone => ?_)
  rw [exists_slotReads_iff] at hnone
  by_cases hvalid : ∃ s : KernelSignature, s.IsToken token
  · -- With a token of a signature, it is the entry point that is missing or too short.
    obtain ⟨s, hs⟩ := not_forall.mp (not_and.mp hnone hvalid)
    simp only [Classical.not_imp, not_exists, not_and, Nat.not_le] at hs
    obtain ⟨hvalid, hname, hstyle, hfew⟩ := hs
    cases hid : m.idOf? name with
    | none => exact ⟨_, .missingKernel hvalid hname hstyle (idOf?_eq_none_iff.mp hid)⟩
    | some id =>
      obtain ⟨⟨f, hf, -⟩, -⟩ := h.idOf?_eq_some_iff.mp hid
      have hentry := h.idOf?_firstNamed.mp ⟨id, hid, hf⟩
      exact ⟨_, .malformedKernel hvalid hname hstyle hentry (hfew f hentry)⟩
  · exact ⟨_, .invalidSignature (not_exists.mp hvalid)⟩

/-- Exactly the readings of a slot are read. -/
theorem Numbered.foreachSlot_eq_ok_iff (slot : Nat) {r : KernelSignature × UInt32} :
    m.foreachSlot slot name token = .ok r ↔ m.SlotReads name token r := by
  refine ⟨fun hok => ?_, fun hreads => hreads.foreachSlot_eq h slot⟩
  rcases h.reads_or_fault slot name token with ⟨r', hreads⟩ | ⟨e, hfault⟩
  · cases (hreads.foreachSlot_eq h slot).symm.trans hok
    exact hreads
  · cases (hfault.foreachSlot_eq h).symm.trans hok

/-- Exactly the reasons why a slot cannot be read are errors. -/
theorem Numbered.foreachSlot_eq_error_iff {slot : Nat} {e : ExportError} :
    m.foreachSlot slot name token = .error e ↔ m.SlotFault slot name token e := by
  refine ⟨fun herror => ?_, fun hfault => hfault.foreachSlot_eq h⟩
  rcases h.reads_or_fault slot name token with ⟨r, hreads⟩ | ⟨e', hfault⟩
  · cases (hreads.foreachSlot_eq h slot).symm.trans herror
  · cases (hfault.foreachSlot_eq h).symm.trans herror
    exact hfault

/-- The error of reading columns is that of the first slot that cannot be read. -/
theorem Numbered.foreachColumns_eq_error_iff {l : List (String × String)} (slot : Nat)
    {e : ExportError} :
    m.foreachColumns slot l = .error e ↔ ∃ before p after, l = before ++ p :: after ∧
      m.SlotFault (slot + before.length) p.1 p.2 e ∧ ∀ q ∈ before, ∃ r, m.SlotReads q.1 q.2 r := by
  induction l generalizing slot with
  | nil => simp [foreachColumns]
  | cons p rest ih =>
    -- The first slot decides, or it can be read and the others decide.
    have hstep : m.foreachColumns slot (p :: rest) = .error e ↔ m.SlotFault slot p.1 p.2 e ∨
        (∃ r, m.SlotReads p.1 p.2 r) ∧ m.foreachColumns (slot + 1) rest = .error e := by
      simp only [← h.foreachSlot_eq_error_iff, ← h.foreachSlot_eq_ok_iff slot]
      rw [foreachColumns]
      rcases m.foreachSlot slot p.1 p.2 with e' | r
      · simp
      · rcases m.foreachColumns (slot + 1) rest with e' | later <;> simp [Except.map]
    simp only [hstep, ih, exists_split_cons, List.length_nil, Nat.add_zero, List.length_cons,
      Nat.add_assoc, Nat.add_comm 1, List.forall_mem_cons, List.not_mem_nil, false_implies,
      implies_true, and_true]
    refine or_congr_right ⟨?_, ?_⟩
    · rintro ⟨hreads, before, q, after, hl, hfault, hsound⟩
      exact ⟨before, q, after, hl, hfault, hreads, hsound⟩
    · rintro ⟨before, q, after, hl, hfault, hreads, hsound⟩
      exact ⟨hreads, before, q, after, hl, hfault, hsound⟩

end Slots

section Tables

variable {m : Module}

/-- Tables can be read if they are equally long and each slot can be read. -/
theorem extractable_iff :
    m.Extractable ↔ (m.records foreachNameTable).length = (m.records foreachTable).length ∧
      ∀ p ∈ m.slots, ∃ r, m.SlotReads p.1 p.2 r := by
  simp only [exists_slotReads_iff]
  constructor
  · intro hx
    exact ⟨hx.lengths, fun p hp =>
      ⟨hx.tokens p.2 (List.of_mem_zip hp).2, hx.kernels p.1 p.2 hp⟩⟩
  · rintro ⟨hlength, hslots⟩
    refine ⟨hlength, fun token htoken => ?_, fun name token hp => (hslots _ hp).2⟩
    -- With equal lengths every token stands beside a name.
    have hcolumn : m.slots.map Prod.snd = m.records foreachTable :=
      List.map_snd_zip (Nat.le_of_eq hlength.symm)
    obtain ⟨p, hp, rfl⟩ := List.mem_map.mp (hcolumn ▸ htoken)
    exact (hslots p hp).1

/-- Tables are read if they are equally long and each slot is read. -/
theorem exports_eq_ok_iff {tables : Exports} :
    m.exports = .ok tables ↔
      (m.records foreachNameTable).length = (m.records foreachTable).length ∧ ∃ rows,
        List.Forall₂ (fun p r => ∀ slot, m.foreachSlot slot p.1 p.2 = .ok r) m.slots rows ∧
        tables = ⟨m.records foreachNameTable, rows.map (·.1), rows.map (·.2),
          m.records invokableTable⟩ := by
  rw [exports_eq_ok_iff_columns, ← slots]
  simp only [foreachColumns_eq_ok_iff]
  constructor
  · rintro ⟨hlength, columns, ⟨rows, hrows, rfl⟩, rfl⟩
    exact ⟨hlength, rows, hrows, rfl⟩
  · rintro ⟨hlength, rows, hrows, rfl⟩
    exact ⟨hlength, _, ⟨rows, hrows, rfl⟩, rfl⟩

variable (h : m.Numbered)

include h

/-- Tables are read if they are equally long and each slot can be read. -/
theorem Numbered.exports_eq_ok_iff {tables : Exports} :
    m.exports = .ok tables ↔
      (m.records foreachNameTable).length = (m.records foreachTable).length ∧ ∃ rows,
        List.Forall₂ (fun p r => m.SlotReads p.1 p.2 r) m.slots rows ∧
        tables = ⟨m.records foreachNameTable, rows.map (·.1), rows.map (·.2),
          m.records invokableTable⟩ := by
  simp only [Module.exports_eq_ok_iff, h.foreachSlot_eq_ok_iff, forall_const]

/-- The error of reading tables says why they cannot be read. -/
theorem Numbered.exports_eq_error_iff {e : ExportError} :
    m.exports = .error e ↔ m.ExtractionFault e := by
  unfold exports
  by_cases hlength : (m.records foreachNameTable).length = (m.records foreachTable).length
  · simp only [hlength, if_true]
    rw [← slots]
    have hmap (g : List KernelSignature × List UInt32 → Exports) :
        (m.foreachColumns 0 m.slots).map g = .error e ↔
          m.foreachColumns 0 m.slots = .error e := by
      rcases m.foreachColumns 0 m.slots with e | columns <;> simp [Except.map]
    rw [hmap, h.foreachColumns_eq_error_iff]
    constructor
    · rintro ⟨before, p, after, hslots, hfault, hsound⟩
      exact .slot hlength hslots (by rwa [Nat.zero_add] at hfault) hsound
    · rintro (hdiffer | ⟨-, hslots, hfault, hsound⟩)
      · exact absurd hlength hdiffer
      · exact ⟨_, _, _, hslots, by rwa [Nat.zero_add], hsound⟩
  · simp only [hlength, if_false]
    constructor
    · rintro ⟨⟩
      exact .lengths hlength
    · rintro (- | ⟨heq, -, -, -⟩)
      · rfl
      · exact absurd heq hlength

/-- Tables are read exactly if they can be. -/
theorem Numbered.exists_exports_iff : (∃ tables, m.exports = .ok tables) ↔ m.Extractable := by
  rw [extractable_iff, ← exists_forall₂_iff]
  simp only [h.exports_eq_ok_iff]
  constructor
  · rintro ⟨tables, hlength, rows, hrows, -⟩
    exact ⟨hlength, rows, hrows⟩
  · rintro ⟨hlength, rows, hrows⟩
    exact ⟨_, hlength, rows, hrows, rfl⟩

end Tables

end Module

/-- What was read are the columns of the tables. -/
theorem Extractor.columns_of_exports {m : Module} (h : m.Numbered) {tables : Exports}
    (hok : m.exports = .ok tables) : (⟨m, tables⟩ : Extractor).Columns m := by
  obtain ⟨hlength, rows, hrows, rfl⟩ := h.exports_eq_ok_iff.mp hok
  obtain ⟨hsignatures, hinputs⟩ := Module.length_exports hok
  refine ⟨rfl, hsignatures, hinputs, fun slot name token s n hname htoken hs hn => ?_, rfl⟩
  obtain ⟨r, hr, rfl⟩ := Option.map_eq_some_iff.mp (List.getElem?_map.symm.trans hs)
  obtain ⟨r', hr', rfl⟩ := Option.map_eq_some_iff.mp (List.getElem?_map.symm.trans hn)
  cases hr.symm.trans hr'
  have hslot : m.slots[slot]? = some (name, token) :=
    List.getElem?_zip_eq_some.mpr ⟨hname, htoken⟩
  have hpair : (m.slots.zip rows)[slot]? = some ((name, token), r) :=
    List.getElem?_zip_eq_some.mpr ⟨hslot, hr⟩
  have hreads := List.forall₂_zip hrows (List.mem_of_getElem? hpair)
  exact ⟨hreads.valid, hreads.counted⟩

/-- A descriptor gives what stands at a position in the columns of an extractor. -/
structure KernelDescriptor.Describes (d : KernelDescriptor) (x : Extractor) (position : Nat) :
    Prop where
  /-- The module is that of the extractor. -/
  module : d.module = x.module.name
  /-- The slot is the position. -/
  slot : d.slot = position
  /-- The name stands there. -/
  name : x.names[position]? = some d.name
  /-- The number of inputs stands there. -/
  inputs : x.inputs[position]? = some d.inputs
  /-- The signature stands there. -/
  signature : x.signatures[position]? = some d.signature

section Extraction

variable {m : Module} {answer : Except ExportError Unit} {x : Extractor} {tables : Exports}
  {slot : Nat}

/-- Extraction gives what reading the tables gives. -/
theorem Extractor.extract_cases (hx : (Extractor.new m).extract = (answer, x)) :
    (∃ tables, m.exports = .ok tables ∧ answer = .ok () ∧ x = ⟨m, tables⟩) ∨
      ∃ e, m.exports = .error e ∧ answer = .error e ∧ x = Extractor.new m := by
  unfold extract at hx
  have hmodule : (Extractor.new m).module = m := rfl
  rw [hmodule] at hx
  rcases hm : m.exports with e | tables
  · rw [hm] at hx
    cases hx
    exact Or.inr ⟨e, rfl, rfl, rfl⟩
  · rw [hm] at hx
    cases hx
    exact Or.inl ⟨tables, rfl, rfl, rfl⟩

/-- A slot is described by what stands in the columns that were read. -/
theorem KernelSlot.describe_eq_ok_iff_describes (hm : m.exports = .ok tables)
    {d : KernelDescriptor} :
    (⟨m, slot⟩ : KernelSlot).describe = .ok d ↔ d.Describes ⟨m, tables⟩ slot := by
  rw [describe_eq_ok_iff hm]
  exact ⟨fun ⟨hmodule, hslot, hname, hinputs, hsignature⟩ =>
      ⟨hmodule, hslot, hname, hinputs, hsignature⟩,
    fun h => ⟨h.module, h.slot, h.name, h.inputs, h.signature⟩⟩

/-- Extraction is exact and all or nothing. It succeeds exactly if the tables can be read, and then
the columns are those of the tables. Otherwise it fails with a reason why they cannot be read, and
there are no columns. A slot is described, by what stands in all columns, exactly if extraction
succeeds and the slot is one of the table; else the error is that of extraction or says that there
is no such slot. -/
theorem Module.extraction_exact (h : m.Numbered) (hx : (Extractor.new m).extract = (answer, x)) :
    (answer = .ok () ↔ m.Extractable) ∧
    (answer = .ok () → x.Columns m) ∧
    (∀ e, answer = .error e ↔ m.ExtractionFault e) ∧
    (∀ e, answer = .error e →
      x.names = [] ∧ x.signatures = [] ∧ x.inputs = [] ∧ x.invokable = []) ∧
    ∀ slot, ((∃ d, (⟨m, slot⟩ : KernelSlot).describe = .ok d) ↔
        answer = .ok () ∧ slot < (m.records foreachNameTable).length) ∧
      (∀ d, (⟨m, slot⟩ : KernelSlot).describe = .ok d ↔ answer = .ok () ∧ d.Describes x slot) ∧
      ∀ e, (⟨m, slot⟩ : KernelSlot).describe = .error e ↔ answer = .error e ∨
        answer = .ok () ∧ (m.records foreachNameTable).length ≤ slot ∧
          e = .slotOutOfRange m.name .foreach slot (m.records foreachNameTable).length := by
  rw [← h.exists_exports_iff]
  simp only [← h.exports_eq_error_iff]
  rcases Extractor.extract_cases hx with ⟨tables, hm, rfl, rfl⟩ | ⟨e, hm, rfl, rfl⟩
  · have hcolumns := Extractor.columns_of_exports h hm
    have hlength : tables.names.length = (m.records foreachNameTable).length :=
      congrArg List.length hcolumns.names
    refine ⟨by simp [hm], fun _ => hcolumns, by simp [hm], by simp, fun slot => ⟨?_, ?_, ?_⟩⟩
    · rcases hd : (⟨m, slot⟩ : KernelSlot).describe with e | d
      · obtain ⟨hle, -⟩ := (KernelSlot.describe_eq_error_iff hm).mp hd
        simp [← hlength, hle]
      · refine iff_of_true ⟨d, rfl⟩ ⟨rfl, Nat.lt_of_not_le (fun hle => ?_)⟩
        cases hd.symm.trans ((KernelSlot.describe_eq_error_iff hm).mpr ⟨hlength ▸ hle, rfl⟩)
    · intro d
      rw [KernelSlot.describe_eq_ok_iff_describes hm]
      simp
    · intro e
      rw [KernelSlot.describe_eq_error_iff hm, hlength]
      simp
  · have hdescribe (slot : Nat) : (⟨m, slot⟩ : KernelSlot).describe = .error e :=
      KernelSlot.describe_of_error hm
    refine ⟨by simp [hm], by simp, by simp [hm], fun _ _ => ⟨rfl, rfl, rfl, rfl⟩, fun slot => ?_⟩
    simp [hdescribe]

end Extraction

/-- The first sample module with a kernel that it does not have. -/
def Samples.orphaned : Module := image.exportForeach "ghost" .kernel

/-- The tables of the first sample module can be read, and they have four slots. With a slot for a
kernel that is missing no slot can be read. -/
theorem extraction_exact_image :
    (∃ x, (Extractor.new Samples.image).extract = (.ok (), x) ∧ Samples.image.Extractable ∧
      x.Columns Samples.image ∧ x.names = ["scale_x", "offset", "bias_y", ""] ∧
      x.inputs = [1, 1, 1, 0] ∧ (∃ d, (⟨Samples.image, 3⟩ : KernelSlot).describe = .ok d) ∧
      (⟨Samples.image, 4⟩ : KernelSlot).describe =
        .error (.slotOutOfRange "image" .foreach 4 4)) ∧
    ∃ x, (Extractor.new Samples.orphaned).extract = (.error (.missingKernel "image" "ghost"), x) ∧
      Samples.orphaned.ExtractionFault (.missingKernel "image" "ghost") ∧ x.names = [] ∧
      (⟨Samples.orphaned, 0⟩ : KernelSlot).describe =
        .error (.missingKernel "image" "ghost") := by
  have himage : Samples.image.WellFormed := by decide +kernel
  have horphaned : Samples.orphaned.WellFormed := by decide +kernel
  have hread : (Extractor.new Samples.image).extract.1 = .ok () := by decide +kernel
  have hmissing : (Extractor.new Samples.orphaned).extract.1 =
      .error (.missingKernel "image" "ghost") := by decide +kernel
  constructor
  · obtain ⟨hok, hcolumns, -, -, hslots⟩ :=
      Module.extraction_exact himage.numbered (Prod.ext hread rfl)
    refine ⟨_, Prod.ext hread rfl, hok.mp rfl, hcolumns rfl, by decide +kernel, by decide +kernel,
      (hslots 3).1.mpr ⟨rfl, by decide +kernel⟩, ?_⟩
    exact ((hslots 4).2.2 _).mpr (Or.inr ⟨rfl, by decide +kernel, by decide +kernel⟩)
  · obtain ⟨-, -, hfault, hnothing, hslots⟩ :=
      Module.extraction_exact horphaned.numbered (Prod.ext hmissing rfl)
    exact ⟨_, Prod.ext hmissing rfl, (hfault _).mp rfl, (hnothing _ rfl).1,
      ((hslots 0).2.2 _).mpr (Or.inl rfl)⟩

end KernelFusion

import KernelFusion.IR.Link
import KernelFusion.Proofs.Maps

/-!
# Well-formed modules and materialization

A module is well formed when its functions and pending bodies stand under their own numbers and
every pending body belongs to a declaration of its name. Such a module can be forced: all pending
bodies are moved over their declarations. Materializing a name moves one of them, so it changes
neither the symbols nor the forced module, and what a name stands for can be read off the forced
module.
-/

namespace KernelFusion.Module

/-- Functions stand under their own numbers. -/
def Numbered (m : Module) : Prop := ∀ id f, m.function? id = some f → f.id = id

/-- The numbers in a module are consistent, and pending bodies belong to declarations. -/
structure WellFormed (m : Module) : Prop where
  /-- A function stands under its own number. -/
  function_id : ∀ {id : FunctionId} {f : Function}, m.function? id = some f → f.id = id
  /-- A pending body stands under its own number. -/
  pending_id : ∀ {id : FunctionId} {f : Function}, m.pending.get? id = some f → f.id = id
  /-- All numbers in use are below the next one. -/
  id_lt : ∀ {id : FunctionId} {f : Function}, m.function? id = some f → id < m.nextFunction
  /-- A pending body has a declaration of its name under its number. -/
  declared : ∀ {id : FunctionId} {body : Function}, m.pending.get? id = some body →
    ∃ f, m.function? id = some f ∧ f.isDeclaration = true ∧ f.name = body.name

/-- Being well formed is a matter of the entries. -/
theorem wellFormed_iff {m : Module} :
    m.WellFormed ↔
      (∀ e ∈ m.functions.entries, e.2.id = e.1 ∧ e.1 < m.nextFunction) ∧
        ∀ e ∈ m.pending.entries, e.2.id = e.1 ∧
          (m.function? e.1).any (fun f => f.isDeclaration && f.name == e.2.name) = true := by
  constructor
  · intro h
    refine ⟨fun e he => ?_, fun e he => ?_⟩
    · have hf := IdMap.mem_entries_iff.mp he
      exact ⟨h.function_id hf, h.id_lt hf⟩
    · have hb := IdMap.mem_entries_iff.mp he
      obtain ⟨f, hf, hdeclaration, hname⟩ := h.declared hb
      exact ⟨h.pending_id hb, by simp [hf, hdeclaration, hname]⟩
  · rintro ⟨hfunctions, hpending⟩
    refine ⟨fun hf => ?_, fun hb => ?_, fun hf => ?_, fun hb => ?_⟩
    · exact (hfunctions _ (IdMap.mem_entries_iff.mpr hf)).1
    · exact (hpending _ (IdMap.mem_entries_iff.mpr hb)).1
    · exact (hfunctions _ (IdMap.mem_entries_iff.mpr hf)).2
    · have hany := (hpending _ (IdMap.mem_entries_iff.mpr hb)).2
      simpa [Option.any_eq_true] using hany

instance (m : Module) : Decidable m.WellFormed := decidable_of_iff _ wellFormed_iff.symm

/-- The function under a number with its body, pending or not. -/
def whole? (m : Module) (id : FunctionId) : Option Function :=
  (m.function? id).map (m.fullFunction id)

/-- The module with every pending body moved over its declaration. -/
def force (m : Module) : Module :=
  { m with functions := m.functions.mapValues m.fullFunction, pending := .empty }

/-- The names of the functions by number. -/
def symbols (m : Module) : IdMap String := m.functions.mapValues (fun _ f => f.name)

/-- Materialize names one after the other. -/
def materializeAll (m : Module) (names : List String) : Module := names.foldl materialize m

/-- Modules with the same lookups, tables and counters are equal. -/
theorem ext_lookup {a b : Module} (hname : a.name = b.name) (htables : a.tables = b.tables)
    (hnext : a.nextFunction = b.nextFunction) (hf : ∀ id, a.function? id = b.function? id)
    (hp : ∀ id, a.pending.get? id = b.pending.get? id) : a = b := by
  have hfun : a.functions = b.functions := IdMap.ext_get? hf
  have hpend : a.pending = b.pending := IdMap.ext_get? hp
  cases a
  cases b
  simp_all

section Lookup

variable {m : Module} {id : FunctionId} {name : String}

@[simp] theorem function?_force : m.force.function? id = m.whole? id :=
  IdMap.get?_mapValues _ _ _

@[simp] theorem pending_force : m.force.pending.get? id = none := rfl

/-- Without a pending body the stored function is whole. -/
theorem whole?_of_pending_none (h : m.pending.get? id = none) : m.whole? id = m.function? id := by
  cases hf : m.function? id <;> simp [whole?, fullFunction, hf, h]

/-- The whole function is made of what is stored and what is pending under its number. -/
theorem whole?_congr {a b : Module} (hf : a.function? id = b.function? id)
    (hp : a.pending.get? id = b.pending.get? id) : a.whole? id = b.whole? id := by
  unfold whole?
  rw [hf]
  cases b.function? id <;> simp [fullFunction, hp]

theorem whole?_of_force_eq {a b : Module} (h : a.force = b.force) (id : FunctionId) :
    a.whole? id = b.whole? id := by
  rw [← function?_force, h, function?_force]

/-- Where no function is there is no pending body either. -/
theorem WellFormed.pending_of_none (h : m.WellFormed) (hnone : m.function? id = none) :
    m.pending.get? id = none := by
  cases hp : m.pending.get? id with
  | none => rfl
  | some body =>
    obtain ⟨g, hg, -⟩ := h.declared hp
    cases hg.symm.trans hnone

/-- A function with a body has none pending. -/
theorem WellFormed.pending_of_body (h : m.WellFormed) {f : Function} (hf : m.function? id = some f)
    (hbody : f.isDeclaration = false) : m.pending.get? id = none := by
  cases hp : m.pending.get? id with
  | none => rfl
  | some body =>
    obtain ⟨g, hg, hdeclaration, -⟩ := h.declared hp
    cases hf.symm.trans hg
    cases hbody.symm.trans hdeclaration

/-- A body that is stored is whole. -/
theorem WellFormed.whole?_of_function? (h : m.WellFormed) {f : Function}
    (hf : m.function? id = some f) (hbody : f.isDeclaration = false) : m.whole? id = some f := by
  rw [whole?_of_pending_none (h.pending_of_body hf hbody), hf]

/-- A pending body completes its declaration. -/
theorem WellFormed.whole?_of_pending (h : m.WellFormed) {body : Function}
    (hb : m.pending.get? id = some body) : m.whole? id = some body := by
  obtain ⟨f, hf, -, -⟩ := h.declared hb
  simp [whole?, fullFunction, hf, hb]

/-- Whole functions are the pending bodies and the stored functions without one. -/
theorem WellFormed.whole?_cases (h : m.WellFormed) {f : Function} (hf : m.whole? id = some f) :
    m.pending.get? id = some f ∨ (m.pending.get? id = none ∧ m.function? id = some f) := by
  cases hp : m.pending.get? id with
  | none => exact Or.inr ⟨rfl, whole?_of_pending_none hp ▸ hf⟩
  | some body => exact Or.inl ((h.whole?_of_pending hp).symm.trans hf)

theorem WellFormed.whole?_id (h : m.WellFormed) {f : Function} (hf : m.whole? id = some f) :
    f.id = id := by
  rcases h.whole?_cases hf with hp | ⟨-, hs⟩
  · exact h.pending_id hp
  · exact h.function_id hs

/-- A body has the name of its declaration. -/
theorem WellFormed.whole?_name (h : m.WellFormed) :
    (m.whole? id).map (·.name) = (m.function? id).map (·.name) := by
  cases hp : m.pending.get? id with
  | none => rw [whole?_of_pending_none hp]
  | some body =>
    obtain ⟨f, hf, -, hn⟩ := h.declared hp
    rw [h.whole?_of_pending hp, hf]
    simp [hn]

theorem isSome_whole? : (m.whole? id).isSome = (m.function? id).isSome := by
  simp [whole?]

@[simp] theorem get?_symbols : m.symbols.get? id = (m.function? id).map (·.name) :=
  IdMap.get?_mapValues _ _ _

theorem WellFormed.numbered (h : m.WellFormed) : m.Numbered := fun _ _ hf => h.function_id hf

/-- The number of a name is the first in the list of symbols. -/
theorem Numbered.idOf?_eq (h : m.Numbered) (name : String) :
    m.idOf? name = (m.symbols.entries.find? (fun e => e.2 == name)).map (·.1) := by
  have hid : ∀ e ∈ m.functions.entries, e.2.id = e.1 :=
    fun e he => h e.1 e.2 (IdMap.mem_entries_iff.mp he)
  simp only [idOf?, symbols, IdMap.values, IdMap.entries_mapValues, List.find?_map, Option.map_map,
    Function.comp_def]
  cases hfind : m.functions.entries.find? (fun e => e.2.name == name) with
  | none => rfl
  | some e => simp [hid e (List.mem_of_find?_eq_some hfind)]

/-- Modules with the same symbols give a name the same number. -/
theorem WellFormed.idOf?_congr {a b : Module} (ha : a.WellFormed) (hb : b.WellFormed)
    (h : a.symbols = b.symbols) (name : String) : a.idOf? name = b.idOf? name := by
  rw [ha.numbered.idOf?_eq, hb.numbered.idOf?_eq, h]

theorem WellFormed.of_idOf? (h : m.WellFormed) (hid : m.idOf? name = some id) :
    ∃ f, m.function? id = some f ∧ f.name = name := by
  obtain ⟨f, hfind, rfl⟩ := Option.map_eq_some_iff.mp hid
  obtain ⟨key, hkey⟩ := IdMap.mem_values_iff.mp (List.mem_of_find?_eq_some hfind)
  have hname := List.find?_some hfind
  exact ⟨f, (h.function_id hkey).symm ▸ hkey, by simpa using hname⟩

theorem WellFormed.idOf?_lt (h : m.WellFormed) (hid : m.idOf? name = some id) :
    id < m.nextFunction := by
  obtain ⟨f, hf, -⟩ := h.of_idOf? hid
  exact h.id_lt hf

/-- A number stands for one name. -/
theorem WellFormed.idOf?_inj (h : m.WellFormed) {other : String} (hid : m.idOf? name = some id)
    (hother : m.idOf? other = some id) : name = other := by
  obtain ⟨f, hf, rfl⟩ := h.of_idOf? hid
  obtain ⟨g, hg, rfl⟩ := h.of_idOf? hother
  cases hf.symm.trans hg
  rfl

/-- Numbers from the next one on are free. -/
theorem WellFormed.function?_of_le (h : m.WellFormed) (hle : m.nextFunction ≤ id) :
    m.function? id = none := by
  cases hf : m.function? id with
  | none => rfl
  | some f => exact absurd hle (UInt32.not_le.mpr (h.id_lt hf))

/-- A name stands for the lowest number that has it. -/
theorem Numbered.idOf?_eq_some_iff (h : m.Numbered) :
    m.idOf? name = some id ↔ (∃ f, m.function? id = some f ∧ f.name = name) ∧
      ∀ j g, m.function? j = some g → g.name = name → id ≤ j := by
  rw [h.idOf?_eq, Option.map_eq_some_iff]
  constructor
  · rintro ⟨⟨k, n⟩, hfind, rfl⟩
    obtain ⟨hn, htest, hleast⟩ := IdMap.find?_entries_eq_some_iff.mp hfind
    rw [get?_symbols] at hn
    obtain ⟨f, hf, rfl⟩ := Option.map_eq_some_iff.mp hn
    refine ⟨⟨f, hf, by simpa using htest⟩, fun j g hg hname => ?_⟩
    exact hleast j g.name (by rw [get?_symbols, hg]; rfl) (by simpa using hname)
  · rintro ⟨⟨f, hf, hname⟩, hleast⟩
    refine ⟨(id, f.name), IdMap.find?_entries_eq_some_iff.mpr ⟨?_, by simpa using hname, ?_⟩, rfl⟩
    · rw [get?_symbols, hf]
      rfl
    · intro k n hn htest
      rw [get?_symbols] at hn
      obtain ⟨g, hg, rfl⟩ := Option.map_eq_some_iff.mp hn
      exact hleast k g hg (by simpa using htest)

theorem WellFormed.idOf?_eq_some_iff (h : m.WellFormed) :
    m.idOf? name = some id ↔ (∃ f, m.function? id = some f ∧ f.name = name) ∧
      ∀ j g, m.function? j = some g → g.name = name → id ≤ j :=
  h.numbered.idOf?_eq_some_iff

theorem idOf?_eq_none_iff :
    m.idOf? name = none ↔ ∀ id f, m.function? id = some f → f.name ≠ name := by
  simp only [idOf?, Option.map_eq_none_iff, List.find?_eq_none, IdMap.mem_values_iff]
  constructor
  · intro h id f hf
    simpa using h f ⟨id, hf⟩
  · rintro h f ⟨id, hf⟩
    simpa using h id f hf

/-- A name without a pending body can be called. -/
theorem WellFormed.callable?_of_idOf? (h : m.WellFormed) (hid : m.idOf? name = some id)
    (hp : m.pending.get? id = none) : m.callable? name = m.function? id := by
  obtain ⟨f, hfind, rfl⟩ := Option.map_eq_some_iff.mp hid
  obtain ⟨hname, before, after, hl, hbefore⟩ := List.find?_eq_some_iff_append.mp hfind
  obtain ⟨g, hg, -⟩ := h.of_idOf? hid
  have hfg : m.function? f.id = some f := by
    obtain ⟨key, hkey⟩ := IdMap.mem_values_iff.mp (List.mem_of_find?_eq_some hfind)
    exact (h.function_id hkey).symm ▸ hkey
  rw [hfg]
  refine List.find?_eq_some_iff_append.mpr ⟨?_, before, after, hl, fun g hg => ?_⟩
  · simp [hname, IdMap.contains_eq_false_iff.mpr hp]
  · have := hbefore g hg
    simp_all

theorem callable?_of_idOf?_none (hid : m.idOf? name = none) : m.callable? name = none := by
  refine List.find?_eq_none.mpr (fun f hf => ?_)
  obtain ⟨key, hkey⟩ := IdMap.mem_values_iff.mp hf
  simp [idOf?_eq_none_iff.mp hid key f hkey]

end Lookup

end KernelFusion.Module

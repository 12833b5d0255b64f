import KernelFusion.Proofs.Store

/-!
# Materializing names

Materializing a list of names moves exactly the pending bodies of those names over their
declarations. The order and the number of times do not matter, and what a name stands for in the end
is what it stands for in the forced module. The relation `MovedOnly` says that nothing else
happened.
-/

namespace KernelFusion.Module

/-- `left` is `m` after some pending bodies were moved over their declarations, each under a number
that `allowed` accepts. -/
structure MovedOnly (allowed : FunctionId → Prop) (m left : Module) : Prop where
  /-- The name of the module is kept. -/
  name : left.name = m.name
  /-- No function number is taken. -/
  nextFunction : left.nextFunction = m.nextFunction
  /-- The string tables are kept. -/
  tables : left.tables = m.tables
  /-- The same numbers and names are in use. -/
  symbols : left.symbols = m.symbols
  /-- A number keeps its function and its pending body, or the body replaces the declaration. -/
  moved : ∀ id,
    (left.function? id = m.function? id ∧ left.pending.get? id = m.pending.get? id) ∨
    (allowed id ∧ ∃ body, m.pending.get? id = some body ∧ left.function? id = some body ∧
      left.pending.get? id = none)

variable {m : Module} {name : String} {names : List String} {id : FunctionId}

/-- A name without a number has nothing to materialize. -/
theorem materialize_of_none (hid : m.idOf? name = none) : m.materialize name = m := by
  simp only [materialize, hid]

/-- A name without a pending body has nothing to materialize. -/
theorem materialize_of_pending_none (hid : m.idOf? name = some id)
    (hp : m.pending.get? id = none) : m.materialize name = m := by
  simp only [materialize, hid, hp]

/-- A pending body takes the place of its declaration. -/
theorem materialize_of_pending {body : Function} (hid : m.idOf? name = some id)
    (hp : m.pending.get? id = some body) :
    m.materialize name =
      { m with functions := m.functions.insert id body, pending := m.pending.erase id } := by
  simp only [materialize, hid, hp]

/-- Name, tables and counter are kept. -/
theorem materialize_frame (m : Module) (name : String) :
    (m.materialize name).name = m.name ∧ (m.materialize name).tables = m.tables ∧
      (m.materialize name).nextFunction = m.nextFunction := by
  unfold materialize
  split
  · exact ⟨rfl, rfl, rfl⟩
  · split <;> exact ⟨rfl, rfl, rfl⟩

/-- The name has no pending body afterwards; all others keep theirs. -/
theorem pending_materialize (m : Module) (name : String) (id : FunctionId) :
    (m.materialize name).pending.get? id =
      if m.idOf? name = some id then none else m.pending.get? id := by
  cases hid : m.idOf? name with
  | none => simp [materialize_of_none hid]
  | some i =>
    cases hp : m.pending.get? i with
    | none =>
      rw [materialize_of_pending_none hid hp]
      by_cases h : i = id
      · simp [h, h ▸ hp]
      · simp [h]
    | some body => simp [materialize_of_pending hid hp, IdMap.get?_erase]

/-- The name stands for the whole function afterwards; all others keep their functions. -/
theorem WellFormed.function?_materialize (h : m.WellFormed) (name : String) (id : FunctionId) :
    (m.materialize name).function? id =
      if m.idOf? name = some id then m.whole? id else m.function? id := by
  cases hid : m.idOf? name with
  | none => simp [materialize_of_none hid]
  | some i =>
    cases hp : m.pending.get? i with
    | none =>
      rw [materialize_of_pending_none hid hp]
      by_cases hi : i = id
      · simp [← hi, whole?_of_pending_none hp]
      · simp [hi]
    | some body =>
      rw [materialize_of_pending hid hp, function?, IdMap.get?_insert]
      by_cases hi : i = id
      · simp [← hi, h.whole?_of_pending hp]
      · simp [hi, function?]

/-- A number has the same name before and after. -/
theorem WellFormed.symbols_materialize (h : m.WellFormed) (name : String) :
    (m.materialize name).symbols = m.symbols := by
  refine IdMap.ext_get? (fun id => ?_)
  rw [get?_symbols, get?_symbols, h.function?_materialize]
  split
  · exact h.whole?_name
  · rfl

theorem WellFormed.materialize (h : m.WellFormed) (name : String) :
    (m.materialize name).WellFormed where
  function_id := by
    intro id f hf
    rw [h.function?_materialize] at hf
    split at hf
    · exact h.whole?_id hf
    · exact h.function_id hf
  pending_id := by
    intro id f hf
    rw [pending_materialize] at hf
    split at hf
    · cases hf
    · exact h.pending_id hf
  id_lt := by
    intro id f hf
    rw [(materialize_frame m name).2.2]
    have hs : (m.function? id).isSome = true := by
      rw [h.function?_materialize] at hf
      split at hf
      · rw [← isSome_whole?, hf]
        rfl
      · rw [hf]
        rfl
    obtain ⟨g, hg⟩ := Option.isSome_iff_exists.mp hs
    exact h.id_lt hg
  declared := by
    intro id body hb
    rw [pending_materialize] at hb
    split at hb
    next => cases hb
    next hne =>
      obtain ⟨f, hf, hd⟩ := h.declared hb
      exact ⟨f, by rw [h.function?_materialize, if_neg hne]; exact hf, hd⟩

/-- Materializing does not change the forced module. -/
theorem WellFormed.force_materialize (h : m.WellFormed) (name : String) :
    (m.materialize name).force = m.force := by
  obtain ⟨hname, htables, hnext⟩ := materialize_frame m name
  refine ext_lookup hname htables hnext (fun id => ?_) (fun _ => rfl)
  rw [function?_force, function?_force]
  by_cases hid : m.idOf? name = some id
  · have hp : (m.materialize name).pending.get? id = none := by rw [pending_materialize, if_pos hid]
    rw [whole?_of_pending_none hp, h.function?_materialize, if_pos hid]
  · refine whole?_congr ?_ ?_
    · rw [h.function?_materialize, if_neg hid]
    · rw [pending_materialize, if_neg hid]

theorem WellFormed.force (h : m.WellFormed) : m.force.WellFormed where
  function_id hf := h.whole?_id (function?_force ▸ hf)
  pending_id hp := by cases hp
  id_lt := by
    intro id f hf
    have hs : (m.function? id).isSome = true := by
      rw [← isSome_whole?, ← function?_force, hf]
      rfl
    obtain ⟨g, hg⟩ := Option.isSome_iff_exists.mp hs
    exact h.id_lt hg
  declared hp := by cases hp

/-- Forcing keeps the symbols. -/
theorem WellFormed.symbols_force (h : m.WellFormed) : m.force.symbols = m.symbols := by
  refine IdMap.ext_get? (fun id => ?_)
  rw [get?_symbols, get?_symbols, function?_force, h.whole?_name]

theorem WellFormed.idOf?_force (h : m.WellFormed) (name : String) :
    m.force.idOf? name = m.idOf? name :=
  h.force.idOf?_congr h h.symbols_force name

/-- Nothing is left to be moved in a forced module. -/
theorem materialize_force (m : Module) (name : String) : m.force.materialize name = m.force := by
  unfold Module.materialize
  cases m.force.idOf? name <;> rfl

@[simp] theorem force_force (m : Module) : m.force.force = m.force := by
  refine ext_lookup rfl rfl rfl (fun id => ?_) (fun _ => rfl)
  rw [function?_force, whole?_of_pending_none pending_force]

/-- A materialized name can be called, and stands for the same function as in the forced module. -/
theorem WellFormed.callable?_materialize (h : m.WellFormed) (name : String) :
    (m.materialize name).callable? name = m.force.callable? name := by
  have hid : (m.materialize name).idOf? name = m.idOf? name :=
    (h.materialize name).idOf?_congr h (h.symbols_materialize name) name
  cases hm : m.idOf? name with
  | none =>
    rw [callable?_of_idOf?_none (hid.trans hm),
      callable?_of_idOf?_none ((h.idOf?_force name).trans hm)]
  | some i =>
    have hp : (m.materialize name).pending.get? i = none := by rw [pending_materialize, if_pos hm]
    rw [(h.materialize name).callable?_of_idOf? (hid.trans hm) hp,
      h.force.callable?_of_idOf? ((h.idOf?_force name).trans hm) pending_force,
      h.function?_materialize, if_pos hm, function?_force]

/-- What a name stands for in the forced module is the whole function under its number. -/
theorem WellFormed.of_callable?_force (h : m.WellFormed) {f : Function}
    (hf : m.force.callable? name = some f) : m.idOf? name = some f.id ∧ m.whole? f.id = some f := by
  cases hid : m.idOf? name with
  | none =>
    rw [callable?_of_idOf?_none ((h.idOf?_force name).trans hid)] at hf
    cases hf
  | some id =>
    rw [h.force.callable?_of_idOf? ((h.idOf?_force name).trans hid) pending_force,
      function?_force] at hf
    rw [h.whole?_id hf]
    exact ⟨rfl, hf⟩

/-- In the forced module a name stands for the whole function under its number. -/
theorem WellFormed.callable?_force_iff (h : m.WellFormed) {f : Function} :
    m.force.callable? name = some f ↔ m.idOf? name = some f.id ∧ m.whole? f.id = some f := by
  constructor
  · exact h.of_callable?_force
  · rintro ⟨hid, hf⟩
    rw [h.force.callable?_of_idOf? ((h.idOf?_force name).trans hid) pending_force, function?_force,
      hf]

section All

@[simp] theorem materializeAll_nil (m : Module) : m.materializeAll [] = m := rfl

theorem materializeAll_cons (m : Module) (name : String) (names : List String) :
    m.materializeAll (name :: names) = (m.materialize name).materializeAll names := rfl

theorem materializeAll_append (m : Module) (names later : List String) :
    m.materializeAll (names ++ later) = (m.materializeAll names).materializeAll later :=
  List.foldl_append

theorem WellFormed.materializeAll (h : m.WellFormed) (names : List String) :
    (m.materializeAll names).WellFormed := by
  induction names generalizing m with
  | nil => exact h
  | cons n rest ih => exact ih (h.materialize n)

theorem WellFormed.force_materializeAll (h : m.WellFormed) (names : List String) :
    (m.materializeAll names).force = m.force := by
  induction names generalizing m with
  | nil => rfl
  | cons n rest ih => exact (ih (h.materialize n)).trans (h.force_materialize n)

theorem WellFormed.symbols_materializeAll (h : m.WellFormed) (names : List String) :
    (m.materializeAll names).symbols = m.symbols := by
  induction names generalizing m with
  | nil => rfl
  | cons n rest ih => exact (ih (h.materialize n)).trans (h.symbols_materialize n)

theorem WellFormed.idOf?_materialize (h : m.WellFormed) (name other : String) :
    (m.materialize name).idOf? other = m.idOf? other :=
  (h.materialize name).idOf?_congr h (h.symbols_materialize name) other

theorem materializeAll_force (m : Module) (names : List String) :
    m.force.materializeAll names = m.force := by
  induction names with
  | nil => rfl
  | cons n rest ih => exact (congrArg (materializeAll · rest) (materialize_force m n)).trans ih

theorem materializeAll_frame (m : Module) (names : List String) :
    (m.materializeAll names).name = m.name ∧ (m.materializeAll names).tables = m.tables ∧
      (m.materializeAll names).nextFunction = m.nextFunction := by
  induction names generalizing m with
  | nil => exact ⟨rfl, rfl, rfl⟩
  | cons n rest ih =>
    obtain ⟨hname, htables, hnext⟩ := ih (m.materialize n)
    obtain ⟨hname', htables', hnext'⟩ := materialize_frame m n
    exact ⟨hname.trans hname', htables.trans htables', hnext.trans hnext'⟩

/-- The named functions have no pending body afterwards; all others keep theirs. -/
theorem WellFormed.pending_materializeAll (h : m.WellFormed) (names : List String)
    (id : FunctionId) :
    (m.materializeAll names).pending.get? id =
      if ∃ n ∈ names, m.idOf? n = some id then none else m.pending.get? id := by
  induction names generalizing m with
  | nil => simp
  | cons n rest ih =>
    have hstep := ih (h.materialize n)
    simp only [h.idOf?_materialize, pending_materialize] at hstep
    rw [materializeAll_cons, hstep]
    by_cases hn : m.idOf? n = some id <;> simp [hn]

/-- A named function is whole afterwards. -/
theorem WellFormed.function?_materializeAll (h : m.WellFormed)
    (hid : ∃ n ∈ names, m.idOf? n = some id) :
    (m.materializeAll names).function? id = m.whole? id := by
  have hp : (m.materializeAll names).pending.get? id = none := by
    rw [h.pending_materializeAll, if_pos hid]
  rw [← whole?_of_pending_none hp, ← function?_force, h.force_materializeAll, function?_force]

/-- All others are stored as before. -/
theorem WellFormed.function?_materializeAll_kept (h : m.WellFormed)
    (hid : ¬ ∃ n ∈ names, m.idOf? n = some id) :
    (m.materializeAll names).function? id = m.function? id := by
  induction names generalizing m with
  | nil => rfl
  | cons n rest ih =>
    have hn : m.idOf? n ≠ some id := fun he => hid ⟨n, List.mem_cons_self, he⟩
    have hrest : ¬ ∃ n' ∈ rest, (m.materialize n).idOf? n' = some id := by
      rintro ⟨n', hmem, he⟩
      exact hid ⟨n', List.mem_cons_of_mem _ hmem, h.idOf?_materialize n n' ▸ he⟩
    rw [materializeAll_cons, ih (h.materialize n) hrest, h.function?_materialize, if_neg hn]

/-- So the named functions are whole afterwards, and all others are stored as before. -/
theorem WellFormed.function?_materializeAll_eq (h : m.WellFormed) (names : List String)
    (id : FunctionId) :
    (m.materializeAll names).function? id =
      if ∃ n ∈ names, m.idOf? n = some id then m.whole? id else m.function? id := by
  split
  next hid => exact h.function?_materializeAll hid
  next hid => exact h.function?_materializeAll_kept hid

/-- Only which names are materialized matters. -/
theorem WellFormed.materializeAll_congr (h : m.WellFormed) {names more : List String}
    (hnames : ∀ n, n ∈ names ↔ n ∈ more) : m.materializeAll names = m.materializeAll more := by
  obtain ⟨hname, htables, hnext⟩ := materializeAll_frame m names
  obtain ⟨hname', htables', hnext'⟩ := materializeAll_frame m more
  refine ext_lookup (hname.trans hname'.symm) (htables.trans htables'.symm)
    (hnext.trans hnext'.symm) (fun id => ?_) (fun id => ?_)
  · simp only [h.function?_materializeAll_eq, hnames]
  · simp only [h.pending_materializeAll, hnames]

/-- Materializing the same names again changes nothing. -/
theorem WellFormed.materializeAll_again (h : m.WellFormed) (names : List String) :
    (m.materializeAll names).materializeAll names = m.materializeAll names := by
  rw [← materializeAll_append]
  exact h.materializeAll_congr (by simp)

/-- The order in which names are materialized does not matter. -/
theorem WellFormed.materializeAll_comm (h : m.WellFormed) (names more : List String) :
    (m.materializeAll names).materializeAll more =
      (m.materializeAll more).materializeAll names := by
  rw [← materializeAll_append, ← materializeAll_append]
  exact h.materializeAll_congr (by simp [or_comm])

/-- Materializing names moves pending bodies of these names and nothing else. -/
theorem WellFormed.movedOnly_materializeAll (h : m.WellFormed) (names : List String) :
    MovedOnly (fun id => ∃ n ∈ names, m.idOf? n = some id) m (m.materializeAll names) where
  name := (materializeAll_frame m names).1
  tables := (materializeAll_frame m names).2.1
  nextFunction := (materializeAll_frame m names).2.2
  symbols := h.symbols_materializeAll names
  moved id := by
    rw [h.pending_materializeAll]
    by_cases hnamed : ∃ n ∈ names, m.idOf? n = some id
    · rw [if_pos hnamed, h.function?_materializeAll hnamed]
      cases hp : m.pending.get? id with
      | none => exact Or.inl ⟨whole?_of_pending_none hp, rfl⟩
      | some body => exact Or.inr ⟨hnamed, body, rfl, h.whole?_of_pending hp, rfl⟩
    · rw [if_neg hnamed]
      exact Or.inl ⟨h.function?_materializeAll_kept hnamed, rfl⟩

theorem MovedOnly.mono {allowed more : FunctionId → Prop} {left : Module}
    (hm : MovedOnly allowed m left) (hle : ∀ id, allowed id → more id) : MovedOnly more m left where
  name := hm.name
  nextFunction := hm.nextFunction
  tables := hm.tables
  symbols := hm.symbols
  moved id := (hm.moved id).imp_right (fun h => ⟨hle id h.1, h.2⟩)

end All

/-- Modules force alike if they have the same whole functions. -/
theorem force_eq_iff {a b : Module} :
    a.force = b.force ↔ a.name = b.name ∧ a.tables = b.tables ∧
      a.nextFunction = b.nextFunction ∧ ∀ id, a.whole? id = b.whole? id := by
  constructor
  · intro h
    have hname := congrArg Module.name h
    have htables := congrArg Module.tables h
    have hnext := congrArg Module.nextFunction h
    exact ⟨hname, htables, hnext, whole?_of_force_eq h⟩
  · rintro ⟨hname, htables, hnext, hwhole⟩
    exact ext_lookup hname htables hnext (fun id => by simp [hwhole]) (fun _ => rfl)

section MovedOnly

variable {left : Module} {allowed : FunctionId → Prop}

/-- A number has the same whole function before and after bodies are moved. -/
theorem MovedOnly.whole?_eq (hm : m.WellFormed) (h : MovedOnly allowed m left) (id : FunctionId) :
    left.whole? id = m.whole? id := by
  rcases h.moved id with ⟨hf, hp⟩ | ⟨-, body, hp, hf, hnone⟩
  · exact whole?_congr hf hp
  · rw [whole?_of_pending_none hnone, hf, hm.whole?_of_pending hp]

/-- Moving bodies does not change the forced module. -/
theorem MovedOnly.force_eq (hm : m.WellFormed) (h : MovedOnly allowed m left) :
    left.force = m.force :=
  force_eq_iff.mpr ⟨h.name, h.tables, h.nextFunction, h.whole?_eq hm⟩

/-- Moving bodies keeps the numbers consistent. -/
theorem MovedOnly.wellFormed (hm : m.WellFormed) (h : MovedOnly allowed m left) :
    left.WellFormed where
  function_id := by
    intro id f hf
    rcases h.moved id with ⟨hsame, -⟩ | ⟨-, body, hp, hbody, -⟩
    · exact hm.function_id (hsame.symm.trans hf)
    · cases hbody.symm.trans hf
      exact hm.pending_id hp
  pending_id := by
    intro id f hf
    rcases h.moved id with ⟨-, hsame⟩ | ⟨-, body, -, -, hnone⟩
    · exact hm.pending_id (hsame.symm.trans hf)
    · cases hnone.symm.trans hf
  id_lt := by
    intro id f hf
    rw [h.nextFunction]
    rcases h.moved id with ⟨hsame, -⟩ | ⟨-, body, hp, -, -⟩
    · exact hm.id_lt (hsame.symm.trans hf)
    · obtain ⟨declared, hdeclared, -⟩ := hm.declared hp
      exact hm.id_lt hdeclared
  declared := by
    intro id f hf
    rcases h.moved id with ⟨hsame, hpsame⟩ | ⟨-, body, -, -, hnone⟩
    · obtain ⟨declared, hdeclared, hrest⟩ := hm.declared (hpsame.symm.trans hf)
      exact ⟨declared, hsame.trans hdeclared, hrest⟩
    · cases hnone.symm.trans hf

/-- Names stand for the same numbers before and after bodies are moved. -/
theorem MovedOnly.idOf?_eq (hm : m.WellFormed) (h : MovedOnly allowed m left) (name : String) :
    left.idOf? name = m.idOf? name :=
  (h.wellFormed hm).idOf?_congr hm h.symbols name

end MovedOnly

end KernelFusion.Module

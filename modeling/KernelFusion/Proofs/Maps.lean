import KernelFusion.Data.IdMap

/-!
# Maps as functions of their keys

A map is determined by what is found under each key, so two ways to build a map agree as soon as
their lookups do. Entries, keys and values are described by lookups as well.
-/

namespace KernelFusion.IdMap

variable {α β γ : Type}

/-- With distinct keys every entry is the one that is found. -/
theorem mem_iff_lookupEntry {key : UInt32} {value : α} {l : List (UInt32 × α)}
    (h : l.Pairwise (fun a b => a.1 < b.1)) :
    (key, value) ∈ l ↔ lookupEntry key l = some value := by
  induction l with
  | nil => simp [lookupEntry]
  | cons head rest ih =>
    obtain ⟨k, v⟩ := head
    obtain ⟨hk, hrest⟩ := List.pairwise_cons.mp h
    simp only [List.mem_cons, Prod.mk.injEq, lookupEntry, ih hrest]
    by_cases he : k = key
    · have hnone : lookupEntry key rest ≠ some value := fun hv =>
        absurd (hk _ ((ih hrest).mpr hv)) (by simp [he])
      simp [he, hnone, eq_comm]
    · simp [he, Ne.symm he]

/-- The entries are what is found. -/
theorem mem_entries_iff {m : IdMap α} {key : UInt32} {value : α} :
    (key, value) ∈ m.entries ↔ m.get? key = some value :=
  mem_iff_lookupEntry m.ascending

/-- Maps in which the same is found are equal. -/
theorem ext_get? {m n : IdMap α} (h : ∀ key, m.get? key = n.get? key) : m = n := by
  obtain ⟨l, hl⟩ := m
  obtain ⟨r, hr⟩ := n
  have nodup : ∀ {s : List (UInt32 × α)}, s.Pairwise (fun a b => a.1 < b.1) → s.Nodup :=
    fun hs => hs.imp (fun hlt he => absurd (he ▸ hlt) (UInt32.lt_irrefl _))
  have hperm : l.Perm r := by
    refine (List.perm_ext_iff_of_nodup (nodup hl) (nodup hr)).mpr (fun e => ?_)
    obtain ⟨k, v⟩ := e
    rw [mem_iff_lookupEntry hl, mem_iff_lookupEntry hr,
      show lookupEntry k l = lookupEntry k r from h k]
  have he : l = r :=
    hperm.eq_of_pairwise (fun a b _ _ hab hba => absurd hab (UInt32.lt_asymm hba)) hl hr
  subst he
  rfl

/-- A value is listed when it is found under some key. -/
theorem mem_values_iff {m : IdMap α} {value : α} :
    value ∈ m.values ↔ ∃ key, m.get? key = some value := by
  simp only [values, List.mem_map, Prod.exists, mem_entries_iff]
  constructor
  · rintro ⟨k, v, hv, rfl⟩
    exact ⟨k, hv⟩
  · rintro ⟨k, hv⟩
    exact ⟨k, value, hv, rfl⟩

theorem contains_iff {m : IdMap α} {key : UInt32} :
    m.contains key = true ↔ ∃ value, m.get? key = some value :=
  Option.isSome_iff_exists

/-- A key is listed when something is found under it. -/
theorem mem_keys_iff {m : IdMap α} {key : UInt32} : key ∈ m.keys ↔ m.contains key = true := by
  simp only [keys, List.mem_map, Prod.exists, mem_entries_iff, contains_iff, exists_and_right,
    exists_eq_right]

theorem contains_eq_false_iff {m : IdMap α} {key : UInt32} :
    m.contains key = false ↔ m.get? key = none := by
  simp [contains]

/-- Values are changed where they are listed. -/
theorem entries_mapValues (f : UInt32 → α → β) (m : IdMap α) :
    (m.mapValues f).entries = m.entries.map (fun e => (e.1, f e.1 e.2)) := rfl

/-- Changing all values alike changes the list of values. -/
theorem values_mapValues (f : α → β) (m : IdMap α) :
    (m.mapValues (fun _ v => f v)).values = m.values.map f := by
  rw [values, entries_mapValues, values, List.map_map, List.map_map]
  rfl

/-- Changes of the values that agree on the entries are the same. -/
theorem mapValues_congr {f g : UInt32 → α → β} {m : IdMap α}
    (h : ∀ e ∈ m.entries, f e.1 e.2 = g e.1 e.2) : m.mapValues f = m.mapValues g := by
  have hentries : m.entries.map (fun e => (e.1, f e.1 e.2)) =
      m.entries.map (fun e => (e.1, g e.1 e.2)) :=
    List.map_congr_left (fun e he => congrArg (e.1, ·) (h e he))
  simp only [mapValues, hentries]

/-- Changing values twice changes them once. -/
theorem mapValues_mapValues (f : UInt32 → α → β) (g : UInt32 → β → γ) (m : IdMap α) :
    (m.mapValues f).mapValues g = m.mapValues (fun k v => g k (f k v)) := by
  simp only [mapValues, List.map_map, Function.comp_def]

/-- The entries that stand before an entry are those with smaller keys. -/
theorem mem_before_iff {m : IdMap α} {e : UInt32 × α} {before after : List (UInt32 × α)}
    (hl : m.entries = before ++ e :: after) {key : UInt32} {value : α} :
    (key, value) ∈ before ↔ key < e.1 ∧ m.get? key = some value := by
  have hascending := m.ascending
  rw [hl] at hascending
  obtain ⟨-, hbehind, hbefore⟩ := List.pairwise_append.mp hascending
  rw [← mem_entries_iff, hl, List.mem_append, List.mem_cons]
  constructor
  · exact fun he => ⟨hbefore _ he _ List.mem_cons_self, Or.inl he⟩
  · rintro ⟨hlt, he | rfl | he⟩
    · exact he
    · exact absurd hlt (UInt32.lt_irrefl _)
    · exact absurd hlt (UInt32.lt_asymm ((List.pairwise_cons.mp hbehind).1 _ he))

/-- The first entry that satisfies a test is the one with the least key. -/
theorem find?_entries_eq_some_iff {m : IdMap α} {test : UInt32 × α → Bool} {key : UInt32}
    {value : α} :
    m.entries.find? test = some (key, value) ↔ m.get? key = some value ∧ test (key, value) = true ∧
      ∀ k v, m.get? k = some v → test (k, v) = true → key ≤ k := by
  have hleast : ∀ e, m.entries.find? test = some e → ∀ k v, m.get? k = some v →
      test (k, v) = true → e.1 ≤ k := by
    intro e he k v hv htest
    obtain ⟨-, before, after, hl, hbefore⟩ := List.find?_eq_some_iff_append.mp he
    refine UInt32.not_lt.mp (fun hlt => ?_)
    have hnot := hbefore _ ((mem_before_iff hl).mpr ⟨hlt, hv⟩)
    simp [htest] at hnot
  constructor
  · intro h
    exact ⟨mem_entries_iff.mp (List.mem_of_find?_eq_some h), List.find?_some h, hleast _ h⟩
  · rintro ⟨hvalue, htest, hle⟩
    cases hfind : m.entries.find? test with
    | none =>
      have hnot := List.find?_eq_none.mp hfind _ (mem_entries_iff.mpr hvalue)
      exact absurd htest hnot
    | some e =>
      obtain ⟨k, v⟩ := e
      have hk := mem_entries_iff.mp (List.mem_of_find?_eq_some hfind)
      have heq : k = key := UInt32.le_antisymm (hleast _ hfind key value hvalue htest)
        (hle k v hk (List.find?_some hfind))
      subst heq
      rw [hvalue] at hk
      cases hk
      rfl

/-- Ascending keys from `low` on are not more than there are numbers from `low` on. -/
theorem length_le_of_ascending {l : List (UInt32 × α)} (h : l.Pairwise (fun a b => a.1 < b.1))
    {low : Nat} (hlow : low ≤ UInt32.size) (hle : ∀ e ∈ l, low ≤ e.1.toNat) :
    l.length + low ≤ UInt32.size := by
  induction l generalizing low with
  | nil => simpa using hlow
  | cons x rest ih =>
    obtain ⟨hx, hrest⟩ := List.pairwise_cons.mp h
    have hhead := hle x List.mem_cons_self
    have hbound := x.1.toNat_lt_size
    have habove : ∀ e ∈ rest, low + 1 ≤ e.1.toNat := by
      intro e he
      have hlt := UInt32.lt_iff_toNat_lt.mp (hx e he)
      omega
    have hlater := ih hrest (by omega) habove
    rw [List.length_cons]
    omega

/-- There are not more entries than keys. -/
theorem size_le (m : IdMap α) : m.size ≤ UInt32.size :=
  length_le_of_ascending m.ascending (Nat.zero_le _) (fun _ _ => Nat.zero_le _)

end KernelFusion.IdMap

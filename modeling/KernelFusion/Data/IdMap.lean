/-!
# Maps keyed by number

Functions, blocks and registers are named by 32-bit numbers, and every listing of them goes in
ascending order of those numbers. An `IdMap` is a finite map kept as the list of its entries in
that order, so two maps with the same content are equal. The lemmas say what each operation does
to `get?`.
-/

namespace KernelFusion

/-- A finite map from 32-bit numbers, listed in strictly ascending order of the keys. -/
structure IdMap (α : Type) where
  /-- The entries, smallest key first. -/
  entries : List (UInt32 × α)
  /-- No key occurs twice and the keys ascend. -/
  ascending : entries.Pairwise (fun a b => a.1 < b.1)
deriving DecidableEq

namespace IdMap

variable {α β : Type}

/-- The map without entries. -/
def empty : IdMap α := ⟨[], .nil⟩

instance : Inhabited (IdMap α) := ⟨empty⟩

/-- The value under the first entry with this key. -/
def lookupEntry (key : UInt32) : List (UInt32 × α) → Option α
  | [] => none
  | (k, v) :: rest => if k = key then some v else lookupEntry key rest

/-- Put a value in its place among ascending entries, in the stead of an entry with its key. -/
def insertEntry (key : UInt32) (value : α) : List (UInt32 × α) → List (UInt32 × α)
  | [] => [(key, value)]
  | (k, v) :: rest =>
    if key < k then (key, value) :: (k, v) :: rest
    else if key = k then (key, value) :: rest
    else (k, v) :: insertEntry key value rest

theorem eq_or_mem_of_mem_insertEntry {key : UInt32} {value : α} {e : UInt32 × α}
    {l : List (UInt32 × α)} (h : e ∈ insertEntry key value l) : e = (key, value) ∨ e ∈ l := by
  induction l with
  | nil => simpa [insertEntry] using h
  | cons x rest ih =>
    obtain ⟨k, v⟩ := x
    unfold insertEntry at h
    split at h
    · simpa using h
    · split at h
      · rcases List.mem_cons.mp h with h | h
        · exact Or.inl h
        · exact Or.inr (List.mem_cons_of_mem _ h)
      · rcases List.mem_cons.mp h with h | h
        · exact Or.inr (h ▸ List.mem_cons_self)
        · exact (ih h).imp id (List.mem_cons_of_mem _)

theorem insertEntry_ascending (key : UInt32) (value : α) {l : List (UInt32 × α)}
    (h : l.Pairwise (fun a b => a.1 < b.1)) :
    (insertEntry key value l).Pairwise (fun a b => a.1 < b.1) := by
  induction l with
  | nil => simp [insertEntry]
  | cons x rest ih =>
    obtain ⟨k, v⟩ := x
    obtain ⟨hk, hrest⟩ := List.pairwise_cons.mp h
    unfold insertEntry
    split
    next hlt =>
      refine List.pairwise_cons.mpr ⟨fun e he => ?_, h⟩
      rcases List.mem_cons.mp he with rfl | he
      · exact hlt
      · exact UInt32.lt_trans hlt (hk e he)
    next hlt =>
      split
      next heq => exact List.pairwise_cons.mpr ⟨fun e he => heq ▸ hk e he, hrest⟩
      next hne =>
        refine List.pairwise_cons.mpr ⟨fun e he => ?_, ih hrest⟩
        rcases eq_or_mem_of_mem_insertEntry he with rfl | he
        · exact UInt32.lt_of_le_of_ne (UInt32.not_lt.mp hlt) (Ne.symm hne)
        · exact hk e he

/-- The value stored under a key. -/
def get? (m : IdMap α) (key : UInt32) : Option α := lookupEntry key m.entries

/-- Store a value under a key, replacing what was there. -/
def insert (m : IdMap α) (key : UInt32) (value : α) : IdMap α :=
  ⟨insertEntry key value m.entries, insertEntry_ascending key value m.ascending⟩

/-- Remove the entry of a key, if there is one. -/
def erase (m : IdMap α) (key : UInt32) : IdMap α :=
  ⟨m.entries.filter (fun e => e.1 ≠ key), m.ascending.filter _⟩

/-- Change every value, keeping the keys. -/
def mapValues (f : UInt32 → α → β) (m : IdMap α) : IdMap β :=
  ⟨m.entries.map (fun e => (e.1, f e.1 e.2)), List.pairwise_map.mpr m.ascending⟩

/-- Change the value under one key, if there is one. -/
def modify (m : IdMap α) (key : UInt32) (f : α → α) : IdMap α :=
  m.mapValues (fun k v => if k = key then f v else v)

/-- Whether a key has a value. -/
def contains (m : IdMap α) (key : UInt32) : Bool := (m.get? key).isSome

/-- The keys in ascending order. -/
def keys (m : IdMap α) : List UInt32 := m.entries.map (·.1)

/-- The values in the order of their keys. -/
def values (m : IdMap α) : List α := m.entries.map (·.2)

/-- The number of entries. -/
def size (m : IdMap α) : Nat := m.entries.length

/-- Whether there are no entries. -/
def isEmpty (m : IdMap α) : Bool := m.entries.isEmpty

/-- The map of a list of entries, in which a later entry replaces an earlier one of its key. -/
def ofList (l : List (UInt32 × α)) : IdMap α := l.foldl (fun m e => m.insert e.1 e.2) empty

@[simp] theorem get?_empty (key : UInt32) : (empty : IdMap α).get? key = none := rfl

theorem lookupEntry_insertEntry (key other : UInt32) (value : α) (l : List (UInt32 × α)) :
    lookupEntry other (insertEntry key value l) =
      if key = other then some value else lookupEntry other l := by
  induction l with
  | nil => rfl
  | cons x rest ih =>
    obtain ⟨k, v⟩ := x
    simp only [insertEntry]
    split
    next => rfl
    next hlt =>
      split
      next heq => subst heq; simp only [lookupEntry]; split <;> rfl
      next hne =>
        simp only [lookupEntry, ih]
        by_cases hk : k = other
        · subst hk
          simp [hne]
        · simp [hk]

/-- A stored value is found under its key, and all other keys keep theirs. -/
theorem get?_insert (m : IdMap α) (key other : UInt32) (value : α) :
    (m.insert key value).get? other = if key = other then some value else m.get? other :=
  lookupEntry_insertEntry key other value m.entries

theorem lookupEntry_filter_ne (key other : UInt32) (l : List (UInt32 × α)) :
    lookupEntry other (l.filter (fun e => e.1 ≠ key)) =
      if key = other then none else lookupEntry other l := by
  induction l with
  | nil => simp [lookupEntry]
  | cons x rest ih =>
    obtain ⟨k, v⟩ := x
    by_cases hk : k = key
    · subst hk
      rw [List.filter_cons_of_neg (by simp), ih]
      by_cases ho : k = other <;> simp [lookupEntry, ho]
    · rw [List.filter_cons_of_pos (by simpa using hk)]
      simp only [lookupEntry, ih]
      by_cases ho : k = other
      · subst ho
        simp [Ne.symm hk]
      · simp [ho]

/-- A removed key has no value, and all other keys keep theirs. -/
theorem get?_erase (m : IdMap α) (key other : UInt32) :
    (m.erase key).get? other = if key = other then none else m.get? other :=
  lookupEntry_filter_ne key other m.entries

theorem lookupEntry_map (f : UInt32 → α → β) (key : UInt32) (l : List (UInt32 × α)) :
    lookupEntry key (l.map (fun e => (e.1, f e.1 e.2))) = (lookupEntry key l).map (f key) := by
  induction l with
  | nil => rfl
  | cons x rest ih =>
    obtain ⟨k, v⟩ := x
    simp only [List.map_cons, lookupEntry, ih]
    split
    next h => subst h; rfl
    next => rfl

/-- Changing all values changes each value found. -/
theorem get?_mapValues (f : UInt32 → α → β) (m : IdMap α) (key : UInt32) :
    (m.mapValues f).get? key = (m.get? key).map (f key) :=
  lookupEntry_map f key m.entries

/-- A value with a key above all others comes last. -/
theorem insertEntry_append {key : UInt32} {value : α} {l : List (UInt32 × α)}
    (h : ∀ e ∈ l, e.1 < key) : insertEntry key value l = l ++ [(key, value)] := by
  induction l with
  | nil => rfl
  | cons x rest ih =>
    obtain ⟨k, v⟩ := x
    have hlt : k < key := h (k, v) List.mem_cons_self
    rw [insertEntry, if_neg (UInt32.lt_asymm hlt), if_neg (UInt32.ne_of_lt hlt).symm,
      ih (fun e he => h e (List.mem_cons_of_mem _ he))]
    rfl

/-- Inserting ascending entries above those of a map appends them. -/
theorem entries_foldl_insert {l : List (UInt32 × α)} {m : IdMap α}
    (h : (m.entries ++ l).Pairwise (fun a b => a.1 < b.1)) :
    (l.foldl (fun m e => m.insert e.1 e.2) m).entries = m.entries ++ l := by
  induction l generalizing m with
  | nil => simp
  | cons x rest ih =>
    have hbelow : ∀ e ∈ m.entries, e.1 < x.1 := fun e he =>
      (List.pairwise_append.mp h).2.2 e he x List.mem_cons_self
    have hinsert : (m.insert x.1 x.2).entries = m.entries ++ [x] := insertEntry_append hbelow
    rw [List.foldl_cons, ih (by rw [hinsert, List.append_assoc]; exact h), hinsert,
      List.append_assoc]
    rfl

/-- A map is the map of its entries. -/
theorem ofList_entries (m : IdMap α) : ofList m.entries = m := by
  have h : (ofList m.entries).entries = m.entries := entries_foldl_insert m.ascending
  cases m
  cases hm : ofList _
  simp_all

end IdMap

end KernelFusion

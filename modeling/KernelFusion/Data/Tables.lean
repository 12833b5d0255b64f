/-!
# Named string tables

A module advertises what it exports in string tables with a name. Tables stay in the order in which
they were first written to, and records stay in the order in which they were appended.
-/

namespace KernelFusion

/-- String tables under distinct names, in the order of their first appearance. -/
structure Tables where
  /-- The tables: a name and its records. -/
  entries : List (String × List String)
  /-- No two tables have one name. -/
  distinct : (entries.map (·.1)).Nodup
deriving DecidableEq

namespace Tables

/-- No tables. -/
def empty : Tables := ⟨[], .nil⟩

instance : Inhabited Tables := ⟨empty⟩

/-- The records of the first table with this name. -/
def lookupEntry (name : String) : List (String × List String) → Option (List String)
  | [] => none
  | (n, records) :: rest => if n = name then some records else lookupEntry name rest

/-- Replace the records of a table where it stands, or add the table at the end. -/
def putEntry (name : String) (records : List String) :
    List (String × List String) → List (String × List String)
  | [] => [(name, records)]
  | (n, old) :: rest =>
    if n = name then (name, records) :: rest else (n, old) :: putEntry name records rest

theorem mem_names_putEntry {name n : String} {records : List String}
    {l : List (String × List String)} (h : n ∈ (putEntry name records l).map (·.1)) :
    n = name ∨ n ∈ l.map (·.1) := by
  induction l with
  | nil => simpa [putEntry] using h
  | cons x rest ih =>
    obtain ⟨m, old⟩ := x
    unfold putEntry at h
    split at h
    · rcases List.mem_cons.mp h with h | h
      · exact Or.inl h
      · exact Or.inr (List.mem_cons_of_mem _ h)
    · rcases List.mem_cons.mp h with h | h
      · exact Or.inr (h ▸ List.mem_cons_self)
      · exact (ih h).imp id (List.mem_cons_of_mem _)

theorem putEntry_distinct (name : String) (records : List String)
    {l : List (String × List String)} (h : (l.map (·.1)).Nodup) :
    ((putEntry name records l).map (·.1)).Nodup := by
  induction l with
  | nil => simp [putEntry]
  | cons x rest ih =>
    obtain ⟨n, old⟩ := x
    obtain ⟨hn, hrest⟩ := List.nodup_cons.mp h
    unfold putEntry
    split
    next heq => exact List.nodup_cons.mpr ⟨heq ▸ hn, hrest⟩
    next hne =>
      refine List.nodup_cons.mpr ⟨fun hmem => ?_, ih hrest⟩
      rcases mem_names_putEntry hmem with h | h
      · exact hne h
      · exact hn h

/-- The table with this name, if it exists. -/
def get? (t : Tables) (name : String) : Option (List String) := lookupEntry name t.entries

/-- The records under a name; a table that does not exist has none. -/
def records (t : Tables) (name : String) : List String := (t.get? name).getD []

/-- Set the records of a table, which keeps its place if it exists and else comes last. -/
def put (t : Tables) (name : String) (records : List String) : Tables :=
  ⟨putEntry name records t.entries, putEntry_distinct name records t.distinct⟩

/-- Add one record at the end of a table, creating the table if needed. -/
def append (t : Tables) (name record : String) : Tables := t.put name (t.records name ++ [record])

/-- The number of tables. -/
def size (t : Tables) : Nat := t.entries.length

/-- The tables of a list, in which a later table replaces an earlier one of its name in place. -/
def ofList (l : List (String × List String)) : Tables :=
  l.foldl (fun t e => t.put e.1 e.2) empty

/-- Whether two collections hold the same tables, in whatever order. -/
def sameTables (t u : Tables) : Bool :=
  t.size == u.size && t.entries.all (fun e => u.get? e.1 == some e.2)

theorem lookupEntry_putEntry (name other : String) (records : List String)
    (l : List (String × List String)) :
    lookupEntry other (putEntry name records l) =
      if name = other then some records else lookupEntry other l := by
  induction l with
  | nil => rfl
  | cons x rest ih =>
    obtain ⟨n, old⟩ := x
    simp only [putEntry]
    split
    next heq => subst heq; simp only [lookupEntry]; split <;> rfl
    next hne =>
      simp only [lookupEntry, ih]
      by_cases hn : n = other
      · subst hn
        simp [Ne.symm hne]
      · simp [hn]

/-- A table that was set holds what was set, and all others keep their records. -/
theorem get?_put (t : Tables) (name other : String) (records : List String) :
    (t.put name records).get? other = if name = other then some records else t.get? other :=
  lookupEntry_putEntry name other records t.entries

/-- Appending a record extends its own table only. -/
theorem records_append (t : Tables) (name other record : String) :
    (t.append name record).records other =
      if name = other then t.records other ++ [record] else t.records other := by
  simp only [records, append, get?_put]
  split
  next h => subst h; rfl
  next => rfl

/-- A table with a new name comes last. -/
theorem putEntry_append {name : String} {records : List String} {l : List (String × List String)}
    (h : name ∉ l.map (·.1)) : putEntry name records l = l ++ [(name, records)] := by
  induction l with
  | nil => rfl
  | cons x rest ih =>
    obtain ⟨n, old⟩ := x
    obtain ⟨hne, hrest⟩ := List.ne_and_not_mem_of_not_mem_cons h
    rw [putEntry, if_neg (Ne.symm hne), ih hrest]
    rfl

/-- Setting tables under new names appends them. -/
theorem entries_foldl_put {l : List (String × List String)} {t : Tables}
    (h : ((t.entries ++ l).map (·.1)).Nodup) :
    (l.foldl (fun t e => t.put e.1 e.2) t).entries = t.entries ++ l := by
  induction l generalizing t with
  | nil => simp
  | cons x rest ih =>
    have hnew : x.1 ∉ t.entries.map (·.1) := by
      rw [List.map_append] at h
      intro hmem
      exact (List.nodup_append.mp h).2.2 x.1 hmem x.1 List.mem_cons_self rfl
    have hput : (t.put x.1 x.2).entries = t.entries ++ [x] := putEntry_append hnew
    rw [List.foldl_cons, ih (by rw [hput, List.append_assoc]; exact h), hput, List.append_assoc]
    rfl

/-- Tables are the tables of their entries, in the same order. -/
theorem ofList_entries (t : Tables) : ofList t.entries = t := by
  have h : (ofList t.entries).entries = t.entries := entries_foldl_put t.distinct
  cases t
  cases ht : ofList _
  simp_all

end Tables

end KernelFusion

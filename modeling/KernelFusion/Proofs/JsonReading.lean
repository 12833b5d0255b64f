import KernelFusion.Proofs.JsonNumbers

/-!
# Reading shapes of data back

A reader takes a value back from its JSON form as soon as there is room for all the containers that
are nested in it. The laws say so for each shape: records whose members stand in the order of their
fields, choices, lists, and maps, whose keys are written in order and once. Where a value is not
read back by every reader, a law says exactly when it is.
-/

namespace KernelFusion.Json

mutual

/-- The number of containers that are nested in each other. -/
def depth : Json → Nat
  | .array items => itemsDepth items + 1
  | .object members => membersDepth members + 1
  | .null | .bool _ | .number _ | .string _ => 0

/-- The depth of the deepest item. -/
def itemsDepth : List Json → Nat
  | [] => 0
  | item :: items => max item.depth (itemsDepth items)

/-- The depth of the deepest member. -/
def membersDepth : List (Bytes × Json) → Nat
  | [] => 0
  | (_, value) :: members => max value.depth (membersDepth members)

end

/-- With room for all of the tree, the reader takes the value from it exactly if the condition
holds. -/
def Reads {α : Type} (reader : Reader α) (j : Json) (a : α) (condition : Prop) : Prop :=
  ∀ room, j.depth ≤ room → (reader room j = some a ↔ condition)

variable {α β : Type} {reader : Reader α} {j : Json} {a : α} {room : Nat}

theorem Reads.eq_some (h : Reads reader j a True) (hroom : j.depth ≤ room) :
    reader room j = some a :=
  (h room hroom).mpr trivial

theorem reads_of_eq (h : ∀ room, j.depth ≤ room → reader room j = some a) :
    Reads reader j a True :=
  fun room hroom => iff_true_intro (h room hroom)

theorem Reads.congr {condition condition' : Prop} (h : Reads reader j a condition)
    (hcondition : condition ↔ condition') : Reads reader j a condition' :=
  fun room hroom => (h room hroom).trans hcondition

section Results

variable {γ : Type} {x : Option α} {y : Option β}

/-- A step that is known to give a value goes on with it. -/
theorem bind_of_eq {next : α → Option γ} {result : Option γ} (hx : x = some a)
    (hnext : next a = result) : x >>= next = result := by
  rw [hx]
  exact hnext

/-- One part decides about a result that is made of it. -/
theorem bind_eq_some_iff {g : α → γ} (hg : ∀ {b c}, g b = g c → b = c) :
    (x.bind fun b => some (g b)) = some (g a) ↔ x = some a := by
  cases x with
  | none => simp
  | some b => exact ⟨fun h => congrArg some (hg (Option.some.inj h)), fun h => by cases h; rfl⟩

/-- Two parts decide about a result that is made of them. -/
theorem bind_bind_eq_some_iff {g : α → β → γ} {b : β}
    (hg : ∀ {c c' d d'}, g c d = g c' d' → c = c' ∧ d = d') :
    (x.bind fun c => y.bind fun d => some (g c d)) = some (g a b) ↔ x = some a ∧ y = some b := by
  cases x with
  | none => simp
  | some c =>
    cases y with
    | none => simp
    | some d =>
      simp only [Option.bind_some, Option.some.injEq]
      exact ⟨hg, fun h => by rw [h.1, h.2]⟩

end Results

section Depth

theorem itemsDepth_le_iff {items : List Json} :
    itemsDepth items ≤ room ↔ ∀ item ∈ items, item.depth ≤ room := by
  induction items with
  | nil => simp [itemsDepth]
  | cons item items ih => rw [itemsDepth, Nat.max_le, ih, List.forall_mem_cons]

theorem membersDepth_le_iff {members : List (Bytes × Json)} :
    membersDepth members ≤ room ↔ ∀ m ∈ members, m.2.depth ≤ room := by
  induction members with
  | nil => simp [membersDepth]
  | cons m members ih => rw [membersDepth, Nat.max_le, ih, List.forall_mem_cons]

/-- A container takes one level of the room, and the rest is enough for what is in it. -/
theorem room_array {items : List Json} (h : (array items).depth ≤ room) :
    ∃ inner, room = inner + 1 ∧ ∀ item ∈ items, item.depth ≤ inner := by
  cases room with
  | zero => cases h
  | succ inner => exact ⟨inner, rfl, itemsDepth_le_iff.mp (Nat.le_of_succ_le_succ h)⟩

theorem room_object {members : List (Bytes × Json)} (h : (object members).depth ≤ room) :
    ∃ inner, room = inner + 1 ∧ ∀ m ∈ members, m.2.depth ≤ inner := by
  cases room with
  | zero => cases h
  | succ inner => exact ⟨inner, rfl, membersDepth_le_iff.mp (Nat.le_of_succ_le_succ h)⟩

end Depth

section Records

/-- Names of fields: all different, and written without escapes. -/
def FieldNames (fields : List String) : Prop := fields.Nodup ∧ ∀ s ∈ fields, Plain s

instance (fields : List String) : Decidable (FieldNames fields) :=
  inferInstanceAs (Decidable (_ ∧ _))

/-- A member goes to its empty place, which is behind the places of others. -/
theorem fillSlot?_eq {key : String} {filled : List (String × Option Json)} (value : Json)
    (rest : List (String × Option Json)) (h : key ∉ filled.map (·.1)) :
    fillSlot? key value (filled ++ (key, none) :: rest) =
      some (filled ++ (key, some value) :: rest) := by
  induction filled with
  | nil => simp [fillSlot?]
  | cons slot filled ih =>
    obtain ⟨field, content⟩ := slot
    obtain ⟨hne, hrest⟩ := List.ne_and_not_mem_of_not_mem_cons h
    simp [fillSlot?, Ne.symm hne, ih hrest]

/-- Members in the order of the fields fill the places one after the other. -/
theorem fillSlots?_eq {members : List (String × Json)} (filled : List (String × Option Json))
    (hnodup : (filled.map (·.1) ++ members.map (·.1)).Nodup)
    (hplain : ∀ m ∈ members, Plain m.1) :
    fillSlots? (filled ++ members.map (fun m => (m.1, none)))
        (members.map (fun m => (name m.1, m.2))) =
      some (filled ++ members.map (fun m => (m.1, some m.2))) := by
  induction members generalizing filled with
  | nil => rfl
  | cons m members ih =>
    obtain ⟨key, value⟩ := m
    obtain ⟨hkey, hlater⟩ := List.forall_mem_cons.mp hplain
    have hnew : key ∉ filled.map (·.1) := fun hmem =>
      (List.nodup_append.mp hnodup).2.2 key hmem key List.mem_cons_self rfl
    have hslot := fillSlot?_eq value (members.map (fun m => (m.1, none))) hnew
    have hmembers := ih (filled ++ [(key, some value)])
      (by simpa [List.append_assoc] using hnodup) hlater
    rw [List.append_assoc, List.append_assoc] at hmembers
    rw [List.map_cons, List.map_cons, fillSlots?, hkey.bodyText?]
    exact (congrArg (Option.bind · (fillSlots? · _)) hslot).trans hmembers

/-- The members of a record are found in the order of the fields. -/
theorem fields?_record {fields : List String} {members : List (String × Json)}
    (hfields : FieldNames fields) (hmembers : members.map (·.1) = fields)
    (hroom : (record members).depth ≤ room) :
    ∃ inner, room = inner + 1 ∧
      fields? fields room (record members) = some (inner, members.map (fun m => some m.2)) ∧
      ∀ m ∈ members, m.2.depth ≤ inner := by
  subst hmembers
  obtain ⟨inner, rfl, hdepth⟩ := room_object hroom
  have hplain : ∀ m ∈ members, Plain m.1 := fun m hm => hfields.2 m.1 (List.mem_map_of_mem hm)
  have hslots := fillSlots?_eq [] hfields.1 hplain
  refine ⟨inner, rfl, ?_, fun m hm => hdepth _ (List.mem_map_of_mem hm)⟩
  rw [record, fields?, List.map_map]
  simp only [List.nil_append] at hslots
  simp only [Function.comp_def, hslots, Option.map_some, List.map_map]

/-- The text of a record is a text of JSON if its names are plain. -/
theorem lexical_record {members : List (String × Json)}
    (hplain : members.all (fun m => decide (Plain m.1)) = true)
    (hvalues : ∀ m ∈ members, m.2.Lexical) : (record members).Lexical :=
  have hnames : ∀ m ∈ members, Quotable (name m.1) := fun m hm =>
    Plain.quotable (of_decide_eq_true (List.all_eq_true.mp hplain m hm))
  .object (List.forall_mem_map.mpr hnames) (List.forall_mem_map.mpr hvalues)

end Records

section Choices

variable {v : String}

/-- A choice without data is read anywhere. -/
theorem variant?_unitVariant (h : Plain v) (room : Nat) :
    variant? room (unitVariant v) = some (room, v, none) := by
  cases room <;> simp [variant?, unitVariant, h.bodyText?]

/-- A choice with data is read where there is room for its object. -/
theorem variant?_dataVariant {data : Json} (h : Plain v)
    (hroom : (dataVariant v data).depth ≤ room) :
    ∃ inner, room = inner + 1 ∧
      variant? room (dataVariant v data) = some (inner, v, some data) ∧ data.depth ≤ inner := by
  obtain ⟨inner, rfl, hdepth⟩ := room_object hroom
  exact ⟨inner, rfl, by simp [variant?, dataVariant, h.bodyText?],
    hdepth _ (List.mem_singleton.mpr rfl)⟩

/-- A choice with a record as its data. -/
theorem variant?_record {fields : List String} {members : List (String × Json)} (h : Plain v)
    (hfields : FieldNames fields) (hmembers : members.map (·.1) = fields)
    (hroom : (dataVariant v (record members)).depth ≤ room) :
    ∃ outer inner, variant? room (dataVariant v (record members)) =
        some (outer, v, some (record members)) ∧
      fields? fields outer (record members) = some (inner, members.map (fun m => some m.2)) ∧
      ∀ m ∈ members, m.2.depth ≤ inner := by
  obtain ⟨outer, -, hvariant, hdata⟩ := variant?_dataVariant h hroom
  obtain ⟨inner, -, hmembers, hdepth⟩ := fields?_record hfields hmembers hdata
  exact ⟨outer, inner, hvariant, hmembers, hdepth⟩

theorem lexical_unitVariant (h : Plain v) : (unitVariant v).Lexical := .string h.quotable

theorem lexical_dataVariant {data : Json} (h : Plain v) (hdata : data.Lexical) :
    (dataVariant v data).Lexical :=
  .object (List.forall_mem_singleton.mpr h.quotable) (List.forall_mem_singleton.mpr hdata)

/-- A value that may be missing, if no value is written like a missing one. -/
theorem optional?_ofOption {f : α → Json} {o : Option α} (hnull : ∀ a ∈ o, f a ≠ .null)
    (h : ∀ a ∈ o, reader room (f a) = some a) :
    optional? reader room (some (ofOption f o)) = some o := by
  cases o with
  | none => rfl
  | some a =>
    rw [ofOption, optional?, h a rfl]
    · rfl
    · exact hnull a rfl

theorem lexical_ofOption {f : α → Json} {o : Option α} (h : ∀ a ∈ o, (f a).Lexical) :
    (ofOption f o).Lexical := by
  cases o with
  | none => exact .null
  | some a => exact h a rfl

end Choices

section Collections

variable {f : α → Json} {condition : α → Prop}

/-- All values of a list are read back exactly if each of them is. -/
theorem mapM_map_eq_some_iff {read : β → Option α} {write : α → β} {l : List α} :
    (l.map write).mapM read = some l ↔ ∀ a ∈ l, read (write a) = some a := by
  induction l with
  | nil => simp
  | cons a l ih =>
    rw [List.map_cons, List.mapM_cons, List.forall_mem_cons, ← ih]
    exact bind_bind_eq_some_iff List.cons.inj

theorem Reads.list {l : List α} (h : ∀ a ∈ l, Reads reader (f a) a (condition a)) :
    Reads (list? reader) (.array (l.map f)) l (∀ a ∈ l, condition a) := by
  intro room hroom
  obtain ⟨inner, rfl, hdepth⟩ := room_array hroom
  have hitem : ∀ a ∈ l, reader inner (f a) = some a ↔ condition a :=
    fun a ha => h a ha inner (hdepth _ (List.mem_map_of_mem ha))
  rw [list?, mapM_map_eq_some_iff]
  exact forall₂_congr hitem

theorem Reads.list_true {l : List α} (h : ∀ a ∈ l, Reads reader (f a) a True) :
    Reads (list? reader) (.array (l.map f)) l True :=
  (Reads.list h).congr (iff_true_intro (fun _ _ => trivial))

theorem lexical_array {l : List α} (h : ∀ a ∈ l, (f a).Lexical) :
    (array (l.map f)).Lexical :=
  .array (List.forall_mem_map.mpr h)

/-- The readings of a list have the keys of the list. -/
theorem map_fst_of_mapM_eq_some {read : β → Option (UInt32 × α)} {write : UInt32 × α → β}
    (hread : ∀ e e', read (write e) = some e' → e'.1 = e.1) {l l' : List (UInt32 × α)}
    (h : (l.map write).mapM read = some l') : l'.map (·.1) = l.map (·.1) := by
  induction l generalizing l' with
  | nil =>
    obtain rfl : [] = l' := Option.some.inj h
    rfl
  | cons e l ih =>
    simp only [List.map_cons, List.mapM_cons] at h
    obtain ⟨e', he, h⟩ := Option.bind_eq_some_iff.mp h
    obtain ⟨l'', hl, h⟩ := Option.bind_eq_some_iff.mp h
    obtain rfl : e' :: l'' = l' := Option.some.inj h
    rw [List.map_cons, List.map_cons, hread e e' he, ih hl]

/-- With the keys of a map, only the entries of the map make it. -/
theorem ofList_eq_iff {l : List (UInt32 × α)} {m : IdMap α}
    (hkeys : l.map (·.1) = m.entries.map (·.1)) : IdMap.ofList l = m ↔ l = m.entries := by
  have hascending : l.Pairwise (fun a b => a.1 < b.1) := by
    have hmap := List.pairwise_map.mpr m.ascending
    rw [← hkeys] at hmap
    exact List.pairwise_map.mp hmap
  have hentries : (IdMap.ofList l).entries = l :=
    IdMap.entries_foldl_insert (m := IdMap.empty) hascending
  constructor
  · rintro rfl
    exact hentries.symm
  · rintro rfl
    exact m.ofList_entries

theorem Reads.idMap {m : IdMap α} (h : ∀ a ∈ m.values, Reads reader (f a) a (condition a)) :
    Reads (idMap? reader) (ofIdMap f m) m (∀ a ∈ m.values, condition a) := by
  intro room hroom
  obtain ⟨inner, rfl, hdepth⟩ := room_object hroom
  let read : Bytes × Json → Option (UInt32 × α) :=
    fun p => (keyNumber? p.1).bind (fun k => (reader inner p.2).map (k, ·))
  let write : UInt32 × α → Bytes × Json :=
    fun e => (Bytes.ofAscii (Nat.toDigits 10 e.1.toNat), f e.2)
  have hentry : ∀ e, read (write e) = (reader inner (f e.2)).map (e.1, ·) :=
    fun e => congrArg (Option.bind · _) (keyNumber?_toDigits e.1)
  have hkey : ∀ e e', read (write e) = some e' → e'.1 = e.1 := by
    intro e e' he
    obtain ⟨_, _, rfl⟩ := Option.map_eq_some_iff.mp (hentry e ▸ he)
    rfl
  have hmap : idMap? reader (inner + 1) (ofIdMap f m) = some m ↔
      (m.entries.map write).mapM read = some m.entries := by
    have hread : idMap? reader (inner + 1) (ofIdMap f m) =
        ((m.entries.map write).mapM read).map IdMap.ofList := rfl
    rw [hread, Option.map_eq_some_iff]
    constructor
    · rintro ⟨l, hl, hm⟩
      rw [hl, (ofList_eq_iff (map_fst_of_mapM_eq_some hkey hl)).mp hm]
    · exact fun hl => ⟨m.entries, hl, m.ofList_entries⟩
  have hvalue : ∀ e ∈ m.entries, read (write e) = some e ↔ condition e.2 := by
    intro e he
    have hdeep := hdepth (write e) (List.mem_map_of_mem he)
    rw [← h e.2 (List.mem_map_of_mem he) inner hdeep, hentry e, Option.map_eq_some_iff]
    exact ⟨fun ⟨v, hv, heq⟩ => hv.trans (congrArg (some ∘ Prod.snd) heq), fun hv => ⟨e.2, hv, rfl⟩⟩
  rw [hmap, mapM_map_eq_some_iff, IdMap.values, List.forall_mem_map]
  exact forall₂_congr hvalue

theorem Reads.idMap_true {m : IdMap α} (h : ∀ a ∈ m.values, Reads reader (f a) a True) :
    Reads (idMap? reader) (ofIdMap f m) m True :=
  (Reads.idMap h).congr (iff_true_intro (fun _ _ => trivial))

theorem lexical_ofIdMap {m : IdMap α} (h : ∀ a ∈ m.values, (f a).Lexical) :
    (ofIdMap f m).Lexical :=
  .object (List.forall_mem_map.mpr (fun e _ => quotable_toDigits e.1.toNat))
    (List.forall_mem_map.mpr (fun e he => h e.2 (List.mem_map_of_mem he)))

theorem reads_tables (t : Tables) : Reads tables? (ofTables t) t True := by
  refine reads_of_eq (fun room hroom => ?_)
  obtain ⟨inner, rfl, hdepth⟩ := room_object hroom
  let read : Bytes × Json → Option (String × List String) := fun p =>
    (bodyText? p.1).bind (fun k => (list? (fun _ => string?) inner p.2).map (k, ·))
  let write : String × List String → Bytes × Json :=
    fun e => (escape (Bytes.ofString e.1), .array (e.2.map ofString))
  have hentry : ∀ e ∈ t.entries, read (write e) = some e := by
    intro e he
    have hrecords : Reads (list? (fun _ => string?)) (.array (e.2.map ofString)) e.2 True :=
      Reads.list_true (fun s _ => reads_of_eq (fun _ _ => string?_ofString s))
    have hread := hrecords.eq_some (hdepth (write e) (List.mem_map_of_mem he))
    simp only [read, write, bodyText?_escape, hread]
    rfl
  have hentries : (t.entries.map write).mapM read = some t.entries :=
    mapM_map_eq_some_iff.mpr hentry
  exact (congrArg (Option.map Tables.ofList) hentries).trans (congrArg some t.ofList_entries)

theorem lexical_ofTables (t : Tables) : (ofTables t).Lexical :=
  .object (List.forall_mem_map.mpr (fun _ _ => quotable_escape _))
    (List.forall_mem_map.mpr (fun _ _ => lexical_array (fun s _ => lexical_ofString s)))

end Collections

end KernelFusion.Json

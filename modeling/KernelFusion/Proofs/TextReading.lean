import KernelFusion.Proofs.TextRoundTrip

/-!
# What is read from texts

Texts that are read are far more varied than texts that are written: records may be arrays, choices
without data may carry a null, members may be unknown or missing, keys may be repeated. Whatever the
form was, what is read from it is written in a form that is not nested more deeply, since every
container of the form that is written stands for a container that was read. Of the constants, those
of 64 bits are finite and those of 32 bits are numbers, but may be infinite, because too large a
number is rounded to an infinity.
-/

namespace KernelFusion

namespace Json

/-- Whatever the reader takes from a tree has a form that fits in the same room, and it is as the
condition says. -/
def Gives {α : Type} (reader : Reader α) (form : α → Json) (good : α → Prop) : Prop :=
  ∀ room j a, reader room j = some a → (form a).depth ≤ room ∧ good a

variable {α : Type} {reader : Reader α} {form : α → Json} {good : α → Prop} {room : Nat} {j : Json}

section Shapes

@[simp] theorem depth_ofNat (n : Nat) : (ofNat n).depth = 0 := rfl

@[simp] theorem depth_idJson (n : UInt32) : (idJson n).depth = 0 := rfl

@[simp] theorem depth_ofString (s : String) : (ofString s).depth = 0 := rfl

@[simp] theorem depth_wordJson {α : Type} [Worded α] (a : α) : (wordJson a).depth = 0 := rfl

@[simp] theorem depth_bool (value : Bool) : (bool value).depth = 0 := rfl

@[simp] theorem depth_ofFloat (f : BinaryFormat) (layout : FloatLayout) (pattern : Nat) :
    (ofFloat f layout pattern).depth = 0 := by
  unfold ofFloat
  split <;> rfl

theorem depth_dataVariant (v : String) (data : Json) :
    (dataVariant v data).depth = data.depth + 1 := by
  simp [dataVariant, depth, membersDepth]

/-- A record fits if its members fit one level deeper. -/
theorem depth_record_le_iff {members : List (String × Json)} :
    (record members).depth ≤ room + 1 ↔ ∀ m ∈ members, m.2.depth ≤ room := by
  rw [record, depth, Nat.add_le_add_iff_right, membersDepth_le_iff, List.forall_mem_map]

theorem depth_array_le_iff {items : List Json} :
    (array items).depth ≤ room + 1 ↔ ∀ item ∈ items, item.depth ≤ room := by
  rw [depth, Nat.add_le_add_iff_right, itemsDepth_le_iff]

/-- Reading fields takes a level of the room. -/
theorem room_of_fields? {fields : List String} {inner : Nat} {slots : List (Option Json)}
    (h : fields? fields room j = some (inner, slots)) : room = inner + 1 := by
  unfold fields? at h
  split at h
  · cases h
  · obtain ⟨_, -, heq⟩ := Option.map_eq_some_iff.mp h
    cases heq
    rfl
  · split at h
    · cases h
      rfl
    · cases h
  · cases h

/-- Reading a choice with data takes a level of the room. -/
theorem room_of_variant? {inner : Nat} {v : String} {data : Json}
    (h : variant? room j = some (inner, v, some data)) : room = inner + 1 := by
  unfold variant? at h
  split at h
  · obtain ⟨_, -, heq⟩ := Option.map_eq_some_iff.mp h
    cases heq
  · obtain ⟨_, -, heq⟩ := Option.map_eq_some_iff.mp h
    cases heq
    rfl
  · cases h

theorem gives_of_flat (h : ∀ a, (form a).depth = 0) : Gives reader form (fun _ => True) :=
  fun room _ a _ => ⟨(h a).symm ▸ room.zero_le, trivial⟩

theorem gives_id : Gives id? idJson (fun _ => True) := gives_of_flat depth_idJson

theorem gives_string : Gives (fun _ => string?) ofString (fun _ => True) :=
  gives_of_flat depth_ofString

/-- Every result was read from an item. -/
theorem exists_of_mapM_eq_some {β : Type} {read : α → Option β} {l : List α} {results : List β}
    (h : l.mapM read = some results) {b : β} (hb : b ∈ results) : ∃ a ∈ l, read a = some b := by
  induction l generalizing results with
  | nil =>
    obtain rfl : [] = results := Option.some.inj h
    cases hb
  | cons a l ih =>
    simp only [List.mapM_cons] at h
    obtain ⟨first, hfirst, h⟩ := Option.bind_eq_some_iff.mp h
    obtain ⟨rest, hrest, h⟩ := Option.bind_eq_some_iff.mp h
    obtain rfl : first :: rest = results := Option.some.inj h
    rcases List.mem_cons.mp hb with rfl | hmem
    · exact ⟨a, List.mem_cons_self, hfirst⟩
    · obtain ⟨a', ha', hread⟩ := ih hrest hmem
      exact ⟨a', List.mem_cons_of_mem a ha', hread⟩

/-- A list fits if its items were read. -/
theorem Gives.list (h : Gives reader form good) :
    Gives (list? reader) (fun l => .array (l.map form)) (fun l => ∀ a ∈ l, good a) := by
  intro room j l hl
  unfold list? at hl
  split at hl
  next inner items =>
    have hitem : ∀ a ∈ l, (form a).depth ≤ inner ∧ good a := by
      intro a ha
      obtain ⟨item, -, hread⟩ := exists_of_mapM_eq_some hl ha
      exact h inner item a hread
    exact ⟨depth_array_le_iff.mpr (List.forall_mem_map.mpr (fun a ha => (hitem a ha).1)),
      fun a ha => (hitem a ha).2⟩
  next => cases hl

/-- A value that may be missing fits if it was read. -/
theorem Gives.optional (h : Gives reader form good) {slot : Option Json} {o : Option α}
    (ho : optional? reader room slot = some o) :
    (ofOption form o).depth ≤ room ∧ ∀ a ∈ o, good a := by
  unfold optional? at ho
  split at ho
  · obtain rfl := Option.some.inj ho
    exact ⟨room.zero_le, nofun⟩
  · obtain rfl := Option.some.inj ho
    exact ⟨room.zero_le, nofun⟩
  · obtain ⟨a, ha, rfl⟩ := Option.map_eq_some_iff.mp ho
    obtain ⟨hdepth, hgood⟩ := h room _ a ha
    exact ⟨hdepth, fun b hb => Option.some.inj hb ▸ hgood⟩

end Shapes

end Json

/-- What is inserted one after the other into a map makes up the map. -/
theorem IdMap.mem_foldl_insert {α : Type} {l : List (UInt32 × α)} {m : IdMap α} {e : UInt32 × α}
    (h : e ∈ (l.foldl (fun m e => m.insert e.1 e.2) m).entries) : e ∈ m.entries ∨ e ∈ l := by
  induction l generalizing m with
  | nil => exact Or.inl h
  | cons first rest ih =>
    rcases ih h with hold | hlater
    · rcases IdMap.eq_or_mem_of_mem_insertEntry hold with rfl | hmem
      · exact Or.inr List.mem_cons_self
      · exact Or.inl hmem
    · exact Or.inr (List.mem_cons_of_mem first hlater)

/-- The entries of a map of a list are entries of the list. -/
theorem IdMap.mem_of_mem_ofList {α : Type} {l : List (UInt32 × α)} {e : UInt32 × α}
    (h : e ∈ (IdMap.ofList l).entries) : e ∈ l :=
  (IdMap.mem_foldl_insert h).resolve_left List.not_mem_nil

theorem Tables.mem_putEntry {name : String} {records : List String}
    {l : List (String × List String)} {e : String × List String}
    (h : e ∈ putEntry name records l) : e = (name, records) ∨ e ∈ l := by
  induction l with
  | nil => exact Or.inl (List.mem_singleton.mp h)
  | cons first rest ih =>
    unfold putEntry at h
    split at h
    · exact (List.mem_cons.mp h).imp id (List.mem_cons_of_mem _)
    · rcases List.mem_cons.mp h with rfl | hrest
      · exact Or.inr List.mem_cons_self
      · exact (ih hrest).imp id (List.mem_cons_of_mem _)

theorem Tables.mem_foldl_put {l : List (String × List String)} {t : Tables}
    {e : String × List String}
    (h : e ∈ (l.foldl (fun t e => t.put e.1 e.2) t).entries) : e ∈ t.entries ∨ e ∈ l := by
  induction l generalizing t with
  | nil => exact Or.inl h
  | cons first rest ih =>
    rcases ih h with hold | hlater
    · rcases Tables.mem_putEntry hold with rfl | hmem
      · exact Or.inr List.mem_cons_self
      · exact Or.inl hmem
    · exact Or.inr (List.mem_cons_of_mem first hlater)

/-- The tables of a list are in the list. -/
theorem Tables.mem_of_mem_ofList {l : List (String × List String)} {e : String × List String}
    (h : e ∈ (Tables.ofList l).entries) : e ∈ l :=
  (Tables.mem_foldl_put h).resolve_left List.not_mem_nil

namespace Json

variable {α : Type} {reader : Reader α} {form : α → Json} {good : α → Prop} {room : Nat} {j : Json}

section Maps

/-- A map fits if its values were read. -/
theorem Gives.idMap (h : Gives reader form good) :
    Gives (idMap? reader) (ofIdMap form) (fun m => ∀ a ∈ m.values, good a) := by
  intro room j m hm
  unfold idMap? at hm
  split at hm
  next inner members =>
    obtain ⟨entries, hentries, rfl⟩ := Option.map_eq_some_iff.mp hm
    have hentry : ∀ e ∈ (IdMap.ofList entries).entries,
        (form e.2).depth ≤ inner ∧ good e.2 := by
      intro e he
      obtain ⟨member, -, hread⟩ := exists_of_mapM_eq_some hentries (IdMap.mem_of_mem_ofList he)
      obtain ⟨key, -, hread⟩ := Option.bind_eq_some_iff.mp hread
      obtain ⟨a, ha, rfl⟩ := Option.map_eq_some_iff.mp hread
      exact h inner member.2 a ha
    refine ⟨?_, List.forall_mem_map.mpr (fun e he => (hentry e he).2)⟩
    rw [ofIdMap, depth, Nat.add_le_add_iff_right, membersDepth_le_iff, List.forall_mem_map]
    exact fun e he => (hentry e he).1
  next => cases hm

/-- Tables fit if their records were read. -/
theorem gives_tables : Gives tables? ofTables (fun _ => True) := by
  intro room j t ht
  unfold tables? at ht
  split at ht
  next inner members =>
    obtain ⟨entries, hentries, rfl⟩ := Option.map_eq_some_iff.mp ht
    refine ⟨?_, trivial⟩
    rw [ofTables, depth, Nat.add_le_add_iff_right, membersDepth_le_iff, List.forall_mem_map]
    intro e he
    obtain ⟨member, -, hread⟩ := exists_of_mapM_eq_some hentries (Tables.mem_of_mem_ofList he)
    obtain ⟨key, -, hread⟩ := Option.bind_eq_some_iff.mp hread
    obtain ⟨records, hrecords, rfl⟩ := Option.map_eq_some_iff.mp hread
    exact (gives_string.list inner member.2 records hrecords).1
  next => cases ht

end Maps

section Types

/-- A type without parts is a word. -/
theorem depth_of_scalarOfWord? {w : String} {t : Ty} (h : Ty.scalarOfWord? w = some t) :
    t.toJson.depth = 0 := by
  have hscalar : ∀ t ∈ Ty.scalars, t.toJson.depth = 0 := by decide
  exact hscalar t (List.mem_of_find?_eq_some h)

theorem gives_ty : Gives ty? Ty.toJson (fun _ => True) := by
  intro room j t ht
  refine ⟨?_, trivial⟩
  induction room using Nat.strongRecOn generalizing j t with
  | _ room ih =>
    have hscalar : ∀ {w}, Ty.scalarOfWord? w = some t → t.toJson.depth ≤ room :=
      fun h => (depth_of_scalarOfWord? h).symm ▸ room.zero_le
    cases room with
    | zero =>
      rw [ty?] at ht
      split at ht
      · split at ht
        · exact hscalar ht
        · cases ht
      · cases ht
    | succ room =>
      rw [ty?] at ht
      split at ht
      next data _ =>
        obtain ⟨pointee, hpointee, rfl⟩ := Option.map_eq_some_iff.mp ht
        rw [Ty.toJson, depth_dataVariant]
        exact Nat.succ_le_succ (ih room room.lt_succ_self data pointee hpointee)
      next data _ =>
        cases room with
        | zero => cases ht
        | succ inner =>
          dsimp only at ht
          split at ht
          next element count _ =>
            split at ht
            next e c helement _ =>
              obtain rfl := Option.some.inj ht
              have hdepth := ih inner (by omega) element e helement
              rw [Ty.toJson, depth_dataVariant, Nat.add_le_add_iff_right, depth_record_le_iff]
              simp [hdepth]
            next => cases ht
          next => cases ht
      next =>
        split at ht
        · exact hscalar ht
        · cases ht
      next => cases ht

end Types

end Json

namespace BinaryFormat

variable (f : BinaryFormat) {magnitude : Nat}

theorem infinity_lt_signBit : f.infinity < f.signBit := by
  rw [infinity, signBit, Nat.pow_add]
  exact Nat.mul_lt_mul_of_pos_right (Nat.sub_lt (Nat.two_pow_pos _) Nat.one_pos)
    (Nat.two_pow_pos _)

/-- A magnitude with a sign stands for the number or the infinity of that magnitude. -/
theorem classify_signed (negative : Bool) (h : magnitude ≤ f.infinity) :
    f.classify (f.signed negative magnitude) =
      if magnitude < f.infinity then .finite negative magnitude else .infinite negative := by
  have hlt := Nat.lt_of_le_of_lt h f.infinity_lt_signBit
  have hmagnitude : f.signed negative magnitude % f.signBit = magnitude := by
    cases negative
    · exact Nat.mod_eq_of_lt hlt
    · exact (Nat.add_mod_left _ _).trans (Nat.mod_eq_of_lt hlt)
  have hsign : decide (f.signBit ≤ f.signed negative magnitude) = negative := by
    cases negative
    · exact decide_eq_false (Nat.not_le.mpr hlt)
    · exact decide_eq_true (Nat.le_add_right _ _)
  simp only [classify, hmagnitude, hsign]
  split
  · rfl
  · rw [if_pos (by omega)]

theorem signed_lt (negative : Bool) (h : magnitude ≤ f.infinity) :
    f.signed negative magnitude < 2 * f.signBit := by
  have hlt := Nat.lt_of_le_of_lt h f.infinity_lt_signBit
  cases negative <;> simp only [signed, Bool.false_eq_true, if_false, if_true] <;> omega

theorem nearest_le_infinity (num den : Nat) : f.nearest num den ≤ f.infinity :=
  Nat.min_le_right _ _

theorem convert_le_infinity (target : BinaryFormat) (magnitude : Nat) :
    f.convert target magnitude ≤ target.infinity := by
  unfold convert
  split
  · exact target.nearest_le_infinity _ _
  · exact Nat.le_refl _

end BinaryFormat

/-- The constant may have been read from a text: a number of 64 bits is finite, a number of 32 bits
may be infinite. -/
def Constant.Legible : Constant → Prop
  | .f32 bits => BinaryFormat.single.classify bits.toNat ≠ .notANumber
  | .f64 bits => BinaryFormat.double.isFinite bits.toNat = true
  | _ => True

namespace Json

variable {room : Nat} {j : Json}

section Numbers

/-- What is read to 32 bits is a number or an infinity. -/
theorem exists_of_float32? {bits : UInt32} (h : j.float32? = some bits) :
    ∃ negative magnitude, magnitude ≤ BinaryFormat.single.infinity ∧
      bits.toNat = BinaryFormat.single.signed negative magnitude := by
  have hpattern : ∀ negative magnitude, magnitude ≤ BinaryFormat.single.infinity →
      (BinaryFormat.single.signed negative magnitude).toUInt32.toNat =
        BinaryFormat.single.signed negative magnitude := by
    intro negative magnitude hle
    have hlt : BinaryFormat.single.signed negative magnitude < 2 ^ 32 :=
      BinaryFormat.single.signed_lt negative hle
    simpa [Nat.toUInt32] using hlt
  unfold float32? at h
  split at h
  · obtain rfl := Option.some.inj h
    have hle := BinaryFormat.single.nearest_le_infinity
    exact ⟨_, _, hle _ _, hpattern _ _ (hle _ _)⟩
  · obtain ⟨m, -, rfl⟩ := Option.map_eq_some_iff.mp h
    have hle := BinaryFormat.double.convert_le_infinity .single m.2
    exact ⟨m.1, _, hle, hpattern _ _ hle⟩

/-- What is out of range is not read. -/
theorem magnitude?_lt {m : Bool × Nat} (h : j.magnitude? = some m) :
    m.2 < BinaryFormat.double.infinity := by
  unfold magnitude? at h
  split at h
  · split at h
    · cases h
    · obtain ⟨hlt, heq⟩ := Option.ite_none_right_eq_some.mp h
      exact Option.some.inj heq ▸ hlt
  · cases h

/-- What is read to 64 bits is finite. -/
theorem isFinite_of_float64? {bits : UInt64} (h : j.float64? = some bits) :
    BinaryFormat.double.isFinite bits.toNat = true := by
  obtain ⟨m, hm, rfl⟩ := Option.map_eq_some_iff.mp h
  have hlt := magnitude?_lt hm
  have hsigned : BinaryFormat.double.signed m.1 m.2 < 2 ^ 64 :=
    BinaryFormat.double.signed_lt m.1 (Nat.le_of_lt hlt)
  have hpattern : (BinaryFormat.double.signed m.1 m.2).toUInt64.toNat =
      BinaryFormat.double.signed m.1 m.2 := by
    simpa [Nat.toUInt64] using hsigned
  rw [hpattern, BinaryFormat.isFinite, BinaryFormat.double.classify_signed m.1 (Nat.le_of_lt hlt),
    if_pos hlt]

end Numbers

section Parts

theorem gives_constant : Gives constant? Constant.toJson Constant.Legible := by
  intro room j c hc
  unfold constant? at hc
  split at hc
  next inner w data hvariant =>
    obtain rfl := room_of_variant? hvariant
    have hflat : ∀ (v : String) (data : Json), data.depth = 0 →
        (dataVariant v data).depth ≤ inner + 1 := by
      intro v data hdata
      rw [depth_dataVariant, hdata]
      exact Nat.succ_le_succ inner.zero_le
    have hplain : ∀ {β : Type} {x : Option β} {make : β → Constant}, x.map make = some c →
        (∀ value, (make value).toJson.depth ≤ inner + 1 ∧ (make value).Legible) →
          c.toJson.depth ≤ inner + 1 ∧ c.Legible := by
      intro β x make hx hmake
      obtain ⟨value, -, rfl⟩ := Option.map_eq_some_iff.mp hx
      exact hmake value
    split at hc
    next => exact hplain hc (fun _ => ⟨hflat _ _ rfl, trivial⟩)
    next => exact hplain hc (fun _ => ⟨hflat _ _ rfl, trivial⟩)
    next => exact hplain hc (fun _ => ⟨hflat _ _ rfl, trivial⟩)
    next => exact hplain hc (fun _ => ⟨hflat _ _ rfl, trivial⟩)
    next => exact hplain hc (fun _ => ⟨hflat _ _ rfl, trivial⟩)
    next =>
      obtain ⟨bits, hbits, rfl⟩ := Option.map_eq_some_iff.mp hc
      refine ⟨hflat _ _ (depth_ofFloat _ _ _), ?_⟩
      obtain ⟨negative, magnitude, hle, hpattern⟩ := exists_of_float32? hbits
      rw [Constant.Legible, hpattern, BinaryFormat.single.classify_signed negative hle]
      split <;> simp
    next =>
      obtain ⟨bits, hbits, rfl⟩ := Option.map_eq_some_iff.mp hc
      exact ⟨hflat _ _ (depth_ofFloat _ _ _), isFinite_of_float64? hbits⟩
    next =>
      obtain ⟨pointee, hpointee, rfl⟩ := Option.map_eq_some_iff.mp hc
      refine ⟨?_, trivial⟩
      rw [Constant.toJson, depth_dataVariant]
      exact Nat.succ_le_succ (gives_ty inner data pointee hpointee).1
    next => cases hc
  next => cases hc

/-- What is made of the fields of a record is made with room for them. -/
theorem exists_of_fields? {β : Type} {fields : List String} {b : β}
    {next : Nat × List (Option Json) → Option β}
    (h : (fields? fields room j).bind next = some b) :
    ∃ inner slots, room = inner + 1 ∧ next (inner, slots) = some b := by
  obtain ⟨⟨inner, slots⟩, hfields, hnext⟩ := Option.bind_eq_some_iff.mp h
  exact ⟨inner, slots, room_of_fields? hfields, hnext⟩

/-- A choice with a record as its data fits if the members fit two levels deeper. -/
theorem depth_dataVariant_record_le_iff {v : String} {members : List (String × Json)} :
    (dataVariant v (record members)).depth ≤ room + 1 + 1 ↔ ∀ m ∈ members, m.2.depth ≤ room := by
  rw [depth_dataVariant, Nat.add_le_add_iff_right, depth_record_le_iff]

theorem gives_instruction :
    Gives instruction? (·.toJson) (fun i => ∀ c ∈ i.constants, c.Legible) := by
  intro room j i hi
  simp only [instruction?, Option.bind_eq_bind, Option.bind_eq_some_iff] at hi
  obtain ⟨⟨outer, w, data⟩, hvariant, data, rfl, hi⟩ := hi
  obtain rfl := room_of_variant? hvariant
  -- Only a constant, types and the lists of a call have containers in their form.
  split at hi
  next =>
    obtain ⟨inner, slots, rfl, hmade⟩ := exists_of_fields? hi
    split at hmade
    next _ dest value heq =>
      cases heq
      simp only [Option.bind_eq_some_iff, Option.some.injEq] at hmade
      obtain ⟨_, -, c, hc, rfl⟩ := hmade
      obtain ⟨hdepth, hlegible⟩ := gives_constant inner value c hc
      refine ⟨depth_dataVariant_record_le_iff.mpr (by simp [hdepth]), ?_⟩
      exact List.forall_mem_singleton.mpr hlegible
    next => cases hmade
  next =>
    obtain ⟨inner, slots, rfl, hmade⟩ := exists_of_fields? hi
    split at hmade
    next _ dest src heq =>
      cases heq
      simp only [Option.bind_eq_some_iff, Option.some.injEq] at hmade
      obtain ⟨_, -, _, -, rfl⟩ := hmade
      exact ⟨depth_dataVariant_record_le_iff.mpr (by simp), nofun⟩
    next => cases hmade
  next =>
    obtain ⟨inner, slots, rfl, hmade⟩ := exists_of_fields? hi
    split at hmade
    next _ dest ptr ty heq =>
      cases heq
      simp only [Option.bind_eq_some_iff, Option.some.injEq] at hmade
      obtain ⟨_, -, _, -, t, ht, rfl⟩ := hmade
      have hdepth := (gives_ty inner ty t ht).1
      exact ⟨depth_dataVariant_record_le_iff.mpr (by simp [hdepth]), nofun⟩
    next => cases hmade
  next =>
    obtain ⟨inner, slots, rfl, hmade⟩ := exists_of_fields? hi
    split at hmade
    next _ ptr value heq =>
      cases heq
      simp only [Option.bind_eq_some_iff, Option.some.injEq] at hmade
      obtain ⟨_, -, _, -, rfl⟩ := hmade
      exact ⟨depth_dataVariant_record_le_iff.mpr (by simp), nofun⟩
    next => cases hmade
  next =>
    obtain ⟨inner, slots, rfl, hmade⟩ := exists_of_fields? hi
    split at hmade
    next _ dest op left right heq =>
      cases heq
      simp only [Option.bind_eq_some_iff, Option.some.injEq] at hmade
      obtain ⟨_, -, _, -, _, -, _, -, rfl⟩ := hmade
      exact ⟨depth_dataVariant_record_le_iff.mpr (by simp), nofun⟩
    next => cases hmade
  next =>
    obtain ⟨inner, slots, rfl, hmade⟩ := exists_of_fields? hi
    split at hmade
    next _ dest op operand heq =>
      cases heq
      simp only [Option.bind_eq_some_iff, Option.some.injEq] at hmade
      obtain ⟨_, -, _, -, _, -, rfl⟩ := hmade
      exact ⟨depth_dataVariant_record_le_iff.mpr (by simp), nofun⟩
    next => cases hmade
  next =>
    obtain ⟨inner, slots, rfl, hmade⟩ := exists_of_fields? hi
    split at hmade
    next _ dest op left right heq =>
      cases heq
      simp only [Option.bind_eq_some_iff, Option.some.injEq] at hmade
      obtain ⟨_, -, _, -, _, -, _, -, rfl⟩ := hmade
      exact ⟨depth_dataVariant_record_le_iff.mpr (by simp), nofun⟩
    next => cases hmade
  next =>
    obtain ⟨inner, slots, rfl, hmade⟩ := exists_of_fields? hi
    split at hmade
    next _ dest src source target heq =>
      cases heq
      simp only [Option.bind_eq_some_iff, Option.some.injEq] at hmade
      obtain ⟨_, -, _, -, t, ht, u, hu, rfl⟩ := hmade
      have hsource := (gives_ty inner source t ht).1
      have htarget := (gives_ty inner target u hu).1
      exact ⟨depth_dataVariant_record_le_iff.mpr (by simp [hsource, htarget]), nofun⟩
    next => cases hmade
  next =>
    obtain ⟨inner, slots, rfl, hmade⟩ := exists_of_fields? hi
    split at hmade
    next _ dest callee args heq =>
      cases heq
      simp only [Option.bind_eq_some_iff, Option.some.injEq] at hmade
      obtain ⟨d, hd, _, -, rs, hrs, rfl⟩ := hmade
      have hdest := (gives_id.optional hd).1
      have hargs := (gives_id.list inner args rs hrs).1
      exact ⟨depth_dataVariant_record_le_iff.mpr (by simp [hdest, hargs]), nofun⟩
    next => cases hmade
  next => cases hi

theorem gives_terminator : Gives terminator? (·.toJson) (fun _ => True) := by
  intro room j t ht
  refine ⟨?_, trivial⟩
  simp only [terminator?, Option.bind_eq_bind, Option.bind_eq_some_iff] at ht
  obtain ⟨⟨outer, w, data⟩, hvariant, ht⟩ := ht
  split at ht
  next =>
    split at ht
    · obtain rfl := Option.some.inj ht
      exact room.zero_le
    · cases ht
  next hdata =>
    cases hdata
    obtain rfl := room_of_variant? hvariant
    obtain ⟨inner, slots, rfl, hmade⟩ := exists_of_fields? ht
    split at hmade
    next _ target heq =>
      cases heq
      simp only [Option.bind_eq_some_iff, Option.some.injEq] at hmade
      obtain ⟨_, -, rfl⟩ := hmade
      exact depth_dataVariant_record_le_iff.mpr (by simp)
    next => cases hmade
  next hdata =>
    cases hdata
    obtain rfl := room_of_variant? hvariant
    obtain ⟨inner, slots, rfl, hmade⟩ := exists_of_fields? ht
    split at hmade
    next _ condition onTrue onFalse heq =>
      cases heq
      simp only [Option.bind_eq_some_iff, Option.some.injEq] at hmade
      obtain ⟨_, -, _, -, _, -, rfl⟩ := hmade
      exact depth_dataVariant_record_le_iff.mpr (by simp)
    next => cases hmade
  next hdata =>
    cases hdata
    obtain rfl := room_of_variant? hvariant
    obtain ⟨inner, slots, rfl, hmade⟩ := exists_of_fields? ht
    split at hmade
    next _ value heq =>
      cases heq
      simp only [Option.bind_eq_some_iff, Option.some.injEq] at hmade
      obtain ⟨o, ho, rfl⟩ := hmade
      have hvalue := (gives_id.optional ho).1
      exact depth_dataVariant_record_le_iff.mpr (by simp [hvalue])
    next => cases hmade
  next => cases ht

theorem gives_block : Gives block? (·.toJson) (fun b => ∀ c ∈ b.constants, c.Legible) := by
  intro room j b hb
  simp only [block?, Option.bind_eq_bind] at hb
  obtain ⟨inner, slots, rfl, hmade⟩ := exists_of_fields? hb
  split at hmade
  next _ id label instructions terminator predecessors heq =>
    cases heq
    simp only [Option.bind_eq_some_iff, Option.some.injEq] at hmade
    obtain ⟨_, -, l, hl, is, his, t, ht, ps, hps, rfl⟩ := hmade
    have hlabel := (gives_string.optional hl).1
    obtain ⟨hinstructions, hlegible⟩ := gives_instruction.list inner instructions is his
    have hterminator := (gives_terminator inner terminator t ht).1
    have hpredecessors := (gives_id.list inner predecessors ps hps).1
    refine ⟨depth_record_le_iff.mpr ?_, List.forall_mem_flatMap.mpr hlegible⟩
    simp [hlabel, hinstructions, hterminator, hpredecessors]
  next => cases hmade

theorem gives_graph : Gives graph? (·.toJson) (fun g => ∀ c ∈ g.constants, c.Legible) := by
  intro room j g hg
  simp only [graph?, Option.bind_eq_bind] at hg
  obtain ⟨inner, slots, rfl, hmade⟩ := exists_of_fields? hg
  split at hmade
  next _ blocks entry next heq =>
    cases heq
    simp only [Option.bind_eq_some_iff, Option.some.injEq] at hmade
    obtain ⟨bs, hbs, _, -, _, -, rfl⟩ := hmade
    obtain ⟨hblocks, hlegible⟩ := gives_block.idMap inner blocks bs hbs
    exact ⟨depth_record_le_iff.mpr (by simp [hblocks]), List.forall_mem_flatMap.mpr hlegible⟩
  next => cases hmade

theorem gives_parameter : Gives parameter? (·.toJson) (fun _ => True) := by
  intro room j p hp
  simp only [parameter?, Option.bind_eq_bind] at hp
  obtain ⟨inner, slots, rfl, hmade⟩ := exists_of_fields? hp
  split at hmade
  next _ name ty reg heq =>
    cases heq
    simp only [Option.bind_eq_some_iff, Option.some.injEq] at hmade
    obtain ⟨_, -, t, ht, _, -, rfl⟩ := hmade
    have hty := (gives_ty inner ty t ht).1
    exact ⟨depth_record_le_iff.mpr (by simp [hty]), trivial⟩
  next => cases hmade

theorem gives_prototype : Gives prototype? (·.toJson) (fun _ => True) := by
  intro room j p hp
  simp only [prototype?, Option.bind_eq_bind] at hp
  obtain ⟨inner, slots, rfl, hmade⟩ := exists_of_fields? hp
  split at hmade
  next _ params result convention heq =>
    cases heq
    simp only [Option.bind_eq_some_iff, Option.some.injEq] at hmade
    obtain ⟨ps, hps, t, ht, _, -, rfl⟩ := hmade
    have hparams := (gives_parameter.list inner params ps hps).1
    have hresult := (gives_ty inner result t ht).1
    exact ⟨depth_record_le_iff.mpr (by simp [hparams, hresult]), trivial⟩
  next => cases hmade

theorem gives_attributes : Gives attributes? (·.toJson) (fun _ => True) := by
  intro room j a ha
  simp only [attributes?, Option.bind_eq_bind] at ha
  obtain ⟨inner, slots, rfl, hmade⟩ := exists_of_fields? ha
  split at hmade
  next _ linkage isPure heq =>
    cases heq
    simp only [Option.bind_eq_some_iff, Option.some.injEq] at hmade
    obtain ⟨_, -, _, -, rfl⟩ := hmade
    exact ⟨depth_record_le_iff.mpr (by simp), trivial⟩
  next => cases hmade

theorem gives_function : Gives function? (·.toJson) (fun f => ∀ c ∈ f.constants, c.Legible) := by
  intro room j f hf
  simp only [function?, Option.bind_eq_bind] at hf
  obtain ⟨inner, slots, rfl, hmade⟩ := exists_of_fields? hf
  split at hmade
  next _ id name prototype graph types attributes next heq =>
    cases heq
    simp only [Option.bind_eq_some_iff, Option.some.injEq] at hmade
    obtain ⟨_, -, _, -, p, hp, g, hg, ts, hts, a, ha, _, -, rfl⟩ := hmade
    have hprototype := (gives_prototype inner prototype p hp).1
    obtain ⟨hgraph, hlegible⟩ := gives_graph inner graph g hg
    have htypes := (gives_ty.idMap inner types ts hts).1
    have hattributes := (gives_attributes inner attributes a ha).1
    refine ⟨depth_record_le_iff.mpr ?_, hlegible⟩
    simp [hprototype, hgraph, htypes, hattributes]
  next => cases hmade

theorem gives_module : Gives module? (·.toJson) (fun m => ∀ c ∈ m.constants, c.Legible) := by
  intro room j m hm
  simp only [module?, Option.bind_eq_bind] at hm
  obtain ⟨inner, slots, rfl, hmade⟩ := exists_of_fields? hm
  split at hmade
  next _ name functions pending tables next heq =>
    cases heq
    simp only [Option.bind_eq_some_iff, Option.some.injEq] at hmade
    obtain ⟨_, -, fs, hfs, ps, hps, ts, hts, _, -, rfl⟩ := hmade
    obtain ⟨hfunctions, hlegible⟩ := gives_function.idMap inner functions fs hfs
    obtain ⟨hpending, hlegible'⟩ := gives_function.idMap inner pending ps hps
    have htables := (gives_tables inner tables ts hts).1
    refine ⟨depth_record_le_iff.mpr (by simp [hfunctions, hpending, htables]), ?_⟩
    exact List.forall_mem_append.mpr ⟨List.forall_mem_flatMap.mpr hlegible,
      List.forall_mem_flatMap.mpr hlegible'⟩
  next => cases hmade

end Parts

end Json

namespace Bundle

variable {b : Bundle}

/-- The form of a bundle that was read is not nested too deeply to be read, and its constants are
such as are read. -/
theorem depth_of_ofJson? {j : Json} (h : ofJson? j = some b) :
    b.toJson.depth ≤ Json.fullRoom ∧ ∀ c ∈ b.constants, c.Legible := by
  simp only [ofJson?, Option.bind_eq_bind] at h
  obtain ⟨inner, slots, hroom, hmade⟩ := Json.exists_of_fields? h
  split at hmade
  next _ modules heq =>
    cases heq
    obtain ⟨ms, hms, rfl⟩ := Option.map_eq_some_iff.mp hmade
    obtain ⟨hmodules, hlegible⟩ := Json.gives_module.list inner modules ms hms
    rw [hroom]
    exact ⟨Json.depth_record_le_iff.mpr (by simp [hmodules]), List.forall_mem_flatMap.mpr hlegible⟩
  next => cases hmade

end Bundle

end KernelFusion

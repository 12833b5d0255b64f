import KernelFusion.Proofs.ImageRoundTrip

/-!
# Images that end too early

A reader looks at its bytes from the front. So it never changes its mind when more bytes follow: it
may have run out of bytes, but otherwise it answers as before and leaves the new bytes as well. This
holds of every reader of the format, from single bytes up to images. Together with reading back it
says that an image marks its own end: behind all of its bytes anything may stand, and without the
last ones reading always runs out of bytes and never finds another value.
-/

namespace KernelFusion.Image

/-- On bytes that go on, the second reader answers as the first one does on the bytes alone and
leaves what follows, unless the first one runs out of bytes. -/
def GoesOn {α : Type} (get get' : Reader α) : Prop :=
  ∀ bytes more, get bytes = .error .unexpectedEnd ∨
    get' (bytes ++ more) = (get bytes).map (fun r => (r.1, r.2 ++ more))

/-- More bytes do not change an answer. -/
def Steady {α : Type} (get : Reader α) : Prop := GoesOn get get

/-- A reader that takes all of the bytes for a value runs out of them if the last ones are
missing. -/
theorem Reads.runs_out {α : Type} {get : Reader α} {bytes front : Bytes} {a : α}
    (h : Reads get bytes a) (hget : Steady get) (hfront : front <+: bytes)
    (hne : front ≠ bytes) : get front = .error .unexpectedEnd := by
  obtain ⟨more, rfl⟩ := hfront
  rcases hget front more with hout | hsame
  · exact hout
  · have hwhole := h []
    rw [List.append_nil, hsame] at hwhole
    cases hf : get front with
    | error e =>
      rw [hf] at hwhole
      cases hwhole
    | ok r =>
      rw [hf] at hwhole
      -- Nothing is left of all the bytes, so nothing followed the front.
      have hleft : r.2 ++ more = [] := congrArg Prod.snd (Except.ok.inj hwhole)
      have hmore : more = [] := (List.append_eq_nil_iff.mp hleft).2
      rw [hmore, List.append_nil] at hne
      exact absurd rfl hne

section Combine

variable {α β : Type} {get get' : Reader α} {next next' : α → Reader β}

theorem steady_pure (a : α) : Steady (pure a : Reader α) := fun _ _ => Or.inr rfl

theorem steady_throw (e : ImageFault) : Steady (throw e : Reader α) := fun _ _ => Or.inr rfl

/-- Reading on keeps answers if both parts do. -/
theorem GoesOn.bind (h : GoesOn get get') (hnext : ∀ a, GoesOn (next a) (next' a)) :
    GoesOn (get >>= next) (get' >>= next') := by
  intro bytes more
  have hfirst : (get >>= next) bytes = (get bytes >>= fun r => next r.1 r.2) := rfl
  have hsecond : (get' >>= next') (bytes ++ more) =
      (get' (bytes ++ more) >>= fun r => next' r.1 r.2) := rfl
  rw [hfirst, hsecond]
  rcases h bytes more with hout | hsame
  · rw [hout]
    exact Or.inl rfl
  · rw [hsame]
    rcases get bytes with e | ⟨a, left⟩
    · exact Or.inr rfl
    · exact hnext a left more

theorem Steady.bind (h : Steady get) (hnext : ∀ a, Steady (next a)) : Steady (get >>= next) :=
  GoesOn.bind h hnext

/-- Computing with what was read keeps answers. -/
theorem Steady.map {f : α → β} (h : Steady get) : Steady (get >>= fun a => pure (f a)) :=
  h.bind (fun a => steady_pure (f a))

/-- Computing with an answer keeps it. -/
theorem Steady.map_answer (h : Steady get) (f : α → β) :
    Steady (fun bytes => (get bytes).map (fun r => (f r.1, r.2)) : Reader β) := by
  intro bytes more
  rcases h bytes more with hout | hsame
  · exact Or.inl (by simp only [hout, Except.map])
  · right
    simp only [hsame]
    rcases get bytes with e | r <;> rfl

end Combine

section Numbers

/-- A number in groups is read up to its last group. -/
theorem steady_varint (bound groups : Nat) : Steady (varint bound groups : Reader Nat) := by
  induction groups with
  | zero => exact steady_throw .badVarint
  | succ groups ih =>
    intro bytes more
    cases bytes with
    | nil => exact Or.inl rfl
    | cons b rest =>
      rw [List.cons_append, varint, varint]
      by_cases hlast : b < 128
      · rw [if_pos hlast, if_pos hlast]
        right
        split <;> rfl
      · rw [if_neg hlast, if_neg hlast]
        exact ih.map_answer (fun n => b.toNat - 128 + 128 * n) rest more

/-- A number of a fixed width is read up to its last byte. -/
theorem steady_fixed (width : Nat) : Steady (fixed width : Reader Nat) := by
  induction width with
  | zero => exact steady_pure 0
  | succ width ih =>
    intro bytes more
    cases bytes with
    | nil => exact Or.inl rfl
    | cons b rest => exact ih.map_answer (fun n => b.toNat + 256 * n) rest more

theorem steady_uint32 : Steady uint32 := (steady_varint 15 5).map_answer _

theorem steady_uint64 : Steady uint64 := (steady_varint 1 10).map_answer _

theorem steady_int32 : Steady int32 := steady_uint32.map

theorem steady_int64 : Steady int64 := steady_uint64.map

theorem steady_float32 : Steady float32 := (steady_fixed 4).map_answer _

theorem steady_float64 : Steady float64 := (steady_fixed 8).map_answer _

end Numbers

section Parts

variable {α β : Type} {get : Reader α}

theorem steady_byte : Steady byte := by
  intro bytes more
  cases bytes with
  | nil => exact Or.inl rfl
  | cons b rest => exact Or.inr rfl

theorem steady_bool : Steady bool := by
  refine steady_byte.bind (fun b => ?_)
  split
  · exact steady_pure false
  · exact steady_pure true
  · exact steady_throw .badBool

theorem steady_option (h : Steady get) : Steady (option get) := by
  refine steady_byte.bind (fun b => ?_)
  split
  · exact steady_pure none
  · exact h.map
  · exact steady_throw .badOption

theorem steady_length : Steady length := steady_uint64.map

theorem steady_take (n : Nat) : Steady (take n) := by
  intro bytes more
  unfold take
  by_cases hlen : (bytes.take n).length = n
  · have hle : n ≤ bytes.length := by
      rw [List.length_take] at hlen
      omega
    right
    simp only [List.take_append_of_le_length hle, List.drop_append_of_le_length hle, if_pos hlen]
    rfl
  · exact Or.inl (if_neg hlen)

theorem steady_string : Steady string := by
  refine steady_length.bind (fun n => (steady_take n).bind (fun bytes => ?_))
  split
  · exact steady_pure _
  · exact steady_throw .badText

theorem steady_repeated (h : Steady get) (n : Nat) : Steady (repeated get n) := by
  induction n with
  | zero => exact steady_pure []
  | succ n ih => exact h.bind (fun a => ih.map)

theorem steady_list (h : Steady get) : Steady (list get) :=
  steady_length.bind (steady_repeated h)

theorem steady_pair {other : Reader β} (h : Steady get) (h' : Steady other) :
    Steady (pair get other) :=
  h.bind (fun _ => h'.map)

theorem steady_idMap (h : Steady get) : Steady (idMap get) :=
  (steady_list (steady_pair steady_uint32 h)).map

theorem steady_tables : Steady tables :=
  (steady_list (steady_pair steady_string (steady_list steady_string))).map

theorem steady_word [Worded α] : Steady (word : Reader α) := by
  refine steady_uint32.bind (fun position => ?_)
  split
  · exact steady_pure _
  · exact steady_throw .badVariant

end Parts

section Types

/-- More levels than were needed do not change an answer. -/
theorem goesOn_tyWithin {levels levels' : Nat} (h : levels ≤ levels') :
    GoesOn (tyWithin levels) (tyWithin levels') := by
  induction levels generalizing levels' with
  | zero => exact fun _ _ => Or.inl rfl
  | succ levels ih =>
    obtain ⟨levels', rfl⟩ := Nat.exists_eq_add_one.mpr (Nat.lt_of_lt_of_le levels.succ_pos h)
    have hinner := ih (Nat.le_of_succ_le_succ h)
    refine GoesOn.bind steady_uint32 (fun position => ?_)
    split
    · exact hinner.bind (fun _ => steady_pure _)
    · exact hinner.bind (fun element => steady_uint64.map)
    · split
      · exact steady_pure _
      · exact steady_throw .badVariant

theorem steady_ty : Steady ty := by
  intro bytes more
  have hlevels : bytes.length + 1 ≤ (bytes ++ more).length + 1 := by
    rw [List.length_append]
    omega
  exact goesOn_tyWithin hlevels bytes more

theorem steady_constant : Steady constant := by
  refine steady_uint32.bind (fun position => ?_)
  split
  · exact steady_bool.map
  · exact steady_int32.map
  · exact steady_int64.map
  · exact steady_uint32.map
  · exact steady_uint64.map
  · exact steady_float32.map
  · exact steady_float64.map
  · exact steady_ty.map
  · exact steady_throw .badVariant

end Types

section Bodies

theorem steady_instruction : Steady instruction := by
  have register := steady_uint32
  refine steady_uint32.bind (fun position => ?_)
  split
  · exact register.bind (fun dest => steady_constant.map)
  · exact register.bind (fun dest => register.map)
  · exact register.bind (fun dest => register.bind (fun ptr => steady_ty.map))
  · exact register.bind (fun ptr => register.map)
  · exact register.bind (fun dest => steady_word.bind (fun op =>
      register.bind (fun left => register.map)))
  · exact register.bind (fun dest => steady_word.bind (fun op =>
      register.map))
  · exact register.bind (fun dest => steady_word.bind (fun op =>
      register.bind (fun left => register.map)))
  · exact register.bind (fun dest => register.bind (fun src =>
      steady_ty.bind (fun source => steady_ty.map)))
  · exact (steady_option register).bind (fun dest => register.bind (fun callee =>
      (steady_list register).map))
  · exact steady_throw .badVariant

theorem steady_terminator : Steady terminator := by
  have number := steady_uint32
  refine steady_uint32.bind (fun position => ?_)
  split
  · exact number.map
  · exact number.bind (fun condition => number.bind (fun onTrue =>
      number.map))
  · exact (steady_option number).map
  · exact steady_pure _
  · exact steady_throw .badVariant

theorem steady_block : Steady block :=
  steady_uint32.bind (fun _ => (steady_option steady_string).bind (fun _ =>
    (steady_list steady_instruction).bind (fun _ => steady_terminator.bind (fun _ =>
      (steady_list steady_uint32).map))))

theorem steady_graph : Steady graph :=
  (steady_idMap steady_block).bind (fun _ => steady_uint32.bind (fun _ => steady_uint32.map))

end Bodies

section Modules

theorem steady_parameter : Steady parameter :=
  steady_string.bind (fun _ => steady_ty.bind (fun _ => steady_uint32.map))

theorem steady_prototype : Steady prototype :=
  (steady_list steady_parameter).bind (fun _ => steady_ty.bind (fun _ => steady_word.map))

theorem steady_attributes : Steady attributes :=
  steady_word.bind (fun _ => steady_bool.map)

theorem steady_function : Steady function :=
  steady_uint32.bind (fun _ => steady_string.bind (fun _ => steady_prototype.bind (fun _ =>
    steady_graph.bind (fun _ => (steady_idMap steady_ty).bind (fun _ =>
      steady_attributes.bind (fun _ => steady_uint32.map))))))

theorem steady_module : Steady module :=
  steady_string.bind (fun _ => (steady_idMap steady_function).bind (fun _ =>
    (steady_idMap steady_function).bind (fun _ => steady_tables.bind (fun _ =>
      steady_uint32.map))))

/-- More bytes behind an image do not change what is read. -/
theorem steady_image : Steady image :=
  (steady_take 4).bind (fun _ => steady_uint32.bind (fun _ => (steady_list steady_module).map))

end Modules

end KernelFusion.Image

namespace KernelFusion.Bundle

/-- Magic bytes that are cut off are no JSON text. -/
theorem ofText_of_prefix_magic {front : Bytes} (h : front <+: Image.magic)
    (hne : front ≠ Image.magic) : ofText front = .error .json := by
  have hlength : front.length < Image.magic.length :=
    Nat.lt_of_le_of_ne h.length_le (fun he => hne (h.eq_of_length he))
  rw [List.prefix_iff_eq_take.mp h]
  generalize front.length = n at hlength ⊢
  match n, hlength with
  | 0, _ => rfl
  | 1, _ => rfl
  | 2, _ => rfl
  | 3, _ => rfl

/-- An image marks its own end. Whatever follows it, the bundle is read back; and if bytes at its
end are missing, reading runs out of bytes, or finds no JSON text if even the magic bytes are cut
off. -/
theorem image_selfDelimiting {b : Bundle} (h : ∀ n ∈ b.lengths, n < 2 ^ 64) :
    (∀ more, ofImage (b.toImage ++ more) = .ok b) ∧
      ∀ front, front <+: b.toImage → front ≠ b.toImage →
        ofImage front = .error (.image .unexpectedEnd) ∧
        decode front =
          .error (if Image.magic <+: front then .image .unexpectedEnd else .json) := by
  have hread := Image.reads_image h
  refine ⟨fun more => ?_, fun front hfront hne => ?_⟩
  · rw [ofImage, hread more]
    rfl
  · have hout : ofImage front = .error (.image .unexpectedEnd) := by
      rw [ofImage, hread.runs_out Image.steady_image hfront hne]
    refine ⟨hout, ?_⟩
    by_cases hmagic : Image.magic <+: front
    · rw [decode, if_pos (List.isPrefixOf_iff_prefix.mpr hmagic), if_pos hmagic, hout]
    · have himage : Image.magic <+: b.toImage := ⟨_, (List.append_assoc ..).symm⟩
      have hcut : front <+: Image.magic :=
        (List.prefix_or_prefix_of_prefix hfront himage).resolve_right hmagic
      have hshorter : front ≠ Image.magic := fun he => hmagic (he ▸ List.prefix_rfl)
      rw [decode, if_neg (mt List.isPrefixOf_iff_prefix.mp hmagic), if_neg hmagic,
        ofText_of_prefix_magic hcut hshorter]

/-- The image of extreme values is read up to its end, and not if it is cut off within the first
module's name or within the magic bytes. -/
theorem image_selfDelimiting_extremes :
    (∀ n ∈ Samples.extremes.lengths, n < 2 ^ 64) ∧
      ofImage (Samples.extremes.toImage ++ [0xff]) = .ok Samples.extremes ∧
      ofImage (Samples.extremes.toImage.take 9) = .error (.image .unexpectedEnd) ∧
      decode (Samples.extremes.toImage.take 9) = .error (.image .unexpectedEnd) ∧
      decode (Samples.extremes.toImage.take 3) = .error .json := by
  have h : ∀ n ∈ Samples.extremes.lengths, n < 2 ^ 64 := by decide
  have hlong : 9 < Samples.extremes.toImage.length := by decide +kernel
  have hcut : ∀ n < 10, Samples.extremes.toImage.take n ≠ Samples.extremes.toImage := by
    intro n hn he
    have hlength := congrArg List.length he
    rw [List.length_take] at hlength
    omega
  obtain ⟨hmore, hfront⟩ := image_selfDelimiting h
  obtain ⟨hout, hnine⟩ := hfront _ (List.take_prefix 9 _) (hcut 9 (by decide))
  obtain ⟨-, hthree⟩ := hfront _ (List.take_prefix 3 _) (hcut 3 (by decide))
  exact ⟨h, hmore [0xff], hout, hnine, hthree⟩

end KernelFusion.Bundle

import KernelFusion.Bundle.Image
import KernelFusion.Proofs.Maps

/-!
# Reading back what was written

A reader reads bytes as a value if it takes exactly these bytes off the front, whatever follows
them. This goes from the parts of a value to the whole: values that are written one after the other
are read one after the other. So each way of writing has one law here, from numbers up to lists,
maps and tables. Lengths are numbers of 64 bits, so a list must not be longer than they reach.
-/

namespace KernelFusion.Image

/-- A reader takes exactly these bytes off the front and makes a value of them, whatever follows. -/
def Reads {α : Type} (get : Reader α) (bytes : Bytes) (a : α) : Prop :=
  ∀ rest, get (bytes ++ rest) = .ok (a, rest)

section Combine

variable {α β : Type} {get : Reader α} {bytes more : Bytes} {a : α} {b : β}

/-- Reading on with what was read. -/
theorem Reads.bind {next : α → Reader β} (h : Reads get bytes a) (hnext : Reads (next a) more b) :
    Reads (get >>= next) (bytes ++ more) b := by
  intro rest
  have hfirst := h (more ++ rest)
  rw [← List.append_assoc] at hfirst
  calc (get >>= next) (bytes ++ more ++ rest)
      = (get (bytes ++ more ++ rest) >>= fun r => next r.1 r.2) := rfl
    _ = next a (more ++ rest) := by rw [hfirst]; rfl
    _ = .ok (b, rest) := hnext rest

/-- Ending with what was read. -/
theorem Reads.yield {next : α → Reader β} (h : Reads get bytes a) (hnext : next a = pure b) :
    Reads (get >>= next) bytes b := by
  intro rest
  calc (get >>= next) (bytes ++ rest)
      = (get (bytes ++ rest) >>= fun r => next r.1 r.2) := rfl
    _ = next a rest := by rw [h rest]; rfl
    _ = .ok (b, rest) := by rw [hnext]; rfl

/-- Computing with what was read. -/
theorem Reads.map {f : α → β} (h : Reads get bytes a) :
    Reads (get >>= fun x => pure (f x)) bytes (f a) :=
  h.yield rfl

end Combine

section Numbers

theorem toNat_toUInt8 {n : Nat} (h : n < 256) : n.toUInt8.toNat = n := by
  simpa [Nat.toUInt8] using h

/-- A number that fits in the groups is read back. -/
theorem varint_putVarint {bound : Nat} (hbound : bound < 128) (groups : Nat) {n : Nat}
    (h : n < 128 ^ groups * (bound + 1)) (rest : Bytes) :
    varint bound (groups + 1) (putVarint (groups + 1) n ++ rest) = .ok (n, rest) := by
  induction groups generalizing n with
  | zero =>
    have hn : n < 128 := by omega
    have hbyte := toNat_toUInt8 (show n < 256 by omega)
    have hlt : n.toUInt8 < 128 := by
      rw [UInt8.lt_iff_toNat_lt, hbyte]
      exact hn
    have hfits : ¬ (0 = 0 ∧ bound < n.toUInt8.toNat) := by
      rw [hbyte]
      omega
    rw [putVarint, if_pos hn, List.singleton_append, varint, if_pos hlt, if_neg hfits, hbyte]
  | succ groups ih =>
    by_cases hn : n < 128
    · have hbyte := toNat_toUInt8 (show n < 256 by omega)
      have hlt : n.toUInt8 < 128 := by
        rw [UInt8.lt_iff_toNat_lt, hbyte]
        exact hn
      rw [putVarint, if_pos hn, List.singleton_append, varint, if_pos hlt, if_neg (by simp), hbyte]
    · have hbyte := toNat_toUInt8 (show n % 128 + 128 < 256 by omega)
      have hge : ¬ (n % 128 + 128).toUInt8 < 128 := by
        rw [UInt8.lt_iff_toNat_lt, hbyte]
        exact Nat.not_lt.mpr (Nat.le_add_left _ _)
      have hquotient : n / 128 < 128 ^ groups * (bound + 1) := by
        rw [Nat.pow_succ] at h
        exact Nat.div_lt_of_lt_mul (by rw [← Nat.mul_assoc, Nat.mul_comm 128]; exact h)
      have hvalue : (n % 128 + 128) - 128 + 128 * (n / 128) = n := by omega
      rw [putVarint, if_neg hn, List.cons_append, varint, if_neg hge, ih hquotient, hbyte]
      exact congrArg (fun k => Except.ok (k, rest)) hvalue

/-- A number of 32 bits is read back from its groups. -/
theorem reads_uint32_putVarint {n : Nat} (h : n < 2 ^ 32) :
    Reads uint32 (putVarint 5 n) n.toUInt32 := by
  intro rest
  rw [uint32, varint_putVarint (by decide) 4 h]
  rfl

theorem reads_uint64_putVarint {n : Nat} (h : n < 2 ^ 64) :
    Reads uint64 (putVarint 10 n) n.toUInt64 := by
  intro rest
  rw [uint64, varint_putVarint (by decide) 9 h]
  rfl

theorem reads_uint32 (n : UInt32) : Reads uint32 (putUInt32 n) n := by
  have h := reads_uint32_putVarint n.toNat_lt
  rwa [show n.toNat.toUInt32 = n from UInt32.ofNat_toNat] at h

theorem reads_uint64 (n : UInt64) : Reads uint64 (putUInt64 n) n := by
  have h := reads_uint64_putVarint n.toNat_lt
  rwa [show n.toNat.toUInt64 = n from UInt64.ofNat_toNat] at h

/-- An integer is found again from its folded number. -/
theorem unzigzag_zigzag (n : Int) : unzigzag (zigzag n) = n := by
  unfold zigzag unzigzag
  by_cases h : 0 ≤ n
  · rw [if_pos h, if_pos (by omega)]
    omega
  · rw [if_neg h, if_neg (by omega)]
    omega

/-- Folding takes one bit more than the size of a number. -/
theorem zigzag_lt {n : Int} {k : Nat} (hle : -(k : Int) ≤ n) (hlt : n < k) : zigzag n < 2 * k := by
  unfold zigzag
  split <;> omega

theorem reads_int32 (n : Int32) : Reads int32 (putInt32 n) n := by
  have hlt : zigzag n.toInt < 2 ^ 32 :=
    zigzag_lt (k := 2 ^ 31) n.minValue_le_toInt (by have := n.toInt_lt; omega)
  have h := (reads_uint32_putVarint hlt).map (f := fun k => Int32.ofInt (unzigzag k.toNat))
  have hback : (zigzag n.toInt).toUInt32.toNat = zigzag n.toInt := by
    simpa [Nat.toUInt32] using hlt
  rwa [hback, unzigzag_zigzag, Int32.ofInt_toInt] at h

theorem reads_int64 (n : Int64) : Reads int64 (putInt64 n) n := by
  have hlt : zigzag n.toInt < 2 ^ 64 :=
    zigzag_lt (k := 2 ^ 63) n.minValue_le_toInt (by have := n.toInt_lt; omega)
  have h := (reads_uint64_putVarint hlt).map (f := fun k => Int64.ofInt (unzigzag k.toNat))
  have hback : (zigzag n.toInt).toUInt64.toNat = zigzag n.toInt := by
    simpa [Nat.toUInt64] using hlt
  rwa [hback, unzigzag_zigzag, Int64.ofInt_toInt] at h

/-- A number that fits in its width is read back. -/
theorem fixed_putFixed (width : Nat) {n : Nat} (h : n < 256 ^ width) (rest : Bytes) :
    fixed width (putFixed width n ++ rest) = .ok (n, rest) := by
  induction width generalizing n with
  | zero =>
    have hzero : n = 0 := by simpa using h
    rw [hzero]
    rfl
  | succ width ih =>
    have hbyte := toNat_toUInt8 (show n % 256 < 256 by omega)
    have hquotient : n / 256 < 256 ^ width :=
      Nat.div_lt_of_lt_mul (by rw [Nat.mul_comm]; exact h)
    have hvalue : n % 256 + 256 * (n / 256) = n := Nat.mod_add_div n 256
    rw [putFixed, List.cons_append, fixed, ih hquotient, hbyte]
    exact congrArg (fun k => Except.ok (k, rest)) hvalue

theorem reads_float32 (bits : UInt32) : Reads float32 (putFixed 4 bits.toNat) bits := by
  intro rest
  rw [float32, fixed_putFixed 4 bits.toNat_lt]
  exact congrArg (fun b => Except.ok (b, rest)) (UInt32.ofNat_toNat (x := bits))

theorem reads_float64 (bits : UInt64) : Reads float64 (putFixed 8 bits.toNat) bits := by
  intro rest
  rw [float64, fixed_putFixed 8 bits.toNat_lt]
  exact congrArg (fun b => Except.ok (b, rest)) (UInt64.ofNat_toNat (x := bits))

end Numbers

section Choices

variable {α : Type} {get : Reader α} {put : α → Bytes}

theorem reads_byte (b : UInt8) : Reads byte [b] b := fun _ => rfl

theorem reads_bool (value : Bool) : Reads bool (putBool value) value := by
  cases value
  · exact fun _ => rfl
  · exact fun _ => rfl

/-- A value that may be missing is read back if it is read back when it is there. -/
theorem reads_option {value : Option α} (h : ∀ a ∈ value, Reads get (put a) a) :
    Reads (option get) (putOption put value) value := by
  cases value with
  | none => exact fun _ => rfl
  | some a => exact (reads_byte 1).bind (h a rfl).map

/-- A position below 128 takes one byte. -/
theorem Reads.choice {next : UInt32 → Reader α} {bytes : Bytes} {a : α} (b : UInt8)
    (hb : b.toNat < 128) (h : Reads (next b.toUInt32) bytes a) :
    Reads (uint32 >>= next) (b :: bytes) a := by
  have hput : putUInt32 b.toUInt32 = [b] := by
    simp [putUInt32, putVarint, hb]
  exact (hput ▸ reads_uint32 b.toUInt32).bind h

end Choices

section Lists

variable {α β : Type} {get : Reader α} {put : α → Bytes}

theorem reads_length {n : Nat} (h : n < 2 ^ 64) : Reads length (putLength n) n := by
  have hread := (reads_uint64_putVarint h).map (f := UInt64.toNat)
  have hback : n.toUInt64.toNat = n := by simpa [Nat.toUInt64] using h
  rwa [hback] at hread

/-- As many values as were written are read back. -/
theorem reads_repeated {items : List α} (h : ∀ a ∈ items, Reads get (put a) a) :
    Reads (repeated get items.length) (items.flatMap put) items := by
  induction items with
  | nil => exact fun _ => rfl
  | cons a rest ih =>
    rw [List.flatMap_cons]
    exact (h a List.mem_cons_self).bind (ih (fun b hb => h b (List.mem_cons_of_mem a hb))).map

/-- A list is read back if its items are. -/
theorem reads_list {items : List α} (hlen : items.length < 2 ^ 64)
    (h : ∀ a ∈ items, Reads get (put a) a) : Reads (list get) (putList put items) items :=
  (reads_length hlen).bind (reads_repeated h)

theorem reads_take (bytes : Bytes) : Reads (take bytes.length) bytes bytes := by
  intro rest
  simp [take]

/-- A text is read back. -/
theorem reads_string {s : String} (hlen : (Bytes.ofString s).length < 2 ^ 64) :
    Reads string (putString s) s := by
  have hbytes := reads_take (Bytes.ofString s)
  exact (reads_length hlen).bind (hbytes.yield (by simp only [Bytes.toString?_ofString]))

/-- A pair is read back if its parts are. -/
theorem reads_pair {first : Reader α} {second : Reader β} {bytes more : Bytes} {a : α} {b : β}
    (ha : Reads first bytes a) (hb : Reads second more b) :
    Reads (pair first second) (bytes ++ more) (a, b) :=
  ha.bind hb.map

/-- A map is read back if its values are. -/
theorem reads_idMap {m : IdMap α} (h : ∀ a ∈ m.values, Reads get (put a) a) :
    Reads (idMap get) (putIdMap put m) m := by
  have hentries : Reads (list (pair uint32 get)) (putIdMap put m) m.entries :=
    reads_list (Nat.lt_of_le_of_lt m.size_le (by decide)) (fun e he =>
      reads_pair (reads_uint32 e.1) (h e.2 (List.mem_map_of_mem he)))
  have hread := hentries.map (f := IdMap.ofList)
  rwa [IdMap.ofList_entries] at hread

/-- Tables are read back in their order. -/
theorem reads_tables {t : Tables} (hsize : t.size < 2 ^ 64)
    (h : ∀ e ∈ t.entries, (Bytes.ofString e.1).length < 2 ^ 64 ∧ e.2.length < 2 ^ 64 ∧
      ∀ s ∈ e.2, (Bytes.ofString s).length < 2 ^ 64) :
    Reads tables (putTables t) t := by
  have hentries : Reads (list (pair string (list string))) (putTables t) t.entries :=
    reads_list hsize (fun e he => by
      obtain ⟨hname, hlen, hrecords⟩ := h e he
      exact reads_pair (reads_string hname)
        (reads_list hlen (fun s hs => reads_string (hrecords s hs))))
  have hread := hentries.map (f := Tables.ofList)
  rwa [Tables.ofList_entries] at hread

end Lists

section Words

variable {α : Type} [Worded α] [BEq α] [LawfulBEq α]

/-- A choice is read back if it is among the listed ones. -/
theorem reads_word {a : α} (h : a ∈ (Worded.all : List α))
    (hfew : (Worded.all : List α).length < 128) : Reads word (putWord a) a := by
  have hposition : Worded.position a < (Worded.all : List α).length :=
    List.idxOf_lt_length_iff.mpr h
  have hat : Worded.atPosition? (Worded.position a) = some a := by
    have hfound := List.findIdx_getElem (p := (· == a)) (w := hposition)
    exact (List.getElem?_eq_getElem hposition).trans (congrArg some (eq_of_beq hfound))
  have hback : (Worded.position a).toUInt32.toNat = Worded.position a := by
    simpa [Nat.toUInt32] using Nat.lt_trans hposition (Nat.lt_trans hfew (by decide))
  have hput : Reads uint32 (putWord a) (Worded.position a).toUInt32 :=
    reads_uint32_putVarint (Nat.lt_trans hposition (Nat.lt_trans hfew (by decide)))
  exact hput.yield (by simp only [hback, hat])

end Words

end KernelFusion.Image

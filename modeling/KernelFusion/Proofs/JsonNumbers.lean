import KernelFusion.Json.Number
import KernelFusion.Proofs.JsonStrings

/-!
# Reading numbers of JSON back

A number is written as its parts: sign, whole digits, fraction and exponent. From the text the same
parts are taken again, so integers are read back at once. Of a finite floating-point number only the
form is settled here, since the text is read to a value by scaling: the shortest digits start with a
digit other than zero, and both layouts set them as the parts of a number.
-/

namespace KernelFusion.Json

/-- At least one digit, and nothing but digits. -/
structure IsDigits (l : Bytes) : Prop where
  /-- There is a digit. -/
  nonempty : l ≠ []
  /-- All bytes are digits. -/
  digits : ∀ b ∈ l, isDigit b = true

namespace NumberParts

/-- Parts that a number can have. -/
structure Valid (p : NumberParts) : Prop where
  /-- The whole part has digits. -/
  whole : IsDigits p.whole
  /-- A zero is the only digit of the whole part if it is the first one. -/
  leading : p.whole.head? = some 0x30 → p.whole.length = 1
  /-- A fraction has digits. -/
  fraction : ∀ l ∈ p.fraction, IsDigits l
  /-- An exponent has digits. -/
  exponent : ∀ e ∈ p.exponent, IsDigits e.2

/-- The text of an exponent; its sign is always written. -/
def exponentText (p : NumberParts) : Bytes :=
  p.exponent.elim [] (fun e => 0x65 :: (if e.1 then 0x2d else 0x2b) :: e.2)

/-- The text behind the whole part. -/
def rest (p : NumberParts) : Bytes := p.fraction.elim [] (0x2e :: ·) ++ p.exponentText

/-- The text of a number with these parts. -/
def text (p : NumberParts) : Bytes := (if p.negative then [0x2d] else []) ++ (p.whole ++ p.rest)

end NumberParts

section Parts

variable {p : NumberParts}

/-- Digits end where something else follows. -/
theorem span_isDigit {l next : Bytes} (hl : IsDigits l)
    (hnext : ∀ b ∈ next.head?, isDigit b = false) :
    (l ++ next).takeWhile isDigit = l ∧ (l ++ next).dropWhile isDigit = next := by
  rw [List.takeWhile_append_of_pos hl.digits, List.dropWhile_append_of_pos hl.digits]
  cases next with
  | nil => exact ⟨List.append_nil l, rfl⟩
  | cons b next =>
    have hb : ¬ isDigit b = true := Bool.eq_false_iff.mp (hnext b rfl)
    rw [List.takeWhile_cons_of_neg hb, List.dropWhile_cons_of_neg hb]
    exact ⟨List.append_nil l, rfl⟩

/-- A digit is no minus sign. -/
theorem ne_minus_of_isDigit {b : UInt8} (h : isDigit b = true) : b ≠ 0x2d := by
  rintro rfl
  cases h

theorem exponentPart?_exponentText (h : p.Valid) :
    exponentPart? p.exponentText = some p.exponent := by
  obtain ⟨negative, whole, fraction, exponent⟩ := p
  cases exponent with
  | none => rfl
  | some e =>
    obtain ⟨minus, digits⟩ := e
    have hdigits := h.exponent (minus, digits) rfl
    have hall : (!digits.isEmpty && digits.all isDigit) = true := by
      simpa [List.all_eq_true, hdigits.nonempty] using hdigits.digits
    cases minus <;> exact if_pos hall

/-- An exponent does not start with a digit. -/
theorem isDigit_exponentText (p : NumberParts) :
    ∀ b ∈ p.exponentText.head?, isDigit b = false := by
  obtain ⟨negative, whole, fraction, exponent⟩ := p
  cases exponent with
  | none => rintro b ⟨⟩
  | some e => rintro b ⟨⟩; rfl

/-- Nothing behind the whole part starts with a digit. -/
theorem isDigit_rest (p : NumberParts) : ∀ b ∈ p.rest.head?, isDigit b = false := by
  obtain ⟨negative, whole, fraction, exponent⟩ := p
  cases fraction with
  | none => exact isDigit_exponentText ⟨negative, whole, none, exponent⟩
  | some l => rintro b ⟨⟩; rfl

/-- The sign is taken from the text of a number. -/
theorem sign_text {negative : Bool} {unsigned : Bytes} (h : p.Valid)
    (hsign : (match p.text with
      | 0x2d :: next => (true, next)
      | next => (false, next)) = (negative, unsigned)) :
    negative = p.negative ∧ unsigned = p.whole ++ p.rest := by
  obtain ⟨minus, whole, fraction, exponent⟩ := p
  cases minus with
  | true =>
    obtain ⟨rfl, rfl⟩ := Prod.mk.inj hsign
    exact ⟨rfl, rfl⟩
  | false =>
    split at hsign
    next next htext =>
      obtain ⟨b, digits, rfl⟩ := List.exists_cons_of_ne_nil h.whole.nonempty
      obtain ⟨rfl, -⟩ := List.cons.inj htext
      exact absurd rfl (ne_minus_of_isDigit (h.whole.digits 0x2d List.mem_cons_self))
    next =>
      obtain ⟨rfl, rfl⟩ := Prod.mk.inj hsign
      exact ⟨rfl, rfl⟩

/-- The parts of a number are taken from its text. -/
theorem numberParts?_text (h : p.Valid) : numberParts? p.text = some p := by
  have hwhole := span_isDigit h.whole (isDigit_rest p)
  have hexponent := exponentPart?_exponentText h
  have hleading :
      (p.whole.isEmpty || (p.whole.head? == some 0x30 && p.whole.length != 1)) = false := by
    simpa [h.whole.nonempty] using h.leading
  unfold numberParts?
  split
  next negative unsigned hsign =>
    obtain ⟨rfl, rfl⟩ := sign_text h hsign
    simp only [hwhole, hleading]
    obtain ⟨negative, whole, fraction, exponent⟩ := p
    cases fraction with
    | none =>
      cases exponent with
      | none => rfl
      | some e => exact congrArg (Option.map _) hexponent
    | some l =>
      have hl := h.fraction l rfl
      have hspan := span_isDigit hl (isDigit_exponentText ⟨negative, whole, some l, exponent⟩)
      have hfraction : l.isEmpty = false := by simpa using hl.nonempty
      simp only [NumberParts.rest, Option.elim_some, List.cons_append, hspan, hfraction, hexponent]
      rfl

theorem isNumberByte_of_isDigit {b : UInt8} (h : isDigit b = true) : isNumberByte b = true := by
  simp [isNumberByte, h]

/-- The text of a number has the form of a number. -/
theorem numeral_text (h : p.Valid) : Numeral p.text where
  head := by
    obtain ⟨b, digits, hwhole⟩ := List.exists_cons_of_ne_nil h.whole.nonempty
    have hb := h.whole.digits b (hwhole ▸ List.mem_cons_self)
    cases hsign : p.negative with
    | true => exact ⟨0x2d, p.whole ++ p.rest, by rw [NumberParts.text, hsign]; rfl, Or.inl rfl⟩
    | false =>
      exact ⟨b, digits ++ p.rest, by rw [NumberParts.text, hsign, hwhole]; rfl, Or.inr hb⟩
  bytes := by
    have hdigits : ∀ {l : Bytes}, IsDigits l → ∀ b ∈ l, isNumberByte b = true :=
      fun hl b hb => isNumberByte_of_isDigit (hl.digits b hb)
    have hsign : ∀ b ∈ (if p.negative then [0x2d] else []), isNumberByte b = true := by
      cases p.negative with
      | true => exact List.forall_mem_singleton.mpr rfl
      | false => exact fun _ hb => nomatch hb
    have hfraction : ∀ b ∈ p.fraction.elim [] (0x2e :: ·), isNumberByte b = true := by
      cases hl : p.fraction with
      | none => exact fun _ hb => nomatch hb
      | some l => exact List.forall_mem_cons.mpr ⟨rfl, hdigits (h.fraction l hl)⟩
    have hexponent : ∀ b ∈ p.exponentText, isNumberByte b = true := by
      unfold NumberParts.exponentText
      cases he : p.exponent with
      | none => exact fun _ hb => nomatch hb
      | some e =>
        have hmark : isNumberByte (if e.1 then 0x2d else 0x2b) = true := by cases e.1 <;> rfl
        exact List.forall_mem_cons.mpr
          ⟨rfl, List.forall_mem_cons.mpr ⟨hmark, hdigits (h.exponent e he)⟩⟩
    exact List.forall_mem_append.mpr ⟨hsign, List.forall_mem_append.mpr
      ⟨hdigits h.whole, List.forall_mem_append.mpr ⟨hfraction, hexponent⟩⟩⟩
  parts := by
    rw [numberParts?_text h]
    rfl

end Parts

section Integers

/-- A positive number does not start with a zero. -/
theorem exists_toDigits_eq_cons {n : Nat} (h : 0 < n) :
    ∃ c cs, Nat.toDigits 10 n = c :: cs ∧ c ≠ '0' := by
  induction n using Nat.strongRecOn with
  | _ n ih =>
    by_cases hn : n < 10
    · refine ⟨n.digitChar, [], Nat.toDigits_of_lt_base hn, fun hzero => ?_⟩
      have hn0 := Nat.digitChar_eq_zero.mp hzero
      omega
    · obtain ⟨c, cs, hdigits, hc⟩ := ih (n / 10) (by omega) (by omega)
      refine ⟨c, cs ++ [(n % 10).digitChar], ?_, hc⟩
      rw [Nat.toDigits_of_base_le (by decide) (by omega), hdigits]
      rfl

/-- The byte of an ASCII digit. -/
theorem toNat_byte_of_isDigit {c : Char} (h : c.isDigit = true) :
    c.toNat.toUInt8.toNat = c.toNat ∧ 48 ≤ c.toNat ∧ c.toNat ≤ 57 := by
  obtain ⟨hlow, hhigh⟩ : 48 ≤ c.toNat ∧ c.toNat ≤ 57 := by
    simpa [Char.isDigit, UInt32.le_iff_toNat_le] using h
  rw [Nat.toUInt8_eq, UInt8.toNat_ofNat']
  omega

/-- ASCII digits are digits. -/
theorem isDigits_ofAscii {cs : List Char} (hne : cs ≠ []) (h : ∀ c ∈ cs, c.isDigit = true) :
    IsDigits (Bytes.ofAscii cs) where
  nonempty := by simpa [Bytes.ofAscii] using hne
  digits := by
    refine List.forall_mem_map.mpr (fun c hc => ?_)
    obtain ⟨hbyte, hrange⟩ := toNat_byte_of_isDigit (h c hc)
    rw [isDigit_iff, hbyte]
    exact hrange

/-- Digits that do not start with a zero have no superfluous one. -/
theorem head?_ofAscii_ne {c : Char} {cs : List Char} (hdigit : c.isDigit = true) (hc : c ≠ '0') :
    (Bytes.ofAscii (c :: cs)).head? ≠ some 0x30 := by
  obtain ⟨hbyte, -⟩ := toNat_byte_of_isDigit hdigit
  intro hhead
  have hzero : c.toNat.toUInt8 = 0x30 := Option.some.inj hhead
  rw [hzero] at hbyte
  exact hc (Char.toNat_inj.mp hbyte.symm)

theorem isDigit_of_mem_decimal {n : Nat} {c : Char} (h : c ∈ Nat.toDigits 10 n) :
    c.isDigit = true :=
  Nat.isDigit_of_mem_toDigits (by decide) (by decide) h

theorem isDigits_toDigits (n : Nat) : IsDigits (Bytes.ofAscii (Nat.toDigits 10 n)) :=
  isDigits_ofAscii Nat.toDigits_ne_nil (fun _ hc => isDigit_of_mem_decimal hc)

/-- The parts of an integer. -/
def integerParts (n : Int) : NumberParts :=
  ⟨n < 0, Bytes.ofAscii (Nat.toDigits 10 n.natAbs), none, none⟩

theorem valid_integerParts (n : Int) : (integerParts n).Valid where
  whole := isDigits_toDigits n.natAbs
  leading := by
    intro hhead
    rcases Nat.eq_zero_or_pos n.natAbs with hzero | hpos
    · rw [integerParts, hzero]
      rfl
    · obtain ⟨c, cs, hdigits, hc⟩ := exists_toDigits_eq_cons hpos
      have hdigit : c.isDigit = true := isDigit_of_mem_decimal (hdigits ▸ List.mem_cons_self)
      rw [integerParts, hdigits] at hhead
      exact absurd hhead (head?_ofAscii_ne hdigit hc)
  fraction := fun _ h => nomatch h
  exponent := fun _ h => nomatch h

theorem ofInt_eq (n : Int) : ofInt n = .number (integerParts n).text := by
  have htext : (integerParts n).text =
      (if decide (n < 0) = true then [0x2d] else []) ++
        (Bytes.ofAscii (Nat.toDigits 10 n.natAbs) ++ []) := rfl
  rw [ofInt, htext, List.append_nil]
  by_cases hn : n < 0
  · simp [hn, Bytes.ofAscii]
  · simp [hn, Bytes.ofAscii]

theorem ofNat_eq (n : Nat) : ofNat n = ofInt n := by
  rw [ofInt, if_neg (Int.not_lt.mpr (Int.natCast_nonneg n))]
  rfl

/-- The value of ASCII digits. -/
theorem digitsValue_ofAscii {cs : List Char} (h : ∀ c ∈ cs, c.isDigit = true) :
    digitsValue (Bytes.ofAscii cs) = Nat.ofDigitChars 10 cs 0 := by
  have hvalue : ∀ value, (Bytes.ofAscii cs).foldl (fun n b => n * 10 + (b.toNat - 0x30)) value =
      Nat.ofDigitChars 10 cs value := by
    induction cs with
    | nil => exact fun _ => Nat.ofDigitChars_nil.symm
    | cons c cs ih =>
      intro value
      obtain ⟨hbyte, -⟩ := toNat_byte_of_isDigit (h c List.mem_cons_self)
      have hlater := ih (fun d hd => h d (List.mem_cons_of_mem c hd))
        (value * 10 + (c.toNat - 0x30))
      rw [Nat.ofDigitChars_cons, Nat.mul_comm 10]
      rw [Bytes.ofAscii, List.map_cons, List.foldl_cons, hbyte]
      exact hlater
  exact hvalue 0

/-- The value of decimal digits. -/
theorem digitsValue_toDigits (n : Nat) : digitsValue (Bytes.ofAscii (Nat.toDigits 10 n)) = n :=
  (digitsValue_ofAscii (fun _ hc => isDigit_of_mem_decimal hc)).trans Nat.ofDigitChars_ten_toDigits

@[simp] theorem integer?_ofInt (n : Int) : (ofInt n).integer? = some n := by
  have hparts := numberParts?_text (valid_integerParts n)
  have hvalue := digitsValue_toDigits n.natAbs
  rw [ofInt_eq, integer?, hparts]
  simp only [integerParts, hvalue]
  by_cases hn : n < 0
  · have hne : n.natAbs ≠ 0 := by omega
    simp only [hn, hne, decide_true, if_true, if_false]
    exact congrArg some (by omega)
  · simp only [hn, decide_false]
    exact congrArg some (by omega)

theorem integerIn?_ofInt {low high n : Int} (hlow : low ≤ n) (hhigh : n ≤ high) :
    (ofInt n).integerIn? low high = some n := by
  simp [integerIn?, hlow, hhigh]

@[simp] theorem uint32?_ofNat (n : UInt32) : (ofNat n.toNat).uint32? = some n := by
  have hlt := n.toNat_lt
  rw [uint32?, ofNat_eq, integerIn?_ofInt (by omega) (by omega)]
  simp

@[simp] theorem uint64?_ofNat (n : UInt64) : (ofNat n.toNat).uint64? = some n := by
  have hlt := n.toNat_lt
  rw [uint64?, ofNat_eq, integerIn?_ofInt (by omega) (by omega)]
  simp

@[simp] theorem int32?_ofInt (n : Int32) : (ofInt n.toInt).int32? = some n := by
  have hlow := n.le_toInt
  have hhigh := n.toInt_lt
  rw [int32?, integerIn?_ofInt hlow (by omega)]
  simp

@[simp] theorem int64?_ofInt (n : Int64) : (ofInt n.toInt).int64? = some n := by
  have hlow := n.le_toInt
  have hhigh := n.toInt_lt
  rw [int64?, integerIn?_ofInt hlow (by omega)]
  simp

theorem lexical_ofInt (n : Int) : (ofInt n).Lexical :=
  ofInt_eq n ▸ .number (numeral_text (valid_integerParts n))

theorem lexical_ofNat (n : Nat) : (ofNat n).Lexical := ofNat_eq n ▸ lexical_ofInt n

/-- A key is read as its number. -/
theorem keyNumber?_toDigits (n : UInt32) :
    keyNumber? (Bytes.ofAscii (Nat.toDigits 10 n.toNat)) = some n :=
  uint32?_ofNat n

/-- A key needs no escapes. -/
theorem quotable_toDigits (n : Nat) : Quotable (Bytes.ofAscii (Nat.toDigits 10 n)) := by
  refine quotable_of_unescaped (fun b hb => ?_)
  have hdigit := (isDigits_toDigits n).digits b hb
  have hne : ∀ c : UInt8, isDigit c = false → b ≠ c := by
    rintro c hc rfl
    exact absurd hdigit (Bool.eq_false_iff.mp hc)
  refine .plain (hne 0x22 rfl) (hne 0x5c rfl) (fun hcontrol => ?_)
  have hlow := (isDigit_iff.mp hdigit).1
  have hhigh : b.toNat < 0x20 := UInt8.lt_iff_toNat_lt.mp hcontrol
  omega

end Integers

end KernelFusion.Json

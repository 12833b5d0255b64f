import KernelFusion.Export.Signature

/-!
# Which tokens are read as signatures

A token is read as a signature if, apart from blanks at both ends, it is the number of the
signature in decimal digits, perhaps behind one plus sign. Leading zeros do not matter, and neither
does how many there are; a number of more than 32 bits is none of a signature.
-/

namespace KernelFusion

/-- A text is a numeral of a number: decimal digits with its value, behind at most one plus sign,
between blanks. -/
inductive Text.Numeral (n : Nat) : String → Prop where
  /-- The parts of the numeral. -/
  | spelled {before sign digits after : List Char} (blankBefore : ∀ c ∈ before, Text.isBlank c)
    (plus : sign = [] ∨ sign = ['+']) (nonempty : digits ≠ [])
    (decimal : ∀ c ∈ digits, c.isDigit = true) (value : Nat.ofDigitChars 10 digits 0 = n)
    (blankAfter : ∀ c ∈ after, Text.isBlank c) :
    Numeral n (String.ofList (before ++ (sign ++ digits) ++ after))

/-- The tokens of a signature are the numerals of its mask. -/
def KernelSignature.IsToken (s : KernelSignature) (token : String) : Prop :=
  Text.Numeral s.bits.toNat token

namespace Text

/-- Blank characters around a text that has none at its ends are taken off. -/
theorem trim_append {before core after : List Char} (hbefore : ∀ c ∈ before, isBlank c)
    (hafter : ∀ c ∈ after, isBlank c) (hne : core ≠ []) (hfirst : ∀ c ∈ core.head?, ¬isBlank c)
    (hlast : ∀ c ∈ core.getLast?, ¬isBlank c) : trim (before ++ core ++ after) = core := by
  have hopen : (before ++ core ++ after).dropWhile isBlank = core ++ after := by
    rw [List.append_assoc, List.dropWhile_append_of_pos hbefore]
    obtain ⟨first, rest, rfl⟩ := List.exists_cons_of_ne_nil hne
    exact dropWhile_eq_self hfirst
  have hclose : (core ++ after).reverse.dropWhile isBlank = core.reverse := by
    rw [List.reverse_append, List.dropWhile_append_of_pos (by simpa using hafter)]
    exact dropWhile_eq_self (by simpa using hlast)
  rw [trim, hopen, hclose, List.reverse_reverse]

/-- A text is its trimmed part between blank characters. -/
theorem exists_append_trim (cs : List Char) :
    ∃ before after, cs = before ++ trim cs ++ after ∧ (∀ c ∈ before, isBlank c) ∧
      ∀ c ∈ after, isBlank c := by
  let rest := (cs.dropWhile isBlank).reverse
  have hclose : trim cs ++ (rest.takeWhile isBlank).reverse = cs.dropWhile isBlank := by
    rw [trim, ← List.reverse_append, List.takeWhile_append_dropWhile, List.reverse_reverse]
  refine ⟨cs.takeWhile isBlank, (rest.takeWhile isBlank).reverse, ?_, ?_, fun c hc => ?_⟩
  · rw [List.append_assoc, hclose, List.takeWhile_append_dropWhile]
  · exact List.all_eq_true.mp List.all_takeWhile
  · exact List.all_eq_true.mp List.all_takeWhile c (List.mem_reverse.mp hc)

end Text

namespace KernelSignature

/-- A decimal digit is not blank. -/
theorem not_isBlank_of_isDigit {c : Char} (h : c.isDigit = true) : ¬ Text.isBlank c := by
  obtain ⟨hlow, hhigh⟩ : 48 ≤ c.toNat ∧ c.toNat ≤ 57 := by
    simpa [Char.isDigit, UInt32.le_iff_toNat_le] using h
  simp only [Text.isBlank, Text.blankCodePoints, List.contains_iff_mem, List.mem_cons,
    List.not_mem_nil, or_false]
  omega

/-- Digits have their decimal value as their number. -/
theorem decimal?_eq_some_iff {digits : List Char} {n : Nat} :
    decimal? digits = some n ↔ digits ≠ [] ∧ (∀ c ∈ digits, c.isDigit = true) ∧
      Nat.ofDigitChars 10 digits 0 = n := by
  have hdigit (c : Char) : (decide ('0' ≤ c) && decide (c ≤ '9')) = c.isDigit := rfl
  have hvalue : digits.foldl (fun n c => n * 10 + (c.toNat - '0'.toNat)) 0 =
      Nat.ofDigitChars 10 digits 0 := by
    simp only [Nat.ofDigitChars_eq_foldl, Nat.mul_comm 10]
  simp only [decimal?, hdigit, hvalue, Option.ite_none_right_eq_some, Bool.and_eq_true,
    List.all_eq_true, Bool.not_eq_true', List.isEmpty_eq_false_iff, Option.some.injEq,
    and_assoc]
  exact and_left_comm

/-- A plus sign may stand before the digits. -/
theorem unsigned?_eq_some_iff {cs : List Char} {n : Nat} :
    unsigned? cs = some n ↔ ∃ sign digits, cs = sign ++ digits ∧ (sign = [] ∨ sign = ['+']) ∧
      decimal? digits = some n := by
  unfold unsigned?
  split
  next digits =>
    refine ⟨fun h => ⟨['+'], digits, rfl, Or.inr rfl, h⟩, ?_⟩
    rintro ⟨sign, rest, heq, rfl | rfl, h⟩
    · rw [List.nil_append] at heq
      have hplus := (decimal?_eq_some_iff.mp h).2.1 '+' (heq ▸ List.mem_cons_self)
      cases hplus
    · cases heq
      exact h
  next hplus =>
    refine ⟨fun h => ⟨[], cs, rfl, Or.inl rfl, h⟩, ?_⟩
    rintro ⟨sign, rest, heq, rfl | rfl, h⟩
    · rwa [heq]
    · exact absurd heq (hplus rest)

/-- Between blanks, exactly the numerals of a number are read as the number. -/
theorem unsigned?_trim_eq_some_iff {text : String} {n : Nat} :
    unsigned? (Text.trim text.toList) = some n ↔ Text.Numeral n text := by
  rw [unsigned?_eq_some_iff]
  constructor
  · rintro ⟨sign, digits, hcore, hsign, hdigits⟩
    obtain ⟨hne, hdecimal, hvalue⟩ := decimal?_eq_some_iff.mp hdigits
    obtain ⟨before, after, htext, hbefore, hafter⟩ := Text.exists_append_trim text.toList
    rw [hcore] at htext
    have hspelled := Text.Numeral.spelled hbefore hsign hne hdecimal hvalue hafter
    rwa [← htext, String.ofList_toList] at hspelled
  · intro h
    cases h with
    | @spelled before sign digits after hbefore hsign hne hdecimal hvalue hafter =>
      have hfirst : ∀ c ∈ (sign ++ digits).head?, ¬Text.isBlank c := by
        rcases hsign with rfl | rfl
        · exact fun c hc => not_isBlank_of_isDigit (hdecimal c (List.mem_of_mem_head? hc))
        · rintro c ⟨⟩
          decide
      have hlast : ∀ c ∈ (sign ++ digits).getLast?, ¬Text.isBlank c := by
        rw [List.getLast?_append, List.getLast?_eq_some_getLast hne, Option.some_or]
        rintro c ⟨⟩
        exact not_isBlank_of_isDigit (hdecimal _ (List.getLast_mem hne))
      have hcore : sign ++ digits ≠ [] := List.append_ne_nil_of_right_ne_nil sign hne
      refine ⟨sign, digits, ?_, hsign, decimal?_eq_some_iff.mpr ⟨hne, hdecimal, hvalue⟩⟩
      rw [String.toList_ofList, Text.trim_append hbefore hafter hcore hfirst hlast]

/-- Exactly the tokens of a signature are read as the signature. -/
theorem ofToken?_eq_some_iff {token : String} {s : KernelSignature} :
    ofToken? token = some s ↔ s.IsToken token := by
  rw [IsToken, ← unsigned?_trim_eq_some_iff, ofToken?]
  cases h : unsigned? (Text.trim token.toList) with
  | none => simp
  | some n =>
    have hle : s.bits.toNat < 2 ^ 32 := s.bits.toNat_lt
    rw [Option.ite_none_right_eq_some, Option.some.injEq, Option.some.injEq]
    constructor
    · rintro ⟨hn, rfl⟩
      exact (UInt32.toNat_ofNat_of_lt' hn).symm
    · rintro rfl
      exact ⟨hle, congrArg mk UInt32.ofNat_toNat⟩

/-- A token is read with the number that it is a numeral of, if that has 32 bits. -/
theorem map_bits_ofToken?_eq_some_iff {token : String} {n : Nat} :
    (ofToken? token).map (·.bits.toNat) = some n ↔ Text.Numeral n token ∧ n < 2 ^ 32 := by
  rw [Option.map_eq_some_iff]
  constructor
  · rintro ⟨s, hs, rfl⟩
    exact ⟨ofToken?_eq_some_iff.mp hs, s.bits.toNat_lt⟩
  · rintro ⟨hnumeral, hlt⟩
    have hbits : n.toUInt32.toNat = n := UInt32.toNat_ofNat_of_lt' hlt
    refine ⟨⟨n.toUInt32⟩, ofToken?_eq_some_iff.mpr ?_, hbits⟩
    rwa [IsToken, hbits]

/-- A token is not read if it is no numeral or one of a number with more than 32 bits. -/
theorem ofToken?_eq_none_iff {token : String} :
    ofToken? token = none ↔ ∀ n, Text.Numeral n token → 2 ^ 32 ≤ n := by
  have hmap : (ofToken? token).map (·.bits.toNat) = none ↔ ofToken? token = none :=
    Option.map_eq_none_iff
  rw [← hmap, Option.eq_none_iff_forall_ne_some]
  simp only [ne_eq, map_bits_ofToken?_eq_some_iff, not_and, Nat.not_lt]

/-- A token is one of one signature only. -/
theorem IsToken.unique {token : String} {s t : KernelSignature} (hs : s.IsToken token)
    (ht : t.IsToken token) : s = t := by
  rw [← ofToken?_eq_some_iff] at hs ht
  exact Option.some.inj (hs.symm.trans ht)

/-- The token that is written for a signature is one of it. -/
theorem isToken_token (s : KernelSignature) : s.IsToken s.token := by
  have hspelled : s.IsToken (String.ofList ([] ++ ([] ++ Nat.toDigits 10 s.bits.toNat) ++ [])) :=
    .spelled (by simp) (Or.inl rfl) Nat.toDigits_ne_nil
      (fun c hc => Nat.isDigit_of_mem_toDigits (by decide) (by decide) hc)
      Nat.ofDigitChars_ten_toDigits (by simp)
  rwa [List.append_nil, List.nil_append, List.nil_append] at hspelled

theorem ofToken?_token (s : KernelSignature) : ofToken? s.token = some s :=
  ofToken?_eq_some_iff.mpr s.isToken_token

end KernelSignature

end KernelFusion

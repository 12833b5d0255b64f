import KernelFusion.Json.Shape
import KernelFusion.Proofs.JsonText

/-!
# Reading strings of JSON back

Every byte of a text is written in one of three forms: as itself, with a short escape, or with an
escape of four hexadecimal digits. Each form leaves a string between its quotes and is read as the
byte, so a text is read back whatever characters are in it. A name that needs no escapes is written
as it is.
-/

namespace KernelFusion.Json

/-- The forms in which a byte is written. -/
inductive Escaped (b : UInt8) : Bytes → Prop where
  /-- As itself. -/
  | plain (hquote : b ≠ 0x22) (hslash : b ≠ 0x5c) (hcontrol : ¬ b < 0x20) : Escaped b [b]
  /-- With a short escape. -/
  | short {c : UInt8} (hform : isShortEscape c = true) (hmeans : shortEscape? c = some b) :
      Escaped b [0x5c, c]
  /-- With hexadecimal digits. -/
  | hex {high low : UInt8} (hhigh : isHexDigit high = true) (hlow : isHexDigit low = true)
      (hmeans : hexNumber 0x30 0x30 high low = b.toNat) (hcontrol : b < 0x20) :
      Escaped b [0x5c, 0x75, 0x30, 0x30, high, low]

section Bytes

variable {b : UInt8} {form : Bytes}

/-- The two hexadecimal digits of a control byte. -/
theorem hexDigits_control : ∀ n < 32, isHexDigit (hexDigit (n / 16)) = true ∧
    isHexDigit (hexDigit (n % 16)) = true ∧
    hexNumber 0x30 0x30 (hexDigit (n / 16)) (hexDigit (n % 16)) = n := by
  decide

theorem escaped_escapeByte (b : UInt8) : Escaped b (escapeByte b) := by
  by_cases hshort : b ∈ [0x22, 0x5c, 0x08, 0x0c, 0x0a, 0x0d, 0x09]
  · simp only [List.mem_cons, List.not_mem_nil, or_false] at hshort
    rcases hshort with rfl | rfl | rfl | rfl | rfl | rfl | rfl <;> exact .short rfl rfl
  · simp only [List.mem_cons, List.not_mem_nil, or_false, not_or] at hshort
    by_cases hcontrol : b < 0x20
    · obtain ⟨hhigh, hlow, hmeans⟩ := hexDigits_control b.toNat (UInt8.lt_iff_toNat_lt.mp hcontrol)
      have hform : escapeByte b =
          [0x5c, 0x75, 0x30, 0x30, hexDigit (b.toNat / 16), hexDigit (b.toNat % 16)] := by
        simp [escapeByte, hshort, hcontrol]
      exact hform ▸ .hex hhigh hlow hmeans hcontrol
    · have hform : escapeByte b = [b] := by simp [escapeByte, hshort, hcontrol]
      exact hform ▸ .plain hshort.1 hshort.2.1 hcontrol

/-- No form of a byte ends the string that it is in. -/
theorem Escaped.lex? (h : Escaped b form) (seen next : Bytes) :
    lex? (.text seen) (form ++ next) = lex? (.text (form.reverse ++ seen)) next := by
  cases h with
  | plain hquote hslash hcontrol =>
    exact lex?_silent (by simp [lexByte?, hquote, hslash, hcontrol]) next
  | @short c hform _ =>
    have hhex : (c == 0x75) = false := by
      refine Bool.eq_false_iff.mpr (fun hc => ?_)
      obtain rfl := eq_of_beq hc
      cases hform
    exact (lex?_silent rfl _).trans (lex?_silent (by simp [lexByte?, hhex, hform]) next)
  | @hex high low hhigh hlow _ _ =>
    have hfirst : lexByte? (.hex (0x30 :: 0x30 :: 0x75 :: 0x5c :: seen) 2) high =
        some ([], .hex (high :: 0x30 :: 0x30 :: 0x75 :: 0x5c :: seen) 1) := if_pos hhigh
    have hsecond : lexByte? (.hex (high :: 0x30 :: 0x30 :: 0x75 :: 0x5c :: seen) 1) low =
        some ([], .text (low :: high :: 0x30 :: 0x30 :: 0x75 :: 0x5c :: seen)) := if_pos hlow
    refine ((lex?_silent rfl _).trans (lex?_silent rfl _)).trans ?_
    refine ((lex?_silent rfl _).trans (lex?_silent rfl _)).trans ?_
    exact (lex?_silent hfirst _).trans (lex?_silent hsecond next)

/-- Every form of a byte is read as the byte. -/
theorem Escaped.unescapeFrom? (h : Escaped b form) (next : Bytes) :
    unescapeFrom? none (form ++ next) = (unescapeFrom? none next).map (b :: ·) := by
  cases h with
  | plain _ hslash _ => simp [Json.unescapeFrom?, hslash]
  | @short c hform hmeans =>
    have hhex : c ≠ 0x75 := by
      rintro rfl
      cases hform
    simp [Json.unescapeFrom?, hhex, hmeans]
  | hex _ _ hmeans hcontrol =>
    have hsmall : b.toNat < 32 := UInt8.lt_iff_toNat_lt.mp hcontrol
    have hhalves : isHighHalf b.toNat = false ∧ isLowHalf b.toNat = false := by
      simp only [isHighHalf, isLowHalf, Bool.and_eq_false_iff, decide_eq_false_iff_not]
      omega
    have hbytes : codePointBytes b.toNat = [b] := by
      rw [codePointBytes, if_pos (by omega), Nat.toUInt8_eq, UInt8.ofNat_toNat]
    simp [Json.unescapeFrom?, hmeans, hhalves, hbytes]

end Bytes

section Texts

/-- Bytes in any of their forms do not end before the quote behind them. -/
theorem quotable_flatMap {forms : UInt8 → Bytes} {text : Bytes}
    (h : ∀ b ∈ text, Escaped b (forms b)) : Quotable (text.flatMap forms) := by
  intro seen next
  induction text generalizing seen with
  | nil =>
    rw [List.flatMap_nil, List.append_nil]
    rfl
  | cons b text ih =>
    have hbyte := (h b List.mem_cons_self).lex? seen (text.flatMap forms ++ 0x22 :: next)
    have htext := ih (fun c hc => h c (List.mem_cons_of_mem b hc)) ((forms b).reverse ++ seen)
    rw [List.reverse_append, List.reverse_reverse, List.append_assoc] at htext
    rw [List.flatMap_cons, List.append_assoc]
    exact hbyte.trans htext

/-- A text is written so that the quote behind it ends it. -/
theorem quotable_escape (text : Bytes) : Quotable (escape text) :=
  quotable_flatMap (fun b _ => escaped_escapeByte b)

/-- Bytes that stand for themselves. -/
theorem quotable_of_unescaped {body : Bytes} (h : ∀ b ∈ body, Escaped b [b]) : Quotable body :=
  List.flatMap_singleton' body ▸ quotable_flatMap h

/-- A text is read back from its written form. -/
theorem unescape?_escape (text : Bytes) : unescape? (escape text) = some text := by
  induction text with
  | nil => rfl
  | cons b text ih =>
    have hbyte := (escaped_escapeByte b).unescapeFrom? (escape text)
    have htext : unescapeFrom? none (escape text) = some text := ih
    rw [htext] at hbyte
    exact hbyte

@[simp] theorem bodyText?_escape (s : String) : bodyText? (escape (Bytes.ofString s)) = some s := by
  rw [bodyText?, unescape?_escape]
  exact Bytes.toString?_ofString s

@[simp] theorem string?_ofString (s : String) : (ofString s).string? = some s := bodyText?_escape s

theorem lexical_ofString (s : String) : (ofString s).Lexical := .string (quotable_escape _)

/-- The text needs no escapes. -/
def Plain (s : String) : Prop := escape (name s) = name s

instance (s : String) : Decidable (Plain s) := inferInstanceAs (Decidable (_ = _))

theorem Plain.quotable {s : String} (h : Plain s) : Quotable (name s) := h ▸ quotable_escape _

theorem Plain.bodyText? {s : String} (h : Plain s) : bodyText? (name s) = some s :=
  (congrArg Json.bodyText? h).symm.trans (bodyText?_escape s)

end Texts

end KernelFusion.Json

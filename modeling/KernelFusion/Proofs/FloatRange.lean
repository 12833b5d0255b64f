import KernelFusion.Proofs.Scaling

/-!
# Reading finite numbers

The text of a finite number stands for its shortest decimal, in plain notation as in scientific. Of
the text a reader takes as many digits as fit into 64 bits and drops the rest, so what it scales is
not greater. Therefore what is written of a finite number is never refused as out of range.
-/

namespace KernelFusion.Json

section Digits

variable {value : Nat} {l next : Bytes}

/-- The value of digits behind other digits. -/
theorem digitsValue_append (l next : Bytes) : digitsValue (l ++ next) =
    next.foldl (fun n b => n * 10 + (b.toNat - 0x30)) (digitsValue l) :=
  List.foldl_append

/-- A digit more makes a value at least ten times as great. -/
theorem mul_pow_le_foldl (value : Nat) (l : Bytes) :
    value * 10 ^ l.length ≤ l.foldl (fun n b => n * 10 + (b.toNat - 0x30)) value := by
  induction l generalizing value with
  | nil => exact Nat.le_of_eq (Nat.mul_one value)
  | cons b l ih =>
    calc value * 10 ^ (l.length + 1) = value * 10 * 10 ^ l.length := by ring
      _ ≤ (value * 10 + (b.toNat - 0x30)) * 10 ^ l.length := by gcongr; omega
      _ ≤ _ := ih _

/-- So many digits have a value below that power of ten. -/
theorem digitsValue_lt (h : ∀ b ∈ l, isDigit b = true) : digitsValue l < 10 ^ l.length := by
  have hfold : ∀ value, l.foldl (fun n b => n * 10 + (b.toNat - 0x30)) value <
      (value + 1) * 10 ^ l.length := by
    induction l with
    | nil => simp
    | cons b l ih =>
      obtain ⟨hb, hl⟩ := List.forall_mem_cons.mp h
      have hrange := isDigit_iff.mp hb
      intro value
      calc l.foldl (fun n b => n * 10 + (b.toNat - 0x30)) (value * 10 + (b.toNat - 0x30))
          < (value * 10 + (b.toNat - 0x30) + 1) * 10 ^ l.length := ih hl _
        _ ≤ ((value + 1) * 10) * 10 ^ l.length := by gcongr; omega
        _ = (value + 1) * 10 ^ (l.length + 1) := by ring
  exact (hfold 0).trans_eq (by ring)

/-- What is taken fits into 64 bits, and it is not greater than the value with all digits. -/
theorem takeDigits_bounds (h : value < 2 ^ 64) :
    (takeDigits value l).1 < 2 ^ 64 ∧ (takeDigits value l).1 * 10 ^ (takeDigits value l).2.length ≤
      l.foldl (fun n b => n * 10 + (b.toNat - 0x30)) value := by
  induction l generalizing value with
  | nil => exact ⟨h, Nat.le_of_eq (Nat.mul_one value)⟩
  | cons b l ih =>
    rw [takeDigits]
    split
    next hfits => exact ih hfits
    next => exact ⟨h, mul_pow_le_foldl value (b :: l)⟩

/-- Digits that fit into 64 bits are all taken. -/
theorem takeDigits_of_lt
    (h : l.foldl (fun n b => n * 10 + (b.toNat - 0x30)) value < 2 ^ 64) :
    takeDigits value l = (l.foldl (fun n b => n * 10 + (b.toNat - 0x30)) value, []) := by
  induction l generalizing value with
  | nil => rfl
  | cons b l ih =>
    have hle := mul_pow_le_foldl (value * 10 + (b.toNat - 0x30)) l
    have hnext : value * 10 + (b.toNat - 0x30) < 2 ^ 64 :=
      Nat.lt_of_le_of_lt ((Nat.le_mul_of_pos_right _ (Nat.pow_pos (by decide))).trans hle) h
    exact (if_pos hnext).trans (ih h)

end Digits

namespace NumberParts

/-- The power of ten that an exponent stands for. -/
def power (p : NumberParts) : Int :=
  match p.exponent with
  | none => 0
  | some (true, digits) => -(digitsValue digits : Int)
  | some (false, digits) => digitsValue digits

/-- The digits behind the point. -/
def places (p : NumberParts) : Bytes := p.fraction.getD []

/-- The number without its sign. -/
def value (p : NumberParts) : ℚ :=
  digitsValue (p.whole ++ p.places) * 10 ^ (p.power - p.places.length)

end NumberParts

section Reading

variable {p : NumberParts}

/-- A number whose whole digits fit into 64 bits is scaled from a number that is not greater. -/
theorem exists_magnitude?_text (hp : p.Valid) (hwhole : digitsValue p.whole < 2 ^ 64) :
    ∃ (v : Nat) (s : Int), v < 2 ^ 64 ∧ (v * 10 ^ s : ℚ) ≤ p.value ∧
      magnitude? (.number p.text) =
        if BinaryFormat.scaled v s < BinaryFormat.double.infinity then
          some (p.negative, BinaryFormat.scaled v s) else none := by
  have htake : takeDigits 0 p.whole = (digitsValue p.whole, []) := takeDigits_of_lt hwhole
  obtain ⟨hfits, hle⟩ := takeDigits_bounds (l := p.places) hwhole
  rw [← digitsValue_append] at hle
  generalize htaken : takeDigits (digitsValue p.whole) p.places = taken at hfits hle
  refine ⟨taken.1, p.power + (taken.2.length - p.places.length : Int), hfits, ?_, ?_⟩
  · have hcast : (taken.1 : ℚ) * 10 ^ taken.2.length ≤ digitsValue (p.whole ++ p.places) := by
      exact_mod_cast hle
    have hpower : p.power + (taken.2.length - p.places.length : Int) =
        taken.2.length + (p.power - p.places.length) := by ring
    rw [hpower, zpow_add₀ (by norm_num), zpow_natCast, ← mul_assoc, NumberParts.value]
    gcongr
  · have hplaces : ((([] : Bytes).length : Int) + taken.2.length - p.places.length) =
        taken.2.length - p.places.length := by simp
    rw [← hplaces]
    unfold magnitude?
    simp only [numberParts?_text hp, htake]
    rw [show takeDigits (digitsValue p.whole) (p.fraction.getD []) = taken from htaken]
    rfl

/-- A number that is not beyond the limit is not out of range. -/
theorem isSome_magnitude?_text (hp : p.Valid) (hwhole : digitsValue p.whole < 2 ^ 64)
    (hvalue : p.value * 2 ^ BinaryFormat.double.unitPower ≤ BinaryFormat.scaledLimit) :
    (magnitude? (.number p.text)).isSome = true := by
  obtain ⟨v, s, hfits, hle, hmagnitude⟩ := exists_magnitude?_text hp hwhole
  have hlimit : (v * 10 ^ s * 2 ^ BinaryFormat.double.unitPower : ℚ) ≤ BinaryFormat.scaledLimit :=
    le_trans (by gcongr) hvalue
  rw [hmagnitude, if_pos (BinaryFormat.scaled_lt_infinity hfits hlimit)]
  rfl

end Reading

section Layouts

variable {d : Digits} {whole : List Char} {fraction : Option (List Char)}
  {exponent : Option (Bool × List Char)}

/-- The number that digits with their leading power stand for. -/
def digitsNumber (d : Digits) : ℚ :=
  Nat.ofDigitChars 10 d.digits 0 * 10 ^ (d.lead + 1 - d.digits.length)

/-- Zeros before the digits of a number do not count, each zero behind them is a power of ten. -/
theorem value_charParts (before behind : Nat) (hd : d.Valid)
    (hdigits : whole ++ fraction.getD [] =
      List.replicate before '0' ++ (d.digits ++ List.replicate behind '0'))
    (hpower : (charParts whole fraction exponent).power - (fraction.getD []).length + behind =
      d.lead + 1 - d.digits.length) :
    (charParts whole fraction exponent).value = digitsNumber d := by
  have hplaces : (charParts whole fraction exponent).places = Bytes.ofAscii (fraction.getD []) := by
    cases fraction <;> rfl
  have hall : ∀ c ∈ whole ++ fraction.getD [], c.isDigit = true := by
    rw [hdigits]
    simp only [List.forall_mem_append]
    exact ⟨fun c hc => isDigit_of_mem_zeros hc, hd.digits, fun c hc => isDigit_of_mem_zeros hc⟩
  have hvalue : digitsValue (Bytes.ofAscii whole ++ Bytes.ofAscii (fraction.getD [])) =
      Nat.ofDigitChars 10 d.digits 0 * 10 ^ behind := by
    rw [Bytes.ofAscii, Bytes.ofAscii, ← List.map_append]
    refine (digitsValue_ofAscii hall).trans ?_
    rw [hdigits, Nat.ofDigitChars_append, Nat.ofDigitChars_append,
      Nat.ofDigitChars_replicate_zero, Nat.ofDigitChars_replicate_zero, Nat.mul_zero, Nat.mul_comm]
  have hlength : ((Bytes.ofAscii (fraction.getD [])).length : Int) = (fraction.getD []).length := by
    rw [Bytes.ofAscii, List.length_map]
  rw [NumberParts.value, hplaces, hlength, digitsNumber, ← hpower, zpow_add₀ (by norm_num)]
  rw [show (charParts whole fraction exponent).whole = Bytes.ofAscii whole from rfl, hvalue]
  push_cast
  rw [zpow_natCast]
  ring

theorem value_smallParts (hd : d.Valid) (hlead : d.lead < 0) :
    (smallParts d).value = digitsNumber d := by
  refine value_charParts ((-d.lead - 1).toNat + 1) 0 hd (by simp [List.replicate_succ]) ?_
  simp only [NumberParts.power, charParts, Option.map_none, Option.getD_some, List.length_append,
    List.length_replicate]
  omega

theorem value_plainParts (hd : d.Valid) (hlead : ¬ d.lead < 0) :
    (plainParts d).value = digitsNumber d := by
  unfold plainParts
  dsimp only
  split
  next hempty =>
    -- All digits stand before the point, and zeros fill the rest.
    have hle : d.digits.length ≤ d.lead.toNat + 1 :=
      List.drop_eq_nil_iff.mp (List.isEmpty_iff.mp hempty)
    rw [List.take_of_length_le hle]
    refine value_charParts 0 (d.lead.toNat + 1 - d.digits.length + 1) hd ?_ ?_
    · simp [List.replicate_succ']
    · simp only [NumberParts.power, charParts, Option.map_none, Option.getD_some,
        List.length_singleton]
      omega
  next hne =>
    have hlt : d.lead.toNat + 1 < d.digits.length :=
      Nat.lt_of_not_le (fun hle => hne (List.isEmpty_iff.mpr (List.drop_eq_nil_iff.mpr hle)))
    refine value_charParts 0 0 hd ?_ ?_
    · simp [Nat.min_eq_left (Nat.le_of_lt hlt)]
    · simp only [NumberParts.power, charParts, Option.map_none, Option.getD_some, List.length_drop]
      omega

theorem value_scientificParts (hd : d.Valid) : (scientificParts d).value = digitsNumber d := by
  obtain ⟨c, cs, hdigits, -⟩ := hd.leading
  have hpower : ∀ whole fraction, (charParts whole fraction
      (some (decide (d.lead < 0), Nat.toDigits 10 d.lead.natAbs))).power = d.lead := by
    intro whole fraction
    have hvalue := digitsValue_toDigits d.lead.natAbs
    by_cases hlead : d.lead < 0
    · simp only [NumberParts.power, charParts, Option.map_some, hlead, decide_true, hvalue]
      omega
    · simp only [NumberParts.power, charParts, Option.map_some, hlead, decide_false, hvalue]
      omega
  unfold scientificParts
  dsimp only
  refine value_charParts 0 0 hd ?_ ?_
  · rw [hdigits]
    cases cs <;> simp
  · rw [hpower, hdigits]
    cases cs <;> simp

/-- The parts of digits stand for their number, in plain notation as in scientific. -/
theorem value_digitParts (layout : FloatLayout) (hd : d.Valid) :
    (digitParts layout d).value = digitsNumber d := by
  unfold digitParts
  split
  · split
    next hlead => exact value_smallParts hd hlead
    next hlead => exact value_plainParts hd hlead
  · exact value_scientificParts hd

/-- A layout that writes few powers plainly writes few whole digits. -/
theorem length_whole_digitParts {layout : FloatLayout} (d : Digits) :
    (digitParts layout d).whole.length ≤ layout.mostPlain.toNat + 1 := by
  unfold digitParts
  split
  next hplain =>
    split
    · exact Nat.succ_le_succ (Nat.zero_le _)
    · simp only [plainParts, charParts, Bytes.ofAscii, List.length_map, List.length_append,
        List.length_take, List.length_replicate]
      omega
  next =>
    simp only [scientificParts, charParts, Bytes.ofAscii, List.length_map, List.length_take]
    omega

/-- The digits of a magnitude stand for its shortest decimal. -/
theorem digitsNumber_shortest (f : BinaryFormat) (tie : Tie) (magnitude : Nat) :
    digitsNumber (f.shortest tie magnitude) =
      (f.shortestDecimal tie magnitude).1 * 10 ^ (f.shortestDecimal tie magnitude).2 := by
  obtain ⟨n, hdigits⟩ := f.exists_toDigits_shortestDecimal tie magnitude
  have hvalue : (f.shortestDecimal tie magnitude).1 =
      Nat.ofDigitChars 10 (f.shortest tie magnitude).digits 0 * 10 ^ n := by
    rw [← Nat.ofDigitChars_ten_toDigits (n := (f.shortestDecimal tie magnitude).1), hdigits,
      Nat.ofDigitChars_append, Nat.ofDigitChars_replicate_zero, Nat.mul_comm]
  have hlead : (f.shortest tie magnitude).lead = (f.shortestDecimal tie magnitude).2 +
      (Nat.toDigits 10 (f.shortestDecimal tie magnitude).1).length - 1 := rfl
  have hpower : (f.shortest tie magnitude).lead + 1 - (f.shortest tie magnitude).digits.length =
      n + (f.shortestDecimal tie magnitude).2 := by
    rw [hlead, hdigits, List.length_append, List.length_replicate]
    omega
  rw [digitsNumber, hpower, zpow_add₀ (by norm_num), zpow_natCast, ← mul_assoc, hvalue]
  push_cast
  rfl

end Layouts

section Finite

variable {f : BinaryFormat} {layout : FloatLayout} {magnitude : Nat}

/-- What is written of a magnitude is read, if its shortest decimal is not beyond the limit. -/
theorem isSome_magnitude?_finite (hmark : layout.positiveMark = ['+'])
    (hplain : layout.mostPlain ≤ 15) (negative : Bool)
    (hlimit : 0 < magnitude → ((f.shortestDecimal layout.tie magnitude).1 *
      10 ^ (f.shortestDecimal layout.tie magnitude).2 * 2 ^ BinaryFormat.double.unitPower : ℚ) ≤
        BinaryFormat.scaledLimit) :
    (magnitude? (.number (Bytes.ofAscii (layout.finite f negative magnitude)))).isSome = true := by
  obtain ⟨hvalid, htext⟩ := text_floatParts hmark f negative magnitude
  rw [← htext]
  have hwhole : digitsValue (floatParts layout f negative magnitude).whole < 2 ^ 64 := by
    refine Nat.lt_of_lt_of_le (digitsValue_lt hvalid.whole.digits) ?_
    have hlength : (floatParts layout f negative magnitude).whole.length ≤ 16 := by
      unfold floatParts
      dsimp only
      split
      · decide
      · exact length_whole_digitParts _ |>.trans (by omega)
    exact (Nat.pow_le_pow_right (by decide) hlength).trans (by decide)
  refine isSome_magnitude?_text hvalid hwhole ?_
  rcases Nat.eq_zero_or_pos magnitude with rfl | hpos
  · have hzero : (floatParts layout f negative 0).value = 0 := by
      rw [NumberParts.value, show digitsValue _ = 0 from rfl, Nat.cast_zero, zero_mul]
    rw [hzero, zero_mul]
    exact BinaryFormat.scaledLimit_pos.le
  · have hvalue : (floatParts layout f negative magnitude).value =
        digitsNumber (f.shortest layout.tie magnitude) := by
      rw [← value_digitParts layout (f.shortest_valid layout.tie hpos)]
      unfold floatParts
      rw [if_neg (by omega)]
      rfl
    rw [hvalue, digitsNumber_shortest]
    exact hlimit hpos

/-- What is written of a finite number of 32 bits is not out of range. -/
theorem isSome_magnitude?_single (negative : Bool)
    (h : magnitude < BinaryFormat.single.infinity) : (magnitude? (.number (Bytes.ofAscii
      (singleLayout.finite .single negative magnitude)))).isSome = true := by
  refine isSome_magnitude?_finite rfl (by decide) negative (fun hpos => ?_)
  have hle := BinaryFormat.shortestDecimal_le singleLayout.tie (by decide) (by decide) Nat.one_pos
    hpos h
  have hbits : (2 : ℚ) ^ (BinaryFormat.single.fractionBits + 1) = 2 ^ 24 := rfl
  have hunit : BinaryFormat.double.unitPower = BinaryFormat.single.unitPower + 925 := by decide
  have hlast : (2 : ℚ) ^ (BinaryFormat.single.lastExponent + 925) ≤
      2 ^ BinaryFormat.double.lastExponent := pow_le_pow_right₀ (by norm_num) (by decide)
  rw [hbits] at hle
  rw [hunit, pow_add, ← mul_assoc]
  calc _ ≤ (2 ^ 24 - (1 : ℕ) + 1 / 2) * 2 ^ BinaryFormat.single.lastExponent * (2 : ℚ) ^ 925 :=
        mul_le_mul_of_nonneg_right hle (by positivity)
    _ = (2 ^ 24 - (1 : ℕ) + 1 / 2) * 2 ^ (BinaryFormat.single.lastExponent + 925) := by
        rw [mul_assoc, ← pow_add]
    _ ≤ (2 ^ 24 - (1 : ℕ) + 1 / 2) * 2 ^ BinaryFormat.double.lastExponent :=
        mul_le_mul_of_nonneg_left hlast (by norm_num)
    _ ≤ BinaryFormat.scaledLimit := mul_le_mul_of_nonneg_right (by norm_num) (by positivity)

/-- What is written of a finite number of 64 bits is not out of range. -/
theorem isSome_magnitude?_double (negative : Bool)
    (h : magnitude < BinaryFormat.double.infinity) : (magnitude? (.number (Bytes.ofAscii
      (doubleLayout.finite .double negative magnitude)))).isSome = true := by
  rcases Nat.lt_or_ge BinaryFormat.double.infinity (magnitude + 4) with hlast | hle
  · -- The greatest numbers are so near to the limit that their own digits decide.
    have hcases : magnitude = BinaryFormat.double.infinity - 3 ∨
        magnitude = BinaryFormat.double.infinity - 2 ∨
          magnitude = BinaryFormat.double.infinity - 1 := by omega
    rcases hcases with rfl | rfl | rfl <;> cases negative <;> decide +kernel
  · refine isSome_magnitude?_finite rfl (by decide) negative (fun hpos => ?_)
    have hle := BinaryFormat.shortestDecimal_le doubleLayout.tie (by decide) (by decide)
      (Nat.succ_pos 3) hpos hle
    have hbits : (2 : ℚ) ^ (BinaryFormat.double.fractionBits + 1) = 2 ^ 53 := rfl
    rw [hbits] at hle
    refine hle.trans_eq ?_
    rw [BinaryFormat.scaledLimit]
    norm_num

end Finite

end KernelFusion.Json

import KernelFusion.Proofs.JsonNumbers

/-!
# The form of floating-point numbers in JSON

The shortest digits of a positive magnitude start with a digit other than zero, because the decimal
number that is found is not zero. Plain and scientific notation both set such digits as the parts of
a number, so the text of every floating-point number is cut into tokens as it should be. Whether its
value is read back is another matter.
-/

namespace KernelFusion

namespace BinaryFormat

variable {f : BinaryFormat} {tie : Tie} {magnitude : Nat}

/-- A positive magnitude has units. -/
theorem units_pos (h : 0 < magnitude) : 0 < f.units magnitude := by
  simp only [units]
  split
  next hexponent =>
    have hlt : magnitude < 2 ^ f.fractionBits :=
      (Nat.div_eq_zero_iff_lt (Nat.two_pow_pos _)).mp hexponent
    rw [Nat.mod_eq_of_lt hlt]
    exact h
  next => exact Nat.mul_pos (Nat.add_pos_left (Nat.two_pow_pos _) _) (Nat.two_pow_pos _)

/-- What is found on a grid is read as the magnitude. -/
theorem ofDecimal_of_onGrid? {s : Int} {d : Nat} (h : f.onGrid? tie magnitude s = some d) :
    f.ofDecimal d s = magnitude := by
  simp only [onGrid?] at h
  split at h
  next hlow =>
    obtain ⟨hreads, -⟩ := Bool.and_eq_true_iff.mp hlow
    exact Option.some.inj h ▸ eq_of_beq hreads
  next =>
    split at h
    next hhigh => exact Option.some.inj h ▸ eq_of_beq hhigh
    next => cases h

theorem ofDecimal_of_searchGrid {fuel d : Nat} {s s' : Int}
    (h : f.searchGrid tie magnitude fuel s = some (d, s')) : f.ofDecimal d s' = magnitude := by
  induction fuel generalizing s with
  | zero => cases h
  | succ fuel ih =>
    rw [searchGrid] at h
    split at h
    next d' hgrid =>
      obtain ⟨rfl, rfl⟩ := Prod.mk.inj (Option.some.inj h)
      exact ofDecimal_of_onGrid? hgrid
    next => exact ih h

/-- The shortest decimal is read as the magnitude, or is the magnitude on the grid of the unit. -/
theorem shortestDecimal_cases (f : BinaryFormat) (tie : Tie) (magnitude : Nat) :
    f.ofDecimal (f.shortestDecimal tie magnitude).1 (f.shortestDecimal tie magnitude).2 =
        magnitude ∨
      f.shortestDecimal tie magnitude =
        (f.units magnitude * 5 ^ f.unitPower, -(f.unitPower : Int)) := by
  simp only [shortestDecimal]
  cases hsearch : f.searchGrid tie magnitude (f.leadPower magnitude + f.unitPower + 1).toNat
      (f.leadPower magnitude) with
  | none => exact Or.inr rfl
  | some found => exact Or.inl (ofDecimal_of_searchGrid hsearch)

/-- The shortest decimal of a positive magnitude is not zero, since zero is read as zero. -/
theorem shortestDecimal_pos (tie : Tie) (h : 0 < magnitude) :
    0 < (f.shortestDecimal tie magnitude).1 := by
  rcases f.shortestDecimal_cases tie magnitude with hread | hunits
  · refine Nat.pos_of_ne_zero (fun hzero => ?_)
    rw [hzero] at hread
    have hmagnitude : 0 = magnitude := hread
    omega
  · rw [hunits]
    exact Nat.mul_pos (units_pos h) (Nat.pow_pos (by decide))

end BinaryFormat

/-- Digits of a positive number: decimal digits, the first of which is not zero. -/
structure Digits.Valid (d : Digits) : Prop where
  /-- There is a first digit, and it is not zero. -/
  leading : ∃ c cs, d.digits = c :: cs ∧ c ≠ '0'
  /-- All characters are digits. -/
  digits : ∀ c ∈ d.digits, c.isDigit = true

/-- The shortest digits are those of the shortest decimal without its last zeros. -/
theorem BinaryFormat.exists_toDigits_shortestDecimal (f : BinaryFormat) (tie : Tie)
    (magnitude : Nat) : ∃ n, Nat.toDigits 10 (f.shortestDecimal tie magnitude).1 =
      (f.shortest tie magnitude).digits ++ List.replicate n '0' := by
  let all := Nat.toDigits 10 (f.shortestDecimal tie magnitude).1
  have hzeros : ∀ c ∈ all.reverse.takeWhile (· = '0'), c = '0' :=
    fun c hc => of_decide_eq_true (List.all_eq_true.mp List.all_takeWhile c hc)
  have hall : all = (f.shortest tie magnitude).digits ++
      (all.reverse.takeWhile (· = '0')).reverse := by
    have hsplit := congrArg List.reverse
      (List.takeWhile_append_dropWhile (p := (· = '0')) (l := all.reverse))
    rw [List.reverse_append, List.reverse_reverse] at hsplit
    exact hsplit.symm
  refine ⟨(all.reverse.takeWhile (· = '0')).length, hall.trans (congrArg _ ?_)⟩
  rw [List.eq_replicate_of_mem hzeros, List.reverse_replicate, List.length_replicate]

/-- The shortest digits of a positive magnitude are digits of a positive number. -/
theorem BinaryFormat.shortest_valid {f : BinaryFormat} {magnitude : Nat} (tie : Tie)
    (h : 0 < magnitude) : (f.shortest tie magnitude).Valid := by
  obtain ⟨c, cs, hdigits, hc⟩ :=
    Json.exists_toDigits_eq_cons (f.shortestDecimal_pos tie h)
  obtain ⟨n, hsplit⟩ := f.exists_toDigits_shortestDecimal tie magnitude
  have hall : ∀ x ∈ (f.shortest tie magnitude).digits, x.isDigit = true :=
    fun x hx => Json.isDigit_of_mem_decimal (hsplit ▸ List.mem_append_left _ hx)
  refine ⟨?_, hall⟩
  rw [hdigits] at hsplit
  cases hshortest : (f.shortest tie magnitude).digits with
  | nil =>
    rw [hshortest, List.nil_append] at hsplit
    have hmem : c ∈ List.replicate n '0' := hsplit ▸ List.mem_cons_self
    exact absurd (List.eq_of_mem_replicate hmem) hc
  | cons c' rest =>
    rw [hshortest, List.cons_append] at hsplit
    exact ⟨c', rest, rfl, (List.cons.inj hsplit).1 ▸ hc⟩

namespace Json

/-- The parts of a positive number, given by characters. -/
def charParts (whole : List Char) (fraction : Option (List Char))
    (exponent : Option (Bool × List Char)) : NumberParts :=
  ⟨false, Bytes.ofAscii whole, fraction.map Bytes.ofAscii,
    exponent.map (fun e => (e.1, Bytes.ofAscii e.2))⟩

/-- Some digits. -/
def AllDigits (cs : List Char) : Prop := cs ≠ [] ∧ ∀ c ∈ cs, c.isDigit = true

section Layouts

variable {d : Digits} {whole : List Char} {fraction : Option (List Char)}
  {exponent : Option (Bool × List Char)}

theorem valid_charParts (hwhole : AllDigits whole)
    (hleading : ∀ cs, whole = '0' :: cs → cs = []) (hfraction : ∀ l ∈ fraction, AllDigits l)
    (hexponent : ∀ e ∈ exponent, AllDigits e.2) : (charParts whole fraction exponent).Valid where
  whole := isDigits_ofAscii hwhole.1 hwhole.2
  leading := by
    intro hhead
    obtain ⟨c, cs, rfl⟩ := List.exists_cons_of_ne_nil hwhole.1
    by_cases hc : c = '0'
    · subst hc
      rw [hleading cs rfl]
      rfl
    · exact absurd hhead (head?_ofAscii_ne (hwhole.2 c List.mem_cons_self) hc)
  fraction := by
    intro l hl
    obtain ⟨cs, hcs, rfl⟩ := Option.map_eq_some_iff.mp hl
    exact isDigits_ofAscii (hfraction cs hcs).1 (hfraction cs hcs).2
  exponent := by
    intro e he
    obtain ⟨⟨minus, cs⟩, hcs, rfl⟩ := Option.map_eq_some_iff.mp he
    exact isDigits_ofAscii (hexponent _ hcs).1 (hexponent _ hcs).2

/-- The characters of a number. -/
theorem text_charParts : (charParts whole fraction exponent).text =
    Bytes.ofAscii (whole ++ (fraction.elim [] ('.' :: ·) ++
      exponent.elim [] (fun e => 'e' :: (if e.1 then '-' else '+') :: e.2))) := by
  have hfraction : (fraction.map Bytes.ofAscii).elim [] (0x2e :: ·) =
      Bytes.ofAscii (fraction.elim [] ('.' :: ·)) := by
    cases fraction <;> rfl
  have hexponent : (charParts whole fraction exponent).exponentText = Bytes.ofAscii
      (exponent.elim [] (fun e => 'e' :: (if e.1 then '-' else '+') :: e.2)) := by
    rcases exponent with _ | ⟨_ | _, cs⟩ <;> rfl
  have htext : (charParts whole fraction exponent).text =
      Bytes.ofAscii whole ++ ((fraction.map Bytes.ofAscii).elim [] (0x2e :: ·) ++
        (charParts whole fraction exponent).exponentText) := rfl
  rw [htext, hfraction, hexponent]
  simp only [Bytes.ofAscii, List.map_append]

theorem allDigits_toDigits (n : Nat) : AllDigits (Nat.toDigits 10 n) :=
  ⟨Nat.toDigits_ne_nil, fun _ hc => isDigit_of_mem_decimal hc⟩

theorem allDigits_singleton {c : Char} (h : c.isDigit = true) : AllDigits [c] :=
  ⟨List.cons_ne_nil _ _, List.forall_mem_singleton.mpr h⟩

theorem isDigit_of_mem_zeros {n : Nat} {c : Char} (h : c ∈ List.replicate n '0') :
    c.isDigit = true :=
  (List.eq_of_mem_replicate h) ▸ rfl

/-- The characters are the text of a positive number with these parts. -/
structure IsNumber (text : List Char) (p : NumberParts) : Prop where
  /-- The parts can be taken from a text. -/
  valid : p.Valid
  /-- There is no sign. -/
  positive : p.negative = false
  /-- The parts make the text. -/
  text : p.text = Bytes.ofAscii text

/-- Digits, a point and digits. -/
theorem isNumber_pointed {places : List Char} (hwhole : AllDigits whole)
    (hleading : ∀ cs, whole = '0' :: cs → cs = []) (hplaces : AllDigits places) :
    IsNumber (whole ++ '.' :: places) (charParts whole (some places) none) where
  valid := by
    refine valid_charParts hwhole hleading ?_ (fun _ h => nomatch h)
    rintro _ ⟨⟩
    exact hplaces
  positive := rfl
  text := text_charParts.trans
    (congrArg (fun l => Bytes.ofAscii (whole ++ '.' :: l)) (List.append_nil places))

/-- The parts of a number below one in plain notation. -/
def smallParts (d : Digits) : NumberParts :=
  charParts ['0'] (some (List.replicate (-d.lead - 1).toNat '0' ++ d.digits)) none

/-- The parts of a number from one on in plain notation. -/
def plainParts (d : Digits) : NumberParts :=
  let whole := d.digits.take (d.lead.toNat + 1)
  let fraction := d.digits.drop (d.lead.toNat + 1)
  charParts (whole ++ List.replicate (d.lead.toNat + 1 - whole.length) '0')
    (some (if fraction.isEmpty then ['0'] else fraction)) none

/-- The parts of a number in scientific notation. -/
def scientificParts (d : Digits) : NumberParts :=
  let fraction := d.digits.drop 1
  charParts (d.digits.take 1) (if fraction.isEmpty then none else some fraction)
    (some (decide (d.lead < 0), Nat.toDigits 10 d.lead.natAbs))

/-- Plain notation of a small number makes a number of digits. -/
theorem isNumber_small (hd : d.Valid) (hlead : d.lead < 0) :
    IsNumber (FloatLayout.plain d) (smallParts d) := by
  obtain ⟨c, cs, hdigits, -⟩ := hd.leading
  have hplaces : AllDigits (List.replicate (-d.lead - 1).toNat '0' ++ d.digits) :=
    ⟨by simp [hdigits], List.forall_mem_append.mpr ⟨fun x hx => isDigit_of_mem_zeros hx, hd.digits⟩⟩
  rw [FloatLayout.plain, if_pos hlead]
  exact isNumber_pointed (allDigits_singleton rfl) (fun _ hl => (List.cons.inj hl).2.symm) hplaces

/-- Plain notation makes a number of digits. -/
theorem isNumber_plain (hd : d.Valid) (hlead : ¬ d.lead < 0) :
    IsNumber (FloatLayout.plain d) (plainParts d) := by
  obtain ⟨c, cs, hdigits, hc⟩ := hd.leading
  rw [FloatLayout.plain, if_neg hlead]
  refine isNumber_pointed ⟨by simp [hdigits], ?_⟩ ?_ ?_
  · refine List.forall_mem_append.mpr ⟨?_, fun x hx => isDigit_of_mem_zeros hx⟩
    exact fun x hx => hd.digits x (List.mem_of_mem_take hx)
  · intro _ hwhole
    rw [hdigits] at hwhole
    exact absurd (List.cons.inj hwhole).1 hc
  · split
    next => exact allDigits_singleton rfl
    next hempty =>
      exact ⟨fun hnil => hempty (List.isEmpty_iff.mpr hnil),
        fun x hx => hd.digits x (List.mem_of_mem_drop hx)⟩

/-- Scientific notation makes a number of digits. -/
theorem isNumber_scientific {layout : FloatLayout} (hmark : layout.positiveMark = ['+'])
    (hd : d.Valid) : IsNumber (layout.scientific d) (scientificParts d) := by
  obtain ⟨c, cs, hdigits, hc⟩ := hd.leading
  obtain ⟨hfirst, hrest⟩ := List.forall_mem_cons.mp (hdigits ▸ hd.digits)
  have hpower : ∀ e ∈ some (decide (d.lead < 0), Nat.toDigits 10 d.lead.natAbs),
      AllDigits e.2 := by
    rintro _ ⟨⟩
    exact allDigits_toDigits d.lead.natAbs
  have hleading : ∀ l, [c] = '0' :: l → l = [] := fun l hl => (List.cons.inj hl).2.symm
  have hsign : (if d.lead < 0 then ['-'] else layout.positiveMark) =
      [if decide (d.lead < 0) = true then '-' else '+'] := by
    rw [hmark]
    by_cases hlead : d.lead < 0 <;> simp [hlead]
  unfold FloatLayout.scientific scientificParts
  rw [hdigits, hsign]
  cases cs with
  | nil =>
    exact ⟨valid_charParts (allDigits_singleton hfirst) hleading (fun _ h => nomatch h) hpower,
      rfl, text_charParts⟩
  | cons c' cs =>
    refine ⟨valid_charParts (allDigits_singleton hfirst) hleading ?_ hpower, rfl, text_charParts⟩
    rintro _ ⟨⟩
    exact ⟨List.cons_ne_nil _ _, hrest⟩

/-- The parts of a number with these digits. -/
def digitParts (layout : FloatLayout) (d : Digits) : NumberParts :=
  if layout.leastPlain ≤ d.lead ∧ d.lead ≤ layout.mostPlain then
    if d.lead < 0 then smallParts d else plainParts d
  else scientificParts d

theorem isNumber_ofDigits {layout : FloatLayout} (hmark : layout.positiveMark = ['+'])
    (hd : d.Valid) : IsNumber (layout.ofDigits d) (digitParts layout d) := by
  unfold FloatLayout.ofDigits digitParts
  split
  next =>
    split
    next hlead => exact isNumber_small hd hlead
    next hlead => exact isNumber_plain hd hlead
  next => exact isNumber_scientific hmark hd

/-- The parts of a finite number. -/
def floatParts (layout : FloatLayout) (f : BinaryFormat) (negative : Bool) (magnitude : Nat) :
    NumberParts :=
  { (if magnitude = 0 then charParts ['0'] (some ['0']) none
      else digitParts layout (f.shortest layout.tie magnitude)) with negative := negative }

/-- Every text of a finite number is the text of its parts. -/
theorem text_floatParts {layout : FloatLayout} (hmark : layout.positiveMark = ['+'])
    (f : BinaryFormat) (negative : Bool) (magnitude : Nat) :
    (floatParts layout f negative magnitude).Valid ∧
      (floatParts layout f negative magnitude).text =
        Bytes.ofAscii (layout.finite f negative magnitude) := by
  have hunsigned : IsNumber (if magnitude = 0 then ['0', '.', '0']
      else layout.ofDigits (f.shortest layout.tie magnitude))
      (if magnitude = 0 then charParts ['0'] (some ['0']) none
        else digitParts layout (f.shortest layout.tie magnitude)) := by
    split
    next =>
      have hzero : AllDigits ['0'] := allDigits_singleton rfl
      exact isNumber_pointed hzero (fun _ hl => (List.cons.inj hl).2.symm) hzero
    next hzero =>
      exact isNumber_ofDigits hmark (f.shortest_valid layout.tie (Nat.pos_of_ne_zero hzero))
  unfold floatParts FloatLayout.finite
  generalize (if magnitude = 0 then charParts ['0'] (some ['0']) none
    else digitParts layout (f.shortest layout.tie magnitude)) = p at hunsigned ⊢
  obtain ⟨hvalid, hpositive, htext⟩ := hunsigned
  refine ⟨⟨hvalid.whole, hvalid.leading, hvalid.fraction, hvalid.exponent⟩, ?_⟩
  obtain ⟨_, whole, fraction, exponent⟩ := p
  obtain rfl : _ = false := hpositive
  cases negative with
  | false => exact htext
  | true => exact congrArg (0x2d :: ·) htext

/-- Every text of a finite number has the form of a number. -/
theorem numeral_finite {layout : FloatLayout} (hmark : layout.positiveMark = ['+'])
    (f : BinaryFormat) (negative : Bool) (magnitude : Nat) :
    Numeral (Bytes.ofAscii (layout.finite f negative magnitude)) := by
  obtain ⟨hvalid, htext⟩ := text_floatParts hmark f negative magnitude
  exact htext ▸ numeral_text hvalid

/-- The text of a floating-point number has the form of a number, or is the word for no value. -/
theorem lexical_ofFloat {layout : FloatLayout} (hmark : layout.positiveMark = ['+'])
    (f : BinaryFormat) (pattern : Nat) : (ofFloat f layout pattern).Lexical := by
  unfold ofFloat
  split
  next => exact .number (numeral_finite hmark f _ _)
  next => exact .null
  next => exact .null

end Layouts

end Json

end KernelFusion

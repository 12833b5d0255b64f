import KernelFusion.Decimal.Shortest

/-!
# Layouts of decimal texts

Digits and a leading power become text in plain notation or with an exponent. Which powers are
written plainly and how an exponent is written is a `FloatLayout`; the formats that write numbers
each have one.
-/

namespace KernelFusion

/-- How the digits of a number are set. -/
structure FloatLayout where
  /-- The least leading power that is written plainly. -/
  leastPlain : Int
  /-- The greatest leading power that is written plainly. -/
  mostPlain : Int
  /-- What stands before an exponent that is not negative. -/
  positiveMark : List Char
  /-- Which of two equally near shortest decimals is written. -/
  tie : Tie
deriving DecidableEq

namespace FloatLayout

variable (layout : FloatLayout)

/-- Plain notation, with at least one digit on each side of the point. -/
def plain (d : Digits) : List Char :=
  if d.lead < 0 then
    '0' :: '.' :: (List.replicate (-d.lead - 1).toNat '0' ++ d.digits)
  else
    let width := d.lead.toNat + 1
    let whole := d.digits.take width
    let fraction := d.digits.drop width
    whole ++ List.replicate (width - whole.length) '0' ++
      '.' :: (if fraction.isEmpty then ['0'] else fraction)

/-- One digit before the point, the rest behind it, and the power of the first digit. -/
def scientific (d : Digits) : List Char :=
  let point := match d.digits with
    | [] => []
    | [c] => [c]
    | c :: rest => c :: '.' :: rest
  let mark := if d.lead < 0 then ['-'] else layout.positiveMark
  point ++ 'e' :: (mark ++ Nat.toDigits 10 d.lead.natAbs)

/-- The text of a positive number's digits. -/
def ofDigits (d : Digits) : List Char :=
  if layout.leastPlain ≤ d.lead ∧ d.lead ≤ layout.mostPlain then plain d
  else layout.scientific d

/-- The text of a finite number, given by its sign and its magnitude in a format. -/
def finite (f : BinaryFormat) (negative : Bool) (magnitude : Nat) : List Char :=
  let unsigned :=
    if magnitude = 0 then ['0', '.', '0'] else layout.ofDigits (f.shortest layout.tie magnitude)
  if negative then '-' :: unsigned else unsigned

end FloatLayout

end KernelFusion

import KernelFusion.Decimal.Binary

/-!
# Decimal numbers by scaling

A decimal number is a whole number times a power of ten. Here it is read to the 64-bit format with
one operation of that format: the whole number is rounded, the power of ten is rounded, and their
product or quotient is rounded once more. Where the whole number is below `2^53` and the power at
most `10^22` both are exact and the result is the nearest magnitude; elsewhere it may be a neighbour
of the nearest one.
-/

namespace KernelFusion.BinaryFormat

section Operations

variable (f : BinaryFormat)

/-- The magnitude nearest to a natural number. -/
def ofNat (n : Nat) : Nat := f.nearest (n * 2 ^ f.unitPower) 1

/-- The magnitude nearest to the product of two finite magnitudes. -/
def product (a b : Nat) : Nat := f.nearest (f.units a * f.units b) (2 ^ f.unitPower)

/-- The magnitude nearest to the quotient of a finite magnitude and a positive one. -/
def quotient (a b : Nat) : Nat := f.nearest (f.units a * 2 ^ f.unitPower) (f.units b)

end Operations

/-- The greatest power of ten that is finite in the 64-bit format. -/
def lastPower : Nat := 308

/-- A 64-bit magnitude times a power of ten. Zero stays zero; times an infinite power any other
magnitude is infinite. -/
def scaleUp (magnitude power : Nat) : Nat :=
  if magnitude = 0 then 0
  else if power ≤ lastPower then double.product magnitude (double.ofNat (10 ^ power))
  else double.infinity

/-- A 64-bit magnitude divided by a power of ten. A power that is infinite is divided by in steps of
the last finite one, until it is finite or nothing is left of the magnitude. -/
def scaleDown (magnitude power : Nat) : Nat :=
  if power ≤ lastPower then double.quotient magnitude (double.ofNat (10 ^ power))
  else if magnitude = 0 then 0
  else scaleDown (double.quotient magnitude (double.ofNat (10 ^ lastPower))) (power - lastPower)
termination_by power
decreasing_by simp only [lastPower] at *; omega

/-- The 64-bit magnitude that `d · 10^s` is scaled to. -/
def scaled (d : Nat) (s : Int) : Nat :=
  match s with
  | .ofNat n => scaleUp (double.ofNat d) n
  | .negSucc n => scaleDown (double.ofNat d) (n + 1)

end KernelFusion.BinaryFormat

/-!
# Binary floating-point formats

A constant of a kernel may be a 32-bit or a 64-bit binary floating-point number, kept as its bit
pattern. Every finite magnitude of a format is a whole number of the format's least positive value,
its unit. Counted in units all arithmetic on magnitudes is arithmetic on natural numbers: `units`
reads a pattern, `nearest` rounds a quotient of naturals to a pattern, a tie to the even one.
-/

-- The powers here are the ones that the language computes with, also where another library has an
-- instance of its own for them.
attribute [instance (20000), default_instance (20000)] instPowNat

namespace KernelFusion

/-- The layout of a binary floating-point format: sign, exponent field, fraction field. -/
structure BinaryFormat where
  /-- Width of the fraction field. -/
  fractionBits : Nat
  /-- Width of the exponent field. -/
  exponentBits : Nat
deriving DecidableEq

/-- What a bit pattern stands for. -/
inductive FloatClass where
  /-- No number. -/
  | notANumber
  /-- An infinity. -/
  | infinite (negative : Bool)
  /-- A finite number; the magnitude is its pattern without the sign. -/
  | finite (negative : Bool) (magnitude : Nat)
deriving DecidableEq

namespace BinaryFormat

/-- The 32-bit format. -/
def single : BinaryFormat := ⟨23, 8⟩

/-- The 64-bit format. -/
def double : BinaryFormat := ⟨52, 11⟩

variable (f : BinaryFormat)

/-- The unit is two to the power of minus this number. -/
def unitPower : Nat := 2 ^ (f.exponentBits - 1) - 2 + f.fractionBits

/-- The magnitude pattern of infinity; smaller patterns are finite, larger ones are no numbers. -/
def infinity : Nat := (2 ^ f.exponentBits - 1) * 2 ^ f.fractionBits

/-- The sign bit. -/
def signBit : Nat := 2 ^ (f.exponentBits + f.fractionBits)

/-- What a pattern of the format stands for. -/
def classify (pattern : Nat) : FloatClass :=
  let magnitude := pattern % f.signBit
  let negative := f.signBit ≤ pattern
  if magnitude < f.infinity then .finite negative magnitude
  else if magnitude = f.infinity then .infinite negative
  else .notANumber

/-- The number of units of a finite magnitude. An exponent field of zero has no leading one. -/
def units (magnitude : Nat) : Nat :=
  let exponent := magnitude / 2 ^ f.fractionBits
  let fraction := magnitude % 2 ^ f.fractionBits
  if exponent = 0 then fraction else (2 ^ f.fractionBits + fraction) * 2 ^ (exponent - 1)

/-- A quotient rounded to the nearest natural number, a half to the even one. -/
def roundHalfEven (num den : Nat) : Nat :=
  let q := num / den
  let r := num % den
  if den < 2 * r ∨ (2 * r = den ∧ q % 2 = 1) then q + 1 else q

/-- The magnitude pattern nearest to `num / den` units. Where the quotient has more bits than a
significand, the surplus gives the exponent; a significand rounded up to a power of two carries into
the exponent field by itself. Too large a quotient gives infinity. -/
def nearest (num den : Nat) : Nat :=
  let surplus := (num / den).log2 - f.fractionBits
  min (roundHalfEven num (den * 2 ^ surplus) + surplus * 2 ^ f.fractionBits) f.infinity

/-- The pattern of a magnitude with a sign. -/
def signed (negative : Bool) (magnitude : Nat) : Nat :=
  if negative then f.signBit + magnitude else magnitude

/-- The magnitude of another format nearest to a magnitude of this one. -/
def convert (target : BinaryFormat) (magnitude : Nat) : Nat :=
  if magnitude < f.infinity then
    target.nearest (f.units magnitude * 2 ^ target.unitPower) (2 ^ f.unitPower)
  else target.infinity

end BinaryFormat

end KernelFusion

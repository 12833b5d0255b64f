import KernelFusion.Decimal.Layout
import KernelFusion.Decimal.Scaled
import KernelFusion.Json.Tree

/-!
# Numbers of JSON

Whole numbers are written in decimal and read only where no fraction and no exponent is written.
Floating-point numbers are written with the shortest digits to which they are the nearest number of
their format, and infinities and things that are no numbers as null. A number is read as its leading
digits, as many as fit into 64 bits, scaled by a power of ten; so of a long number the 64-bit value
may be a neighbour of the nearest one. A 32-bit number is rounded from the 64-bit one and may become
infinite, but a whole number of 64 bits is rounded at once.
-/

namespace KernelFusion.Json

/-- JSON writes 32-bit numbers plainly from a millionth to below ten to the thirteenth. -/
def singleLayout : FloatLayout := ⟨-6, 12, ['+'], .toEven⟩

/-- JSON writes 64-bit numbers plainly from a hundred thousandth to below ten to the sixteenth. -/
def doubleLayout : FloatLayout := ⟨-5, 15, ['+'], .toEven⟩

/-- A natural number. -/
def ofNat (n : Nat) : Json := .number (Bytes.ofAscii (Nat.toDigits 10 n))

/-- An integer. -/
def ofInt (n : Int) : Json :=
  .number (Bytes.ofAscii ((if n < 0 then ['-'] else []) ++ Nat.toDigits 10 n.natAbs))

/-- A floating-point number of a format, given by its pattern. -/
def ofFloat (f : BinaryFormat) (layout : FloatLayout) (pattern : Nat) : Json :=
  match f.classify pattern with
  | .finite negative magnitude => .number (Bytes.ofAscii (layout.finite f negative magnitude))
  | .infinite _ | .notANumber => .null

/-- The number of a list of digits. -/
def digitsValue (digits : Bytes) : Nat := digits.foldl (fun n b => n * 10 + (b.toNat - 0x30)) 0

/-- The integer of a number that is written without fraction and exponent. A zero with a minus sign
is none. -/
def integer? : Json → Option Int
  | number lexeme =>
    match numberParts? lexeme with
    | some ⟨negative, whole, none, none⟩ =>
      let n := digitsValue whole
      if negative then (if n = 0 then none else some (-(n : Int))) else some n
    | _ => none
  | _ => none

/-- The integer of a number, if it lies between two bounds. -/
def integerIn? (low high : Int) (j : Json) : Option Int :=
  (j.integer?).filter (fun n => low ≤ n && n ≤ high)

/-- A number of 32 bits without sign. -/
def uint32? (j : Json) : Option UInt32 :=
  (integerIn? 0 (2 ^ 32 - 1) j).map (fun n => n.toNat.toUInt32)

/-- A number of 64 bits without sign. -/
def uint64? (j : Json) : Option UInt64 :=
  (integerIn? 0 (2 ^ 64 - 1) j).map (fun n => n.toNat.toUInt64)

/-- A number of 32 bits with sign. -/
def int32? (j : Json) : Option Int32 := (integerIn? (-2 ^ 31) (2 ^ 31 - 1) j).map Int32.ofInt

/-- A number of 64 bits with sign. -/
def int64? (j : Json) : Option Int64 := (integerIn? (-2 ^ 63) (2 ^ 63 - 1) j).map Int64.ofInt

/-- The value of more and more digits behind a value, as long as it fits into 64 bits, and the
digits left over. -/
def takeDigits (value : Nat) : Bytes → Nat × Bytes
  | [] => (value, [])
  | b :: rest =>
    let next := value * 10 + (b.toNat - 0x30)
    if next < 2 ^ 64 then takeDigits next rest else (value, b :: rest)

/-- The sign and the 64-bit magnitude of a number, if it is not out of range. Digits that do not fit
into 64 bits count as zeros before the point and not at all after it. -/
def magnitude? : Json → Option (Bool × Nat)
  | number lexeme =>
    match numberParts? lexeme with
    | none => none
    | some parts =>
      let fraction := parts.fraction.getD []
      let power : Int := match parts.exponent with
        | none => 0
        | some (true, digits) => -(digitsValue digits : Int)
        | some (false, digits) => digitsValue digits
      let (whole, wholeLeft) := takeDigits 0 parts.whole
      let (value, fractionLeft) := takeDigits whole fraction
      let places : Int := wholeLeft.length + fractionLeft.length - fraction.length
      let magnitude := BinaryFormat.scaled value (power + places)
      if magnitude < BinaryFormat.double.infinity then some (parts.negative, magnitude) else none
  | _ => none

/-- The pattern of a 64-bit floating-point number. -/
def float64? (j : Json) : Option UInt64 :=
  (j.magnitude?).map (fun m => (BinaryFormat.double.signed m.1 m.2).toUInt64)

/-- The pattern of a 32-bit floating-point number. -/
def float32? (j : Json) : Option UInt32 :=
  match integerIn? (-2 ^ 63) (2 ^ 64 - 1) j with
  | some n =>
    some (BinaryFormat.single.signed (n < 0)
      (BinaryFormat.single.nearest (n.natAbs * 2 ^ BinaryFormat.single.unitPower) 1)).toUInt32
  | none =>
    (j.magnitude?).map (fun m =>
      (BinaryFormat.single.signed m.1 (BinaryFormat.double.convert .single m.2)).toUInt32)

end KernelFusion.Json

import KernelFusion.Decimal.Binary

/-!
# Shortest decimal texts of floating-point numbers

A decimal number `d · 10^s` is read as the nearest magnitude of a format (`ofDecimal`). The shortest
digits of a magnitude are found by asking that reader: for one digit, two digits and so on, the two
neighbours of the number on the decimal grid with so many digits are read back, and the first grid
with a hit wins. Of two hits the nearer is taken.
-/

namespace KernelFusion

/-- Which of two equally near decimals is written. -/
inductive Tie where
  /-- The one with the even last digit. -/
  | toEven
  /-- The larger one. -/
  | up
deriving DecidableEq

/-- Decimal digits of a positive number, with the power of ten of the first of them. -/
structure Digits where
  /-- The digits, the first of them not zero. -/
  digits : List Char
  /-- The power of ten that the first digit counts. -/
  lead : Int
deriving DecidableEq

namespace BinaryFormat

variable (f : BinaryFormat)

/-- The magnitude nearest to `d · 10^s`. -/
def nearestDecimal (d : Nat) (s : Int) : Nat :=
  match s with
  | .ofNat n => f.nearest (d * 10 ^ n * 2 ^ f.unitPower) 1
  | .negSucc n => f.nearest (d * 2 ^ f.unitPower) (10 ^ (n + 1))

/-- More decimal places than this on either side of the point lie outside every format: the larger
numbers are infinite, the smaller ones zero. -/
def placeLimit : Nat := 2 ^ f.exponentBits + 2 * f.fractionBits

/-- The magnitude that a decimal number is read as. Numbers far outside the range of the format are
decided by their number of places, so that no large power is computed. -/
def ofDecimal (d : Nat) (s : Int) : Nat :=
  if d = 0 then 0
  else
    let places := ((Nat.toDigits 10 d).length : Int) + s
    if (f.placeLimit : Int) < places then f.infinity
    else if places < -(f.placeLimit : Int) then 0
    else f.nearestDecimal d s

/-- A positive magnitude over `10^s`, as numerator and denominator. -/
def overPower (magnitude : Nat) (s : Int) : Nat × Nat :=
  match s with
  | .ofNat n => (f.units magnitude, 2 ^ f.unitPower * 10 ^ n)
  | .negSucc n => (f.units magnitude * 10 ^ (n + 1), 2 ^ f.unitPower)

/-- The least `t` from `start` on for which the magnitude times `10^t` is at least one. -/
def placesBelowOne (magnitude : Nat) : (fuel start : Nat) → Nat
  | 0, start => start
  | fuel + 1, start =>
    let (num, den) := f.overPower magnitude (-(start : Int))
    if den ≤ num then start else placesBelowOne magnitude fuel (start + 1)

/-- The power of ten of the first decimal digit of a positive magnitude. -/
def leadPower (magnitude : Nat) : Int :=
  let whole := f.units magnitude / 2 ^ f.unitPower
  if whole = 0 then -((f.placesBelowOne magnitude f.unitPower 1 : Nat) : Int)
  else ((Nat.toDigits 10 whole).length : Int) - 1

/-- The neighbour of a magnitude on the grid `10^s` that reads back as it, the nearer one of two. -/
def onGrid? (tie : Tie) (magnitude : Nat) (s : Int) : Option Nat :=
  let (num, den) := f.overPower magnitude s
  let low := num / den
  let rest := num % den
  let lowReads := f.ofDecimal low s == magnitude
  let highReads := f.ofDecimal (low + 1) s == magnitude
  let preferLow := 2 * rest < den || (2 * rest == den && tie == .toEven && low % 2 == 0)
  if lowReads && (preferLow || !highReads) then some low
  else if highReads then some (low + 1)
  else none

/-- Try grids with more and more digits; `s` is the power of the grid. -/
def searchGrid (tie : Tie) (magnitude : Nat) : (fuel : Nat) → (s : Int) → Option (Nat × Int)
  | 0, _ => none
  | fuel + 1, s =>
    match f.onGrid? tie magnitude s with
    | some d => some (d, s)
    | none => searchGrid tie magnitude fuel (s - 1)

/-- The shortest decimal that reads back, as a whole number times a power of ten. All numbers of a
format lie on the grid of the unit's last decimal place, so the search ends there at the latest. -/
def shortestDecimal (tie : Tie) (magnitude : Nat) : Nat × Int :=
  let lead := f.leadPower magnitude
  (f.searchGrid tie magnitude (lead + f.unitPower + 1).toNat lead).getD
    (f.units magnitude * 5 ^ f.unitPower, -(f.unitPower : Int))

/-- The shortest digits that read back as a positive magnitude. -/
def shortest (tie : Tie) (magnitude : Nat) : Digits :=
  let (d, s) := f.shortestDecimal tie magnitude
  let all := Nat.toDigits 10 d
  ⟨(all.reverse.dropWhile (· = '0')).reverse, s + all.length - 1⟩

end BinaryFormat

end KernelFusion

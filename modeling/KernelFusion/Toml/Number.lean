import KernelFusion.Decimal.Shortest
import KernelFusion.Toml.Text
import KernelFusion.Toml.Table

/-!
# Numbers, dates and times of TOML
-/

namespace KernelFusion.Toml

/-- Digits of a base, with single underscores between digits left out. -/
def moreDigits (base : Nat) : List Char → List Char × List Char
  | '_' :: d :: rest =>
    if (digitValue? base d).isSome then
      let (ds, rest) := moreDigits base rest
      (d :: ds, rest)
    else ([], '_' :: d :: rest)
  | d :: rest =>
    if (digitValue? base d).isSome then
      let (ds, rest) := moreDigits base rest
      (d :: ds, rest)
    else ([], d :: rest)
  | [] => ([], [])

/-- One digit of a base, and more. -/
def digits? (base : Nat) : List Char → Reading (List Char)
  | d :: rest =>
    if (digitValue? base d).isSome then
      let (ds, rest) := moreDigits base rest
      some (d :: ds, rest)
    else none
  | [] => none

/-- A sign: whether it is a minus, and what follows it. -/
def sign : List Char → Bool × List Char
  | '-' :: rest => (true, rest)
  | '+' :: rest => (false, rest)
  | cs => (false, cs)

/-- The sign and the digits of a decimal integer without superfluous zeros. -/
def decimal? (cs : List Char) : Reading (Bool × List Char) :=
  let (negative, unsigned) := sign cs
  match unsigned with
  | '0' :: rest => some ((negative, ['0']), rest)
  | _ => (digits? 10 unsigned).map (fun r => ((negative, r.1), r.2))

/-- An integer of 64 bits. -/
def integer? (cs : List Char) : Reading Toml :=
  let ofBase (base : Nat) (rest : List Char) : Reading Toml :=
    match digits? base rest with
    | some (ds, rest) =>
      match number? base ds with
      | some n => if n < 2 ^ 63 then some (.integer n, rest) else none
      | none => none
    | none => none
  match cs with
  | '0' :: 'x' :: rest => ofBase 16 rest
  | '0' :: 'o' :: rest => ofBase 8 rest
  | '0' :: 'b' :: rest => ofBase 2 rest
  | _ =>
    match decimal? cs with
    | some ((negative, ds), rest) =>
      match number? 10 ds with
      | some n =>
        if negative then (if n ≤ 2 ^ 63 then some (.integer (-(n : Int)), rest) else none)
        else if n < 2 ^ 63 then some (.integer n, rest)
        else none
      | none => none
    | none => none

/-- The exponent of a number: whether it is negative, and its digits. -/
def exponent? : List Char → Reading (Bool × List Char)
  | e :: rest =>
    if e = 'e' ∨ e = 'E' then
      let (negative, rest) := sign rest
      (digits? 10 rest).map (fun r => ((negative, r.1), r.2))
    else none
  | [] => none

/-- A floating-point number with a fraction, an exponent or both. A positive one must not be out of
range. -/
def decimalFloat? (cs : List Char) : Reading Toml :=
  match decimal? cs with
  | none => none
  | some ((negative, whole), rest) =>
    let parts : Reading (List Char × (Bool × List Char)) :=
      match rest with
      | '.' :: rest =>
        match digits? 10 rest with
        | none => none
        | some (fraction, rest) =>
          match exponent? rest with
          | some (e, rest) => some ((fraction, e), rest)
          | none => some ((fraction, (false, ['0'])), rest)
      | _ => (exponent? rest).map (fun r => (([], r.1), r.2))
    match parts with
    | none => none
    | some ((fraction, (negativeExponent, exponent)), rest) =>
      match number? 10 (whole ++ fraction), number? 10 exponent with
      | some d, some e =>
        let power : Int := if negativeExponent then -(e : Int) else e
        let magnitude := BinaryFormat.double.ofDecimal d (power - fraction.length)
        if negative ∨ magnitude < BinaryFormat.double.infinity then some (.float, rest) else none
      | _, _ => none

/-- An infinity or a thing that is no number, with or without sign. -/
def specialFloat? (cs : List Char) : Reading Toml :=
  match (sign cs).2 with
  | 'i' :: 'n' :: 'f' :: rest => some (.float, rest)
  | 'n' :: 'a' :: 'n' :: rest => some (.float, rest)
  | _ => none

/-- A number of two digits within bounds. -/
def twoDigits? (low high : Nat) : List Char → Reading Nat
  | a :: b :: rest =>
    match number? 10 [a, b] with
    | some n => if low ≤ n ∧ n ≤ high then some (n, rest) else none
    | none => none
  | _ => none

/-- What follows a certain character. -/
def after? (c : Char) : List Char → Option (List Char)
  | d :: rest => if d = c then some rest else none
  | [] => none

/-- The number of days of a month. -/
def daysOfMonth (year month : Nat) : Nat :=
  if month = 2 then
    if year % 4 = 0 ∧ (year % 100 ≠ 0 ∨ year % 400 = 0) then 29 else 28
  else if month = 4 ∨ month = 6 ∨ month = 9 ∨ month = 11 then 30
  else 31

/-- What follows a date. -/
def date? : List Char → Option (List Char)
  | a :: b :: c :: d :: '-' :: rest => do
    let year ← number? 10 [a, b, c, d]
    let (month, rest) ← twoDigits? 1 12 rest
    let rest ← after? '-' rest
    let (_, rest) ← twoDigits? 1 (daysOfMonth year month) rest
    some rest
  | _ => none

/-- What follows a time of day. -/
def time? (cs : List Char) : Option (List Char) := do
  let (_, rest) ← twoDigits? 0 23 cs
  let rest ← after? ':' rest
  let (_, rest) ← twoDigits? 0 59 rest
  let rest ← after? ':' rest
  let (_, rest) ← twoDigits? 0 60 rest
  match rest with
  | '.' :: d :: more =>
    if (digitValue? 10 d).isSome then
      some (more.dropWhile (fun c => (digitValue? 10 c).isSome))
    else some rest
  | _ => some rest

/-- What follows an offset from universal time. -/
def offset? : List Char → Option (List Char)
  | c :: rest =>
    if c = 'Z' ∨ c = 'z' then some rest
    else if c = '+' ∨ c = '-' then do
      let (_, rest) ← twoDigits? 0 23 rest
      let rest ← after? ':' rest
      let (_, rest) ← twoDigits? 0 59 rest
      some rest
    else none
  | [] => none

/-- A date, a time, or a date with a time and perhaps an offset. -/
def moment? (cs : List Char) : Reading Toml :=
  match date? cs with
  | some rest =>
    let withTime := match rest with
      | c :: rest => if c = 'T' ∨ c = 't' ∨ c = ' ' then time? rest else none
      | [] => none
    match withTime with
    | some rest => some (.moment, (offset? rest).getD rest)
    | none => some (.moment, rest)
  | none => (time? cs).map (.moment, ·)

/-- A value that starts with a sign, a digit or a letter: a date or time, a number, or a truth
value. -/
def scalar? (cs : List Char) : Reading Toml :=
  match cs with
  | 't' :: 'r' :: 'u' :: 'e' :: rest => some (.boolean true, rest)
  | 'f' :: 'a' :: 'l' :: 's' :: 'e' :: rest => some (.boolean false, rest)
  | _ => (moment? cs).or ((decimalFloat? cs).or ((specialFloat? cs).or (integer? cs)))

end KernelFusion.Toml

import KernelFusion.Json.Tree

/-!
# Strings of JSON

How a text is written between quotes and read back. Quotes, backslashes and control bytes are
escaped; all else is written as it is, in UTF-8. Reading knows every escape, joins the two halves of
a code point beyond the first plane, and refuses a half that stands alone.
-/

namespace KernelFusion.Json

/-- The value of a hexadecimal digit. -/
def hexValue (b : UInt8) : Nat :=
  if isDigit b then b.toNat - 0x30
  else if 0x61 ≤ b then b.toNat - 0x61 + 10
  else b.toNat - 0x41 + 10

/-- The hexadecimal digit of a number below sixteen. -/
def hexDigit (n : Nat) : UInt8 := (if n < 10 then 0x30 + n else 0x61 + n - 10).toUInt8

/-- The written form of one byte of a string. -/
def escapeByte (b : UInt8) : Bytes :=
  if b == 0x22 then [0x5c, 0x22]
  else if b == 0x5c then [0x5c, 0x5c]
  else if b == 0x08 then [0x5c, 0x62]
  else if b == 0x0c then [0x5c, 0x66]
  else if b == 0x0a then [0x5c, 0x6e]
  else if b == 0x0d then [0x5c, 0x72]
  else if b == 0x09 then [0x5c, 0x74]
  else if b < 0x20 then [0x5c, 0x75, 0x30, 0x30, hexDigit (b.toNat / 16), hexDigit (b.toNat % 16)]
  else [b]

/-- The written form of a string between the quotes. -/
def escape (text : Bytes) : Bytes := text.flatMap escapeByte

/-- The byte that a short escape stands for. -/
def shortEscape? (b : UInt8) : Option UInt8 :=
  if b == 0x22 || b == 0x5c || b == 0x2f then some b
  else if b == 0x62 then some 0x08
  else if b == 0x66 then some 0x0c
  else if b == 0x6e then some 0x0a
  else if b == 0x72 then some 0x0d
  else if b == 0x74 then some 0x09
  else none

/-- The number of four hexadecimal digits. -/
def hexNumber (a b c d : UInt8) : Nat :=
  ((hexValue a * 16 + hexValue b) * 16 + hexValue c) * 16 + hexValue d

/-- Whether a number is the first half of a code point beyond the first plane. -/
def isHighHalf (n : Nat) : Bool := 0xd800 ≤ n && n < 0xdc00

/-- Whether a number is the second half of a code point beyond the first plane. -/
def isLowHalf (n : Nat) : Bool := 0xdc00 ≤ n && n < 0xe000

/-- The UTF-8 bytes of a code point. -/
def codePointBytes (n : Nat) : Bytes :=
  if n < 0x80 then [n.toUInt8]
  else if n < 0x800 then [(0xc0 + n / 0x40).toUInt8, (0x80 + n % 0x40).toUInt8]
  else if n < 0x10000 then
    [(0xe0 + n / 0x1000).toUInt8, (0x80 + n / 0x40 % 0x40).toUInt8, (0x80 + n % 0x40).toUInt8]
  else
    [(0xf0 + n / 0x40000).toUInt8, (0x80 + n / 0x1000 % 0x40).toUInt8,
      (0x80 + n / 0x40 % 0x40).toUInt8, (0x80 + n % 0x40).toUInt8]

/-- Read the body of a string. The first argument is a first half that waits for its second. -/
def unescapeFrom? (half : Option Nat) : Bytes → Option Bytes
  | [] => if half.isSome then none else some []
  | 0x5c :: 0x75 :: a :: b :: c :: d :: rest =>
    let n := hexNumber a b c d
    match half with
    | some high =>
      if isLowHalf n then
        (unescapeFrom? none rest).map
          (codePointBytes (0x10000 + (high - 0xd800) * 0x400 + (n - 0xdc00)) ++ ·)
      else none
    | none =>
      if isHighHalf n then unescapeFrom? (some n) rest
      else if isLowHalf n then none
      else (unescapeFrom? none rest).map (codePointBytes n ++ ·)
  | 0x5c :: b :: rest =>
    if half.isSome then none
    else match shortEscape? b with
      | none => none
      | some e => (unescapeFrom? none rest).map (e :: ·)
  | b :: rest => if half.isSome then none else (unescapeFrom? none rest).map (b :: ·)

/-- The bytes that the body of a string stands for. -/
def unescape? (body : Bytes) : Option Bytes := unescapeFrom? none body

/-- A text as a JSON string. -/
def ofString (s : String) : Json := .string (escape (Bytes.ofString s))

/-- The text that the body of a string stands for. -/
def bodyText? (body : Bytes) : Option String := (unescape? body).bind Bytes.toString?

/-- The text of a JSON string. -/
def string? : Json → Option String
  | string body => bodyText? body
  | _ => none

end KernelFusion.Json

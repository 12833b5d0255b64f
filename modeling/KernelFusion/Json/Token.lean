import KernelFusion.Data.Bytes

/-!
# Lexemes of JSON

A JSON text is cut into tokens by a machine that reads one byte at a time. Numbers and strings keep
their raw text: what a string or a number means is decided where it is used, and a text that nobody
uses only has to have the right form. A string body may be any bytes without quotes, control bytes
and unknown escapes.
-/

namespace KernelFusion.Json

/-- A token of a JSON text. -/
inductive Token where
  /-- An opening bracket. -/
  | openArray
  /-- A closing bracket. -/
  | closeArray
  /-- An opening brace. -/
  | openObject
  /-- A closing brace. -/
  | closeObject
  /-- A comma. -/
  | comma
  /-- A colon. -/
  | colon
  /-- The word for no value. -/
  | null
  /-- The word for a truth value. -/
  | bool (value : Bool)
  /-- A number, as it is written. -/
  | number (lexeme : Bytes)
  /-- A string, as it is written between the quotes. -/
  | string (body : Bytes)
deriving DecidableEq

/-- Whether a byte is a decimal digit. -/
def isDigit (b : UInt8) : Bool := 0x30 ≤ b && b ≤ 0x39

/-- Whether a byte is a hexadecimal digit. -/
def isHexDigit (b : UInt8) : Bool :=
  isDigit b || (0x41 ≤ b && b ≤ 0x46) || (0x61 ≤ b && b ≤ 0x66)

/-- Whether a byte can stand in a number: digits, signs, the point and the exponent letters. -/
def isNumberByte (b : UInt8) : Bool :=
  isDigit b || b == 0x2b || b == 0x2d || b == 0x2e || b == 0x45 || b == 0x65

/-- Whether a byte is a small letter. -/
def isLetter (b : UInt8) : Bool := 0x61 ≤ b && b ≤ 0x7a

/-- Whether a byte may stand between tokens. -/
def isSpace (b : UInt8) : Bool := b == 0x20 || b == 0x0a || b == 0x0d || b == 0x09

/-- Whether a byte after a backslash makes a short escape. -/
def isShortEscape (b : UInt8) : Bool :=
  b == 0x22 || b == 0x5c || b == 0x2f || b == 0x62 || b == 0x66 || b == 0x6e || b == 0x72 ||
    b == 0x74

/-- The parts of a number: sign, whole digits, fraction digits and exponent. -/
structure NumberParts where
  /-- Whether there is a minus sign. -/
  negative : Bool
  /-- The digits before the point. -/
  whole : Bytes
  /-- The digits behind the point, if there is one. -/
  fraction : Option Bytes
  /-- The sign and the digits of the exponent, if there is one. -/
  exponent : Option (Bool × Bytes)
deriving DecidableEq

/-- The exponent of a number and what it starts with. -/
def exponentPart? : Bytes → Option (Option (Bool × Bytes))
  | [] => some none
  | mark :: rest =>
    if mark == 0x65 || mark == 0x45 then
      let (negative, digits) := match rest with
        | 0x2d :: digits => (true, digits)
        | 0x2b :: digits => (false, digits)
        | digits => (false, digits)
      if !digits.isEmpty && digits.all isDigit then some (some (negative, digits)) else none
    else none

/-- Take a number apart. The whole part has no superfluous zeros, and each part that is there has at
least one digit. -/
def numberParts? (lexeme : Bytes) : Option NumberParts :=
  let (negative, unsigned) := match lexeme with
    | 0x2d :: rest => (true, rest)
    | rest => (false, rest)
  let whole := unsigned.takeWhile isDigit
  let rest := unsigned.dropWhile isDigit
  if whole.isEmpty || (whole.head? == some 0x30 && whole.length != 1) then none
  else match rest with
    | 0x2e :: rest =>
      let fraction := rest.takeWhile isDigit
      if fraction.isEmpty then none
      else (exponentPart? (rest.dropWhile isDigit)).map (⟨negative, whole, some fraction, ·⟩)
    | rest => (exponentPart? rest).map (⟨negative, whole, none, ·⟩)

/-- The token of a word. -/
def wordToken? (word : Bytes) : Option Token :=
  if word == Bytes.ofAscii ['n', 'u', 'l', 'l'] then some .null
  else if word == Bytes.ofAscii ['t', 'r', 'u', 'e'] then some (.bool true)
  else if word == Bytes.ofAscii ['f', 'a', 'l', 's', 'e'] then some (.bool false)
  else none

/-- The token of a number. -/
def numberToken? (lexeme : Bytes) : Option Token :=
  if (numberParts? lexeme).isSome then some (.number lexeme) else none

/-- The token of a single byte. -/
def markToken? (b : UInt8) : Option Token :=
  if b == 0x5b then some .openArray
  else if b == 0x5d then some .closeArray
  else if b == 0x7b then some .openObject
  else if b == 0x7d then some .closeObject
  else if b == 0x2c then some .comma
  else if b == 0x3a then some .colon
  else none

/-- What the machine is in the middle of. The bytes seen are kept last byte first. -/
inductive Lexing where
  /-- Between two tokens. -/
  | between
  /-- In a word. -/
  | word (seen : Bytes)
  /-- In a number. -/
  | number (seen : Bytes)
  /-- In a string. -/
  | text (seen : Bytes)
  /-- In a string, behind a backslash. -/
  | escape (seen : Bytes)
  /-- In a string, in an escape that lacks some hexadecimal digits. -/
  | hex (seen : Bytes) (missing : Nat)
deriving DecidableEq

/-- Read a byte between two tokens. -/
def startToken? (b : UInt8) : Option (List Token × Lexing) :=
  if isSpace b then some ([], .between)
  else if b == 0x22 then some ([], .text [])
  else if isLetter b then some ([], .word [b])
  else if isNumberByte b then some ([], .number [b])
  else (markToken? b).map (fun t => ([t], .between))

/-- Close a token and read a byte after it. -/
def closeToken? (token : Option Token) (b : UInt8) : Option (List Token × Lexing) :=
  match token, startToken? b with
  | some t, some (ts, next) => some (t :: ts, next)
  | _, _ => none

/-- Read one byte. -/
def lexByte? (state : Lexing) (b : UInt8) : Option (List Token × Lexing) :=
  match state with
  | .between => startToken? b
  | .word seen =>
    if isLetter b then some ([], .word (b :: seen)) else closeToken? (wordToken? seen.reverse) b
  | .number seen =>
    if isNumberByte b then some ([], .number (b :: seen))
    else closeToken? (numberToken? seen.reverse) b
  | .text seen =>
    if b == 0x22 then some ([.string seen.reverse], .between)
    else if b == 0x5c then some ([], .escape (b :: seen))
    else if b < 0x20 then none
    else some ([], .text (b :: seen))
  | .escape seen =>
    if b == 0x75 then some ([], .hex (b :: seen) 4)
    else if isShortEscape b then some ([], .text (b :: seen))
    else none
  | .hex seen missing =>
    if isHexDigit b then
      some ([], if missing ≤ 1 then .text (b :: seen) else .hex (b :: seen) (missing - 1))
    else none

/-- The tokens that the end of the text closes. -/
def lexEnd? : Lexing → Option (List Token)
  | .between => some []
  | .word seen => (wordToken? seen.reverse).map ([·])
  | .number seen => (numberToken? seen.reverse).map ([·])
  | .text _ | .escape _ | .hex _ _ => none

/-- The tokens of a text, from a state of the machine on. -/
def lex? (state : Lexing) : Bytes → Option (List Token)
  | [] => lexEnd? state
  | b :: rest =>
    match lexByte? state b with
    | none => none
    | some (ts, next) => (lex? next rest).map (ts ++ ·)

/-- The tokens of a text, if all of it has the form of tokens. -/
def tokens? (text : Bytes) : Option (List Token) := lex? .between text

end KernelFusion.Json

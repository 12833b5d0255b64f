/-!
# Strings and keys of TOML

Strings are basic, with escapes, or literal, and both may run over several lines. In a string of
several lines a first line break is dropped, every line break is read as a line feed, and in a basic
one a backslash at the end of a line skips to the next character that is not blank.
-/

namespace KernelFusion.Toml

/-- A reader takes characters off the front. -/
abbrev Reading (α : Type) := Option (α × List Char)

/-- Whether a character may stand within a line: all but the control characters, with the tab. -/
def isLineChar (c : Char) : Bool := c = '\t' || (0x20 ≤ c.toNat && c.toNat ≠ 0x7f)

/-- Whether a character is a blank within a line. -/
def isBlank (c : Char) : Bool := c = ' ' || c = '\t'

/-- Skip the blanks within a line. -/
def skipBlanks (cs : List Char) : List Char := cs.dropWhile isBlank

/-- What follows a line break, if there is one. -/
def lineBreak? : List Char → Option (List Char)
  | '\n' :: rest => some rest
  | '\r' :: '\n' :: rest => some rest
  | _ => none

/-- The value of a digit in a base up to sixteen. -/
def digitValue? (base : Nat) (c : Char) : Option Nat :=
  let value :=
    if '0' ≤ c ∧ c ≤ '9' then c.toNat - '0'.toNat
    else if 'a' ≤ c ∧ c ≤ 'f' then c.toNat - 'a'.toNat + 10
    else if 'A' ≤ c ∧ c ≤ 'F' then c.toNat - 'A'.toNat + 10
    else base
  if value < base then some value else none

/-- The number of a list of digits. -/
def number? (base : Nat) (digits : List Char) : Option Nat :=
  digits.foldl (fun n c => n.bind (fun n => (digitValue? base c).map (n * base + ·))) (some 0)

/-- The character with a code point in hexadecimal digits. -/
def codePoint? (digits : List Char) : Option Char :=
  match number? 16 digits with
  | some n => if n.isValidChar then some (Char.ofNat n) else none
  | none => none

/-- The character of a short escape. -/
def shortEscape? : Char → Option Char
  | 'b' => some '\x08'
  | 't' => some '\t'
  | 'n' => some '\n'
  | 'f' => some '\x0c'
  | 'r' => some '\r'
  | '"' => some '"'
  | '\\' => some '\\'
  | _ => none

/-- The character of an escape behind its backslash. -/
def escape? : List Char → Reading Char
  | 'u' :: a :: b :: c :: d :: rest => (codePoint? [a, b, c, d]).map (·, rest)
  | 'U' :: a :: b :: c :: d :: e :: f :: g :: h :: rest =>
    (codePoint? [a, b, c, d, e, f, g, h]).map (·, rest)
  | c :: rest => (shortEscape? c).map (·, rest)
  | [] => none

/-- A reader behind a first character that was read. -/
def Reading.cons (c : Char) (r : Reading (List Char)) : Reading (List Char) :=
  r.map (fun r => (c :: r.1, r.2))

/-- A basic string behind its opening quote. Every step takes a character, so the number of
characters is fuel enough. -/
def basicString : (fuel : Nat) → List Char → Reading (List Char)
  | _, '"' :: rest => some ([], rest)
  | fuel + 1, '\\' :: rest =>
    match escape? rest with
    | some (c, rest) => (basicString fuel rest).cons c
    | none => none
  | fuel + 1, c :: rest => if isLineChar c then (basicString fuel rest).cons c else none
  | _, _ => none

/-- A literal string behind its opening quote. -/
def literalString : List Char → Reading (List Char)
  | '\'' :: rest => some ([], rest)
  | c :: rest => if isLineChar c then (literalString rest).cons c else none
  | [] => none

/-- Skip blanks and line breaks. -/
def skipLines : List Char → List Char
  | ' ' :: rest => skipLines rest
  | '\t' :: rest => skipLines rest
  | '\n' :: rest => skipLines rest
  | '\r' :: '\n' :: rest => skipLines rest
  | cs => cs

/-- A string of several lines, basic or literal, behind its opening quotes. It ends at three quotes;
up to two more of them before the end belong to the string. -/
def longString (basic : Bool) : (fuel : Nat) → List Char → Reading (List Char)
  | 0, _ => none
  | fuel + 1, cs =>
    let quote : Char := if basic then '"' else '\''
    match cs with
    | [] => none
    | c :: rest =>
      if c = quote then
        let quotes := (cs.takeWhile (· = quote)).length
        if quotes < 3 then (longString basic fuel rest).cons c
        else
          let inside := min 2 (quotes - 3)
          some (List.replicate inside quote, cs.drop (inside + 3))
      else if c = '\\' ∧ basic then
        match lineBreak? (skipBlanks rest) with
        | some after => longString basic fuel (skipLines after)
        | none =>
          match escape? rest with
          | some (c, rest) => (longString basic fuel rest).cons c
          | none => none
      else
        match lineBreak? cs with
        | some after => (longString basic fuel after).cons '\n'
        | none => if isLineChar c then (longString basic fuel rest).cons c else none

/-- A string of one line. -/
def shortString? (cs : List Char) : Reading String :=
  let body := match cs with
    | '"' :: rest => basicString rest.length rest
    | '\'' :: rest => literalString rest
    | _ => none
  body.map (fun r => (String.ofList r.1, r.2))

/-- A string. -/
def string? (cs : List Char) : Reading String :=
  let long (basic : Bool) (rest : List Char) : Reading String :=
    let body := (lineBreak? rest).getD rest
    (longString basic (body.length + 1) body).map (fun r => (String.ofList r.1, r.2))
  match cs with
  | '"' :: '"' :: '"' :: rest => long true rest
  | '\'' :: '\'' :: '\'' :: rest => long false rest
  | _ => shortString? cs

/-- Whether a character may stand in a bare key. -/
def isBareChar (c : Char) : Bool := c.isAlphanum || c = '-' || c = '_'

/-- One part of a key. -/
def simpleKey? (cs : List Char) : Reading String :=
  match cs with
  | '"' :: _ | '\'' :: _ => shortString? cs
  | _ =>
    let bare := cs.takeWhile isBareChar
    if bare.isEmpty then none else some (String.ofList bare, cs.dropWhile isBareChar)

/-- The parts of a key, with points between them and blanks around them. -/
def keyParts : (fuel : Nat) → List Char → Reading (List String)
  | 0, _ => none
  | fuel + 1, cs =>
    match simpleKey? (skipBlanks cs) with
    | none => none
    | some (part, rest) =>
      match skipBlanks rest with
      | '.' :: rest => (keyParts fuel rest).map (fun r => (part :: r.1, r.2))
      | rest => some ([part], rest)

/-- The number of levels that nesting and keys stay below. -/
def nestingLimit : Nat := 80

/-- A key. -/
def key? (cs : List Char) : Reading (List String) :=
  (keyParts (cs.length + 1) cs).filter (fun r => r.1.length < nestingLimit)

end KernelFusion.Toml

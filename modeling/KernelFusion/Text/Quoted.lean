import KernelFusion.Text.Printable

/-!
# Quoted text

The form in which the records of a table are listed: between double quotes, with a backslash before
quotes and backslashes, short escapes for the common control characters, and the code point in
hexadecimal for every other character that is not printable.
-/

namespace KernelFusion.Text

/-- The code point of a character in an escape. -/
def codePointEscape (c : Char) : List Char :=
  '\\' :: 'u' :: '\x7b' :: (Nat.toDigits 16 c.toNat ++ ['\x7d'])

/-- The written form of one character of a quoted text. -/
def quotedChar (c : Char) : List Char :=
  if c = '\x00' then ['\\', '0']
  else if c = '\t' then ['\\', 't']
  else if c = '\n' then ['\\', 'n']
  else if c = '\r' then ['\\', 'r']
  else if c = '"' ∨ c = '\\' then ['\\', c]
  else if isPrintable c then [c]
  else codePointEscape c

/-- A text between quotes. -/
def quoted (s : String) : String :=
  String.ofList ('"' :: (s.toList.flatMap quotedChar ++ ['"']))

end KernelFusion.Text

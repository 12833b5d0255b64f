/-!
# Blank characters

The blank characters are those with the Unicode property White_Space. `trim` takes them off both
ends of a text and leaves those inside.
-/

namespace KernelFusion.Text

/-- The code points with the property White_Space. -/
def blankCodePoints : List Nat := [
  0x9, 0xa, 0xb, 0xc, 0xd, 0x20, 0x85, 0xa0, 0x1680, 0x2000, 0x2001, 0x2002, 0x2003, 0x2004,
  0x2005, 0x2006, 0x2007, 0x2008, 0x2009, 0x200a, 0x2028, 0x2029, 0x202f, 0x205f, 0x3000]

/-- Whether a character is blank. -/
def isBlank (c : Char) : Bool := blankCodePoints.contains c.toNat

/-- The characters without the blank ones at both ends. -/
def trim (cs : List Char) : List Char :=
  ((cs.dropWhile isBlank).reverse.dropWhile isBlank).reverse

/-- No blank characters are dropped from a text that does not start with one. -/
theorem dropWhile_eq_self {cs : List Char} (hfirst : ∀ c ∈ cs.head?, ¬isBlank c) :
    cs.dropWhile isBlank = cs := by
  cases cs with
  | nil => rfl
  | cons c rest => simp [hfirst c rfl]

end KernelFusion.Text

import KernelFusion.Text.Blank

/-!
# Kernel signatures

The signature of a foreach kernel is a mask of flags that say which arguments the kernel takes and
whether it has a result. Tables hold it as a decimal token. Flags without a name are kept.
-/

namespace KernelFusion

/-- The parameter shape of a foreach kernel, as a mask of flags. -/
structure KernelSignature where
  /-- The mask. -/
  bits : UInt32
deriving DecidableEq, Inhabited

namespace KernelSignature

/-- The kernel reads an input element. -/
def input : KernelSignature := ⟨0x01⟩

/-- The kernel writes an output element. -/
def output : KernelSignature := ⟨0x02⟩

/-- The kernel takes user data. -/
def userData : KernelSignature := ⟨0x04⟩

/-- The kernel takes the x coordinate. -/
def x : KernelSignature := ⟨0x08⟩

/-- The kernel takes the y coordinate. -/
def y : KernelSignature := ⟨0x10⟩

/-- The entry point has the kernel style of parameters. -/
def kernel : KernelSignature := ⟨0x20⟩

/-- The kernel takes the z coordinate. -/
def z : KernelSignature := ⟨0x40⟩

/-- The kernel takes a context. -/
def context : KernelSignature := ⟨0x80⟩

/-- No flags. -/
def empty : KernelSignature := ⟨0⟩

/-- The flags of two signatures together. -/
def union (s t : KernelSignature) : KernelSignature := ⟨s.bits ||| t.bits⟩

/-- The flags of the first signature that the second does not have. -/
def without (s t : KernelSignature) : KernelSignature := ⟨s.bits &&& ~~~t.bits⟩

/-- Whether a signature has all flags of another. -/
def has (s t : KernelSignature) : Bool := s.bits &&& t.bits == t.bits

/-- Whether a signature has no flags. -/
def isEmpty (s : KernelSignature) : Bool := s.bits == 0

/-- The flags that a kernel of a fusion may have. -/
def fusible : KernelSignature := ⟨0x7b⟩

/-- The flags that a kernel of a fusion may not have. -/
def unexpected (s : KernelSignature) : KernelSignature := s.without fusible

/-- The coordinates a kernel takes, in the order of its parameters. -/
def coordinates (s : KernelSignature) : List KernelSignature := [x, y, z].filter s.has

/-- The text of a signature in messages. -/
def text (s : KernelSignature) : String :=
  "0x" ++ String.ofList (Nat.toDigits 16 s.bits.toNat)

/-- The decimal token of a signature. -/
def token (s : KernelSignature) : String := String.ofList (Nat.toDigits 10 s.bits.toNat)

/-- The number of a list of decimal digits; other characters have no number. -/
def decimal? (digits : List Char) : Option Nat :=
  if digits.all (fun c => '0' ≤ c && c ≤ '9') && !digits.isEmpty then
    some (digits.foldl (fun n c => n * 10 + (c.toNat - '0'.toNat)) 0)
  else none

/-- Digits behind at most one plus sign. -/
def unsigned? : List Char → Option Nat
  | '+' :: digits => decimal? digits
  | digits => decimal? digits

/-- The signature of a token: a decimal number of 32 bits, with blanks around it and a plus sign
before it if need be. -/
def ofToken? (token : String) : Option KernelSignature :=
  match unsigned? (Text.trim token.toList) with
  | some n => if n < UInt32.size then some ⟨n.toUInt32⟩ else none
  | none => none

end KernelSignature

end KernelFusion

import KernelFusion.Decimal.Layout
import KernelFusion.IR.Ty

/-!
# Constants

The values that an instruction can load directly. Floating-point constants are kept as their bit
patterns, so equality of constants is equality of representations; `alike` compares them as numbers
instead, where no number is like itself and the two zeros are alike.
-/

namespace KernelFusion

/-- A constant value. -/
inductive Constant where
  /-- A truth value. -/
  | bool (value : Bool)
  /-- A signed 32-bit integer. -/
  | i32 (value : Int32)
  /-- A signed 64-bit integer. -/
  | i64 (value : Int64)
  /-- An unsigned 32-bit integer. -/
  | u32 (value : UInt32)
  /-- An unsigned 64-bit integer. -/
  | u64 (value : UInt64)
  /-- A 32-bit floating-point number, as its bits. -/
  | f32 (bits : UInt32)
  /-- A 64-bit floating-point number, as its bits. -/
  | f64 (bits : UInt64)
  /-- The null pointer to a type. -/
  | null (pointee : Ty)
deriving DecidableEq

/-- Listings write numbers from a ten thousandth up to ten to the sixteenth plainly. -/
def FloatLayout.listing : FloatLayout := ⟨-4, 15, [], .up⟩

namespace Constant

/-- The type of a constant. -/
def ty : Constant → Ty
  | bool _ => .bool
  | i32 _ => .i32
  | i64 _ => .i64
  | u32 _ => .u32
  | u64 _ => .u64
  | f32 _ => .f32
  | f64 _ => .f64
  | null pointee => .ptr pointee

/-- The listing of a floating-point number. -/
def floatText (f : BinaryFormat) (pattern : Nat) : String :=
  match f.classify pattern with
  | .notANumber => "NaN"
  | .infinite false => "inf"
  | .infinite true => "-inf"
  | .finite negative magnitude =>
    String.ofList (FloatLayout.listing.finite f negative magnitude)

/-- The listing of a constant: its value and, but for truth values and null, its type. -/
def text : Constant → String
  | bool true => "true"
  | bool false => "false"
  | i32 v => v.toInt.repr ++ "i32"
  | i64 v => v.toInt.repr ++ "i64"
  | u32 v => v.toNat.repr ++ "u32"
  | u64 v => v.toNat.repr ++ "u64"
  | f32 bits => floatText .single bits.toNat ++ "f32"
  | f64 bits => floatText .double bits.toNat ++ "f64"
  | null _ => "null"

/-- Whether two floating-point patterns are equal as numbers. -/
def sameNumber (f : BinaryFormat) (p q : Nat) : Bool :=
  match f.classify p, f.classify q with
  | .notANumber, _ => false
  | _, .notANumber => false
  | .finite _ 0, .finite _ 0 => true
  | a, b => a == b

/-- Whether two constants have equal values. -/
def alike : Constant → Constant → Bool
  | f32 a, f32 b => sameNumber .single a.toNat b.toNat
  | f64 a, f64 b => sameNumber .double a.toNat b.toNat
  | a, b => a == b

end Constant

end KernelFusion

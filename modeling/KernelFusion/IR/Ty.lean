/-!
# Types of values

The scalar types of kernels, pointers to a type, and short vectors of a type.
-/

namespace KernelFusion

/-- The type of a register, a parameter or a result. -/
inductive Ty where
  /-- No value. -/
  | void
  /-- A truth value. -/
  | bool
  /-- Signed 8-bit integers. -/
  | i8
  /-- Signed 16-bit integers. -/
  | i16
  /-- Signed 32-bit integers. -/
  | i32
  /-- Signed 64-bit integers. -/
  | i64
  /-- Unsigned 8-bit integers. -/
  | u8
  /-- Unsigned 16-bit integers. -/
  | u16
  /-- Unsigned 32-bit integers. -/
  | u32
  /-- Unsigned 64-bit integers. -/
  | u64
  /-- 32-bit floating-point numbers. -/
  | f32
  /-- 64-bit floating-point numbers. -/
  | f64
  /-- Pointers to values of a type. -/
  | ptr (pointee : Ty)
  /-- Vectors of `count` elements of a type. -/
  | vector (element : Ty) (count : UInt64)
deriving DecidableEq, Inhabited

namespace Ty

/-- The size of a value in bytes; pointers take eight. -/
def size : Ty → Nat
  | void => 0
  | bool | i8 | u8 => 1
  | i16 | u16 => 2
  | i32 | u32 | f32 => 4
  | i64 | u64 | f64 => 8
  | ptr _ => 8
  | vector element count => element.size * count.toNat

/-- Whether the type has no values. -/
def isVoid : Ty → Bool
  | void => true
  | _ => false

/-- Whether the type is one of the signed or unsigned integer types. -/
def isInteger : Ty → Bool
  | i8 | i16 | i32 | i64 | u8 | u16 | u32 | u64 => true
  | _ => false

/-- Whether the type is one of the floating-point types. -/
def isFloat : Ty → Bool
  | f32 | f64 => true
  | _ => false

/-- Whether the type is a pointer type. -/
def isPointer : Ty → Bool
  | ptr _ => true
  | _ => false

/-- The text of a type in listings and messages. -/
def text : Ty → String
  | void => "void"
  | bool => "bool"
  | i8 => "i8"
  | i16 => "i16"
  | i32 => "i32"
  | i64 => "i64"
  | u8 => "u8"
  | u16 => "u16"
  | u32 => "u32"
  | u64 => "u64"
  | f32 => "f32"
  | f64 => "f64"
  | ptr pointee => "ptr<" ++ pointee.text ++ ">"
  | vector element count => "<" ++ count.toNat.repr ++ " x " ++ element.text ++ ">"

end Ty

end KernelFusion

import KernelFusion.IR.Function

/-!
# Words of stored enumerations

Choices without data are stored by a word in text bundles and by their position in binary ones. Both
are given here, by the list of all values in order and the word of each.
-/

namespace KernelFusion

/-- A choice without data: its values in stored order, and the word of each. -/
class Worded (α : Type) where
  /-- All values, in the order of their stored positions. -/
  all : List α
  /-- The word of a value. -/
  word : α → String

/-- The value with a word. -/
def Worded.ofWord? {α : Type} [Worded α] (w : String) : Option α :=
  (all : List α).find? (fun a => word a == w)

/-- The stored position of a value. -/
def Worded.position {α : Type} [Worded α] [BEq α] (a : α) : Nat := (all : List α).idxOf a

/-- The value at a stored position. -/
def Worded.atPosition? {α : Type} [Worded α] (n : Nat) : Option α := (all : List α)[n]?

instance : Worded BinaryOp where
  all := [.add, .sub, .mul, .div, .rem, .and, .or, .xor, .shl, .shr, .fadd, .fsub, .fmul, .fdiv]
  word
    | .add => "Add"
    | .sub => "Sub"
    | .mul => "Mul"
    | .div => "Div"
    | .rem => "Rem"
    | .and => "And"
    | .or => "Or"
    | .xor => "Xor"
    | .shl => "Shl"
    | .shr => "Shr"
    | .fadd => "FAdd"
    | .fsub => "FSub"
    | .fmul => "FMul"
    | .fdiv => "FDiv"

instance : Worded UnaryOp where
  all := [.neg, .not, .fneg]
  word
    | .neg => "Neg"
    | .not => "Not"
    | .fneg => "FNeg"

instance : Worded CompareOp where
  all := [.eq, .ne, .lt, .le, .gt, .ge]
  word
    | .eq => "Eq"
    | .ne => "Ne"
    | .lt => "Lt"
    | .le => "Le"
    | .gt => "Gt"
    | .ge => "Ge"

instance : Worded Linkage where
  all := [.priv, .pub, .ext]
  word
    | .priv => "Private"
    | .pub => "Public"
    | .ext => "External"

instance : Worded Convention where
  all := [.kernel, .c]
  word
    | .kernel => "Kernel"
    | .c => "C"

/-- The types without parts, in the order of their stored positions. -/
def Ty.scalars : List Ty :=
  [.void, .bool, .i8, .i16, .i32, .i64, .u8, .u16, .u32, .u64, .f32, .f64]

/-- The word of a type; of a type with parts, the word that goes with them. -/
def Ty.word : Ty → String
  | void => "Void"
  | bool => "Bool"
  | i8 => "I8"
  | i16 => "I16"
  | i32 => "I32"
  | i64 => "I64"
  | u8 => "U8"
  | u16 => "U16"
  | u32 => "U32"
  | u64 => "U64"
  | f32 => "F32"
  | f64 => "F64"
  | ptr _ => "Ptr"
  | vector _ _ => "Vector"

/-- The type without parts that has a word. -/
def Ty.scalarOfWord? (w : String) : Option Ty := scalars.find? (fun t => t.word == w)

end KernelFusion

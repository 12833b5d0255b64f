import KernelFusion.IR.Constant

/-!
# Instructions

The straight-line operations of a block. An instruction reads registers, may write one, and may call
another function of its module.
-/

namespace KernelFusion

/-- The number of a register of a function. -/
abbrev Register := UInt32

/-- The number of a function of a module. -/
abbrev FunctionId := UInt32

/-- The register number that stands for none. -/
def Register.invalid : Register := 0xffffffff

/-- Whether a register number stands for a register. -/
def Register.isValid (r : Register) : Bool := r != invalid

/-- The text of a register. -/
def Register.text (r : Register) : String := "$" ++ r.toNat.repr

/-- The text of a function number. -/
def FunctionId.text (id : FunctionId) : String := "fn" ++ id.toNat.repr

/-- Operations on two operands. -/
inductive BinaryOp where
  /-- Integer sum. -/
  | add
  /-- Integer difference. -/
  | sub
  /-- Integer product. -/
  | mul
  /-- Integer quotient. -/
  | div
  /-- Integer remainder. -/
  | rem
  /-- Bitwise conjunction. -/
  | and
  /-- Bitwise disjunction. -/
  | or
  /-- Bitwise exclusive disjunction. -/
  | xor
  /-- Shift to the left. -/
  | shl
  /-- Shift to the right. -/
  | shr
  /-- Floating-point sum. -/
  | fadd
  /-- Floating-point difference. -/
  | fsub
  /-- Floating-point product. -/
  | fmul
  /-- Floating-point quotient. -/
  | fdiv
deriving DecidableEq

/-- Operations on one operand. -/
inductive UnaryOp where
  /-- Integer negation. -/
  | neg
  /-- Bitwise complement. -/
  | not
  /-- Floating-point negation. -/
  | fneg
deriving DecidableEq

/-- Comparisons. -/
inductive CompareOp where
  /-- Equal. -/
  | eq
  /-- Not equal. -/
  | ne
  /-- Less. -/
  | lt
  /-- Less or equal. -/
  | le
  /-- Greater. -/
  | gt
  /-- Greater or equal. -/
  | ge
deriving DecidableEq

/-- The word for a binary operation in listings. -/
def BinaryOp.text : BinaryOp → String
  | add => "add"
  | sub => "sub"
  | mul => "mul"
  | div => "div"
  | rem => "rem"
  | and => "and"
  | or => "or"
  | xor => "xor"
  | shl => "shl"
  | shr => "shr"
  | fadd => "fadd"
  | fsub => "fsub"
  | fmul => "fmul"
  | fdiv => "fdiv"

/-- The word for a unary operation in listings. -/
def UnaryOp.text : UnaryOp → String
  | neg => "neg"
  | not => "not"
  | fneg => "fneg"

/-- The word for a comparison in listings. -/
def CompareOp.text : CompareOp → String
  | eq => "eq"
  | ne => "ne"
  | lt => "lt"
  | le => "le"
  | gt => "gt"
  | ge => "ge"

/-- An instruction of a block. -/
inductive Instruction where
  /-- Set a register to a constant. -/
  | const (dest : Register) (value : Constant)
  /-- Copy a register. -/
  | copy (dest src : Register)
  /-- Read a value of a type from memory. -/
  | load (dest ptr : Register) (ty : Ty)
  /-- Write a register to memory. -/
  | store (ptr value : Register)
  /-- Combine two registers. -/
  | binary (dest : Register) (op : BinaryOp) (left right : Register)
  /-- Change one register's value. -/
  | unary (dest : Register) (op : UnaryOp) (operand : Register)
  /-- Compare two registers. -/
  | compare (dest : Register) (op : CompareOp) (left right : Register)
  /-- Convert a number from one type to another. -/
  | cast (dest src : Register) (source target : Ty)
  /-- Call a function of the module; a call of a void function binds no result. -/
  | call (dest : Option Register) (callee : FunctionId) (args : List Register)
deriving DecidableEq

namespace Instruction

/-- The register an instruction writes. -/
def dest : Instruction → Option Register
  | const dest _ | copy dest _ | load dest _ _ | binary dest _ _ _ | unary dest _ _
  | compare dest _ _ _ | cast dest _ _ _ => some dest
  | call dest _ _ => dest
  | store _ _ => none

/-- The registers an instruction reads, in order. -/
def uses : Instruction → List Register
  | const _ _ => []
  | copy _ src => [src]
  | load _ ptr _ => [ptr]
  | store ptr value => [ptr, value]
  | binary _ _ left right => [left, right]
  | unary _ _ operand => [operand]
  | compare _ _ left right => [left, right]
  | cast _ src _ _ => [src]
  | call _ _ args => args

/-- Whether an instruction does more than write a register. -/
def hasEffects : Instruction → Bool
  | store _ _ | call _ _ _ => true
  | _ => false

/-- The function an instruction calls. -/
def callee : Instruction → Option FunctionId
  | call _ callee _ => some callee
  | _ => none

/-- Whether two instructions are equal, their constants compared by value. -/
def alike : Instruction → Instruction → Bool
  | const d v, const d' v' => d == d' && v.alike v'
  | a, b => a == b

end Instruction

end KernelFusion

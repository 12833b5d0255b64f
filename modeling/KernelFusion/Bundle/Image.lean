import KernelFusion.Bundle.Basic
import KernelFusion.Bundle.Words
import KernelFusion.Data.Bytes

/-!
# Bundles as binary images

An image is the magic bytes, a version, and the modules. Values follow each other without names or
gaps: numbers in groups of seven bits, lowest first; signed numbers folded to unsigned ones;
floating-point numbers in four or eight bytes, lowest first; texts, lists and maps behind their
length; choices by their position; truth values and values that may be missing behind one byte. A
reader takes a value off the front of the bytes and leaves the rest.
-/

namespace KernelFusion.Image

/-- A reader takes bytes off the front. -/
abbrev Reader := StateT Bytes (Except ImageFault)

/-- The bytes of a number in at most `groups` groups of seven bits, lowest first. All groups but the
last have their high bit set. -/
def putVarint : (groups : Nat) → Nat → Bytes
  | 0, _ => []
  | groups + 1, n =>
    if n < 128 then [n.toUInt8] else (n % 128 + 128).toUInt8 :: putVarint groups (n / 128)

/-- Read a number of at most so many groups, the last of which is bounded. -/
def varint (bound : Nat) : (groups : Nat) → Bytes → Except ImageFault (Nat × Bytes)
  | 0, _ => .error .badVarint
  | _ + 1, [] => .error .unexpectedEnd
  | groups + 1, b :: rest =>
    if b < 128 then
      if groups = 0 ∧ bound < b.toNat then .error .badVarint else .ok (b.toNat, rest)
    else (varint bound groups rest).map (fun r => (b.toNat - 128 + 128 * r.1, r.2))

/-- The bytes of a 32-bit number. -/
def putUInt32 (n : UInt32) : Bytes := putVarint 5 n.toNat

/-- Read a 32-bit number. -/
def uint32 : Reader UInt32 := fun bytes => (varint 15 5 bytes).map (fun r => (r.1.toUInt32, r.2))

/-- The bytes of a 64-bit number. -/
def putUInt64 (n : UInt64) : Bytes := putVarint 10 n.toNat

/-- Read a 64-bit number. -/
def uint64 : Reader UInt64 := fun bytes => (varint 1 10 bytes).map (fun r => (r.1.toUInt64, r.2))

/-- The natural number of an integer: even numbers stand for those from zero up, odd ones for the
negative ones. -/
def zigzag (n : Int) : Nat := if 0 ≤ n then 2 * n.toNat else 2 * (-n - 1).toNat + 1

/-- The integer of a folded number. -/
def unzigzag (n : Nat) : Int := if n % 2 = 0 then (n / 2 : Nat) else -(n / 2 : Nat) - 1

/-- The bytes of a signed 32-bit number. -/
def putInt32 (n : Int32) : Bytes := putVarint 5 (zigzag n.toInt)

/-- Read a signed 32-bit number. -/
def int32 : Reader Int32 := do return Int32.ofInt (unzigzag (← uint32).toNat)

/-- The bytes of a signed 64-bit number. -/
def putInt64 (n : Int64) : Bytes := putVarint 10 (zigzag n.toInt)

/-- Read a signed 64-bit number. -/
def int64 : Reader Int64 := do return Int64.ofInt (unzigzag (← uint64).toNat)

/-- The bytes of a number in a fixed width, lowest first. -/
def putFixed : (width : Nat) → Nat → Bytes
  | 0, _ => []
  | width + 1, n => (n % 256).toUInt8 :: putFixed width (n / 256)

/-- Read a number of a fixed width. -/
def fixed : (width : Nat) → Bytes → Except ImageFault (Nat × Bytes)
  | 0, bytes => .ok (0, bytes)
  | _ + 1, [] => .error .unexpectedEnd
  | width + 1, b :: rest => (fixed width rest).map (fun r => (b.toNat + 256 * r.1, r.2))

/-- Read the bits of a 32-bit floating-point number. -/
def float32 : Reader UInt32 := fun bytes => (fixed 4 bytes).map (fun r => (r.1.toUInt32, r.2))

/-- Read the bits of a 64-bit floating-point number. -/
def float64 : Reader UInt64 := fun bytes => (fixed 8 bytes).map (fun r => (r.1.toUInt64, r.2))

/-- Read one byte. -/
def byte : Reader UInt8
  | [] => .error .unexpectedEnd
  | b :: rest => .ok (b, rest)

/-- The byte of a truth value. -/
def putBool (value : Bool) : Bytes := [if value then 1 else 0]

/-- Read a truth value. -/
def bool : Reader Bool := do
  match ← byte with
  | 0 => return false
  | 1 => return true
  | _ => throw .badBool

/-- The bytes of a value that may be missing. -/
def putOption {α : Type} (put : α → Bytes) : Option α → Bytes
  | none => [0]
  | some a => 1 :: put a

/-- Read a value that may be missing. -/
def option {α : Type} (value : Reader α) : Reader (Option α) := do
  match ← byte with
  | 0 => return none
  | 1 => return some (← value)
  | _ => throw .badOption

/-- The bytes of a length. -/
def putLength (n : Nat) : Bytes := putVarint 10 n

/-- Read a length. -/
def length : Reader Nat := do return (← uint64).toNat

/-- Read as many bytes as are asked for. -/
def take (n : Nat) : Reader Bytes := fun bytes =>
  let front := bytes.take n
  if front.length = n then .ok (front, bytes.drop n) else .error .unexpectedEnd

/-- The bytes of a text. -/
def putString (s : String) : Bytes :=
  let bytes := Bytes.ofString s
  putLength bytes.length ++ bytes

/-- Read a text. -/
def string : Reader String := do
  match Bytes.toString? (← take (← length)) with
  | some s => return s
  | none => throw .badText

/-- The bytes of a list. -/
def putList {α : Type} (put : α → Bytes) (items : List α) : Bytes :=
  putLength items.length ++ items.flatMap put

/-- Read so many values. -/
def repeated {α : Type} (item : Reader α) : Nat → Reader (List α)
  | 0 => return []
  | n + 1 => do
    let a ← item
    return a :: (← repeated item n)

/-- Read a list. -/
def list {α : Type} (item : Reader α) : Reader (List α) := do repeated item (← length)

/-- Read a pair. -/
def pair {α β : Type} (first : Reader α) (second : Reader β) : Reader (α × β) := do
  return (← first, ← second)

/-- The bytes of a map keyed by number. -/
def putIdMap {α : Type} (put : α → Bytes) (m : IdMap α) : Bytes :=
  putList (fun e => putUInt32 e.1 ++ put e.2) m.entries

/-- Read a map keyed by number. -/
def idMap {α : Type} (value : Reader α) : Reader (IdMap α) := do
  return IdMap.ofList (← list (pair uint32 value))

/-- The bytes of string tables. -/
def putTables (t : Tables) : Bytes :=
  putList (fun e => putString e.1 ++ putList putString e.2) t.entries

/-- Read string tables. -/
def tables : Reader Tables := do return Tables.ofList (← list (pair string (list string)))

/-- The bytes of a choice without data. -/
def putWord {α : Type} [Worded α] [BEq α] (a : α) : Bytes := putVarint 5 (Worded.position a)

/-- Read a choice without data. -/
def word {α : Type} [Worded α] : Reader α := do
  match Worded.atPosition? (← uint32).toNat with
  | some a => return a
  | none => throw .badVariant

/-- The bytes of a type. -/
def putTy : Ty → Bytes
  | .ptr pointee => 12 :: putTy pointee
  | .vector element count => 13 :: (putTy element ++ putUInt64 count)
  | scalar => [(Ty.scalars.idxOf scalar).toUInt8]

/-- Read a type with at most so many levels. -/
def tyWithin : Nat → Reader Ty
  | 0 => throw .unexpectedEnd
  | levels + 1 => do
    match (← uint32).toNat with
    | 12 => return .ptr (← tyWithin levels)
    | 13 => return .vector (← tyWithin levels) (← uint64)
    | position =>
      match Ty.scalars[position]? with
      | some ty => return ty
      | none => throw .badVariant

/-- Read a type. Every level takes a byte, so the bytes bound the levels. -/
def ty : Reader Ty := fun bytes => tyWithin (bytes.length + 1) bytes

/-- The bytes of a constant. -/
def putConstant : Constant → Bytes
  | .bool value => 0 :: putBool value
  | .i32 value => 1 :: putInt32 value
  | .i64 value => 2 :: putInt64 value
  | .u32 value => 3 :: putUInt32 value
  | .u64 value => 4 :: putUInt64 value
  | .f32 bits => 5 :: putFixed 4 bits.toNat
  | .f64 bits => 6 :: putFixed 8 bits.toNat
  | .null pointee => 7 :: putTy pointee

/-- Read a constant. -/
def constant : Reader Constant := do
  match (← uint32).toNat with
  | 0 => return .bool (← bool)
  | 1 => return .i32 (← int32)
  | 2 => return .i64 (← int64)
  | 3 => return .u32 (← uint32)
  | 4 => return .u64 (← uint64)
  | 5 => return .f32 (← float32)
  | 6 => return .f64 (← float64)
  | 7 => return .null (← ty)
  | _ => throw .badVariant

/-- The bytes of an instruction. -/
def putInstruction : Instruction → Bytes
  | .const dest value => 0 :: (putUInt32 dest ++ putConstant value)
  | .copy dest src => 1 :: (putUInt32 dest ++ putUInt32 src)
  | .load dest ptr ty => 2 :: (putUInt32 dest ++ putUInt32 ptr ++ putTy ty)
  | .store ptr value => 3 :: (putUInt32 ptr ++ putUInt32 value)
  | .binary dest op left right =>
    4 :: (putUInt32 dest ++ putWord op ++ putUInt32 left ++ putUInt32 right)
  | .unary dest op operand => 5 :: (putUInt32 dest ++ putWord op ++ putUInt32 operand)
  | .compare dest op left right =>
    6 :: (putUInt32 dest ++ putWord op ++ putUInt32 left ++ putUInt32 right)
  | .cast dest src source target =>
    7 :: (putUInt32 dest ++ putUInt32 src ++ putTy source ++ putTy target)
  | .call dest callee args =>
    8 :: (putOption putUInt32 dest ++ putUInt32 callee ++ putList putUInt32 args)

/-- Read an instruction. -/
def instruction : Reader Instruction := do
  match (← uint32).toNat with
  | 0 => return .const (← uint32) (← constant)
  | 1 => return .copy (← uint32) (← uint32)
  | 2 => return .load (← uint32) (← uint32) (← ty)
  | 3 => return .store (← uint32) (← uint32)
  | 4 => return .binary (← uint32) (← word) (← uint32) (← uint32)
  | 5 => return .unary (← uint32) (← word) (← uint32)
  | 6 => return .compare (← uint32) (← word) (← uint32) (← uint32)
  | 7 => return .cast (← uint32) (← uint32) (← ty) (← ty)
  | 8 => return .call (← option uint32) (← uint32) (← list uint32)
  | _ => throw .badVariant

/-- The bytes of a terminator. -/
def putTerminator : Terminator → Bytes
  | .branch target => 0 :: putUInt32 target
  | .branchIf condition onTrue onFalse =>
    1 :: (putUInt32 condition ++ putUInt32 onTrue ++ putUInt32 onFalse)
  | .ret value => 2 :: putOption putUInt32 value
  | .unreachable => [3]

/-- Read a terminator. -/
def terminator : Reader Terminator := do
  match (← uint32).toNat with
  | 0 => return .branch (← uint32)
  | 1 => return .branchIf (← uint32) (← uint32) (← uint32)
  | 2 => return .ret (← option uint32)
  | 3 => return .unreachable
  | _ => throw .badVariant

/-- The bytes of a block. -/
def putBlock (b : Block) : Bytes :=
  putUInt32 b.id ++ putOption putString b.label ++ putList putInstruction b.instructions ++
    putTerminator b.terminator ++ putList putUInt32 b.predecessors

/-- Read a block. -/
def block : Reader Block := do
  return {
    id := ← uint32
    label := ← option string
    instructions := ← list instruction
    terminator := ← terminator
    predecessors := ← list uint32 }

/-- The bytes of a flow graph. -/
def putGraph (g : Graph) : Bytes :=
  putIdMap putBlock g.blocks ++ putUInt32 g.entry ++ putUInt32 g.nextBlock

/-- Read a flow graph. -/
def graph : Reader Graph := do
  return { blocks := ← idMap block, entry := ← uint32, nextBlock := ← uint32 }

/-- The bytes of a parameter. -/
def putParameter (p : Parameter) : Bytes := putString p.name ++ putTy p.ty ++ putUInt32 p.reg

/-- Read a parameter. -/
def parameter : Reader Parameter := do
  return { name := ← string, ty := ← ty, reg := ← uint32 }

/-- The bytes of a prototype. -/
def putPrototype (p : Prototype) : Bytes :=
  putList putParameter p.params ++ putTy p.result ++ putWord p.convention

/-- Read a prototype. -/
def prototype : Reader Prototype := do
  return { params := ← list parameter, result := ← ty, convention := ← word }

/-- The bytes of attributes. -/
def putAttributes (a : Attributes) : Bytes := putWord a.linkage ++ putBool a.isPure

/-- Read attributes. -/
def attributes : Reader Attributes := do return { linkage := ← word, isPure := ← bool }

/-- The bytes of a function. -/
def putFunction (f : Function) : Bytes :=
  putUInt32 f.id ++ putString f.name ++ putPrototype f.prototype ++ putGraph f.graph ++
    putIdMap putTy f.registerTypes ++ putAttributes f.attributes ++ putUInt32 f.nextRegister

/-- Read a function. -/
def function : Reader Function := do
  return {
    id := ← uint32
    name := ← string
    prototype := ← prototype
    graph := ← graph
    registerTypes := ← idMap ty
    attributes := ← attributes
    nextRegister := ← uint32 }

/-- The bytes of a module. -/
def putModule (m : Module) : Bytes :=
  putString m.name ++ putIdMap putFunction m.functions ++ putIdMap putFunction m.pending ++
    putTables m.tables ++ putUInt32 m.nextFunction

/-- Read a module. -/
def module : Reader Module := do
  return {
    name := ← string
    functions := ← idMap function
    pending := ← idMap function
    tables := ← tables
    nextFunction := ← uint32 }

/-- The bytes that images start with. -/
def magic : Bytes := Bytes.ofAscii ['K', 'F', 'B', 'N']

/-- The version of images. -/
def version : UInt32 := 1

/-- Read an image: the bytes where the magic bytes should be, the version and the modules. -/
def image : Reader (Bytes × UInt32 × List Module) := do
  return (← take 4, ← uint32, ← list module)

end KernelFusion.Image

namespace KernelFusion.Bundle

/-- The binary image of a bundle. -/
def toImage (b : Bundle) : Bytes :=
  Image.magic ++ Image.putUInt32 Image.version ++ Image.putList Image.putModule b.modules

/-- Read a bundle from an image. Bytes behind the image are ignored; the magic bytes and the version
are looked at only after all of the image has been read. -/
def ofImage (bytes : Bytes) : Except BundleError Bundle :=
  match Image.image bytes with
  | .error fault => .error (.image fault)
  | .ok ((magic, version, modules), _) =>
    if magic ≠ Image.magic then .error .invalidMagic
    else if version ≠ Image.version then .error (.unsupportedVersion version)
    else .ok ⟨modules⟩

end KernelFusion.Bundle

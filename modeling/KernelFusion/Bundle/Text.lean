import KernelFusion.Bundle.Image
import KernelFusion.Json.Pretty
import KernelFusion.Json.Shape

/-!
# Bundles as JSON

Every type of the program representation has a JSON form: `toJson` gives it and a reader takes it
back. Records are objects with a member for each field, choices are a word or an object with the
word as its only key, numbers of functions, blocks and registers are bare integers. A stored bundle
has one of its two forms: bytes that start with the magic bytes are an image, all others a JSON
text.
-/

namespace KernelFusion

open Json (Reader record unitVariant dataVariant fields? variant? isUnit list? optional? idMap?)

/-- A choice without data as its word. -/
def wordJson {α : Type} [Worded α] (a : α) : Json := unitVariant (Worded.word a)

/-- Read a choice without data. -/
def Json.word? {α : Type} [Worded α] : Reader α := fun room j =>
  match variant? room j with
  | some (_, w, data) => if isUnit data then Worded.ofWord? w else none
  | none => none

/-- The JSON form of a number of a register, function or block. -/
def idJson (n : UInt32) : Json := Json.ofNat n.toNat

/-- Read the number of a register, function or block. -/
def Json.id? : Reader UInt32 := fun _ j => j.uint32?

/-- The JSON form of a type. -/
def Ty.toJson : Ty → Json
  | ptr pointee => dataVariant "Ptr" pointee.toJson
  | vector element count =>
    dataVariant "Vector" (record [("element", element.toJson), ("count", Json.ofNat count.toNat)])
  | scalar => unitVariant scalar.word

/-- Read a type. Every level of nesting takes room. -/
def Json.ty? : Reader Ty
  | 0, j =>
    match variant? 0 j with
    | some (_, w, data) => if isUnit data then Ty.scalarOfWord? w else none
    | none => none
  | room + 1, j =>
    match variant? (room + 1) j with
    | some (_, "Ptr", some data) => (ty? room data).map .ptr
    | some (_, "Vector", some data) =>
      match room with
      | 0 => none
      | inner + 1 =>
        match fields? ["element", "count"] (inner + 1) data with
        | some (_, [some element, some count]) =>
          match ty? inner element, count.uint64? with
          | some e, some c => some (.vector e c)
          | _, _ => none
        | _ => none
    | some (_, w, data) => if isUnit data then Ty.scalarOfWord? w else none
    | none => none

/-- The JSON form of a constant. -/
def Constant.toJson : Constant → Json
  | bool value => dataVariant "Bool" (.bool value)
  | i32 value => dataVariant "I32" (Json.ofInt value.toInt)
  | i64 value => dataVariant "I64" (Json.ofInt value.toInt)
  | u32 value => dataVariant "U32" (Json.ofNat value.toNat)
  | u64 value => dataVariant "U64" (Json.ofNat value.toNat)
  | f32 bits => dataVariant "F32" (Json.ofFloat .single Json.singleLayout bits.toNat)
  | f64 bits => dataVariant "F64" (Json.ofFloat .double Json.doubleLayout bits.toNat)
  | null pointee => dataVariant "Null" pointee.toJson

/-- Read a constant. -/
def Json.constant? : Reader Constant := fun room j =>
  match variant? room j with
  | some (room, w, some data) =>
    match w with
    | "Bool" => (Json.bool? data).map .bool
    | "I32" => data.int32?.map .i32
    | "I64" => data.int64?.map .i64
    | "U32" => data.uint32?.map .u32
    | "U64" => data.uint64?.map .u64
    | "F32" => data.float32?.map .f32
    | "F64" => data.float64?.map .f64
    | "Null" => (ty? room data).map .null
    | _ => none
  | _ => none

/-- The JSON form of an instruction. -/
def Instruction.toJson : Instruction → Json
  | const dest value =>
    dataVariant "Const" (record [("dest", idJson dest), ("value", value.toJson)])
  | copy dest src => dataVariant "Copy" (record [("dest", idJson dest), ("src", idJson src)])
  | load dest ptr ty =>
    dataVariant "Load" (record [("dest", idJson dest), ("ptr", idJson ptr), ("ty", ty.toJson)])
  | store ptr value =>
    dataVariant "Store" (record [("ptr", idJson ptr), ("value", idJson value)])
  | binary dest op left right =>
    dataVariant "BinOp" (record [("dest", idJson dest), ("op", wordJson op), ("left", idJson left),
      ("right", idJson right)])
  | unary dest op operand =>
    dataVariant "UnOp" (record [("dest", idJson dest), ("op", wordJson op),
      ("operand", idJson operand)])
  | compare dest op left right =>
    dataVariant "Cmp" (record [("dest", idJson dest), ("op", wordJson op), ("left", idJson left),
      ("right", idJson right)])
  | cast dest src source target =>
    dataVariant "Cast" (record [("dest", idJson dest), ("src", idJson src),
      ("from_ty", source.toJson), ("to_ty", target.toJson)])
  | call dest callee args =>
    dataVariant "CallDirect" (record [("dest", Json.ofOption idJson dest),
      ("func_id", idJson callee), ("args", .array (args.map idJson))])

/-- Read an instruction. -/
def Json.instruction? : Reader Instruction := fun room j => do
  let (room, w, data) ← variant? room j
  let data ← data
  match w with
  | "Const" =>
    let (room, [some dest, some value]) ← fields? ["dest", "value"] room data | none
    some (.const (← id? room dest) (← constant? room value))
  | "Copy" =>
    let (room, [some dest, some src]) ← fields? ["dest", "src"] room data | none
    some (.copy (← id? room dest) (← id? room src))
  | "Load" =>
    let (room, [some dest, some ptr, some ty]) ← fields? ["dest", "ptr", "ty"] room data | none
    some (.load (← id? room dest) (← id? room ptr) (← ty? room ty))
  | "Store" =>
    let (room, [some ptr, some value]) ← fields? ["ptr", "value"] room data | none
    some (.store (← id? room ptr) (← id? room value))
  | "BinOp" =>
    let (room, [some dest, some op, some left, some right]) ←
      fields? ["dest", "op", "left", "right"] room data | none
    some (.binary (← id? room dest) (← word? room op) (← id? room left) (← id? room right))
  | "UnOp" =>
    let (room, [some dest, some op, some operand]) ←
      fields? ["dest", "op", "operand"] room data | none
    some (.unary (← id? room dest) (← word? room op) (← id? room operand))
  | "Cmp" =>
    let (room, [some dest, some op, some left, some right]) ←
      fields? ["dest", "op", "left", "right"] room data | none
    some (.compare (← id? room dest) (← word? room op) (← id? room left) (← id? room right))
  | "Cast" =>
    let (room, [some dest, some src, some source, some target]) ←
      fields? ["dest", "src", "from_ty", "to_ty"] room data | none
    some (.cast (← id? room dest) (← id? room src) (← ty? room source) (← ty? room target))
  | "CallDirect" =>
    let (room, [dest, some callee, some args]) ←
      fields? ["dest", "func_id", "args"] room data | none
    some (.call (← optional? id? room dest) (← id? room callee) (← list? id? room args))
  | _ => none

/-- The JSON form of a terminator. -/
def Terminator.toJson : Terminator → Json
  | branch target => dataVariant "Branch" (record [("target", idJson target)])
  | branchIf condition onTrue onFalse =>
    dataVariant "CondBranch" (record [("condition", idJson condition),
      ("true_target", idJson onTrue), ("false_target", idJson onFalse)])
  | ret value => dataVariant "Return" (record [("value", Json.ofOption idJson value)])
  | unreachable => unitVariant "Unreachable"

/-- Read a terminator. -/
def Json.terminator? : Reader Terminator := fun room j => do
  let (room, w, data) ← variant? room j
  match w, data with
  | "Unreachable", data => if isUnit data then some .unreachable else none
  | "Branch", some data =>
    let (room, [some target]) ← fields? ["target"] room data | none
    some (.branch (← id? room target))
  | "CondBranch", some data =>
    let (room, [some condition, some onTrue, some onFalse]) ←
      fields? ["condition", "true_target", "false_target"] room data | none
    some (.branchIf (← id? room condition) (← id? room onTrue) (← id? room onFalse))
  | "Return", some data =>
    let (room, [value]) ← fields? ["value"] room data | none
    some (.ret (← optional? id? room value))
  | _, _ => none

/-- The JSON form of a block. -/
def Block.toJson (b : Block) : Json :=
  record [("id", idJson b.id), ("label", Json.ofOption Json.ofString b.label),
    ("instructions", .array (b.instructions.map (·.toJson))),
    ("terminator", b.terminator.toJson), ("predecessors", .array (b.predecessors.map idJson))]

/-- Read a block. -/
def Json.block? : Reader Block := fun room j => do
  let (room, [some id, label, some instructions, some terminator, some predecessors]) ←
    fields? ["id", "label", "instructions", "terminator", "predecessors"] room j | none
  some {
    id := ← id? room id
    label := ← optional? (fun _ => Json.string?) room label
    instructions := ← list? instruction? room instructions
    terminator := ← terminator? room terminator
    predecessors := ← list? id? room predecessors }

/-- The JSON form of a flow graph. -/
def Graph.toJson (g : Graph) : Json :=
  record [("blocks", Json.ofIdMap (·.toJson) g.blocks), ("entry_block", idJson g.entry),
    ("next_block_id", idJson g.nextBlock)]

/-- Read a flow graph. -/
def Json.graph? : Reader Graph := fun room j => do
  let (room, [some blocks, some entry, some next]) ←
    fields? ["blocks", "entry_block", "next_block_id"] room j | none
  some { blocks := ← idMap? block? room blocks, entry := ← id? room entry,
         nextBlock := ← id? room next }

/-- The JSON form of a parameter. -/
def Parameter.toJson (p : Parameter) : Json :=
  record [("name", Json.ofString p.name), ("ty", p.ty.toJson), ("reg", idJson p.reg)]

/-- Read a parameter. -/
def Json.parameter? : Reader Parameter := fun room j => do
  let (room, [some name, some ty, some reg]) ← fields? ["name", "ty", "reg"] room j | none
  some { name := ← name.string?, ty := ← ty? room ty, reg := ← id? room reg }

/-- The JSON form of a prototype. -/
def Prototype.toJson (p : Prototype) : Json :=
  record [("parameters", .array (p.params.map (·.toJson))), ("return_type", p.result.toJson),
    ("calling_convention", wordJson p.convention)]

/-- Read a prototype. -/
def Json.prototype? : Reader Prototype := fun room j => do
  let (room, [some params, some result, some convention]) ←
    fields? ["parameters", "return_type", "calling_convention"] room j | none
  some {
    params := ← list? parameter? room params
    result := ← ty? room result
    convention := ← word? room convention }

/-- The JSON form of attributes. -/
def Attributes.toJson (a : Attributes) : Json :=
  record [("linkage", wordJson a.linkage), ("pure", .bool a.isPure)]

/-- Read attributes. -/
def Json.attributes? : Reader Attributes := fun room j => do
  let (room, [some linkage, some isPure]) ← fields? ["linkage", "pure"] room j | none
  some { linkage := ← word? room linkage, isPure := ← Json.bool? isPure }

/-- The JSON form of a function. -/
def Function.toJson (f : Function) : Json :=
  record [("id", idJson f.id), ("name", Json.ofString f.name),
    ("signature", f.prototype.toJson), ("cfg", f.graph.toJson),
    ("register_types", Json.ofIdMap (·.toJson) f.registerTypes),
    ("attributes", f.attributes.toJson), ("next_reg_id", idJson f.nextRegister)]

/-- Read a function. -/
def Json.function? : Reader Function := fun room j => do
  let (room, [some id, some name, some prototype, some graph, some types, some attributes,
      some next]) ←
    fields? ["id", "name", "signature", "cfg", "register_types", "attributes", "next_reg_id"]
      room j | none
  some {
    id := ← id? room id
    name := ← name.string?
    prototype := ← prototype? room prototype
    graph := ← graph? room graph
    registerTypes := ← idMap? ty? room types
    attributes := ← attributes? room attributes
    nextRegister := ← id? room next }

/-- The JSON form of a module. -/
def Module.toJson (m : Module) : Json :=
  record [("name", Json.ofString m.name), ("functions", Json.ofIdMap (·.toJson) m.functions),
    ("lazy_bodies", Json.ofIdMap (·.toJson) m.pending),
    ("named_metadata", Json.ofTables m.tables), ("next_function_id", idJson m.nextFunction)]

/-- Read a module. -/
def Json.module? : Reader Module := fun room j => do
  let (room, [some name, some functions, some pending, some tables, some next]) ←
    fields? ["name", "functions", "lazy_bodies", "named_metadata", "next_function_id"] room j | none
  some {
    name := ← name.string?
    functions := ← idMap? function? room functions
    pending := ← idMap? function? room pending
    tables := ← Json.tables? room tables
    nextFunction := ← id? room next }

namespace Bundle

/-- The JSON form of a bundle. -/
def toJson (b : Bundle) : Json := record [("modules", .array (b.modules.map (·.toJson)))]

/-- The JSON text of a bundle. -/
def toText (b : Bundle) : Bytes := b.toJson.pretty

/-- Read a bundle from its JSON form. -/
def ofJson? (j : Json) : Option Bundle := do
  let (room, [some modules]) ← fields? ["modules"] Json.fullRoom j | none
  (list? Json.module? room modules).map Bundle.mk

/-- Read a bundle from a JSON text. -/
def ofText (text : Bytes) : Except BundleError Bundle :=
  match (Json.parse? text).bind ofJson? with
  | some b => .ok b
  | none => .error .json

/-- The bytes of a bundle in a form. -/
def encode (b : Bundle) : BundleFormat → Bytes
  | .json => b.toText
  | .image => b.toImage

/-- Read a bundle in either form. -/
def decode (bytes : Bytes) : Except BundleError Bundle :=
  if Image.magic.isPrefixOf bytes then ofImage bytes else ofText bytes

end Bundle

end KernelFusion

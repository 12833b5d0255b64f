import KernelFusion.IR.Module
import KernelFusion.Text.Quoted

/-!
# Listings

The text form of functions and modules for readers. Calls show the name of the function they call
where the module knows it.
-/

namespace KernelFusion

/-- Texts with commas between them. -/
def commaSeparated (texts : List String) : String := String.intercalate ", " texts

/-- The listing of an instruction of a module's function. -/
def Instruction.listing (m : Module) : Instruction → String
  | const dest value => Register.text dest ++ " = const " ++ value.text
  | copy dest src => Register.text dest ++ " = copy " ++ Register.text src
  | load dest ptr ty => Register.text dest ++ " = load " ++ ty.text ++ " " ++ Register.text ptr
  | store ptr value => "store " ++ Register.text ptr ++ ", " ++ Register.text value
  | binary dest op left right =>
    Register.text dest ++ " = " ++ op.text ++ " " ++ Register.text left ++ ", " ++
      Register.text right
  | unary dest op operand => Register.text dest ++ " = " ++ op.text ++ " " ++ Register.text operand
  | compare dest op left right =>
    Register.text dest ++ " = cmp " ++ op.text ++ " " ++ Register.text left ++ ", " ++
      Register.text right
  | cast dest src source target =>
    Register.text dest ++ " = cast " ++ source.text ++ " " ++ Register.text src ++ " to " ++
      target.text
  | call dest callee args =>
    let name := match m.function? callee with
      | some f => "@" ++ f.name
      | none => FunctionId.text callee
    let plain := "call " ++ name ++ "(" ++ commaSeparated (args.map Register.text) ++ ")"
    match dest with
    | some r => Register.text r ++ " = " ++ plain
    | none => plain

/-- The listing of a terminator. -/
def Terminator.listing : Terminator → String
  | branch target => "br " ++ BlockId.text target
  | branchIf condition onTrue onFalse =>
    "br_if " ++ Register.text condition ++ ", " ++ BlockId.text onTrue ++ ", " ++
      BlockId.text onFalse
  | ret (some value) => "ret " ++ Register.text value
  | ret none => "ret void"
  | unreachable => "unreachable"

/-- The listing of a block: its label line, its predecessors if any, its instructions. -/
def Block.listing (m : Module) (b : Block) : String :=
  let label := match b.label with
    | some l => " ; " ++ l
    | none => ""
  let preds :=
    if b.predecessors.isEmpty then ""
    else "    ; preds: " ++ commaSeparated (b.predecessors.map BlockId.text) ++ "\n"
  let body := b.instructions.map (fun i => "    " ++ i.listing m ++ "\n")
  "  " ++ BlockId.text b.id ++ ":" ++ label ++ "\n" ++ preds ++ String.join body ++
    "    " ++ b.terminator.listing ++ "\n"

/-- The word for a linkage, with a space behind it if there is one. -/
def Linkage.listing : Linkage → String
  | priv => "private "
  | pub => ""
  | ext => "external "

/-- The listing of a parameter. -/
def Parameter.listing (p : Parameter) : String :=
  Register.text p.reg ++ " %" ++ p.name ++ ": " ++ p.ty.text

/-- The listing of a function: one line for a declaration, else its blocks in braces. -/
def Function.listing (m : Module) (f : Function) : String :=
  let keyword := if f.isDeclaration then "declare " else "define "
  let head := keyword ++ f.attributes.linkage.listing ++ f.result.text ++ " @" ++ f.name ++ "(" ++
    commaSeparated (f.prototype.params.map (·.listing)) ++ ")"
  if f.isDeclaration then head
  else head ++ " \x7b\n" ++ String.join (f.graph.blocks.values.map (·.listing m)) ++ "\x7d"

/-- The listing of a string table. -/
def tableListing (name : String) (records : List String) : String :=
  "!" ++ name ++ " = \x7b" ++ commaSeparated (records.map Text.quoted) ++ "\x7d\n"

/-- The listing of a module: a heading, its functions and its string tables. -/
def Module.listing (m : Module) : String :=
  let functions := m.functions.values.map (fun f =>
    (if m.pending.contains f.id then "; lazy\n" else "") ++ f.listing m ++ "\n")
  let tables := m.tables.entries.map (fun e => tableListing e.1 e.2)
  "; Module: " ++ m.name ++ "\n; Functions: " ++ m.functions.size.repr ++ " (" ++
    m.pending.size.repr ++ " not materialized)\n\n" ++ String.join functions ++ String.join tables

end KernelFusion

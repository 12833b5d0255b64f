import KernelFusion.Bundle.Text
import KernelFusion.Proofs.JsonFloats
import KernelFusion.Proofs.JsonReading
import KernelFusion.Samples

/-!
# Texts of bundles

A bundle is read back from its JSON text exactly if each of its floating-point constants is read
back from its own number. Everything else comes back always, as long as the text is not nested too
deeply: strings of any characters, maps keyed by number, values that are missing, types however
nested, instructions and terminators. Tables keep their order. Infinities and things that are no
numbers are written as no value and are never read back; of the finite numbers of 64 bits some come
back as a neighbour.
-/

namespace KernelFusion

/-- The constant is what is read from its number. -/
def Constant.ReadsBack : Constant → Prop
  | f32 bits => (Json.ofFloat .single Json.singleLayout bits.toNat).float32? = some bits
  | f64 bits => (Json.ofFloat .double Json.doubleLayout bits.toNat).float64? = some bits
  | _ => True

instance : DecidablePred Constant.ReadsBack
  | .f32 _ | .f64 _ => inferInstanceAs (Decidable (_ = _))
  | .bool _ | .i32 _ | .i64 _ | .u32 _ | .u64 _ | .null _ => inferInstanceAs (Decidable True)

/-- Whether a pattern stands for a number that is not an infinity. -/
def BinaryFormat.isFinite (f : BinaryFormat) (pattern : Nat) : Bool :=
  match f.classify pattern with
  | .finite _ _ => true
  | .infinite _ | .notANumber => false

/-- Whether the constant is neither an infinity nor something that is no number. -/
def Constant.isFinite : Constant → Bool
  | f32 bits => BinaryFormat.single.isFinite bits.toNat
  | f64 bits => BinaryFormat.double.isFinite bits.toNat
  | _ => true

/-- What is no finite number is written as no value. -/
theorem Json.ofFloat_eq_null {f : BinaryFormat} {layout : FloatLayout} {pattern : Nat}
    (h : f.isFinite pattern = false) : Json.ofFloat f layout pattern = .null := by
  unfold Json.ofFloat
  cases hclass : f.classify pattern with
  | finite negative magnitude =>
    rw [BinaryFormat.isFinite, hclass] at h
    cases h
  | infinite _ => rfl
  | notANumber => rfl

/-- The constants of an instruction. -/
def Instruction.constants : Instruction → List Constant
  | const _ value => [value]
  | _ => []

/-- The constants of a block. -/
def Block.constants (b : Block) : List Constant := b.instructions.flatMap Instruction.constants

/-- The constants of a flow graph. -/
def Graph.constants (g : Graph) : List Constant := g.blocks.values.flatMap Block.constants

/-- The constants of a function. -/
def Function.constants (f : Function) : List Constant := f.graph.constants

/-- The constants of a module, in its functions and in the bodies that are pending. -/
def Module.constants (m : Module) : List Constant :=
  m.functions.values.flatMap Function.constants ++ m.pending.values.flatMap Function.constants

/-- The constants of a bundle. -/
def Bundle.constants (b : Bundle) : List Constant := b.modules.flatMap Module.constants

namespace Json

section Parts

@[simp] theorem id?_idJson (n : UInt32) (room : Nat) : id? room (idJson n) = some n :=
  uint32?_ofNat n

theorem reads_id (n : UInt32) : Reads id? (idJson n) n True :=
  reads_of_eq (fun _ _ => id?_idJson n _)

theorem reads_ids (ns : List UInt32) : Reads (list? id?) (.array (ns.map idJson)) ns True :=
  Reads.list_true (fun n _ => reads_id n)

theorem optional?_id (n : Option UInt32) (room : Nat) :
    optional? id? room (some (ofOption idJson n)) = some n :=
  optional?_ofOption (fun _ _ => nofun) (fun r _ => id?_idJson r room)

/-- Words that need no escapes, each of them that of one value only. -/
class LawfulWords (α : Type) [Worded α] : Prop where
  /-- No word needs an escape. -/
  plain : ∀ a : α, Plain (Worded.word a)
  /-- The value of a word is the one that it was written for. -/
  ofWord?_word : ∀ a : α, Worded.ofWord? (Worded.word a) = some a

instance : LawfulWords BinaryOp := ⟨by rintro ⟨⟩ <;> decide, by rintro ⟨⟩ <;> rfl⟩

instance : LawfulWords UnaryOp := ⟨by rintro ⟨⟩ <;> decide, by rintro ⟨⟩ <;> rfl⟩

instance : LawfulWords CompareOp := ⟨by rintro ⟨⟩ <;> decide, by rintro ⟨⟩ <;> rfl⟩

instance : LawfulWords Linkage := ⟨by rintro ⟨⟩ <;> decide, by rintro ⟨⟩ <;> rfl⟩

instance : LawfulWords Convention := ⟨by rintro ⟨⟩ <;> decide, by rintro ⟨⟩ <;> rfl⟩

@[simp] theorem word?_wordJson {α : Type} [Worded α] [LawfulWords α] (a : α) (room : Nat) :
    word? room (wordJson a) = some a := by
  rw [word?, wordJson, variant?_unitVariant (LawfulWords.plain a)]
  exact LawfulWords.ofWord?_word a

/-- A type without parts is read anywhere. -/
theorem ty?_word {t : Ty} (hplain : Plain t.word) (hword : Ty.scalarOfWord? t.word = some t)
    (room : Nat) : ty? room (unitVariant t.word) = some t := by
  cases room <;> simp [ty?, variant?_unitVariant hplain, isUnit, hword]

/-- Types are read back, level by level. -/
theorem reads_ty (t : Ty) : Reads ty? t.toJson t True := by
  refine reads_of_eq (fun room hroom => ?_)
  induction t generalizing room with
  | ptr pointee ih =>
    obtain ⟨inner, rfl, hvariant, hdata⟩ := variant?_dataVariant (by decide) hroom
    rw [Ty.toJson, ty?, hvariant]
    exact congrArg (Option.map Ty.ptr) (ih inner hdata)
  | vector element count ih =>
    obtain ⟨outer, rfl, hvariant, hdata⟩ := variant?_dataVariant (by decide) hroom
    obtain ⟨inner, rfl, hfields, hparts⟩ :=
      fields?_record (by decide : FieldNames ["element", "count"]) rfl hdata
    have helement := ih inner (hparts _ List.mem_cons_self)
    rw [Ty.toJson, ty?, hvariant]
    simp only [hfields, List.map_cons, List.map_nil, helement, uint64?_ofNat]
  | _ => exact ty?_word (by decide) rfl room

theorem reads_constant (c : Constant) : Reads constant? c.toJson c c.ReadsBack := by
  intro room hroom
  cases c with
  | bool value | i32 value | i64 value | u32 value | u64 value =>
    obtain ⟨inner, rfl, hvariant, hdata⟩ := variant?_dataVariant (by decide) hroom
    simp [Constant.toJson, constant?, hvariant, Constant.ReadsBack, bool?]
  | f32 bits | f64 bits =>
    obtain ⟨inner, rfl, hvariant, hdata⟩ := variant?_dataVariant (by decide) hroom
    simp [Constant.toJson, constant?, hvariant, Constant.ReadsBack]
  | null pointee =>
    obtain ⟨inner, rfl, hvariant, hdata⟩ := variant?_dataVariant (by decide) hroom
    simp [Constant.toJson, constant?, hvariant, Constant.ReadsBack,
      (reads_ty pointee).eq_some hdata]

/-- An instruction that sets a register to a constant is read as the constant is. -/
theorem instruction?_const {room : Nat} {dest : Register} {value : Constant}
    (hroom : (Instruction.const dest value).toJson.depth ≤ room) :
    ∃ inner, value.toJson.depth ≤ inner ∧
      instruction? room (Instruction.const dest value).toJson =
        (constant? inner value.toJson).bind (fun v => some (.const dest v)) := by
  obtain ⟨outer, inner, hvariant, hfields, hparts⟩ := variant?_record (by decide)
    (by decide : FieldNames ["dest", "value"]) rfl hroom
  simp only [List.forall_mem_cons] at hparts
  obtain ⟨-, hvalue, -⟩ := hparts
  exact ⟨inner, hvalue, bind_of_eq hvariant (bind_of_eq rfl (bind_of_eq hfields
    (bind_of_eq (id?_idJson dest _) rfl)))⟩

theorem reads_instruction (i : Instruction) :
    Reads instruction? i.toJson i (∀ c ∈ i.constants, c.ReadsBack) := by
  intro room hroom
  have register := id?_idJson
  cases i with
  | const dest value =>
    obtain ⟨inner, hvalue, hjson⟩ := instruction?_const hroom
    rw [Instruction.constants, List.forall_mem_singleton, ← reads_constant value inner hvalue,
      hjson]
    exact bind_eq_some_iff (fun h => (Instruction.const.inj h).2)
  | copy dest src =>
    obtain ⟨outer, inner, hvariant, hfields, -⟩ := variant?_record (by decide)
      (by decide : FieldNames ["dest", "src"]) rfl hroom
    refine iff_of_true (bind_of_eq hvariant (bind_of_eq rfl (bind_of_eq hfields ?_))) nofun
    exact bind_of_eq (register dest _) (bind_of_eq (register src _) rfl)
  | load dest ptr ty =>
    obtain ⟨outer, inner, hvariant, hfields, hparts⟩ := variant?_record (by decide)
      (by decide : FieldNames ["dest", "ptr", "ty"]) rfl hroom
    simp only [List.forall_mem_cons] at hparts
    obtain ⟨-, -, hty, -⟩ := hparts
    refine iff_of_true (bind_of_eq hvariant (bind_of_eq rfl (bind_of_eq hfields ?_))) nofun
    exact bind_of_eq (register dest _) (bind_of_eq (register ptr _)
      (bind_of_eq ((reads_ty ty).eq_some hty) rfl))
  | store ptr value =>
    obtain ⟨outer, inner, hvariant, hfields, -⟩ := variant?_record (by decide)
      (by decide : FieldNames ["ptr", "value"]) rfl hroom
    refine iff_of_true (bind_of_eq hvariant (bind_of_eq rfl (bind_of_eq hfields ?_))) nofun
    exact bind_of_eq (register ptr _) (bind_of_eq (register value _) rfl)
  | binary dest op left right =>
    obtain ⟨outer, inner, hvariant, hfields, -⟩ := variant?_record (by decide)
      (by decide : FieldNames ["dest", "op", "left", "right"]) rfl hroom
    refine iff_of_true (bind_of_eq hvariant (bind_of_eq rfl (bind_of_eq hfields ?_))) nofun
    exact bind_of_eq (register dest _) (bind_of_eq (word?_wordJson op _)
      (bind_of_eq (register left _) (bind_of_eq (register right _) rfl)))
  | unary dest op operand =>
    obtain ⟨outer, inner, hvariant, hfields, -⟩ := variant?_record (by decide)
      (by decide : FieldNames ["dest", "op", "operand"]) rfl hroom
    refine iff_of_true (bind_of_eq hvariant (bind_of_eq rfl (bind_of_eq hfields ?_))) nofun
    exact bind_of_eq (register dest _) (bind_of_eq (word?_wordJson op _)
      (bind_of_eq (register operand _) rfl))
  | compare dest op left right =>
    obtain ⟨outer, inner, hvariant, hfields, -⟩ := variant?_record (by decide)
      (by decide : FieldNames ["dest", "op", "left", "right"]) rfl hroom
    refine iff_of_true (bind_of_eq hvariant (bind_of_eq rfl (bind_of_eq hfields ?_))) nofun
    exact bind_of_eq (register dest _) (bind_of_eq (word?_wordJson op _)
      (bind_of_eq (register left _) (bind_of_eq (register right _) rfl)))
  | cast dest src source target =>
    obtain ⟨outer, inner, hvariant, hfields, hparts⟩ := variant?_record (by decide)
      (by decide : FieldNames ["dest", "src", "from_ty", "to_ty"]) rfl hroom
    simp only [List.forall_mem_cons] at hparts
    obtain ⟨-, -, hsource, htarget, -⟩ := hparts
    refine iff_of_true (bind_of_eq hvariant (bind_of_eq rfl (bind_of_eq hfields ?_))) nofun
    exact bind_of_eq (register dest _) (bind_of_eq (register src _)
      (bind_of_eq ((reads_ty source).eq_some hsource)
        (bind_of_eq ((reads_ty target).eq_some htarget) rfl)))
  | call dest callee args =>
    obtain ⟨outer, inner, hvariant, hfields, hparts⟩ := variant?_record (by decide)
      (by decide : FieldNames ["dest", "func_id", "args"]) rfl hroom
    simp only [List.forall_mem_cons] at hparts
    obtain ⟨-, -, hargs, -⟩ := hparts
    refine iff_of_true (bind_of_eq hvariant (bind_of_eq rfl (bind_of_eq hfields ?_))) nofun
    exact bind_of_eq (optional?_id dest _) (bind_of_eq (register callee _)
      (bind_of_eq ((reads_ids args).eq_some hargs) rfl))

theorem reads_terminator (t : Terminator) : Reads terminator? t.toJson t True := by
  refine reads_of_eq (fun room hroom => ?_)
  have number := id?_idJson
  cases t with
  | branch target =>
    obtain ⟨outer, inner, hvariant, hfields, -⟩ := variant?_record (by decide)
      (by decide : FieldNames ["target"]) rfl hroom
    exact bind_of_eq hvariant (bind_of_eq hfields (bind_of_eq (number target _) rfl))
  | branchIf condition onTrue onFalse =>
    obtain ⟨outer, inner, hvariant, hfields, -⟩ := variant?_record (by decide)
      (by decide : FieldNames ["condition", "true_target", "false_target"]) rfl hroom
    exact bind_of_eq hvariant (bind_of_eq hfields (bind_of_eq (number condition _)
      (bind_of_eq (number onTrue _) (bind_of_eq (number onFalse _) rfl))))
  | ret value =>
    obtain ⟨outer, inner, hvariant, hfields, -⟩ := variant?_record (by decide)
      (by decide : FieldNames ["value"]) rfl hroom
    exact bind_of_eq hvariant (bind_of_eq hfields (bind_of_eq (optional?_id value _) rfl))
  | unreachable => exact bind_of_eq (variant?_unitVariant (by decide) room) rfl

/-- A block is read as its instructions are. -/
theorem block?_toJson {room : Nat} {b : Block} (hroom : b.toJson.depth ≤ room) :
    ∃ inner, (array (b.instructions.map (·.toJson))).depth ≤ inner ∧ block? room b.toJson =
      (list? instruction? inner (.array (b.instructions.map (·.toJson)))).bind
        (fun is => some { b with instructions := is }) := by
  obtain ⟨inner, -, hfields, hparts⟩ := fields?_record (by decide :
    FieldNames ["id", "label", "instructions", "terminator", "predecessors"]) rfl hroom
  simp only [List.forall_mem_cons] at hparts
  obtain ⟨-, -, hinstructions, hterminator, hpredecessors, -⟩ := hparts
  have hlabel : optional? (fun _ => string?) inner (some (ofOption ofString b.label)) =
      some b.label :=
    optional?_ofOption (fun _ _ => nofun) (fun s _ => string?_ofString s)
  exact ⟨inner, hinstructions, bind_of_eq hfields (bind_of_eq (id?_idJson b.id _)
    (bind_of_eq hlabel (Option.bind_congr (fun _ _ =>
      bind_of_eq ((reads_terminator b.terminator).eq_some hterminator)
        (bind_of_eq ((reads_ids b.predecessors).eq_some hpredecessors) rfl)))))⟩

theorem reads_block (b : Block) : Reads block? b.toJson b (∀ c ∈ b.constants, c.ReadsBack) := by
  intro room hroom
  obtain ⟨inner, hinstructions, hjson⟩ := block?_toJson hroom
  have hread := Reads.list (fun i _ => reads_instruction i) inner hinstructions
  rw [Block.constants, List.forall_mem_flatMap, ← hread, hjson]
  exact bind_eq_some_iff (fun h => (Block.mk.inj h).2.2.1)

/-- A flow graph is read as its blocks are. -/
theorem graph?_toJson {room : Nat} {g : Graph} (hroom : g.toJson.depth ≤ room) :
    ∃ inner, (ofIdMap (·.toJson) g.blocks).depth ≤ inner ∧ graph? room g.toJson =
      (idMap? block? inner (ofIdMap (·.toJson) g.blocks)).bind
        (fun blocks => some { g with blocks := blocks }) := by
  obtain ⟨inner, -, hfields, hparts⟩ := fields?_record
    (by decide : FieldNames ["blocks", "entry_block", "next_block_id"]) rfl hroom
  simp only [List.forall_mem_cons] at hparts
  obtain ⟨hblocks, -⟩ := hparts
  exact ⟨inner, hblocks, bind_of_eq hfields (Option.bind_congr (fun _ _ =>
    bind_of_eq (id?_idJson g.entry _) (bind_of_eq (id?_idJson g.nextBlock _) rfl)))⟩

theorem reads_graph (g : Graph) : Reads graph? g.toJson g (∀ c ∈ g.constants, c.ReadsBack) := by
  intro room hroom
  obtain ⟨inner, hblocks, hjson⟩ := graph?_toJson hroom
  have hread := Reads.idMap (fun b _ => reads_block b) inner hblocks
  rw [Graph.constants, List.forall_mem_flatMap, ← hread, hjson]
  exact bind_eq_some_iff (fun h => (Graph.mk.inj h).1)

theorem reads_parameter (p : Parameter) : Reads parameter? p.toJson p True := by
  refine reads_of_eq (fun room hroom => ?_)
  obtain ⟨inner, -, hfields, hparts⟩ := fields?_record
    (by decide : FieldNames ["name", "ty", "reg"]) rfl hroom
  simp only [List.forall_mem_cons] at hparts
  obtain ⟨-, hty, -⟩ := hparts
  exact bind_of_eq hfields (bind_of_eq (string?_ofString p.name)
    (bind_of_eq ((reads_ty p.ty).eq_some hty) (bind_of_eq (id?_idJson p.reg _) rfl)))

theorem reads_prototype (p : Prototype) : Reads prototype? p.toJson p True := by
  refine reads_of_eq (fun room hroom => ?_)
  obtain ⟨inner, -, hfields, hparts⟩ := fields?_record
    (by decide : FieldNames ["parameters", "return_type", "calling_convention"]) rfl hroom
  simp only [List.forall_mem_cons] at hparts
  obtain ⟨hparams, hresult, -⟩ := hparts
  have hread := (Reads.list_true (fun q _ => reads_parameter q)).eq_some hparams
  exact bind_of_eq hfields (bind_of_eq hread (bind_of_eq ((reads_ty p.result).eq_some hresult)
    (bind_of_eq (word?_wordJson p.convention _) rfl)))

theorem reads_attributes (a : Attributes) : Reads attributes? a.toJson a True := by
  refine reads_of_eq (fun room hroom => ?_)
  obtain ⟨inner, -, hfields, -⟩ := fields?_record (by decide : FieldNames ["linkage", "pure"]) rfl
    hroom
  exact bind_of_eq hfields (bind_of_eq (word?_wordJson a.linkage _) (bind_of_eq rfl rfl))

/-- A function is read as its body is. -/
theorem function?_toJson {room : Nat} {f : Function} (hroom : f.toJson.depth ≤ room) :
    ∃ inner, f.graph.toJson.depth ≤ inner ∧ function? room f.toJson =
      (graph? inner f.graph.toJson).bind (fun g => some { f with graph := g }) := by
  obtain ⟨inner, -, hfields, hparts⟩ := fields?_record (by decide :
    FieldNames ["id", "name", "signature", "cfg", "register_types", "attributes", "next_reg_id"])
    rfl hroom
  simp only [List.forall_mem_cons] at hparts
  obtain ⟨-, -, hprototype, hgraph, htypes, hattributes, -⟩ := hparts
  have hmap := (Reads.idMap_true (fun t _ => reads_ty t)).eq_some htypes
  exact ⟨inner, hgraph, bind_of_eq hfields (bind_of_eq (id?_idJson f.id _)
    (bind_of_eq (string?_ofString f.name)
      (bind_of_eq ((reads_prototype f.prototype).eq_some hprototype)
        (Option.bind_congr (fun _ _ => bind_of_eq hmap
          (bind_of_eq ((reads_attributes f.attributes).eq_some hattributes)
            (bind_of_eq (id?_idJson f.nextRegister _) rfl)))))))⟩

theorem reads_function (f : Function) :
    Reads function? f.toJson f (∀ c ∈ f.constants, c.ReadsBack) := by
  intro room hroom
  obtain ⟨inner, hgraph, hjson⟩ := function?_toJson hroom
  rw [Function.constants, ← reads_graph f.graph inner hgraph, hjson]
  exact bind_eq_some_iff (fun h => (Function.mk.inj h).2.2.2.1)

/-- A module is read as its functions and pending bodies are. -/
theorem module?_toJson {room : Nat} {m : Module} (hroom : m.toJson.depth ≤ room) :
    ∃ inner, (ofIdMap (·.toJson) m.functions).depth ≤ inner ∧
      (ofIdMap (·.toJson) m.pending).depth ≤ inner ∧ module? room m.toJson =
        (idMap? function? inner (ofIdMap (·.toJson) m.functions)).bind (fun functions =>
          (idMap? function? inner (ofIdMap (·.toJson) m.pending)).bind (fun pending =>
            some { m with functions := functions, pending := pending })) := by
  obtain ⟨inner, -, hfields, hparts⟩ := fields?_record (by decide :
    FieldNames ["name", "functions", "lazy_bodies", "named_metadata", "next_function_id"]) rfl hroom
  simp only [List.forall_mem_cons] at hparts
  obtain ⟨-, hfunctions, hpending, htables, -⟩ := hparts
  exact ⟨inner, hfunctions, hpending, bind_of_eq hfields (bind_of_eq (string?_ofString m.name)
    (Option.bind_congr (fun _ _ => Option.bind_congr (fun _ _ =>
      bind_of_eq ((reads_tables m.tables).eq_some htables)
        (bind_of_eq (id?_idJson m.nextFunction _) rfl)))))⟩

theorem reads_module (m : Module) : Reads module? m.toJson m (∀ c ∈ m.constants, c.ReadsBack) := by
  intro room hroom
  obtain ⟨inner, hfunctions, hpending, hjson⟩ := module?_toJson hroom
  have hread := Reads.idMap (fun f _ => reads_function f) inner hfunctions
  have hlater := Reads.idMap (fun f _ => reads_function f) inner hpending
  rw [Module.constants, List.forall_mem_append, List.forall_mem_flatMap, List.forall_mem_flatMap,
    ← hread, ← hlater, hjson]
  exact bind_bind_eq_some_iff (fun h => ⟨(Module.mk.inj h).2.1, (Module.mk.inj h).2.2.1⟩)

end Parts

section Forms

@[simp] theorem lexical_id (n : UInt32) : (idJson n).Lexical := lexical_ofNat n.toNat

@[simp] theorem lexical_ids (ns : List UInt32) : (array (ns.map idJson)).Lexical :=
  lexical_array (fun n _ => lexical_id n)

@[simp] theorem lexical_ty (t : Ty) : t.toJson.Lexical := by
  induction t with
  | ptr pointee ih => exact lexical_dataVariant (by decide) ih
  | vector element count ih =>
    exact lexical_dataVariant (by decide) (lexical_record rfl (by simp [ih, lexical_ofNat]))
  | _ => exact lexical_unitVariant (by decide)

@[simp] theorem lexical_word {α : Type} [Worded α] [LawfulWords α] (a : α) :
    (wordJson a).Lexical :=
  lexical_unitVariant (LawfulWords.plain a)

theorem lexical_constant (c : Constant) : c.toJson.Lexical := by
  cases c with
  | bool value => exact lexical_dataVariant (by decide) (.bool value)
  | i32 value | i64 value => exact lexical_dataVariant (by decide) (lexical_ofInt _)
  | u32 value | u64 value => exact lexical_dataVariant (by decide) (lexical_ofNat _)
  | f32 bits | f64 bits => exact lexical_dataVariant (by decide) (lexical_ofFloat rfl _ _)
  | null pointee => exact lexical_dataVariant (by decide) (lexical_ty pointee)

theorem lexical_instruction (i : Instruction) : i.toJson.Lexical := by
  have hoption : ∀ r : Option Register, (ofOption idJson r).Lexical :=
    fun r => lexical_ofOption (fun n _ => lexical_id n)
  cases i <;> exact lexical_dataVariant (by decide) (lexical_record rfl
    (by simp [lexical_constant, hoption]))

theorem lexical_terminator (t : Terminator) : t.toJson.Lexical := by
  have hoption : ∀ r : Option Register, (ofOption idJson r).Lexical :=
    fun r => lexical_ofOption (fun n _ => lexical_id n)
  cases t with
  | unreachable => exact lexical_unitVariant (by decide)
  | _ => exact lexical_dataVariant (by decide) (lexical_record rfl (by simp [hoption]))

theorem lexical_block (b : Block) : b.toJson.Lexical := by
  have hlabel : (ofOption ofString b.label).Lexical :=
    lexical_ofOption (fun s _ => lexical_ofString s)
  have hinstructions : (array (b.instructions.map (·.toJson))).Lexical :=
    lexical_array (fun i _ => lexical_instruction i)
  exact lexical_record rfl (by simp [hlabel, hinstructions, lexical_terminator])

theorem lexical_graph (g : Graph) : g.toJson.Lexical := by
  have hblocks : (ofIdMap (·.toJson) g.blocks).Lexical :=
    lexical_ofIdMap (fun b _ => lexical_block b)
  exact lexical_record rfl (by simp [hblocks])

theorem lexical_parameter (p : Parameter) : p.toJson.Lexical :=
  lexical_record rfl (by simp [lexical_ofString])

theorem lexical_prototype (p : Prototype) : p.toJson.Lexical := by
  have hparams : (array (p.params.map (·.toJson))).Lexical :=
    lexical_array (fun q _ => lexical_parameter q)
  exact lexical_record rfl (by simp [hparams])

theorem lexical_attributes (a : Attributes) : a.toJson.Lexical :=
  lexical_record rfl (by simp [Lexical.bool])

theorem lexical_function (f : Function) : f.toJson.Lexical := by
  have htypes : (ofIdMap (·.toJson) f.registerTypes).Lexical :=
    lexical_ofIdMap (fun t _ => lexical_ty t)
  exact lexical_record rfl (by simp [lexical_ofString, lexical_prototype, lexical_graph, htypes,
    lexical_attributes])

theorem lexical_module (m : Module) : m.toJson.Lexical := by
  have hfunctions : ∀ fs : IdMap Function, (ofIdMap (·.toJson) fs).Lexical :=
    fun fs => lexical_ofIdMap (fun f _ => lexical_function f)
  exact lexical_record rfl (by simp [lexical_ofString, hfunctions, lexical_ofTables])

end Forms

end Json

namespace Bundle

variable {b : Bundle}

/-- The text of a bundle is read as the JSON form of the bundle. -/
theorem parse?_toText (b : Bundle) : Json.parse? b.toText = some b.toJson := by
  have hmodules : (Json.array (b.modules.map (·.toJson))).Lexical :=
    Json.lexical_array (fun m _ => Json.lexical_module m)
  exact (Json.lexical_record rfl (List.forall_mem_singleton.mpr hmodules)).parse?_pretty

/-- A bundle is read as its modules are. -/
theorem ofJson?_toJson (h : b.toJson.depth ≤ Json.fullRoom) :
    ∃ inner, (Json.array (b.modules.map (·.toJson))).depth ≤ inner ∧ ofJson? b.toJson =
      (Json.list? Json.module? inner (.array (b.modules.map (·.toJson)))).map Bundle.mk := by
  obtain ⟨inner, -, hfields, hparts⟩ := Json.fields?_record
    (by decide : Json.FieldNames ["modules"]) rfl h
  simp only [List.forall_mem_cons] at hparts
  refine ⟨inner, hparts.1, ?_⟩
  simp only [ofJson?, toJson, hfields, List.map_cons, List.map_nil, Option.bind_eq_bind,
    Option.bind_some]

/-- The JSON form of a bundle is read back exactly if all of its constants are. -/
theorem ofJson?_toJson_iff (h : b.toJson.depth ≤ Json.fullRoom) :
    ofJson? b.toJson = some b ↔ ∀ c ∈ b.constants, c.ReadsBack := by
  obtain ⟨inner, hmodules, hjson⟩ := ofJson?_toJson h
  have hread := Json.Reads.list (fun m _ => Json.reads_module m) inner hmodules
  rw [constants, List.forall_mem_flatMap, ← hread, hjson, Option.map_eq_some_iff]
  exact ⟨fun ⟨ms, hms, hb⟩ => hb ▸ hms, fun hms => ⟨b.modules, hms, rfl⟩⟩

/-- The text of a bundle is read back exactly if all of its constants are. -/
theorem ofText_toText_iff (h : b.toJson.depth ≤ Json.fullRoom) :
    ofText b.toText = .ok b ↔ ∀ c ∈ b.constants, c.ReadsBack := by
  rw [← ofJson?_toJson_iff h, ofText, parse?_toText, Option.bind_some]
  cases ofJson? b.toJson <;> simp

/-- A text starts with a brace, so it is never taken for an image. -/
theorem decode_toText (b : Bundle) : decode b.toText = ofText b.toText := by
  have hmagic : Image.magic.isPrefixOf b.toText = false := rfl
  rw [decode, hmagic]
  rfl

/-- A bundle whose text is not nested too deeply is read back from the text, by the reader of texts
and by the one that detects the form, exactly if each of its constants is. -/
theorem text_roundTrip_iff (h : b.toJson.depth ≤ Json.fullRoom) :
    (ofText b.toText = .ok b ↔ ∀ c ∈ b.constants, c.ReadsBack) ∧
      (decode b.toText = .ok b ↔ ∀ c ∈ b.constants, c.ReadsBack) := by
  have htext := ofText_toText_iff h
  exact ⟨htext, decode_toText b ▸ htext⟩

end Bundle

namespace Samples

/-- A bundle with characters that are escaped, a pending body with nested types and with numbers
that are read back, and tables that are not in the order of their names. -/
def escapes : Bundle :=
  let start := Function.new 7 "a\"b\\c\n→𝄞" (.ofParams [("\t", .ptr (.vector .f32 4))] .f64 .c)
  let body : Block :=
    { id := 0
      label := some ""
      instructions := [.const 2 (.f32 0x3dcccccd), .const 3 (.f64 0x3fb999999999999a),
        .const 4 (.f64 0x8000000000000000), .const 5 (.u64 0xffffffffffffffff),
        .const 6 (.null (.ptr .bool)), .cast 7 6 .f64 .i8, .call none 7 [0, 300]]
      terminator := .ret (some 3)
      predecessors := [0] }
  let f := { start with graph := ⟨IdMap.empty.insert 0 body, 0, 1⟩ }
  ⟨[(((Module.new "модуль").addLazy f).appendRecord "z" "\"").appendRecord "a" ""]⟩

/-- A bundle whose only function returns a constant. -/
def returning (value : Constant) : Bundle :=
  ⟨[(define (Builder.new (Module.new "m")) "f" [] value.ty .c (fun b => b.const value)).module]⟩

/-- The number of 64 bits that is nearest to ten to the power of minus 45. -/
def tiny : Constant := .f64 0x3696d601ad376ab9

end Samples

namespace Bundle

/-- Escapes, the greatest number, a negative zero and a tenth are read back. -/
theorem text_roundTrip_iff_escapes : Samples.escapes.toJson.depth ≤ Json.fullRoom ∧
    ofText Samples.escapes.toText = .ok Samples.escapes ∧
      decode Samples.escapes.toText = .ok Samples.escapes := by
  have h : Samples.escapes.toJson.depth ≤ Json.fullRoom := by decide
  have hconstants : ∀ c ∈ Samples.escapes.constants, c.ReadsBack := by decide +kernel
  exact ⟨h, (text_roundTrip_iff h).1.mpr hconstants, (text_roundTrip_iff h).2.mpr hconstants⟩

/-- A finite number need not be read back: the shortest text of one is read as its neighbour. -/
theorem finite_not_enough : (∀ c ∈ (Samples.returning Samples.tiny).constants, c.isFinite = true) ∧
    (Samples.returning Samples.tiny).toJson.depth ≤ Json.fullRoom ∧
      ofText (Samples.returning Samples.tiny).toText ≠ .ok (Samples.returning Samples.tiny) ∧
      decode (Samples.returning Samples.tiny).toText ≠ .ok (Samples.returning Samples.tiny) := by
  have h : (Samples.returning Samples.tiny).toJson.depth ≤ Json.fullRoom := by decide
  have hconstants : ¬ ∀ c ∈ (Samples.returning Samples.tiny).constants, c.ReadsBack := by
    decide +kernel
  have htext :
      ofText (Samples.returning Samples.tiny).toText ≠ .ok (Samples.returning Samples.tiny) :=
    mt (ofText_toText_iff h).mp hconstants
  exact ⟨by decide +kernel, h, htext, decode_toText _ ▸ htext⟩

end Bundle

end KernelFusion

import KernelFusion.Bundle.Text
import KernelFusion.Proofs.ImageReading

/-!
# Images of bundles

Every value of a bundle is read back from its bytes: types by induction over their levels,
constants, instructions and terminators by cases, and all that is made of them from its parts. The
only condition is that the lengths of texts and lists fit in the 64 bits that an image has for them.
-/

namespace KernelFusion

/-- The number of bytes of a text. -/
def textLength (s : String) : Nat := (Bytes.ofString s).length

/-- The lengths stored with an instruction: the number of arguments of a call. -/
def Instruction.lengths : Instruction → List Nat
  | call _ _ args => [args.length]
  | _ => []

/-- The lengths stored with a block. -/
def Block.lengths (b : Block) : List Nat :=
  b.label.toList.map textLength ++ b.instructions.length ::
    (b.instructions.flatMap Instruction.lengths ++ [b.predecessors.length])

/-- The lengths stored with a flow graph. -/
def Graph.lengths (g : Graph) : List Nat := g.blocks.values.flatMap Block.lengths

/-- The lengths stored with a prototype. -/
def Prototype.lengths (p : Prototype) : List Nat :=
  p.params.length :: p.params.map (fun q => textLength q.name)

/-- The lengths stored with a function. -/
def Function.lengths (f : Function) : List Nat :=
  textLength f.name :: (f.prototype.lengths ++ f.graph.lengths)

/-- The lengths stored with string tables. -/
def Tables.lengths (t : Tables) : List Nat :=
  t.size :: t.entries.flatMap (fun e => textLength e.1 :: e.2.length :: e.2.map textLength)

/-- The lengths stored with a module. -/
def Module.lengths (m : Module) : List Nat :=
  textLength m.name :: (m.functions.values.flatMap Function.lengths ++
    (m.pending.values.flatMap Function.lengths ++ m.tables.lengths))

/-- The lengths stored with a bundle: those of all its texts and lists. Maps keyed by number are
never too long. -/
def Bundle.lengths (b : Bundle) : List Nat :=
  b.modules.length :: b.modules.flatMap Module.lengths

namespace Image

section Types

/-- Levels enough for the bytes of a type are enough to read it. -/
theorem reads_tyWithin (t : Ty) {levels : Nat} (h : (putTy t).length ≤ levels) :
    Reads (tyWithin levels) (putTy t) t := by
  induction t generalizing levels with
  | ptr pointee ih =>
    cases levels with
    | zero => cases h
    | succ levels => exact Reads.choice 12 (by decide) (ih (Nat.le_of_succ_le_succ h)).map
  | vector element count ih =>
    cases levels with
    | zero => cases h
    | succ levels =>
      have helement : (putTy element).length ≤ levels := by
        simp only [putTy, List.length_cons, List.length_append] at h
        omega
      exact Reads.choice 13 (by decide) ((ih helement).bind (reads_uint64 count).map)
  | _ =>
    cases levels with
    | zero => cases h
    | succ levels => exact Reads.choice _ (by decide) (fun _ => rfl)

/-- All the bytes there are give levels enough. -/
theorem reads_ty (t : Ty) : Reads ty (putTy t) t := by
  intro rest
  have hlevels : (putTy t).length ≤ (putTy t ++ rest).length + 1 := by
    rw [List.length_append]
    omega
  exact reads_tyWithin t hlevels rest

theorem reads_constant (c : Constant) : Reads constant (putConstant c) c := by
  cases c with
  | bool value => exact Reads.choice 0 (by decide) (reads_bool value).map
  | i32 value => exact Reads.choice 1 (by decide) (reads_int32 value).map
  | i64 value => exact Reads.choice 2 (by decide) (reads_int64 value).map
  | u32 value => exact Reads.choice 3 (by decide) (reads_uint32 value).map
  | u64 value => exact Reads.choice 4 (by decide) (reads_uint64 value).map
  | f32 bits => exact Reads.choice 5 (by decide) (reads_float32 bits).map
  | f64 bits => exact Reads.choice 6 (by decide) (reads_float64 bits).map
  | null pointee => exact Reads.choice 7 (by decide) (reads_ty pointee).map

end Types

section Bodies

theorem reads_registers {rs : List Register} (h : rs.length < 2 ^ 64) :
    Reads (list uint32) (putList putUInt32 rs) rs :=
  reads_list h (fun r _ => reads_uint32 r)

theorem reads_instruction {i : Instruction} (h : ∀ n ∈ i.lengths, n < 2 ^ 64) :
    Reads instruction (putInstruction i) i := by
  have register := reads_uint32
  cases i with
  | const dest value =>
    exact Reads.choice 0 (by decide) ((register dest).bind (reads_constant value).map)
  | copy dest src => exact Reads.choice 1 (by decide) ((register dest).bind (register src).map)
  | load dest ptr ty =>
    rw [putInstruction, List.append_assoc]
    exact Reads.choice 2 (by decide) ((register dest).bind ((register ptr).bind (reads_ty ty).map))
  | store ptr value => exact Reads.choice 3 (by decide) ((register ptr).bind (register value).map)
  | binary dest op left right =>
    have hop : Reads word (putWord op) op := reads_word (by cases op <;> decide) (by decide)
    simp only [putInstruction, List.append_assoc]
    exact Reads.choice 4 (by decide)
      ((register dest).bind (hop.bind ((register left).bind (register right).map)))
  | unary dest op operand =>
    have hop : Reads word (putWord op) op := reads_word (by cases op <;> decide) (by decide)
    simp only [putInstruction, List.append_assoc]
    exact Reads.choice 5 (by decide) ((register dest).bind (hop.bind (register operand).map))
  | compare dest op left right =>
    have hop : Reads word (putWord op) op := reads_word (by cases op <;> decide) (by decide)
    simp only [putInstruction, List.append_assoc]
    exact Reads.choice 6 (by decide)
      ((register dest).bind (hop.bind ((register left).bind (register right).map)))
  | cast dest src source target =>
    simp only [putInstruction, List.append_assoc]
    exact Reads.choice 7 (by decide)
      ((register dest).bind ((register src).bind ((reads_ty source).bind (reads_ty target).map)))
  | call dest callee args =>
    have hargs : args.length < 2 ^ 64 := h args.length (List.mem_singleton.mpr rfl)
    have hdest : Reads (option uint32) (putOption putUInt32 dest) dest :=
      reads_option (fun r _ => register r)
    simp only [putInstruction, List.append_assoc]
    exact Reads.choice 8 (by decide)
      (hdest.bind ((register callee).bind (reads_registers hargs).map))

theorem reads_terminator (t : Terminator) : Reads terminator (putTerminator t) t := by
  have number := reads_uint32
  cases t with
  | branch target => exact Reads.choice 0 (by decide) (number target).map
  | branchIf condition onTrue onFalse =>
    rw [putTerminator, List.append_assoc]
    exact Reads.choice 1 (by decide)
      ((number condition).bind ((number onTrue).bind (number onFalse).map))
  | ret value => exact Reads.choice 2 (by decide) (reads_option (fun r _ => number r)).map
  | unreachable => exact Reads.choice 3 (by decide) (fun _ => rfl)

theorem reads_block {b : Block} (h : ∀ n ∈ b.lengths, n < 2 ^ 64) :
    Reads block (putBlock b) b := by
  simp only [Block.lengths, List.forall_mem_append, List.forall_mem_cons, List.forall_mem_map,
    List.forall_mem_flatMap, Option.mem_toList] at h
  obtain ⟨hlabel, hcount, hinstructions, hpredecessors, -⟩ := h
  have hfirst : Reads (option string) (putOption putString b.label) b.label :=
    reads_option (fun s hs => reads_string (hlabel s hs))
  have hbody : Reads (list instruction) (putList putInstruction b.instructions) b.instructions :=
    reads_list hcount (fun i hi => reads_instruction (hinstructions i hi))
  simp only [putBlock, List.append_assoc]
  exact (reads_uint32 b.id).bind (hfirst.bind (hbody.bind
    ((reads_terminator b.terminator).bind (reads_registers hpredecessors).map)))

theorem reads_graph {g : Graph} (h : ∀ n ∈ g.lengths, n < 2 ^ 64) :
    Reads graph (putGraph g) g := by
  have hblocks := List.forall_mem_flatMap.mp h
  rw [putGraph, List.append_assoc]
  exact (reads_idMap (fun b hb => reads_block (hblocks b hb))).bind
    ((reads_uint32 g.entry).bind (reads_uint32 g.nextBlock).map)

end Bodies

section Modules

theorem reads_parameter {p : Parameter} (h : textLength p.name < 2 ^ 64) :
    Reads parameter (putParameter p) p := by
  rw [putParameter, List.append_assoc]
  exact (reads_string h).bind ((reads_ty p.ty).bind (reads_uint32 p.reg).map)

theorem reads_prototype {p : Prototype} (h : ∀ n ∈ p.lengths, n < 2 ^ 64) :
    Reads prototype (putPrototype p) p := by
  simp only [Prototype.lengths, List.forall_mem_cons, List.forall_mem_map] at h
  obtain ⟨hcount, hnames⟩ := h
  have hparams : Reads (list parameter) (putList putParameter p.params) p.params :=
    reads_list hcount (fun q hq => reads_parameter (hnames q hq))
  have hconvention : Reads word (putWord p.convention) p.convention :=
    reads_word (by cases p.convention <;> decide) (by decide)
  rw [putPrototype, List.append_assoc]
  exact hparams.bind ((reads_ty p.result).bind hconvention.map)

theorem reads_attributes (a : Attributes) : Reads attributes (putAttributes a) a := by
  have hlinkage : Reads word (putWord a.linkage) a.linkage :=
    reads_word (by cases a.linkage <;> decide) (by decide)
  exact hlinkage.bind (reads_bool a.isPure).map

theorem reads_function {f : Function} (h : ∀ n ∈ f.lengths, n < 2 ^ 64) :
    Reads function (putFunction f) f := by
  simp only [Function.lengths, List.forall_mem_cons, List.forall_mem_append] at h
  obtain ⟨hname, hprototype, hgraph⟩ := h
  have htypes : Reads (idMap ty) (putIdMap putTy f.registerTypes) f.registerTypes :=
    reads_idMap (fun t _ => reads_ty t)
  simp only [putFunction, List.append_assoc]
  exact (reads_uint32 f.id).bind ((reads_string hname).bind ((reads_prototype hprototype).bind
    ((reads_graph hgraph).bind (htypes.bind
      ((reads_attributes f.attributes).bind (reads_uint32 f.nextRegister).map)))))

theorem reads_functions {fs : IdMap Function}
    (h : ∀ f ∈ fs.values, ∀ n ∈ f.lengths, n < 2 ^ 64) :
    Reads (idMap function) (putIdMap putFunction fs) fs :=
  reads_idMap (fun f hf => reads_function (h f hf))

theorem reads_module {m : Module} (h : ∀ n ∈ m.lengths, n < 2 ^ 64) :
    Reads module (putModule m) m := by
  simp only [Module.lengths, Tables.lengths, List.forall_mem_cons, List.forall_mem_append,
    List.forall_mem_flatMap, List.forall_mem_map] at h
  obtain ⟨hname, hfunctions, hpending, hsize, hentries⟩ := h
  simp only [putModule, List.append_assoc]
  exact (reads_string hname).bind ((reads_functions hfunctions).bind
    ((reads_functions hpending).bind ((reads_tables hsize hentries).bind
      (reads_uint32 m.nextFunction).map)))

/-- The image of a bundle is read back, whatever follows it. -/
theorem reads_image {b : Bundle} (h : ∀ n ∈ b.lengths, n < 2 ^ 64) :
    Reads image b.toImage (magic, version, b.modules) := by
  simp only [Bundle.lengths, List.forall_mem_cons, List.forall_mem_flatMap] at h
  obtain ⟨hcount, hlengths⟩ := h
  have hmodules : Reads (list module) (putList putModule b.modules) b.modules :=
    reads_list hcount (fun m hm => reads_module (hlengths m hm))
  rw [Bundle.toImage, List.append_assoc]
  exact (reads_take magic).bind ((reads_uint32 version).bind hmodules.map)

end Modules

end Image

namespace Bundle

/-- A bundle is read back from its image as it was: constants with their bit patterns, and tables in
their order. -/
theorem decode_toImage {b : Bundle} (h : ∀ n ∈ b.lengths, n < 2 ^ 64) :
    decode b.toImage = .ok b := by
  have hmagic : Image.magic.isPrefixOf b.toImage = true :=
    List.isPrefixOf_iff_prefix.mpr ⟨_, (List.append_assoc ..).symm⟩
  have hread := Image.reads_image h []
  rw [List.append_nil] at hread
  rw [decode, if_pos hmagic, ofImage, hread]
  rfl

end Bundle

namespace Samples

/-- A function with nested types, a branch, a call without a result, and constants that are no
numbers or differ from zero in the sign only. -/
def extremeFunction : Function :=
  let start := Function.new 0xfffffffe "größer→" (.ofParams
    [("p", .ptr (.vector (.vector .f32 4) 0xffffffffffffffff)), ("", .void)] .f64 .c)
  let body : Block :=
    { id := 0
      label := some "größer"
      instructions := [.const 2 (.f32 0x7fc00001), .const 3 (.f64 0x8000000000000000),
        .const 4 (.i64 (-1)), .const 5 (.null (.ptr .bool)), .binary 6 .fdiv 3 3,
        .cast 7 6 .f64 .i8, .call none 0xfffffffe [0, 300]]
      terminator := .branchIf 7 1 0
      predecessors := [0] }
  { start with graph := ⟨(IdMap.empty.insert 0 body).insert 1 (Block.new 1), 0, 2⟩ }

/-- A bundle with a pending body, and with tables that are not in the order of their names. -/
def extremes : Bundle :=
  let m := ((Module.new "модуль").addLazy extremeFunction).appendRecord "z" "𝄞"
  ⟨[m.appendRecord "a" "", Module.new ""]⟩

end Samples

/-- Extreme values are read back as well. -/
theorem Bundle.decode_toImage_extremes :
    (∀ n ∈ Samples.extremes.lengths, n < 2 ^ 64) ∧
      decode Samples.extremes.toImage = .ok Samples.extremes := by
  have h : ∀ n ∈ Samples.extremes.lengths, n < 2 ^ 64 := by decide
  exact ⟨h, decode_toImage h⟩

end KernelFusion

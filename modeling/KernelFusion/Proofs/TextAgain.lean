import KernelFusion.Proofs.FloatRange
import KernelFusion.Proofs.TextReading

/-!
# Texts written again

A bundle that was read from a text can always be written. The new text is read as the same bundle
exactly if each of its constants is read back from its own number, and it is read at all exactly if
each constant is finite: the number of a finite constant is never refused, though it may be read as
a neighbour, and an infinity has no number, it is written as no value. So a text with a number
beyond the 32 bits it is meant for is read, but what is written of it is read no more.
-/

namespace KernelFusion

/-- What is neither finite nor no number is an infinity of the format. -/
theorem BinaryFormat.magnitude_eq_infinity {f : BinaryFormat} {pattern : Nat}
    (hnumber : f.classify pattern ≠ .notANumber) (hfinite : f.isFinite pattern = false) :
    pattern % f.signBit = f.infinity := by
  unfold isFinite at hfinite
  unfold classify at hnumber hfinite
  dsimp only at hnumber hfinite
  split at hfinite
  next hclass => cases hfinite
  next hclass =>
    by_cases hinfinity : pattern % f.signBit = f.infinity
    · exact hinfinity
    · simp [hinfinity] at hclass
      split at hclass <;> cases hclass
  next hclass => exact absurd hclass hnumber

/-- Of the constants that are read from texts, only the infinities of 32 bits are not finite. -/
theorem Constant.Legible.eq_infinity {c : Constant} (h : c.Legible) (hfinite : c.isFinite = false) :
    c = .f32 0x7f800000 ∨ c = .f32 0xff800000 := by
  cases c with
  | f32 bits =>
    have hmagnitude : bits.toNat % 2 ^ 31 = 0x7f800000 :=
      BinaryFormat.magnitude_eq_infinity h hfinite
    have hlt := bits.toNat_lt
    have hcases : bits.toNat = 0x7f800000 ∨ bits.toNat = 0xff800000 := by omega
    exact hcases.imp (fun he => congrArg Constant.f32 (UInt32.toNat_inj.mp he))
      (fun he => congrArg Constant.f32 (UInt32.toNat_inj.mp he))
  | f64 bits => cases hfinite.symm.trans h
  | _ => cases hfinite

namespace Json

section Numbers

/-- A finite number is written as the text of its magnitude. -/
theorem exists_ofFloat {f : BinaryFormat} {layout : FloatLayout} {pattern : Nat}
    (h : f.isFinite pattern = true) : ∃ negative, ∃ magnitude < f.infinity,
      ofFloat f layout pattern =
        .number (Bytes.ofAscii (layout.finite f negative magnitude)) := by
  unfold BinaryFormat.isFinite at h
  split at h
  next negative magnitude hclass =>
    refine ⟨negative, magnitude, ?_, by rw [ofFloat, hclass]⟩
    unfold BinaryFormat.classify at hclass
    dsimp only at hclass
    split at hclass
    next hlt =>
      injection hclass with _ hmagnitude
      exact hmagnitude ▸ hlt
    next => split at hclass <;> cases hclass
  next => cases h
  next => cases h

/-- What is written as a number of 32 bits is read exactly if it is finite. -/
theorem isSome_float32?_ofFloat (pattern : Nat) :
    ((ofFloat .single singleLayout pattern).float32?).isSome =
      BinaryFormat.single.isFinite pattern := by
  cases hfinite : BinaryFormat.single.isFinite pattern with
  | false =>
    rw [ofFloat_eq_null hfinite]
    rfl
  | true =>
    obtain ⟨negative, magnitude, hlt, hjson⟩ := exists_ofFloat hfinite
    rw [hjson]
    unfold float32?
    split
    · rfl
    · rw [Option.isSome_map]
      exact isSome_magnitude?_single negative hlt

/-- What is written as a number of 64 bits is read exactly if it is finite. -/
theorem isSome_float64?_ofFloat (pattern : Nat) :
    ((ofFloat .double doubleLayout pattern).float64?).isSome =
      BinaryFormat.double.isFinite pattern := by
  cases hfinite : BinaryFormat.double.isFinite pattern with
  | false =>
    rw [ofFloat_eq_null hfinite]
    rfl
  | true =>
    obtain ⟨negative, magnitude, hlt, hjson⟩ := exists_ofFloat hfinite
    rw [hjson, float64?, Option.isSome_map]
    exact isSome_magnitude?_double negative hlt

end Numbers

/-- With room for all of the tree, the reader takes some value from it exactly if the condition
holds. -/
def Admits {α : Type} (reader : Reader α) (j : Json) (condition : Prop) : Prop :=
  ∀ room, j.depth ≤ room → ((reader room j).isSome = true ↔ condition)

variable {α β : Type} {reader : Reader α} {f : α → Json} {condition : α → Prop}

section Collections

/-- All items are read exactly if each of them is. -/
theorem isSome_mapM_iff {read : β → Option α} {l : List β} :
    (l.mapM read).isSome = true ↔ ∀ b ∈ l, (read b).isSome = true := by
  induction l with
  | nil => simp
  | cons b l ih =>
    rw [List.mapM_cons, List.forall_mem_cons, ← ih]
    cases read b with
    | none => simp
    | some a => cases l.mapM read <;> simp

theorem Admits.list {l : List α} (h : ∀ a ∈ l, Admits reader (f a) (condition a)) :
    Admits (list? reader) (.array (l.map f)) (∀ a ∈ l, condition a) := by
  intro room hroom
  obtain ⟨inner, rfl, hdepth⟩ := room_array hroom
  have hitem : ∀ a ∈ l, (reader inner (f a)).isSome = true ↔ condition a :=
    fun a ha => h a ha inner (hdepth _ (List.mem_map_of_mem ha))
  rw [list?, isSome_mapM_iff, List.forall_mem_map]
  exact forall₂_congr hitem

theorem Admits.idMap {m : IdMap α} (h : ∀ a ∈ m.values, Admits reader (f a) (condition a)) :
    Admits (idMap? reader) (ofIdMap f m) (∀ a ∈ m.values, condition a) := by
  intro room hroom
  obtain ⟨inner, rfl, hdepth⟩ := room_object hroom
  have hvalue : ∀ e ∈ m.entries, ((keyNumber? (Bytes.ofAscii (Nat.toDigits 10 e.1.toNat))).bind
      (fun k => (reader inner (f e.2)).map (k, ·))).isSome = true ↔ condition e.2 := by
    intro e he
    have hread := h e.2 (List.mem_map_of_mem he) inner (hdepth _ (List.mem_map_of_mem he))
    rw [keyNumber?_toDigits, Option.bind_some, Option.isSome_map]
    exact hread
  rw [ofIdMap, idMap?, Option.isSome_map, isSome_mapM_iff, List.forall_mem_map, IdMap.values,
    List.forall_mem_map]
  exact forall₂_congr hvalue

end Collections

section Parts

theorem isSome_bind_some {x : Option α} {g : α → β} :
    (x.bind fun a => some (g a)).isSome = x.isSome := by
  cases x <;> rfl

theorem admits_constant (c : Constant) : Admits constant? c.toJson (c.isFinite = true) := by
  intro room hroom
  cases c with
  | f32 bits | f64 bits =>
    obtain ⟨inner, rfl, hvariant, -⟩ := variant?_dataVariant (by decide) hroom
    simp [Constant.toJson, constant?, hvariant, Constant.isFinite, isSome_float32?_ofFloat,
      isSome_float64?_ofFloat]
  | _ =>
    refine iff_of_true (Option.isSome_of_eq_some ((reads_constant _ room hroom).mpr ?_)) ?_
    · exact trivial
    · rfl

theorem admits_instruction (i : Instruction) :
    Admits instruction? i.toJson (∀ c ∈ i.constants, c.isFinite = true) := by
  intro room hroom
  cases i with
  | const dest value =>
    obtain ⟨inner, hvalue, hjson⟩ := instruction?_const hroom
    rw [hjson, isSome_bind_some, Instruction.constants, List.forall_mem_singleton]
    exact admits_constant value inner hvalue
  | _ =>
    refine iff_of_true (Option.isSome_of_eq_some ((reads_instruction _ room hroom).mpr ?_)) ?_
    · exact List.forall_mem_nil _
    · exact List.forall_mem_nil _

theorem admits_block (b : Block) :
    Admits block? b.toJson (∀ c ∈ b.constants, c.isFinite = true) := by
  intro room hroom
  obtain ⟨inner, hinstructions, hjson⟩ := block?_toJson hroom
  rw [hjson, isSome_bind_some, Block.constants, List.forall_mem_flatMap]
  exact Admits.list (fun i _ => admits_instruction i) inner hinstructions

theorem admits_graph (g : Graph) :
    Admits graph? g.toJson (∀ c ∈ g.constants, c.isFinite = true) := by
  intro room hroom
  obtain ⟨inner, hblocks, hjson⟩ := graph?_toJson hroom
  rw [hjson, isSome_bind_some, Graph.constants, List.forall_mem_flatMap]
  exact Admits.idMap (fun b _ => admits_block b) inner hblocks

theorem admits_function (f : Function) :
    Admits function? f.toJson (∀ c ∈ f.constants, c.isFinite = true) := by
  intro room hroom
  obtain ⟨inner, hgraph, hjson⟩ := function?_toJson hroom
  rw [hjson, isSome_bind_some]
  exact admits_graph f.graph inner hgraph

theorem admits_module (m : Module) :
    Admits module? m.toJson (∀ c ∈ m.constants, c.isFinite = true) := by
  intro room hroom
  obtain ⟨inner, hfunctions, hpending, hjson⟩ := module?_toJson hroom
  have hread := Admits.idMap (fun f _ => admits_function f) inner hfunctions
  have hlater := Admits.idMap (fun f _ => admits_function f) inner hpending
  rw [hjson, Module.constants, List.forall_mem_append, List.forall_mem_flatMap,
    List.forall_mem_flatMap, ← hread, ← hlater]
  cases idMap? function? inner (ofIdMap (·.toJson) m.functions) with
  | none => simp
  | some functions => rw [Option.bind_some, isSome_bind_some]; simp

end Parts

end Json

namespace Bundle

variable {b : Bundle} {text : Bytes}

/-- The text of a bundle that is not nested too deeply is read exactly if each constant is
finite. -/
theorem isSome_ofJson?_toJson_iff (h : b.toJson.depth ≤ Json.fullRoom) :
    (ofJson? b.toJson).isSome = true ↔ ∀ c ∈ b.constants, c.isFinite = true := by
  obtain ⟨inner, hmodules, hjson⟩ := ofJson?_toJson h
  rw [hjson, Option.isSome_map, constants, List.forall_mem_flatMap]
  exact Json.Admits.list (fun m _ => Json.admits_module m) inner hmodules

theorem exists_ofText_toText_iff (h : b.toJson.depth ≤ Json.fullRoom) :
    (∃ again, ofText b.toText = .ok again) ↔ ∀ c ∈ b.constants, c.isFinite = true := by
  rw [← isSome_ofJson?_toJson_iff h, ofText, parse?_toText, Option.bind_some]
  cases ofJson? b.toJson <;> simp

/-- A bundle with a constant that is not finite is written, but its text is refused. -/
theorem ofText_toText_of_infinite (h : b.toJson.depth ≤ Json.fullRoom) {c : Constant}
    (hc : c ∈ b.constants) (hfinite : c.isFinite = false) : ofText b.toText = .error .json := by
  have hrefused : ofJson? b.toJson = none := by
    refine Option.not_isSome_iff_eq_none.mp (fun hsome => ?_)
    exact Bool.false_ne_true (hfinite.symm.trans ((isSome_ofJson?_toJson_iff h).mp hsome c hc))
  rw [ofText, parse?_toText, Option.bind_some, hrefused]

/-- A text is read if its tree is. -/
theorem ofText_eq_ok_iff : ofText text = .ok b ↔ (Json.parse? text).bind ofJson? = some b := by
  unfold ofText
  cases (Json.parse? text).bind ofJson? <;> simp

/-- A bundle that was read from a text is written as a text that is read as the same bundle, by the
reader of texts and by the one that detects the form, exactly if each of its constants is read back;
and as a text that is read at all exactly if each of its constants is finite. Of all constants that
were read only infinities of 32 bits are not finite, and with one of them the new text is refused as
no form of a bundle. -/
theorem text_again (h : ofText text = .ok b) :
    (ofText b.toText = .ok b ↔ ∀ c ∈ b.constants, c.ReadsBack) ∧
      (decode b.toText = .ok b ↔ ∀ c ∈ b.constants, c.ReadsBack) ∧
      ((∃ again, ofText b.toText = .ok again) ↔ ∀ c ∈ b.constants, c.isFinite = true) ∧
      (∀ c ∈ b.constants, c.isFinite = false → c = .f32 0x7f800000 ∨ c = .f32 0xff800000) ∧
      ((∃ c ∈ b.constants, c.isFinite = false) → ofText b.toText = .error .json) := by
  obtain ⟨j, -, hj⟩ := Option.bind_eq_some_iff.mp (ofText_eq_ok_iff.mp h)
  obtain ⟨hdepth, hlegible⟩ := depth_of_ofJson? hj
  have htext := ofText_toText_iff hdepth
  exact ⟨htext, decode_toText b ▸ htext, exists_ofText_toText_iff hdepth,
    fun c hc => (hlegible c hc).eq_infinity,
    fun ⟨_, hc, hfinite⟩ => ofText_toText_of_infinite hdepth hc hfinite⟩

end Bundle

namespace Samples

/-- A text with records as arrays, whose only function sets a register to a number of a type. -/
def setting (kind number : String) : Bytes :=
  Bytes.ofString ("[[[\"m\",\x7b\"0\":[0,\"f\",[[],\"Void\",\"C\"],[\x7b\"0\":[0,null,["
    ++ "\x7b\"Const\":[0,\x7b\"" ++ kind ++ "\":" ++ number ++ "\x7d]\x7d],"
    ++ "\x7b\"Unreachable\":null\x7d,[]]\x7d,0,1],"
    ++ "\x7b\x7d,[\"Private\",false],1]\x7d,\x7b\x7d,\x7b\x7d,1]]]")

/-- The bundle of that text. -/
def set (value : Constant) : Bundle :=
  let block : Block := ⟨0, none, [.const 0 value], .unreachable, []⟩
  let f : Function :=
    { Function.new 0 "f" (.ofParams [] .void .c) with
      graph := ⟨IdMap.empty.insert 0 block, 0, 1⟩
      nextRegister := 1 }
  ⟨[(Module.new "m").add f]⟩

end Samples

namespace Bundle

/-- A number that is written in another way is read, written and read back. -/
theorem text_again_setting :
    ofText (Samples.setting "F32" "2.50e-1") = .ok (Samples.set (.f32 0x3e800000)) ∧
      ofText (Samples.set (.f32 0x3e800000)).toText = .ok (Samples.set (.f32 0x3e800000)) := by
  have h : ofText (Samples.setting "F32" "2.50e-1") = .ok (Samples.set (.f32 0x3e800000)) :=
    ofText_eq_ok_iff.mpr (by decide +kernel)
  exact ⟨h, (text_again h).1.mpr (by decide +kernel)⟩

/-- A number beyond 32 bits is read, but what is written of it is refused. What is written of a
small number of 64 bits is read as its neighbour. -/
theorem overflow_not_again :
    ofText (Samples.setting "F32" "1e39") = .ok (Samples.set (.f32 0x7f800000)) ∧
      ofText (Samples.set (.f32 0x7f800000)).toText = .error .json ∧
      ofText (Samples.setting "F64" "1e-45") = .ok (Samples.set (.f64 0x3696d601ad376aba)) ∧
      ofText (Samples.set (.f64 0x3696d601ad376aba)).toText ≠
        .ok (Samples.set (.f64 0x3696d601ad376aba)) := by
  refine ⟨ofText_eq_ok_iff.mpr (by decide +kernel), ofText_toText_of_infinite (by decide)
    (List.mem_singleton.mpr rfl) (by decide), ofText_eq_ok_iff.mpr (by decide +kernel), ?_⟩
  exact mt (ofText_toText_iff (by decide)).mp (by decide +kernel)

end Bundle

end KernelFusion

import KernelFusion.Fusion.Plan

/-!
# Registers of emitted functions

The parameters of an emitted function have the registers from zero on, and each call with a result
takes the next one. As long as the registers do not run out they are all different. Emitting calls
appends to the body and leaves everything but the registers alone.
-/

namespace KernelFusion

/-- The number of calls that have a result. -/
def valueCalls (calls : List PlannedCall) : Nat := calls.countP (fun c => !c.result.isVoid)

theorem valueCalls_cons (c : PlannedCall) (calls : List PlannedCall) :
    valueCalls (c :: calls) = valueCalls [c] + valueCalls calls := by
  rw [← List.singleton_append]
  exact List.countP_append

/-- The number of registers of the function that a plan emits. -/
def FusionPlan.registerCount (p : FusionPlan) : Nat := p.params.length + valueCalls p.calls

/-- The register of a parameter's operand, or the invalid one if there is no such parameter. -/
def FusionPlan.binding (p : FusionPlan) (operand : Operand) : Register :=
  match p.params.findIdx? (fun q => q.operand = operand) with
  | some i => i.toUInt32
  | none => Register.invalid

section Parameters

theorem length_numberParams (start : UInt32) (ps : List Parameter) :
    (Function.numberParams start ps).length = ps.length := by
  induction ps generalizing start with
  | nil => rfl
  | cons p rest ih => simp [Function.numberParams, ih]

/-- A parameter's register is counted from the first one. -/
theorem getElem?_numberParams (start : UInt32) (ps : List Parameter) (i : Nat) :
    (Function.numberParams start ps)[i]? =
      ps[i]?.map (fun p => { p with reg := start + i.toUInt32 }) := by
  induction ps generalizing start i with
  | nil => simp [Function.numberParams]
  | cons p rest ih =>
    cases i with
    | zero => simp [Function.numberParams]
    | succ i =>
      have hreg : start + 1 + i.toUInt32 = start + (i + 1).toUInt32 := by
        rw [← UInt32.toNat_inj]
        simp only [UInt32.toNat_add, Nat.toUInt32, UInt32.toNat_ofNat', UInt32.toNat_one]
        omega
      simp [Function.numberParams, ih, hreg]

theorem toNat_toUInt32 {i : Nat} (h : i < 2 ^ 32) : i.toUInt32.toNat = i := by
  simpa [Nat.toUInt32] using h

theorem lt_of_lt_toNat {i : Nat} {r : Register} (h : i < r.toNat) : i.toUInt32 < r := by
  rw [UInt32.lt_iff_toNat_lt, toNat_toUInt32 (Nat.lt_trans h r.toNat_lt)]
  exact h

/-- A number is below the next one if that one is there. -/
theorem lt_add_one_of_room {n : UInt32} (h : n.toNat + 1 < 2 ^ 32) : n < n + 1 := by
  rw [UInt32.lt_iff_toNat_lt, UInt32.toNat_add, UInt32.toNat_one, Nat.mod_eq_of_lt h]
  exact Nat.lt_succ_self _

/-- The parameters have the registers from zero on. -/
theorem registers_numberParams (ps : List Parameter) :
    (Function.numberParams 0 ps).map (·.reg) = (List.range ps.length).map Nat.toUInt32 := by
  refine List.ext_getElem? (fun i => ?_)
  rw [List.getElem?_map, getElem?_numberParams]
  by_cases hi : i < ps.length <;> simp [hi]

/-- The first registers are all different. -/
theorem nodup_registers {n : Nat} (h : n < 2 ^ 32) :
    ((List.range n).map Nat.toUInt32).Nodup := by
  refine List.pairwise_map.mpr (List.nodup_range.imp_of_mem (fun hi hj hne he => hne ?_))
  have hi' := toNat_toUInt32 (Nat.lt_trans (List.mem_range.mp hi) h)
  have hj' := toNat_toUInt32 (Nat.lt_trans (List.mem_range.mp hj) h)
  rw [← hi', he, hj']

end Parameters

namespace Emission

variable {id : FunctionId} {name : String} {params : List (String × Ty)} {result : Ty}
  {convention : Convention} {linkage : Linkage}

theorem start_params :
    (start id name (.ofParams params result convention) linkage).function.prototype.params =
      Function.numberParams 0 (params.map (fun p => ⟨p.1, p.2, Register.invalid⟩)) := rfl

/-- The register of a parameter is its position. -/
theorem param_start {i : Nat} (h : i < params.length) :
    (start id name (.ofParams params result convention) linkage).param i = i.toUInt32 := by
  rw [param, Function.paramRegister?, start_params, getElem?_numberParams]
  simp [h]

theorem nextRegister_start (h : params.length < 2 ^ 32) :
    (start id name (.ofParams params result convention) linkage).function.nextRegister.toNat =
      params.length := by
  have hlen : (start id name (.ofParams params result convention)
      linkage).function.nextRegister = params.length.toUInt32 := by
    simp [start, Function.new, Function.declaration, Prototype.ofParams, length_numberParams]
  rw [hlen, toNat_toUInt32 h]

variable {e : Emission} {callee : FunctionId} {args : List Register}

/-- A call of a void function binds nothing. -/
theorem call_void (h : result.isVoid = true) :
    e.call callee args result =
      ({ e with body := e.body ++ [.call none callee args] }, Register.invalid) := by
  rw [call, if_pos h]

/-- Another call binds the next register and records its type. -/
theorem call_value (h : result.isVoid = false) :
    e.call callee args result =
      (⟨({ e.function with nextRegister := e.function.nextRegister + 1 }).setRegisterType
            e.function.nextRegister result,
          e.body ++ [.call (some e.function.nextRegister) callee args]⟩,
        e.function.nextRegister) := by
  rw [call, if_neg (by simp [h])]
  rfl

/-- A call takes a register if it has a result. -/
theorem nextRegister_call {e : Emission} {c : PlannedCall} (args : List Register)
    (h : e.function.nextRegister.toNat + valueCalls [c] < 2 ^ 32) :
    (e.call c.callee args c.result).1.function.nextRegister.toNat =
      e.function.nextRegister.toNat + valueCalls [c] := by
  cases hvoid : c.result.isVoid with
  | true =>
    rw [call_void hvoid]
    simp [valueCalls, hvoid]
  | false =>
    have hcount : valueCalls [c] = 1 := by simp [valueCalls, hvoid]
    rw [call_value hvoid, hcount]
    show (e.function.nextRegister + 1).toNat = e.function.nextRegister.toNat + 1
    rw [UInt32.toNat_add, UInt32.toNat_one, Nat.mod_eq_of_lt (by omega)]

/-- Calls leave the prototype, the graph, the number and the name alone. -/
structure SameFrame (e e' : Emission) : Prop where
  /-- The prototype. -/
  prototype : e'.function.prototype = e.function.prototype
  /-- The graph. -/
  graph : e'.function.graph = e.function.graph
  /-- The number. -/
  id : e'.function.id = e.function.id
  /-- The name. -/
  name : e'.function.name = e.function.name

theorem SameFrame.trans {e e' e'' : Emission} (h : SameFrame e e') (h' : SameFrame e' e'') :
    SameFrame e e'' :=
  ⟨h'.prototype.trans h.prototype, h'.graph.trans h.graph, h'.id.trans h.id, h'.name.trans h.name⟩

theorem sameFrame_call (e : Emission) (callee : FunctionId) (args : List Register) (result : Ty) :
    SameFrame e (e.call callee args result).1 := by
  cases h : result.isVoid with
  | true =>
    rw [call_void h]
    exact ⟨rfl, rfl, rfl, rfl⟩
  | false =>
    rw [call_value h]
    exact ⟨rfl, rfl, rfl, rfl⟩

/-- The only block of a finished function. -/
theorem entry_finish {e : Emission} (h : e.function.graph = .new) (label : String)
    (value : Option Register) :
    (e.finish label value).graph.entry = 0 ∧
      (e.finish label value).graph.blocks.entries =
        [(0, ⟨0, some label, e.body, .ret value, []⟩)] := by
  unfold finish Function.modifyBlock Graph.modifyBlock
  rw [h]
  exact ⟨rfl, rfl⟩

end Emission

namespace FusionPlan

variable {p : FusionPlan}

/-- The operand of a parameter is bound to the register of its position. -/
theorem binding_of_mem {operand : Operand} (h : operand ∈ p.params.map (·.operand)) :
    ∃ (i : Nat) (hi : i < p.params.length), p.binding operand = i.toUInt32 ∧
      p.params[i].operand = operand := by
  unfold binding
  split
  next i hfind =>
    obtain ⟨hi, he, -⟩ := List.findIdx?_eq_some_iff_getElem.mp hfind
    exact ⟨i, hi, rfl, by simpa using he⟩
  next hfind =>
    obtain ⟨q, hq, he⟩ := List.mem_map.mp h
    have hnone := List.findIdx?_eq_none_iff.mp hfind q hq
    simp [he] at hnone

/-- Registers of operands depend on the prototype only. -/
theorem register_eq {id : FunctionId} {linkage : Linkage} {e : Emission}
    (h : Emission.SameFrame (.start id p.name p.prototype linkage) e) (current : Register)
    (operand : Operand) :
    p.register e current operand =
      if operand = .previous then current else p.binding operand := by
  have hparam : ∀ i < p.params.length, e.param i = i.toUInt32 := by
    intro i hi
    have hsame : e.param i = (Emission.start id p.name p.prototype linkage).param i := by
      rw [Emission.param, Emission.param, Function.paramRegister?, Function.paramRegister?,
        h.prototype]
    rw [hsame, prototype, Emission.param_start (by simpa using hi)]
  unfold register paramRegister binding
  congr 1
  cases hfind : p.params.findIdx? (fun q => q.operand = operand) with
  | none => rfl
  | some i =>
    obtain ⟨hi, -, -⟩ := List.findIdx?_eq_some_iff_getElem.mp hfind
    exact hparam i hi

/-- Emitting calls leaves everything but the registers and the body alone. -/
theorem sameFrame_emitCalls (p : FusionPlan) (calls : List PlannedCall) (current : Register)
    (e : Emission) : Emission.SameFrame e (p.emitCalls calls current e).1 := by
  induction calls generalizing current e with
  | nil => exact ⟨rfl, rfl, rfl, rfl⟩
  | cons c rest ih =>
    exact (Emission.sameFrame_call e c.callee _ c.result).trans (ih _ _)

/-- The emission before the first call. -/
def opening (p : FusionPlan) (id : FunctionId) : Emission := .start id p.name p.prototype .pub

/-- The emission after the last call, and the register of its result. -/
def emission (p : FusionPlan) (id : FunctionId) : Emission × Register :=
  p.emitCalls p.calls (p.binding .dataIn) (p.opening id)

theorem sameFrame_opening (p : FusionPlan) (id : FunctionId) :
    Emission.SameFrame (p.opening id) (p.opening id) := ⟨rfl, rfl, rfl, rfl⟩

theorem nextRegister_opening {p : FusionPlan} (h : p.params.length < 2 ^ 32) (id : FunctionId) :
    (p.opening id).function.nextRegister.toNat = p.params.length := by
  rw [opening, prototype, Emission.nextRegister_start (by simpa using h), List.length_map]

/-- The emitted function is made of its calls and a return. -/
theorem emit_eq (p : FusionPlan) (id : FunctionId) (config : FusionConfig) :
    p.emit id config = (p.emission id).1.finish config.entryLabel
      (if p.result.isVoid then none else some (p.emission id).2) := by
  have hinput : p.paramRegister (p.opening id) .dataIn = p.binding .dataIn :=
    register_eq (p.sameFrame_opening id) Register.invalid .dataIn
  unfold emission
  rw [← hinput]
  rfl

/-- The emission `e` has begun with the parameters of the plan: only registers and calls were added.
-/
structure Begun (p : FusionPlan) (id : FunctionId) (e : Emission) : Prop where
  /-- Everything else is as before the first call. -/
  frame : Emission.SameFrame (p.opening id) e
  /-- The next register is none of a parameter. -/
  room : p.params.length ≤ e.function.nextRegister.toNat

theorem begun_opening {p : FusionPlan} (h : p.params.length < 2 ^ 32) (id : FunctionId) :
    p.Begun id (p.opening id) :=
  ⟨p.sameFrame_opening id, Nat.le_of_eq (nextRegister_opening h id).symm⟩

/-- A call keeps what was begun. -/
theorem Begun.call {p : FusionPlan} {id : FunctionId} {e : Emission} (h : p.Begun id e)
    {c : PlannedCall} (hroom : e.function.nextRegister.toNat + valueCalls [c] < 2 ^ 32)
    (args : List Register) : p.Begun id (e.call c.callee args c.result).1 where
  frame := h.frame.trans (Emission.sameFrame_call e c.callee args c.result)
  room := by
    rw [Emission.nextRegister_call args hroom]
    exact Nat.le_trans h.room (Nat.le_add_right _ _)

theorem sameFrame_emission (p : FusionPlan) (id : FunctionId) :
    Emission.SameFrame (p.opening id) (p.emission id).1 :=
  p.sameFrame_emitCalls p.calls _ _

/-- Number, name and prototype of the emitted function. -/
theorem emit_frame (p : FusionPlan) (id : FunctionId) (config : FusionConfig) :
    (p.emit id config).id = id ∧ (p.emit id config).name = p.name ∧
      (p.emit id config).prototype = (p.opening id).function.prototype := by
  have h := p.sameFrame_emission id
  rw [emit_eq]
  exact ⟨h.id, h.name, h.prototype⟩

/-- The parameters of the emitted function have the first registers. -/
theorem registers_emit (p : FusionPlan) (id : FunctionId) (config : FusionConfig) :
    (p.emit id config).prototype.params.map (·.reg) =
      (List.range p.params.length).map Nat.toUInt32 := by
  rw [(p.emit_frame id config).2.2, opening, prototype, Emission.start_params,
    registers_numberParams, List.length_map, List.length_map]

/-- The parameters of the emitted function have the types of the plan. -/
theorem paramTypes_emit (p : FusionPlan) (id : FunctionId) (config : FusionConfig) :
    (p.emit id config).prototype.paramTypes = p.params.map (·.ty) := by
  rw [(p.emit_frame id config).2.2]
  refine List.ext_getElem? (fun i => ?_)
  unfold opening
  rw [prototype, Prototype.paramTypes, Emission.start_params, List.getElem?_map,
    getElem?_numberParams]
  by_cases hi : i < p.params.length <;> simp [hi]

/-- The emitted function has the result of the plan. -/
theorem result_emit (p : FusionPlan) (id : FunctionId) (config : FusionConfig) :
    (p.emit id config).result = p.result := by
  rw [Function.result, (p.emit_frame id config).2.2]
  rfl

/-- The prototype of the emitted function is made of parameters and result. -/
theorem prototype_emit_congr {p q : FusionPlan} (hparams : p.params = q.params)
    (hresult : p.result = q.result) (id id' : FunctionId) (config : FusionConfig) :
    (p.emit id config).prototype = (q.emit id' config).prototype := by
  have hplan : p.prototype = q.prototype := by rw [prototype, prototype, hparams, hresult]
  have hopening : (p.opening id).function.prototype = (q.opening id').function.prototype := by
    simp only [opening, Emission.start, Function.new, Function.declaration, hplan]
  rw [(p.emit_frame id config).2.2, (q.emit_frame id' config).2.2, hopening]

/-- Committing stores the emitted function under the next number and keeps all others. -/
theorem function?_commit (p : FusionPlan) (config : FusionConfig) (m : Module) (id : FunctionId) :
    (p.commit config m).2.function? id =
      if m.nextFunction = id then some (p.emit m.nextFunction config) else m.function? id := by
  have hstore : (p.commit config m).2.functions =
      m.functions.insert (p.emit m.nextFunction config).id (p.emit m.nextFunction config) := rfl
  rw [Module.function?, hstore, IdMap.get?_insert, (p.emit_frame m.nextFunction config).1]
  rfl

end FusionPlan

end KernelFusion

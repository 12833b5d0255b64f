import KernelFusion.Proofs.Execution
import KernelFusion.Proofs.Planning
import KernelFusion.Samples

/-!
# Fused kernels compute what their stages compute

The stages of a chain can be run one after the other without any fusion: each is given the value
that the stage before it left and the coordinates it asks for. A fused kernel does just that. The
operands of the plan and the registers of the emitted function are tied together while calls are
emitted, and so is the machine that runs the stages with the machine that runs the emitted calls.
-/

namespace KernelFusion

/-- The coordinates of an element. -/
structure Coordinates (V : Type) where
  /-- The x coordinate. -/
  x : V
  /-- The y coordinate. -/
  y : V
  /-- The z coordinate. -/
  z : V

variable {σ V : Type}

/-- The coordinate of a flag. -/
def Coordinates.along (point : Coordinates V) (flag : KernelSignature) : V :=
  if flag = .x then point.x else if flag = .y then point.y else point.z

namespace KernelSignature

/-- The arguments of a kernel: the value, if it reads one, then its coordinates. -/
def arguments (s : KernelSignature) (value : Option V) (point : Coordinates V) :
    Option (List V) :=
  let coordinates := s.coordinates.map point.along
  if s.has .input then value.map (· :: coordinates) else some coordinates

/-- The value before the first stage: the input, if the kernel reads one. -/
def start (s : KernelSignature) (input : V) : Option V :=
  if s.has .input then some input else none

/-- Different keys can be given any values. -/
theorem exists_map_eq [Nonempty V] {keys : List KernelSignature} (hkeys : keys.Nodup)
    {values : List V} (h : values.length = keys.length) :
    ∃ given : KernelSignature → V, keys.map given = values := by
  induction keys generalizing values with
  | nil => exact ⟨fun _ => Classical.arbitrary V, (List.eq_nil_of_length_eq_zero h).symm⟩
  | cons key rest ih =>
    obtain ⟨hkey, hrest⟩ := List.nodup_cons.mp hkeys
    cases values with
    | nil => cases h
    | cons value values =>
      obtain ⟨given, hgiven⟩ := ih hrest (Nat.succ.inj h)
      refine ⟨Function.update given key value, ?_⟩
      have hothers : rest.map (Function.update given key value) = rest.map given :=
        List.map_congr_left (fun other hother =>
          Function.update_of_ne (ne_of_mem_of_not_mem hother hkey) value given)
      rw [List.map_cons, Function.update_self, hothers, hgiven]

/-- A kernel gets the same arguments from the input and from the value before its first stage. -/
theorem arguments_start (s : KernelSignature) (input : V) (point : Coordinates V) :
    s.arguments (s.start input) point = s.arguments (some input) point := by
  unfold arguments start
  by_cases hin : s.has .input = true <;> simp [hin]

/-- Every list with a value for the input, if there is one, and one for each coordinate is the
arguments of some element. -/
theorem exists_arguments [Nonempty V] (s : KernelSignature) {args : List V}
    (h : args.length = s.inputs + s.coordinates.length) :
    ∃ (input : V) (point : Coordinates V), s.arguments (some input) point = some args := by
  have hpoint : ∀ values : List V, values.length = s.coordinates.length →
      ∃ point : Coordinates V, s.coordinates.map point.along = values := by
    intro values hvalues
    have hnodup : s.coordinates.Nodup := List.Pairwise.filter _ (by decide)
    obtain ⟨given, hgiven⟩ := exists_map_eq hnodup hvalues
    refine ⟨⟨given .x, given .y, given .z⟩, ?_⟩
    rw [← hgiven]
    refine List.map_congr_left (fun flag hflag => ?_)
    rcases (mem_coordinates.mp hflag).1 with rfl | rfl | rfl <;> rfl
  unfold arguments
  unfold inputs at h
  by_cases hin : s.has .input = true
  · rw [if_pos hin] at h
    cases args with
    | nil =>
      rw [List.length_nil] at h
      omega
    | cons input values =>
      obtain ⟨point, rfl⟩ := hpoint values (by simpa [Nat.add_comm 1] using h)
      exact ⟨input, point, by simp [hin]⟩
  · rw [if_neg hin] at h
    obtain ⟨point, rfl⟩ := hpoint args (by simpa using h)
    exact ⟨Classical.arbitrary V, point, by simp [hin]⟩

end KernelSignature

/-- Run stages one after the other: call the function of each in the destination with the value so
far and its coordinates; its result is the value for the next stage. -/
def runStages (machine : Machine σ V) (dest : Module) (point : Coordinates V) :
    List KernelSlot → σ → Option V → Option (σ × Option V)
  | [], s, value => some (s, value)
  | k :: rest, s, value =>
    match k.describe with
    | .error _ => none
    | .ok d =>
      match dest.idOf? d.name, d.signature.arguments value point with
      | some id, some args =>
        let (s, result) := machine.call id s args
        runStages machine dest point rest s result
      | _, _ => none

/-- Stages behind others go on where these end. -/
theorem runStages_append {machine : Machine σ V} {dest : Module} {point : Coordinates V}
    {ks : List KernelSlot} (later : List KernelSlot) {s : σ} {value : Option V}
    {outcome : σ × Option V} (h : runStages machine dest point ks s value = some outcome) :
    runStages machine dest point (ks ++ later) s value =
      runStages machine dest point later outcome.1 outcome.2 := by
  induction ks generalizing s value with
  | nil =>
    cases h
    rfl
  | cons k rest ih =>
    rw [runStages] at h
    rw [List.cons_append, runStages]
    rcases hk : k.describe with e | d
    · rw [hk] at h
      cases h
    · rw [hk] at h
      dsimp only at h ⊢
      split at h
      next id args hid hargs => exact ih h
      next => cases h

/-- Stages run alike if their names stand for the same functions and these are called alike. -/
theorem runStages_congr {machine machine' : Machine σ V} {dest left : Module}
    {point : Coordinates V} {ks : List KernelSlot}
    (h : ∀ k ∈ ks, ∀ d, k.describe = .ok d → ∃ id, dest.idOf? d.name = some id ∧
      left.idOf? d.name = some id ∧ ∀ s args, machine.call id s args = machine'.call id s args)
    (s : σ) (value : Option V) :
    runStages machine dest point ks s value = runStages machine' left point ks s value := by
  induction ks generalizing s value with
  | nil => rfl
  | cons k rest ih =>
    rw [runStages, runStages]
    rcases hk : k.describe with e | d
    · rfl
    · obtain ⟨id, hdest, hleft, hcall⟩ := h k List.mem_cons_self d hk
      cases hargs : d.signature.arguments value point with
      | none => simp only [hdest, hleft, hargs]
      | some args =>
        simp only [hdest, hleft, hargs, hcall]
        exact ih (fun k' hk' => h k' (List.mem_cons_of_mem k hk')) _ _

/-- Calls of functions have a result exactly if the functions are not void. -/
def Machine.RespectsResults (machine : Machine σ V) (m : Module) : Prop :=
  ∀ id f, m.whole? id = some f → ∀ s args, (machine.call id s args).2.isSome = !f.result.isVoid

/-- Calls of functions with as many arguments as parameters have a result exactly if the functions
are not void. -/
def Machine.RespectsCalls (machine : Machine σ V) (m : Module) : Prop :=
  ∀ id f, m.whole? id = some f → ∀ s args, args.length = f.prototype.params.length →
    (machine.call id s args).2.isSome = !f.result.isVoid

theorem Machine.RespectsResults.respectsCalls {machine : Machine σ V} {m : Module}
    (h : machine.RespectsResults m) : machine.RespectsCalls m :=
  fun id f hf s args _ => h id f hf s args

/-- The value of a parameter's operand. -/
def Operand.value (input : V) (point : Coordinates V) : Operand → V
  | .x => point.x
  | .y => point.y
  | .z => point.z
  | .dataIn | .previous => input

theorem Operand.value_ofCoordinate (input : V) (point : Coordinates V) (flag : KernelSignature) :
    (Operand.ofCoordinate flag).value input point = point.along flag := by
  unfold Operand.ofCoordinate Coordinates.along
  split
  · rfl
  · split <;> rfl

/-- The emission `e` is tied to a run of stages that has come to state `s` with the value `held`:
its calls lead from `origin` to `s` and the registers `regs`, which hold the parameters and, if the
plan has a current operand, the value in its register. -/
structure Tied (machine : Machine σ V) (p : FusionPlan) (id : FunctionId) (value : Operand → V)
    (origin : σ × RegisterFile V) (e : Emission) (register : Register) (current : Option Operand)
    (s : σ) (held : Option V) (regs : RegisterFile V) : Prop extends p.Begun id e where
  /-- The calls so far were performed. -/
  ran : runInstructions machine e.body origin.1 origin.2 = some (s, regs)
  /-- The parameters hold their values. -/
  params : ∀ (i : Nat) (hi : i < p.params.length),
    regs i.toUInt32 = some (value p.params[i].operand)
  /-- The register of the current operand holds the value. -/
  holds : ∀ o, current = some o →
    ∃ v, held = some v ∧ regs (if o = .previous then register else p.binding o) = some v
  /-- Without a current operand there is no value. -/
  none : current = none → held = none

namespace Tied

variable {machine : Machine σ V} {p : FusionPlan} {id : FunctionId} {input : V}
  {point : Coordinates V} {origin : σ × RegisterFile V} {e : Emission} {register : Register}
  {current : Option Operand} {s : σ} {held : Option V} {regs : RegisterFile V}

/-- The operands of a call are read as the arguments of its kernel. -/
theorem reads {view : Module} {d : KernelDescriptor} {f : Function} {c : PlannedCall}
    (h : Tied machine p id (·.value input point) origin e register current s held regs)
    (hc : CallOf view current d f c)
    (hsub : d.signature.coordinates.map Operand.ofCoordinate ⊆ p.params.map (·.operand)) :
    ∃ args, d.signature.arguments held point = some args ∧
      (c.operands.map (p.register e register)).map regs = args.map some := by
  have hregister := FusionPlan.register_eq h.frame register
  have hcoordinates : ((d.signature.coordinates.map Operand.ofCoordinate).map
      (p.register e register)).map regs = (d.signature.coordinates.map point.along).map some := by
    simp only [List.map_map]
    refine List.map_congr_left (fun flag hflag => ?_)
    obtain ⟨i, hi, hbind, hoperand⟩ :=
      FusionPlan.binding_of_mem (hsub (List.mem_map_of_mem hflag))
    simp only [Function.comp_apply]
    rw [hregister, if_neg (Operand.ofCoordinate_ne_previous flag), hbind, h.params i hi, hoperand,
      Operand.value_ofCoordinate]
  unfold KernelSignature.arguments
  rw [hc.operands]
  by_cases hin : d.signature.has .input = true
  · obtain ⟨o, ho⟩ := Option.isSome_iff_exists.mp (hc.input hin)
    obtain ⟨v, hv, hreg⟩ := h.holds o ho
    refine ⟨v :: d.signature.coordinates.map point.along, by simp [hin, hv], ?_⟩
    rw [if_pos hin, ho, Option.toList_some, List.singleton_append, List.map_cons, List.map_cons,
      hcoordinates, hregister, hreg, List.map_cons]
  · refine ⟨d.signature.coordinates.map point.along, by simp [hin], ?_⟩
    rw [if_neg hin, List.nil_append, hcoordinates]

/-- Emitting a call keeps up with calling the function. -/
theorem call {c : PlannedCall} {args : List V} {s' : σ} {result : Option V}
    (h : Tied machine p id (·.value input point) origin e register current s held regs)
    (hroom : e.function.nextRegister.toNat + valueCalls [c] < 2 ^ 32)
    (hread : (c.operands.map (p.register e register)).map regs = args.map some)
    (hcall : machine.call c.callee s args = (s', result))
    (hresult : result.isSome = !c.result.isVoid) :
    ∃ regs', Tied machine p id (·.value input point) origin
        (e.call c.callee (c.operands.map (p.register e register)) c.result).1
        (e.call c.callee (c.operands.map (p.register e register)) c.result).2
        c.leaves s' result regs' := by
  have hbegun := h.toBegun.call hroom (c.operands.map (p.register e register))
  cases hvoid : c.result.isVoid with
  | true =>
    have hnone : result = Option.none := by simpa [hvoid] using hresult
    have hleaves : c.leaves = Option.none := if_pos hvoid
    subst hnone
    rw [Emission.call_void hvoid] at hbegun ⊢
    refine ⟨regs, hbegun, ?_, h.params, fun o ho => ?_, fun _ => rfl⟩
    · rw [runInstructions_append h.ran, runInstructions, run_call hread hcall rfl]
      rfl
    · rw [hleaves] at ho
      cases ho
  | false =>
    have hsome : result.isSome = true := by simpa [hvoid] using hresult
    obtain ⟨v, rfl⟩ := Option.isSome_iff_exists.mp hsome
    have hleaves : c.leaves = some .previous := if_neg (by simp [hvoid])
    rw [Emission.call_value hvoid] at hbegun ⊢
    refine ⟨regs.set e.function.nextRegister v, hbegun, ?_, fun i hi => ?_, fun o ho => ?_,
      fun ho => ?_⟩
    · rw [runInstructions_append h.ran, runInstructions, run_call hread hcall rfl]
      rfl
    · have hne : i.toUInt32 ≠ e.function.nextRegister :=
        UInt32.ne_of_lt (lt_of_lt_toNat (Nat.lt_of_lt_of_le hi h.room))
      rw [RegisterFile.set_other hne]
      exact h.params i hi
    · rw [hleaves] at ho
      cases ho
      exact ⟨v, rfl, by rw [if_pos rfl, RegisterFile.set_self]⟩
    · rw [hleaves] at ho
      cases ho

/-- Emitting the calls of stages keeps up with running the stages. -/
theorem calls {view dest : Module} {ks : List KernelSlot} {calls : List PlannedCall}
    (hplanned : Planned view current ks calls)
    (hview : ∀ name f, view.callable? name = some f → dest.idOf? name = some f.id ∧
      ∀ s args, args.length = f.prototype.params.length →
        (machine.call f.id s args).2.isSome = !f.result.isVoid)
    (hsub : ∀ k ∈ ks, ∀ d, k.describe = .ok d →
      d.signature.coordinates.map Operand.ofCoordinate ⊆ p.params.map (·.operand))
    (h : Tied machine p id (·.value input point) origin e register current s held regs)
    (hroom : e.function.nextRegister.toNat + valueCalls calls < 2 ^ 32) :
    ∃ s' held' regs', runStages machine dest point ks s held = some (s', held') ∧
      Tied machine p id (·.value input point) origin (p.emitCalls calls register e).1
        (p.emitCalls calls register e).2 (PlannedCall.outflow current calls) s' held' regs' := by
  -- Each stage takes one step on both sides; what it leaves is current for the stages behind it.
  induction hplanned generalizing s held regs e register with
  | nil current => exact ⟨s, held, regs, rfl, h⟩
  | @cons current k d f c rest calls describe hasName call later ih =>
    have hcount := valueCalls_cons c calls
    obtain ⟨args, hargs, hread⟩ := h.reads call (hsub k List.mem_cons_self d describe)
    obtain ⟨hid, hresult⟩ := hview d.name f call.entry
    rcases hstep : machine.call f.id s args with ⟨s', result⟩
    have hcall : machine.call c.callee s args = (s', result) := call.callee ▸ hstep
    have harity : args.length = f.prototype.params.length := by
      have hlength := congrArg List.length hread
      simp only [List.length_map] at hlength
      rw [← hlength, call.arity]
    have hfit : result.isSome = !c.result.isVoid := by
      rw [call.result, ← hresult s args harity, hstep]
    obtain ⟨regs', htied⟩ := h.call (by omega) hread hcall hfit
    have hnext := Emission.nextRegister_call (c.operands.map (p.register e register))
      (show e.function.nextRegister.toNat + valueCalls [c] < 2 ^ 32 by omega)
    obtain ⟨s'', held', regs'', hrun, hend⟩ :=
      ih (fun k' hk' => hsub k' (List.mem_cons_of_mem k hk')) htied (by omega)
    refine ⟨s'', held', regs'', ?_, ?_⟩
    · rw [runStages, describe]
      simp only [hid, hargs, hstep]
      exact hrun
    · rw [PlannedCall.outflow_cons]
      exact hend

end Tied

/-- A finished function of one block binds its parameters, performs its calls and returns. -/
theorem run_finish {machine : Machine σ V} {e : Emission} {args : List V} {s s' : σ}
    {bound regs : RegisterFile V} (hgraph : e.function.graph = .new)
    (hbind : RegisterFile.empty.bind (e.function.prototype.params.map (·.reg)) args = some bound)
    (hrun : runInstructions machine e.body s bound = some (s', regs)) (label : String)
    (value : Option Register) :
    (e.finish label value).run machine s args =
      ((Terminator.ret value).leave regs).map (s', ·) := by
  obtain ⟨hentry, hblocks⟩ := Emission.entry_finish hgraph label value
  have hblock : (e.finish label value).graph.blocks.get? (e.finish label value).graph.entry =
      some ⟨0, some label, e.body, .ret value, []⟩ := by
    rw [hentry, IdMap.get?, hblocks]
    rfl
  have hparams : (e.finish label value).prototype = e.function.prototype := rfl
  rw [Function.run, hparams, hbind, hblock]
  simp only [hrun]

namespace FusionPlan

variable {machine : Machine σ V} {p : FusionPlan} {input : V} {point : Coordinates V}

/-- The parameters take the arguments of the merged signature. -/
theorem arguments_eq {first : ResolvedStage} {config : FusionConfig}
    (h : fusedParams p.signature first config = .ok p.params) :
    p.signature.arguments (some input) point =
      some (p.params.map (fun q => q.operand.value input point)) := by
  have hmap := congrArg (List.map (·.value input point)) (fusedParams_operands h)
  simp only [List.map_map, List.map_append] at hmap
  have hcoordinates : ((·.value input point) ∘ Operand.ofCoordinate) = point.along :=
    funext (Operand.value_ofCoordinate input point)
  rw [show (fun q : FusedParam => q.operand.value input point) =
      (·.value input point) ∘ (·.operand) from rfl, hmap, hcoordinates]
  unfold KernelSignature.arguments KernelSignature.current
  by_cases hin : p.signature.has .input = true <;> simp [hin, Operand.value]

/-- Before the first call the parameters hold the arguments. -/
theorem tied_opening (machine : Machine σ V) {first : ResolvedStage} {config : FusionConfig}
    (h : fusedParams p.signature first config = .ok p.params) (hroom : p.params.length < 2 ^ 32)
    (id : FunctionId) (s : σ) {bound : RegisterFile V}
    (hbound : ((List.range p.params.length).map Nat.toUInt32).map bound =
      (p.params.map (fun q => q.operand.value input point)).map some) :
    Tied machine p id (·.value input point) (s, bound) (p.opening id) (p.binding .dataIn)
      p.signature.current s (p.signature.start input) bound := by
  have hparams : ∀ (i : Nat) (hi : i < p.params.length),
      bound i.toUInt32 = some ((p.params[i].operand).value input point) := by
    intro i hi
    have hat := congrArg (·[i]?) hbound
    simpa [hi] using hat
  refine ⟨begun_opening hroom id, rfl, hparams, fun o ho => ?_, fun ho => ?_⟩
  · unfold KernelSignature.current at ho
    split at ho
    next hin =>
      cases ho
      have hmem : Operand.dataIn ∈ p.params.map (·.operand) := by
        rw [fusedParams_operands h]
        simp [KernelSignature.current, hin]
      obtain ⟨i, hi, hbind, hoperand⟩ := binding_of_mem hmem
      refine ⟨input, if_pos hin, ?_⟩
      rw [if_neg (by simp), hbind, hparams i hi, hoperand]
      rfl
    next => cases ho
  · unfold KernelSignature.current at ho
    split at ho
    next => cases ho
    next hin => exact if_neg hin

variable (input point) in
/-- The emitted function runs the stages of the chain, and has a result unless it is void. -/
theorem run_emit_calls {dest : Module} (hd : dest.WellFormed) {chain : Chain} {name : String}
    {config : FusionConfig} (hb : p.Built dest.force chain name config)
    (hroom : p.registerCount < 2 ^ 32) (hm : machine.RespectsCalls dest) (id : FunctionId) (s : σ) :
    ∃ args outcome, p.signature.arguments (some input) point = some args ∧
      runStages machine dest point chain.stages s (p.signature.start input) = some outcome ∧
      (p.emit id config).run machine s args = some outcome ∧
      outcome.2.isSome = !p.result.isVoid := by
  obtain ⟨first, -, hparams⟩ := hb.params
  have hfew : p.params.length < 2 ^ 32 := Nat.lt_of_le_of_lt (Nat.le_add_right _ _) hroom
  obtain ⟨bound, hbind, hbound, -⟩ := RegisterFile.empty.bind_of_nodup
    (p.params.map (fun q => q.operand.value input point)) (nodup_registers hfew) (by simp)
  have hopening := tied_opening machine hparams hfew id s hbound
  have hview : ∀ name f, dest.force.callable? name = some f → dest.idOf? name = some f.id ∧
      ∀ s args, args.length = f.prototype.params.length →
        (machine.call f.id s args).2.isSome = !f.result.isVoid := by
    intro name f hf
    obtain ⟨hid, hwhole⟩ := hd.of_callable?_force hf
    exact ⟨hid, hm f.id f hwhole⟩
  obtain ⟨s', held, regs, hrun, htied⟩ := hopening.calls hb.calls hview
    (fun k hk d => hb.coordinates_subset hk)
    (by rw [nextRegister_opening hfew id]; exact hroom)
  rw [PlannedCall.outflow_eq p.signature.current hb.result] at htied
  have hend : Tied machine p id (·.value input point) (s, bound) (p.emission id).1
    (p.emission id).2 (if p.result.isVoid then none else some .previous) s' held regs := htied
  have hregisters := p.registers_emit id config
  rw [(p.emit_frame id config).2.2, ← hend.frame.prototype] at hregisters
  refine ⟨_, (s', held), arguments_eq hparams, hrun, ?_⟩
  rw [emit_eq, run_finish hend.frame.graph (hregisters ▸ hbind) hend.ran]
  cases hvoid : p.result.isVoid with
  | true =>
    rw [hend.none (by simp [hvoid])]
    exact ⟨rfl, rfl⟩
  | false =>
    obtain ⟨v, rfl, hreg⟩ := hend.holds .previous (by simp [hvoid])
    rw [if_pos rfl] at hreg
    exact ⟨by simp [Terminator.leave, hreg], rfl⟩

/-- Whatever arguments the emitted function is given, as many as it has parameters, it runs the
stages of the chain on some element. -/
theorem run_emit_args [Nonempty V] {dest : Module} (hd : dest.WellFormed) {chain : Chain}
    {name : String} {config : FusionConfig} (hb : p.Built dest.force chain name config)
    (hroom : p.registerCount < 2 ^ 32) (hm : machine.RespectsCalls dest) (id : FunctionId) (s : σ)
    {args : List V} (hargs : args.length = (p.emit id config).prototype.params.length) :
    ∃ (input : V) (point : Coordinates V) (outcome : σ × Option V),
      p.signature.arguments (some input) point = some args ∧
      runStages machine dest point chain.stages s (p.signature.start input) = some outcome ∧
      (p.emit id config).run machine s args = some outcome ∧
      outcome.2.isSome = !p.result.isVoid := by
  obtain ⟨first, -, hparams⟩ := hb.params
  have htypes := congrArg List.length (p.paramTypes_emit id config)
  simp only [Prototype.paramTypes, List.length_map] at htypes
  obtain ⟨input, point, harguments⟩ := p.signature.exists_arguments
    (hargs.trans (htypes.trans (fusedParams_length hparams)))
  obtain ⟨args', outcome, hargs', hrest⟩ := run_emit_calls input point hd hb hroom hm id s
  obtain rfl := Option.some.inj (harguments.symm.trans hargs')
  exact ⟨input, point, outcome, harguments, hrest⟩

/-- The emitted function runs the stages of the chain. -/
theorem run_emit {dest : Module} (hd : dest.WellFormed) {chain : Chain} {name : String}
    {config : FusionConfig} (hb : p.Built dest.force chain name config)
    (hroom : p.registerCount < 2 ^ 32) (hm : machine.RespectsResults dest) (id : FunctionId)
    (s : σ) :
    ∃ args outcome, p.signature.arguments (some input) point = some args ∧
      runStages machine dest point chain.stages s (p.signature.start input) = some outcome ∧
      (p.emit id config).run machine s args = some outcome := by
  obtain ⟨args, outcome, hargs, hstages, hrun, -⟩ :=
    run_emit_calls input point hd hb hroom hm.respectsCalls id s
  exact ⟨args, outcome, hargs, hstages, hrun⟩

end FusionPlan

/-- A fused kernel computes what the stages of its chain compute one after the other: it takes the
arguments of the merged signature, and on every machine it comes to the state and the result that
running the stages from the input comes to. -/
theorem fuse_runs_stages {dest left : Module} {chain : Chain} {name : String}
    {config : FusionConfig} {kernel : FusedKernel} (hd : dest.WellFormed)
    (hfuse : fuse chain name config dest = (.ok kernel, left))
    (hroom : FitsRegisters chain name config dest)
    (machine : Machine σ V) (hm : machine.RespectsResults dest) (input : V) (point : Coordinates V)
    (s : σ) :
    chain.reconcile = .ok kernel.signature ∧
      ∃ f args outcome, left.function? kernel.id = some f ∧
        kernel.signature.arguments (some input) point = some args ∧
        runStages machine dest point chain.stages s (kernel.signature.start input) = some outcome ∧
        f.run machine s args = some outcome := by
  obtain ⟨plan, mid, hbuild, hbuilt, hcommit⟩ := fuse_ok hd hfuse
  cases hcommit
  obtain ⟨args, outcome, hargs, hrun, hemit⟩ :=
    plan.run_emit hd hbuilt (hroom plan mid hbuild) hm mid.nextFunction s
  refine ⟨hbuilt.signature, _, args, outcome, ?_, hargs, hrun, hemit⟩
  exact (plan.function?_commit config mid mid.nextFunction).trans (if_pos rfl)

/-- A machine whose state is the list of all calls, each of which gives back how many there were
before. -/
def Machine.tracing (m : Module) : Machine (List (FunctionId × List Nat)) Nat where
  call id trace args :=
    (trace ++ [(id, args)],
      if (m.whole? id).any (·.result.isVoid) then none else some trace.length)
  operate _ trace _ := (trace, none)

theorem Machine.tracing_respectsResults (m : Module) : (tracing m).RespectsResults m := by
  intro id f hf s args
  simp only [tracing, hf, Option.any_some]
  cases f.result.isVoid <;> rfl

/-- Scaling 7 at x = 1, y = 2 calls each stage once, with the result of the one before. -/
theorem fuse_runs_stages_filter :
    ∃ f, Samples.fused.function? 10 = some f ∧
      f.run (.tracing Samples.merged) [] [7, 1, 2] =
        some ([(0, [7, 1]), (1, [0]), (2, [1, 2])], some 2) := by
  have hd : Samples.merged.WellFormed := by decide
  have hfuse : fuse Samples.filter "fused" .standard Samples.merged =
      (.ok ⟨10, "fused", ⟨59⟩, 3⟩, Samples.fused) := rfl
  obtain ⟨-, f, args, outcome, hf, hargs, hstages, hrun⟩ :=
    fuse_runs_stages hd hfuse (fitsRegisters_of_length _ _ hd (by decide))
      (.tracing Samples.merged) (Machine.tracing_respectsResults _) 7 ⟨1, 2, 3⟩ []
  obtain rfl : [7, 1, 2] = args := Option.some.inj hargs
  refine ⟨f, hf, hrun.trans (hstages.symm.trans rfl)⟩

end KernelFusion

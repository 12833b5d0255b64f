import KernelFusion.Proofs.History

/-!
# What a request adds

A request that succeeds adds a function under the next number and appends records to the tables.
Which function that is, its number aside, is decided before the number is known. So a request is a
probe that finds an addition, followed by the addition. A step that does not use the name of an
added function does not notice the addition.
-/

namespace KernelFusion

/-- The function under another number. -/
def Function.numbered (f : Function) (id : FunctionId) : Function := { f with id := id }

/-- The emission of the same function under another number. -/
def Emission.numbered (e : Emission) (id : FunctionId) : Emission :=
  { e with function := e.function.numbered id }

/-- Append records to tables one after the other. -/
def Tables.appendAll (t : Tables) (records : List (String × String)) : Tables :=
  records.foldl (fun t r => t.append r.1 r.2) t

/-- A function and records to be added to a module. -/
structure Addition where
  /-- The function, which gets the next number of the module. -/
  function : Function
  /-- The records, each after the name of its table. -/
  records : List (String × String)
deriving DecidableEq

namespace Addition

/-- The module with the function and the records. -/
def apply (a : Addition) (m : Module) : Module :=
  { m.addNext (a.function.numbered m.nextFunction) with tables := m.tables.appendAll a.records }

/-- The records for one table. -/
def recordsOf (a : Addition) (table : String) : List String :=
  (a.records.filter (fun r => r.1 = table)).map (·.2)

end Addition

/-- The kernel of a plan and its two records. -/
def FusionPlan.addition (p : FusionPlan) (config : FusionConfig) : Addition where
  function := p.emit 0 config
  records := [(foreachNameTable, p.name), (foreachTable, p.signature.token)]

/-- A wrapper and its record. -/
def wrapperAddition (callee : Function) (name : String) (config : FusionConfig) : Addition where
  function := wrapper 0 name callee config
  records := [(invokableTable, name)]

/-- Find what the request adds. -/
def Request.find (config : FusionConfig) : Request → Attempt Addition
  | fuse chain name =>
    Attempt.andThen (FusionPlan.build chain name config) (fun p m => (.ok (p.addition config), m))
  | wrap target name =>
    Attempt.andThen (target.resolve name)
      (fun callee m => (.ok (wrapperAddition callee name config), m))

section Numbers

/-- A call is emitted without regard to the number of the function. -/
theorem Emission.call_numbered (e : Emission) (id callee : FunctionId) (args : List Register)
    (result : Ty) :
    (e.numbered id).call callee args result =
      ((e.call callee args result).1.numbered id, (e.call callee args result).2) := by
  cases h : result.isVoid with
  | true =>
    rw [call_void h, call_void h]
    rfl
  | false =>
    rw [call_value h, call_value h]
    rfl

theorem FusionPlan.emitCalls_numbered (p : FusionPlan) (calls : List PlannedCall)
    (current : Register) (e : Emission) (id : FunctionId) :
    p.emitCalls calls current (e.numbered id) =
      ((p.emitCalls calls current e).1.numbered id, (p.emitCalls calls current e).2) := by
  induction calls generalizing current e with
  | nil => rfl
  | cons c rest ih =>
    have hregister : p.register (e.numbered id) current = p.register e current := rfl
    rw [emitCalls, emitCalls, hregister, Emission.call_numbered]
    exact ih _ _

/-- The number does not matter for the rest of an emitted kernel. -/
theorem FusionPlan.emit_numbered (p : FusionPlan) (id : FunctionId) (config : FusionConfig) :
    p.emit id config = (p.emit 0 config).numbered id := by
  have hemission : p.emission id = ((p.emission 0).1.numbered id, (p.emission 0).2) :=
    p.emitCalls_numbered p.calls (p.binding .dataIn) (p.opening 0) id
  rw [emit_eq, emit_eq, hemission]
  rfl

/-- The number does not matter for the rest of a wrapper. -/
theorem wrapper_numbered (id : FunctionId) (name : String) (callee : Function)
    (config : FusionConfig) :
    wrapper id name callee config = (wrapper 0 name callee config).numbered id := by
  let start : Emission := .start 0 name
    (.ofParams (callee.prototype.params.map (fun p => (p.name, p.ty))) .void
      callee.prototype.convention) .pub
  have hcall := start.call_numbered id callee.id [start.param 0] callee.result
  exact congrArg (fun call => Emission.finish call.1 config.entryLabel none) hcall

/-- Committing a plan makes its addition. -/
theorem FusionPlan.apply_addition (p : FusionPlan) (config : FusionConfig) (m : Module) :
    (p.commit config m).2 = (p.addition config).apply m := by
  rw [commit_eq, emit_numbered]
  rfl

/-- Committing a wrapper makes its addition. -/
theorem apply_wrapperAddition (callee : Function) (name : String) (config : FusionConfig)
    (m : Module) :
    (commitWrapper callee name config m).2 = (wrapperAddition callee name config).apply m := by
  rw [commitWrapper_eq, wrapper_numbered]
  rfl

/-- A request finds an addition and makes it. -/
theorem Request.run_eq (config : FusionConfig) (r : Request) :
    r.run config =
      Attempt.andThen (r.find config) (fun a m => (.ok m.nextFunction, a.apply m)) := by
  funext m
  cases r with
  | fuse chain name =>
    simp only [run, find, fuse_eq]
    rcases h : FusionPlan.build chain name config m with ⟨e | plan, left⟩
    · simp only [Attempt.andThen, h]
      rfl
    · simp only [Attempt.andThen, h, ← plan.apply_addition]
      rfl
  | wrap target name =>
    simp only [run, find, wrapInvoke_eq]
    rcases h : target.resolve name m with ⟨e | callee, left⟩
    · simp only [Attempt.andThen, h]
    · simp only [Attempt.andThen, h, ← apply_wrapperAddition]
      rfl

/-- Finding what a request adds materializes the functions it names. -/
theorem Probes.find {view : Module} (hv : view.WellFormed) (hf : view.force = view)
    (r : Request) (config : FusionConfig) : Probes (r.find config) view r.entryNames := by
  rw [← List.append_nil r.entryNames]
  cases r with
  | fuse chain name =>
    exact andThen hv hf (build hv hf chain name config) (fun p _ => pure (.ok (p.addition config)))
  | wrap target name =>
    exact andThen hv hf (resolveInvokable hv hf target name)
      (fun callee _ => pure (.ok (wrapperAddition callee name config)))

/-- The function that is found has the name that the request gives. -/
theorem Request.name_find {r : Request} {config : FusionConfig} {m left : Module} {a : Addition}
    (hm : m.WellFormed) (h : r.find config m = (.ok a, left)) : a.function.name = r.name := by
  cases r with
  | fuse chain name =>
    obtain ⟨plan, mid, hplan, ha⟩ := Attempt.of_andThen_ok h
    cases ha
    exact (plan.emit_frame 0 config).2.1.trans (FusionPlan.build_built hm hplan).name
  | wrap target name =>
    obtain ⟨callee, mid, -, ha⟩ := Attempt.of_andThen_ok h
    cases ha
    exact (wrapper_frame 0 name callee config).2.1

end Numbers

namespace Tables

/-- Every table gets its own records. -/
theorem records_appendAll (t : Tables) (records : List (String × String)) (table : String) :
    (t.appendAll records).records table =
      t.records table ++ (records.filter (fun r => r.1 = table)).map (·.2) := by
  induction records generalizing t with
  | nil => exact (List.append_nil _).symm
  | cons r rest ih =>
    show ((t.append r.1 r.2).appendAll rest).records table = _
    rw [ih, records_append]
    by_cases h : r.1 = table <;> simp [h]

/-- Tables with records to append exist afterwards; of all others, those that existed. -/
theorem isSome_appendAll (t : Tables) (records : List (String × String)) (table : String) :
    ((t.appendAll records).get? table).isSome =
      ((t.get? table).isSome || records.any (fun r => r.1 = table)) := by
  induction records generalizing t with
  | nil => exact (Bool.or_false _).symm
  | cons r rest ih =>
    show (((t.append r.1 r.2).appendAll rest).get? table).isSome = _
    rw [ih, append, get?_put]
    by_cases h : r.1 = table <;> simp [h]

end Tables

namespace Addition

variable {a : Addition} {m : Module} {name : String}

theorem function?_apply (a : Addition) (m : Module) (id : FunctionId) :
    (a.apply m).function? id =
      if m.nextFunction = id then some (a.function.numbered m.nextFunction) else m.function? id :=
  Module.function?_addNext (m := m) rfl id

theorem nextFunction_apply (a : Addition) (m : Module) :
    (a.apply m).nextFunction = m.nextFunction + 1 :=
  Module.nextFunction_addNext (m := m) rfl

theorem records_apply (a : Addition) (m : Module) (table : String) :
    (a.apply m).records table = m.records table ++ a.recordsOf table :=
  m.tables.records_appendAll a.records table

theorem isSome_apply (a : Addition) (m : Module) (table : String) :
    ((a.apply m).tables.get? table).isSome =
      ((m.tables.get? table).isSome || a.records.any (fun r => r.1 = table)) :=
  m.tables.isSome_appendAll a.records table

variable (hm : m.WellFormed)

include hm

theorem whole?_apply (id : FunctionId) :
    (a.apply m).whole? id =
      if m.nextFunction = id then some (a.function.numbered m.nextFunction) else m.whole? id :=
  hm.whole?_addNext rfl id

variable (hroom : m.nextFunction.toNat + 1 < 2 ^ 32)

include hroom

theorem wellFormed_apply : (a.apply m).WellFormed := by
  have hadd : (m.addNext (a.function.numbered m.nextFunction)).WellFormed := hm.addNext rfl hroom
  exact ⟨hadd.function_id, hadd.pending_id, hadd.id_lt, hadd.declared⟩

variable (hname : name ≠ a.function.name)

include hname

/-- Every other name stands for what it stood for. -/
theorem idOf?_apply : (a.apply m).idOf? name = m.idOf? name := by
  cases hid : m.idOf? name with
  | some id => exact hm.idOf?_addNext rfl hroom hid
  | none =>
    refine Module.idOf?_eq_none_iff.mpr (fun id f hf => ?_)
    rw [function?_apply] at hf
    split at hf
    · cases hf
      exact Ne.symm hname
    · exact Module.idOf?_eq_none_iff.mp hid id f hf

/-- Another name can be materialized before or after the addition. -/
theorem materialize_apply : (a.apply m).materialize name = a.apply (m.materialize name) := by
  have hadded := wellFormed_apply (a := a) hm hroom
  obtain ⟨hmodule, htables, hnext⟩ := m.materialize_frame name
  obtain ⟨hmodule', htables', hnext'⟩ := (a.apply m).materialize_frame name
  have hid := idOf?_apply hm hroom hname
  refine Module.ext_lookup (hmodule'.trans hmodule.symm) (htables'.trans ?_) (hnext'.trans ?_)
    (fun id => ?_) (fun id => ?_)
  · show m.tables.appendAll a.records = (m.materialize name).tables.appendAll a.records
    rw [htables]
  · rw [nextFunction_apply, nextFunction_apply, hnext]
  · rw [hadded.function?_materialize, hid, whole?_apply hm, function?_apply, function?_apply, hnext,
      hm.function?_materialize]
    by_cases he : m.nextFunction = id
    · simp only [if_pos he, ite_self]
    · simp only [if_neg he]
  · show _ = (m.materialize name).pending.get? id
    rw [Module.pending_materialize, Module.pending_materialize, hid]
    rfl

/-- Another name stands for the same function once it is materialized. -/
theorem callable?_force_apply : (a.apply m).force.callable? name = m.force.callable? name := by
  refine Option.ext (fun f => ?_)
  rw [(wellFormed_apply hm hroom).callable?_force_iff, hm.callable?_force_iff,
    idOf?_apply hm hroom hname, whole?_apply hm]
  refine and_congr_right (fun hid => ?_)
  have hlt := hm.idOf?_lt hid
  rw [if_neg (fun he => absurd (he ▸ hlt) (UInt32.lt_irrefl _))]

end Addition

end KernelFusion

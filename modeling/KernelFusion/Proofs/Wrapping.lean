import KernelFusion.Proofs.Discovery
import KernelFusion.Proofs.Effect
import KernelFusion.Proofs.Fusibility
import KernelFusion.Proofs.Validity

/-!
# The effect of a wrapping

A wrapping succeeds exactly if its slot names a function of the destination that takes one argument
and the name of the wrapper is free. What it adds then is one valid function of one block, which
passes its argument on to the wrapped function and returns nothing, and one record in the table of
invokable functions; the wrapped function has its body in place, and nothing else changes.
-/

namespace KernelFusion

/-- The function `f` can be wrapped under a name: it is what the slot stands for in the
destination. -/
structure InvokableSlot.WrappableInto (target : InvokableSlot) (dest : Module) (name : String)
    (entry : String) (f : Function) : Prop where
  /-- The export tables of the slot's module can be read. -/
  tables : ∃ tables, target.module.exports = .ok tables
  /-- The entry is the one in the slot. -/
  slot : (target.module.records invokableTable)[target.slot]? = some entry
  /-- It is not empty. -/
  used : entry ≠ ""
  /-- No function has the name. -/
  free : ∀ id g, dest.function? id = some g → g.name ≠ name
  /-- The entry stands for the function, with its body if one is pending. -/
  symbol : dest.lookup? entry = some f
  /-- The function takes one argument. -/
  unary : f.prototype.params.length = 1

/-- The function `w` passes its argument on to `f` and returns nothing. -/
structure Function.PassesOn (w f : Function) (label : String) (p : Parameter)
    (result : Option Register) : Prop where
  /-- The parameter is the one of `f`. -/
  param : f.prototype.params = [p]
  /-- It is the only one of `w`, in the first register; there is no result, and `w` is called like
  `f`. -/
  prototype : w.prototype = ⟨[⟨p.name, p.ty, 0⟩], .void, f.prototype.convention⟩
  /-- Everyone can call the function. -/
  attributes : w.attributes = ⟨.pub, false⟩
  /-- The only block is labelled, calls `f` with the parameter and returns. -/
  block : w.graph.entry = 0 ∧ w.graph.blocks.entries =
    [(0, ⟨0, some label, [.call result f.id [0]], .ret none, []⟩)]
  /-- The call binds a result exactly if there is one. -/
  bound : result.isSome = true ↔ f.result.isVoid = false
  /-- The types of the parameter and of the result are recorded, and no others. -/
  types : ∀ r ty, w.registerTypes.get? r = some ty ↔
    r = 0 ∧ ty = p.ty ∨ result = some r ∧ ty = f.result
  /-- The result has a register of its own. -/
  fresh : result ≠ some 0

/-- A wrapper of a function with one parameter passes its argument on. -/
theorem wrapper_passesOn (id : FunctionId) (name : String) {callee : Function}
    (config : FusionConfig) (h : callee.prototype.params.length = 1) :
    ∃ p result, (wrapper id name callee config).PassesOn callee config.entryLabel p result := by
  obtain ⟨p, hp⟩ := List.length_eq_one_iff.mp h
  let start : Emission :=
    .start id name (.ofParams [(p.name, p.ty)] .void callee.prototype.convention) .pub
  have hwrapper : wrapper id name callee config =
      (start.call callee.id [0] callee.result).1.finish config.entryLabel none := by
    unfold wrapper
    rw [hp]
    rfl
  have hparam (r : Register) (ty : Ty) :
      start.function.registerTypes.get? r = some ty ↔ r = 0 ∧ ty = p.ty := by
    have htypes : start.function.registerTypes.get? r = if 0 = r then some p.ty else none :=
      IdMap.get?_insert .empty 0 r p.ty
    rw [htypes, Option.ite_none_right_eq_some, Option.some.injEq]
    exact and_congr eq_comm eq_comm
  cases hvoid : callee.result.isVoid with
  | true =>
    rw [hwrapper, Emission.call_void hvoid]
    exact ⟨p, none, hp, rfl, rfl, ⟨rfl, rfl⟩, by simp [hvoid],
      fun r ty => (hparam r ty).trans (by simp), by simp⟩
  | false =>
    rw [hwrapper, Emission.call_value hvoid]
    refine ⟨p, some 1, hp, rfl, rfl, ⟨rfl, rfl⟩, by simp [hvoid], fun r ty => ?_, by decide⟩
    show (start.function.registerTypes.insert 1 callee.result).get? r = some ty ↔ _
    rw [IdMap.get?_insert]
    by_cases hr : 1 = r
    · subst hr
      simp [eq_comm]
    · rw [if_neg hr, hparam]
      simp [hr]

/-- Passing an argument on is valid where the function that is called is stored. -/
theorem Function.PassesOn.errors_eq_nil {m : Module} {w f : Function} {label : String}
    {p : Parameter} {result : Option Register} (h : w.PassesOn f label p result)
    (hf : m.function? f.id = some f) : w.errors m = [] := by
  have hbound : result.isSome = !f.result.isVoid := by
    rw [Bool.eq_iff_iff, h.bound, Bool.not_eq_true']
  have hcall : Validation.call m result f.id [0] = [] :=
    Validation.call_eq_nil_iff.mpr ⟨f, hf, by rw [h.param]; rfl, hbound⟩
  have hnew : ∀ r, result = some r → r ∉ [0] := by
    rintro r hr hmem
    rw [List.mem_singleton.mp hmem] at hr
    exact h.fresh hr
  have hbody : Validation.instruction m [0] (.call result f.id [0]) =
      ([], result.toList ++ [0]) :=
    Validation.instruction_call (List.Subset.refl _) hcall hnew
  simp [Function.errors, Function.result, h.prototype, IdMap.values, h.block.2, Validation.define,
    Validation.blocks, Validation.block, Validation.instructions, hbody, Validation.terminator,
    Validation.ret, Ty.isVoid]

namespace InvokableSlot

variable {target : InvokableSlot} {dest : Module} {name entry : String} {f : Function}

/-- The name in a slot is that of the table, if all tables can be read. -/
theorem name_eq_ok_iff : target.name = .ok entry ↔
    (∃ tables, target.module.exports = .ok tables) ∧
      (target.module.records invokableTable)[target.slot]? = some entry := by
  unfold InvokableSlot.name
  rcases hm : target.module.exports with e | tables
  · simp
  · rw [← Module.invokable_of_exports hm]
    cases hslot : tables.invokable[target.slot]? <;> simp [hslot]

/-- A wrapping that can be made adds the wrapper of the function that the entry stands for. -/
theorem WrappableInto.adds (h : target.WrappableInto dest name entry f) (hd : dest.WellFormed)
    (config : FusionConfig) :
    wrapInvoke target name config dest =
      (.ok dest.nextFunction, (wrapperAddition f name config).apply (dest.materialize entry)) := by
  have hname : target.name = .ok entry := name_eq_ok_iff.mpr ⟨h.tables, h.slot⟩
  have hfree : dest.hasSymbol name = false := Module.hasSymbol_eq_false_iff.mpr h.free
  have hentry : (dest.materialize entry).callable? entry = some f := by
    rw [hd.callable?_materialize, hd.callable?_force, h.symbol]
  have hnext : (dest.materialize entry).nextFunction = dest.nextFunction :=
    (dest.materialize_frame entry).2.2
  rw [← hnext, ← apply_wrapperAddition]
  simp only [wrapInvoke, hname, if_neg h.used, hfree, Bool.false_eq_true, if_false, hentry,
    if_pos h.unary]
  rfl

/-- A wrapping succeeds if some function can be wrapped. -/
theorem wrappableInto_iff (hd : dest.WellFormed) (config : FusionConfig) :
    (∃ id, (wrapInvoke target name config dest).1 = .ok id) ↔
      ∃ entry f, target.WrappableInto dest name entry f := by
  constructor
  · rw [wrap_succeeds_iff hd]
    rintro ⟨hfree, entry, f, hname, hused, hentry, hunary⟩
    obtain ⟨htables, hslot⟩ := name_eq_ok_iff.mp hname
    rw [hd.callable?_force] at hentry
    exact ⟨entry, f, htables, hslot, hused, Module.hasSymbol_eq_false_iff.mp hfree, hentry, hunary⟩
  · rintro ⟨entry, f, h⟩
    exact ⟨_, congrArg Prod.fst (h.adds hd config)⟩

end InvokableSlot

/-- What a name stood for is stored whole where the name was materialized. -/
theorem Module.Gains.function?_of_lookup? {dest left : Module} {names : List String}
    {w f : Function} {entry : String} (h : dest.Gains left names w) (hd : dest.WellFormed)
    (hentry : entry ∈ names) (hf : dest.lookup? entry = some f) :
    left.function? f.id = some f := by
  obtain ⟨id, hid, hwhole⟩ := Option.bind_eq_some_iff.mp hf
  obtain rfl := hd.whole?_id hwhole
  have hne : w.id ≠ f.id := by
    rw [h.number]
    exact (UInt32.ne_of_lt (hd.idOf?_lt hid)).symm
  rw [h.stored, if_neg hne, if_pos ⟨entry, hentry, hid⟩, hwhole]

/-- A wrapping succeeds exactly if the slot names a function of the destination that takes one
argument and the name is free. Then it changes what it should and nothing else. The body of the
function, if it is pending, is moved over its declaration; one valid function with the name, which
passes its argument on to that function, is stored under the next number, which was not in use; and
the name is appended to the table of invokable functions. -/
theorem wrap_effect {dest : Module} (hd : dest.WellFormed)
    (hroom : dest.nextFunction.toNat + 1 < 2 ^ 32) (target : InvokableSlot) (name : String)
    (config : FusionConfig) :
    ((∃ id, (wrapInvoke target name config dest).1 = .ok id) ↔
      ∃ entry f, target.WrappableInto dest name entry f) ∧
    ∀ id left, wrapInvoke target name config dest = (.ok id, left) →
      ∃ entry f w p result, target.WrappableInto dest name entry f ∧
        w.PassesOn f config.entryLabel p result ∧ w.name = name ∧ w.id = id ∧
        dest.Gains left [entry] w ∧ w.errors left = [] ∧
        left.tables = dest.tables.append invokableTable name ∧
        left.records invokableTable = dest.records invokableTable ++ [name] ∧
        ∀ table, table ≠ invokableTable → left.tables.get? table = dest.tables.get? table := by
  refine ⟨InvokableSlot.wrappableInto_iff hd config, fun id left h => ?_⟩
  obtain ⟨entry, f, hwraps⟩ :=
    (InvokableSlot.wrappableInto_iff hd config).mp ⟨id, congrArg Prod.fst h⟩
  obtain ⟨p, result, hpasses⟩ := wrapper_passesOn dest.nextFunction name config hwraps.unary
  have hgains : dest.Gains ((wrapperAddition f name config).apply (dest.materialize entry)) [entry]
      (wrapper dest.nextFunction name f config) := by
    rw [wrapper_numbered]
    exact (wrapperAddition f name config).gains [entry] hd hroom
  have hstored := hgains.function?_of_lookup? hd (List.mem_singleton_self entry) hwraps.symbol
  have htables : ((wrapperAddition f name config).apply (dest.materialize entry)).tables =
      dest.tables.append invokableTable name := by
    rw [← (dest.materialize_frame entry).2.1]
    rfl
  obtain ⟨hid, hname, -⟩ := wrapper_frame dest.nextFunction name f config
  cases (hwraps.adds hd config).symm.trans h
  refine ⟨entry, f, _, p, result, hwraps, hpasses, hname, hid, hgains,
    hpasses.errors_eq_nil hstored, htables, ?_, fun table ht => ?_⟩
  · rw [Module.records, htables, Tables.records_append, if_pos rfl]
    rfl
  · rw [htables, Tables.append, Tables.get?_put, if_neg (Ne.symm ht)]

/-- The second sample module's invokable function has a result, which its wrapper drops; of all
bodies only this one is moved. Under the name of a kernel it cannot be wrapped. -/
theorem wrap_effect_reset :
    (∃ left entry f w p result,
      wrapInvoke ⟨Samples.extra, 0⟩ "restart" .standard Samples.merged = (.ok 10, left) ∧
      InvokableSlot.WrappableInto ⟨Samples.extra, 0⟩ Samples.merged "restart" entry f ∧
      w.PassesOn f "entry" p result ∧ w.name = "restart" ∧ Samples.merged.Gains left [entry] w ∧
      w.errors left = [] ∧ left.records invokableTable = ["restart"] ∧
      left.pending.keys = [0, 1, 2, 3, 4, 5, 6, 7, 8]) ∧
    ¬∃ entry f, InvokableSlot.WrappableInto ⟨Samples.extra, 0⟩ Samples.merged "offset" entry f := by
  have hd : Samples.merged.WellFormed := by decide +kernel
  have hroom : Samples.merged.nextFunction.toNat + 1 < 2 ^ 32 := by decide +kernel
  have hwrapped : (wrapInvoke ⟨Samples.extra, 0⟩ "restart" .standard Samples.merged).1 =
      .ok 10 := by decide +kernel
  have htaken : (wrapInvoke ⟨Samples.extra, 0⟩ "offset" .standard Samples.merged).1 =
      .error (.nameCollision "offset" "merged") := by decide +kernel
  constructor
  · obtain ⟨entry, f, w, p, result, hwraps, hpasses, hname, -, hgains, hvalid, -, hrecords, -⟩ :=
      (wrap_effect hd hroom ⟨Samples.extra, 0⟩ "restart" .standard).2 10 _ (Prod.ext hwrapped rfl)
    refine ⟨_, entry, f, w, p, result, Prod.ext hwrapped rfl, hwraps, hpasses, hname, hgains,
      hvalid, hrecords.trans ?_, ?_⟩
    all_goals decide +kernel
  · rw [← (wrap_effect hd hroom ⟨Samples.extra, 0⟩ "offset" .standard).1, htaken]
    rintro ⟨id, hid⟩
    cases hid

end KernelFusion

import KernelFusion.Proofs.Emission
import KernelFusion.Proofs.Request

/-!
# Commits

A fusion and a wrapping both end with a commit: a function with a body and a new name is stored
under the next number, and its name is recorded in a table. All other functions and all pending
bodies stay, names keep their numbers, and the new name stands for the new function.
-/

namespace KernelFusion

/-- Number, name and body of a wrapper. -/
theorem wrapper_frame (id : FunctionId) (name : String) (callee : Function)
    (config : FusionConfig) :
    (wrapper id name callee config).id = id ∧ (wrapper id name callee config).name = name ∧
      (wrapper id name callee config).isDeclaration = false := by
  let start : Emission := .start id name
    (.ofParams (callee.prototype.params.map (fun p => (p.name, p.ty))) .void
      callee.prototype.convention) .pub
  have hframe := Emission.sameFrame_call start callee.id [start.param 0] callee.result
  have hentry := (Emission.entry_finish hframe.graph config.entryLabel none).2
  refine ⟨hframe.id, hframe.name, ?_⟩
  show List.isEmpty (wrapper id name callee config).graph.blocks.entries = false
  exact (congrArg List.isEmpty hentry).trans rfl

/-- A wrapper has as many parameters as the function that it calls. -/
theorem wrapper_params (id : FunctionId) (name : String) (callee : Function)
    (config : FusionConfig) :
    (wrapper id name callee config).prototype.params.length =
      callee.prototype.params.length := by
  let start : Emission := .start id name
    (.ofParams (callee.prototype.params.map (fun p => (p.name, p.ty))) .void
      callee.prototype.convention) .pub
  have hframe := Emission.sameFrame_call start callee.id [start.param 0] callee.result
  calc (wrapper id name callee config).prototype.params.length
    _ = start.function.prototype.params.length :=
        congrArg (fun prototype => prototype.params.length) hframe.prototype
    _ = callee.prototype.params.length := by
        rw [Emission.start_params, length_numberParams, List.length_map, List.length_map]

/-- An emitted kernel has a body. -/
theorem FusionPlan.isDeclaration_emit (p : FusionPlan) (id : FunctionId) (config : FusionConfig) :
    (p.emit id config).isDeclaration = false := by
  rw [emit_eq]
  have hentry := Emission.entry_finish (p.sameFrame_emission id).graph config.entryLabel
    (if p.result.isVoid then none else some (p.emission id).2)
  exact (congrArg List.isEmpty hentry.2).trans rfl

namespace Module

/-- Store a function under the next number. -/
def addNext (m : Module) (f : Function) : Module := m.allocFunction.1.add f

variable {m : Module} {f : Function} {name : String} {id : FunctionId}

theorem function?_addNext (hf : f.id = m.nextFunction) (id : FunctionId) :
    (m.addNext f).function? id = if m.nextFunction = id then some f else m.function? id := by
  rw [← hf]
  exact IdMap.get?_insert _ _ _ _

/-- A function that is stored under the next number is found under its number. -/
theorem function?_addNext_self (hf : f.id = m.nextFunction) :
    (m.addNext f).function? f.id = some f := by
  rw [function?_addNext hf, if_pos hf.symm]

theorem nextFunction_addNext (hf : f.id = m.nextFunction) :
    (m.addNext f).nextFunction = m.nextFunction + 1 := by
  show max (m.nextFunction + 1) (f.id + 1) = m.nextFunction + 1
  rw [hf]
  exact if_pos UInt32.le_rfl

namespace WellFormed

/-- No body is pending under the next number. -/
theorem pending_next (hm : m.WellFormed) : m.pending.get? m.nextFunction = none :=
  hm.pending_of_none (hm.function?_of_le UInt32.le_rfl)

/-- What is stored stands whole under the next number; all else is as before. -/
theorem whole?_addNext (hm : m.WellFormed) (hf : f.id = m.nextFunction) (id : FunctionId) :
    (m.addNext f).whole? id = if m.nextFunction = id then some f else m.whole? id := by
  have hstored := function?_addNext (m := m) hf id
  by_cases he : m.nextFunction = id
  · have hnone : (m.addNext f).pending.get? id = none := he ▸ hm.pending_next
    rw [if_pos he, whole?_of_pending_none hnone, hstored, if_pos he]
  · rw [if_neg he]
    exact whole?_congr (hstored.trans (if_neg he)) rfl

/-- Storing a function and forcing can be done in any order. -/
theorem force_addNext (hm : m.WellFormed) (hf : f.id = m.nextFunction) :
    (m.addNext f).force = m.force.addNext f := by
  refine ext_lookup rfl rfl rfl (fun id => ?_) (fun _ => rfl)
  rw [function?_force, hm.whole?_addNext hf, function?_addNext (m := m.force) hf, function?_force]
  rfl

variable (hm : m.WellFormed) (hf : f.id = m.nextFunction)
  (hroom : m.nextFunction.toNat + 1 < 2 ^ 32)

include hroom in
theorem next_lt : m.nextFunction < m.nextFunction + 1 := lt_add_one_of_room hroom

include hm hf hroom

/-- Numbers stay consistent while there are numbers left. -/
theorem addNext : (m.addNext f).WellFormed where
  function_id := by
    intro id g hg
    rw [function?_addNext hf] at hg
    split at hg
    next he =>
      cases hg
      exact hf.trans he
    next => exact hm.function_id hg
  pending_id hp := hm.pending_id hp
  id_lt := by
    intro id g hg
    rw [nextFunction_addNext hf]
    have hlt := next_lt hroom
    rw [function?_addNext hf] at hg
    split at hg
    next he => exact he ▸ hlt
    next => exact UInt32.lt_trans (hm.id_lt hg) hlt
  declared := by
    intro id body hb
    obtain ⟨declared, hdeclared, hrest⟩ := hm.declared hb
    refine ⟨declared, ?_, hrest⟩
    rw [function?_addNext hf, if_neg]
    · exact hdeclared
    · intro he
      exact absurd (he ▸ hm.id_lt hdeclared) (UInt32.lt_irrefl _)

/-- A name keeps its number. -/
theorem idOf?_addNext (hid : m.idOf? name = some id) : (m.addNext f).idOf? name = some id := by
  obtain ⟨⟨g, hg, hname⟩, hleast⟩ := hm.idOf?_eq_some_iff.mp hid
  have hlt := hm.id_lt hg
  refine (hm.addNext hf hroom).idOf?_eq_some_iff.mpr ⟨⟨g, ?_, hname⟩, fun j k hk hkname => ?_⟩
  · rw [function?_addNext hf, if_neg]
    · exact hg
    · intro he
      exact absurd (he ▸ hlt) (UInt32.lt_irrefl _)
  · rw [function?_addNext hf] at hk
    split at hk
    next he => exact he ▸ UInt32.le_of_lt hlt
    next => exact hleast j k hk hkname

/-- A new name stands for the function that is stored. -/
theorem idOf?_addNext_self (hnew : m.idOf? f.name = none) :
    (m.addNext f).idOf? f.name = some m.nextFunction := by
  refine (hm.addNext hf hroom).idOf?_eq_some_iff.mpr
    ⟨⟨f, ?_, rfl⟩, fun j g hg hname => ?_⟩
  · rw [function?_addNext hf, if_pos rfl]
  · rw [function?_addNext hf] at hg
    split at hg
    next he => exact he ▸ UInt32.le_rfl
    next => exact absurd hname (idOf?_eq_none_iff.mp hnew j g hg)

end WellFormed

end Module

/-- Committing a plan stores the kernel under the next number and records it. -/
theorem FusionPlan.commit_eq (p : FusionPlan) (config : FusionConfig) (m : Module) :
    p.commit config m = (⟨m.nextFunction, p.name, p.signature, p.calls.length⟩,
      (m.addNext (p.emit m.nextFunction config)).exportForeach p.name p.signature) := rfl

/-- Committing a wrapper stores it under the next number and records it. -/
theorem commitWrapper_eq (callee : Function) (name : String) (config : FusionConfig) (m : Module) :
    commitWrapper callee name config m = (m.nextFunction,
      (m.addNext (wrapper m.nextFunction name callee config)).exportInvokable name) := rfl

end KernelFusion

import KernelFusion.Proofs.Addition
import KernelFusion.Proofs.Assembly

/-!
# The effect of a fusion

A fusion that succeeds leaves the module it was given but for three things: the entry points of its
stages are whole, a function with the name of the kernel stands under the next number, and the name
and the signature of the kernel were appended to the tables of kernels. Its plan decides which
function and which records these are; that nothing else changes is seen by looking at every number
and every table.
-/

namespace KernelFusion

/-- `left` is `dest` after the pending bodies of some names were moved over their declarations and
`f` was stored under the next number; the tables apart. -/
structure Module.Gains (dest left : Module) (names : List String) (f : Function) : Prop where
  /-- The name of the module is kept. -/
  name : left.name = dest.name
  /-- The function has the next number. -/
  number : f.id = dest.nextFunction
  /-- No function and no pending body had it. -/
  unused : dest.function? f.id = none ∧ dest.pending.get? f.id = none
  /-- One number was taken. -/
  next : left.nextFunction.toNat = dest.nextFunction.toNat + 1
  /-- The function is there, the functions of the names are whole, and all others are as before. -/
  stored : ∀ id, left.function? id =
    if f.id = id then some f
    else if ∃ n ∈ names, dest.idOf? n = some id then dest.whole? id
    else dest.function? id
  /-- The names have no pending bodies, and all other pending bodies are as before. -/
  pending : ∀ id, left.pending.get? id =
    if ∃ n ∈ names, dest.idOf? n = some id then none else dest.pending.get? id

namespace Module

variable {dest left : Module} {names : List String} {f : Function}

/-- As a whole, the functions are those of before and the new one. -/
theorem Gains.whole?_eq (h : dest.Gains left names f) (id : FunctionId) :
    left.whole? id = if f.id = id then some f else dest.whole? id := by
  by_cases hid : f.id = id
  · have hnone : left.pending.get? id = none := by rw [h.pending, ← hid, h.unused.2, ite_self]
    rw [whole?_of_pending_none hnone, h.stored, if_pos hid, if_pos hid]
  · rw [if_neg hid]
    by_cases hnamed : ∃ n ∈ names, dest.idOf? n = some id
    · have hnone : left.pending.get? id = none := by rw [h.pending, if_pos hnamed]
      rw [whole?_of_pending_none hnone, h.stored, if_neg hid, if_pos hnamed]
    · refine whole?_congr ?_ ?_
      · rw [h.stored, if_neg hid, if_neg hnamed]
      · rw [h.pending, if_neg hnamed]

/-- Names stay distinct if the function has a new one. -/
theorem Gains.distinctNames (h : dest.Gains left names f) (hd : dest.WellFormed)
    (hnew : dest.idOf? f.name = none) (hnames : dest.DistinctNames) : left.DistinctNames := by
  -- A function is the new one, or it was there before and so has another name.
  have hcases : ∀ id g, left.whole? id = some g →
      (f.id = id ∧ f = g) ∨ (dest.whole? id = some g ∧ f.name ≠ g.name) := by
    intro id g hg
    rw [h.whole?_eq] at hg
    split at hg
    next hid => exact Or.inl ⟨hid, Option.some.inj hg⟩
    next =>
      have hname : (dest.function? id).map (·.name) = some g.name := by
        rw [← hd.whole?_name, hg, Option.map_some]
      obtain ⟨declared, hdeclared, he⟩ := Option.map_eq_some_iff.mp hname
      exact Or.inr ⟨hg, fun hsame =>
        idOf?_eq_none_iff.mp hnew id declared hdeclared (he.trans hsame.symm)⟩
  intro i j g k hg hk hsame
  rcases hcases i g hg with ⟨rfl, rfl⟩ | ⟨hg, hfg⟩
  · rcases hcases j k hk with ⟨rfl, -⟩ | ⟨-, hfk⟩
    · rfl
    · exact absurd hsame hfk
  · rcases hcases j k hk with ⟨-, rfl⟩ | ⟨hk, -⟩
    · exact absurd hsame.symm hfg
    · exact hnames i j g k hg hk hsame

end Module

/-- An addition to a module of which some names were materialized gains the function. -/
theorem Addition.gains {dest : Module} (a : Addition) (names : List String)
    (hd : dest.WellFormed) (hroom : dest.nextFunction.toNat + 1 < 2 ^ 32) :
    dest.Gains (a.apply (dest.materializeAll names)) names
      (a.function.numbered dest.nextFunction) := by
  obtain ⟨hname, -, hnext⟩ := dest.materializeAll_frame names
  refine ⟨hname, rfl, ⟨hd.function?_of_le UInt32.le_rfl, hd.pending_next⟩, ?_, fun id => ?_,
    fun id => hd.pending_materializeAll names id⟩
  · rw [nextFunction_apply, hnext, UInt32.toNat_add, UInt32.toNat_one, Nat.mod_eq_of_lt hroom]
  · have hnumber : (a.function.numbered dest.nextFunction).id = dest.nextFunction := rfl
    rw [function?_apply, hnext, hnumber, hd.function?_materializeAll_eq]

/-- A fusion that succeeds makes the addition of its plan to the module with the entry points of the
chain materialized. -/
theorem fuse_adds {dest left : Module} {chain : Chain} {name : String} {config : FusionConfig}
    {kernel : FusedKernel} (hd : dest.WellFormed)
    (h : fuse chain name config dest = (.ok kernel, left)) :
    ∃ plan : FusionPlan, plan.Built dest.force chain name config ∧
      kernel = ⟨dest.nextFunction, plan.name, plan.signature, plan.calls.length⟩ ∧
      left = (plan.addition config).apply (dest.materializeAll chain.entryNames) := by
  obtain ⟨plan, mid, hbuild, hbuilt, hcommit⟩ := fuse_ok hd h
  have hprobe := Probes.build hd.force (Module.force_force dest) chain name config
  obtain ⟨-, rfl⟩ := hprobe.left_eq hd hbuild
  refine ⟨plan, hbuilt, ?_, ?_⟩
  · rw [plan.commit_eq, (dest.materializeAll_frame chain.entryNames).2.2] at hcommit
    exact (congrArg Prod.fst hcommit).symm
  · rw [← plan.apply_addition, hcommit]

/-- A fusion that succeeds changes what it should and nothing else. Bodies that are pending for the
entry points of the stages are moved over their declarations, one function with a body and a new
name is stored under the next number, which was not in use, and the name and the token of the merged
signature are appended to the two tables of kernels. All other functions, pending bodies and tables
and the name of the module are kept. So names stay distinct, and the two tables stay equally long.
-/
theorem fuse_effect {dest left : Module} {chain : Chain} {name : String} {config : FusionConfig}
    {kernel : FusedKernel} (hd : dest.WellFormed)
    (hroom : dest.nextFunction.toNat + 1 < 2 ^ 32)
    (h : fuse chain name config dest = (.ok kernel, left)) :
    (∃ f, dest.Gains left chain.entryNames f ∧ f.id = kernel.id ∧ f.name = name ∧
      f.isDeclaration = false) ∧
    chain.reconcile = .ok kernel.signature ∧
    left.tables = (dest.tables.append foreachNameTable name).append foreachTable
      kernel.signature.token ∧
    left.records foreachNameTable = dest.records foreachNameTable ++ [name] ∧
    left.records foreachTable = dest.records foreachTable ++ [kernel.signature.token] ∧
    (∀ table, table ≠ foreachNameTable → table ≠ foreachTable →
      left.tables.get? table = dest.tables.get? table) ∧
    (dest.DistinctNames → left.DistinctNames) ∧
    ((dest.records foreachNameTable).length = (dest.records foreachTable).length →
      (left.records foreachNameTable).length = (left.records foreachTable).length) := by
  obtain ⟨plan, hbuilt, rfl, rfl⟩ := fuse_adds hd h
  have hgains := (plan.addition config).gains chain.entryNames hd hroom
  have hname : (plan.addition config).function.name = name :=
    (plan.emit_frame 0 config).2.1.trans hbuilt.name
  have htables : ((plan.addition config).apply (dest.materializeAll chain.entryNames)).tables =
      (dest.tables.append foreachNameTable name).append foreachTable plan.signature.token := by
    rw [← hbuilt.name, ← (dest.materializeAll_frame chain.entryNames).2.1]
    rfl
  obtain ⟨hnames, htokens, -⟩ := dest.records_exportForeach name plan.signature
  have hfree : dest.idOf? name = none := by
    have hsymbol := hbuilt.free
    rw [Module.hasSymbol, hd.idOf?_force] at hsymbol
    simpa using hsymbol
  have hrecords : ∀ table, ((plan.addition config).apply
      (dest.materializeAll chain.entryNames)).records table =
        (dest.exportForeach name plan.signature).records table := by
    intro table
    rw [Module.records, htables]
    rfl
  refine ⟨⟨_, hgains, rfl, hname, plan.isDeclaration_emit 0 config⟩, hbuilt.signature, htables,
    (hrecords _).trans hnames, (hrecords _).trans htokens, fun table hn ht => ?_,
    hgains.distinctNames hd (hname ▸ hfree), fun hlength => ?_⟩
  · rw [htables, Tables.append, Tables.get?_put, if_neg (Ne.symm ht), Tables.append,
      Tables.get?_put, if_neg (Ne.symm hn)]
  · rw [hrecords, hrecords, hnames, htokens, List.length_append, List.length_append, hlength]
    rfl

/-- Add one, scale by x, add one again. -/
def Samples.twice : Chain := ⟨[⟨image, 1⟩, ⟨image, 0⟩, ⟨image, 1⟩], by simp⟩

/-- The linked modules with the body of one kernel in place. -/
def Samples.opened : Module := merged.materialize "offset"

/-- A chain that uses this kernel twice moves the body of its other kernel; that of the third kernel
stays pending, as do all others. -/
theorem fuse_effect_twice :
    ∃ kernel left f, fuse Samples.twice "twice" .standard Samples.opened = (.ok kernel, left) ∧
      Samples.opened.Gains left ["offset", "scale_x", "offset"] f ∧ f.id = kernel.id ∧
      f.name = "twice" ∧ Samples.opened.pending.keys = [0, 2, 3, 4, 5, 6, 7, 8, 9] ∧
      left.pending.keys = [2, 3, 4, 5, 6, 7, 8, 9] ∧
      left.records foreachNameTable = ["twice"] ∧ left.records foreachTable = ["43"] ∧
      left.DistinctNames := by
  have hd : Samples.opened.WellFormed := by decide +kernel
  have hroom : Samples.opened.nextFunction.toNat + 1 < 2 ^ 32 := by decide +kernel
  have hentries : Samples.twice.entryNames = ["offset", "scale_x", "offset"] := by decide +kernel
  have hkernel : (fuse Samples.twice "twice" .standard Samples.opened).1 =
      .ok ⟨10, "twice", ⟨0x2b⟩, 3⟩ := by decide +kernel
  have h : fuse Samples.twice "twice" .standard Samples.opened = (.ok ⟨10, "twice", ⟨0x2b⟩, 3⟩,
      (fuse Samples.twice "twice" .standard Samples.opened).2) := Prod.ext hkernel rfl
  obtain ⟨⟨f, hgains, hid, hname, -⟩, -, -, hnames, htokens, -, hdistinct, -⟩ :=
    fuse_effect hd hroom h
  refine ⟨_, _, f, h, hentries ▸ hgains, hid, hname, ?_, ?_, hnames.trans ?_, htokens.trans ?_,
    hdistinct ?_⟩
  all_goals decide +kernel

end KernelFusion

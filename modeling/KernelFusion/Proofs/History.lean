import KernelFusion.Proofs.Commit
import KernelFusion.Proofs.ExportTables
import KernelFusion.Proofs.Failure
import KernelFusion.Proofs.Growth
import KernelFusion.Proofs.Planning

/-!
# Runs of requests, materializations and links

A run takes steps of any kind in any order, some of which may fail. A step moves pending bodies over
their declarations, adds what a link brings in, or commits one function. So after a run the export
tables hold what was committed, in order, every committed name still stands for the very function
that was committed, and the tables can be read.
-/

namespace KernelFusion

/-- The name that a request gives to its function. -/
def Request.name : Request → String
  | fuse _ name => name
  | wrap _ name => name

/-- Record the function of a request in the export tables. -/
def Request.record : Request → Module → Module
  | fuse chain name, m =>
    match chain.reconcile with
    | .ok s => m.exportForeach name s
    | .error _ => m
  | wrap _ name, m => m.exportInvokable name

/-- The function of a fusion has the parameters of the merged signature. -/
def Request.Shapes : Request → Function → Prop
  | fuse chain _, f => ∃ s, chain.reconcile = .ok s ∧
    f.prototype.params.length = s.inputs + s.coordinates.length
  | wrap _ _, _ => True

/-- A request that succeeded, with the number of its function. -/
structure Commit where
  /-- The request. -/
  request : Request
  /-- The number of the function. -/
  id : FunctionId

namespace Commit

/-- The name of the function. -/
def name (c : Commit) : String := c.request.name

/-- The name and the merged signature, if the function is a fused kernel. -/
def kernel? (c : Commit) : Option (String × KernelSignature) :=
  match c.request with
  | .fuse chain name => chain.reconcile.toOption.map (name, ·)
  | .wrap _ _ => none

/-- The name, if the function is a wrapper. -/
def wrapper? (c : Commit) : Option String :=
  match c.request with
  | .fuse _ _ => none
  | .wrap _ name => some name

end Commit

/-- A step of a run. -/
inductive Action where
  /-- Fuse a chain or wrap an invokable function. -/
  | request (config : FusionConfig) (r : Request)
  /-- Materialize a name. -/
  | materialize (name : String)
  /-- Link a source. -/
  | link (source : Module)

/-- What the step commits, if anything, and the module that is left. -/
def Action.run : Action → Module → Option Commit × Module
  | request config r, m =>
    let (answer, left) := r.run config m
    (answer.toOption.map (⟨r, ·⟩), left)
  | materialize name, m => (none, m.materialize name)
  | link source, m => (none, (m.linkInto source).2)

/-- The number of function numbers that the step takes. -/
def Action.taken : Action → Module → Nat
  | request config r, m =>
    match (r.run config m).1 with
    | .ok _ => 1
    | .error _ => 0
  | materialize _, _ => 0
  | link source, m =>
    match (m.linkInto source).1 with
    | .ok _ => m.newSymbols source
    | .error _ => 0

/-- Take steps one after the other: what they commit, in order, and the module that is left. -/
def history : List Action → Module → List Commit × Module
  | [], m => ([], m)
  | a :: rest, m =>
    let (commit, left) := a.run m
    let (commits, last) := history rest left
    (commit.toList ++ commits, last)

/-- Function numbers do not run out during the steps. -/
def NumbersFit : List Action → Module → Prop
  | [], _ => True
  | a :: rest, m => m.nextFunction.toNat + a.taken m < 2 ^ 32 ∧ NumbersFit rest (a.run m).2

namespace Module

/-- Names keep their numbers and bodies stay what they are. -/
structure Keeps (m left : Module) : Prop where
  /-- A name stands for the same number. -/
  names : ∀ name id, m.idOf? name = some id → left.idOf? name = some id
  /-- A number stands for the same function, once it has its body. -/
  functions : ∀ id f, m.function? id = some f → f.isDeclaration = false →
    left.function? id = some f

theorem Keeps.refl (m : Module) : m.Keeps m := ⟨fun _ _ h => h, fun _ _ h _ => h⟩

theorem Keeps.trans {m mid left : Module} (h : m.Keeps mid) (h' : mid.Keeps left) :
    m.Keeps left where
  names name id hid := h'.names name id (h.names name id hid)
  functions id f hf hbody := h'.functions id f (h.functions id f hf hbody) hbody

theorem MovedOnly.keeps {m left : Module} {allowed : FunctionId → Prop} (hm : m.WellFormed)
    (h : m.MovedOnly allowed left) : m.Keeps left where
  names name id hid := (h.idOf?_eq hm name).trans hid
  functions id f hf hbody := by
    rcases h.moved id with ⟨hsame, -⟩ | ⟨-, body, hp, -, -⟩
    · exact hsame.trans hf
    · cases hp.symm.trans (hm.pending_of_body hf hbody)

theorem Grown.keeps {m left : Module} (hm : m.WellFormed) (h : m.Grown left) : m.Keeps left where
  names _ _ hid := h.idOf?_eq hm hid
  functions id f hf _ := h.functions id f hf

theorem WellFormed.keeps_addNext {m : Module} {f : Function} (hm : m.WellFormed)
    (hf : f.id = m.nextFunction) (hroom : m.nextFunction.toNat + 1 < 2 ^ 32) :
    m.Keeps (m.addNext f) where
  names _ _ hid := hm.idOf?_addNext hf hroom hid
  functions id g hg _ := by
    rw [function?_addNext hf, if_neg]
    · exact hg
    · intro he
      exact absurd (he ▸ hm.id_lt hg) (UInt32.lt_irrefl _)

end Module

/-- What a step of a run does to a module. -/
inductive Step (m : Module) : Option Commit → Module → Prop where
  /-- Pending bodies move over their declarations. -/
  | moved {left : Module} (moved : m.MovedOnly (fun _ => True) left) : Step m none left
  /-- Functions and bodies are added. -/
  | grown {left : Module} (grown : m.Grown left) : Step m none left
  /-- A function is committed after pending bodies have moved. -/
  | committed {mid : Module} {r : Request} {f : Function}
      (moved : m.MovedOnly (fun _ => True) mid) (free : m.idOf? r.name = none)
      (id : f.id = mid.nextFunction) (name : f.name = r.name) (body : f.isDeclaration = false)
      (shape : r.Shapes f) (room : mid.nextFunction.toNat + 1 < 2 ^ 32) :
      Step m (some ⟨r, f.id⟩) (r.record (mid.addNext f))

section Steps

variable {m left : Module} {commit : Option Commit}

/-- Recording changes the tables only. -/
theorem Request.record_frame (r : Request) (m : Module) :
    (r.record m).functions = m.functions ∧ (r.record m).pending = m.pending ∧
      (r.record m).nextFunction = m.nextFunction := by
  cases r with
  | fuse chain name =>
    unfold record
    dsimp only
    cases chain.reconcile <;> exact ⟨rfl, rfl, rfl⟩
  | wrap target name => exact ⟨rfl, rfl, rfl⟩

theorem Request.wellFormed_record {r : Request} (hm : m.WellFormed) :
    (r.record m).WellFormed := by
  obtain ⟨hf, hp, hn⟩ := r.record_frame m
  refine ⟨fun h => hm.function_id ?_, fun h => hm.pending_id ?_, fun h => ?_, fun h => ?_⟩
  · rwa [Module.function?, hf] at h
  · rwa [hp] at h
  · rw [hn]
    rw [Module.function?, hf] at h
    exact hm.id_lt h
  · rw [hp] at h
    rw [Module.function?, hf]
    exact hm.declared h

theorem Request.keeps_record (r : Request) (m : Module) : m.Keeps (r.record m) := by
  obtain ⟨hf, -, -⟩ := r.record_frame m
  refine ⟨fun name id hid => ?_, fun id f hid _ => ?_⟩
  · rwa [Module.idOf?, hf]
  · rwa [Module.function?, hf]

/-- A fusion moves bodies and may commit a kernel. -/
theorem Step.of_fuse {chain : Chain} {name : String} {config : FusionConfig}
    {answer : Except FusionError FunctionId} (hm : m.WellFormed)
    (h : (Request.fuse chain name).run config m = (answer, left))
    (hroom : ∀ id, answer = .ok id → m.nextFunction.toNat + 1 < 2 ^ 32) :
    Step m (answer.toOption.map (⟨.fuse chain name, ·⟩)) left := by
  have hprobe := Probes.build hm.force (Module.force_force m) chain name config
  cases answer with
  | error e =>
    have hbuild := Request.run_error_iff.mp h
    exact .moved ((hprobe.failed hm hbuild).1.mono (fun _ _ => trivial))
  | ok id =>
    rcases hf : KernelFusion.fuse chain name config m with ⟨e | kernel, left'⟩
    · simp only [Request.run, hf] at h
      cases h
    · simp only [Request.run, hf] at h
      obtain ⟨plan, mid, hbuild, hbuilt, hcommit⟩ := fuse_ok hm hf
      obtain ⟨-, -, -, hmoved, -⟩ := hprobe.succeeded hm hbuild
      obtain ⟨rfl, rfl⟩ := Prod.mk.inj (hcommit.symm.trans (plan.commit_eq config mid))
      have hpid := (plan.emit_frame mid.nextFunction config).1
      have hpname := (plan.emit_frame mid.nextFunction config).2.1
      have hplan := hbuilt.name
      cases h
      have hfree : m.idOf? name = none := by
        rw [← hm.idOf?_force]
        simpa [Module.hasSymbol] using hbuilt.free
      have hshape : (Request.fuse chain name).Shapes (plan.emit mid.nextFunction config) := by
        obtain ⟨first, -, hparams⟩ := hbuilt.params
        refine ⟨plan.signature, hbuilt.signature, ?_⟩
        have hregs := congrArg List.length (plan.registers_emit mid.nextFunction config)
        have hlength := fusedParams_length hparams
        simp only [List.length_map, List.length_range] at hregs
        omega
      have hstep := Step.committed (r := .fuse chain name) (hmoved.mono (fun _ _ => trivial)) hfree
        hpid (hpname.trans hplan) (plan.isDeclaration_emit mid.nextFunction config) hshape
        (hmoved.nextFunction ▸ hroom _ rfl)
      rw [Request.record, hbuilt.signature, hpid, ← hplan] at hstep
      rw [← hplan]
      exact hstep

/-- An invokable function is found only if the name of the wrapper is free, and it takes one
argument. -/
theorem InvokableSlot.of_resolve_ok {target : InvokableSlot} {name : String} {callee : Function}
    (h : target.resolve name m = (.ok callee, left)) :
    m.idOf? name = none ∧ callee.prototype.params.length = 1 := by
  unfold resolve at h
  rcases ht : target.name with e | entry
  · rw [ht] at h
    cases h
  · rw [ht] at h
    dsimp only at h
    split at h
    · cases h
    · split at h
      next => cases h
      next hfree =>
        obtain ⟨f, mid, -, htakes⟩ := Attempt.of_andThen_ok h
        unfold takesOne at htakes
        split at htakes
        next hparams =>
          cases htakes
          exact ⟨by simpa [Module.hasSymbol] using hfree, hparams⟩
        next => cases htakes

/-- A wrapping moves bodies and may commit a wrapper. -/
theorem Step.of_wrap {target : InvokableSlot} {name : String} {config : FusionConfig}
    {answer : Except FusionError FunctionId} (hm : m.WellFormed)
    (h : (Request.wrap target name).run config m = (answer, left))
    (hroom : ∀ id, answer = .ok id → m.nextFunction.toNat + 1 < 2 ^ 32) :
    Step m (answer.toOption.map (⟨.wrap target name, ·⟩)) left := by
  have hprobe := Probes.resolveInvokable hm.force (Module.force_force m) target name
  cases answer with
  | error e =>
    have hresolve := Request.run_error_iff.mp h
    exact .moved ((hprobe.failed hm hresolve).1.mono (fun _ _ => trivial))
  | ok id =>
    rw [Request.run, wrapInvoke_eq] at h
    obtain ⟨callee, mid, hresolve, hcommit⟩ := Attempt.of_andThen_ok h
    obtain ⟨-, -, -, hmoved, -⟩ := hprobe.succeeded hm hresolve
    obtain ⟨hwid, hwname, hwbody⟩ := wrapper_frame mid.nextFunction name callee config
    have hstep := Step.committed (r := .wrap target name) (hmoved.mono (fun _ _ => trivial))
      (InvokableSlot.of_resolve_ok hresolve).1 hwid hwname hwbody trivial
      (hmoved.nextFunction ▸ hroom _ rfl)
    rw [commitWrapper_eq] at hcommit
    cases hcommit
    rw [hwid] at hstep
    exact hstep

/-- Every action is a step. -/
theorem Action.step (a : Action) (hm : m.WellFormed)
    (hroom : m.nextFunction.toNat + a.taken m < 2 ^ 32) : Step m (a.run m).1 (a.run m).2 := by
  cases a with
  | request config r =>
    rcases h : r.run config m with ⟨answer, left⟩
    have hone : ∀ id, answer = .ok id → m.nextFunction.toNat + 1 < 2 ^ 32 := by
      rintro id rfl
      simpa only [taken, h] using hroom
    simp only [run, h]
    cases r with
    | fuse chain name => exact Step.of_fuse hm h hone
    | wrap target name => exact Step.of_wrap hm h hone
  | materialize name =>
    exact .moved ((hm.movedOnly_materializeAll [name]).mono (fun _ _ => trivial))
  | link source =>
    rcases h : m.linkInto source with ⟨e | stats, left⟩
    · simp only [run, h]
      rw [Module.linkInto_error h]
      exact .grown (.refl m)
    · simp only [run, h]
      simp only [taken, h] at hroom
      exact .grown (Module.grown_linkInto hm hroom h).1

/-- A step keeps the numbers consistent. -/
theorem Step.wellFormed (h : Step m commit left) (hm : m.WellFormed) : left.WellFormed := by
  cases h with
  | moved moved => exact moved.wellFormed hm
  | grown grown => exact grown.wellFormed hm
  | committed moved free id name body shape room =>
    exact Request.wellFormed_record ((moved.wellFormed hm).addNext id room)

/-- A step changes neither the numbers of names nor functions with bodies. -/
theorem Step.keeps (h : Step m commit left) (hm : m.WellFormed) : m.Keeps left := by
  cases h with
  | moved moved => exact moved.keeps hm
  | grown grown => exact grown.keeps hm
  | committed moved free id name body shape room =>
    exact (moved.keeps hm).trans (((moved.wellFormed hm).keeps_addNext id room).trans
      (Request.keeps_record _ _))

end Steps

/-- The export tables hold commits in order. -/
structure Module.Records (m : Module) (commits : List Commit) : Prop where
  /-- The names of the kernels. -/
  names : m.records foreachNameTable = (commits.filterMap Commit.kernel?).map (·.1)
  /-- The tokens of their signatures. -/
  tokens : m.records foreachTable = (commits.filterMap Commit.kernel?).map (·.2.token)
  /-- The names of the wrappers. -/
  invokable : m.records invokableTable = commits.filterMap Commit.wrapper?

/-- The name of a commit stands for a function with a body, as its request asks for. -/
structure Module.Holds (m : Module) (c : Commit) (f : Function) : Prop where
  /-- The name stands for the number. -/
  symbol : m.idOf? c.name = some c.id
  /-- The number stands for the function. -/
  function : m.function? c.id = some f
  /-- The function has the name. -/
  name : f.name = c.name
  /-- The function has a body. -/
  body : f.isDeclaration = false
  /-- The function of a fusion has the parameters of the merged signature. -/
  shape : c.request.Shapes f

/-- A module after commits. -/
structure Consistent (m : Module) (commits : List Commit) : Prop where
  /-- The numbers are consistent. -/
  wellFormed : m.WellFormed
  /-- The tables hold the commits. -/
  records : m.Records commits
  /-- No name was committed twice. -/
  distinct : (commits.map Commit.name).Nodup
  /-- Every committed function is there. -/
  holds : ∀ c ∈ commits, ∃ f, m.Holds c f

section Consistent

variable {m left : Module} {commits : List Commit} {commit : Option Commit} {c : Commit}
  {f : Function}

theorem Module.Holds.keeps (h : m.Holds c f) (hkeeps : m.Keeps left) : left.Holds c f :=
  ⟨hkeeps.names _ _ h.symbol, hkeeps.functions _ _ h.function h.body, h.name, h.body, h.shape⟩

/-- A function that is there can be called. -/
theorem Module.Holds.callable? (h : m.Holds c f) (hm : m.WellFormed) :
    m.callable? c.name = some f := by
  rw [hm.callable?_of_idOf? h.symbol (hm.pending_of_body h.function h.body), h.function]

/-- So can it in the forced module. -/
theorem Module.Holds.callable?_force (h : m.Holds c f) (hm : m.WellFormed) :
    m.force.callable? c.name = some f := by
  rw [hm.callable?_force_iff, hm.function_id h.function]
  exact ⟨h.symbol, hm.whole?_of_function? h.function h.body⟩

theorem Module.Records.of_tables (h : m.Records commits) (htables : left.tables = m.tables) :
    left.Records commits := by
  constructor
  · rw [Module.records, htables]
    exact h.names
  · rw [Module.records, htables]
    exact h.tokens
  · rw [Module.records, htables]
    exact h.invokable

/-- Recording a request appends it to the tables. -/
theorem Module.Records.record {r : Request} {id : FunctionId} (h : m.Records commits)
    (hshape : r.Shapes f) : (r.record m).Records (commits ++ [⟨r, id⟩]) := by
  cases r with
  | fuse chain name =>
    obtain ⟨s, hs, -⟩ := hshape
    have hkernel : (⟨.fuse chain name, id⟩ : Commit).kernel? = some (name, s) := by
      simp [Commit.kernel?, hs, Except.toOption]
    have hwrapper : (⟨.fuse chain name, id⟩ : Commit).wrapper? = none := rfl
    have hrecord : (Request.fuse chain name).record m = m.exportForeach name s := by
      simp only [Request.record, hs]
    obtain ⟨hnames, htokens, hinvokable⟩ := m.records_exportForeach name s
    rw [hrecord]
    constructor
    · rw [hnames, h.names]
      simp [hkernel]
    · rw [htokens, h.tokens]
      simp [hkernel]
    · rw [hinvokable, h.invokable]
      simp [hwrapper]
  | wrap target name =>
    have hkernel : (⟨.wrap target name, id⟩ : Commit).kernel? = none := rfl
    have hwrapper : (⟨.wrap target name, id⟩ : Commit).wrapper? = some name := rfl
    obtain ⟨hnames, htokens, hinvokable⟩ := m.records_exportInvokable name
    constructor
    · rw [Request.record, hnames, h.names]
      simp [hkernel]
    · rw [Request.record, htokens, h.tokens]
      simp [hkernel]
    · rw [Request.record, hinvokable, h.invokable]
      simp [hwrapper]

/-- The tables hold what was committed after a step as well. -/
theorem Step.records (h : Step m commit left) (hrecords : m.Records commits) :
    left.Records (commits ++ commit.toList) := by
  cases h with
  | moved moved => simpa using hrecords.of_tables moved.tables
  | grown grown => simpa using hrecords.of_tables grown.tables
  | @committed mid r f moved free id name body shape room =>
    have hmid : (mid.addNext f).Records commits := hrecords.of_tables moved.tables
    exact hmid.record shape

/-- What a step commits has a new name, and it is there afterwards. -/
theorem Step.holds_commit (h : Step m (some c) left) (hm : m.WellFormed) :
    m.idOf? c.name = none ∧ ∃ f, left.Holds c f := by
  cases h with
  | @committed mid r f moved free id name body shape room =>
    have hmid := moved.wellFormed hm
    have hnew : mid.idOf? f.name = none := by rw [moved.idOf?_eq hm, name, free]
    have hsymbol := hmid.idOf?_addNext_self id room hnew
    rw [name, ← id] at hsymbol
    have hholds : (mid.addNext f).Holds ⟨r, f.id⟩ f :=
      ⟨hsymbol, Module.function?_addNext_self id, name, body, shape⟩
    exact ⟨free, f, hholds.keeps (r.keeps_record _)⟩

/-- A step keeps a module consistent with what was committed. -/
theorem Consistent.step (h : Consistent m commits) (hstep : Step m commit left) :
    Consistent left (commits ++ commit.toList) := by
  have hkeeps := hstep.keeps h.wellFormed
  have hold : ∀ c ∈ commits, ∃ f, left.Holds c f := by
    intro c hc
    obtain ⟨f, hf⟩ := h.holds c hc
    exact ⟨f, hf.keeps hkeeps⟩
  refine ⟨hstep.wellFormed h.wellFormed, hstep.records h.records, ?_, ?_⟩
  · cases commit with
    | none => simpa using h.distinct
    | some c =>
      obtain ⟨hfree, -⟩ := hstep.holds_commit h.wellFormed
      rw [Option.toList_some, List.map_append, List.map_singleton]
      refine List.nodup_append.mpr ⟨h.distinct, List.pairwise_singleton _ _, ?_⟩
      intro name hname other hother he
      obtain ⟨c', hc', rfl⟩ := List.mem_map.mp hname
      obtain ⟨f, hf⟩ := h.holds c' hc'
      rw [List.mem_singleton.mp hother] at he
      have hsymbol := hf.symbol
      rw [he, hfree] at hsymbol
      cases hsymbol
  · intro c hc
    rcases List.mem_append.mp hc with hc | hc
    · exact hold c hc
    · rw [Option.mem_toList] at hc
      cases hc
      exact (hstep.holds_commit h.wellFormed).2

/-- A run keeps a module consistent with what was committed, before and during the run. -/
theorem Consistent.run {actions : List Action} (h : Consistent m commits)
    (hfit : NumbersFit actions m) :
    Consistent (history actions m).2 (commits ++ (history actions m).1) ∧
      m.Keeps (history actions m).2 := by
  induction actions generalizing m commits with
  | nil => exact ⟨by simpa [history] using h, .refl m⟩
  | cons a rest ih =>
    obtain ⟨hroom, hrest⟩ := hfit
    have hstep := a.step h.wellFormed hroom
    obtain ⟨hlast, hkeeps⟩ := ih (h.step hstep) hrest
    rw [List.append_assoc] at hlast
    exact ⟨hlast, (hstep.keeps h.wellFormed).trans hkeeps⟩

theorem Consistent.start (name : String) : Consistent (.new name) [] where
  wellFormed := by
    constructor <;> intro id f h <;> cases h
  records := ⟨rfl, rfl, rfl⟩
  distinct := .nil
  holds c hc := by cases hc

/-- The kernels of commits are there with the parameters of their signatures. -/
theorem Consistent.kernels (h : Consistent m commits) {e : String × KernelSignature}
    (he : e ∈ commits.filterMap Commit.kernel?) (slot : Nat) :
    m.inputCount slot e.1 e.2 = .ok (if e.1 = "" then 0 else e.2.inputs.toUInt32) := by
  obtain ⟨c, hc, hkernel⟩ := List.mem_filterMap.mp he
  obtain ⟨f, hf⟩ := h.holds c hc
  obtain ⟨r, id⟩ := c
  cases r with
  | wrap target name => cases hkernel
  | fuse chain name =>
    obtain ⟨s, hs, hparams⟩ := hf.shape
    have heq : e = (name, s) := by
      simpa [Commit.kernel?, hs, Except.toOption, eq_comm] using hkernel
    subst heq
    have hcontext := KernelSignature.has_context_of_unexpected (Chain.unexpected_reconcile hs)
    exact Module.inputCount_eq hf.symbol hf.function hparams hcontext slot

/-- The export tables of a consistent module are those of its commits. -/
theorem Consistent.exports (h : Consistent m commits) :
    m.exports = .ok ⟨(commits.filterMap Commit.kernel?).map (·.1),
      (commits.filterMap Commit.kernel?).map (·.2),
      (commits.filterMap Commit.kernel?).map
        (fun e => if e.1 = "" then 0 else e.2.inputs.toUInt32),
      commits.filterMap Commit.wrapper?⟩ := by
  rw [Module.exports_eq h.records.names h.records.tokens (fun e he slot => h.kernels he slot),
    h.records.invokable]

/-- The slot of the kernel that was committed last describes it. -/
theorem Consistent.describe_last (h : Consistent m (commits ++ [c])) {name : String}
    {s : KernelSignature} (hkernel : c.kernel? = some (name, s)) :
    (⟨m, (commits.filterMap Commit.kernel?).length⟩ : KernelSlot).describe =
      .ok ⟨m.name, (commits.filterMap Commit.kernel?).length, name,
        if name = "" then 0 else s.inputs.toUInt32, s⟩ := by
  rw [KernelSlot.describe_eq_ok_iff h.exports]
  simp [hkernel]

/-- The slot of the wrapper that was committed last has its name. -/
theorem Consistent.name_last (h : Consistent m (commits ++ [c])) {name : String}
    (hwrapper : c.wrapper? = some name) :
    (⟨m, (commits.filterMap Commit.wrapper?).length⟩ : InvokableSlot).name = .ok name := by
  rw [InvokableSlot.name, h.exports]
  simp [hwrapper]

end Consistent

theorem history_append (actions later : List Action) (m : Module) :
    history (actions ++ later) m =
      ((history actions m).1 ++ (history later (history actions m).2).1,
        (history later (history actions m).2).2) := by
  induction actions generalizing m with
  | nil => rfl
  | cons a rest ih => simp [history, ih]

theorem numbersFit_append {actions later : List Action} {m : Module} :
    NumbersFit (actions ++ later) m ↔
      NumbersFit actions m ∧ NumbersFit later (history actions m).2 := by
  induction actions generalizing m with
  | nil => simp [NumbersFit, history]
  | cons a rest ih => simp [NumbersFit, history, ih, and_assoc]

/-- Linking modules in order is a run that commits nothing. -/
theorem history_links {sources : List Module} {dest linked : Module}
    (h : sources.foldlM (fun dest source => (dest.link source).map (·.1)) dest =
      (.ok linked : Except LinkError Module)) :
    history (sources.map .link) dest = ([], linked) := by
  induction sources generalizing dest with
  | nil =>
    cases h
    rfl
  | cons source rest ih =>
    rw [List.foldlM_cons, Module.link_eq] at h
    rcases hlink : dest.linkInto source with ⟨e | stats, left⟩
    · rw [hlink] at h
      cases h
    · rw [hlink] at h
      have hlater : history (rest.map .link) left = ([], linked) := ih h
      simp [history, Action.run, hlink, hlater]

/-- After any run that starts from linked modules the export tables can be read, and they hold the
names and signatures of the kernels and the names of the wrappers that were committed, in order; a
kernel with a name has one input if its signature says so, and else none. No name was committed
twice, and every committed name stands for the function that was stored when it was committed. -/
theorem history_exports {name : String} {sources : List Module} {start : Module}
    {actions : List Action} (hlink : Module.linkAll name sources = .ok start)
    (hstart : NumbersFit (sources.map .link) (.new name)) (hfit : NumbersFit actions start) :
    (∃ tables, (history actions start).2.exports = .ok tables ∧
      tables.names = ((history actions start).1.filterMap Commit.kernel?).map (·.1) ∧
      tables.signatures = ((history actions start).1.filterMap Commit.kernel?).map (·.2) ∧
      tables.inputs = ((history actions start).1.filterMap Commit.kernel?).map
        (fun e => if e.1 ≠ "" ∧ e.2.has .input = true then 1 else 0) ∧
      tables.invokable = (history actions start).1.filterMap Commit.wrapper?) ∧
    ((history actions start).1.map Commit.name).Nodup ∧
    ∀ before a after c, actions = before ++ a :: after →
      (a.run (history before start).2).1 = some c →
      ∃ f, (a.run (history before start).2).2.function? c.id = some f ∧ f.name = c.name ∧
        f.isDeclaration = false ∧ (history actions start).2.callable? c.name = some f := by
  have hlinks := history_links hlink
  obtain ⟨hconsistent, -⟩ := (Consistent.start name).run hstart
  simp only [hlinks, List.append_nil] at hconsistent
  obtain ⟨hlast, -⟩ := hconsistent.run hfit
  rw [List.nil_append] at hlast
  refine ⟨⟨_, hlast.exports, rfl, rfl, ?_, rfl⟩, hlast.distinct, ?_⟩
  · refine List.map_congr_left (fun e _ => ?_)
    by_cases hname : e.1 = "" <;> simp [hname, e.2.toUInt32_inputs]
  · rintro before a after c rfl hcommit
    obtain ⟨hbefore, hroom, hafter⟩ := numbersFit_append.mp hfit
    obtain ⟨hmid, -⟩ := hconsistent.run hbefore
    have hstep := a.step hmid.wellFormed hroom
    have hthen := hmid.step hstep
    rw [hcommit] at hstep
    obtain ⟨-, f, hf⟩ := hstep.holds_commit hmid.wellFormed
    obtain ⟨hend, hkeeps⟩ := hthen.run hafter
    have hsame : (history (before ++ a :: after) start).2 =
        (history after (a.run (history before start).2).2).2 := by
      rw [history_append]
      rfl
    refine ⟨f, hf.function, hf.name, hf.body, ?_⟩
    rw [hsame]
    exact (hf.keeps hkeeps).callable? hend.wellFormed

/-- A run over the linked sample modules: a fusion, a wrapping, a link that fails because of a
redefinition, and a fusion under a name that is taken by then. -/
def sampleRun : List Action :=
  [.request .standard (.fuse Samples.filter "fused"), .materialize "sink",
    .request .standard (.wrap ⟨Samples.image, 0⟩ "wrapped"), .link Samples.image,
    .link Samples.host, .request .standard (.fuse Samples.filter "wrapped")]

/-- The run commits one kernel and one wrapper. -/
theorem history_exports_sampleRun :
    (∃ tables, (history sampleRun Samples.merged).2.exports = .ok tables ∧
      tables.names = ["fused"] ∧ tables.signatures = [⟨0x3b⟩] ∧ tables.inputs = [1] ∧
      tables.invokable = ["wrapped"]) ∧
    ((history sampleRun Samples.merged).1.map Commit.name).Nodup ∧
    ∀ before a after c, sampleRun = before ++ a :: after →
      (a.run (history before Samples.merged).2).1 = some c →
      ∃ f, (a.run (history before Samples.merged).2).2.function? c.id = some f ∧ f.name = c.name ∧
        f.isDeclaration = false ∧
        (history sampleRun Samples.merged).2.callable? c.name = some f := by
  have hlink : Module.linkAll "merged" [Samples.image, Samples.extra] = .ok Samples.merged := rfl
  have hstart : NumbersFit ([Samples.image, Samples.extra].map .link) (.new "merged") :=
    ⟨by decide, by decide, trivial⟩
  have hfit : NumbersFit sampleRun Samples.merged :=
    ⟨by decide, by decide, by decide, by decide, by decide, by decide, trivial⟩
  exact history_exports hlink hstart hfit

end KernelFusion

import KernelFusion.Proofs.StoreInvariant

/-!
# Operations on a module and its builder

A module can be worked on in any order: numbers are taken, functions are stored, records are
appended, bodies are moved, modules are linked, kernels are fused, and a builder starts, declares
and writes functions. A builder writes only to the function under construction, which has a body, so
it neither moves functions nor touches what is pending. Every sequence of such operations keeps the
store sound.
-/

namespace KernelFusion

/-- A call of a builder. -/
inductive BuilderCall where
  /-- Start a function. -/
  | start (name : String) (prototype : Prototype) (linkage : Linkage)
  /-- Declare a function. -/
  | declare (name : String) (prototype : Prototype) (linkage : Linkage)
  /-- Leave the function under construction. -/
  | finish
  /-- Rename it. -/
  | rename (name : String)
  /-- Label the block under construction. -/
  | setLabel (label : String)
  /-- Allocate a register. -/
  | allocRegister
  /-- Record the type of a register. -/
  | setRegisterType (r : Register) (ty : Ty)
  /-- Set a register to a constant. -/
  | const (value : Constant)
  /-- Read memory. -/
  | load (ptr : Register) (ty : Ty)
  /-- Write memory. -/
  | store (ptr value : Register)
  /-- Combine two registers. -/
  | binary (op : BinaryOp) (left right : Register)
  /-- Change a register's value. -/
  | unary (op : UnaryOp) (operand : Register)
  /-- Compare two registers. -/
  | compare (op : CompareOp) (left right : Register)
  /-- Convert a number. -/
  | cast (src : Register) (source target : Ty)
  /-- Call a function of the module. -/
  | call (callee : FunctionId) (args : List Register)
  /-- End the block under construction with a return. -/
  | ret (value : Option Register)

/-- What a call of a builder hands back. -/
inductive BuilderReply where
  /-- The number of the function that was added. -/
  | function (id : FunctionId)
  /-- A register that nothing is written to yet, if there is a function to allocate it in. -/
  | allocated (r? : Option Register)
  /-- The register of a result, if there is one. -/
  | result (r? : Option Register)
  /-- Whether there is a place to write to. -/
  | done (written : Bool)
  /-- Nothing. -/
  | nothing
deriving DecidableEq

/-- The builder after a call, and what the call hands back. -/
def BuilderCall.step (b : Builder) : BuilderCall → Builder × BuilderReply
  | start name prototype linkage => (b.start name prototype linkage).map id .function
  | declare name prototype linkage => (b.declare name prototype linkage).map id .function
  | finish => (b.finish, .nothing)
  | rename name => (b.rename name).map id .done
  | setLabel label => (b.setLabel label).map id .done
  | allocRegister => b.allocRegister.map id .allocated
  | setRegisterType r ty => (b.setRegisterType r ty, .nothing)
  | const value => (b.const value).map id .result
  | load ptr ty => (b.load ptr ty).map id .result
  | store ptr value => (b.store ptr value).map id .done
  | binary op left right => (b.binary op left right).map id .result
  | unary op operand => (b.unary op operand).map id .result
  | compare op left right => (b.compare op left right).map id .result
  | cast src source target => (b.cast src source target).map id .result
  | call callee args => (b.call callee args).map id .result
  | ret value => (b.ret value).map id .done

/-- The builder after a call. -/
def BuilderCall.run (b : Builder) (c : BuilderCall) : Builder := (c.step b).1

/-- What a call hands back. -/
def BuilderCall.reply (b : Builder) (c : BuilderCall) : BuilderReply := (c.step b).2

/-- The number of function numbers that a call takes. -/
def BuilderCall.taken : BuilderCall → Nat
  | start _ _ _ | declare _ _ _ => 1
  | _ => 0

/-- An operation on a module and the builder that works on it. -/
inductive StoreOp where
  /-- Take a function number. -/
  | alloc
  /-- Store a function, its body pending. -/
  | addLazy (f : Function)
  /-- Append a record to a table. -/
  | append (table record : String)
  /-- Fuse, wrap, materialize or link. -/
  | action (a : Action)
  /-- Go on with a new builder. -/
  | renew
  /-- Call the builder. -/
  | build (c : BuilderCall)

namespace StoreOp

/-- The builder after an operation. -/
def run (b : Builder) : StoreOp → Builder
  | alloc => { b with module := b.module.allocFunction.1 }
  | addLazy f => { b with module := b.module.addLazy f }
  | append table record => { b with module := b.module.appendRecord table record }
  | action a => { b with module := (a.run b.module).2 }
  | renew => .new b.module
  | build c => c.run b

/-- The number of function numbers that an operation takes. -/
def taken (m : Module) : StoreOp → Nat
  | alloc => 1
  | action a => a.taken m
  | build c => c.taken
  | addLazy _ | append _ _ | renew => 0

/-- A function is stored under a number that was taken and that no function has. -/
def Allowed (m : Module) : StoreOp → Prop
  | addLazy f => f.id < m.nextFunction ∧ m.function? f.id = none
  | alloc | append _ _ | action _ | renew | build _ => True

instance (m : Module) : (op : StoreOp) → Decidable (op.Allowed m)
  | addLazy f => inferInstanceAs (Decidable (f.id < m.nextFunction ∧ m.function? f.id = none))
  | alloc | append _ _ | action _ | renew | build _ => inferInstanceAs (Decidable True)

end StoreOp

/-- The builder after operations one after the other. -/
def operate (ops : List StoreOp) (b : Builder) : Builder := ops.foldl StoreOp.run b

/-- The operations are allowed, and function numbers do not run out. -/
def Permitted : List StoreOp → Builder → Prop
  | [], _ => True
  | op :: rest, b => op.Allowed b.module ∧
    b.module.nextFunction.toNat + op.taken b.module < 2 ^ 32 ∧ Permitted rest (op.run b)

instance : (ops : List StoreOp) → (b : Builder) → Decidable (Permitted ops b)
  | [], _ => inferInstanceAs (Decidable True)
  | op :: rest, b =>
    have : Decidable (Permitted rest (op.run b)) := instDecidablePermitted rest (op.run b)
    inferInstanceAs (Decidable (op.Allowed b.module ∧
      b.module.nextFunction.toNat + op.taken b.module < 2 ^ 32 ∧ Permitted rest (op.run b)))

namespace Builder

/-- The module is sound, and the function under construction is stored with a body. -/
structure Sound (b : Builder) : Prop where
  /-- The module is sound. -/
  module : b.module.Sound
  /-- The function under construction has a body. -/
  current : ∀ id, b.function? = some id →
    ∃ f, b.module.function? id = some f ∧ f.isDeclaration = false

namespace Sound

variable {b : Builder}

theorem new {m : Module} (h : m.Sound) : (Builder.new m).Sound := ⟨h, fun id hid => by cases hid⟩

/-- The function under construction stays if functions with bodies do. -/
theorem of_module {m : Module} (h : b.Sound) (hm : m.Sound)
    (hkept : ∀ id f, b.module.function? id = some f → f.isDeclaration = false →
      m.function? id = some f) : Sound { b with module := m } where
  module := hm
  current id hid := by
    obtain ⟨f, hf, hbody⟩ := h.current id hid
    exact ⟨f, hkept id f hf hbody, hbody⟩

/-- The function under construction may change, if it keeps its number and its body. -/
theorem modifyCurrent {change : Function → Function} (h : b.Sound)
    (hid : ∀ f, (change f).id = f.id) (hbody : ∀ f, (change f).isDeclaration = f.isDeclaration) :
    (b.modifyCurrent change).Sound := by
  unfold Builder.modifyCurrent
  rcases hcurrent : b.function? with _ | id
  · exact h
  · obtain ⟨f, hf, hfbody⟩ := h.current id hcurrent
    have hnone := h.module.pending_of_body hf hfbody
    refine ⟨h.module.modify hnone hid, fun j hj => ?_⟩
    cases hj
    have hfound : b.module.functions.get? id = some f := hf
    refine ⟨change f, (IdMap.get?_mapValues _ _ _).trans ?_, (hbody f).trans hfbody⟩
    rw [hfound, Option.map_some, if_pos rfl]

/-- The block under construction may change. -/
theorem modifyBlock {change : Block → Block} (h : b.Sound) : (b.modifyBlock change).1.Sound := by
  unfold Builder.modifyBlock
  split
  next block f _ _ =>
    split
    · refine h.modifyCurrent (fun f => rfl) (fun f => ?_)
      simp [Function.isDeclaration, Function.modifyBlock, Graph.modifyBlock, Graph.isEmpty,
        IdMap.isEmpty, IdMap.modify, IdMap.mapValues]
    · exact h
  next => exact h

theorem allocRegister (h : b.Sound) : b.allocRegister.1.Sound :=
  h.modifyCurrent (fun _ => rfl) (fun _ => rfl)

theorem setRegisterType (h : b.Sound) (r : Register) (ty : Ty) : (b.setRegisterType r ty).Sound :=
  h.modifyCurrent (fun _ => rfl) (fun _ => rfl)

/-- An instruction may be emitted. -/
theorem emit (h : b.Sound) (ty? : Option Ty) (make : Register → Instruction) :
    (b.emit ty? make).1.Sound := by
  unfold Builder.emit
  have halloc := h.allocRegister
  rcases hr : b.allocRegister with ⟨b', _ | r⟩ <;> rw [hr] at halloc
  · exact halloc
  · cases ty? with
    | none => exact halloc.modifyBlock
    | some ty => exact (halloc.setRegisterType r ty).modifyBlock

/-- A function may be stored under the next number, and may be the one under construction if it has
a body. -/
theorem store (h : b.Sound) {f : Function} (hf : f.id = b.module.nextFunction)
    (hroom : b.module.nextFunction.toNat + 1 < 2 ^ 32) :
    Sound { b with module := b.module.addNext f } ∧
      (f.isDeclaration = false → ∀ block, Sound ⟨b.module.addNext f, some f.id, block⟩) := by
  have hm := h.module.addNext hf hroom
  refine ⟨h.of_module hm (h.module.keeps_addNext hf hroom).functions, fun hbody block => ⟨hm, ?_⟩⟩
  rintro id ⟨⟩
  exact ⟨f, Module.function?_addNext_self hf, hbody⟩

/-- Every call of a builder keeps it sound. -/
theorem call (h : b.Sound) (c : BuilderCall)
    (hroom : b.module.nextFunction.toNat + c.taken < 2 ^ 32) : (c.run b).Sound := by
  cases c with
  | start name prototype linkage => exact (h.store rfl hroom).2 rfl _
  | declare name prototype linkage => exact (h.store rfl hroom).1
  | finish => exact ⟨h.module, fun id hid => by cases hid⟩
  | rename name => exact h.modifyCurrent (fun _ => rfl) (fun _ => rfl)
  | setLabel label => exact h.modifyBlock
  | allocRegister => exact h.allocRegister
  | setRegisterType r ty => exact h.setRegisterType r ty
  | store ptr value => exact h.modifyBlock
  | const value => exact (h.emit _ _ : (b.const value).1.Sound)
  | load ptr ty => exact (h.emit _ _ : (b.load ptr ty).1.Sound)
  | binary op left right => exact (h.emit _ _ : (b.binary op left right).1.Sound)
  | unary op operand => exact (h.emit _ _ : (b.unary op operand).1.Sound)
  | compare op left right => exact (h.emit _ _ : (b.compare op left right).1.Sound)
  | cast src source target => exact (h.emit _ _ : (b.cast src source target).1.Sound)
  | ret value => exact h.modifyBlock
  | call callee args =>
    show (b.call callee args).1.Sound
    unfold Builder.call
    split
    · exact h
    · split
      · exact h.modifyBlock
      · exact h.emit _ _

/-- Every operation keeps the builder sound. -/
theorem op (h : b.Sound) {op : StoreOp} (hallowed : op.Allowed b.module)
    (hroom : b.module.nextFunction.toNat + op.taken b.module < 2 ^ 32) : (op.run b).Sound := by
  cases op with
  | alloc => exact h.of_module (h.module.allocFunction hroom) (fun _ _ hf _ => hf)
  | addLazy f =>
    obtain ⟨hlt, hfree⟩ := hallowed
    refine h.of_module (h.module.addLazy hlt hfree) (fun id g hg _ => ?_)
    rw [Module.function?_addLazy, if_neg]
    · exact hg
    · rintro rfl
      cases hg.symm.trans hfree
  | append table record =>
    exact h.of_module (h.module.appendRecord table record) (fun _ _ hf _ => hf)
  | action a =>
    have hstep := a.step h.module.toWellFormed hroom
    exact h.of_module (h.module.step hstep) (hstep.keeps h.module.toWellFormed).functions
  | renew => exact .new h.module
  | build c => exact h.call c hroom

/-- So does every sequence of operations. -/
theorem operate (h : b.Sound) {ops : List StoreOp} (hops : Permitted ops b) :
    (operate ops b).Sound := by
  induction ops generalizing b with
  | nil => exact h
  | cons op rest ih =>
    obtain ⟨hallowed, hroom, hrest⟩ := hops
    exact ih (h.op hallowed hroom) hrest

end Sound

end Builder

/-- The store invariant holds in a new module and in what any modules were linked into, and every
sequence of operations keeps it while function numbers do not run out. So no number that is taken
belongs to a function or a pending body: all numbers from the next one on are free, and a function
can be stored under a number that was just taken. -/
theorem store_invariant :
    (∀ name, (Module.new name).Sound) ∧
    (∀ name sources m, NumbersFit (sources.map .link) (.new name) →
      Module.linkAll name sources = .ok m → m.Sound) ∧
    (∀ m ops, m.Sound → Permitted ops (.new m) →
      (operate ops (.new m)).module.Sound ∧
      ∀ id, (operate ops (.new m)).module.nextFunction ≤ id →
        (operate ops (.new m)).module.Free id) ∧
    ∀ (m : Module) (f : Function), m.Sound → m.nextFunction.toNat + 1 < 2 ^ 32 →
      f.id = m.allocFunction.2 → (StoreOp.addLazy f).Allowed m.allocFunction.1 := by
  refine ⟨Module.Sound.new, fun name sources m => Module.sound_linkAll, fun m ops hm hops => ?_,
    fun m f hm hroom hf => ?_⟩
  · have hsound := (Builder.Sound.new hm).operate hops
    exact ⟨hsound.module, fun id hle => hsound.module.free_of_le hle⟩
  · refine ⟨?_, ?_⟩
    · rw [hf]
      exact Module.WellFormed.next_lt hroom
    · rw [hf]
      exact (hm.free_of_le UInt32.le_rfl).1

/-- Operations on the linked sample modules: a function is built while a module is linked, one is
stored under a number that was just taken, and a kernel is fused. -/
def sampleOps : List StoreOp :=
  [.build (.start "one" (.ofParams [] .i32 .c) .pub), .build (.const (.i32 1)),
    .action (.link Samples.host), .build (.ret (some 0)), .append "notes" "one", .renew, .alloc,
    .addLazy (.new 11 "two" (.ofParams [] .void .c)), .action (.materialize "two"),
    .action (.request .standard (.fuse Samples.filter "fused"))]

/-- The operations are permitted, so the store stays sound. -/
theorem store_invariant_sampleOps :
    Permitted sampleOps (.new Samples.merged) ∧
      (operate sampleOps (.new Samples.merged)).module.Sound ∧
      (operate sampleOps (.new Samples.merged)).module.idOf? "fused" = some 12 := by
  obtain ⟨-, hlinked, hoperate, -⟩ := store_invariant
  have hstart : NumbersFit ([Samples.image, Samples.extra].map .link) (.new "merged") :=
    ⟨by decide, by decide, trivial⟩
  have hsound : Samples.merged.Sound := hlinked "merged" [Samples.image, Samples.extra] _ hstart rfl
  have hops : Permitted sampleOps (.new Samples.merged) := by decide
  exact ⟨hops, (hoperate Samples.merged sampleOps hsound hops).1, rfl⟩

end KernelFusion

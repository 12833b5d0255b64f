import KernelFusion.Proofs.Writing

/-!
# Construction

A builder is called again and again, for one function and then for another, while functions are
added to the module and call each other. Seen from one function, all that happens is that the calls
made while it is under construction add their instructions to its block and end it with a return:
its body is what these calls emitted, in their order, it ends with the last of their returns, and
besides its parameters it defines the registers that they handed back as their results.
-/

namespace KernelFusion

/-- The number of parameters of the function that a call adds. -/
def BuilderCall.parameters : BuilderCall → Nat
  | start _ prototype _ | declare _ prototype _ => prototype.params.length
  | _ => 0

/-- A call and the builder that it is made on. -/
structure Moment where
  /-- The builder before the call. -/
  builder : Builder
  /-- The call. -/
  call : BuilderCall

namespace Moment

/-- The builder after the call. -/
def after (s : Moment) : Builder := s.call.run s.builder

/-- The function with a number, if it is the one under construction. -/
def writing? (s : Moment) (id : FunctionId) : Option Function :=
  if s.builder.function? = some id then s.builder.module.function? id else none

/-- The instruction that the call adds to the function with a number. -/
def emitted (s : Moment) (id : FunctionId) : Option Instruction :=
  (s.writing? id).bind (s.call.emits s.builder.module)

/-- The return that the call ends the function with a number with. -/
def returned (s : Moment) (id : FunctionId) : Option (Option Register) :=
  (s.writing? id).bind (fun _ => s.call.returns)

/-- What the call hands back. -/
def reply (s : Moment) : BuilderReply := s.call.reply s.builder

/-- The register of a result that is handed back, if the function with the number is under
construction. -/
def result? (s : Moment) (id : FunctionId) : Option Register :=
  if s.builder.function? = some id then s.reply.result? else none

/-- The counters do not run out: there is a function number for the call if it takes one, a register
for each parameter of the function that it adds, and a register of the function under construction.
-/
structure HasRoom (s : Moment) : Prop where
  /-- The function number. -/
  function : s.builder.module.nextFunction.toNat + s.call.taken < 2 ^ 32
  /-- The registers of parameters. -/
  parameters : s.call.parameters < 2 ^ 32
  /-- The register of the function under construction. -/
  register : ∀ f ∈ s.builder.current?, f.nextRegister.toNat + 1 < 2 ^ 32

instance (s : Moment) : Decidable s.HasRoom :=
  decidable_of_iff (s.builder.module.nextFunction.toNat + s.call.taken < 2 ^ 32 ∧
      s.call.parameters < 2 ^ 32 ∧ ∀ f ∈ s.builder.current?, f.nextRegister.toNat + 1 < 2 ^ 32)
    ⟨fun ⟨hfunction, hparameters, hregister⟩ => ⟨hfunction, hparameters, hregister⟩,
      fun h => ⟨h.function, h.parameters, h.register⟩⟩

/-- Nothing is written where nothing is under construction. -/
theorem silent_of_none {s : Moment} (h : s.builder.function? = none) (id : FunctionId) :
    s.emitted id = none ∧ s.returned id = none := by
  simp [emitted, returned, writing?, h]

/-- Nor is anything by a call that writes nothing. -/
theorem silent {s : Moment} (hemits : ∀ m f, s.call.emits m f = none)
    (hreturns : s.call.returns = none) (id : FunctionId) :
    s.emitted id = none ∧ s.returned id = none := by
  simp [emitted, returned, hemits, hreturns]

/-- A call writes to the function under construction what it emits and returns. -/
theorem emitted_of_writes {s : Moment} {id : FunctionId} {f : Function}
    (h : s.builder.Writes id f) :
    s.emitted id = s.call.emits s.builder.module f ∧ s.returned id = s.call.returns := by
  simp [emitted, returned, writing?, h.function, h.stored]

/-- What is emitted is emitted for the function under construction. -/
theorem of_emitted {s : Moment} {id : FunctionId} {i : Instruction} (h : s.emitted id = some i) :
    s.builder.function? = some id ∧ ∃ g, s.call.emits s.builder.module g = some i := by
  obtain ⟨g, hg, hi⟩ := Option.bind_eq_some_iff.mp h
  rw [writing?, Option.ite_none_right_eq_some] at hg
  exact ⟨hg.1, g, hi⟩

theorem of_returned {s : Moment} {id : FunctionId} {value : Option Register}
    (h : s.returned id = some value) :
    s.builder.function? = some id ∧ s.call.returns = some value := by
  obtain ⟨g, hg, hvalue⟩ := Option.bind_eq_some_iff.mp h
  rw [writing?, Option.ite_none_right_eq_some] at hg
  exact ⟨hg.1, hvalue⟩

end Moment

/-- A function that was just added: its parameters have the first registers, and its body is
missing or has an empty block. -/
structure Function.Fresh (f : Function) : Prop where
  /-- It is plain. -/
  plain : f.Plain
  /-- Nothing is written yet. -/
  empty : f.isDeclaration = true ∨ f.Straight [] .unreachable

/-- A call hands back what it writes, and it writes where the last function was started. -/
structure Moment.Answered (s : Moment) : Prop where
  /-- What is handed back is the answer to the call. -/
  reply : s.reply = s.call.answer s.builder.module s.builder.current?
  /-- A function that is started is stored with an empty block under the number that is handed back,
  and it is under construction. -/
  started : ∀ name prototype linkage, s.call = .start name prototype linkage →
    ∃ f, s.reply = .function f.id ∧ f.name = name ∧ f.Straight [] .unreachable ∧
      s.after.Writes f.id f
  /-- A function that is declared is stored without a body under the number that is handed back. -/
  declared : ∀ name prototype linkage, s.call = .declare name prototype linkage →
    ∃ f, s.reply = .function f.id ∧ f.name = name ∧ f.isDeclaration = true ∧
      s.after.module.function? f.id = some f
  /-- The function under construction stays so until it is left or another one is started. -/
  stays : ∀ id, s.builder.function? = some id → s.call ≠ .finish →
    (∀ name prototype linkage, s.call ≠ .start name prototype linkage) →
    s.after.function? = some id

/-- What a call does to the module and to the place that is written. -/
inductive Moment.Effect (s : Moment) : Prop where
  /-- It adds a function, and goes on there or stays where it is. -/
  | adds {f : Function} (number : f.id = s.builder.module.nextFunction) (fresh : f.Fresh)
      (module : s.after.module = s.builder.module.addNext f)
      (silent : ∀ id, s.emitted id = none ∧ s.returned id = none)
      (place : s.after.function? = s.builder.function? ∧ s.after.block? = s.builder.block? ∨
        s.after.function? = some f.id ∧ s.after.block? = some 0)
  /-- It edits the function under construction. -/
  | edits {id : FunctionId} {f f' : Function} (writes : s.builder.Writes id f)
      (replaces : s.builder.Replaces id f' s.after)
      (edit : f.Edit (s.emitted id) (s.returned id) f')
  /-- It leaves the module alone, and nothing is under construction. -/
  | leaves (module : s.after.module = s.builder.module)
      (silent : ∀ id, s.emitted id = none ∧ s.returned id = none)
      (place : s.after.function? = none)

/-- A builder whose functions are plain and which writes to an entry block. -/
structure Builder.Plain (b : Builder) : Prop extends b.Sound where
  /-- The block under construction is the entry block. -/
  block : ∀ id, b.function? = some id → b.block? = some 0
  /-- Every function is plain. -/
  plain : ∀ id f, b.module.function? id = some f → f.Plain

namespace Function

/-- The registers of the parameters of an added function come first, so it is plain. -/
theorem Fresh.of_numbered {f : Function} {ps : List Parameter} (hroom : ps.length < 2 ^ 32)
    (hparams : f.prototype.params = numberParams 0 ps)
    (hnext : f.nextRegister = f.prototype.params.length.toUInt32)
    (hempty : f.isDeclaration = true ∨ f.Straight [] .unreachable) : f.Fresh := by
  have hdefined : f.defined = (List.range ps.length).map Nat.toUInt32 := by
    have hregisters : f.paramRegisters = (List.range ps.length).map Nat.toUInt32 := by
      rw [paramRegisters, hparams, registers_numberParams]
    rcases hempty with hdeclared | hs
    · rw [defined, IdMap.values, List.isEmpty_iff.mp hdeclared, hregisters]
      exact List.append_nil _
    · rw [hs.defined_eq, hregisters]
      exact List.append_nil _
  refine ⟨⟨fun hbody => ?_, ?_, ?_⟩, hempty⟩
  · rcases hempty with hdeclared | hs
    · cases hdeclared.symm.trans hbody
    · exact ⟨_, _, hs⟩
  · rw [hdefined, List.pairwise_map]
    refine List.pairwise_lt_range.imp_of_mem (fun hi hj hlt => ?_)
    apply lt_of_lt_toNat
    rwa [toNat_toUInt32 (Nat.lt_trans (List.mem_range.mp hj) hroom)]
  · rw [hdefined]
    intro r hr
    obtain ⟨i, hi, rfl⟩ := List.mem_map.mp hr
    apply lt_of_lt_toNat
    rw [hnext, hparams, length_numberParams, toNat_toUInt32 hroom]
    exact List.mem_range.mp hi

end Function

namespace Builder.Plain

variable {b : Builder}

theorem new (name : String) : (Builder.new (.new name)).Plain where
  toSound := .new (.new name)
  block id hid := by cases hid
  plain id f hf := by cases hf

/-- The function under construction is written in its only block. -/
theorem exists_writes (h : b.Plain) {id : FunctionId} (hid : b.function? = some id) :
    ∃ f, b.Writes id f := by
  obtain ⟨f, hf, hbody⟩ := h.current id hid
  exact ⟨f, hid, h.block id hid, hf, (h.plain id f hf).body hbody⟩

end Builder.Plain

/-- Where nothing is under construction, nothing is written and no register handed back. -/
theorem BuilderCall.run_of_none {b : Builder} (h : b.function? = none) (c : BuilderCall)
    (htaken : c.taken = 0) (hc : c ≠ .finish) :
    c.run b = b ∧ c.reply b = c.answer b.module none := by
  have hcurrent : b.current? = none := by rw [Builder.current?, h, Option.bind_none]
  have hmodify (change : Function → Function) : b.modifyCurrent change = b := by
    rw [Builder.modifyCurrent, h]
  have hblock (change : Block → Block) : b.modifyBlock change = (b, false) := by
    rw [Builder.modifyBlock, hcurrent]
    cases b.block? <;> rfl
  have hemit (ty? : Option Ty) (make : Register → Instruction) : b.emit ty? make = (b, none) := by
    rw [Builder.emit, Builder.allocRegister, hcurrent, hmodify]
    rfl
  have hwritten (change : Block → Block) : (b.modifyBlock change).1 = b ∧
      BuilderReply.done (b.modifyBlock change).2 = .done false := by
    simp only [hblock, and_self]
  have hresult (ty? : Option Ty) (make : Register → Instruction) : (b.emit ty? make).1 = b ∧
      BuilderReply.result (b.emit ty? make).2 = .result none := by
    simp only [hemit, and_self]
  cases c with
  | start name prototype linkage => cases htaken
  | declare name prototype linkage => cases htaken
  | finish => cases hc rfl
  | rename name =>
    exact ⟨hmodify _, congrArg (fun g? : Option Function => BuilderReply.done g?.isSome) hcurrent⟩
  | allocRegister =>
    refine ⟨hmodify _, ?_⟩
    exact congrArg (fun g? : Option Function => BuilderReply.allocated (g?.map (·.nextRegister)))
      hcurrent
  | setRegisterType r ty => exact ⟨hmodify _, rfl⟩
  | setLabel label => exact hwritten _
  | store ptr value => exact hwritten _
  | ret value => exact hwritten _
  | call callee args =>
    show (b.call callee args).1 = b ∧ BuilderReply.result (b.call callee args).2 = .result none
    unfold Builder.call Builder.push
    split
    · exact ⟨rfl, rfl⟩
    · rw [hblock, hemit]
      split <;> exact ⟨rfl, rfl⟩
  | const value => exact hresult (some value.ty) (fun dest => .const dest value)
  | load ptr ty => exact hresult (some ty) (fun dest => .load dest ptr ty)
  | binary op left right =>
    exact hresult ((b.registerType? left).or (b.registerType? right))
      (fun dest => .binary dest op left right)
  | unary op operand =>
    exact hresult (b.registerType? operand) (fun dest => .unary dest op operand)
  | compare op left right => exact hresult (some .bool) (fun dest => .compare dest op left right)
  | cast src source target =>
    exact hresult (some target) (fun dest => .cast dest src source target)

/-- A call that adds no function and does not leave one edits the function under construction. -/
theorem Moment.effect_of_stays {s : Moment} (h : s.builder.Plain) (htaken : s.call.taken = 0)
    (hc : s.call ≠ .finish) : s.Effect := by
  cases hcurrent : s.builder.function? with
  | none =>
    have hafter : s.after = s.builder := (s.call.run_of_none hcurrent htaken hc).1
    exact .leaves (congrArg Builder.module hafter) (silent_of_none hcurrent) (hafter ▸ hcurrent)
  | some id =>
    obtain ⟨f, hwrites⟩ := h.exists_writes hcurrent
    obtain ⟨f', hreplaces, hedit, -⟩ := hwrites.edit s.call htaken hc
    obtain ⟨hemitted, hreturned⟩ := emitted_of_writes hwrites
    exact .edits hwrites hreplaces (by rwa [hemitted, hreturned])

/-- Every call has one of the effects. -/
theorem Moment.effect {s : Moment} (h : s.builder.Plain) (hroom : s.HasRoom) : s.Effect := by
  obtain ⟨b, c⟩ := s
  dsimp only at h
  cases c with
  | start name prototype linkage =>
    exact .adds rfl (.of_numbered hroom.parameters rfl rfl (.inr ⟨none, rfl⟩)) rfl
      (silent (fun _ _ => rfl) rfl) (.inr ⟨rfl, rfl⟩)
  | declare name prototype linkage =>
    exact .adds rfl (.of_numbered hroom.parameters rfl rfl (.inl rfl)) rfl
      (silent (fun _ _ => rfl) rfl) (.inl ⟨rfl, rfl⟩)
  | finish => exact .leaves rfl (silent (fun _ _ => rfl) rfl) rfl
  | _ => exact effect_of_stays h rfl (by rintro ⟨⟩)

namespace Moment

variable {s : Moment} {id : FunctionId} {f : Function}

/-- A function of the module stays, edited by what is emitted and returned there. -/
theorem stored (h : s.builder.Plain) (hroom : s.HasRoom)
    (hf : s.builder.module.function? id = some f) :
    ∃ f', s.after.module.function? id = some f' ∧ f.Edit (s.emitted id) (s.returned id) f' := by
  cases effect h hroom with
  | @adds g number fresh module silent place =>
    have hne : s.builder.module.nextFunction ≠ id := by
      rintro rfl
      cases (h.module.free_of_le UInt32.le_rfl).1.symm.trans hf
    refine ⟨f, ?_, ?_⟩
    · rw [module, Module.function?_addNext number, if_neg hne, hf]
    · rw [(silent id).1, (silent id).2]
      exact .idle rfl rfl (.inl rfl)
  | @edits j g g' writes replaces edit =>
    by_cases he : j = id
    · subst he
      cases writes.stored.symm.trans hf
      exact ⟨g', (replaces.lookup j).trans (if_pos rfl), edit⟩
    · have hother : s.builder.function? ≠ some id := by
        rw [writes.function]
        exact fun heq => he (Option.some.inj heq)
      refine ⟨f, by rw [replaces.lookup, if_neg he, hf], ?_⟩
      simp only [emitted, returned, writing?, if_neg hother, Option.bind_none]
      exact .idle rfl rfl (.inl rfl)
  | leaves module silent place =>
    refine ⟨f, by rw [module, hf], ?_⟩
    rw [(silent id).1, (silent id).2]
    exact .idle rfl rfl (.inl rfl)

/-- A function that was not there is fresh, and nothing is written to it yet. -/
theorem added (h : s.builder.Plain) (hroom : s.HasRoom)
    (hnone : s.builder.module.function? id = none) (hf : s.after.module.function? id = some f) :
    f.Fresh := by
  cases effect h hroom with
  | @adds g number fresh module silent place =>
    rw [module, Module.function?_addNext number] at hf
    split at hf
    · cases hf
      exact fresh
    · cases hnone.symm.trans hf
  | @edits j g g' writes replaces edit =>
    rw [replaces.lookup] at hf
    split at hf
    next he =>
      subst he
      cases writes.stored.symm.trans hnone
    next => cases hnone.symm.trans hf
  | leaves module silent place =>
    rw [module] at hf
    cases hnone.symm.trans hf

/-- The functions stay plain. -/
theorem plain_after (h : s.builder.Plain) (hroom : s.HasRoom) : s.after.Plain where
  toSound := h.toSound.call s.call hroom.function
  block id hid := by
    cases effect h hroom with
    | adds number fresh module silent place =>
      rcases place with ⟨hfunction, hblock⟩ | ⟨-, hblock⟩
      · exact hblock.trans (h.block id (hfunction.symm.trans hid))
      · exact hblock
    | edits writes replaces edit => exact replaces.block.trans writes.block
    | leaves module silent place => cases place.symm.trans hid
  plain id f hf := by
    cases effect h hroom with
    | adds number fresh module silent place =>
      rw [module, Module.function?_addNext number] at hf
      split at hf
      · cases hf
        exact fresh.plain
      · exact h.plain id f hf
    | edits writes replaces edit =>
      rw [replaces.lookup] at hf
      split at hf
      · cases hf
        obtain ⟨is, t, hs⟩ := writes.straight
        exact edit.plain (h.plain _ _ writes.stored) hs (hroom.register _ writes.current?)
      · exact h.plain id f hf
    | leaves module silent place => exact h.plain id f (module ▸ hf)

/-- What is handed back is the answer to the call. -/
theorem reply_eq (h : s.builder.Plain) :
    s.reply = s.call.answer s.builder.module s.builder.current? := by
  have hother (htaken : s.call.taken = 0) (hc : s.call ≠ .finish) :
      s.reply = s.call.answer s.builder.module s.builder.current? := by
    cases hcurrent : s.builder.function? with
    | none =>
      rw [Builder.current?, hcurrent]
      exact (s.call.run_of_none hcurrent htaken hc).2
    | some id =>
      obtain ⟨f, hwrites⟩ := h.exists_writes hcurrent
      obtain ⟨f', -, -, hreply⟩ := hwrites.edit s.call htaken hc
      rwa [hwrites.current?]
  obtain ⟨b, c⟩ := s
  cases c with
  | start name prototype linkage => rfl
  | declare name prototype linkage => rfl
  | finish => rfl
  | _ => exact hother rfl (by rintro ⟨⟩)

/-- The result that is handed back is what the emitted instruction writes. -/
theorem result?_eq (h : s.builder.Plain) (id : FunctionId) :
    s.result? id = (s.emitted id).bind (·.dest) := by
  rw [result?, emitted, writing?]
  split
  next hid =>
    rw [reply_eq h, BuilderCall.result?_answer, Builder.current?, hid]
    rfl
  next => rfl

/-- A call is answered, and a function is under construction from its start on. -/
theorem answered (h : s.builder.Plain) : s.Answered where
  reply := reply_eq h
  started name prototype linkage hc := by
    obtain ⟨b, c⟩ := s
    cases hc
    let made := Function.new b.module.nextFunction name prototype
    let f := { made with attributes := { made.attributes with linkage := linkage } }
    have hstored : (b.module.addNext f).function? f.id = some f := Module.function?_addNext_self rfl
    exact ⟨f, rfl, rfl, ⟨none, rfl⟩, rfl, rfl, hstored, [], .unreachable, none, rfl⟩
  declared name prototype linkage hc := by
    obtain ⟨b, c⟩ := s
    cases hc
    let made := Function.declaration b.module.nextFunction name prototype
    let f := { made with attributes := { made.attributes with linkage := linkage } }
    exact ⟨f, rfl, rfl, rfl, Module.function?_addNext_self rfl⟩
  stays id hid hfinish hstart := by
    obtain ⟨f, hwrites⟩ := h.exists_writes hid
    obtain ⟨b, c⟩ := s
    cases c with
    | start name prototype linkage => exact absurd rfl (hstart name prototype linkage)
    | declare name prototype linkage => exact hid
    | finish => exact absurd rfl hfinish
    | _ =>
      obtain ⟨f', hreplaces, -⟩ := hwrites.edit _ rfl hfinish
      exact hreplaces.function.trans hid

end Moment

namespace Builder

/-- The builder after calls one after the other. -/
def runAll (b : Builder) (calls : List BuilderCall) : Builder := calls.foldl BuilderCall.run b

/-- The moments of calls that are made one after the other. -/
def moments (b : Builder) : List BuilderCall → List Moment
  | [] => []
  | c :: rest => ⟨b, c⟩ :: (c.run b).moments rest

/-- The instructions that calls add to the function with a number, in order. -/
def emitted (b : Builder) (calls : List BuilderCall) (id : FunctionId) : List Instruction :=
  (b.moments calls).filterMap (·.emitted id)

/-- The results that calls hand back while the function with a number is under construction. -/
def results (b : Builder) (calls : List BuilderCall) (id : FunctionId) : List Register :=
  (b.moments calls).filterMap (·.result? id)

/-- The last return that calls end the function with a number with. -/
def returned (b : Builder) (calls : List BuilderCall) (id : FunctionId) :
    Option (Option Register) :=
  ((b.moments calls).filterMap (·.returned id)).getLast?

variable {b : Builder} {calls rest : List BuilderCall} {c : BuilderCall} {id : FunctionId}

theorem emitted_cons : b.emitted (c :: rest) id =
    ((⟨b, c⟩ : Moment).emitted id).toList ++ (c.run b).emitted rest id := by
  unfold emitted
  rw [moments, List.filterMap_cons]
  cases (⟨b, c⟩ : Moment).emitted id <;> rfl

theorem returned_cons : b.returned (c :: rest) id =
    ((c.run b).returned rest id).or ((⟨b, c⟩ : Moment).returned id) := by
  unfold returned
  rw [moments, List.filterMap_cons]
  cases (⟨b, c⟩ : Moment).returned id with
  | none => exact (Option.or_none).symm
  | some value =>
    rw [List.getLast?_cons]
    cases (((c.run b).moments rest).filterMap (·.returned id)).getLast? <;> rfl

/-- What calls make of the function `f` with a number. -/
structure Makes (b : Builder) (calls : List BuilderCall) (id : FunctionId) (f : Function) :
    Prop where
  /-- It has a body if it was under construction. -/
  bodied : ∀ s ∈ b.moments calls, s.builder.function? = some id → f.isDeclaration = false
  /-- The body is what the calls emitted, and it ends with the last return. -/
  body : f.isDeclaration = false →
    f.Straight (b.emitted calls id) ((b.returned calls id).elim .unreachable .ret)
  /-- While it was under construction, the registers of its parameters were found by their
  positions. -/
  parameters : ∀ s ∈ b.moments calls, s.builder.function? = some id →
    ∀ index, s.builder.paramRegister? index = f.paramRegisters[index]?
  /-- It defines its parameters and the results that were handed back, each of them where it was
  handed back. -/
  results : f.defined = f.paramRegisters ++ b.results calls id

namespace Plain

/-- A run of calls keeps the functions plain. -/
theorem runAll (h : b.Plain) (hroom : ∀ s ∈ b.moments calls, s.HasRoom) :
    (b.runAll calls).Plain := by
  induction calls generalizing b with
  | nil => exact h
  | cons c rest ih =>
    obtain ⟨hnow, hlater⟩ := List.forall_mem_cons.mp hroom
    exact ih (Moment.plain_after h hnow) hlater

/-- A function of the module goes on with what the calls emit and return. -/
theorem continues (h : b.Plain) (hroom : ∀ s ∈ b.moments calls, s.HasRoom) {f : Function}
    (hf : b.module.function? id = some f) :
    ∃ f', (b.runAll calls).module.function? id = some f' ∧
      f.Continues (b.emitted calls id) (b.returned calls id) f' := by
  induction calls generalizing b f with
  | nil => exact ⟨f, hf, (Function.Edit.idle rfl rfl (.inl rfl)).toContinues⟩
  | cons c rest ih =>
    obtain ⟨hnow, hlater⟩ := List.forall_mem_cons.mp hroom
    obtain ⟨f', hf', hedit⟩ := Moment.stored h hnow hf
    obtain ⟨f'', hf'', hcontinues⟩ := ih (Moment.plain_after h hnow) hlater hf'
    rw [emitted_cons, returned_cons]
    exact ⟨f'', hf'', hedit.toContinues.trans hcontinues⟩

/-- The body of a function that the calls added is what they emitted, and it ends with the last
return. -/
theorem straight (h : b.Plain) (hroom : ∀ s ∈ b.moments calls, s.HasRoom) {f : Function}
    (hnone : b.module.function? id = none) (hf : (b.runAll calls).module.function? id = some f)
    (hbody : f.isDeclaration = false) :
    f.Straight (b.emitted calls id) ((b.returned calls id).elim .unreachable .ret) := by
  induction calls generalizing b with
  | nil => cases hnone.symm.trans hf
  | cons c rest ih =>
    obtain ⟨hnow, hlater⟩ := List.forall_mem_cons.mp hroom
    have hplain := Moment.plain_after h hnow
    have hidle : (⟨b, c⟩ : Moment).emitted id = none ∧ (⟨b, c⟩ : Moment).returned id = none := by
      simp [Moment.emitted, Moment.returned, Moment.writing?, hnone]
    rw [emitted_cons, returned_cons, hidle.1, hidle.2, Option.or_none]
    cases hnew : (c.run b).module.function? id with
    | none => exact ih hplain hlater hnew hf
    | some f₀ =>
      have hfresh := Moment.added h hnow hnone hnew
      obtain ⟨f', hf', hcontinues⟩ := hplain.continues hlater hnew
      cases hf'.symm.trans hf
      rcases hfresh.empty with hdeclared | hempty
      · cases (hcontinues.declared.trans hdeclared).symm.trans hbody
      · exact hcontinues.body _ _ hempty

/-- Every call is made on a plain builder, and the functions that it finds go on to the end. -/
theorem of_mem_moments (h : b.Plain) (hroom : ∀ s ∈ b.moments calls, s.HasRoom) {s : Moment}
    (hs : s ∈ b.moments calls) :
    s.builder.Plain ∧ ∀ id g, s.builder.module.function? id = some g →
      ∃ f is value?, (b.runAll calls).module.function? id = some f ∧ g.Continues is value? f := by
  induction calls generalizing b with
  | nil => cases hs
  | cons c rest ih =>
    rcases List.mem_cons.mp hs with rfl | hs
    · refine ⟨h, fun id g hg => ?_⟩
      obtain ⟨f, hf, hcontinues⟩ := h.continues hroom hg
      exact ⟨f, _, _, hf, hcontinues⟩
    · obtain ⟨hnow, hlater⟩ := List.forall_mem_cons.mp hroom
      exact ih (Moment.plain_after h hnow) hlater hs

/-- The results of calls are what the emitted instructions write. -/
theorem filterMap_result? (h : b.Plain) (hroom : ∀ s ∈ b.moments calls, s.HasRoom)
    {l : List Moment} (hl : l ⊆ b.moments calls) (id : FunctionId) :
    l.filterMap (·.result? id) = writes (l.filterMap (·.emitted id)) := by
  rw [writes, List.filterMap_filterMap]
  exact List.filterMap_congr
    (fun s hs => Moment.result?_eq (h.of_mem_moments hroom (hl hs)).1 id)

/-- A function under construction is stored with a body, and goes on to the end. -/
theorem continues_of_mem (h : b.Plain) (hroom : ∀ s ∈ b.moments calls, s.HasRoom) {f : Function}
    (hf : (b.runAll calls).module.function? id = some f) {s : Moment} (hs : s ∈ b.moments calls)
    (hid : s.builder.function? = some id) :
    ∃ g is value?, s.builder.current? = some g ∧ g.isDeclaration = false ∧
      g.Continues is value? f := by
  obtain ⟨hplain, hlater⟩ := h.of_mem_moments hroom hs
  obtain ⟨g, hg, hbody⟩ := hplain.current id hid
  obtain ⟨f', is, value?, hf', hcontinues⟩ := hlater id g hg
  cases hf'.symm.trans hf
  exact ⟨g, is, value?, by rw [current?, hid, Option.bind_some, hg], hbody, hcontinues⟩

/-- What calls make of a function that was not there before. -/
theorem makes (h : b.Plain) (hroom : ∀ s ∈ b.moments calls, s.HasRoom) {f : Function}
    (hnone : b.module.function? id = none) (hf : (b.runAll calls).module.function? id = some f) :
    b.Makes calls id f := by
  have hbodied : ∀ s ∈ b.moments calls, s.builder.function? = some id →
      f.isDeclaration = false := by
    intro s hs hid
    obtain ⟨g, is, value?, -, hbody, hcontinues⟩ := h.continues_of_mem hroom hf hs hid
    rw [hcontinues.declared, hbody]
  refine ⟨hbodied, h.straight hroom hnone hf, fun s hs hid index => ?_, ?_⟩
  · obtain ⟨g, is, value?, hcurrent, -, hcontinues⟩ := h.continues_of_mem hroom hf hs hid
    rw [paramRegister?, hcurrent, Option.bind_some, Function.paramRegister?, ← hcontinues.prototype,
      Function.paramRegisters, List.getElem?_map]
  · cases hbody : f.isDeclaration with
    | false =>
      rw [(h.straight hroom hnone hf hbody).defined_eq, results,
        h.filterMap_result? hroom (List.Subset.refl _), emitted]
    | true =>
      have hnothing : b.results calls id = [] := by
        refine List.filterMap_eq_nil_iff.mpr (fun s hs => if_neg (fun hid => ?_))
        cases hbody.symm.trans (hbodied s hs hid)
      rw [hnothing, Function.defined, IdMap.values, List.isEmpty_iff.mp hbody, List.map_nil,
        List.flatMap_nil]

end Plain

end Builder

end KernelFusion

import KernelFusion.Proofs.Building
import KernelFusion.Proofs.Rules

/-!
# What a builder's call writes

A function that is built has one block. A call of the builder touches no function but the one under
construction: it may add one instruction there, which reads what the caller passed and writes the
next register, or it may end the block with a return. The register that it hands back is the one
that the instruction writes. So the registers of a function are defined in ascending order, all of
them below the next one.
-/

namespace KernelFusion

/-- The registers that a call passes. -/
def BuilderCall.operands : BuilderCall → List Register
  | load ptr _ => [ptr]
  | store ptr value => [ptr, value]
  | binary _ left right => [left, right]
  | unary _ operand => [operand]
  | compare _ left right => [left, right]
  | cast src _ _ => [src]
  | call _ args => args
  | ret value => value.toList
  | start _ _ _ | declare _ _ _ | finish | rename _ | setLabel _ | allocRegister
  | setRegisterType _ _ | const _ => []

/-- The instruction that a call adds to a function of a module. -/
def BuilderCall.emits (m : Module) (f : Function) : BuilderCall → Option Instruction
  | const value => some (.const f.nextRegister value)
  | load ptr ty => some (.load f.nextRegister ptr ty)
  | store ptr value => some (.store ptr value)
  | binary op left right => some (.binary f.nextRegister op left right)
  | unary op operand => some (.unary f.nextRegister op operand)
  | compare op left right => some (.compare f.nextRegister op left right)
  | cast src source target => some (.cast f.nextRegister src source target)
  | call callee args => (m.function? callee).map (fun g =>
      .call (if g.result.isVoid then none else some f.nextRegister) callee args)
  | start _ _ _ | declare _ _ _ | finish | rename _ | setLabel _ | allocRegister
  | setRegisterType _ _ | ret _ => none

/-- The return that a call ends a function with. -/
def BuilderCall.returns : BuilderCall → Option (Option Register)
  | ret value => some value
  | _ => none

/-- What a call hands back where the function `f?` of a module is under construction: the number of
a function that it adds, the register of the instruction that it emits, or whether there is a
function to write to. -/
def BuilderCall.answer (m : Module) (f? : Option Function) : BuilderCall → BuilderReply
  | start _ _ _ | declare _ _ _ => .function m.nextFunction
  | finish | setRegisterType _ _ => .nothing
  | allocRegister => .allocated (f?.map (·.nextRegister))
  | rename _ | setLabel _ | store _ _ | ret _ => .done f?.isSome
  | c => .result ((f?.bind (c.emits m)).bind (·.dest))

/-- The register of a result that is handed back. -/
def BuilderReply.result? : BuilderReply → Option Register
  | result r? => r?
  | _ => none

/-- The result is what the instruction writes that the call emits. -/
theorem BuilderCall.result?_answer (m : Module) (f? : Option Function) (c : BuilderCall) :
    (c.answer m f?).result? = (f?.bind (c.emits m)).bind (·.dest) := by
  cases c <;> cases f? <;> rfl

/-- An instruction reads the registers that were passed. -/
theorem BuilderCall.uses_emits {m : Module} {f : Function} {c : BuilderCall} {i : Instruction}
    (h : c.emits m f = some i) : i.uses = c.operands := by
  cases c with
  | call callee args =>
    obtain ⟨g, -, rfl⟩ := Option.map_eq_some_iff.mp h
    rfl
  | _ => cases h <;> rfl

/-- A return passes the register that it gives. -/
theorem BuilderCall.operands_of_returns {c : BuilderCall} {value : Option Register}
    (h : c.returns = some value) : c.operands = value.toList := by
  cases c with
  | ret value' =>
    cases h
    rfl
  | _ => cases h

/-- A call is only emitted for a function of the module, and it binds a result if there is one. -/
theorem BuilderCall.emits_call {m : Module} {f : Function} {c : BuilderCall}
    {dest : Option Register} {callee : FunctionId} {args : List Register}
    (h : c.emits m f = some (.call dest callee args)) :
    c = .call callee args ∧
      ∃ g, m.function? callee = some g ∧ dest.isSome = !g.result.isVoid := by
  cases c with
  | call callee args =>
    obtain ⟨g, hg, he⟩ := Option.map_eq_some_iff.mp h
    cases he
    refine ⟨rfl, g, hg, ?_⟩
    cases g.result.isVoid <;> rfl
  | _ => cases h

/-- The only block of the body has these instructions and this terminator. -/
def Function.Straight (f : Function) (is : List Instruction) (t : Terminator) : Prop :=
  ∃ label, f.graph.blocks.entries = [(0, ⟨0, label, is, t, []⟩)]

/-- The registers that a function defines: those of its parameters, then those that its blocks
write. -/
def Function.defined (f : Function) : List Register :=
  f.paramRegisters ++ f.graph.blocks.values.flatMap Block.writes

/-- The body has at most one block, and it defines registers in ascending order, all of them below
the next one. -/
structure Function.Plain (f : Function) : Prop where
  /-- A body has one block. -/
  body : f.isDeclaration = false → ∃ is t, f.Straight is t
  /-- Registers are defined in ascending order. -/
  ascending : f.defined.Pairwise (· < ·)
  /-- They are below the next one. -/
  below : ∀ r ∈ f.defined, r < f.nextRegister

/-- A function after instructions were added to its block and a return perhaps became its end. -/
structure Function.Continues (is : List Instruction) (value? : Option (Option Register))
    (f f' : Function) : Prop where
  /-- The prototype stays. -/
  prototype : f'.prototype = f.prototype
  /-- A declaration stays one. -/
  declared : f'.isDeclaration = f.isDeclaration
  /-- The block goes on. -/
  body : ∀ before t, f.Straight before t → f'.Straight (before ++ is) (value?.elim t .ret)

/-- A function after a call that added at most one instruction. -/
structure Function.Edit (i? : Option Instruction) (value? : Option (Option Register))
    (f f' : Function) : Prop extends Function.Continues i?.toList value? f f' where
  /-- At most one register is taken. -/
  next : f'.nextRegister = f.nextRegister ∨ f'.nextRegister = f.nextRegister + 1
  /-- What the instruction writes is the next register, and it is taken. -/
  dest : ∀ i r, i? = some i → i.dest = some r →
    r = f.nextRegister ∧ f'.nextRegister = f.nextRegister + 1

namespace Function

variable {f f' : Function} {is : List Instruction} {t : Terminator}

theorem Straight.defined_eq (h : f.Straight is t) : f.defined = f.paramRegisters ++ writes is := by
  obtain ⟨label, hentries⟩ := h
  rw [defined, IdMap.values, hentries]
  simp [Block.writes]

theorem Straight.contains (h : f.Straight is t) : f.graph.blocks.contains 0 = true := by
  obtain ⟨label, hentries⟩ := h
  rw [IdMap.contains, IdMap.get?, hentries]
  rfl

theorem Continues.paramRegisters {value? : Option (Option Register)}
    (h : Continues is value? f f') : f'.paramRegisters = f.paramRegisters := by
  rw [Function.paramRegisters, h.prototype, Function.paramRegisters]

/-- A function that goes on defines what the new instructions write. -/
theorem Continues.defined_eq {value? : Option (Option Register)} {before : List Instruction}
    (h : Continues is value? f f') (hs : f.Straight before t) :
    f'.defined = f.defined ++ writes is := by
  rw [(h.body before t hs).defined_eq, hs.defined_eq, h.paramRegisters, writes, writes, writes,
    List.filterMap_append, List.append_assoc]

theorem Continues.trans {is' : List Instruction} {value? value?' : Option (Option Register)}
    {f'' : Function} (h : Continues is value? f f') (h' : Continues is' value?' f' f'') :
    Continues (is ++ is') (value?'.or value?) f f'' where
  prototype := h'.prototype.trans h.prototype
  declared := h'.declared.trans h.declared
  body before t hs := by
    have hbody := h'.body _ _ (h.body before t hs)
    rw [List.append_assoc] at hbody
    cases value?' <;> exact hbody

/-- Editing a function leaves it plain while registers do not run out. -/
theorem Edit.plain {i? : Option Instruction} {value? : Option (Option Register)}
    (h : Edit i? value? f f') (hf : f.Plain) (hs : f.Straight is t)
    (hroom : f.nextRegister.toNat + 1 < 2 ^ 32) : f'.Plain := by
  have hnext : f.nextRegister < f.nextRegister + 1 := lt_add_one_of_room hroom
  have hle : f.nextRegister ≤ f'.nextRegister := by
    rcases h.next with he | he <;> rw [he]
    · exact UInt32.le_rfl
    · exact UInt32.le_of_lt hnext
  have hnew : ∀ r ∈ writes i?.toList, r = f.nextRegister ∧ r < f'.nextRegister := by
    intro r hr
    obtain ⟨i, hi, hdest⟩ := List.mem_filterMap.mp hr
    obtain ⟨rfl, htaken⟩ := h.dest i r (Option.mem_toList.mp hi) hdest
    exact ⟨rfl, htaken ▸ hnext⟩
  have hone : (writes i?.toList).Pairwise (· < ·) := by
    cases i? with
    | none => exact .nil
    | some i => cases hdest : i.dest <;> simp [writes, hdest]
  refine ⟨fun _ => ⟨_, _, h.body is t hs⟩, ?_, ?_⟩ <;> rw [h.defined_eq hs]
  · refine List.pairwise_append.mpr ⟨hf.ascending, hone, fun r hr r' hr' => ?_⟩
    rw [(hnew r' hr').1]
    exact hf.below r hr
  · intro r hr
    rcases List.mem_append.mp hr with hr | hr
    · exact UInt32.lt_of_lt_of_le (hf.below r hr) hle
    · exact (hnew r hr).2

end Function

namespace Builder

/-- A builder that differs from another one in a single function. -/
structure Replaces (b : Builder) (id : FunctionId) (f : Function) (b' : Builder) : Prop where
  /-- The same function is under construction. -/
  function : b'.function? = b.function?
  /-- The same block is under construction. -/
  block : b'.block? = b.block?
  /-- The function is replaced, all others stay. -/
  lookup : ∀ j, b'.module.function? j = if id = j then some f else b.module.function? j

namespace Replaces

variable {b b' : Builder} {id : FunctionId} {f : Function}

theorem refl (hf : b.module.function? id = some f) : b.Replaces id f b := by
  refine ⟨rfl, rfl, fun j => ?_⟩
  split
  next he => exact he ▸ hf
  next => rfl

/-- The function under construction is replaced again. -/
theorem modifyCurrent (h : b.Replaces id f b') (hid : b.function? = some id)
    (change : Function → Function) : b.Replaces id (change f) (b'.modifyCurrent change) := by
  have hcurrent : b'.function? = some id := h.function.trans hid
  simp only [Builder.modifyCurrent, hcurrent]
  refine ⟨hid.symm, h.block, fun j => ?_⟩
  have hlookup : (b'.module.functions.modify id change).get? j =
      (b'.module.function? j).map (fun g => if j = id then change g else g) :=
    IdMap.get?_mapValues _ _ _
  rw [Module.function?, hlookup, h.lookup]
  by_cases he : id = j
  · subst he
    simp
  · simp [he, Ne.symm he]

/-- So is its entry block, which is there. -/
theorem modifyBlock (h : b.Replaces id f b') (hid : b.function? = some id)
    (hblock : b.block? = some 0) (hentry : f.graph.blocks.contains 0 = true)
    (change : Block → Block) :
    b.Replaces id (f.modifyBlock 0 change) (b'.modifyBlock change).1 ∧
      (b'.modifyBlock change).2 = true := by
  have hcurrent : b'.current? = some f := by
    rw [current?, h.function, hid, Option.bind_some, h.lookup, if_pos rfl]
  rw [Builder.modifyBlock, h.block, hblock, hcurrent]
  simp only [hentry, if_true, and_true]
  exact h.modifyCurrent hid (fun g => g.modifyBlock 0 change)

end Replaces

/-- The function `f` is under construction, in its only block. -/
structure Writes (b : Builder) (id : FunctionId) (f : Function) : Prop where
  /-- It is the function under construction. -/
  function : b.function? = some id
  /-- Its entry block is the block under construction. -/
  block : b.block? = some 0
  /-- It is stored. -/
  stored : b.module.function? id = some f
  /-- It has one block. -/
  straight : ∃ is t, f.Straight is t

end Builder

/-- Changing a block changes it where it is listed. -/
theorem Function.entries_modifyBlock (f : Function) (id : BlockId) (change : Block → Block) :
    (f.modifyBlock id change).graph.blocks.entries =
      f.graph.blocks.entries.map (fun e => (e.1, if e.1 = id then change e.2 else e.2)) := rfl

namespace Function.Edit

variable {f g : Function}

/-- Nothing but the name may change. -/
theorem idle (hprototype : g.prototype = f.prototype) (hgraph : g.graph = f.graph)
    (hnext : g.nextRegister = f.nextRegister ∨ g.nextRegister = f.nextRegister + 1) :
    Edit none none f g where
  prototype := hprototype
  body is t h := by
    obtain ⟨label, hentries⟩ := h
    exact ⟨label, by rw [hgraph, hentries, Option.toList_none, List.append_nil, Option.elim_none]⟩
  declared := by rw [isDeclaration, hgraph, isDeclaration]
  next := hnext
  dest i r hi := by cases hi

/-- The only block changes by instructions at its end and by its terminator. -/
theorem block {i? : Option Instruction} {value? : Option (Option Register)} {change : Block → Block}
    (hprototype : g.prototype = f.prototype) (hgraph : g.graph = f.graph)
    (hnext : g.nextRegister = f.nextRegister ∨ g.nextRegister = f.nextRegister + 1)
    (hchange : ∀ label is t, ∃ label', change ⟨0, label, is, t, []⟩ =
      ⟨0, label', is ++ i?.toList, value?.elim t .ret, []⟩)
    (hdest : ∀ i r, i? = some i → i.dest = some r →
      r = f.nextRegister ∧ g.nextRegister = f.nextRegister + 1) :
    Edit i? value? f (g.modifyBlock 0 change) where
  prototype := hprototype
  body is t h := by
    obtain ⟨label, hentries⟩ := h
    obtain ⟨label', heq⟩ := hchange label is t
    refine ⟨label', ?_⟩
    rw [entries_modifyBlock, hgraph, hentries, List.map_singleton, if_pos rfl, heq]
  declared := by
    rw [isDeclaration, Graph.isEmpty, IdMap.isEmpty, entries_modifyBlock, hgraph, List.isEmpty_map]
    rfl
  next := hnext
  dest := hdest

end Function.Edit

namespace Builder.Writes

variable {b : Builder} {id : FunctionId} {f : Function}

theorem current? (h : b.Writes id f) : b.current? = some f := by
  rw [Builder.current?, h.function, Option.bind_some, h.stored]

theorem contains (h : b.Writes id f) : f.graph.blocks.contains 0 = true := by
  obtain ⟨is, t, hs⟩ := h.straight
  exact hs.contains

/-- Changing the block under construction edits the function, and there is one. -/
theorem modifyBlock (h : b.Writes id f) (i? : Option Instruction)
    (value? : Option (Option Register)) (change : Block → Block)
    (hchange : ∀ label is t, ∃ label', change ⟨0, label, is, t, []⟩ =
      ⟨0, label', is ++ i?.toList, value?.elim t .ret, []⟩)
    (hdest : ∀ i, i? = some i → i.dest = none) :
    ∃ f', b.Replaces id f' (b.modifyBlock change).1 ∧ f.Edit i? value? f' ∧
      (b.modifyBlock change).2 = true := by
  obtain ⟨hreplaces, hdone⟩ :=
    (Replaces.refl h.stored).modifyBlock h.function h.block h.contains change
  refine ⟨_, hreplaces, .block rfl rfl (.inl rfl) hchange (fun i r hi hr => ?_), hdone⟩
  cases (hdest i hi).symm.trans hr

/-- Emitting an instruction takes the next register for it, adds it and hands the register back. -/
theorem emit (h : b.Writes id f) (ty? : Option Ty) (make : Register → Instruction)
    (hmake : (make f.nextRegister).dest = some f.nextRegister) :
    ∃ f', b.Replaces id f' (b.emit ty? make).1 ∧ f.Edit (some (make f.nextRegister)) none f' ∧
      (b.emit ty? make).2 = some f.nextRegister := by
  have halloc : b.Replaces id f.allocRegister.1 b.allocRegister.1 :=
    (Replaces.refl h.stored).modifyCurrent h.function (fun f => f.allocRegister.1)
  have hregister : b.allocRegister.2 = some f.nextRegister := by
    rw [allocRegister, h.current?]
    rfl
  have hdest : ∀ i r, some (make f.nextRegister) = some i → i.dest = some r →
      r = f.nextRegister ∧ f.nextRegister + 1 = f.nextRegister + 1 := by
    rintro i r ⟨⟩ hr
    exact ⟨Option.some.inj (hr.symm.trans hmake), rfl⟩
  rcases hb : b.allocRegister with ⟨b', r⟩
  rw [hb] at halloc hregister
  cases hregister
  unfold Builder.emit
  rw [hb]
  cases ty? with
  | none =>
    obtain ⟨hreplaces, hdone⟩ := halloc.modifyBlock h.function h.block h.contains
      (fun block => block.push (make f.nextRegister))
    exact ⟨_, hreplaces, .block rfl rfl (.inr rfl) (fun label is t => ⟨label, rfl⟩) hdest,
      if_pos hdone⟩
  | some ty =>
    obtain ⟨hreplaces, hdone⟩ := (halloc.modifyCurrent h.function
        (fun g => g.setRegisterType f.nextRegister ty)).modifyBlock h.function h.block h.contains
      (fun block => block.push (make f.nextRegister))
    exact ⟨_, hreplaces, .block rfl rfl (.inr rfl) (fun label is t => ⟨label, rfl⟩) hdest,
      if_pos hdone⟩

/-- A call edits the function under construction by what it emits and returns, unless it starts,
declares or leaves a function, and it hands back what it writes. -/
theorem edit (h : b.Writes id f) (c : BuilderCall) (htaken : c.taken = 0) (hc : c ≠ .finish) :
    ∃ f', b.Replaces id f' (c.run b) ∧ f.Edit (c.emits b.module f) c.returns f' ∧
      c.reply b = c.answer b.module (some f) := by
  have hstored := Replaces.refl h.stored
  have hpush {i : Instruction} (hi : i.dest = none) : ∃ f', b.Replaces id f' (b.push i).1 ∧
      f.Edit (some i) none f' ∧ (b.push i).2 = true :=
    h.modifyBlock (some i) none (·.push i) (fun label is t => ⟨label, rfl⟩)
      (fun j hj => Option.some.inj hj ▸ hi)
  have hemit (ty? : Option Ty) (make : Register → Instruction)
      (hmake : (make f.nextRegister).dest = some f.nextRegister) :
      ∃ f', b.Replaces id f' (b.emit ty? make).1 ∧ f.Edit (some (make f.nextRegister)) none f' ∧
        BuilderReply.result (b.emit ty? make).2 = .result (make f.nextRegister).dest := by
    obtain ⟨f', hreplaces, hedit, hresult⟩ := h.emit ty? make hmake
    exact ⟨f', hreplaces, hedit, by rw [hresult, hmake]⟩
  cases c with
  | start name prototype linkage => cases htaken
  | declare name prototype linkage => cases htaken
  | finish => cases hc rfl
  | rename name =>
    refine ⟨_, hstored.modifyCurrent h.function (fun f => { f with name := name }),
      .idle rfl rfl (.inl rfl), ?_⟩
    exact congrArg (fun g? : Option Function => BuilderReply.done g?.isSome) h.current?
  | setLabel label =>
    obtain ⟨f', hreplaces, hedit, hdone⟩ := h.modifyBlock none none
      (fun block => { block with label := some label }) (fun _ is t => ⟨some label, by simp⟩)
      (fun i hi => by cases hi)
    exact ⟨f', hreplaces, hedit, congrArg BuilderReply.done hdone⟩
  | allocRegister =>
    refine ⟨_, hstored.modifyCurrent h.function (fun f => f.allocRegister.1),
      .idle rfl rfl (.inr rfl), ?_⟩
    exact congrArg (fun g? : Option Function => BuilderReply.allocated (g?.map (·.nextRegister)))
      h.current?
  | setRegisterType r ty =>
    exact ⟨_, hstored.modifyCurrent h.function (fun f => f.setRegisterType r ty),
      .idle rfl rfl (.inl rfl), rfl⟩
  | store ptr value =>
    obtain ⟨f', hreplaces, hedit, hdone⟩ := hpush (i := .store ptr value) rfl
    exact ⟨f', hreplaces, hedit, congrArg BuilderReply.done hdone⟩
  | const value => exact hemit (some value.ty) (fun dest => .const dest value) rfl
  | load ptr ty => exact hemit (some ty) (fun dest => .load dest ptr ty) rfl
  | binary op left right =>
    exact hemit ((b.registerType? left).or (b.registerType? right))
      (fun dest => .binary dest op left right) rfl
  | unary op operand =>
    exact hemit (b.registerType? operand) (fun dest => .unary dest op operand) rfl
  | compare op left right => exact hemit (some .bool) (fun dest => .compare dest op left right) rfl
  | cast src source target =>
    exact hemit (some target) (fun dest => .cast dest src source target) rfl
  | ret value =>
    obtain ⟨f', hreplaces, hedit, hdone⟩ := h.modifyBlock none (some value)
      (fun block => { block with terminator := .ret value }) (fun label is t => ⟨label, by simp⟩)
      (fun i hi => by cases hi)
    exact ⟨f', hreplaces, hedit, congrArg BuilderReply.done hdone⟩
  | call callee args =>
    show ∃ f', b.Replaces id f' (b.call callee args).1 ∧ f.Edit _ _ f' ∧
      BuilderReply.result (b.call callee args).2 =
        .result (((BuilderCall.call callee args).emits b.module f).bind (·.dest))
    rw [Builder.call, BuilderCall.emits]
    cases b.module.function? callee with
    | none => exact ⟨f, hstored, .idle rfl rfl (.inl rfl), rfl⟩
    | some g =>
      dsimp only [Option.map_some]
      cases g.result.isVoid with
      | true =>
        obtain ⟨f', hreplaces, hedit, -⟩ := hpush (i := .call none callee args) rfl
        exact ⟨f', hreplaces, hedit, rfl⟩
      | false => exact hemit (some g.result) (fun r => .call (some r) callee args) rfl

end Builder.Writes

end KernelFusion

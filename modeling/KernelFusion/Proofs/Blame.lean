import KernelFusion.Proofs.Construction
import KernelFusion.Proofs.Violations

/-!
# Who is to blame

A builder writes the body of a function so that validation can only find fault with what its caller
passed: registers that were not defined yet, wrong numbers of arguments, and a return that does not
fit the result. Registers are never defined twice, calls go to functions of the module and bind
their results, and no branch goes astray.
-/

namespace KernelFusion

/-- A call passes as many arguments as the function takes that it calls. -/
def BuilderCall.Counts (m : Module) : BuilderCall → Prop
  | call callee args => ∀ g ∈ m.function? callee, g.prototype.params.length = args.length
  | _ => True

/-- The caller holds a register for the function with a number, which is under construction: it is
that of a parameter, or one of the calls before handed it back as its result. -/
def Moment.Holds (s : Moment) (before : List Moment) (id : FunctionId) (r : Register) : Prop :=
  (∃ index, s.builder.paramRegister? index = some r) ∨ ∃ e ∈ before, e.result? id = some r

instance (m : Module) : (c : BuilderCall) → Decidable (c.Counts m)
  | .call callee args => inferInstanceAs
    (Decidable (∀ g ∈ m.function? callee, g.prototype.params.length = args.length))
  | .start _ _ _ | .declare _ _ _ | .finish | .rename _ | .setLabel _ | .allocRegister
  | .setRegisterType _ _ | .const _ | .load _ _ | .store _ _ | .binary _ _ _ | .unary _ _
  | .compare _ _ _ | .cast _ _ _ | .ret _ => inferInstanceAs (Decidable True)

instance (s : Moment) (before : List Moment) (id : FunctionId) (r : Register) :
    Decidable (s.Holds before id r) :=
  decidable_of_iff ((∃ g ∈ s.builder.current?, r ∈ g.paramRegisters) ∨
      ∃ e ∈ before, e.result? id = some r) (by
    simp only [Moment.Holds, Builder.paramRegister?, Function.paramRegister?,
      ← List.getElem?_map, List.mem_iff_getElem?, Option.bind_eq_some_iff, Option.mem_def]
    exact or_congr_left ⟨fun ⟨g, hg, index, hr⟩ => ⟨index, g, hg, hr⟩,
      fun ⟨index, g, hg, hr⟩ => ⟨g, hg, index, hr⟩⟩)

/-- If the function with a number is under construction, only registers that the caller holds for it
are passed, and as many arguments as the function takes that is called. -/
def Moment.Careful (s : Moment) (before : List Moment) (id : FunctionId) : Prop :=
  s.builder.function? = some id →
    (∀ r ∈ s.call.operands, s.Holds before id r) ∧ s.call.Counts s.builder.module

instance (s : Moment) (before : List Moment) (id : FunctionId) : Decidable (s.Careful before id) :=
  -- Only the operands are tried, not all registers.
  have : Decidable (∀ r ∈ s.call.operands, s.Holds before id r) := List.decidableBAll _ _
  inferInstanceAs (Decidable (s.builder.function? = some id →
    (∀ r ∈ s.call.operands, s.Holds before id r) ∧ s.call.Counts s.builder.module))

/-- A return fits the result of a function: there is a value if there is a result, and its type is
that of the result, if it is recorded. -/
structure Function.ReturnsFit (f : Function) (value : Option Register) : Prop where
  /-- A value is returned if there is a result. -/
  given : value.isSome = !f.result.isVoid
  /-- It has the type of the result. -/
  typed : ∀ r, value = some r → ∀ ty, f.registerTypes.get? r = some ty → ty = f.result

instance (f : Function) (value : Option Register) : Decidable (f.ReturnsFit value) :=
  decidable_of_iff (value.isSome = !f.result.isVoid ∧
      (value.bind f.registerTypes.get?).all (· = f.result) = true)
    ⟨fun ⟨hgiven, htyped⟩ => ⟨hgiven, fun r hr ty hty => by simpa [hr, hty] using htyped⟩,
      fun h => ⟨h.given, by
        cases hty : value.bind f.registerTypes.get? with
        | none => rfl
        | some ty =>
          obtain ⟨r, hr, hty⟩ := Option.bind_eq_some_iff.mp hty
          simpa using h.typed r hr ty hty⟩⟩

/-- A rule that is broken in a body of one block is broken by an instruction or at its end. -/
theorem Function.Straight.cases_ofBlock {m : Module} {f : Function} {is : List Instruction}
    {t : Terminator} (h : f.Straight is t) {above below : List Block} {blk : Block} {v : Violation}
    (hvalues : f.graph.blocks.values = above ++ blk :: below)
    (hv : v.OfBlock m f (f.paramRegisters ++ above.flatMap Block.writes) blk) :
    (∃ before i after, is = before ++ i :: after ∧
      v.OfInstruction m (f.paramRegisters ++ writes before) i) ∨ v.OfTerminator f f.defined t := by
  have hdefined := h.defined_eq
  obtain ⟨label, hentries⟩ := h
  rw [IdMap.values, hentries, List.map_singleton] at hvalues
  cases above with
  | cons b above => cases above <;> cases hvalues
  | nil =>
    cases hvalues
    rw [List.flatMap_nil, List.append_nil] at hv
    cases hv with
    | instruction hl hv => exact .inl ⟨_, _, _, hl, hv⟩
    | terminator hv => exact .inr (hdefined ▸ hv)

theorem Function.Plain.nodup_paramRegisters {f : Function} (h : f.Plain) :
    f.paramRegisters.Nodup := by
  have hdistinct : f.defined.Nodup := h.ascending.imp UInt32.ne_of_lt
  exact (List.nodup_append.mp hdistinct).1

/-- Nothing is wrong with a declaration. -/
theorem Function.Plain.errors_of_declaration {m : Module} {f : Function} (h : f.Plain)
    (hbody : f.isDeclaration = true) : f.errors m = [] := by
  have hvalues : f.graph.blocks.values = [] := by
    rw [IdMap.values, List.isEmpty_iff.mp hbody, List.map_nil]
  refine errors_eq_nil_iff.mpr ⟨⟨h.nodup_paramRegisters, fun before b after hsplit => ?_⟩, ?_⟩
  · cases before <;> cases hvalues.symm.trans hsplit
  · intro i hi
    rw [Graph.instructions, hvalues] at hi
    cases hi

/-- A return reads no register but its value. -/
theorem Point.reads_ret_subset (f : Function) (value : Option Register) :
    (Point.terminator (.ret value)).reads f ⊆ value.toList := by
  cases value with
  | none => exact List.nil_subset _
  | some r =>
    rw [reads]
    split
    · exact List.nil_subset _
    · exact List.Subset.refl _

namespace Builder

/-- Whenever the function with a number is under construction, the call is careful. -/
def Careful (b : Builder) (calls : List BuilderCall) (id : FunctionId) : Prop :=
  ∀ before s after, b.moments calls = before ++ s :: after → s.Careful before id

instance (b : Builder) (calls : List BuilderCall) (id : FunctionId) :
    Decidable (b.Careful calls id) :=
  decidableForallSplit (fun before (s : Moment) => s.Careful before id) (b.moments calls)

/-- While the function with a number is under construction, the caller passes a register that he
does not hold for it: it is none of a parameter, and no call has handed it back yet. -/
def PassesEarly (b : Builder) (calls : List BuilderCall) (id : FunctionId) (r : Register) : Prop :=
  ∃ before s after, b.moments calls = before ++ s :: after ∧ s.builder.function? = some id ∧
    r ∈ s.call.operands ∧ ¬ s.Holds before id r

/-- The caller calls, while the function with a number is under construction, a function that takes
another number of arguments than it is given. The name is the one that it has in the end. -/
def Miscounts (b : Builder) (calls : List BuilderCall) (id : FunctionId) (name : String)
    (expected found : Nat) : Prop :=
  ∃ s ∈ b.moments calls, s.builder.function? = some id ∧ ∃ callee args g,
    s.call = .call callee args ∧ s.builder.module.function? callee = some g ∧
      ((b.runAll calls).module.function? callee).map (·.name) = some name ∧
      expected = g.prototype.params.length ∧ found = args.length ∧ expected ≠ found

/-- The last return from the function `f` with a number fits its result. -/
def ReturnsWell (b : Builder) (calls : List BuilderCall) (id : FunctionId) (f : Function) : Prop :=
  ∃ value, b.returned calls id = some value ∧ f.ReturnsFit value

instance (b : Builder) (calls : List BuilderCall) (id : FunctionId) (f : Function) :
    Decidable (b.ReturnsWell calls id f) :=
  decidable_of_iff ((b.returned calls id).any (fun value => decide (f.ReturnsFit value)) = true) (by
    unfold ReturnsWell
    cases b.returned calls id <;> simp)

/-- The violations that a caller is to blame for in the function `f` with a number. -/
inductive Blame (b : Builder) (calls : List BuilderCall) (id : FunctionId) (f : Function) :
    Violation → Prop where
  /-- A register was passed before it was defined. -/
  | early {r : Register} : b.PassesEarly calls id r → Blame b calls id f (.useBeforeDefine r)
  /-- A call got a wrong number of arguments. -/
  | miscounted {name : String} {expected found : Nat} : b.Miscounts calls id name expected found →
      Blame b calls id f (.argumentCount name expected found)
  /-- There was no return. -/
  | unterminated : b.returned calls id = none → Blame b calls id f .missingTerminator
  /-- The last return gave nothing though there is a result. -/
  | nothing : b.returned calls id = some none → f.result.isVoid = false →
      Blame b calls id f (.missingReturnValue f.result)
  /-- The last return gave a value though there is no result. -/
  | something {r : Register} : b.returned calls id = some (some r) → f.result.isVoid = true →
      Blame b calls id f .unexpectedReturnValue
  /-- The last return gave a register of another type than the result has. -/
  | typed {r : Register} {ty : Ty} : b.returned calls id = some (some r) →
      f.registerTypes.get? r = some ty → ty ≠ f.result →
      Blame b calls id f (.returnType ty f.result)

variable {b : Builder} {calls : List BuilderCall} {id : FunctionId} {f : Function}

/-- An instruction was emitted at a moment before which just those before it had been. -/
theorem exists_emitting {before after : List Instruction} {i : Instruction}
    (hemitted : b.emitted calls id = before ++ i :: after) :
    ∃ earlier s later, b.moments calls = earlier ++ s :: later ∧ s.emitted id = some i ∧
      earlier.filterMap (·.emitted id) = before := by
  obtain ⟨l₁, l₂, hmoments, rfl, hlater⟩ := List.filterMap_eq_append_iff.mp hemitted
  obtain ⟨l₂, s, l₃, rfl, hsilent, hi, -⟩ := List.filterMap_eq_cons_iff.mp hlater
  refine ⟨l₁ ++ l₂, s, l₃, by rw [hmoments, List.append_assoc], hi, ?_⟩
  rw [List.filterMap_append, List.filterMap_eq_nil_iff.mpr hsilent, List.append_nil]

/-- A register that was handed out for a function is defined there. -/
theorem Makes.mem_defined (h : b.Makes calls id f) {s : Moment} (hs : s ∈ b.moments calls)
    (hid : s.builder.function? = some id) {r : Register}
    (hr : (∃ index, s.builder.paramRegister? index = some r) ∨ s.result? id = some r) :
    r ∈ f.defined := by
  rw [h.results]
  rcases hr with ⟨index, hr⟩ | hr
  · rw [h.parameters s hs hid] at hr
    exact List.mem_append_left _ (List.mem_of_getElem? hr)
  · exact List.mem_append_right _ (List.mem_filterMap.mpr ⟨s, hs, hr⟩)

section

variable (h : b.Plain) (hroom : ∀ s ∈ b.moments calls, s.HasRoom)
  (hnone : b.module.function? id = none) (hf : (b.runAll calls).module.function? id = some f)

include h hroom hnone hf

/-- The caller holds the registers of the parameters and what was emitted before writes. -/
theorem Plain.holds_iff {before after : List Moment} {s : Moment}
    (hs : b.moments calls = before ++ s :: after) (hid : s.builder.function? = some id)
    {r : Register} :
    s.Holds before id r ↔ r ∈ f.paramRegisters ++ writes (before.filterMap (·.emitted id)) := by
  have hmakes := h.makes hroom hnone hf
  have hmem : s ∈ b.moments calls := hs ▸ List.mem_append_right before List.mem_cons_self
  have hbefore : before ⊆ b.moments calls := hs ▸ List.subset_append_left before _
  have hparams : (∃ index, s.builder.paramRegister? index = some r) ↔ r ∈ f.paramRegisters := by
    simp only [hmakes.parameters s hmem hid, List.mem_iff_getElem?]
  rw [Moment.Holds, hparams, List.mem_append, ← h.filterMap_result? hroom hbefore,
    List.mem_filterMap]

/-- The rules that an instruction of the body breaks are the caller's to keep. -/
theorem Plain.blame_instruction (hbody : f.isDeclaration = false) {before after : List Instruction}
    {i : Instruction} (hemitted : b.emitted calls id = before ++ i :: after) {v : Violation}
    (hv : v.OfInstruction (b.runAll calls).module (f.paramRegisters ++ writes before) i) :
    Blame b calls id f v := by
  obtain ⟨earlier, s, later, hsplit, hi, rfl⟩ := exists_emitting hemitted
  obtain ⟨hid, g, hemits⟩ := Moment.of_emitted hi
  cases hv with
  | @read r hr hd =>
    rw [BuilderCall.uses_emits hemits] at hr
    exact .early ⟨earlier, s, later, hsplit, hid, hr,
      fun hholds => hd ((h.holds_iff hroom hnone hf hsplit hid).mp hholds)⟩
  | @written r hr hd =>
    -- The register of an instruction is behind all that is defined before it.
    have hascending := ((h.runAll hroom).plain id f hf).ascending
    rw [(h.straight hroom hnone hf hbody).defined_eq, hemitted, writes, List.filterMap_append,
      ← List.append_assoc] at hascending
    have hlt : r < r := (List.pairwise_append.mp hascending).2.2 r hd r
      (List.mem_filterMap.mpr ⟨i, List.mem_cons_self, hr⟩)
    cases UInt32.lt_irrefl r hlt
  | @call dest callee args _ hi hv =>
    subst hi
    obtain ⟨hcall, g', hg', hdest⟩ := BuilderCall.emits_call hemits
    have hmem : s ∈ b.moments calls := hsplit ▸ List.mem_append_right earlier List.mem_cons_self
    obtain ⟨k, is, value?, hk, hcontinues⟩ := (h.of_mem_moments hroom hmem).2 callee g' hg'
    have hresult : k.result = g'.result := congrArg Prototype.result hcontinues.prototype
    cases hv with
    | unknown hunknown => cases hunknown.symm.trans hk
    | count hk' hlen =>
      cases hk'.symm.trans hk
      exact .miscounted ⟨s, hmem, hid, callee, args, g', hcall, hg',
        congrArg (Option.map (·.name)) hk, by rw [hcontinues.prototype], rfl, hlen⟩
    | bound hk' hvoid hbound =>
      cases hk'.symm.trans hk
      rw [hdest, ← hresult, hvoid] at hbound
      cases hbound
    | dropped hk' hvoid hdropped =>
      cases hk'.symm.trans hk
      rw [hdropped, ← hresult, hvoid] at hdest
      cases hdest

/-- So are those that the terminator breaks. -/
theorem Plain.blame_terminator (hbody : f.isDeclaration = false) {v : Violation}
    (hv : v.OfTerminator f f.defined ((b.returned calls id).elim .unreachable .ret)) :
    Blame b calls id f v := by
  cases hreturned : b.returned calls id with
  | none =>
    rw [hreturned, Option.elim_none] at hv
    cases hv with
    | unterminated => exact .unterminated hreturned
    | target hid => cases hid
    | read hr => cases hr
    | nothing ht => cases ht
    | something ht => cases ht
    | typed ht => cases ht
  | some value =>
    rw [hreturned, Option.elim_some] at hv
    cases hv with
    | unterminated ht => cases ht
    | target hid => cases hid
    | nothing ht hvoid =>
      cases ht
      exact .nothing hreturned hvoid
    | something ht hvoid =>
      cases ht
      exact .something hreturned hvoid
    | typed ht hvoid hty hne =>
      cases ht
      exact .typed hreturned hty hne
    | @read r hr hd =>
      obtain ⟨s, hs, hvalue⟩ := List.mem_filterMap.mp (List.mem_of_getLast? hreturned)
      obtain ⟨hid, hreturns⟩ := Moment.of_returned hvalue
      obtain ⟨before, after, hsplit⟩ := List.append_of_mem hs
      refine .early ⟨before, s, after, hsplit, hid,
        BuilderCall.operands_of_returns hreturns ▸ Point.reads_ret_subset f value hr,
        fun hholds => hd ?_⟩
      -- What was emitted before the return is among all that was emitted.
      rw [(h.straight hroom hnone hf hbody).defined_eq, emitted, hsplit, List.filterMap_append,
        writes, List.filterMap_append, ← List.append_assoc]
      exact List.mem_append_left _ ((h.holds_iff hroom hnone hf hsplit hid).mp hholds)

/-- Validation reports nothing but what the caller is to blame for. -/
theorem Plain.blame {e : ValidationError} (he : e ∈ f.errors (b.runAll calls).module) :
    Blame b calls id f e.violation := by
  have hplain := (h.runAll hroom).plain id f hf
  cases hbody : f.isDeclaration with
  | true =>
    rw [hplain.errors_of_declaration hbody] at he
    cases he
  | false =>
    rcases Function.mem_errors_iff.mp he with
      ⟨before, r, after, hparams, hr, rfl⟩ | ⟨before, blk, after, hvalues, v, hv, rfl⟩
    · have hdistinct := hplain.nodup_paramRegisters
      rw [hparams, List.nodup_middle, List.nodup_cons] at hdistinct
      exact absurd (List.mem_append_left _ hr) hdistinct.1
    · rcases (h.straight hroom hnone hf hbody).cases_ofBlock hvalues hv with
        ⟨before, i, after, hemitted, hv⟩ | hv
      · exact h.blame_instruction hroom hnone hf hbody hemitted hv
      · exact h.blame_terminator hroom hnone hf hbody hv

/-- If the calls are careful, all that matters is that the last return fits. -/
theorem Plain.errors_eq_nil_iff (hcareful : b.Careful calls id) :
    f.errors (b.runAll calls).module = [] ↔
      f.isDeclaration = true ∨ b.ReturnsWell calls id f := by
  have hplain := (h.runAll hroom).plain id f hf
  constructor
  · intro hvalid
    cases hbody : f.isDeclaration with
    | true => exact .inl rfl
    | false =>
      obtain ⟨label, hentries⟩ := h.straight hroom hnone hf hbody
      have hvalues : f.graph.blocks.values = [] ++ [⟨0, label, b.emitted calls id,
          (b.returned calls id).elim .unreachable .ret, []⟩] := by rw [IdMap.values, hentries]; rfl
      have hend := ((Function.errors_eq_nil_iff.mp hvalid).1.blocks [] _ [] hvalues).terminator
      cases hreturned : b.returned calls id with
      | none =>
        rw [hreturned] at hend
        cases hend.terminated rfl
      | some value =>
        rw [hreturned] at hend
        refine .inr ⟨value, hreturned, hend.returns value rfl, ?_⟩
        rintro r rfl
        exact hend.typed r rfl
  · rintro (hbody | ⟨value, hreturned, hfit⟩)
    · exact hplain.errors_of_declaration hbody
    · refine List.eq_nil_iff_forall_not_mem.mpr (fun e he => ?_)
      have hblame := h.blame hroom hnone hf he
      generalize e.violation = v at hblame
      cases hblame with
      | @early r hearly =>
        obtain ⟨before, s, after, hsplit, hid, hr, hholds⟩ := hearly
        exact hholds ((hcareful before s after hsplit hid).1 r hr)
      | miscounted hmiscounted =>
        obtain ⟨s, hs, hid, callee, args, g, hcall, hg, -, rfl, rfl, hne⟩ := hmiscounted
        obtain ⟨before, after, hsplit⟩ := List.append_of_mem hs
        have hcounts := (hcareful before s after hsplit hid).2
        rw [hcall] at hcounts
        exact hne (hcounts g hg)
      | unterminated hmissing => cases hmissing.symm.trans hreturned
      | nothing hnothing hvoid =>
        cases hreturned.symm.trans hnothing
        cases hfit.given.trans (congrArg not hvoid)
      | something hsomething hvoid =>
        cases hreturned.symm.trans hsomething
        cases hfit.given.trans (congrArg not hvoid)
      | typed hsomething hty hne =>
        cases hreturned.symm.trans hsomething
        exact hne (hfit.typed _ rfl _ hty)

end

end Builder

/-- Whatever calls of a builder are made on a new module, in whatever order and with whatever
operands, every call hands back what it writes, and a function is under construction from its start
on. Each function is made of what was emitted while it was under construction: it defines its
parameters and the results that were handed back, every register once and below the next one.
Validation finds no fault with it but those of the caller: a register that was passed before it was
handed out, and a call with a wrong number of arguments. If the caller passes only registers of
parameters and results of earlier calls, and right numbers of arguments, a function is valid if it
is a declaration or if its last return fits its result, and the module is valid if all functions
are. -/
theorem Builder.writes_ssa (name : String) (calls : List BuilderCall)
    (hroom : ∀ s ∈ (Builder.new (.new name)).moments calls, s.HasRoom) :
    let start := Builder.new (.new name)
    let m := (start.runAll calls).module
    (∀ s ∈ start.moments calls, s.Answered) ∧
    (∀ id f, m.function? id = some f →
      start.Makes calls id f ∧
      (∀ s ∈ start.moments calls, s.builder.function? = some id → ∀ r,
        ((∃ index, s.builder.paramRegister? index = some r) ∨ s.result? id = some r) →
          r ∈ f.defined) ∧
      f.defined.Nodup ∧ (∀ r ∈ f.defined, r < f.nextRegister) ∧
      (∀ e ∈ f.errors m,
        (∀ r, e.violation ≠ .multipleDefinitions r) ∧
        (∀ callee, e.violation ≠ .unknownCallee callee) ∧
        (∀ callee, e.violation ≠ .droppedResult callee) ∧
        (∀ callee, e.violation ≠ .boundVoid callee) ∧
        (∀ target, e.violation ≠ .invalidTarget target) ∧
        (∀ r, e.violation = .useBeforeDefine r → start.PassesEarly calls id r) ∧
        ∀ callee expected found, e.violation = .argumentCount callee expected found →
          start.Miscounts calls id callee expected found) ∧
      (start.Careful calls id →
        (f.errors m = [] ↔ f.isDeclaration = true ∨ start.ReturnsWell calls id f))) ∧
    ((∀ id f, m.function? id = some f → f.isDeclaration = false →
        start.Careful calls id ∧ start.ReturnsWell calls id f) → m.errors = []) := by
  intro start m
  have hstart : start.Plain := .new name
  have hiff (id : FunctionId) (f : Function) (hf : m.function? id = some f)
      (hcareful : start.Careful calls id) :
      f.errors m = [] ↔ f.isDeclaration = true ∨ start.ReturnsWell calls id f :=
    hstart.errors_eq_nil_iff hroom rfl hf hcareful
  refine ⟨fun s hs => Moment.answered (hstart.of_mem_moments hroom hs).1, fun id f hf => ?_,
    fun hvalid => ?_⟩
  · have hplain := (hstart.runAll hroom).plain id f hf
    have hmakes := hstart.makes hroom rfl hf
    refine ⟨hmakes, fun s hs hid r hr => hmakes.mem_defined hs hid hr,
      hplain.ascending.imp UInt32.ne_of_lt, hplain.below, fun e he => ?_, hiff id f hf⟩
    have hblame := hstart.blame hroom rfl hf he
    generalize e.violation = v at hblame
    refine ⟨?_, ?_, ?_, ?_, ?_, ?_, ?_⟩
    · rintro r rfl
      cases hblame
    · rintro callee rfl
      cases hblame
    · rintro callee rfl
      cases hblame
    · rintro callee rfl
      cases hblame
    · rintro target rfl
      cases hblame
    · rintro r rfl
      cases hblame with
      | early hearly => exact hearly
    · rintro callee expected found rfl
      cases hblame with
      | miscounted hmiscounted => exact hmiscounted
  · refine Module.errors_eq_nil_iff.mpr (fun f hf hbody => ?_)
    obtain ⟨id, hid⟩ := IdMap.mem_values_iff.mp hf
    obtain ⟨hcareful, hreturns⟩ := hvalid id f hid hbody
    exact (hiff id f hid hcareful).mpr (.inr hreturns)

/-- Calls that declare a function, build one, and build another that calls both. -/
def sampleCalls : List BuilderCall :=
  [.declare "sink" (.ofParams [("v", .i32)] .void .c) .ext,
    .start "next" (.ofParams [("x", .i32)] .i32 .c) .priv, .const (.i32 1), .binary .add 0 1,
    .ret (some 2), .finish, .start "main" (.ofParams [("x", .i32)] .i32 .kernel) .pub,
    .call 1 [0], .call 0 [1], .ret (some 1)]

/-- Calls that pass a register to the very call that hands it back. -/
def hastyCalls : List BuilderCall :=
  [.start "hasty" (.ofParams [] .i32 .c) .pub, .unary .neg 0, .ret (some 0)]

/-- A careful caller builds two functions, each of which defines the results that were handed back,
and the module is valid. A hasty one is to blame for the register that he did not hold yet. -/
theorem writes_ssa_sampleCalls :
    (∀ s ∈ (Builder.new (.new "sample")).moments sampleCalls, s.HasRoom) ∧
      (∃ f, ((Builder.new (.new "sample")).runAll sampleCalls).module.function? 1 = some f ∧
        f.isDeclaration = false ∧ f.defined = [0, 1, 2] ∧
        (Builder.new (.new "sample")).results sampleCalls 1 = [1, 2]) ∧
      (∃ f, ((Builder.new (.new "sample")).runAll sampleCalls).module.function? 2 = some f ∧
        f.isDeclaration = false ∧ f.defined = [0, 1] ∧
        (Builder.new (.new "sample")).results sampleCalls 2 = [1]) ∧
      ((Builder.new (.new "sample")).runAll sampleCalls).module.errors = [] ∧
      (∀ s ∈ (Builder.new (.new "sample")).moments hastyCalls, s.HasRoom) ∧
      (Builder.new (.new "sample")).PassesEarly hastyCalls 0 0 := by
  have hroom : ∀ s ∈ (Builder.new (.new "sample")).moments sampleCalls, s.HasRoom := by decide
  have hhasty : ∀ s ∈ (Builder.new (.new "sample")).moments hastyCalls, s.HasRoom := by decide
  obtain ⟨-, hmade, hvalid⟩ := Builder.writes_ssa "sample" sampleCalls hroom
  obtain ⟨-, hblamed, -⟩ := Builder.writes_ssa "sample" hastyCalls hhasty
  have hnext : (Builder.new (.new "sample")).results sampleCalls 1 = [1, 2] := by decide
  have hmain : (Builder.new (.new "sample")).results sampleCalls 2 = [1] := by decide
  refine ⟨hroom, ⟨_, rfl, rfl, ?_, hnext⟩, ⟨_, rfl, rfl, ?_, hmain⟩, hvalid (fun id f hf => ?_),
    hhasty, ?_⟩
  · rw [(hmade 1 _ rfl).1.results, hnext]
    rfl
  · rw [(hmade 2 _ rfl).1.results, hmain]
    rfl
  · have hall : ∀ e ∈ ((Builder.new (.new "sample")).runAll sampleCalls).module.functions.entries,
        e.2.isDeclaration = false →
          (Builder.new (.new "sample")).Careful sampleCalls e.1 ∧
            (Builder.new (.new "sample")).ReturnsWell sampleCalls e.1 e.2 := by decide
    exact hall (id, f) (IdMap.mem_entries_iff.mpr hf)
  · obtain ⟨-, -, -, -, herrors, -⟩ := hblamed 0 _ rfl
    obtain ⟨-, -, -, -, -, hearly, -⟩ := herrors ⟨.useBeforeDefine 0, "hasty", some 0⟩ (by decide)
    exact hearly 0 rfl

end KernelFusion

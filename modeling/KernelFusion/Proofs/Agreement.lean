import KernelFusion.Proofs.Acceptance
import KernelFusion.Proofs.Assembly
import KernelFusion.Proofs.Emission

/-!
# When linking keeps modules valid

Linking merges functions by name and does not compare prototypes. A body that was valid in its
source stays in order when it is linked, since only the numbers of the functions that it calls
change. So the linked module is valid exactly if every call still fits: the function that was called
in the source and the one that its name stands for now take as many parameters, and both or neither
have a result.
-/

namespace KernelFusion

/-- The block with the functions it calls renumbered. -/
def Block.relocate (r : FunctionId → FunctionId) (b : Block) : Block :=
  { b with instructions := b.instructions.map (Instruction.relocate r) }

section Relocate

variable {r : FunctionId → FunctionId}

@[simp] theorem Instruction.uses_relocate (i : Instruction) : (i.relocate r).uses = i.uses := by
  cases i <;> rfl

@[simp] theorem Instruction.dest_relocate (i : Instruction) : (i.relocate r).dest = i.dest := by
  cases i <;> rfl

theorem writes_map_relocate (is : List Instruction) :
    writes (is.map (Instruction.relocate r)) = writes is := by
  unfold writes
  rw [List.filterMap_map]
  exact List.filterMap_congr (fun i _ => i.dest_relocate)

theorem Block.writes_relocate (b : Block) : (b.relocate r).writes = b.writes :=
  writes_map_relocate b.instructions

section Order

variable {f g : Function}

/-- The order of a block depends neither on which functions are called nor on who can see the one
that it belongs to. -/
theorem Block.Ordered.relocate {defined : List Register} {b : Block} (h : b.Ordered f defined)
    (hresult : g.result = f.result) (htypes : g.registerTypes = f.registerTypes)
    (hcontains : ∀ id, g.graph.blocks.contains id = f.graph.blocks.contains id) :
    (b.relocate r).Ordered g defined := by
  refine ⟨fun is' i' later' his' => ?_, ?_⟩
  · rw [Block.relocate, List.map_eq_append_iff] at his'
    obtain ⟨is, tail, his, rfl, htail⟩ := his'
    obtain ⟨i, later, rfl, rfl, rfl⟩ := List.map_eq_cons_iff.mp htail
    rw [writes_map_relocate]
    have hi := h.instructions is i later his
    exact ⟨by simpa using hi.reads, by simpa using hi.fresh⟩
  · have ht := h.terminator
    rw [Block.writes_relocate]
    exact {
      terminated := ht.terminated
      reads := ht.reads
      targets := fun id hid => (hcontains id).trans (ht.targets id hid)
      returns := fun value hvalue => hresult ▸ ht.returns value hvalue
      typed := fun reg hret ty hty => hresult ▸ ht.typed reg hret ty (htypes ▸ hty) }

/-- Neither does the order of a body. -/
theorem Function.Ordered.relocate (h : f.Ordered) (hprototype : g.prototype = f.prototype)
    (htypes : g.registerTypes = f.registerTypes)
    (hblocks : g.graph.blocks = f.graph.blocks.mapValues (fun _ b => b.relocate r)) :
    g.Ordered := by
  have hparams : g.paramRegisters = f.paramRegisters := by rw [paramRegisters, hprototype]; rfl
  have hresult : g.result = f.result := by rw [result, hprototype]; rfl
  have hcontains : ∀ id, g.graph.blocks.contains id = f.graph.blocks.contains id := by
    intro id
    rw [hblocks, IdMap.contains, IdMap.get?_mapValues, Option.isSome_map, IdMap.contains]
  have hvalues : g.graph.blocks.values = f.graph.blocks.values.map (Block.relocate r) := by
    rw [hblocks, IdMap.values_mapValues]
  refine ⟨hparams ▸ h.params, fun before' b' after' hl' => ?_⟩
  rw [hvalues, List.map_eq_append_iff] at hl'
  obtain ⟨before, rest, hl, rfl, hrest⟩ := hl'
  obtain ⟨b, after, rfl, rfl, rfl⟩ := List.map_eq_cons_iff.mp hrest
  have hwrites : (before.map (Block.relocate r)).flatMap Block.writes =
      before.flatMap Block.writes := by
    rw [List.flatMap_map]
    simp only [Block.writes_relocate]
  rw [hparams, hwrites]
  exact (h.blocks before b after hl).relocate hresult htypes hcontains

end Order

end Relocate

theorem Function.SameShape.trans {f g h : Function} (hfg : f.SameShape g) (hgh : g.SameShape h) :
    f.SameShape h :=
  ⟨hgh.arity.trans hfg.arity, hgh.result.trans hfg.result⟩

/-- What a source function becomes under the number `id`: its body, or its declaration. -/
inductive Function.Copy (r : FunctionId → FunctionId) (id : FunctionId) (f : Function) :
    Function → Prop where
  /-- A body, with the linkage of a declaration or its own. -/
  | body (declared : Option Function) (hbody : f.isDeclaration = false) :
      Copy r id f ((f.relocate r id).underDeclaration declared)
  /-- A declaration. -/
  | declaration (hbody : f.isDeclaration = true) : Copy r id f (f.relocate r id).toDeclaration

section Copy

variable {r : FunctionId → FunctionId} {id : FunctionId} {f t : Function}

/-- A copy has the shape of its original. -/
theorem Function.Copy.sameShape (h : f.Copy r id t) : f.SameShape t := by
  cases h with
  | body declared => cases declared <;> exact ⟨rfl, rfl⟩
  | declaration => exact ⟨length_numberParams 0 f.prototype.params, rfl⟩

theorem Function.Copy.name_eq (h : f.Copy r id t) : t.name = f.name := by
  cases h with
  | body declared => cases declared <;> rfl
  | declaration => rfl

/-- A copy with a body is in order if its original is, and makes its calls. -/
theorem Function.Copy.of_body (h : f.Copy r id t) (hbody : t.isDeclaration = false) :
    f.isDeclaration = false ∧ (f.Ordered → t.Ordered) ∧
      t.graph.instructions = f.graph.instructions.map (Instruction.relocate r) := by
  cases h with
  | declaration => cases hbody
  | body declared hf =>
    have hgraph : ((f.relocate r id).underDeclaration declared).graph.blocks =
        f.graph.blocks.mapValues (fun _ b => b.relocate r) := by
      cases declared <;> rfl
    refine ⟨hf, fun h => h.relocate ?_ ?_ hgraph, ?_⟩
    · cases declared <;> rfl
    · cases declared <;> rfl
    · rw [Graph.instructions, hgraph, IdMap.values_mapValues, List.flatMap_map,
        Graph.instructions, List.map_flatMap]
      rfl

end Copy

/-- A call that fits in the source fits behind it exactly if the function that it goes to now has
the shape of the one it went to. -/
theorem Instruction.fits_relocate_iff {source m : Module} {r : FunctionId → FunctionId}
    {dest : Option Register} {callee : FunctionId} {args : List Register} {u t : Function}
    (hu : source.function? callee = some u) (ht : m.function? (r callee) = some t)
    (hfits : (Instruction.call dest callee args).Fits source) :
    ((Instruction.call dest callee args).relocate r).Fits m ↔ u.SameShape t := by
  obtain ⟨u', hu', harity, hresult⟩ := hfits
  obtain rfl := Option.some.inj (hu.symm.trans hu')
  constructor
  · rintro ⟨t', ht', harity', hresult'⟩
    obtain rfl := Option.some.inj (ht.symm.trans ht')
    exact ⟨harity'.trans harity.symm, Bool.not_inj (hresult'.symm.trans hresult)⟩
  · intro hshape
    exact ⟨t, ht, hshape.arity.trans harity, hshape.result ▸ hresult⟩

namespace Module

/-- The functions that a source calls have the shape of those that their names stand for in `m`. -/
def Agrees (m source : Module) : Prop :=
  ∀ i f, source.whole? i = some f → ∀ callee ∈ f.callees, ∀ u, source.whole? callee = some u →
    ∀ id t, m.idOf? u.name = some id → m.whole? id = some t → u.SameShape t

/-- `m` was made of the modules in `done`: it has all their functions and no others. -/
structure Assembled (done : List Module) (m : Module) : Prop where
  /-- The numbers in the module are consistent. -/
  wellFormed : m.WellFormed
  /-- All functions are there. -/
  bears : ∀ source ∈ done, ∃ r, m.Bears source r
  /-- There are no others. -/
  origin : ∀ id t, m.whole? id = some t → ∃ source ∈ done, ∃ r, m.Bears source r ∧
    ∃ i f, source.whole? i = some f ∧ r i = id ∧ f.Copy r id t

section Assembled

variable {dest source left m : Module} {done sources : List Module} {stats : LinkStats}

theorem Assembled.new (name : String) : Assembled [] (new name) where
  wellFormed := (Catalogued.new name).wellFormed
  bears source h := by cases h
  origin id t h := by cases h

/-- What is whole behind a link was whole before it or is a copy of a function of the source. -/
theorem Arrived.whole?_cases {p : Placement} (h : Arrived dest source p left) {id : FunctionId}
    {t : Function} (ht : left.whole? id = some t) :
    dest.whole? id = some t ∨
      ∃ i f, source.whole? i = some f ∧ p.number i = id ∧ f.Copy p.number id t := by
  rcases h.wellFormed.whole?_cases ht with hb | ⟨hnone, hf⟩
  · rcases h.pendingOnly hb with hdest | ⟨i, f, hf, hbody, rfl⟩
    · exact Or.inl (h.destination.whole?_of_pending hdest)
    · obtain rfl := Option.some.inj ((h.body hf hbody).symm.trans hb)
      exact Or.inr ⟨i, f, hf, rfl, .body _ hbody⟩
  · rcases h.functionsOnly hf with hdest | ⟨i, f, hf', hid, rfl⟩
    · have hdestnone : dest.pending.get? id = none := by
        cases hb : dest.pending.get? id with
        | none => rfl
        | some body => cases (h.pending hb).symm.trans hnone
      exact Or.inl ((whole?_of_pending_none hdestnone).trans hdest)
    · obtain rfl := Option.some.inj ((h.fresh hf' hid).symm.trans hf)
      have hbody : f.isDeclaration = true := by
        cases hbody : f.isDeclaration with
        | true => rfl
        | false => cases (h.body hf' hbody).symm.trans hnone
      exact Or.inr ⟨i, f, hf', rfl, .declaration hbody⟩

/-- Linking one more module. -/
theorem Assembled.link (h : Assembled done dest) (hnames : source.DistinctNames)
    (hroom : dest.nextFunction.toNat + dest.newSymbols source < 2 ^ 32)
    (hlink : dest.linkInto source = (.ok stats, left)) : Assembled (done ++ [source]) left := by
  have hd := h.wellFormed
  have hgrown := (grown_linkInto hd hroom hlink).1
  obtain ⟨p, harrived⟩ := arrived_of_linkInto hd hnames.bodies hroom hlink
  have hbears := harrived.bears hnames.new
  refine ⟨harrived.wellFormed, fun s hs => ?_, fun id t ht => ?_⟩
  · rcases List.mem_append.mp hs with hs | hs
    · obtain ⟨r, hr⟩ := h.bears s hs
      exact ⟨r, hr.grown hd hgrown⟩
    · rw [List.mem_singleton.mp hs]
      exact ⟨_, hbears⟩
  · rcases harrived.whole?_cases ht with hdest | ⟨i, f, hf, hid, hcopy⟩
    · obtain ⟨s, hs, r, hr, horigin⟩ := h.origin id t hdest
      exact ⟨s, List.mem_append_left _ hs, r, hr.grown hd hgrown, horigin⟩
    · exact ⟨source, by simp, _, hbears, i, f, hf, hid, hcopy⟩

/-- Linking a list of modules. -/
theorem Assembled.linkEach (h : Assembled done dest) (hnames : ∀ s ∈ sources, s.DistinctNames)
    (hfit : NumbersFit (sources.map .link) dest) (hok : dest.linkEach sources = .ok m) :
    Assembled (done ++ sources) m := by
  induction sources generalizing dest done with
  | nil =>
    cases hok
    simpa using h
  | cons source rest ih =>
    obtain ⟨stats, left, hlink, hrest⟩ := linkEach_cons_ok hok
    obtain ⟨hroom, hfit⟩ := numbersFit_cons hfit hlink
    obtain ⟨hsource, hlater⟩ := List.forall_mem_cons.mp hnames
    have hstep := ih (h.link hsource hroom hlink) hlater hfit hrest
    rwa [List.append_assoc] at hstep

/-- What a module with a name was linked from. -/
theorem assembled_linkAll {name : String} (hnames : ∀ s ∈ sources, s.DistinctNames)
    (hfit : NumbersFit (sources.map .link) (.new name)) (hok : linkAll name sources = .ok m) :
    Assembled sources m := by
  rw [linkAll_eq] at hok
  exact (Assembled.new name).linkEach hnames hfit hok

end Assembled

section Valid

variable {source m : Module} {sources : List Module}

/-- Where nothing is pending, functions are whole as they are stored. -/
theorem whole?_of_pending_empty (h : m.pending = .empty) (i : FunctionId) :
    m.whole? i = m.function? i := by
  have hnone : m.pending.get? i = none := by rw [h, IdMap.get?_empty]
  exact whole?_of_pending_none hnone

/-- A body of a valid module without pending bodies is in order and its calls fit. -/
theorem body_of_errors_eq_nil (hpending : source.pending = .empty) (hvalid : source.errors = [])
    {i : FunctionId} {f : Function} (hf : source.whole? i = some f)
    (hbody : f.isDeclaration = false) : f.Ordered ∧ f.Fits source := by
  rw [whole?_of_pending_empty hpending] at hf
  exact Function.errors_eq_nil_iff.mp
    (errors_eq_nil_iff.mp hvalid f (IdMap.mem_values_iff.mpr ⟨i, hf⟩) hbody)

/-- A module with all its bodies moved is valid if its whole functions are. -/
theorem errors_force_eq_nil_iff : m.force.errors = [] ↔ ∀ id t, m.whole? id = some t →
    t.isDeclaration = false → t.Ordered ∧ t.Fits m.force := by
  rw [errors_eq_nil_iff]
  simp only [IdMap.mem_values_iff, Function.errors_eq_nil_iff]
  constructor
  · exact fun h id t ht => h t ⟨id, function?_force.trans ht⟩
  · rintro h t ⟨id, ht⟩
    exact h id t (function?_force.symm.trans ht)

theorem mem_callees_iff {f : Function} {callee : FunctionId} : callee ∈ f.callees ↔
    ∃ dest args, Instruction.call dest callee args ∈ f.graph.instructions := by
  unfold Function.callees
  rw [List.mem_filterMap]
  constructor
  · rintro ⟨i, hi, hcallee⟩
    cases i with
    | call dest callee' args =>
      cases hcallee
      exact ⟨dest, args, hi⟩
    | _ => cases hcallee
  · rintro ⟨dest, args, hi⟩
    exact ⟨_, hi, rfl⟩

/-- A name stands for a function. -/
theorem WellFormed.whole?_of_idOf? (h : m.WellFormed) {name : String} {id : FunctionId}
    (hid : m.idOf? name = some id) : ∃ t, m.whole? id = some t ∧ t.name = name := by
  obtain ⟨f, hf, rfl⟩ := h.of_idOf? hid
  have hname : (m.whole? id).map (·.name) = (m.function? id).map (·.name) := h.whole?_name
  rw [hf] at hname
  exact Option.map_eq_some_iff.mp hname

/-- The calls of a copy fit exactly if the functions that are called in the source have the shape of
those that their names stand for. -/
theorem Bears.fits_iff {r : FunctionId → FunctionId} (h : m.Bears source r) (hm : m.WellFormed)
    (hpending : source.pending = .empty) {i : FunctionId} {f t : Function} (hcopy : f.Copy r i t)
    (hbody : t.isDeclaration = false) (hfits : f.Fits source) :
    t.Fits m.force ↔ ∀ callee ∈ f.callees, ∀ u, source.whole? callee = some u →
      ∀ id t, m.idOf? u.name = some id → m.whole? id = some t → u.SameShape t := by
  obtain ⟨-, -, hcalls⟩ := hcopy.of_body hbody
  rw [Function.Fits, hcalls, List.forall_mem_map]
  constructor
  · intro hfits' callee hcallee u hu id t' hid ht'
    obtain ⟨dest, args, hcall⟩ := mem_callees_iff.mp hcallee
    obtain rfl := Option.some.inj ((h.symbol callee u hu).symm.trans hid)
    rw [whole?_of_pending_empty hpending] at hu
    exact (Instruction.fits_relocate_iff hu (function?_force.trans ht') (hfits _ hcall)).mp
      (hfits' _ hcall)
  · intro hagrees instruction hi
    cases instruction with
    | call dest callee args =>
      obtain ⟨u, hu, -⟩ := hfits _ hi
      have hwhole := (whole?_of_pending_empty hpending callee).trans hu
      have hsymbol := h.symbol callee u hwhole
      obtain ⟨t', ht', -⟩ := hm.whole?_of_idOf? hsymbol
      refine (Instruction.fits_relocate_iff hu (function?_force.trans ht') (hfits _ hi)).mpr ?_
      exact hagrees callee (mem_callees_iff.mpr ⟨dest, args, hi⟩) u hwhole _ t' hsymbol ht'
    | _ => exact trivial

/-- A module that was made of valid ones is valid exactly if the functions that these call agree
with what their names stand for. -/
theorem Assembled.errors_force_iff (h : Assembled sources m)
    (hpending : ∀ s ∈ sources, s.pending = .empty) (hvalid : ∀ s ∈ sources, s.errors = []) :
    m.force.errors = [] ↔ ∀ s ∈ sources, m.Agrees s := by
  rw [errors_force_eq_nil_iff]
  constructor
  · intro herrors s hs i f hf callee hcallee
    have hbody := Function.isDeclaration_of_mem_callees hcallee
    obtain ⟨-, hfits⟩ := body_of_errors_eq_nil (hpending s hs) (hvalid s hs) hf hbody
    obtain ⟨r, hbears⟩ := h.bears s hs
    obtain ⟨declared, hb⟩ := hbears.body i f hf hbody
    -- The calls stand in the copy of the body, which is valid.
    have hcopy : f.Copy r (r i) ((f.relocate r (r i)).underDeclaration declared) :=
      .body declared hbody
    have hcopybody : ((f.relocate r (r i)).underDeclaration declared).isDeclaration = false := by
      cases declared <;> exact (f.isDeclaration_relocate r (r i)).trans hbody
    obtain ⟨-, hfits'⟩ := herrors (r i) _ (h.wellFormed.whole?_of_pending hb) hcopybody
    exact (hbears.fits_iff h.wellFormed (hpending s hs) hcopy hcopybody hfits).mp hfits'
      callee hcallee
  · intro hagrees id t ht hbody
    obtain ⟨s, hs, r, hbears, i, f, hf, rfl, hcopy⟩ := h.origin id t ht
    obtain ⟨hfbody, hordered, -⟩ := hcopy.of_body hbody
    obtain ⟨hf', hfits⟩ := body_of_errors_eq_nil (hpending s hs) (hvalid s hs) hf hfbody
    exact ⟨hordered hf', (hbears.fits_iff h.wellFormed (hpending s hs) hcopy hbody hfits).mpr
      (hagrees s hs i f hf)⟩

/-- Functions agree with what their names stand for if all functions of a name have one shape. -/
theorem Assembled.agrees (h : Assembled sources m)
    (hshapes : ∀ s ∈ sources, ∀ s' ∈ sources, ∀ i j f g, s.whole? i = some f →
      s'.whole? j = some g → f.name = g.name → f.SameShape g) :
    ∀ s ∈ sources, m.Agrees s := by
  intro s hs i f hf callee hcallee u hu id t hid ht
  obtain ⟨t', ht', hname⟩ := h.wellFormed.whole?_of_idOf? hid
  obtain rfl := Option.some.inj (ht.symm.trans ht')
  obtain ⟨s', hs', r, -, j, g, hg, -, hcopy⟩ := h.origin id t ht
  exact (hshapes s hs s' hs' callee j u g hu hg (hname.symm.trans hcopy.name_eq)).trans
    hcopy.sameShape

end Valid

/-- The module that valid modules with distinct names are linked into is valid, once all bodies are
moved over their declarations, exactly if every function that they call has the shape of the one
that its name stands for. That is so if functions of one name have one shape. -/
theorem linkAll_valid_iff {name : String} {sources : List Module} {m : Module}
    (hnames : ∀ s ∈ sources, s.DistinctNames) (hpending : ∀ s ∈ sources, s.pending = .empty)
    (hvalid : ∀ s ∈ sources, s.errors = []) (hfit : NumbersFit (sources.map .link) (.new name))
    (hok : linkAll name sources = .ok m) :
    (m.force.errors = [] ↔ ∀ s ∈ sources, m.Agrees s) ∧
    ((∀ s ∈ sources, ∀ s' ∈ sources, ∀ i j f g, s.whole? i = some f → s'.whole? j = some g →
      f.name = g.name → f.SameShape g) → m.force.errors = []) := by
  have hassembled := assembled_linkAll hnames hfit hok
  have hiff := hassembled.errors_force_iff hpending hvalid
  exact ⟨hiff, fun hshapes => hiff.mpr (hassembled.agrees hshapes)⟩

/-- A module that declares a function of a number and calls it. -/
def caller : Module :=
  let (b, callee) :=
    (Builder.new (Module.new "a")).declare "g" (.ofParams [("n", .i32)] .i32 .c) .ext
  (Samples.define b "f" [("n", .i32)] .i32 .c (fun b => b.call callee [Samples.param b 0])).module

/-- A module that defines the function. -/
def provider : Module :=
  (Samples.define (Builder.new (Module.new "b")) "g" [("n", .i32)] .i32 .c
    (fun b => (b, some (Samples.param b 0)))).module

/-- A module that defines a function of nothing with the same name. -/
def stranger : Module :=
  (Samples.define (Builder.new (Module.new "b")) "g" [] .void .c Samples.nothing).module

/-- A call of a declared function is still valid behind the definition. -/
theorem linkAll_valid_iff_provider :
    ∃ m, linkAll "m" [caller, provider] = .ok m ∧ m.force.errors = [] ∧
      ∀ s ∈ [caller, provider], m.Agrees s := by
  have hnames : ∀ s ∈ [caller, provider], s.DistinctNames := by decide
  have hpending : ∀ s ∈ [caller, provider], s.pending = .empty := by decide
  have hvalid : ∀ s ∈ [caller, provider], s.errors = [] := by decide
  have hfit : NumbersFit ([caller, provider].map .link) (.new "m") :=
    ⟨by decide, by decide, trivial⟩
  exact ⟨_, rfl, rfl, (linkAll_valid_iff hnames hpending hvalid hfit rfl).1.mp rfl⟩

/-- Valid modules are linked although the function that one calls is not what the other defines, and
the module that is left is not valid. -/
theorem prototypes_not_compared :
    (∀ s ∈ [caller, stranger], s.DistinctNames ∧ s.pending = .empty ∧ s.errors = []) ∧
      ∃ m, linkAll "m" [caller, stranger] = .ok m ∧ m.force.errors ≠ [] :=
  ⟨by decide, _, rfl, by decide⟩

end Module

end KernelFusion

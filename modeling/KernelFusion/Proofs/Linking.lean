import KernelFusion.Proofs.Placement
import KernelFusion.Proofs.Registration
import KernelFusion.Samples

/-!
# Linking keeps functions and calls

Linking fails if a definition or a call has no place, and then the destination is left as it was.
Otherwise every function of the source stands for the symbol of its name, its body is pending, and
its calls go where the functions went that it called; the destination keeps all its own functions.
-/

namespace KernelFusion

/-- The instruction with the function it calls renumbered. -/
def Instruction.relocate (r : FunctionId → FunctionId) : Instruction → Instruction
  | call dest callee args => call dest (r callee) args
  | i => i

/-- The function under another number, with the functions it calls renumbered. -/
def Function.relocate (r : FunctionId → FunctionId) (id : FunctionId) (f : Function) : Function :=
  let blocks := f.graph.blocks.mapValues (fun _ b =>
    { b with instructions := b.instructions.map (Instruction.relocate r) })
  { f with id := id, graph := { f.graph with blocks := blocks } }

theorem Function.renumber_eq (p : Placement) (id : FunctionId) (f : Function) :
    f.renumber p.targets id = f.relocate p.number id := by
  have hinstruction : Instruction.renumber p.targets = Instruction.relocate p.number := by
    funext i
    cases i <;> rfl
  unfold renumber relocate
  rw [hinstruction]

theorem Function.isDeclaration_relocate (r : FunctionId → FunctionId) (id : FunctionId)
    (f : Function) : (f.relocate r id).isDeclaration = f.isDeclaration := by
  simp [isDeclaration, Graph.isEmpty, IdMap.isEmpty, relocate, IdMap.mapValues]

namespace Module

/-- The module with the numbers taken that were given away. -/
def reserve (dest : Module) (p : Placement) : Module :=
  { dest with nextFunction := max dest.nextFunction p.nextId }

/-- Link a source into a module: what was done, or the error, and the module that is left. -/
def linkInto (dest source : Module) : Except LinkError LinkStats × Module :=
  match dest.placement source with
  | .error e => (.error e, dest)
  | .ok p =>
    match source.renumbered p with
    | .error e => (.error e, dest)
    | .ok functions =>
      let (linked, imported) := (dest.reserve p).registerAll functions
      (.ok ⟨imported, p.merged⟩, linked)

/-- Linking gives the module that is left if it succeeds. -/
theorem link_eq (dest source : Module) :
    dest.link source = (dest.linkInto source).1.map ((dest.linkInto source).2, ·) := by
  unfold link linkInto
  cases dest.placement source with
  | error e => rfl
  | ok p =>
    dsimp only
    cases source.renumbered p <;> rfl

/-- The functions of `source` stand in `linked` where `r` says, beside those of `dest`. -/
structure Linked (dest source linked : Module) (stats : LinkStats) (r : FunctionId → FunctionId) :
    Prop where
  /-- The numbers in the module are consistent. -/
  wellFormed : linked.WellFormed
  /-- The name of the module is kept. -/
  name : linked.name = dest.name
  /-- The string tables are kept. -/
  tables : linked.tables = dest.tables
  /-- The new names are counted. -/
  imported : stats.imported = dest.newSymbols source
  /-- All other functions are merged. -/
  merged : stats.merged + stats.imported = source.functions.size
  /-- A number is taken for each new name. -/
  next : linked.nextFunction.toNat = dest.nextFunction.toNat + stats.imported
  /-- Different functions stand under different numbers. -/
  injective : ∀ i j, source.functions.contains i = true → source.functions.contains j = true →
    r i = r j → i = j
  /-- A function stands for the symbol of its name. -/
  symbol : ∀ i f, source.whole? i = some f → linked.idOf? f.name = some (r i)
  /-- That is the symbol of the destination if there was one. -/
  known : ∀ i f id, source.whole? i = some f → dest.idOf? f.name = some id → r i = id
  /-- Else the function is declared under a new number. -/
  fresh : ∀ i f, source.whole? i = some f → dest.idOf? f.name = none →
    dest.nextFunction ≤ r i ∧ linked.function? (r i) = some (f.relocate r (r i)).toDeclaration
  /-- A body is pending, with the linkage of the declaration that was there before. -/
  body : ∀ i f, source.whole? i = some f → f.isDeclaration = false → linked.pending.get? (r i) =
    some ((f.relocate r (r i)).underDeclaration (dest.function? (r i)))
  /-- The destination keeps its functions. -/
  functions : ∀ id f, dest.function? id = some f → linked.function? id = some f
  /-- The destination keeps its pending bodies. -/
  pending : ∀ id f, dest.pending.get? id = some f → linked.pending.get? id = some f
  /-- There are no other functions. -/
  functionsOnly : ∀ id f, linked.function? id = some f → dest.function? id = some f ∨
    ∃ i g, source.whole? i = some g ∧ dest.idOf? g.name = none ∧ r i = id
  /-- There are no other pending bodies. -/
  pendingOnly : ∀ id f, linked.pending.get? id = some f → dest.pending.get? id = some f ∨
    ∃ i g, source.whole? i = some g ∧ g.isDeclaration = false ∧ r i = id

/-- The functions of `source` were placed and stored in `dest`, which gave `linked`. -/
structure Arrived (dest source : Module) (p : Placement) (linked : Module) : Prop where
  /-- The destination was well formed. -/
  destination : dest.WellFormed
  /-- All functions have their numbers. -/
  placed : Placed dest source.force.functions.entries p
  /-- No symbol was redefined. -/
  clean : ¬ dest.Redefines source
  /-- The functions were stored under their numbers. -/
  registered : Registered (dest.reserve p) (arrivals p) linked

section Placed

variable {dest source : Module} {p : Placement} {i j id : FunctionId} {f g : Function}

/-- What is stored are the functions that are brought in, under their numbers. -/
theorem Placed.mem_arrivals (h : Placed dest source.force.functions.entries p) :
    g ∈ arrivals p ↔ ∃ i f, source.whole? i = some f ∧ dest.brings f = true ∧
      g = f.relocate p.number (p.number i) := by
  rw [arrivals, List.mem_map]
  constructor
  · rintro ⟨⟨id, f⟩, hmem, rfl⟩
    obtain ⟨i, hf, rfl, hbring⟩ := h.mem_incoming.mp hmem
    exact ⟨i, f, hf, hbring, f.renumber_eq p _⟩
  · rintro ⟨i, f, hf, hbring, rfl⟩
    exact ⟨(p.number i, f), h.mem_incoming.mpr ⟨i, hf, rfl, hbring⟩, f.renumber_eq p _⟩

/-- The numbers of what is stored, in order. -/
theorem Placed.arrivals_ids (h : Placed dest source.force.functions.entries p) :
    (arrivals p).map (·.id) =
      (source.force.functions.entries.filter (fun e => dest.brings e.2)).map
        (fun e => p.number e.1) := by
  rw [arrivals, h.incoming, List.map_map, List.map_map]
  rfl

/-- Different functions that share a number have the name of one symbol. -/
theorem Placed.shared (h : Placed dest source.force.functions.entries p)
    (hf : source.whole? i = some f) (hg : source.whole? j = some g) (hij : i ≠ j)
    (he : p.number i = p.number j) :
    dest.idOf? f.name = some (p.number i) ∧ dest.idOf? g.name = some (p.number i) := by
  have hlow : ¬ dest.nextFunction ≤ p.number i := fun hge =>
    hij (h.apart i j _ (h.number_spec hf).1 (he ▸ (h.number_spec hg).1) hge)
  have hi := (h.number_spec hf).2.resolve_right (fun hnew => hlow hnew.2.1)
  have hj := (h.number_spec hg).2.resolve_right (fun hnew => hlow (he ▸ hnew.2.1))
  exact ⟨hi, he ▸ hj⟩

/-- All numbers are different if all names are. -/
theorem Placed.injective (h : Placed dest source.force.functions.entries p) (hd : dest.WellFormed)
    (hnames : source.DistinctNames) (hf : source.whole? i = some f)
    (hg : source.whole? j = some g) (he : p.number i = p.number j) : i = j := by
  by_cases hij : i = j
  · exact hij
  · obtain ⟨hi, hj⟩ := h.shared hf hg hij he
    exact hnames i j f g hf hg (hd.idOf?_inj hi hj)

/-- What is stored stands under different numbers if no two bodies have the same name. -/
theorem Placed.distinct (h : Placed dest source.force.functions.entries p) (hd : dest.WellFormed)
    (hbodies : source.DistinctBodies) : ((arrivals p).map (·.id)).Nodup := by
  rw [h.arrivals_ids]
  refine List.pairwise_map.mpr ?_
  refine (source.force.functions.ascending.filter _).imp_of_mem (fun {a b} ha hb hlt he => ?_)
  obtain ⟨ha, hbring⟩ := List.mem_filter.mp ha
  obtain ⟨hb, hbring'⟩ := List.mem_filter.mp hb
  have hfa := mem_entries_force.mp ha
  have hfb := mem_entries_force.mp hb
  have hne := UInt32.ne_of_lt hlt
  -- Only functions with bodies are brought to a symbol that is there already.
  obtain ⟨hida, hidb⟩ := h.shared hfa hfb hne he
  have hbody : ∀ f : Function, dest.brings f = true → dest.idOf? f.name = some (p.number a.1) →
      f.isDeclaration = false := by
    intro f hbring hid
    simpa [brings, hid] using hbring
  exact hne (hbodies a.1 b.1 a.2 b.2 hfa hfb (hbody a.2 hbring hida) (hbody b.2 hbring' hidb)
    (hd.idOf?_inj hida hidb))

theorem Placed.max_nextId (h : Placed dest source.force.functions.entries p) :
    max dest.nextFunction p.nextId = p.nextId := if_pos h.le_nextId

/-- A symbol of the destination is stored, a new number is not. -/
theorem Placed.function?_number (h : Placed dest source.force.functions.entries p)
    (hd : dest.WellFormed) (hf : source.whole? i = some f) :
    (dest.function? (p.number i)).isNone = (dest.idOf? f.name).isNone := by
  rcases (h.number_spec hf).2 with hid | ⟨hid, hge, -⟩
  · obtain ⟨g, hg, -⟩ := hd.of_idOf? hid
    rw [hid, hg]
    rfl
  · rw [hid, hd.function?_of_le hge]
    rfl

/-- One function is stored under a new number for each new name. -/
theorem Placed.countP_arrivals (h : Placed dest source.force.functions.entries p)
    (hd : dest.WellFormed) :
    (arrivals p).countP (fun f => (dest.function? f.id).isNone) = dest.newSymbols source := by
  have hids : (arrivals p).countP (fun f => (dest.function? f.id).isNone) =
      ((arrivals p).map (·.id)).countP (fun id => (dest.function? id).isNone) := by
    rw [List.countP_map]
    rfl
  rw [hids, h.arrivals_ids, List.countP_map, List.countP_filter, newSymbols, newCount]
  refine List.countP_congr (fun e he => ?_)
  have hnew := h.function?_number hd (mem_entries_force.mp he)
  simp only [Function.comp_apply, hnew, brings]
  cases (dest.idOf? e.2.name).isNone <;> simp

/-- What is brought in can be stored. -/
theorem Placed.storable (h : Placed dest source.force.functions.entries p) (hd : dest.WellFormed) :
    (dest.reserve p).Storable (arrivals p) := by
  intro g hg
  obtain ⟨i, f, hf, hbring, rfl⟩ := h.mem_arrivals.mp hg
  constructor
  · intro hdeclaration
    rw [Function.isDeclaration_relocate] at hdeclaration
    have hnone : (dest.idOf? f.name).isNone = true := by simpa [brings, hdeclaration] using hbring
    exact Option.isNone_iff_eq_none.mp ((h.function?_number hd hf).trans hnone)
  · show p.number i < max dest.nextFunction p.nextId
    rw [h.max_nextId]
    rcases (h.number_spec hf).2 with hid | ⟨-, -, hlt⟩
    · exact UInt32.lt_of_lt_of_le (hd.idOf?_lt hid) h.le_nextId
    · exact hlt

end Placed

namespace Arrived

variable {dest source linked : Module} {p : Placement} {i id : FunctionId} {f g : Function}

/-- The destination keeps its functions. -/
theorem functions (h : Arrived dest source p linked) (hf : dest.function? id = some f) :
    linked.function? id = some f := by
  rw [h.registered.kept id (fun _ _ _ => Option.isSome_iff_exists.mpr ⟨f, hf⟩)]
  exact hf

/-- A function with a new name is declared. -/
theorem fresh (h : Arrived dest source p linked) (hf : source.whole? i = some f)
    (hid : dest.idOf? f.name = none) :
    linked.function? (p.number i) = some (f.relocate p.number (p.number i)).toDeclaration := by
  have hmem := h.placed.mem_arrivals.mpr ⟨i, f, hf, by simp [brings, hid], rfl⟩
  have hfree := h.placed.function?_number h.destination hf
  rw [hid] at hfree
  exact h.registered.declared _ hmem (Option.isNone_iff_eq_none.mp hfree)

/-- A body is pending. -/
theorem body (h : Arrived dest source p linked) (hf : source.whole? i = some f)
    (hbody : f.isDeclaration = false) :
    linked.pending.get? (p.number i) =
      some ((f.relocate p.number (p.number i)).underDeclaration (dest.function? (p.number i))) := by
  have hmem := h.placed.mem_arrivals.mpr ⟨i, f, hf, by simp [brings, hbody], rfl⟩
  exact h.registered.body _ hmem ((f.isDeclaration_relocate p.number _).trans hbody)

/-- The destination keeps its pending bodies. -/
theorem pending (h : Arrived dest source p linked) (hb : dest.pending.get? id = some f) :
    linked.pending.get? id = some f := by
  refine (h.registered.pending id (fun g hg he => ?_)).trans hb
  obtain ⟨i, f', hf', -, rfl⟩ := h.placed.mem_arrivals.mp hg
  obtain rfl : p.number i = id := he
  rw [Function.isDeclaration_relocate]
  cases hbody : f'.isDeclaration with
  | true => rfl
  | false =>
    obtain ⟨declared, hdeclared, -⟩ := h.destination.declared hb
    rcases (h.placed.number_spec hf').2 with hid | ⟨-, hge, -⟩
    · have hnone := hasBody_of_clean h.clean hf' hbody hid
      simp [hasBody, IdMap.contains, hb] at hnone
    · rw [h.destination.function?_of_le hge] at hdeclared
      cases hdeclared

/-- Other functions are those with new names. -/
theorem functionsOnly (h : Arrived dest source p linked) (hf : linked.function? id = some f) :
    dest.function? id = some f ∨
      ∃ i g, source.whole? i = some g ∧ dest.idOf? g.name = none ∧ p.number i = id := by
  by_cases hnew : ∃ g ∈ arrivals p, g.id = id ∧ dest.function? id = none
  · obtain ⟨g, hg, he, hfree⟩ := hnew
    obtain ⟨i, f', hf', -, rfl⟩ := h.placed.mem_arrivals.mp hg
    obtain rfl : p.number i = id := he
    have hnone : (dest.idOf? f'.name).isNone = true := by
      rw [← h.placed.function?_number h.destination hf', hfree]
      rfl
    exact Or.inr ⟨i, f', hf', Option.isNone_iff_eq_none.mp hnone, rfl⟩
  · refine Or.inl ((h.registered.kept id (fun g hg he => ?_)).symm.trans hf)
    show (dest.function? id).isSome = true
    cases hfree : dest.function? id with
    | none => exact absurd ⟨g, hg, he, hfree⟩ hnew
    | some _ => rfl

/-- Other pending bodies are those of the source. -/
theorem pendingOnly (h : Arrived dest source p linked) (hb : linked.pending.get? id = some f) :
    dest.pending.get? id = some f ∨
      ∃ i g, source.whole? i = some g ∧ g.isDeclaration = false ∧ p.number i = id := by
  by_cases hnew : ∃ g ∈ arrivals p, g.id = id ∧ g.isDeclaration = false
  · obtain ⟨g, hg, he, hbody⟩ := hnew
    obtain ⟨i, f', hf', -, rfl⟩ := h.placed.mem_arrivals.mp hg
    rw [Function.isDeclaration_relocate] at hbody
    exact Or.inr ⟨i, f', hf', hbody, he⟩
  · refine Or.inl ((h.registered.pending id (fun g hg he => ?_)).symm.trans hb)
    cases hbody : g.isDeclaration with
    | false => exact absurd ⟨g, hg, he, hbody⟩ hnew
    | true => rfl

theorem nextFunction_eq (h : Arrived dest source p linked) : linked.nextFunction = p.nextId :=
  h.registered.next.trans h.placed.max_nextId

/-- The module that is left is well formed. -/
theorem wellFormed (h : Arrived dest source p linked) : linked.WellFormed where
  function_id := by
    intro id f hf
    rcases h.functionsOnly hf with hdest | ⟨i, g, hg, hid, rfl⟩
    · exact h.destination.function_id hdest
    · rw [h.fresh hg hid] at hf
      cases hf
      rfl
  pending_id := by
    intro id f hb
    rcases h.pendingOnly hb with hdest | ⟨i, g, hg, hbody, rfl⟩
    · exact h.destination.pending_id hdest
    · rw [h.body hg hbody] at hb
      cases hb
      cases dest.function? (p.number i) <;> rfl
  id_lt := by
    intro id f hf
    rw [h.nextFunction_eq]
    rcases h.functionsOnly hf with hdest | ⟨i, g, hg, hid, rfl⟩
    · exact UInt32.lt_of_lt_of_le (h.destination.id_lt hdest) h.placed.le_nextId
    · rcases (h.placed.number_spec hg).2 with hknown | ⟨-, -, hlt⟩
      · cases hid.symm.trans hknown
      · exact hlt
  declared := by
    intro id f hb
    rcases h.pendingOnly hb with hdest | ⟨i, g, hg, hbody, rfl⟩
    · obtain ⟨declared, hdeclared, hrest⟩ := h.destination.declared hdest
      exact ⟨declared, h.functions hdeclared, hrest⟩
    · rw [h.body hg hbody] at hb
      cases hb
      rcases (h.placed.number_spec hg).2 with hid | ⟨hid, hge, -⟩
      · obtain ⟨declared, hdeclared, hname⟩ := h.destination.of_idOf? hid
        have hnone := hasBody_of_clean h.clean hg hbody hid
        simp only [hasBody, hdeclared, Option.any_some, Bool.or_eq_false_iff,
          Bool.not_eq_false'] at hnone
        refine ⟨declared, h.functions hdeclared, hnone.2, ?_⟩
        rw [hdeclared]
        exact hname
      · refine ⟨_, h.fresh hg hid, rfl, ?_⟩
        rw [h.destination.function?_of_le hge]
        rfl

/-- A function stands for the symbol of its name, if new names are given once. -/
theorem symbol (h : Arrived dest source p linked) (hnames : dest.NewNamesDistinct source)
    (hf : source.whole? i = some f) : linked.idOf? f.name = some (p.number i) := by
  rw [h.wellFormed.idOf?_eq_some_iff]
  rcases (h.placed.number_spec hf).2 with hid | ⟨hid, hge, -⟩
  · obtain ⟨⟨g, hg, hname⟩, hleast⟩ := h.destination.idOf?_eq_some_iff.mp hid
    refine ⟨⟨g, h.functions hg, hname⟩, fun j g' hg' hname' => ?_⟩
    rcases h.functionsOnly hg' with hdest | ⟨j', f', hf', hnew, rfl⟩
    · exact hleast j g' hdest hname'
    · rcases (h.placed.number_spec hf').2 with hknown | ⟨-, hge', -⟩
      · cases hnew.symm.trans hknown
      · exact UInt32.le_of_lt (UInt32.lt_of_lt_of_le (h.destination.idOf?_lt hid) hge')
  · refine ⟨⟨_, h.fresh hf hid, rfl⟩, fun j g hg hname => ?_⟩
    rcases h.functionsOnly hg with hdest | ⟨j', f', hf', hnew, rfl⟩
    · exact absurd hname (idOf?_eq_none_iff.mp hid j g hdest)
    · rw [h.fresh hf' hnew] at hg
      cases hg
      rw [hnames j' i f' f hf' hf hnew hname]
      exact UInt32.le_rfl

end Arrived

section Run

variable {dest source : Module} {p : Placement}

/-- Placed functions are stored. -/
theorem Placed.arrived (h : Placed dest source.force.functions.entries p) (hd : dest.WellFormed)
    (hclean : ¬ dest.Redefines source) (hbodies : source.DistinctBodies) :
    Arrived dest source p ((dest.reserve p).registerAll (arrivals p)).1 ∧
      ((dest.reserve p).registerAll (arrivals p)).2 = dest.newSymbols source := by
  obtain ⟨hregistered, hcount⟩ :=
    registered_registerAll (h.storable hd) (h.distinct hd hbodies)
  exact ⟨⟨hd, h, hclean, hregistered⟩, hcount.trans (h.countP_arrivals hd)⟩

/-- Functions that were stored stand where their numbers say. -/
theorem Arrived.linked {linked : Module} {imported : Nat} (h : Arrived dest source p linked)
    (hnames : source.DistinctNames) (himported : imported = dest.newSymbols source) :
    Linked dest source linked ⟨imported, p.merged⟩ p.number := by
  have hsize : source.force.functions.entries.length = source.functions.size := List.length_map ..
  have hwhole : ∀ i, source.functions.contains i = true → ∃ f, source.whole? i = some f :=
    fun i hi => Option.isSome_iff_exists.mp (isSome_whole?.trans hi)
  refine ⟨h.wellFormed, h.registered.name, h.registered.tables, himported, ?_, ?_,
    fun i j hi hj he => ?_, fun i f hf => h.symbol hnames.new hf, fun i f id hf hid => ?_,
    fun i f hf hid => ⟨?_, h.fresh hf hid⟩, fun i f => h.body, fun id f => h.functions,
    fun id f => h.pending, fun id f => h.functionsOnly, fun id f => h.pendingOnly⟩
  · rw [← hsize, ← h.placed.merged, himported]
    rfl
  · rw [h.nextFunction_eq, himported]
    exact h.placed.next
  · obtain ⟨f, hf⟩ := hwhole i hi
    obtain ⟨g, hg⟩ := hwhole j hj
    exact h.placed.injective h.destination hnames hf hg he
  · rcases (h.placed.number_spec hf).2 with hknown | ⟨hnone, -, -⟩
    · exact Option.some.inj (hknown.symm.trans hid)
    · cases hnone.symm.trans hid
  · rcases (h.placed.number_spec hf).2 with hknown | ⟨-, hge, -⟩
    · cases hid.symm.trans hknown
    · exact hge

/-- Linking fails at a redefinition, else at a call that dangles, else functions are stored. -/
theorem linkInto_cases (hd : dest.WellFormed)
    (hroom : dest.nextFunction.toNat + dest.newSymbols source < 2 ^ 32) :
    (dest.Redefines source ∧ ∃ name, dest.linkInto source =
      (.error (.duplicateDefinition name dest.name source.name), dest)) ∨
    (¬ dest.Redefines source ∧ source.Dangles ∧ ∃ name callee, dest.linkInto source =
      (.error (.danglingCall name callee source.name), dest)) ∨
    (¬ dest.Redefines source ∧ ¬ source.Dangles ∧ ∃ p,
      Placed dest source.force.functions.entries p ∧ dest.linkInto source =
        (.ok ⟨((dest.reserve p).registerAll (arrivals p)).2, p.merged⟩,
          ((dest.reserve p).registerAll (arrivals p)).1)) := by
  unfold linkInto
  rcases dest.placement_cases source with ⟨hclash, name, herror⟩ | ⟨-, p, hok⟩
  · exact Or.inl ⟨hclash, name, by rw [herror]⟩
  · obtain ⟨hclean, hplaced⟩ := placed_of_ok hd hroom hok
    rw [hok]
    rcases renumbered_spec hplaced with ⟨hdangles, name, callee, herror⟩ | ⟨hcalls, hfunctions⟩
    · exact Or.inr (Or.inl ⟨hclean, hdangles, name, callee, by simp only [herror]⟩)
    · exact Or.inr (Or.inr ⟨hclean, hcalls, p, hplaced, by simp only [hfunctions]⟩)

/-- With distinct names, linking that does not fail puts all functions where their numbers say. -/
theorem link_cases (hd : dest.WellFormed) (hnames : source.DistinctNames)
    (hroom : dest.nextFunction.toNat + dest.newSymbols source < 2 ^ 32) :
    (dest.Redefines source ∧ ∃ name, dest.linkInto source =
      (.error (.duplicateDefinition name dest.name source.name), dest)) ∨
    (¬ dest.Redefines source ∧ source.Dangles ∧ ∃ name callee, dest.linkInto source =
      (.error (.danglingCall name callee source.name), dest)) ∨
    (¬ dest.Redefines source ∧ ¬ source.Dangles ∧ ∃ stats linked r,
      dest.linkInto source = (.ok stats, linked) ∧ Linked dest source linked stats r) := by
  refine (linkInto_cases hd hroom).imp_right (Or.imp_right ?_)
  rintro ⟨hclean, hcalls, p, hplaced, hlink⟩
  obtain ⟨harrived, hcount⟩ := hplaced.arrived hd hclean hnames.bodies
  exact ⟨hclean, hcalls, _, _, _, hlink, harrived.linked hnames hcount⟩

/-- Linking fails with a duplicate definition exactly if a symbol is redefined, and otherwise with a
dangling call exactly if a body calls what its module does not have; the destination is left as it
was. If neither is the case all functions of the source arrive. -/
theorem link_spec (hd : dest.WellFormed) (hnames : source.DistinctNames)
    (hroom : dest.nextFunction.toNat + dest.newSymbols source < 2 ^ 32) :
    ((∃ name existing incoming,
        dest.link source = .error (.duplicateDefinition name existing incoming)) ↔
      dest.Redefines source) ∧
    ((∃ name callee origin, dest.link source = .error (.danglingCall name callee origin)) ↔
      ¬ dest.Redefines source ∧ source.Dangles) ∧
    (∀ e, dest.link source = .error e → dest.linkInto source = (.error e, dest)) ∧
    (¬ dest.Redefines source → ¬ source.Dangles → ∃ linked stats r,
      dest.link source = .ok (linked, stats) ∧ Linked dest source linked stats r) := by
  rw [link_eq]
  rcases link_cases hd hnames hroom with ⟨hclash, name, h⟩ | ⟨hclean, hdangles, name, callee, h⟩ |
    ⟨hclean, hcalls, stats, linked, r, h, hlinked⟩
  · rw [h]
    simp [Except.map, hclash]
  · rw [h]
    simp [Except.map, hclean, hdangles]
  · rw [h]
    simp only [Except.map, reduceCtorEq, exists_false, hclean, hcalls, not_false_eq_true, and_false,
      false_implies, implies_true, true_and, forall_const]
    exact ⟨linked, stats, r, rfl, hlinked⟩

/-- A module with a fused kernel is linked into one that declares a stage of it: the calls of the
kernel go to the declared stage and to two new functions. -/
theorem link_spec_host :
    ∃ linked stats r, Samples.host.link Samples.fused = .ok (linked, stats) ∧
      Linked Samples.host Samples.fused linked stats r ∧ r 1 = 0 := by
  have hd : Samples.host.WellFormed := by decide
  have hnames : Samples.fused.DistinctNames := by decide
  have hroom : Samples.host.nextFunction.toNat + Samples.host.newSymbols Samples.fused <
      2 ^ 32 := by decide
  obtain ⟨hduplicate, hdangling, -, hgood⟩ := link_spec hd hnames hroom
  obtain ⟨answer, hok⟩ : ∃ answer, Samples.host.link Samples.fused = .ok answer := ⟨_, rfl⟩
  have hclean : ¬ Samples.host.Redefines Samples.fused := by
    intro h
    obtain ⟨_, _, _, herror⟩ := hduplicate.mpr h
    cases hok.symm.trans herror
  have hcalls : ¬ Samples.fused.Dangles := by
    intro h
    obtain ⟨_, _, _, herror⟩ := hdangling.mpr ⟨hclean, h⟩
    cases hok.symm.trans herror
  obtain ⟨linked, stats, r, h, hlinked⟩ := hgood hclean hcalls
  exact ⟨linked, stats, r, h, hlinked, hlinked.known 1 _ 0 rfl rfl⟩

end Run

end Module

end KernelFusion

import KernelFusion.Proofs.Agreement
import KernelFusion.Proofs.StoreInvariant
import Mathlib.Algebra.GroupWithZero.Nat
import Mathlib.Data.List.Pairwise

/-!
# The order of linking

The order of the modules decides which numbers their functions get, whether a declaration is merged
into a definition or the other way round, and where a link fails. It decides nothing else: modules
that can be linked in one order can be linked in every other, and the linked modules have the same
symbols, the same bodies are pending, and each of them is the same once the functions that it calls
are named and not numbered.
-/

namespace KernelFusion

/-- A function read by names: what it is apart from its number, its linkage and the numbers of the
functions that it calls, and the names of these, block by block. -/
@[ext]
structure NamedFunction where
  /-- The function with all those numbers zero and the least linkage. -/
  function : Function
  /-- The names of the functions that each block calls, in order. -/
  callees : IdMap (List (Option String))
deriving DecidableEq

/-- The function read by the names that the numbers in it stand for. -/
def Function.named (f : Function) (nameOf : FunctionId → Option String) : NamedFunction where
  function :=
    { f.relocate (fun _ => 0) 0 with attributes := { f.attributes with linkage := .priv } }
  callees := f.graph.blocks.mapValues (fun _ b =>
    (b.instructions.filterMap (·.callee)).map nameOf)

namespace Module

/-- The body that is pending for a name. -/
def pendingBody? (m : Module) (name : String) : Option Function :=
  (m.idOf? name).bind m.pending.get?

/-- The name of the whole function under a number. -/
def wholeName? (m : Module) (id : FunctionId) : Option String := (m.whole? id).map (·.name)

/-- The number of functions in a list of modules. -/
def totalFunctions (sources : List Module) : Nat := (sources.map (·.functions.size)).sum

end Module

section Named

variable {r : FunctionId → FunctionId} {f : Function}

theorem Instruction.callee_relocate (i : Instruction) :
    (i.relocate r).callee = i.callee.map r := by
  cases i <;> rfl

theorem Instruction.relocate_relocate (s : FunctionId → FunctionId) (i : Instruction) :
    (i.relocate r).relocate s = i.relocate (s ∘ r) := by
  cases i <;> rfl

theorem Function.relocate_relocate (s : FunctionId → FunctionId) (i j : FunctionId) (f : Function) :
    (f.relocate r i).relocate s j = f.relocate (s ∘ r) j := by
  have hinstructions : Instruction.relocate s ∘ Instruction.relocate r =
      Instruction.relocate (s ∘ r) := funext (Instruction.relocate_relocate s)
  simp only [relocate, IdMap.mapValues_mapValues, List.map_map, hinstructions]

/-- Renumbering cannot be seen by names that follow it, and neither can the linkage. -/
theorem Function.named_relocate {nameOf nameOf' : FunctionId → Option String}
    (h : ∀ callee ∈ f.callees, nameOf (r callee) = nameOf' callee) (i : FunctionId)
    (declared : Option Function) :
    ((f.relocate r i).underDeclaration declared).named nameOf = f.named nameOf' := by
  have hfunction : ((f.relocate r i).named nameOf).function = (f.named nameOf').function := by
    simp only [named, relocate_relocate]
    rfl
  have hcallees : ((f.relocate r i).named nameOf).callees = (f.named nameOf').callees := by
    simp only [named, relocate, IdMap.mapValues_mapValues]
    refine IdMap.mapValues_congr (fun e he => ?_)
    rw [List.filterMap_map, List.map_filterMap, List.map_filterMap]
    refine List.filterMap_congr (fun instruction hi => ?_)
    rw [Function.comp_apply, instruction.callee_relocate]
    cases hcallee : instruction.callee with
    | none => rfl
    | some callee =>
      have hmem : callee ∈ f.callees := List.mem_filterMap.mpr
        ⟨instruction, List.mem_flatMap.mpr ⟨e.2, List.mem_map.mpr ⟨e, he, rfl⟩, hi⟩, hcallee⟩
      exact congrArg some (h callee hmem)
  have hlinkage : ((f.relocate r i).underDeclaration declared).named nameOf =
      (f.relocate r i).named nameOf := by
    cases declared <;> rfl
  rw [hlinkage]
  exact NamedFunction.ext hfunction hcallees

end Named

namespace Module

section Success

variable {dest : Module} {sources other : List Module} {known defined : List String}

theorem newSymbols_le (dest source : Module) : dest.newSymbols source ≤ source.functions.size := by
  have hsize : source.force.functions.entries.length = source.functions.size := List.length_map ..
  exact hsize ▸ List.countP_le_length

/-- Numbers suffice if there are as many left as there are functions. -/
theorem numbersFit_links (hd : dest.WellFormed)
    (hroom : dest.nextFunction.toNat + totalFunctions sources < 2 ^ 32) :
    NumbersFit (sources.map .link) dest := by
  induction sources generalizing dest with
  | nil => trivial
  | cons source rest ih =>
    have htotal : totalFunctions (source :: rest) = source.functions.size + totalFunctions rest :=
      List.sum_cons
    have hsymbols := newSymbols_le dest source
    rw [List.map_cons, NumbersFit, Action.taken, Action.run]
    rcases hlink : dest.linkInto source with ⟨e | stats, left⟩
    · obtain rfl := linkInto_error hlink
      refine ⟨by dsimp only; omega, ?_⟩
      show NumbersFit (rest.map .link) left
      exact ih hd (by omega)
    · obtain ⟨hgrown, hnext⟩ := grown_linkInto hd (by omega) hlink
      refine ⟨by dsimp only; omega, ?_⟩
      show NumbersFit (rest.map .link) left
      exact ih (hgrown.wellFormed hd) (by omega)

/-- A source with distinct names keeps names apart, whatever is known. -/
theorem DistinctNames.apart {source : Module} (h : source.DistinctNames)
    (hcatalogued : Catalogued known defined dest) : source.NamesApart known :=
  ⟨nodup_definitions_iff.mpr h.bodies, (nodup_fresh_iff hcatalogued.symbols).mpr h.new⟩

/-- Modules with distinct names are linked exactly if no name is defined twice and no call
dangles. -/
theorem Catalogued.links_iff (h : Catalogued known defined dest)
    (hnames : ∀ s ∈ sources, s.DistinctNames)
    (hroom : dest.nextFunction.toNat + totalFunctions sources < 2 ^ 32) :
    (∃ m, dest.linkEach sources = .ok m) ↔
      (defined ++ sources.flatMap definitions).Nodup ∧ ∀ s ∈ sources, ¬ s.Dangles := by
  induction sources generalizing dest known defined with
  | nil => simp [linkEach, h.once]
  | cons source rest ih =>
    obtain ⟨hsource, hrest⟩ := List.forall_mem_cons.mp hnames
    have htotal : totalFunctions (source :: rest) = source.functions.size + totalFunctions rest :=
      List.sum_cons
    have hsymbols := newSymbols_le dest source
    have hhere : dest.nextFunction.toNat + dest.newSymbols source < 2 ^ 32 := by omega
    rw [linkEach, List.flatMap_cons, List.forall_mem_cons]
    rcases link_cases h.wellFormed hsource hhere with ⟨hclash, name, hlink⟩ |
      ⟨-, hdangles, name, callee, hlink⟩ | ⟨-, hcalls, stats, left, r, hlink, -⟩
    · obtain ⟨n, hn, hdefined⟩ := redefines_iff.mp hclash
      have htwice : ¬ (defined ++ (source.definitions ++ rest.flatMap definitions)).Nodup :=
        fun hnodup => (List.nodup_append.mp hnodup).2.2 n ((h.bodies n).mp hdefined) n
          (List.mem_append_left _ hn) rfl
      simp [hlink, htwice]
    · simp [hlink, hdangles]
    · have hleft := (h.link (hsource.apart h) hhere hlink).1
      obtain ⟨-, hnext⟩ := grown_linkInto h.wellFormed hhere hlink
      simp only [hlink, ih hleft hrest (by omega), List.append_assoc, hcalls, not_false_eq_true,
        true_and]

/-- Modules with distinct names are linked into a new one exactly if no name has a body in two of
them and no call dangles. -/
theorem linkAll_ok_iff (name : String) (hnames : ∀ s ∈ sources, s.DistinctNames)
    (hroom : totalFunctions sources < 2 ^ 32) :
    (∃ m, linkAll name sources = .ok m) ↔
      (sources.flatMap definitions).Nodup ∧ ∀ s ∈ sources, ¬ s.Dangles := by
  have hiff := (Catalogued.new name).links_iff hnames ((Nat.zero_add _).symm ▸ hroom)
  rwa [List.nil_append, ← linkAll_eq] at hiff

end Success

section Names

variable {source m : Module} {sources : List Module} {r : FunctionId → FunctionId} {name : String}
  {t : Function}

/-- The symbols of a linked module are the names of the functions that it was made of. -/
theorem Assembled.hasSymbol_iff (h : Assembled sources m) :
    m.hasSymbol name = true ↔ ∃ s ∈ sources, name ∈ s.names := by
  rw [Module.hasSymbol_iff]
  constructor
  · rintro ⟨id, hid⟩
    obtain ⟨t, ht, rfl⟩ := h.wellFormed.whole?_of_idOf? hid
    obtain ⟨s, hs, r, -, i, f, hf, -, hcopy⟩ := h.origin id t ht
    exact ⟨s, hs, mem_names_iff.mpr ⟨i, f, hf, hcopy.name_eq.symm⟩⟩
  · rintro ⟨s, hs, hname⟩
    obtain ⟨i, f, hf, rfl⟩ := mem_names_iff.mp hname
    obtain ⟨r, hbears⟩ := h.bears s hs
    exact ⟨r i, hbears.symbol i f hf⟩

/-- A body that is pending for a name is a copy of a body of that name. -/
theorem Assembled.of_pendingBody? (h : Assembled sources m) (hm : m.Sound)
    (ht : m.pendingBody? name = some t) :
    ∃ s ∈ sources, ∃ r, m.Bears s r ∧ ∃ i f, s.whole? i = some f ∧ f.isDeclaration = false ∧
      f.name = name ∧ ∃ declared, t = (f.relocate r (r i)).underDeclaration declared := by
  obtain ⟨id, hid, hb⟩ := Option.bind_eq_some_iff.mp ht
  obtain ⟨s, hs, r, hbears, i, f, hf, rfl, hcopy⟩ := h.origin id t (hm.whole?_of_pending hb)
  have hname : f.name = name := h.wellFormed.idOf?_inj (hbears.symbol i f hf) hid
  cases hcopy with
  | body declared hbody => exact ⟨s, hs, r, hbears, i, f, hf, hbody, hname, declared, rfl⟩
  | declaration hbody => cases hm.real hb

/-- A body is pending for the names that were defined. -/
theorem Assembled.isSome_pendingBody?_iff (h : Assembled sources m) (hm : m.Sound) :
    (m.pendingBody? name).isSome = true ↔ ∃ s ∈ sources, name ∈ s.definitions := by
  constructor
  · intro hsome
    obtain ⟨t, ht⟩ := Option.isSome_iff_exists.mp hsome
    obtain ⟨s, hs, -, -, i, f, hf, hbody, hname, -⟩ := h.of_pendingBody? hm ht
    exact ⟨s, hs, mem_definitions_iff.mpr ⟨i, f, hf, hbody, hname⟩⟩
  · rintro ⟨s, hs, hname⟩
    obtain ⟨i, f, hf, hbody, rfl⟩ := mem_definitions_iff.mp hname
    obtain ⟨r, hbears⟩ := h.bears s hs
    obtain ⟨declared, hb⟩ := hbears.body i f hf hbody
    rw [pendingBody?, hbears.symbol i f hf, Option.bind_some, hb]
    rfl

/-- A function has the same name in the source and where it went. -/
theorem Bears.name_eq (h : m.Bears source r) (hm : m.WellFormed) {i : FunctionId}
    (hi : source.functions.contains i = true) :
    m.symbols.get? (r i) = source.wholeName? i ∧ m.symbols.contains (r i) = true := by
  obtain ⟨f, hf⟩ := Option.isSome_iff_exists.mp (isSome_whole?.trans hi)
  obtain ⟨g, hg, hname⟩ := hm.of_idOf? (h.symbol i f hf)
  have hsymbol : m.symbols.get? (r i) = some f.name := by
    rw [get?_symbols, hg, Option.map_some, hname]
  exact ⟨by rw [hsymbol, wholeName?, hf, Option.map_some], IdMap.contains_iff.mpr ⟨_, hsymbol⟩⟩

/-- The calls of a copy of a body go where the functions went that the body calls. -/
theorem callees_copy {f : Function} (hbody : f.isDeclaration = false) (id : FunctionId)
    (declared : Option Function) :
    ((f.relocate r id).underDeclaration declared).callees = f.callees.map r := by
  have hcopy : f.Copy r id ((f.relocate r id).underDeclaration declared) := .body declared hbody
  have hcopybody : ((f.relocate r id).underDeclaration declared).isDeclaration = false := by
    cases declared <;> exact (f.isDeclaration_relocate r id).trans hbody
  rw [Function.callees, (hcopy.of_body hcopybody).2.2, List.filterMap_map, Function.callees,
    List.map_filterMap]
  exact List.filterMap_congr (fun instruction _ => instruction.callee_relocate)

/-- A body that is pending for a name reads by names as the body of that name that was linked. -/
theorem Assembled.named_pendingBody? (h : Assembled sources m) (hm : m.Sound)
    (hcalls : ∀ s ∈ sources, ¬ s.Dangles) (ht : m.pendingBody? name = some t) :
    (∃ s ∈ sources, ∃ i f, s.whole? i = some f ∧ f.isDeclaration = false ∧ f.name = name ∧
      t.named m.symbols.get? = f.named s.wholeName?) ∧
    ∀ callee ∈ t.callees, m.symbols.contains callee = true := by
  obtain ⟨s, hs, r, hbears, i, f, hf, hbody, hname, declared, rfl⟩ := h.of_pendingBody? hm ht
  have hcallee : ∀ callee ∈ f.callees, s.functions.contains callee = true := by
    intro callee hmem
    refine Bool.not_eq_false _ ▸ fun hnone => ?_
    exact hcalls s hs ⟨i, f, hf, callee, hmem, hnone⟩
  refine ⟨⟨s, hs, i, f, hf, hbody, hname, ?_⟩, ?_⟩
  · exact Function.named_relocate
      (fun callee hmem => (hbears.name_eq h.wellFormed (hcallee callee hmem)).1) _ declared
  · rw [callees_copy hbody, List.forall_mem_map]
    exact fun callee hmem => (hbears.name_eq h.wellFormed (hcallee callee hmem)).2

end Names

/-- Modules with distinct names can be linked exactly if no name has a body in two of them and no
body calls what its module does not have, so their order does not matter. Neither does it for what
is linked: symbols and names with a pending body are the same, and a pending body reads by names the
same, all functions that it calls being there. -/
theorem linkAll_order (name : String) {sources other : List Module} (hperm : sources.Perm other)
    (hnames : ∀ s ∈ sources, s.DistinctNames) (hroom : totalFunctions sources < 2 ^ 32) :
    ((∃ m, linkAll name sources = .ok m) ↔
      sources.Pairwise (fun a b => a.definitions.Disjoint b.definitions) ∧
        ∀ s ∈ sources, ¬ s.Dangles) ∧
    ((∃ m, linkAll name sources = .ok m) ↔ ∃ m, linkAll name other = .ok m) ∧
    ∀ m m', linkAll name sources = .ok m → linkAll name other = .ok m' →
      (∀ n, m.hasSymbol n = m'.hasSymbol n) ∧
      (∀ n, (m.pendingBody? n).isSome = (m'.pendingBody? n).isSome) ∧
      ∀ n t t', m.pendingBody? n = some t → m'.pendingBody? n = some t' →
        t.named m.symbols.get? = t'.named m'.symbols.get? ∧
        ∀ callee ∈ t.callees, m.symbols.contains callee = true := by
  have hmem : ∀ s, s ∈ other ↔ s ∈ sources := fun s => hperm.symm.mem_iff
  have hnames' : ∀ s ∈ other, s.DistinctNames := fun s hs => hnames s ((hmem s).mp hs)
  have htotal : totalFunctions other = totalFunctions sources := (hperm.map _).sum_nat.symm
  have hroom' : totalFunctions other < 2 ^ 32 := htotal ▸ hroom
  have hiff := linkAll_ok_iff name hnames hroom
  have hiff' := linkAll_ok_iff name hnames' hroom'
  have hdistinct : ∀ s ∈ sources, s.definitions.Nodup :=
    fun s hs => nodup_definitions_iff.mpr (hnames s hs).bodies
  refine ⟨?_, ?_, fun m m' hok hok' => ?_⟩
  · rw [hiff, List.nodup_flatMap, and_iff_right hdistinct]
  · rw [hiff, hiff', (hperm.flatMap_right definitions).nodup_iff]
    simp only [hmem]
  · obtain ⟨hnodup, hcalls⟩ := hiff.mp ⟨m, hok⟩
    have hfit : ∀ {l : List Module}, totalFunctions l < 2 ^ 32 →
        NumbersFit (l.map .link) (.new name) :=
      fun hl => numbersFit_links (Catalogued.new name).wellFormed ((Nat.zero_add _).symm ▸ hl)
    have hm := sound_linkAll (hfit hroom) hok
    have hm' := sound_linkAll (hfit hroom') hok'
    have ha := assembled_linkAll hnames (hfit hroom) hok
    have ha' := assembled_linkAll hnames' (hfit hroom') hok'
    refine ⟨fun n => ?_, fun n => ?_, fun n t t' ht ht' => ?_⟩
    · rw [Bool.eq_iff_iff, ha.hasSymbol_iff, ha'.hasSymbol_iff]
      simp only [hmem]
    · rw [Bool.eq_iff_iff, ha.isSome_pendingBody?_iff hm, ha'.isSome_pendingBody?_iff hm']
      simp only [hmem]
    · obtain ⟨⟨s, hs, i, f, hf, hbody, hname, hread⟩, hcallees⟩ :=
        ha.named_pendingBody? hm hcalls ht
      obtain ⟨⟨s', hs', j, g, hg, hbody', hname', hread'⟩, -⟩ :=
        ha'.named_pendingBody? hm' (fun s hs => hcalls s ((hmem s).mp hs)) ht'
      -- Both are read from the one body of that name.
      have hsame : s = s' := by
        by_contra hne
        have hsymm : Std.Symm (Function.onFun List.Disjoint definitions) :=
          ⟨fun a b hab n hn hn' => hab hn' hn⟩
        have hdisjoint := (List.nodup_flatMap.mp hnodup).2.forall hs ((hmem s').mp hs') hne
        exact hdisjoint (mem_definitions_iff.mpr ⟨i, f, hf, hbody, hname⟩)
          (mem_definitions_iff.mpr ⟨j, g, hg, hbody', hname'⟩)
      subst hsame
      obtain rfl := hnames s hs i j f g hf hg (hname.trans hname'.symm)
      obtain rfl := Option.some.inj (hf.symm.trans hg)
      exact ⟨hread.trans hread'.symm, hcallees⟩

/-- A module with a fused kernel is linked behind one that declares a stage of it, and before it.
The kernel calls other numbers then, but the same names. -/
theorem linkAll_order_host :
    ∃ m m' t t', linkAll "m" [Samples.host, Samples.fused] = .ok m ∧
      linkAll "m" [Samples.fused, Samples.host] = .ok m' ∧
      m.pendingBody? "fused" = some t ∧ m'.pendingBody? "fused" = some t' ∧
      t.callees = [1, 0, 2] ∧ t'.callees = [0, 1, 2] ∧
      t.named m.symbols.get? = t'.named m'.symbols.get? := by
  have hnames : ∀ s ∈ [Samples.host, Samples.fused], s.DistinctNames := by decide
  have hroom : totalFunctions [Samples.host, Samples.fused] < 2 ^ 32 := by decide
  obtain ⟨-, -, hsame⟩ :=
    linkAll_order "m" (.swap Samples.fused Samples.host []) hnames hroom
  obtain ⟨-, -, hread⟩ := hsame _ _ rfl rfl
  exact ⟨_, _, _, _, rfl, rfl, rfl, rfl, rfl, rfl, (hread "fused" _ _ rfl rfl).1⟩

end Module

end KernelFusion

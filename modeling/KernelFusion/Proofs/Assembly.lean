import KernelFusion.Proofs.History
import KernelFusion.Proofs.Lists
import Mathlib.Data.List.Nodup

/-!
# Linking a list of modules

Collisions are looked up in the destination only, so linking tells the functions of one source apart
by their numbers and not by their names. If no source gives a new name or a body twice, linking a
list of modules yields one symbol for each name and keeps every body, and it fails with a duplicate
definition exactly when two bodies of one name meet. Otherwise a link that succeeds leaves two
symbols of one name, or it loses a body.
-/

namespace KernelFusion.Module

/-- The names of the functions of a module, in the order of their numbers. -/
def names (m : Module) : List String := m.force.functions.values.map (·.name)

/-- The names of its functions with bodies, pending or not. -/
def definitions (m : Module) : List String :=
  (m.force.functions.values.filter (fun f => !f.isDeclaration)).map (·.name)

/-- A module gives neither a body nor a name that is not known twice. -/
structure NamesApart (known : List String) (m : Module) : Prop where
  /-- Bodies have different names. -/
  bodies : m.definitions.Nodup
  /-- Names that are not known are different. -/
  fresh : (m.names.filter (· ∉ known)).Nodup

instance (known : List String) (m : Module) : Decidable (m.NamesApart known) :=
  decidable_of_iff (m.definitions.Nodup ∧ (m.names.filter (· ∉ known)).Nodup)
    ⟨fun h => ⟨h.1, h.2⟩, fun h => ⟨h.bodies, h.fresh⟩⟩

/-- So do modules one after the other, each knowing the names of those before it. -/
def AllApart : List String → List Module → Prop
  | _, [] => True
  | known, m :: rest => m.NamesApart known ∧ AllApart (known ++ m.names) rest

/-- A name stands for a function with a body. -/
def Defines (m : Module) (name : String) : Prop :=
  ∃ id, m.idOf? name = some id ∧ m.hasBody id = true

/-- Every function of a source stands in `m` for the symbol of its name, and its body is pending
there with its calls renumbered, under the linkage of some declaration or its own. -/
structure Bears (m source : Module) (r : FunctionId → FunctionId) : Prop where
  /-- A name stands for the number of its function. -/
  symbol : ∀ i f, source.whole? i = some f → m.idOf? f.name = some (r i)
  /-- A body is pending under it. -/
  body : ∀ i f, source.whole? i = some f → f.isDeclaration = false →
    ∃ declared, m.pending.get? (r i) = some ((f.relocate r (r i)).underDeclaration declared)

/-- Link modules into a module, one after the other. -/
def linkEach (dest : Module) : List Module → Except LinkError Module
  | [] => .ok dest
  | source :: rest =>
    match dest.linkInto source with
    | (.error e, _) => .error e
    | (.ok _, left) => left.linkEach rest

section Names

variable {m : Module} {name : String}

/-- Functions that pass a test have different names if no two numbers have one. -/
theorem nodup_names_iff {test : Function → Bool} :
    ((m.force.functions.values.filter test).map (·.name)).Nodup ↔
      ∀ i j f g, m.whole? i = some f → m.whole? j = some g → test f = true → test g = true →
        f.name = g.name → i = j := by
  have hlist : (m.force.functions.values.filter test).map (·.name) =
      (m.force.functions.entries.filter (fun e => test e.2)).map (fun e => e.2.name) := by
    rw [IdMap.values, List.filter_map, List.map_map]
    rfl
  have hentries : m.force.functions.entries.Nodup :=
    m.force.functions.ascending.imp (fun {a b} hlt he => UInt32.ne_of_lt hlt (congrArg Prod.fst he))
  have hnodup : (m.force.functions.entries.filter (fun e => test e.2)).Nodup := hentries.filter _
  rw [hlist, List.nodup_map_iff_inj_on hnodup]
  constructor
  · intro h i j f g hf hg htest htest' hname
    have hi := mem_entries_force.mpr hf
    have hj := mem_entries_force.mpr hg
    exact congrArg Prod.fst (h (i, f) (List.mem_filter.mpr ⟨hi, htest⟩) (j, g)
      (List.mem_filter.mpr ⟨hj, htest'⟩) hname)
  · rintro h ⟨i, f⟩ hi ⟨j, g⟩ hj hname
    obtain ⟨hi, htest⟩ := List.mem_filter.mp hi
    obtain ⟨hj, htest'⟩ := List.mem_filter.mp hj
    have hf := mem_entries_force.mp hi
    have hg := mem_entries_force.mp hj
    obtain rfl := h i j f g hf hg htest htest' hname
    rw [Option.some.inj (hf.symm.trans hg)]

theorem mem_names_iff : name ∈ m.names ↔ ∃ i f, m.whole? i = some f ∧ f.name = name := by
  simp only [names, List.mem_map, IdMap.mem_values_iff]
  constructor
  · rintro ⟨f, ⟨i, hi⟩, hname⟩
    exact ⟨i, f, function?_force.symm.trans hi, hname⟩
  · rintro ⟨i, f, hf, hname⟩
    exact ⟨f, ⟨i, function?_force.trans hf⟩, hname⟩

theorem mem_definitions_iff : name ∈ m.definitions ↔
    ∃ i f, m.whole? i = some f ∧ f.isDeclaration = false ∧ f.name = name := by
  simp only [definitions, List.mem_map, List.mem_filter, IdMap.mem_values_iff, Bool.not_eq_true']
  constructor
  · rintro ⟨f, ⟨⟨i, hi⟩, hbody⟩, hname⟩
    exact ⟨i, f, function?_force.symm.trans hi, hbody, hname⟩
  · rintro ⟨i, f, hf, hbody, hname⟩
    exact ⟨f, ⟨⟨i, function?_force.trans hf⟩, hbody⟩, hname⟩

theorem nodup_definitions_iff : m.definitions.Nodup ↔ m.DistinctBodies := by
  rw [definitions, nodup_names_iff]
  simp only [Bool.not_eq_true', DistinctBodies]

theorem hasSymbol_iff : m.hasSymbol name = true ↔ ∃ id, m.idOf? name = some id :=
  Option.isSome_iff_exists

/-- Names that are not known are different if no two numbers have one. -/
theorem nodup_fresh_iff {dest : Module} {known : List String}
    (hknown : ∀ name, dest.hasSymbol name = true ↔ name ∈ known) :
    (m.names.filter (· ∉ known)).Nodup ↔ dest.NewNamesDistinct m := by
  have hfree : ∀ name, dest.idOf? name = none ↔ name ∉ known := by
    intro name
    rw [← hknown, hasSymbol, Bool.not_eq_true, Option.isSome_eq_false_iff,
      Option.isNone_iff_eq_none]
  have hfilter : m.names.filter (· ∉ known) =
      (m.force.functions.values.filter (fun f => f.name ∉ known)).map (·.name) := by
    rw [names, List.filter_map]
    rfl
  rw [hfilter, nodup_names_iff]
  simp only [decide_eq_true_eq, ← hfree, NewNamesDistinct]
  constructor
  · intro h i j f g hf hg hnew hname
    exact h i j f g hf hg hnew (hname ▸ hnew) hname
  · intro h i j f g hf hg hnew _ hname
    exact h i j f g hf hg hnew hname

/-- Names are distinct if those of the stored functions are. -/
theorem WellFormed.distinctNames_iff (h : m.WellFormed) :
    m.DistinctNames ↔ ∀ i j f g, m.function? i = some f → m.function? j = some g →
      f.name = g.name → i = j := by
  -- What is asked is a matter of the names by number, and those are the same in both lookups.
  have hdistinct : ∀ lookup : FunctionId → Option Function,
      (∀ i j f g, lookup i = some f → lookup j = some g → f.name = g.name → i = j) ↔
        ∀ i j name, (lookup i).map (·.name) = some name → (lookup j).map (·.name) = some name →
          i = j := by
    intro lookup
    constructor
    · intro hd i j name hi hj
      obtain ⟨f, hf, rfl⟩ := Option.map_eq_some_iff.mp hi
      obtain ⟨g, hg, he⟩ := Option.map_eq_some_iff.mp hj
      exact hd i j f g hf hg he.symm
    · intro hd i j f g hf hg he
      exact hd i j g.name (by rw [hf, Option.map_some, he]) (by rw [hg, Option.map_some])
  rw [DistinctNames, hdistinct m.whole?, hdistinct m.function?]
  simp only [h.whole?_name]

end Names

section Link

variable {dest source left m : Module} {p : Placement} {stats : LinkStats} {name : String}
  {r : FunctionId → FunctionId}

/-- A source without two bodies of one name arrives if linking it succeeds. -/
theorem arrived_of_linkInto (hd : dest.WellFormed) (hbodies : source.DistinctBodies)
    (hroom : dest.nextFunction.toNat + dest.newSymbols source < 2 ^ 32)
    (h : dest.linkInto source = (.ok stats, left)) : ∃ p, Arrived dest source p left := by
  obtain ⟨p, hplace, -, rfl⟩ := linkInto_ok h
  obtain ⟨hclean, hplaced⟩ := placed_of_ok hd hroom hplace
  exact ⟨p, (hplaced.arrived hd hclean hbodies).1⟩

/-- The symbols are those of the destination and of the source. -/
theorem Arrived.hasSymbol_iff (h : Arrived dest source p left) :
    left.hasSymbol name = true ↔ dest.hasSymbol name = true ∨ name ∈ source.names := by
  have hstored : ∀ {m : Module}, m.WellFormed →
      (m.hasSymbol name = true ↔ ∃ i f, m.function? i = some f ∧ f.name = name) := by
    intro m hm
    rw [Module.hasSymbol_iff]
    constructor
    · rintro ⟨id, hid⟩
      exact ⟨id, hm.of_idOf? hid⟩
    · rintro ⟨i, f, hf, hname⟩
      cases hid : m.idOf? name with
      | some id => exact ⟨id, rfl⟩
      | none => exact absurd hname (idOf?_eq_none_iff.mp hid i f hf)
  rw [hstored h.wellFormed, hstored h.destination, mem_names_iff]
  constructor
  · rintro ⟨i, f, hf, rfl⟩
    rcases h.functionsOnly hf with hdest | ⟨j, g, hg, hid, rfl⟩
    · exact Or.inl ⟨i, f, hdest, rfl⟩
    · cases hf.symm.trans (h.fresh hg hid)
      exact Or.inr ⟨j, g, hg, rfl⟩
  · rintro (⟨i, f, hf, hname⟩ | ⟨i, f, hf, rfl⟩)
    · exact ⟨i, f, h.functions hf, hname⟩
    · rcases (h.placed.number_spec hf).2 with hid | ⟨hid, -⟩
      · obtain ⟨g, hg, hname⟩ := h.destination.of_idOf? hid
        exact ⟨_, g, h.functions hg, hname⟩
      · exact ⟨_, _, h.fresh hf hid, rfl⟩

/-- Names stay distinct exactly if new ones are given once. -/
theorem Arrived.distinctNames_iff (h : Arrived dest source p left) :
    left.DistinctNames ↔ dest.DistinctNames ∧ dest.NewNamesDistinct source := by
  rw [h.wellFormed.distinctNames_iff, h.destination.distinctNames_iff]
  constructor
  · refine fun hleft => ⟨fun i j f g hf hg he => ?_, fun i j f g hf hg hid he => ?_⟩
    · exact hleft i j f g (h.functions hf) (h.functions hg) he
    · have hsame := hleft _ _ _ _ (h.fresh hf hid) (h.fresh hg (he ▸ hid)) he
      obtain ⟨hi, hcase⟩ := h.placed.number_spec hf
      have hge := (hcase.resolve_left (by simp [hid])).2.1
      exact h.placed.apart i j _ hi (hsame ▸ (h.placed.number_spec hg).1) hge
  · rintro ⟨hdest, hnew⟩ i j f g hf hg he
    rcases h.functionsOnly hf with hf' | ⟨i', f', hf', hid, rfl⟩
    · rcases h.functionsOnly hg with hg' | ⟨j', g', hg', hid', rfl⟩
      · exact hdest i j f g hf' hg' he
      · cases hg.symm.trans (h.fresh hg' hid')
        exact absurd he (idOf?_eq_none_iff.mp hid' i f hf')
    · cases hf.symm.trans (h.fresh hf' hid)
      rcases h.functionsOnly hg with hg' | ⟨j', g', hg', hid', rfl⟩
      · exact absurd he.symm (idOf?_eq_none_iff.mp hid j g hg')
      · cases hg.symm.trans (h.fresh hg' hid')
        rw [hnew i' j' f' g' hf' hg' hid he]

/-- Once names are told apart, every function stands for the symbol of its name. -/
theorem Arrived.bears (h : Arrived dest source p left) (hnew : dest.NewNamesDistinct source) :
    left.Bears source p.number where
  symbol _ _ hf := h.symbol hnew hf
  body _ _ hf hbody := ⟨_, h.body hf hbody⟩

/-- The bodies that are pending belong to symbols with bodies. -/
theorem hasBody_of_pending {id : FunctionId} {f : Function} (h : m.pending.get? id = some f) :
    m.hasBody id = true := by
  simp [hasBody, IdMap.contains, h]

/-- The names with bodies are those of the destination and of the source. -/
theorem Arrived.defines_iff (h : Arrived dest source p left) (hgrown : Grown dest left)
    (hnew : dest.NewNamesDistinct source) :
    left.Defines name ↔ dest.Defines name ∨ name ∈ source.definitions := by
  have hd := h.destination
  rw [mem_definitions_iff]
  constructor
  · rintro ⟨id, hid, hbody⟩
    obtain ⟨f, hf, rfl⟩ := h.wellFormed.of_idOf? hid
    -- The symbol is new, or the destination has it under the same number.
    have hold : ∀ g, dest.function? id = some g → dest.idOf? f.name = some id := by
      intro g hg
      obtain rfl := Option.some.inj ((h.functions hg).symm.trans hf)
      cases hid' : dest.idOf? g.name with
      | none => exact absurd rfl (idOf?_eq_none_iff.mp hid' id g hg)
      | some id' => rw [Option.some.inj ((hgrown.idOf?_eq hd hid').symm.trans hid)]
    rw [hasBody, Bool.or_eq_true] at hbody
    rcases hbody with hpending | hstored
    · obtain ⟨body, hb⟩ := IdMap.contains_iff.mp hpending
      rcases h.pendingOnly hb with hdest | ⟨i, g, hg, hgbody, rfl⟩
      · obtain ⟨declared, hdeclared, -⟩ := hd.declared hdest
        exact Or.inl ⟨id, hold declared hdeclared, hasBody_of_pending hdest⟩
      · exact Or.inr ⟨i, g, hg, hgbody, h.wellFormed.idOf?_inj (h.symbol hnew hg) hid⟩
    · rcases h.functionsOnly hf with hdest | ⟨i, g, hg, hgid, rfl⟩
      · rw [hf] at hstored
        exact Or.inl ⟨id, hold f hdest, by simp [hasBody, hdest, hstored]⟩
      · rw [h.fresh hg hgid] at hstored
        cases hstored
  · rintro (⟨id, hid, hbody⟩ | ⟨i, f, hf, hbody, rfl⟩)
    · exact ⟨id, hgrown.idOf?_eq hd hid, hgrown.hasBody hbody⟩
    · exact ⟨_, h.symbol hnew hf, hasBody_of_pending (h.body hf hbody)⟩

/-- What stands in a module stays when more is added. -/
theorem Bears.grown (h : left.Bears source r) (hleft : left.WellFormed) (hgrown : Grown left m) :
    m.Bears source r where
  symbol i f hf := hgrown.idOf?_eq hleft (h.symbol i f hf)
  body i f hf hbody := by
    obtain ⟨declared, hb⟩ := h.body i f hf hbody
    exact ⟨declared, (hgrown.pending (r i) (hasBody_of_pending hb)).trans hb⟩

/-- A source redefines a symbol if it has a body for a name that is defined. -/
theorem redefines_iff : dest.Redefines source ↔ ∃ name ∈ source.definitions, dest.Defines name := by
  simp only [Redefines, Clashes, Defines, mem_definitions_iff]
  constructor
  · rintro ⟨i, f, hf, hbody, hdefined⟩
    exact ⟨f.name, ⟨i, f, hf, hbody, rfl⟩, hdefined⟩
  · rintro ⟨_, ⟨i, f, hf, hbody, rfl⟩, hdefined⟩
    exact ⟨i, f, hf, hbody, hdefined⟩

/-- Linking fails with a duplicate definition exactly if a symbol is redefined. -/
theorem linkInto_duplicate_iff :
    (∃ name existing incoming left,
      dest.linkInto source = (.error (.duplicateDefinition name existing incoming), left)) ↔
      dest.Redefines source := by
  unfold linkInto
  rcases dest.placement_cases source with ⟨hclash, name, herror⟩ | ⟨hclean, p, hok⟩
  · simp [herror, hclash]
  · rw [hok]
    simp only [hclean, iff_false]
    rintro ⟨name, existing, incoming, left, h⟩
    unfold renumbered at h
    split at h
    next e herror =>
      split at herror
      · cases herror
        cases h
      · cases herror
    next => cases h

end Link

section Run

variable {dest source left m : Module} {sources rest : List Module} {p : Placement}
  {stats : LinkStats} {known defined : List String}

/-- Linking a list is linking its modules one after the other. -/
theorem linkAll_eq (name : String) (sources : List Module) :
    linkAll name sources = (new name).linkEach sources := by
  have heach : ∀ dest : Module,
      sources.foldlM (fun dest source => (dest.link source).map (·.1)) dest =
        dest.linkEach sources := by
    induction sources with
    | nil => exact fun dest => rfl
    | cons source rest ih =>
      intro dest
      rw [List.foldlM_cons, linkEach, link_eq]
      rcases dest.linkInto source with ⟨e | stats, left⟩
      · rfl
      · exact ih left
  exact heach (new name)

/-- If a list is linked, so is its first module. -/
theorem linkEach_cons_ok (h : dest.linkEach (source :: rest) = .ok m) :
    ∃ stats left, dest.linkInto source = (.ok stats, left) ∧ left.linkEach rest = .ok m := by
  rw [linkEach] at h
  rcases hlink : dest.linkInto source with ⟨e | stats, left⟩
  · rw [hlink] at h
    cases h
  · rw [hlink] at h
    exact ⟨stats, left, rfl, h⟩

/-- If numbers do not run out, neither do they at the first link nor behind it. -/
theorem numbersFit_cons (hfit : NumbersFit ((source :: rest).map .link) dest)
    (h : dest.linkInto source = (.ok stats, left)) :
    dest.nextFunction.toNat + dest.newSymbols source < 2 ^ 32 ∧
      NumbersFit (rest.map .link) left := by
  simpa only [List.map_cons, NumbersFit, Action.taken, Action.run, h] using hfit

/-- Linking a list adds to the destination. -/
theorem grown_linkEach (hd : dest.WellFormed) (hfit : NumbersFit (sources.map .link) dest)
    (h : dest.linkEach sources = .ok m) : Grown dest m := by
  induction sources generalizing dest with
  | nil =>
    cases h
    exact .refl _
  | cons source rest ih =>
    obtain ⟨stats, left, hlink, hrest⟩ := linkEach_cons_ok h
    obtain ⟨hroom, hfit⟩ := numbersFit_cons hfit hlink
    have hgrown := (grown_linkInto hd hroom hlink).1
    exact hgrown.trans hd (ih (hgrown.wellFormed hd) hfit hrest)

/-- A module has the symbols `known`, and those of them that are in `defined` have bodies. -/
structure Catalogued (known defined : List String) (m : Module) : Prop where
  /-- The numbers in the module are consistent. -/
  wellFormed : m.WellFormed
  /-- Names are distinct. -/
  distinct : m.DistinctNames
  /-- The symbols are known. -/
  symbols : ∀ name, m.hasSymbol name = true ↔ name ∈ known
  /-- Those with bodies are defined. -/
  bodies : ∀ name, m.Defines name ↔ name ∈ defined
  /-- No name is defined twice. -/
  once : defined.Nodup

theorem Catalogued.new (name : String) : Catalogued [] [] (new name) where
  wellFormed := by constructor <;> intro id f h <;> cases h
  distinct i j f g h := by cases h
  symbols n := by simp [hasSymbol, idOf?, Module.new, IdMap.values, IdMap.empty]
  bodies n := by simp [Defines, idOf?, Module.new, IdMap.values, IdMap.empty]
  once := List.nodup_nil

/-- A source whose names are apart adds its names and its definitions. -/
theorem Catalogued.link (h : Catalogued known defined dest) (hapart : source.NamesApart known)
    (hroom : dest.nextFunction.toNat + dest.newSymbols source < 2 ^ 32)
    (hlink : dest.linkInto source = (.ok stats, left)) :
    Catalogued (known ++ source.names) (defined ++ source.definitions) left ∧
      ∃ r, left.Bears source r := by
  have hd := h.wellFormed
  have hgrown := (grown_linkInto hd hroom hlink).1
  have hnew := (nodup_fresh_iff h.symbols).mp hapart.fresh
  obtain ⟨p, harrived⟩ :=
    arrived_of_linkInto hd (nodup_definitions_iff.mp hapart.bodies) hroom hlink
  refine ⟨⟨harrived.wellFormed, harrived.distinctNames_iff.mpr ⟨h.distinct, hnew⟩, fun name => ?_,
    fun name => ?_, List.nodup_append.mpr ⟨h.once, hapart.bodies, ?_⟩⟩, _, harrived.bears hnew⟩
  · rw [harrived.hasSymbol_iff, h.symbols, List.mem_append]
  · rw [harrived.defines_iff hgrown hnew, h.bodies, List.mem_append]
  · rintro name hdefined _ hmem rfl
    exact harrived.clean (redefines_iff.mpr ⟨name, hmem, (h.bodies name).mpr hdefined⟩)

/-- When a list was linked, names and bodies are found once each exactly if they were apart. -/
theorem Catalogued.linkEach_iff (h : Catalogued known defined dest)
    (hfit : NumbersFit (sources.map .link) dest) (hok : dest.linkEach sources = .ok m) :
    m.DistinctNames ∧ (defined ++ sources.flatMap definitions).Nodup ↔ AllApart known sources := by
  induction sources generalizing dest known defined with
  | nil =>
    cases hok
    simp [AllApart, h.distinct, h.once]
  | cons source rest ih =>
    obtain ⟨stats, left, hlink, hrest⟩ := linkEach_cons_ok hok
    obtain ⟨hroom, hfit⟩ := numbersFit_cons hfit hlink
    have hgrown := (grown_linkInto h.wellFormed hroom hlink).1
    have hlater : source.NamesApart known →
        (m.DistinctNames ∧ (defined ++ (source :: rest).flatMap definitions).Nodup ↔
          AllApart (known ++ source.names) rest) := by
      intro hapart
      rw [List.flatMap_cons, ← List.append_assoc]
      exact ih (h.link hapart hroom hlink).1 hfit hrest
    rw [AllApart]
    refine ⟨fun hm => ?_, fun ⟨hapart, hrest⟩ => (hlater hapart).mpr hrest⟩
    have hbodies : source.definitions.Nodup := by
      have hall := (List.nodup_append.mp hm.2).2.1
      rw [List.flatMap_cons] at hall
      exact (List.nodup_append.mp hall).1
    obtain ⟨p, harrived⟩ :=
      arrived_of_linkInto h.wellFormed (nodup_definitions_iff.mp hbodies) hroom hlink
    have hleft : left.DistinctNames := by
      have hadded := grown_linkEach harrived.wellFormed hfit hrest
      have hnames := (hadded.wellFormed harrived.wellFormed).distinctNames_iff.mp hm.1
      refine harrived.wellFormed.distinctNames_iff.mpr (fun i j f g hf hg => ?_)
      exact hnames i j f g (hadded.functions i f hf) (hadded.functions j g hg)
    have hapart : source.NamesApart known :=
      ⟨hbodies, (nodup_fresh_iff h.symbols).mpr (harrived.distinctNames_iff.mp hleft).2⟩
    exact ⟨hapart, (hlater hapart).mp hm⟩

/-- When a list of modules with names apart was linked, every function of each is there. -/
theorem Catalogued.bears_linkEach (h : Catalogued known defined dest)
    (hapart : AllApart known sources) (hfit : NumbersFit (sources.map .link) dest)
    (hok : dest.linkEach sources = .ok m) : ∀ s ∈ sources, ∃ r, m.Bears s r := by
  induction sources generalizing dest known defined with
  | nil => simp
  | cons source rest ih =>
    obtain ⟨stats, left, hlink, hrest⟩ := linkEach_cons_ok hok
    obtain ⟨hroom, hfit⟩ := numbersFit_cons hfit hlink
    obtain ⟨hsource, hlater⟩ := hapart
    obtain ⟨hleft, r, hbears⟩ := h.link hsource hroom hlink
    have hadded := grown_linkEach hleft.wellFormed hfit hrest
    refine List.forall_mem_cons.mpr ⟨⟨r, hbears.grown hleft.wellFormed hadded⟩, ?_⟩
    exact ih hleft hlater hfit hrest

/-- Bodies of one name meet where a source is linked behind others. -/
def Meets (dest : Module) (defined : List String) (before : List Module) (source : Module) :
    Prop :=
  ∃ d name, dest.linkEach before = .ok d ∧ name ∈ source.definitions ∧
    name ∈ defined ++ before.flatMap definitions

/-- Linking a list of modules with names apart fails with a duplicate definition exactly if it comes
to a module with a body whose name has a body before it. -/
theorem Catalogued.duplicate_iff (h : Catalogued known defined dest)
    (hapart : AllApart known sources) (hfit : NumbersFit (sources.map .link) dest) :
    (∃ name existing incoming,
      dest.linkEach sources = .error (.duplicateDefinition name existing incoming)) ↔
    ∃ before source after, sources = before ++ source :: after ∧
      dest.Meets defined before source := by
  induction sources generalizing dest known defined with
  | nil => simp [linkEach]
  | cons source rest ih =>
    have hhere : dest.Meets defined [] source ↔ dest.Redefines source := by
      simp [Meets, linkEach, redefines_iff, h.bodies]
    rw [exists_split_cons, hhere, ← linkInto_duplicate_iff]
    rcases hlink : dest.linkInto source with ⟨e | stats, left⟩
    · have hlater : ∀ before source', ¬ dest.Meets defined (source :: before) source' := by
        rintro before source' ⟨d, name, hok, -⟩
        simp only [linkEach, hlink] at hok
        cases hok
      simp [linkEach, hlink, hlater]
    · obtain ⟨hroom, hfit⟩ := numbersFit_cons hfit hlink
      obtain ⟨hsource, hrest⟩ := hapart
      have hlater : ∀ before source', dest.Meets defined (source :: before) source' ↔
          left.Meets (defined ++ source.definitions) before source' := by
        intro before source'
        simp only [Meets, linkEach, hlink, List.flatMap_cons, List.append_assoc]
      simp only [hlater, ← ih (h.link hsource hroom hlink).1 hrest hfit]
      simp [linkEach, hlink]

end Run

/-- When a list of modules was linked, no two symbols have one name and no two bodies had one
exactly if the modules kept names apart, and then every function is there. Linking such modules
fails with a duplicate definition exactly if bodies of one name meet. -/
theorem linkAll_names {name : String} {sources : List Module}
    (hfit : NumbersFit (sources.map .link) (.new name)) :
    (∀ m, linkAll name sources = .ok m →
      (m.DistinctNames ∧ (sources.flatMap definitions).Nodup ↔ AllApart [] sources) ∧
      (AllApart [] sources → ∀ source ∈ sources, ∃ r, m.Bears source r)) ∧
    (AllApart [] sources →
      ((∃ n existing incoming,
        linkAll name sources = .error (.duplicateDefinition n existing incoming)) ↔
      ∃ before source after, sources = before ++ source :: after ∧
        ∃ d n, linkAll name before = .ok d ∧ n ∈ source.definitions ∧
          n ∈ before.flatMap definitions)) := by
  have hnew := Catalogued.new name
  simp only [linkAll_eq]
  refine ⟨fun m hok => ⟨?_, fun hapart => hnew.bears_linkEach hapart hfit hok⟩, fun hapart => ?_⟩
  · simpa only [List.nil_append] using hnew.linkEach_iff hfit hok
  · simpa only [Meets, List.nil_append] using hnew.duplicate_iff hapart hfit

/-- A module with a fused kernel is linked behind one that declares a stage of it. -/
theorem linkAll_names_host :
    NumbersFit ([Samples.host, Samples.fused].map .link) (.new "m") ∧
      ∃ m, linkAll "m" [Samples.host, Samples.fused] = .ok m ∧ m.DistinctNames ∧
        ∀ source ∈ [Samples.host, Samples.fused], ∃ r, m.Bears source r := by
  have hfit : NumbersFit ([Samples.host, Samples.fused].map .link) (.new "m") :=
    ⟨by decide, by decide, trivial⟩
  have hapart : AllApart [] [Samples.host, Samples.fused] := ⟨by decide, by decide, trivial⟩
  obtain ⟨m, hok⟩ : ∃ m, linkAll "m" [Samples.host, Samples.fused] = .ok m := ⟨_, rfl⟩
  obtain ⟨hnames, hbears⟩ := (linkAll_names hfit).1 m hok
  exact ⟨hfit, m, hok, (hnames.mpr hapart).1, hbears hapart⟩

/-- A module that declares a function. -/
def declarer : Module :=
  ((Builder.new (Module.new "d")).declare "f" (.ofParams [] .void .c) .ext).1.module

/-- A module that defines it twice, without instructions and with one. -/
def repeater : Module :=
  let b := Samples.define (Builder.new (Module.new "s")) "f" [] .void .c Samples.nothing
  (Samples.define b "f" [] .void .c (fun b => ((b.const (.i32 1)).1, none))).module

/-- Two bodies of one name in one source are linked: they become two symbols, or the one without
instructions is lost. -/
theorem repeated_definition_linked :
    (∃ m, linkAll "m" [repeater] = .ok m ∧ ¬ m.DistinctNames) ∧
    repeater.definitions = ["f", "f"] ∧
    (∃ m, linkAll "m" [declarer, repeater] = .ok m ∧
      m.force.functions.values.map (·.graph.instructions) = [[.const 0 (.i32 1)]]) :=
  ⟨⟨_, rfl, by decide⟩, rfl, ⟨_, rfl, rfl⟩⟩

end KernelFusion.Module

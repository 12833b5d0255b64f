import KernelFusion.Proofs.Linking

/-!
# What a link adds to its destination

A source may have several functions of one name. Whatever it holds, what it brings in are bodies for
symbols of the destination that have none, and functions with new names under numbers from the next
one on. So a link adds to the destination and takes nothing away: its functions and the bodies of
its symbols stay, its names stand for the same numbers, and its tables are untouched.
-/

namespace KernelFusion

namespace Module

/-- A function can be brought in under a number: a body for a symbol without one, or a function with
a new name under a number that was given away. -/
def Receives (dest : Module) (next : FunctionId) (e : FunctionId × Function) : Prop :=
  (dest.idOf? e.2.name = some e.1 ∧ e.2.isDeclaration = false ∧ dest.hasBody e.1 = false) ∨
    (dest.idOf? e.2.name = none ∧ dest.nextFunction ≤ e.1 ∧ e.1 < next)

variable {dest source : Module} {p : Placement}

/-- What a placement brings in can be brought in. -/
theorem Placed.receives (h : Placed dest source.force.functions.entries p)
    (hclean : ¬ dest.Redefines source) :
    ∀ f ∈ arrivals p, dest.Receives p.nextId (f.id, f) := by
  intro g hg
  obtain ⟨i, f, hf, hbring, rfl⟩ := h.mem_arrivals.mp hg
  unfold Receives
  rw [Function.isDeclaration_relocate]
  refine (h.number_spec hf).2.imp_left (fun hid => ?_)
  have hbody : f.isDeclaration = false := by simpa [brings, hid] using hbring
  exact ⟨hid, hbody, hasBody_of_clean hclean hf hbody hid⟩

/-- Only bodies for symbols of the destination can share a number. -/
theorem Placed.shared_arrivals (h : Placed dest source.force.functions.entries p)
    (hd : dest.WellFormed) :
    (arrivals p).Pairwise (fun f g => f.id = g.id → f.id < dest.nextFunction) := by
  have hids : ((arrivals p).map (·.id)).Pairwise (fun i j => i = j → i < dest.nextFunction) := by
    rw [h.arrivals_ids]
    refine List.pairwise_map.mpr ?_
    refine (source.force.functions.ascending.filter _).imp_of_mem (fun {a b} ha hb hlt he => ?_)
    have hfa := mem_entries_force.mp (List.mem_filter.mp ha).1
    have hfb := mem_entries_force.mp (List.mem_filter.mp hb).1
    exact hd.idOf?_lt (h.shared hfa hfb (UInt32.ne_of_lt hlt) he).1
  exact List.pairwise_map.mp hids

/-- Renumbering that succeeds renumbers all that is brought in. -/
theorem renumbered_eq_ok {fs : List Function} (h : source.renumbered p = .ok fs) :
    fs = arrivals p := by
  unfold renumbered at h
  split at h
  · cases h
  · exact (Except.ok.inj h).symm

/-- A link that succeeds has placed all functions and stored those that were brought in. -/
theorem linkInto_ok {left : Module} {stats : LinkStats}
    (h : dest.linkInto source = (.ok stats, left)) :
    ∃ p, dest.placement source = .ok p ∧ source.renumbered p = .ok (arrivals p) ∧
      left = ((dest.reserve p).registerAll (arrivals p)).1 := by
  unfold linkInto at h
  cases hp : dest.placement source with
  | error e =>
    rw [hp] at h
    cases h
  | ok p =>
    rw [hp] at h
    cases hf : source.renumbered p with
    | error e =>
      simp only [hf] at h
      cases h
    | ok fs =>
      simp only [hf] at h
      obtain rfl := renumbered_eq_ok hf
      cases h
      exact ⟨p, rfl, hf, rfl⟩

/-- A link that fails leaves the destination as it was. -/
theorem linkInto_error {left : Module} {e : LinkError}
    (h : dest.linkInto source = (.error e, left)) : left = dest := by
  unfold linkInto at h
  cases hp : dest.placement source with
  | error e =>
    rw [hp] at h
    cases h
    rfl
  | ok p =>
    rw [hp] at h
    cases hf : source.renumbered p with
    | error e =>
      simp only [hf] at h
      cases h
      rfl
    | ok fs =>
      simp only [hf] at h
      cases h

/-- `m` is `dest` with more functions, which have new names and numbers from the next one on, and
with bodies for symbols that had none. -/
structure Grown (dest m : Module) : Prop where
  /-- The name of the module is kept. -/
  name : m.name = dest.name
  /-- The string tables are kept. -/
  tables : m.tables = dest.tables
  /-- Numbers are taken only. -/
  next : dest.nextFunction ≤ m.nextFunction
  /-- All functions are kept. -/
  functions : ∀ id f, dest.function? id = some f → m.function? id = some f
  /-- Other functions have new names and numbers. -/
  functionsOnly : ∀ id f, m.function? id = some f → dest.function? id = some f ∨
    (f.id = id ∧ dest.idOf? f.name = none ∧ dest.nextFunction ≤ id ∧ id < m.nextFunction)
  /-- Symbols with a body keep it. -/
  pending : ∀ id, dest.hasBody id = true → m.pending.get? id = dest.pending.get? id
  /-- Other pending bodies have blocks and belong to symbols that had none. -/
  pendingOnly : ∀ id f, m.pending.get? id = some f → dest.pending.get? id = some f ∨
    (f.id = id ∧ f.isDeclaration = false ∧ dest.hasBody id = false ∧
      ∃ declared, m.function? id = some declared ∧ declared.isDeclaration = true ∧
        declared.name = f.name)

namespace Grown

variable {dest m : Module} {f : Function} {id : FunctionId} {name : String}

theorem refl (dest : Module) : Grown dest dest where
  name := rfl
  tables := rfl
  next := UInt32.le_rfl
  functions _ _ h := h
  functionsOnly _ _ h := Or.inl h
  pending _ _ := rfl
  pendingOnly _ _ h := Or.inl h

/-- Numbers can be set aside. -/
theorem reserve (dest : Module) (p : Placement) (hle : dest.nextFunction ≤ p.nextId) :
    Grown dest (dest.reserve p) ∧ (dest.reserve p).nextFunction = p.nextId := by
  have hnext : (dest.reserve p).nextFunction = p.nextId := if_pos hle
  exact ⟨{ refl dest with next := hnext ▸ hle, functionsOnly := fun _ _ h => Or.inl h }, hnext⟩

/-- Nothing stands under a number from the next one on, and no body is there. -/
theorem hasBody_of_le (hd : dest.WellFormed) (hle : dest.nextFunction ≤ id) :
    dest.hasBody id = false := by
  have hnone := hd.function?_of_le hle
  simp [hasBody, IdMap.contains, hnone, hd.pending_of_none hnone]

/-- A body for a symbol without one becomes pending. -/
theorem register_known (hd : dest.WellFormed) (h : Grown dest m)
    (hid : dest.idOf? f.name = some f.id) (hbody : f.isDeclaration = false)
    (hfree : dest.hasBody f.id = false) :
    Grown dest (m.register f).1 ∧ (m.register f).1.nextFunction = m.nextFunction := by
  obtain ⟨declared, hdeclared, hname⟩ := hd.of_idOf? hid
  have hm : m.function? f.id = some declared := h.functions _ _ hdeclared
  have hempty : declared.isDeclaration = true := by
    simp only [hasBody, hdeclared, Option.any_some, Bool.or_eq_false_iff, Bool.not_eq_false']
      at hfree
    exact hfree.2
  have hsame : ∀ id, (m.register f).1.function? id = m.function? id := by
    intro id
    rw [function?_register, if_neg]
    rintro ⟨rfl, hnone⟩
    cases hm.symm.trans hnone
  obtain ⟨hframe, htables, hnext⟩ := register_frame m f
  rw [hm, Option.isSome_some, if_pos rfl] at hnext
  refine ⟨⟨hframe.trans h.name, htables.trans h.tables, hnext ▸ h.next, fun id g hg => ?_,
    fun id g hg => ?_, fun id hhas => ?_, fun id g hg => ?_⟩, hnext⟩
  · exact (hsame id).trans (h.functions id g hg)
  · rw [hnext]
    exact h.functionsOnly id g ((hsame id).symm.trans hg)
  · rw [pending_register, if_neg]
    · exact h.pending id hhas
    · rintro ⟨rfl, -⟩
      cases hfree.symm.trans hhas
  · rw [pending_register] at hg
    rw [hsame]
    split at hg
    next hat =>
      obtain ⟨rfl, -⟩ := hat
      rw [hm] at hg
      obtain rfl := Option.some.inj hg
      exact Or.inr ⟨rfl, hbody, hfree, declared, hm, hempty, hname⟩
    next => exact h.pendingOnly id g hg

/-- A function with a new name and number is declared, its body pending. -/
theorem register_new (hd : dest.WellFormed) (h : Grown dest m) (hid : dest.idOf? f.name = none)
    (hge : dest.nextFunction ≤ f.id) (hlt : f.id < m.nextFunction)
    (hfree : m.function? f.id = none) :
    Grown dest (m.register f).1 ∧ (m.register f).1.nextFunction = m.nextFunction := by
  have hnone := hd.function?_of_le hge
  have hempty := hasBody_of_le hd hge
  obtain ⟨hframe, htables, hnext⟩ := register_frame m f
  rw [nextFunction_add hlt, ite_self] at hnext
  refine ⟨⟨hframe.trans h.name, htables.trans h.tables, hnext ▸ h.next, fun id g hg => ?_,
    fun id g hg => ?_, fun id hhas => ?_, fun id g hg => ?_⟩, hnext⟩
  · rw [function?_register, if_neg]
    · exact h.functions id g hg
    · rintro ⟨rfl, -⟩
      cases hnone.symm.trans hg
  · rw [hnext]
    rw [function?_register] at hg
    split at hg
    next hat =>
      obtain ⟨rfl, -⟩ := hat
      obtain rfl := Option.some.inj hg
      exact Or.inr ⟨rfl, hid, hge, hlt⟩
    next => exact h.functionsOnly id g hg
  · rw [pending_register, if_neg]
    · exact h.pending id hhas
    · rintro ⟨rfl, -⟩
      cases hempty.symm.trans hhas
  · rw [pending_register] at hg
    rw [function?_register]
    split at hg
    next hat =>
      obtain ⟨rfl, hbody⟩ := hat
      rw [hfree] at hg
      obtain rfl := Option.some.inj hg
      exact Or.inr ⟨rfl, hbody.resolve_right (fun hstored => hstored hfree), hempty, _,
        if_pos ⟨rfl, hfree⟩, rfl, rfl⟩
    next hat =>
      refine (h.pendingOnly id g hg).imp_right ?_
      rintro ⟨hgid, hgbody, hgfree, declared, hdeclared, hrest⟩
      refine ⟨hgid, hgbody, hgfree, declared, ?_, hrest⟩
      rw [if_neg]
      · exact hdeclared
      · rintro ⟨-, hmissing⟩
        cases hdeclared.symm.trans hmissing

/-- Storing what can be brought in. -/
theorem registerAll (hd : dest.WellFormed) {fs : List Function} (h : Grown dest m)
    (hreceives : ∀ f ∈ fs, dest.Receives m.nextFunction (f.id, f))
    (hshared : fs.Pairwise (fun f g => f.id = g.id → f.id < dest.nextFunction))
    (hfree : ∀ f ∈ fs, dest.nextFunction ≤ f.id → m.function? f.id = none) :
    Grown dest (m.registerAll fs).1 ∧ (m.registerAll fs).1.nextFunction = m.nextFunction := by
  induction fs generalizing m with
  | nil => exact ⟨h, rfl⟩
  | cons f rest ih =>
    obtain ⟨hfirst, hrest⟩ := List.pairwise_cons.mp hshared
    have hstep : Grown dest (m.register f).1 ∧ (m.register f).1.nextFunction = m.nextFunction := by
      rcases hreceives f List.mem_cons_self with ⟨hid, hbody, hno⟩ | ⟨hid, hge, hlt⟩
      · exact h.register_known hd hid hbody hno
      · exact h.register_new hd hid hge hlt (hfree f List.mem_cons_self hge)
    obtain ⟨hgrown, hnext⟩ := hstep
    have hlater := ih hgrown
      (fun g hg => hnext.symm ▸ hreceives g (List.mem_cons_of_mem f hg)) hrest
      (fun g hg hge => by
        rw [function?_register, if_neg]
        · exact hfree g (List.mem_cons_of_mem f hg) hge
        · rintro ⟨he, -⟩
          exact UInt32.not_le.mpr (hfirst g hg he) (he ▸ hge))
    exact ⟨hlater.1, hlater.2.trans hnext⟩

/-- Numbers stay consistent. -/
theorem wellFormed (hd : dest.WellFormed) (h : Grown dest m) : m.WellFormed where
  function_id := by
    intro id f hf
    rcases h.functionsOnly id f hf with hold | ⟨hid, -⟩
    · exact hd.function_id hold
    · exact hid
  pending_id := by
    intro id f hf
    rcases h.pendingOnly id f hf with hold | ⟨hid, -⟩
    · exact hd.pending_id hold
    · exact hid
  id_lt := by
    intro id f hf
    rcases h.functionsOnly id f hf with hold | ⟨-, -, -, hlt⟩
    · exact UInt32.lt_of_lt_of_le (hd.id_lt hold) h.next
    · exact hlt
  declared := by
    intro id f hf
    rcases h.pendingOnly id f hf with hold | ⟨-, -, -, hdeclared⟩
    · obtain ⟨declared, hdeclared, hrest⟩ := hd.declared hold
      exact ⟨declared, h.functions id declared hdeclared, hrest⟩
    · exact hdeclared

/-- A name stands for the same number as before. -/
theorem idOf?_eq (hd : dest.WellFormed) (h : Grown dest m) (hid : dest.idOf? name = some id) :
    m.idOf? name = some id := by
  obtain ⟨⟨f, hf, hname⟩, hleast⟩ := hd.idOf?_eq_some_iff.mp hid
  refine (h.wellFormed hd).idOf?_eq_some_iff.mpr
    ⟨⟨f, h.functions id f hf, hname⟩, fun j g hg hgname => ?_⟩
  rcases h.functionsOnly j g hg with hold | ⟨-, hnew, -⟩
  · exact hleast j g hold hgname
  · rw [hgname] at hnew
    cases hid.symm.trans hnew

/-- A symbol keeps its body. -/
theorem hasBody (h : Grown dest m) (hbody : dest.hasBody id = true) : m.hasBody id = true := by
  have hpending := h.pending id hbody
  unfold Module.hasBody at hbody ⊢
  rw [Bool.or_eq_true] at hbody ⊢
  refine hbody.imp (fun hp => ?_) (fun hf => ?_)
  · rw [IdMap.contains, hpending]
    exact hp
  · obtain ⟨f, hf, hbody⟩ := (Option.any_eq_true ..).mp hf
    rw [h.functions id f hf]
    exact hbody

/-- What is added to what was added is added to the whole. -/
theorem trans {last : Module} (hd : dest.WellFormed) (h : Grown dest m) (h' : Grown m last) :
    Grown dest last where
  name := h'.name.trans h.name
  tables := h'.tables.trans h.tables
  next := UInt32.le_trans h.next h'.next
  functions id f hf := h'.functions id f (h.functions id f hf)
  functionsOnly id f hf := by
    rcases h'.functionsOnly id f hf with hmid | ⟨hid, hnew, hge, hlt⟩
    · refine (h.functionsOnly id f hmid).imp_right ?_
      rintro ⟨hid, hnew, hge, hlt⟩
      exact ⟨hid, hnew, hge, UInt32.lt_of_lt_of_le hlt h'.next⟩
    · refine Or.inr ⟨hid, ?_, UInt32.le_trans h.next hge, hlt⟩
      cases hold : dest.idOf? f.name with
      | none => rfl
      | some old => cases (h.idOf?_eq hd hold).symm.trans hnew
  pending id hbody := (h'.pending id (h.hasBody hbody)).trans (h.pending id hbody)
  pendingOnly id f hf := by
    rcases h'.pendingOnly id f hf with hmid | ⟨hid, hbody, hfree, hdeclared⟩
    · refine (h.pendingOnly id f hmid).imp_right ?_
      rintro ⟨hid, hbody, hfree, declared, hdeclared, hrest⟩
      exact ⟨hid, hbody, hfree, declared, h'.functions id declared hdeclared, hrest⟩
    · refine Or.inr ⟨hid, hbody, ?_, hdeclared⟩
      cases hold : dest.hasBody id with
      | false => rfl
      | true => cases (h.hasBody hold).symm.trans hfree

end Grown

/-- A link that succeeds adds to the destination and takes a number for each new name. -/
theorem grown_linkInto {left : Module} {stats : LinkStats} (hd : dest.WellFormed)
    (hroom : dest.nextFunction.toNat + dest.newSymbols source < 2 ^ 32)
    (h : dest.linkInto source = (.ok stats, left)) :
    Grown dest left ∧
      left.nextFunction.toNat = dest.nextFunction.toNat + dest.newSymbols source := by
  obtain ⟨p, hplace, -, rfl⟩ := linkInto_ok h
  obtain ⟨hclean, hplaced⟩ := placed_of_ok hd hroom hplace
  obtain ⟨hgrown, hnext⟩ := Grown.reserve dest p hplaced.le_nextId
  have hreceives := hplaced.receives hclean
  rw [← hnext] at hreceives
  obtain ⟨hlinked, hlast⟩ := hgrown.registerAll hd hreceives (hplaced.shared_arrivals hd)
    (fun f _ hge => hd.function?_of_le hge)
  exact ⟨hlinked, by rw [hlast, hnext, hplaced.next, newSymbols]⟩

end Module

end KernelFusion

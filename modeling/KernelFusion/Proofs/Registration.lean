import KernelFusion.Proofs.Store

/-!
# Storing what a link brings in

Functions that are brought in stand under different numbers below the next one. A body for a symbol
that is already stored becomes pending there and takes over the linkage of the declaration; any
other function is stored as a declaration with its body pending. Everything else stays as it is.
-/

namespace KernelFusion

/-- The function with the linkage of a declaration, if there is one. -/
def Function.underDeclaration (f : Function) : Option Function → Function
  | some declared =>
    { f with attributes := { f.attributes with linkage := declared.attributes.linkage } }
  | none => f

namespace Module

/-- The functions `fs` were stored in `m`, which gave `m'`. -/
structure Registered (m : Module) (fs : List Function) (m' : Module) : Prop where
  /-- The name of the module is kept. -/
  name : m'.name = m.name
  /-- The string tables are kept. -/
  tables : m'.tables = m.tables
  /-- No number is taken. -/
  next : m'.nextFunction = m.nextFunction
  /-- Functions that were stored stay, and other numbers stay free. -/
  kept : ∀ id, (∀ f ∈ fs, f.id = id → (m.function? id).isSome = true) →
    m'.function? id = m.function? id
  /-- New functions are declared. -/
  declared : ∀ f ∈ fs, m.function? f.id = none → m'.function? f.id = some f.toDeclaration
  /-- Other pending bodies stay. -/
  pending : ∀ id, (∀ f ∈ fs, f.id = id → f.isDeclaration = true) →
    m'.pending.get? id = m.pending.get? id
  /-- Bodies that were brought in are pending. -/
  body : ∀ f ∈ fs, f.isDeclaration = false →
    m'.pending.get? f.id = some (f.underDeclaration (m.function? f.id))

/-- Functions can be stored: those that are stored already have bodies, and all numbers are in
range. -/
def Storable (m : Module) (fs : List Function) : Prop :=
  ∀ f ∈ fs, (f.isDeclaration = true → m.function? f.id = none) ∧ f.id < m.nextFunction

variable {m : Module} {f : Function}

/-- Adding a function in range takes no number. -/
theorem nextFunction_add (h : f.id < m.nextFunction) : (m.add f).nextFunction = m.nextFunction := by
  have hlt := UInt32.lt_iff_toNat_lt.mp h
  have hbound := m.nextFunction.toNat_lt
  have hle : f.id + 1 ≤ m.nextFunction := by
    rw [UInt32.le_iff_toNat_le, UInt32.toNat_add, UInt32.toNat_one, Nat.mod_eq_of_lt (by omega)]
    exact hlt
  show (if m.nextFunction ≤ f.id + 1 then f.id + 1 else m.nextFunction) = m.nextFunction
  split
  next hge => exact UInt32.le_antisymm hle hge
  next => rfl

/-- Adding a function with its body pending stores the declaration under its number. -/
theorem function?_addLazy (m : Module) (f : Function) (id : FunctionId) :
    (m.addLazy f).function? id = if f.id = id then some f.toDeclaration else m.function? id := by
  unfold addLazy
  dsimp only
  split <;> exact IdMap.get?_insert _ _ _ _

/-- Adding a function with its body pending changes no pending body but its own. -/
theorem pending_addLazy (m : Module) (f : Function) (id : FunctionId) :
    (m.addLazy f).pending.get? id =
      if f.id = id ∧ f.isDeclaration = false then some f else m.pending.get? id := by
  unfold addLazy
  dsimp only
  cases hbody : f.isDeclaration with
  | true => simp [add]
  | false => simp [add, IdMap.get?_insert]

theorem addLazy_frame (m : Module) (f : Function) :
    (m.addLazy f).name = m.name ∧ (m.addLazy f).tables = m.tables ∧
      (m.addLazy f).nextFunction = (m.add f).nextFunction := by
  unfold addLazy
  dsimp only
  split <;> exact ⟨rfl, rfl, rfl⟩

section Register

variable (m : Module) (f : Function) (id : FunctionId)

/-- A function that is brought in is declared if nothing stands under its number. -/
theorem function?_register :
    (m.register f).1.function? id =
      if f.id = id ∧ m.function? id = none then some f.toDeclaration else m.function? id := by
  unfold register
  cases hd : m.function? f.id with
  | some declared =>
    rw [if_neg]
    · rfl
    · rintro ⟨rfl, hnone⟩
      cases hd.symm.trans hnone
  | none =>
    refine (function?_addLazy m f id).trans ?_
    by_cases he : f.id = id
    · rw [if_pos he, if_pos ⟨he, he ▸ hd⟩]
    · rw [if_neg he, if_neg (fun h => he h.1)]

/-- It becomes pending if it has a body or something stands under its number. -/
theorem pending_register :
    (m.register f).1.pending.get? id =
      if f.id = id ∧ (f.isDeclaration = false ∨ m.function? id ≠ none) then
        some (f.underDeclaration (m.function? id))
      else m.pending.get? id := by
  unfold register
  cases hd : m.function? f.id with
  | some declared =>
    refine (IdMap.get?_insert _ _ _ _).trans ?_
    by_cases he : f.id = id
    · obtain rfl := he
      rw [if_pos rfl, if_pos ⟨rfl, Or.inr (by simp [hd])⟩, hd]
      rfl
    · rw [if_neg he, if_neg (fun h => he h.1)]
  | none =>
    refine (pending_addLazy m f id).trans ?_
    by_cases he : f.id = id
    · obtain rfl := he
      simp [hd, Function.underDeclaration]
    · rw [if_neg (fun h => he h.1), if_neg (fun h => he h.1)]

/-- Name and tables are kept, and a number is taken only by a new function. -/
theorem register_frame :
    (m.register f).1.name = m.name ∧ (m.register f).1.tables = m.tables ∧
      (m.register f).1.nextFunction =
        if (m.function? f.id).isSome then m.nextFunction else (m.add f).nextFunction := by
  unfold register
  cases m.function? f.id with
  | some declared => exact ⟨rfl, rfl, rfl⟩
  | none => exact addLazy_frame m f

end Register

/-- Storing one function. -/
theorem registered_register (hf : m.Storable [f]) :
    Registered m [f] (m.register f).1 ∧ (m.register f).2 = (m.function? f.id).isNone := by
  obtain ⟨hdeclaration, hlt⟩ := hf f List.mem_cons_self
  obtain ⟨hname, htables, hnext⟩ := register_frame m f
  refine ⟨⟨hname, htables, ?_, fun id hid => ?_, fun g hg hnew => ?_, fun id hid => ?_,
    fun g hg hbody => ?_⟩, ?_⟩
  · rw [hnext, nextFunction_add hlt, ite_self]
  · rw [function?_register, if_neg]
    rintro ⟨he, hnone⟩
    have hsome := hid f List.mem_cons_self he
    rw [hnone] at hsome
    cases hsome
  · cases List.mem_singleton.mp hg
    rw [function?_register, if_pos ⟨rfl, hnew⟩]
  · rw [pending_register, if_neg]
    rintro ⟨he, hbody⟩
    have hempty := hid f List.mem_cons_self he
    rcases hbody with hbody | hknown
    · cases hempty.symm.trans hbody
    · exact hknown (he ▸ hdeclaration hempty)
  · cases List.mem_singleton.mp hg
    rw [pending_register, if_pos ⟨rfl, Or.inl hbody⟩]
  · unfold register
    cases m.function? f.id <;> rfl

/-- Storing a function and then others under different numbers. -/
theorem Registered.cons {m' m'' : Module} {fs : List Function} (h : Registered m [f] m')
    (h' : Registered m' fs m'') (hdistinct : ∀ g ∈ fs, g.id ≠ f.id) :
    Registered m (f :: fs) m'' := by
  have hkept : ∀ g ∈ fs, m'.function? g.id = m.function? g.id := by
    intro g hg
    refine h.kept g.id (fun f' hf' he => ?_)
    cases List.mem_singleton.mp hf'
    exact absurd he.symm (hdistinct g hg)
  refine ⟨h'.name.trans h.name, h'.tables.trans h.tables, h'.next.trans h.next, fun id hid => ?_,
    fun g hg hnew => ?_, fun id hid => ?_, fun g hg hbody => ?_⟩
  · have hfirst := h.kept id (fun g hg he => hid g (by simp [List.mem_singleton.mp hg]) he)
    rw [h'.kept id, hfirst]
    intro g hg he
    rw [hfirst]
    exact hid g (List.mem_cons_of_mem f hg) he
  · rcases List.mem_cons.mp hg with rfl | hg
    · have hdeclared := h.declared g List.mem_cons_self hnew
      rw [h'.kept g.id, hdeclared]
      intro g' hg' he
      exact absurd he (hdistinct g' hg')
    · exact h'.declared g hg ((hkept g hg).trans hnew)
  · rw [h'.pending id (fun g hg he => hid g (List.mem_cons_of_mem f hg) he)]
    exact h.pending id (fun g hg he => hid g (by simp [List.mem_singleton.mp hg]) he)
  · rcases List.mem_cons.mp hg with rfl | hg
    · rw [h'.pending g.id (fun g' hg' he => absurd he (hdistinct g' hg'))]
      exact h.body g List.mem_cons_self hbody
    · rw [h'.body g hg hbody, hkept g hg]

theorem Registered.nil (m : Module) : Registered m [] m where
  name := rfl
  tables := rfl
  next := rfl
  kept _ _ := rfl
  declared f hf := by cases hf
  pending _ _ := rfl
  body f hf := by cases hf

/-- Storing functions under different numbers. -/
theorem registered_registerAll {fs : List Function} (hfs : m.Storable fs)
    (hdistinct : (fs.map (·.id)).Nodup) :
    Registered m fs (m.registerAll fs).1 ∧
      (m.registerAll fs).2 = fs.countP (fun f => (m.function? f.id).isNone) := by
  induction fs generalizing m with
  | nil => exact ⟨.nil m, rfl⟩
  | cons f rest ih =>
    obtain ⟨hf, hrest⟩ := List.nodup_cons.mp hdistinct
    have hother : ∀ g ∈ rest, g.id ≠ f.id := by
      intro g hg he
      exact hf (List.mem_map.mpr ⟨g, hg, he⟩)
    obtain ⟨hfirst, hflag⟩ := registered_register (m := m) (f := f)
      (fun g hg => hfs g (by simp [List.mem_singleton.mp hg]))
    have hkept : ∀ g ∈ rest, (m.register f).1.function? g.id = m.function? g.id := by
      intro g hg
      refine hfirst.kept g.id (fun f' hf' he => ?_)
      cases List.mem_singleton.mp hf'
      exact absurd he.symm (hother g hg)
    obtain ⟨hlater, hcount⟩ := ih (m := (m.register f).1) (fun g hg => by
      rw [hkept g hg, hfirst.next]
      exact hfs g (List.mem_cons_of_mem f hg)) hrest
    refine ⟨hfirst.cons hlater hother, ?_⟩
    have hsame : rest.countP (fun g => ((m.register f).1.function? g.id).isNone) =
        rest.countP (fun g => (m.function? g.id).isNone) :=
      List.countP_congr (fun g hg => by rw [hkept g hg])
    rw [registerAll, List.countP_cons, ← hsame, ← hcount]
    simp only [hflag]
    cases (m.function? f.id).isNone <;> rfl

end Module

end KernelFusion

import KernelFusion.Proofs.Assembly

/-!
# The store invariant

Functions and pending bodies stand under their own numbers, below the next one, and every pending
body has blocks and belongs to a declaration of its name. That is so in a new module, and every
operation of the store keeps it as long as numbers do not run out, so a number that is taken never
comes to a function that is there. A link establishes it from sources in which nothing of it holds.
-/

namespace KernelFusion

namespace Module

/-- The store invariant: the module is well formed, and pending bodies have blocks. -/
structure Sound (m : Module) : Prop extends WellFormed m where
  /-- A pending body is a body. -/
  real : ∀ {id : FunctionId} {body : Function}, m.pending.get? id = some body →
    body.isDeclaration = false

/-- Nothing stands under a number, neither a function nor a pending body. -/
def Free (m : Module) (id : FunctionId) : Prop :=
  m.function? id = none ∧ m.pending.get? id = none

section Store

variable {m left : Module} {f : Function} {id : FunctionId}

/-- All numbers from the next one on are free. -/
theorem WellFormed.free_of_le (h : m.WellFormed) (hle : m.nextFunction ≤ id) : m.Free id :=
  ⟨h.function?_of_le hle, h.pending_of_none (h.function?_of_le hle)⟩

namespace Sound

theorem new (name : String) : (new name).Sound where
  toWellFormed := (Catalogued.new name).wellFormed
  real h := by cases h

/-- Numbers may be taken and tables may change. -/
theorem of_frame (h : m.Sound) (hfunctions : left.functions = m.functions)
    (hpending : left.pending = m.pending) (hnext : m.nextFunction ≤ left.nextFunction) :
    left.Sound := by
  have hf : ∀ id, left.function? id = m.function? id := by
    intro id
    rw [function?, hfunctions, function?]
  refine ⟨⟨fun hs => h.function_id ((hf _).symm.trans hs), fun hb => h.pending_id (hpending ▸ hb),
    fun hs => ?_, fun hb => ?_⟩, fun hb => h.real (hpending ▸ hb)⟩
  · exact UInt32.lt_of_lt_of_le (h.id_lt ((hf _).symm.trans hs)) hnext
  · obtain ⟨declared, hdeclared, hrest⟩ := h.declared (hpending ▸ hb)
    exact ⟨declared, (hf _).trans hdeclared, hrest⟩

theorem allocFunction (h : m.Sound) (hroom : m.nextFunction.toNat + 1 < 2 ^ 32) :
    m.allocFunction.1.Sound :=
  h.of_frame rfl rfl (UInt32.le_of_lt (WellFormed.next_lt hroom))

theorem appendRecord (h : m.Sound) (table record : String) : (m.appendRecord table record).Sound :=
  h.of_frame rfl rfl UInt32.le_rfl

/-- A function is stored under a number that was taken and is free. -/
theorem add (h : m.Sound) (hlt : f.id < m.nextFunction) (hfree : m.function? f.id = none) :
    (m.add f).Sound := by
  have hf : ∀ id, (m.add f).function? id = if f.id = id then some f else m.function? id :=
    fun id => IdMap.get?_insert _ _ _ _
  refine ⟨⟨fun {id g} hg => ?_, h.pending_id, fun {id g} hg => ?_, fun {id body} hb => ?_⟩, h.real⟩
  · rw [hf] at hg
    split at hg
    next he =>
      cases hg
      exact he
    next => exact h.function_id hg
  · rw [nextFunction_add hlt]
    rw [hf] at hg
    split at hg
    next he => exact he ▸ hlt
    next => exact h.id_lt hg
  · obtain ⟨declared, hdeclared, hrest⟩ := h.declared hb
    refine ⟨declared, ?_, hrest⟩
    rw [hf, if_neg]
    · exact hdeclared
    · rintro rfl
      cases hdeclared.symm.trans hfree

/-- So is a function whose body is left pending. -/
theorem addLazy (h : m.Sound) (hlt : f.id < m.nextFunction) (hfree : m.function? f.id = none) :
    (m.addLazy f).Sound := by
  have hdeclared := h.add (f := f.toDeclaration) hlt hfree
  unfold Module.addLazy
  dsimp only
  split
  · exact hdeclared
  next hbody =>
    have hcases : ∀ {id g}, (m.pending.insert f.id f).get? id = some g →
        f.id = id ∧ f = g ∨ m.pending.get? id = some g := by
      intro id g hg
      rw [IdMap.get?_insert] at hg
      split at hg
      next he => exact Or.inl ⟨he, Option.some.inj hg⟩
      next => exact Or.inr hg
    refine ⟨⟨hdeclared.function_id, fun hg => ?_, hdeclared.id_lt, fun hg => ?_⟩, fun hg => ?_⟩
    · rcases hcases hg with ⟨he, rfl⟩ | hold
      · exact he
      · exact h.pending_id hold
    · rcases hcases hg with ⟨he, rfl⟩ | hold
      · exact ⟨f.toDeclaration, (IdMap.get?_insert _ _ _ _).trans (if_pos he), rfl, rfl⟩
      · exact hdeclared.declared hold
    · rcases hcases hg with ⟨-, rfl⟩ | hold
      · simpa using hbody
      · exact h.real hold

/-- A function is stored under the next number. -/
theorem addNext (h : m.Sound) (hf : f.id = m.nextFunction)
    (hroom : m.nextFunction.toNat + 1 < 2 ^ 32) : (m.addNext f).Sound := by
  refine (h.allocFunction hroom).add ?_ ?_
  · rw [hf]
    exact WellFormed.next_lt hroom
  · rw [hf]
    exact (h.free_of_le UInt32.le_rfl).1

/-- A function for which nothing is pending may change, if it keeps its number. -/
theorem modify {change : Function → Function} (h : m.Sound) (hnone : m.pending.get? id = none)
    (hid : ∀ f, (change f).id = f.id) :
    Sound { m with functions := m.functions.modify id change } := by
  have hlookup : ∀ j, (m.functions.modify id change).get? j =
      (m.function? j).map (fun g => if j = id then change g else g) :=
    fun j => IdMap.get?_mapValues _ _ _
  have hstored : ∀ {j g}, (m.functions.modify id change).get? j = some g →
      ∃ g', m.function? j = some g' ∧ g.id = g'.id := by
    intro j g hg
    rw [hlookup] at hg
    obtain ⟨g', hg', rfl⟩ := Option.map_eq_some_iff.mp hg
    refine ⟨g', hg', ?_⟩
    split
    · exact hid g'
    · rfl
  refine ⟨⟨fun hg => ?_, h.pending_id, fun hg => ?_, fun {j body} hb => ?_⟩, h.real⟩
  · obtain ⟨g', hg', he⟩ := hstored hg
    exact he.trans (h.function_id hg')
  · obtain ⟨g', hg', -⟩ := hstored hg
    exact h.id_lt hg'
  · -- The function that changes has nothing pending, so it is not the declaration of a body.
    obtain ⟨declared, hdeclared, hrest⟩ := h.declared hb
    refine ⟨declared, (hlookup j).trans ?_, hrest⟩
    rw [hdeclared, Option.map_some, if_neg]
    rintro rfl
    cases hb.symm.trans hnone

/-- Bodies may be moved over their declarations. -/
theorem moved {allowed : FunctionId → Prop} (h : m.Sound) (hmoved : m.MovedOnly allowed left) :
    left.Sound where
  toWellFormed := hmoved.wellFormed h.toWellFormed
  real := by
    intro id body hb
    rcases hmoved.moved id with ⟨-, hsame⟩ | ⟨-, -, -, -, hnone⟩
    · exact h.real (hsame.symm.trans hb)
    · cases hnone.symm.trans hb

/-- Functions and bodies may be added. -/
theorem grown (h : m.Sound) (hgrown : Grown m left) : left.Sound where
  toWellFormed := hgrown.wellFormed h.toWellFormed
  real := by
    intro id body hb
    rcases hgrown.pendingOnly id body hb with hold | ⟨-, hbody, -⟩
    · exact h.real hold
    · exact hbody

end Sound

/-- A step of a run keeps the store sound. -/
theorem Sound.step {commit : Option Commit} (h : m.Sound) (hstep : Step m commit left) :
    left.Sound := by
  cases hstep with
  | moved moved => exact h.moved moved
  | grown grown => exact h.grown grown
  | @committed mid r f moved free id name body shape room =>
    obtain ⟨hfunctions, hpending, hnext⟩ := r.record_frame (mid.addNext f)
    exact ((h.moved moved).addNext id room).of_frame hfunctions hpending (hnext ▸ UInt32.le_rfl)

/-- Linking a list of any modules into a new one gives a sound module. -/
theorem sound_linkAll {name : String} {sources : List Module}
    (hfit : NumbersFit (sources.map .link) (.new name)) (hok : linkAll name sources = .ok m) :
    m.Sound := by
  rw [linkAll_eq] at hok
  have hnew := Sound.new name
  exact hnew.grown (grown_linkEach hnew.toWellFormed hfit hok)

end Store

end Module

end KernelFusion

import KernelFusion.Proofs.Integrity

/-!
# The last write to a number

Functions can be stored again and again under one number, with their bodies or held back. What was
stored last stays, whatever is materialized afterwards, as long as no other body is pending under
its number. Storing a function with its body, or a declaration, leaves a pending body as it is. So
if there is another one, materializing the name of the number brings that older body back.
-/

namespace KernelFusion

namespace Module

/-- A change of the store. -/
inductive Write where
  /-- Store a function with its body. -/
  | add (f : Function)
  /-- Store a function, its body pending. -/
  | addLazy (f : Function)
  /-- Take a function number. -/
  | alloc
  /-- Materialize a name. -/
  | materialize (name : String)
  /-- Link a source. -/
  | link (source : Module)

/-- The module after a change. -/
def Write.run (m : Module) : Write → Module
  | add f => m.add f
  | addLazy f => m.addLazy f
  | alloc => m.allocFunction.1
  | materialize name => m.materialize name
  | link source => (m.linkInto source).2

/-- The module after changes one after the other. -/
def writeAll (ws : List Write) (m : Module) : Module := ws.foldl Write.run m

/-- Whatever is materialized, a function stands under its number. -/
def Stays (m : Module) (f : Function) : Prop :=
  ∀ names, (m.materializeAll names).function? f.id = some f

/-- A body that is another function is pending under the number of a function. -/
def Withholds (m : Module) (f : Function) : Prop :=
  ∃ older, m.pending.get? f.id = some older ∧ older ≠ f

/-- Where nothing is stored, nothing is pending. -/
def Declared (m : Module) : Prop := ∀ id, m.function? id = none → m.pending.get? id = none

variable {m : Module} {f : Function} {id : FunctionId}

theorem function?_add (m : Module) (f : Function) (id : FunctionId) :
    (m.add f).function? id = if f.id = id then some f else m.function? id :=
  IdMap.get?_insert _ _ _ _

section Materialize

/-- The number of a name gets its pending body if there is one; all others keep their functions. -/
theorem function?_materialize_or (m : Module) (name : String) (id : FunctionId) :
    (m.materialize name).function? id =
      if m.idOf? name = some id then (m.pending.get? id).or (m.function? id)
      else m.function? id := by
  cases hid : m.idOf? name with
  | none => simp [materialize_of_none hid]
  | some i =>
    cases hp : m.pending.get? i with
    | none =>
      rw [materialize_of_pending_none hid hp]
      by_cases h : i = id
      · simp [h, h ▸ hp]
      · simp [h]
    | some body =>
      rw [materialize_of_pending hid hp, function?, IdMap.get?_insert]
      by_cases h : i = id
      · simp [h, h ▸ hp]
      · simp [h, function?]

/-- Materializing a name keeps a function that no other body is pending for. -/
theorem keeps_materialize (hf : m.function? f.id = some f) (hother : ¬ m.Withholds f)
    (name : String) :
    (m.materialize name).function? f.id = some f ∧ ¬ (m.materialize name).Withholds f := by
  constructor
  · rw [function?_materialize_or, hf]
    split
    · cases hp : m.pending.get? f.id with
      | none => rfl
      | some older =>
        by_cases he : older = f
        · rw [he]
          rfl
        · exact absurd ⟨older, hp, he⟩ hother
    · rfl
  · rintro ⟨older, hp, hne⟩
    rw [pending_materialize] at hp
    split at hp
    · cases hp
    · exact hother ⟨older, hp, hne⟩

/-- So does materializing names one after the other. -/
theorem stays_of_not_withholds (hf : m.function? f.id = some f) (hother : ¬ m.Withholds f) :
    m.Stays f := by
  intro names
  induction names generalizing m with
  | nil => exact hf
  | cons name rest ih =>
    obtain ⟨hkept, hstill⟩ := keeps_materialize hf hother name
    exact ih hkept hstill

/-- If the name of a function stands for it, another pending body takes its place. -/
theorem stays_iff (hf : m.function? f.id = some f) (hid : m.idOf? f.name = some f.id) :
    m.Stays f ↔ ¬ m.Withholds f := by
  refine ⟨?_, stays_of_not_withholds hf⟩
  rintro hstays ⟨older, hp, hne⟩
  have hone : (m.materialize f.name).function? f.id = some f := hstays [f.name]
  rw [function?_materialize_or, if_pos hid, hp] at hone
  exact hne (Option.some.inj hone)

end Materialize

section Runs

theorem Declared.new (name : String) : (new name).Declared := fun _ _ => rfl

theorem Declared.add (h : m.Declared) (f : Function) : (m.add f).Declared := by
  intro id hnone
  rw [function?_add] at hnone
  split at hnone
  · cases hnone
  · exact h id hnone

theorem Declared.addLazy (h : m.Declared) (f : Function) : (m.addLazy f).Declared := by
  intro id hnone
  rw [function?_addLazy] at hnone
  split at hnone
  next => cases hnone
  next hne => rw [pending_addLazy, if_neg (fun hown => hne hown.1), h id hnone]

theorem Declared.materialize (h : m.Declared) (name : String) : (m.materialize name).Declared := by
  intro id hnone
  rw [pending_materialize]
  rw [function?_materialize_or] at hnone
  split at hnone
  next hid => rw [if_pos hid]
  next hid => rw [if_neg hid, h id hnone]

/-- A function that is brought in and becomes pending has its number taken or gets declared. -/
theorem Declared.register (h : m.Declared) (f : Function) : (m.register f).1.Declared := by
  intro id hnone
  rw [function?_register] at hnone
  rw [pending_register]
  split at hnone
  next => cases hnone
  next hne =>
    rw [if_neg, h id hnone]
    rintro ⟨hid, -⟩
    exact hne ⟨hid, hnone⟩

theorem Declared.registerAll (h : m.Declared) (fs : List Function) :
    (m.registerAll fs).1.Declared := by
  induction fs generalizing m with
  | nil => exact h
  | cons f rest ih => exact ih (h.register f)

theorem Declared.linkInto (h : m.Declared) (source : Module) :
    (m.linkInto source).2.Declared := by
  rcases hlink : m.linkInto source with ⟨e | stats, left⟩
  · obtain rfl := linkInto_error hlink
    exact h
  · obtain ⟨p, -, -, rfl⟩ := linkInto_ok hlink
    have hreserved : (m.reserve p).Declared := h
    exact hreserved.registerAll _

/-- Every change of the store keeps pending bodies declared. -/
theorem Declared.write (h : m.Declared) (w : Write) : (w.run m).Declared := by
  cases w with
  | add f => exact h.add f
  | addLazy f => exact h.addLazy f
  | alloc => exact h
  | materialize name => exact h.materialize name
  | link source => exact h.linkInto source

/-- So do changes one after the other. -/
theorem Declared.writeAll (h : m.Declared) (ws : List Write) : (writeAll ws m).Declared := by
  induction ws generalizing m with
  | nil => exact h
  | cons w rest ih => exact ih (h.write w)

end Runs

/-- A function that was stored with its body is looked up under its number. It stays there,
whatever is materialized, if no other body was pending under the number before; and only then, if
its name stands for it. So it stays if nothing was stored under the number. A function that was
stored with its body pending gets its body when its name, which stands for it, is materialized, and
stays then. A declaration that was stored so stays a declaration if no body was pending; otherwise
that body takes its place. -/
theorem lastWrite (ws : List Write) (name : String) (f : Function) :
    let m := writeAll ws (new name)
    (m.add f).function? f.id = some f ∧
      (¬ m.Withholds f → (m.add f).Stays f) ∧
      ((m.add f).idOf? f.name = some f.id → ((m.add f).Stays f ↔ ¬ m.Withholds f)) ∧
      (m.function? f.id = none → (m.add f).Stays f) ∧
      ((m.addLazy f).idOf? f.name = some f.id →
        (f.isDeclaration = false → ((m.addLazy f).materialize f.name).Stays f) ∧
        (f.isDeclaration = true → ((m.addLazy f).materialize f.name).function? f.id =
          (m.pending.get? f.id).or (some f.toDeclaration))) := by
  intro m
  have hdeclared : m.Declared := (Declared.new name).writeAll ws
  have hstored : (m.add f).function? f.id = some f := by rw [function?_add, if_pos rfl]
  -- Storing a function leaves what is pending as it is.
  have hpending : (m.add f).Withholds f ↔ m.Withholds f := Iff.rfl
  refine ⟨hstored, fun hother => stays_of_not_withholds hstored (mt hpending.mp hother),
    fun hid => (stays_iff hstored hid).trans (not_congr hpending), fun hnone => ?_,
    fun hid => ⟨fun hbody => ?_, fun hdeclaration => ?_⟩⟩
  · refine stays_of_not_withholds hstored ?_
    rintro ⟨older, hp, -⟩
    cases hp.symm.trans (hdeclared f.id hnone)
  · refine stays_of_not_withholds ?_ ?_
    · rw [function?_materialize_or, if_pos hid, pending_addLazy, if_pos ⟨rfl, hbody⟩]
      rfl
    · rintro ⟨older, hp, -⟩
      rw [pending_materialize, if_pos hid] at hp
      cases hp
  · rw [function?_materialize_or, if_pos hid, pending_addLazy, if_neg (by simp [hdeclaration]),
      function?_addLazy, if_pos rfl]

/-- A function whose body has no terminator yet. -/
def unfinished : Function := .new 0 "f" (.ofParams [] .void .c)

/-- The same function, returning. -/
def finished : Function := unfinished.modifyBlock 0 (fun b => { b with terminator := .ret none })

/-- Once the first body is materialized, a second one under its number stays, and so does one under
another number or one that is held back itself. -/
theorem lastWrite_finished :
    ¬ (writeAll [.addLazy unfinished, .materialize "f"] (new "m")).Withholds finished ∧
      ((writeAll [.addLazy unfinished, .materialize "f"] (new "m")).add finished).Stays finished ∧
      (writeAll [.addLazy unfinished] (new "m")).function? 1 = none ∧
      ((writeAll [.addLazy unfinished] (new "m")).add { finished with id := 1 }).Stays
        { finished with id := 1 } ∧
      (((writeAll [.addLazy unfinished] (new "m")).addLazy finished).materialize "f").Stays
        finished := by
  have hmoved : ¬ (writeAll [.addLazy unfinished, .materialize "f"] (new "m")).Withholds finished :=
    fun ⟨older, hp, _⟩ => by cases hp
  obtain ⟨-, hstays, -⟩ := lastWrite [.addLazy unfinished, .materialize "f"] "m" finished
  obtain ⟨-, -, -, hfresh, -⟩ := lastWrite [.addLazy unfinished] "m" { finished with id := 1 }
  obtain ⟨-, -, -, -, hlazy⟩ := lastWrite [.addLazy unfinished] "m" finished
  exact ⟨hmoved, hstays hmoved, rfl, hfresh rfl, (hlazy rfl).1 rfl⟩

/-- A body that was held back returns over a body that was stored after it, and over a declaration
that was. -/
theorem withheld_returns :
    let stored := writeAll [.addLazy unfinished, .add finished] (new "m")
    let declared := writeAll [.addLazy unfinished, .addLazy finished.toDeclaration] (new "m")
    unfinished ≠ finished ∧ finished.isDeclaration = false ∧
      stored.function? 0 = some finished ∧ ¬ stored.Stays finished ∧
      (stored.materialize "f").function? 0 = some unfinished ∧
      declared.idOf? "f" = some 0 ∧
      (declared.materialize "f").function? 0 ≠ some finished.toDeclaration ∧
      (declared.materialize "f").function? 0 = some unfinished := by
  refine ⟨by decide, rfl, rfl, fun h => ?_, rfl, rfl, by decide, rfl⟩
  cases h ["f"]

end Module

end KernelFusion

import KernelFusion.Fusion.Invoke
import KernelFusion.Fusion.Plan
import KernelFusion.Proofs.Materialize

/-!
# Requests that only materialize

Everything that a fusion or a wrapping does before it adds a function is a probe: its answer depends
on the forced module alone, and all it does to the module is to materialize names of its stages. So
a probe can be read off the forced module, where it changes nothing, and repeating it changes
nothing either.
-/

namespace KernelFusion

/-- A step of a request: it answers, and leaves a module. -/
abbrev Attempt (α : Type) := Module → Except FusionError α × Module

/-- Go on with the answer in the module that was left, unless there was an error. -/
def Attempt.andThen {α β : Type} (first : Attempt α) (next : α → Attempt β) : Attempt β :=
  fun m =>
    match first m with
    | (.error e, left) => (.error e, left)
    | (.ok a, left) => next a left

namespace Attempt

variable {α β : Type} {first : Attempt α} {next : α → Attempt β} {m left : Module}
  {e : FusionError} {a : α}

theorem andThen_of_error (h : first m = (.error e, left)) :
    first.andThen next m = (.error e, left) := by
  rw [andThen, h]

theorem andThen_of_ok (h : first m = (.ok a, left)) : first.andThen next m = next a left := by
  rw [andThen, h]

/-- If both steps succeed, the second one does so in the module that the first one leaves. -/
theorem of_andThen_ok {b : β} (h : first.andThen next m = (.ok b, left)) :
    ∃ a mid, first m = (.ok a, mid) ∧ next a mid = (.ok b, left) := by
  rcases hm : first m with ⟨e | a, mid⟩
  · rw [andThen_of_error hm] at h
    cases h
  · rw [andThen_of_ok hm] at h
    exact ⟨a, mid, rfl, h⟩

/-- If the second step cannot fail, a failure is one of the first step. -/
theorem andThen_eq_error_iff (hnext : ∀ a m, ∃ b, (next a m).1 = .ok b) :
    first.andThen next m = (.error e, left) ↔ first m = (.error e, left) := by
  rcases h : first m with ⟨e' | a, left'⟩
  · rw [andThen_of_error h]
    simp
  · obtain ⟨b, hb⟩ := hnext a left'
    rw [andThen_of_ok h]
    constructor
    · intro he
      rw [he] at hb
      cases hb
    · intro he
      cases he

end Attempt

/-- On every well-formed module that forces to `view`, the answer is the one on `view`, and the same
names are materialized: some of `names`, and all of them if the step succeeds. -/
def Probes {α : Type} (r : Attempt α) (view : Module) (names : List String) : Prop :=
  ∃ moved, moved ⊆ names ∧ (∀ a, (r view).1 = .ok a → names ⊆ moved) ∧
    ∀ m : Module, m.WellFormed → m.force = view → r m = ((r view).1, m.materializeAll moved)

namespace Probes

variable {α β : Type} {view : Module} {names more : List String}

/-- An answer without a look at the module. -/
theorem pure (answer : Except FusionError α) : Probes (fun m => (answer, m)) view [] :=
  ⟨[], fun _ h => h, fun _ _ _ h => h, fun _ _ _ => rfl⟩

/-- An error is a probe whatever names might have been materialized. -/
theorem error (e : FusionError) (names : List String) :
    Probes (fun m => ((.error e : Except FusionError α), m)) view names := by
  refine ⟨[], List.nil_subset names, ?_, fun _ _ _ => rfl⟩
  rintro a ⟨⟩

/-- Only the modules that force to `view` matter. -/
theorem congr {r s : Attempt α} (hv : view.WellFormed) (hf : view.force = view)
    (h : ∀ m : Module, m.WellFormed → m.force = view → r m = s m) (hs : Probes s view names) :
    Probes r view names := by
  obtain ⟨moved, hle, hall, hmod⟩ := hs
  have hview : r view = s view := h view hv hf
  refine ⟨moved, hle, ?_, fun m hm hforce => ?_⟩
  · rw [hview]
    exact hall
  · rw [hview, h m hm hforce]
    exact hmod m hm hforce

theorem names_congr {r : Attempt α} (h : Probes r view names) (hle : names ⊆ more)
    (hge : more ⊆ names) : Probes r view more := by
  obtain ⟨moved, hmoved, hall, hmod⟩ := h
  exact ⟨moved, fun n hn => hle (hmoved hn), fun a ha n hn => hall a ha (hge hn), hmod⟩

/-- A probe followed by a probe is a probe. -/
theorem andThen {first : Attempt α} {next : α → Attempt β} (hv : view.WellFormed)
    (hf : view.force = view) (h : Probes first view names)
    (hnext : ∀ a, (first view).1 = .ok a → Probes (next a) view more) :
    Probes (first.andThen next) view (names ++ more) := by
  obtain ⟨moved, hmoved, hall, hmod⟩ := h
  have hstay : first view = ((first view).1, view) := by
    rw [hmod view hv hf, ← hf, Module.materializeAll_force, hf]
  cases ha : (first view).1 with
  | error e =>
    have hview : first.andThen next view = (.error e, view) := by
      rw [Attempt.andThen, hstay, ha]
    refine ⟨moved, fun n hn => List.mem_append_left more (hmoved hn), ?_, fun m hm hforce => ?_⟩
    · rw [hview]
      rintro a ⟨⟩
    · rw [hview, Attempt.andThen, hmod m hm hforce, ha]
  | ok a =>
    obtain ⟨later, hlater, hall', hmod'⟩ := hnext a ha
    have hview : first.andThen next view = next a view := by rw [Attempt.andThen, hstay, ha]
    refine ⟨moved ++ later, ?_, ?_, fun m hm hforce => ?_⟩
    · exact List.append_subset.mpr ⟨fun n hn => List.mem_append_left more (hmoved hn),
        fun n hn => List.mem_append_right names (hlater hn)⟩
    · rw [hview]
      intro b hb
      exact List.append_subset.mpr ⟨fun n hn => List.mem_append_left later (hall a ha hn),
        fun n hn => List.mem_append_right moved (hall' b hb hn)⟩
    · have hleft := hmod' (m.materializeAll moved) (hm.materializeAll moved)
        ((hm.force_materializeAll moved).trans hforce)
      rw [hview, Attempt.andThen, hmod m hm hforce, ha]
      exact hleft.trans (by rw [Module.materializeAll_append])

/-- A probe that fails moves pending bodies of its names only, and fails again in the same way
without moving anything. -/
theorem failed {r : Attempt α} {dest left : Module} {e : FusionError} (hd : dest.WellFormed)
    (h : Probes r dest.force names) (hr : r dest = (.error e, left)) :
    Module.MovedOnly (fun id => ∃ n ∈ names, dest.idOf? n = some id) dest left ∧
      r left = (.error e, left) := by
  obtain ⟨moved, hmoved, -, hmod⟩ := h
  have hdest := hmod dest hd rfl
  rw [hr] at hdest
  obtain ⟨he, rfl⟩ := Prod.mk.inj hdest
  have hagain := hmod (dest.materializeAll moved) (hd.materializeAll moved)
    (hd.force_materializeAll moved)
  refine ⟨(hd.movedOnly_materializeAll moved).mono ?_, ?_⟩
  · rintro id ⟨n, hn, hid⟩
    exact ⟨n, hmoved hn, hid⟩
  · rw [hagain, ← he, hd.materializeAll_again]

/-- A probe that succeeds gives the answer that can be read off the forced module, and materializes
its names. -/
theorem left_eq {r : Attempt α} {dest left : Module} {a : α} (hd : dest.WellFormed)
    (h : Probes r dest.force names) (hr : r dest = (.ok a, left)) :
    (r dest.force).1 = .ok a ∧ left = dest.materializeAll names := by
  obtain ⟨moved, hmoved, hall, hmod⟩ := h
  have hdest := hmod dest hd rfl
  rw [hr] at hdest
  obtain ⟨ha, rfl⟩ := Prod.mk.inj hdest
  exact ⟨ha.symm, hd.materializeAll_congr (fun n => ⟨@hmoved n, @hall a ha.symm n⟩)⟩

/-- So no body of its names is left pending, and no other body moves. -/
theorem succeeded {r : Attempt α} {dest left : Module} {a : α} (hd : dest.WellFormed)
    (h : Probes r dest.force names) (hr : r dest = (.ok a, left)) :
    (r dest.force).1 = .ok a ∧ left.WellFormed ∧ left.force = dest.force ∧
      Module.MovedOnly (fun id => ∃ n ∈ names, dest.idOf? n = some id) dest left ∧
      ∀ n ∈ names, ∀ id, dest.idOf? n = some id → left.pending.get? id = none := by
  obtain ⟨ha, rfl⟩ := h.left_eq hd hr
  refine ⟨ha, hd.materializeAll names, hd.force_materializeAll names,
    hd.movedOnly_materializeAll names, fun n hn id hid => ?_⟩
  rw [hd.pending_materializeAll, if_pos ⟨n, hn, hid⟩]

end Probes

end KernelFusion

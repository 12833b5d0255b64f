import Mathlib.Data.List.Forall2
import Mathlib.Tactic.Tauto

/-!
# Places in lists

What happens at a place of a list often depends on what stands before it: registers are read where
they were written before, and the first slot that cannot be read is the one that is reported. A
place in a list that is put together from lists is a place in one of these.
-/

namespace KernelFusion

variable {α β : Type} {p : List α → α → Prop}

/-- A place in a longer list is its first one or a place in the rest. -/
theorem forall_split_cons {a : α} {l : List α} :
    (∀ before x after, a :: l = before ++ x :: after → p before x) ↔
      p [] a ∧ ∀ before x after, l = before ++ x :: after → p (a :: before) x := by
  constructor
  · intro h
    refine ⟨h [] a l rfl, fun before x after hl => h (a :: before) x after ?_⟩
    rw [hl, List.cons_append]
  · rintro ⟨hhead, hrest⟩ before x after hl
    cases before with
    | nil =>
      cases hl
      exact hhead
    | cons y before =>
      cases hl
      exact hrest before x after rfl

/-- Whether something holds at every place can be decided place by place. -/
instance decidableForallSplit (p : List α → α → Prop) [DecidableRel p] : (l : List α) →
    Decidable (∀ before x after, l = before ++ x :: after → p before x)
  | [] => .isTrue (by simp)
  | a :: l =>
    have : Decidable (∀ before x after, l = before ++ x :: after → p (a :: before) x) :=
      decidableForallSplit (fun before x => p (a :: before) x) l
    decidable_of_iff (p [] a ∧ ∀ before x after, l = before ++ x :: after → p (a :: before) x)
      forall_split_cons.symm

theorem exists_split_cons {a : α} {l : List α} :
    (∃ before x after, a :: l = before ++ x :: after ∧ p before x) ↔
      p [] a ∨ ∃ before x after, l = before ++ x :: after ∧ p (a :: before) x := by
  constructor
  · rintro ⟨before, x, after, hl, hp⟩
    cases before with
    | nil =>
      cases hl
      exact Or.inl hp
    | cons y before =>
      cases hl
      exact Or.inr ⟨before, x, after, rfl, hp⟩
  · rintro (hp | ⟨before, x, after, rfl, hp⟩)
    · exact ⟨[], a, l, rfl, hp⟩
    · exact ⟨a :: before, x, after, rfl, hp⟩

/-- A place in two lists is one in the first or one in the second, behind all of the first. -/
theorem forall_split_append {l₁ l₂ : List α} :
    (∀ before x after, l₁ ++ l₂ = before ++ x :: after → p before x) ↔
      (∀ before x after, l₁ = before ++ x :: after → p before x) ∧
        ∀ before x after, l₂ = before ++ x :: after → p (l₁ ++ before) x := by
  induction l₁ generalizing p with
  | nil => simp
  | cons a l₁ ih => simp only [List.cons_append, forall_split_cons, ih, and_assoc]

theorem forall_split_map {g : β → α} {l : List β} :
    (∀ before x after, l.map g = before ++ x :: after → p before x) ↔
      ∀ before y after, l = before ++ y :: after → p (before.map g) (g y) := by
  induction l generalizing p with
  | nil => simp
  | cons a l ih => simp only [List.map_cons, forall_split_cons, ih, List.map_nil]

/-- A place in a list of lists is a place in one of them, behind all of those before. -/
theorem forall_split_flatMap {g : β → List α} {l : List β} :
    (∀ before x after, l.flatMap g = before ++ x :: after → p before x) ↔
      ∀ before y after, l = before ++ y :: after →
        ∀ inside x rest, g y = inside ++ x :: rest → p (before.flatMap g ++ inside) x := by
  induction l generalizing p with
  | nil => simp
  | cons a l ih =>
    simp only [List.flatMap_cons, forall_split_append, forall_split_cons, ih, List.flatMap_nil,
      List.nil_append, List.append_assoc]

theorem forall_split_singleton {a : α} :
    (∀ before x after, [a] = before ++ x :: after → p before x) ↔ p [] a := by
  simp [forall_split_cons]

/-- What holds at every place regardless of what stands before it holds of every member. -/
theorem forall_split_mem {q : α → Prop} {l : List α} :
    (∀ before x after, l = before ++ x :: after → q x) ↔ ∀ x ∈ l, q x := by
  refine ⟨fun h x hx => ?_, ?_⟩
  · obtain ⟨before, after, hl⟩ := List.append_of_mem hx
    exact h before x after hl
  · rintro h before x after rfl
    exact h x (List.mem_append_right before List.mem_cons_self)

/-- Lists joined have no duplicate if none of them has one and none meets those before it. -/
theorem nodup_flatMap_iff {g : α → List β} {l : List α} :
    (l.flatMap g).Nodup ↔ ∀ before x after, l = before ++ x :: after →
      (g x).Nodup ∧ ∀ r ∈ g x, r ∉ before.flatMap g := by
  induction l with
  | nil => simp
  | cons a l ih =>
    have hmeet : (∀ x ∈ l, ∀ r ∈ g x, r ∉ g a) ↔ ∀ r ∈ g a, ∀ r' ∈ l.flatMap g, r ≠ r' := by
      simp only [List.mem_flatMap]
      constructor
      · rintro h r hr _ ⟨x, hx, hrx⟩ rfl
        exact h x hx r hrx hr
      · exact fun h x hx r hrx hr => h r hr r ⟨x, hx, hrx⟩ rfl
    rw [List.flatMap_cons, List.nodup_append, ih, ← hmeet,
      ← forall_split_mem (q := fun x => ∀ r ∈ g x, r ∉ g a), forall_split_cons]
    simp only [List.flatMap_cons, List.mem_append, List.flatMap_nil, not_or, List.not_mem_nil,
      not_false_eq_true, implies_true, and_true, forall_and]
    tauto

/-- What goes with two lists joined is what goes with the first, and then with the second. -/
theorem forall₂_append_left_iff {R : α → β → Prop} {l₁ l₂ : List α} {l : List β} :
    List.Forall₂ R (l₁ ++ l₂) l ↔
      ∃ u v, List.Forall₂ R l₁ u ∧ List.Forall₂ R l₂ v ∧ l = u ++ v := by
  constructor
  · intro h
    refine ⟨l.take l₁.length, l.drop l₁.length, ?_, ?_, (List.take_append_drop _ l).symm⟩
    · simpa using List.forall₂_take l₁.length h
    · simpa using List.forall₂_drop l₁.length h
  · rintro ⟨u, v, hu, hv, rfl⟩
    exact List.rel_append hu hv

/-- A list has a companion if every member has one. -/
theorem exists_forall₂_iff {R : α → β → Prop} {l : List α} :
    (∃ l', List.Forall₂ R l l') ↔ ∀ a ∈ l, ∃ b, R a b := by
  induction l with
  | nil => simp
  | cons a rest ih =>
    simp only [List.forall₂_cons_left_iff, List.forall_mem_cons, ← ih]
    constructor
    · rintro ⟨_, b, rest', hb, hrest, rfl⟩
      exact ⟨⟨b, hb⟩, rest', hrest⟩
    · rintro ⟨⟨b, hb⟩, rest', hrest⟩
      exact ⟨_, b, rest', hb, hrest, rfl⟩

end KernelFusion

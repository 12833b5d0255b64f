import KernelFusion.Proofs.Store

/-!
# Where linking puts functions

Linking gives every function of the source a number of the destination before it changes anything.
The numbers given so far are described by `Placed`: a function goes to the symbol of its name if
there is one, else to a number that was not in use and that no other function gets. Functions share
a number only if they go to the same symbol, so with distinct names all numbers are different.
Numbers run out only if there are more new names than numbers left.
-/

namespace KernelFusion

/-- The functions that the body of a function calls. -/
def Function.callees (f : Function) : List FunctionId := f.graph.instructions.filterMap (·.callee)

/-- A function that calls anything has a body. -/
theorem Function.isDeclaration_of_mem_callees {f : Function} {callee : FunctionId}
    (h : callee ∈ f.callees) : f.isDeclaration = false := by
  cases hempty : f.isDeclaration with
  | false => rfl
  | true =>
    have hblocks : f.graph.blocks.entries = [] := List.isEmpty_iff.mp hempty
    simp [callees, Graph.instructions, IdMap.values, hblocks] at h

/-- The number that a function of the source gets. -/
def Placement.number (p : Placement) (i : FunctionId) : FunctionId := (p.targets.get? i).getD i

namespace Module

/-- No two functions of a module have the same name. -/
def DistinctNames (m : Module) : Prop :=
  ∀ i j f g, m.whole? i = some f → m.whole? j = some g → f.name = g.name → i = j

/-- No two functions of a module with bodies have the same name. -/
def DistinctBodies (m : Module) : Prop :=
  ∀ i j f g, m.whole? i = some f → m.whole? j = some g → f.isDeclaration = false →
    g.isDeclaration = false → f.name = g.name → i = j

theorem DistinctNames.bodies {m : Module} (h : m.DistinctNames) : m.DistinctBodies :=
  fun i j f g hf hg _ _ => h i j f g hf hg

/-- No two functions of the source have the same name that the destination does not have. -/
def NewNamesDistinct (dest source : Module) : Prop :=
  ∀ i j f g, source.whole? i = some f → source.whole? j = some g → dest.idOf? f.name = none →
    f.name = g.name → i = j

theorem DistinctNames.new {dest source : Module} (h : source.DistinctNames) :
    dest.NewNamesDistinct source :=
  fun i j f g hf hg _ => h i j f g hf hg

/-- A function with a body has the name of a symbol with a body. -/
def Clashes (dest : Module) (f : Function) : Prop :=
  f.isDeclaration = false ∧ ∃ id, dest.idOf? f.name = some id ∧ dest.hasBody id = true

/-- Whether a function is brought in: all are but declarations of symbols that the destination has.
-/
def brings (dest : Module) (f : Function) : Bool :=
  !f.isDeclaration || (dest.idOf? f.name).isNone

/-- The number of functions with names that the destination does not have. -/
def newCount (dest : Module) (functions : List (FunctionId × Function)) : Nat :=
  functions.countP (fun e => (dest.idOf? e.2.name).isNone)

theorem newCount_append (dest : Module) (functions more : List (FunctionId × Function)) :
    dest.newCount (functions ++ more) = dest.newCount functions + dest.newCount more :=
  List.countP_append

/-- Give a function its number, from a source of this name. -/
def placeWhole (dest : Module) (origin : String) (p : Placement) (e : FunctionId × Function) :
    Except LinkError Placement :=
  match dest.idOf? e.2.name with
  | some id =>
    if !e.2.isDeclaration && dest.hasBody id then
      .error (.duplicateDefinition e.2.name dest.name origin)
    else
      .ok { p with
        targets := p.targets.insert e.1 id
        incoming := if e.2.isDeclaration then p.incoming else p.incoming ++ [(id, e.2)]
        merged := p.merged + 1 }
  | none =>
    .ok { p with
      nextId := p.nextId + 1
      targets := p.targets.insert e.1 p.nextId
      incoming := p.incoming ++ [(p.nextId, e.2)] }

/-- Placing the functions of a source is placing its whole functions. -/
theorem placement_eq (dest source : Module) :
    dest.placement source = source.force.functions.entries.foldlM (placeWhole dest source.name)
      ⟨dest.nextFunction, .empty, [], 0⟩ := by
  rw [force, IdMap.entries_mapValues, List.foldlM_map]
  rfl

/-- Giving a function its number fails exactly if it clashes. -/
theorem placeWhole_cases (dest : Module) (origin : String) (p : Placement)
    (e : FunctionId × Function) :
    (dest.Clashes e.2 ∧ dest.placeWhole origin p e =
      .error (.duplicateDefinition e.2.name dest.name origin)) ∨
    (¬ dest.Clashes e.2 ∧ ∃ p', dest.placeWhole origin p e = .ok p') := by
  unfold placeWhole Clashes
  cases hid : dest.idOf? e.2.name with
  | none => exact Or.inr ⟨by simp, _, rfl⟩
  | some id => cases hbody : e.2.isDeclaration <;> cases hhas : dest.hasBody id <;> simp [hhas]

/-- The functions in `done` have their numbers. -/
structure Placed (dest : Module) (done : List (FunctionId × Function)) (p : Placement) : Prop where
  /-- One number was taken for each new name. -/
  next : p.nextId.toNat = dest.nextFunction.toNat + dest.newCount done
  /-- A function goes to the symbol of its name, or to a number that was taken. -/
  target : ∀ i f, (i, f) ∈ done → ∃ id, p.targets.get? i = some id ∧
    (dest.idOf? f.name = some id ∨
      dest.idOf? f.name = none ∧ dest.nextFunction ≤ id ∧ id < p.nextId)
  /-- No others have numbers. -/
  only : ∀ i id, p.targets.get? i = some id → ∃ f, (i, f) ∈ done
  /-- Numbers that were taken are not shared. -/
  apart : ∀ i j id, p.targets.get? i = some id → p.targets.get? j = some id →
    dest.nextFunction ≤ id → i = j
  /-- Functions are brought in under their numbers, in order. -/
  incoming : p.incoming =
    (done.filter (fun e => dest.brings e.2)).map (fun e => (p.number e.1, e.2))
  /-- Those without a new name are merged. -/
  merged : p.merged + dest.newCount done = done.length

namespace Placed

variable {dest : Module} {done : List (FunctionId × Function)} {p : Placement}

theorem start (dest : Module) : Placed dest [] ⟨dest.nextFunction, .empty, [], 0⟩ where
  next := rfl
  target i f h := by cases h
  only i id h := by cases h
  apart i j id h := by cases h
  incoming := rfl
  merged := rfl

theorem le_nextId (h : Placed dest done p) : dest.nextFunction ≤ p.nextId := by
  rw [UInt32.le_iff_toNat_le, h.next]
  exact Nat.le_add_right _ _

section Extend

variable {i id next : FunctionId} {f : Function}

/-- What is brought in once one more function has the number `id`. -/
theorem incoming_extend (h : Placed dest done p) (hkey : ∀ g, (i, g) ∉ done) :
    (if dest.brings f then p.incoming ++ [(id, f)] else p.incoming) =
      ((done ++ [(i, f)]).filter (fun e => dest.brings e.2)).map (fun e =>
        (((p.targets.insert i id).get? e.1).getD e.1, e.2)) := by
  have hold : (done.filter (fun e => dest.brings e.2)).map (fun e =>
      (((p.targets.insert i id).get? e.1).getD e.1, e.2)) = p.incoming := by
    rw [h.incoming]
    refine List.map_congr_left (fun e he => ?_)
    have hne : i ≠ e.1 := by
      rintro rfl
      exact hkey e.2 (List.mem_filter.mp he).1
    rw [IdMap.get?_insert, if_neg hne, Placement.number]
  have hself : ((p.targets.insert i id).get? i).getD i = id := by
    rw [IdMap.get?_insert, if_pos rfl, Option.getD_some]
  rw [List.filter_append, List.map_append, hold]
  cases hbring : dest.brings f <;> simp [hbring, hself]

/-- Give one more function the number `id`, which no other has if it was taken. -/
theorem extend (h : Placed dest done p) {merged : Nat} (hkey : ∀ g, (i, g) ∉ done)
    (hunused : dest.nextFunction ≤ id → ∀ j, p.targets.get? j ≠ some id)
    (hplace : dest.idOf? f.name = some id ∨
      dest.idOf? f.name = none ∧ dest.nextFunction ≤ id ∧ id < next)
    (hle : p.nextId ≤ next) (hnext : next.toNat = p.nextId.toNat + dest.newCount [(i, f)])
    (hmerged : merged + dest.newCount [(i, f)] = p.merged + 1) :
    Placed dest (done ++ [(i, f)]) ⟨next, p.targets.insert i id,
      if dest.brings f then p.incoming ++ [(id, f)] else p.incoming, merged⟩ := by
  have htarget : ∀ j, (p.targets.insert i id).get? j =
      if i = j then some id else p.targets.get? j := fun j => IdMap.get?_insert _ _ _ _
  have hold : ∀ {j g}, (j, g) ∈ done → (p.targets.insert i id).get? j = p.targets.get? j := by
    intro j g hj
    rw [htarget, if_neg]
    rintro rfl
    exact hkey g hj
  have hcount := newCount_append dest done [(i, f)]
  refine ⟨?_, fun j g hj => ?_, fun j id' hj => ?_, fun j k id' hj hk hge => ?_,
    h.incoming_extend hkey, ?_⟩
  · have hdone := h.next
    show next.toNat = _
    omega
  · rcases List.mem_append.mp hj with hj | hj
    · obtain ⟨id', hid, hcase⟩ := h.target j g hj
      refine ⟨id', (hold hj).trans hid, hcase.imp_right ?_⟩
      rintro ⟨hnone, hge, hlt⟩
      exact ⟨hnone, hge, UInt32.lt_of_lt_of_le hlt hle⟩
    · cases List.mem_singleton.mp hj
      exact ⟨id, (htarget i).trans (if_pos rfl), hplace⟩
  · by_cases he : i = j
    · exact ⟨f, by simp [he]⟩
    · obtain ⟨g, hg⟩ := h.only j id' (((htarget j).trans (if_neg he)).symm.trans hj)
      exact ⟨g, List.mem_append_left _ hg⟩
  · have hj' := (htarget j).symm.trans hj
    have hk' := (htarget k).symm.trans hk
    by_cases he : i = j <;> by_cases he' : i = k
    · exact he.symm.trans he'
    · rw [if_pos he] at hj'
      rw [if_neg he', ← hj'] at hk'
      cases hj'
      exact absurd hk' (hunused hge k)
    · rw [if_pos he'] at hk'
      rw [if_neg he, ← hk'] at hj'
      cases hk'
      exact absurd hj' (hunused hge j)
    · rw [if_neg he] at hj'
      rw [if_neg he'] at hk'
      exact h.apart j k id' hj' hk' hge
  · have hdone := h.merged
    show merged + _ = _
    rw [List.length_append, List.length_singleton]
    omega

/-- A function with the name of a symbol goes there. -/
theorem extend_known (hd : dest.WellFormed) (h : Placed dest done p) (hkey : ∀ g, (i, g) ∉ done)
    (hid : dest.idOf? f.name = some id) :
    Placed dest (done ++ [(i, f)]) ⟨p.nextId, p.targets.insert i id,
      if dest.brings f then p.incoming ++ [(id, f)] else p.incoming, p.merged + 1⟩ := by
  have hcount : dest.newCount [(i, f)] = 0 := by simp [newCount, hid]
  exact h.extend hkey (fun hge => absurd hge (UInt32.not_le.mpr (hd.idOf?_lt hid))) (Or.inl hid)
    UInt32.le_rfl (by omega) (by omega)

/-- A function with a new name gets the next number. -/
theorem extend_new (hd : dest.WellFormed) (h : Placed dest done p) (hkey : ∀ g, (i, g) ∉ done)
    (hid : dest.idOf? f.name = none) (hroom : p.nextId.toNat + 1 < 2 ^ 32) :
    Placed dest (done ++ [(i, f)]) ⟨p.nextId + 1, p.targets.insert i p.nextId,
      if dest.brings f then p.incoming ++ [(p.nextId, f)] else p.incoming, p.merged⟩ := by
  have hcount : dest.newCount [(i, f)] = 1 := by simp [newCount, hid]
  have hnext : (p.nextId + 1).toNat = p.nextId.toNat + 1 := by
    rw [UInt32.toNat_add, UInt32.toNat_one, Nat.mod_eq_of_lt hroom]
  have hlt : p.nextId < p.nextId + 1 := by
    rw [UInt32.lt_iff_toNat_lt]
    omega
  have hunused : ∀ j, p.targets.get? j ≠ some p.nextId := by
    intro j hj
    obtain ⟨g, hg⟩ := h.only j p.nextId hj
    obtain ⟨id', hid', hcase⟩ := h.target j g hg
    cases hid'.symm.trans hj
    rcases hcase with hknown | ⟨-, -, hless⟩
    · exact UInt32.not_le.mpr (hd.idOf?_lt hknown) h.le_nextId
    · exact UInt32.lt_irrefl _ hless
  exact h.extend hkey (fun _ => hunused) (Or.inr ⟨hid, h.le_nextId, hlt⟩) (UInt32.le_of_lt hlt)
    (by omega) (by omega)

/-- Placing one more function gives it a number. -/
theorem step (hd : dest.WellFormed) (h : Placed dest done p) {origin : String} {p' : Placement}
    (hkey : ∀ g, (i, g) ∉ done)
    (hroom : dest.nextFunction.toNat + dest.newCount (done ++ [(i, f)]) < 2 ^ 32)
    (hplace : dest.placeWhole origin p (i, f) = .ok p') : Placed dest (done ++ [(i, f)]) p' := by
  unfold placeWhole at hplace
  cases hid : dest.idOf? f.name with
  | some id =>
    have hbrought : (if f.isDeclaration then p.incoming else p.incoming ++ [(id, f)]) =
        if dest.brings f then p.incoming ++ [(id, f)] else p.incoming := by
      cases hbody : f.isDeclaration <;> simp [brings, hid, hbody]
    simp only [hid, hbrought] at hplace
    split at hplace
    · cases hplace
    · cases hplace
      exact h.extend_known hd hkey hid
  | none =>
    have hbrought : p.incoming ++ [(p.nextId, f)] =
        if dest.brings f then p.incoming ++ [(p.nextId, f)] else p.incoming := by
      simp [brings, hid]
    have hcount : dest.newCount [(i, f)] = 1 := by simp [newCount, hid]
    have hdone := h.next
    rw [newCount_append] at hroom
    simp only [hid] at hplace
    rw [hbrought] at hplace
    cases hplace
    exact h.extend_new hd hkey hid (by omega)

end Extend

/-- Placing functions one after the other gives all of them their numbers. -/
theorem run (hd : dest.WellFormed) {origin : String} {rest : List (FunctionId × Function)}
    {p' : Placement} (h : Placed dest done p)
    (hkeys : (done ++ rest).Pairwise (fun a b => a.1 ≠ b.1))
    (hroom : dest.nextFunction.toNat + dest.newCount (done ++ rest) < 2 ^ 32)
    (hplace : rest.foldlM (dest.placeWhole origin) p = .ok p') : Placed dest (done ++ rest) p' := by
  -- What was placed before is part of the statement, so that each key is compared with all others.
  induction rest generalizing done p with
  | nil =>
    cases hplace
    rw [List.append_nil]
    exact h
  | cons e rest ih =>
    obtain ⟨i, f⟩ := e
    have happend : done ++ (i, f) :: rest = (done ++ [(i, f)]) ++ rest := by simp
    have hbefore := (List.pairwise_append.mp hkeys).2.2
    have hkey : ∀ g, (i, g) ∉ done := fun g hg => hbefore (i, g) hg (i, f) List.mem_cons_self rfl
    rw [happend] at hkeys hroom ⊢
    rw [List.foldlM_cons] at hplace
    cases hstep : dest.placeWhole origin p (i, f) with
    | error err =>
      rw [hstep] at hplace
      cases hplace
    | ok q =>
      rw [hstep] at hplace
      have hfew := newCount_append dest (done ++ [(i, f)]) rest
      exact ih (h.step hd hkey (by omega) hstep) hkeys hroom hplace

end Placed

variable {dest source : Module} {p : Placement}

/-- Some function of the source has a body and the name of a symbol with a body. -/
def Redefines (dest source : Module) : Prop := ∃ i f, source.whole? i = some f ∧ dest.Clashes f

/-- A symbol for which a body comes that redefines nothing has none. -/
theorem hasBody_of_clean (hclean : ¬ dest.Redefines source) {i id : FunctionId} {f : Function}
    (hf : source.whole? i = some f) (hbody : f.isDeclaration = false)
    (hid : dest.idOf? f.name = some id) : dest.hasBody id = false := by
  cases hhas : dest.hasBody id with
  | false => rfl
  | true => exact absurd ⟨i, f, hf, hbody, id, hid, hhas⟩ hclean

/-- Some body calls a number without a function. -/
def Dangles (source : Module) : Prop :=
  ∃ i f, source.whole? i = some f ∧ ∃ callee ∈ f.callees, source.functions.contains callee = false

/-- The number of functions of the source with new names. -/
def newSymbols (dest source : Module) : Nat := dest.newCount source.force.functions.entries

theorem mem_entries_force {m : Module} {i : FunctionId} {f : Function} :
    (i, f) ∈ m.force.functions.entries ↔ m.whole? i = some f := by
  rw [IdMap.mem_entries_iff, ← function?_force]
  rfl

/-- Whether names are distinct can be read off the entries. -/
theorem distinctNames_iff {m : Module} :
    m.DistinctNames ↔ ∀ a ∈ m.force.functions.entries, ∀ b ∈ m.force.functions.entries,
      a.2.name = b.2.name → a.1 = b.1 := by
  constructor
  · intro h a ha b hb
    exact h a.1 b.1 a.2 b.2 (mem_entries_force.mp ha) (mem_entries_force.mp hb)
  · intro h i j f g hf hg
    exact h (i, f) (mem_entries_force.mpr hf) (j, g) (mem_entries_force.mpr hg)

instance (m : Module) : Decidable m.DistinctNames := decidable_of_iff _ distinctNames_iff.symm

/-- Placing functions fails exactly if one of them clashes. -/
theorem foldlM_placeWhole_cases (dest : Module) (origin : String)
    (es : List (FunctionId × Function)) (p : Placement) :
    ((∃ e ∈ es, dest.Clashes e.2) ∧ ∃ name, es.foldlM (dest.placeWhole origin) p =
      .error (.duplicateDefinition name dest.name origin)) ∨
    ((∀ e ∈ es, ¬ dest.Clashes e.2) ∧ ∃ p', es.foldlM (dest.placeWhole origin) p = .ok p') := by
  induction es generalizing p with
  | nil => exact Or.inr ⟨by simp, p, rfl⟩
  | cons e rest ih =>
    rw [List.foldlM_cons]
    rcases dest.placeWhole_cases origin p e with ⟨hclash, herror⟩ | ⟨hclash, q, hok⟩
    · refine Or.inl ⟨⟨e, List.mem_cons_self, hclash⟩, e.2.name, ?_⟩
      rw [herror]
      rfl
    · rw [hok]
      rcases ih q with ⟨⟨e', he', hclash'⟩, herror⟩ | ⟨hnone, hend⟩
      · exact Or.inl ⟨⟨e', List.mem_cons_of_mem _ he', hclash'⟩, herror⟩
      · exact Or.inr ⟨List.forall_mem_cons.mpr ⟨hclash, hnone⟩, hend⟩

/-- Placing the functions of a source fails exactly if one of them redefines a symbol. -/
theorem placement_cases (dest source : Module) :
    (dest.Redefines source ∧ ∃ name, dest.placement source =
      .error (.duplicateDefinition name dest.name source.name)) ∨
    (¬ dest.Redefines source ∧ ∃ p, dest.placement source = .ok p) := by
  rw [placement_eq]
  refine (dest.foldlM_placeWhole_cases source.name _ _).imp (And.imp_left ?_) (And.imp_left ?_)
  · rintro ⟨e, he, hclash⟩
    exact ⟨e.1, e.2, mem_entries_force.mp he, hclash⟩
  · rintro hnone ⟨i, f, hf, hclash⟩
    exact hnone (i, f) (mem_entries_force.mpr hf) hclash

/-- A placement that succeeds redefines nothing and gives all functions their numbers. -/
theorem placed_of_ok (hd : dest.WellFormed)
    (hroom : dest.nextFunction.toNat + dest.newSymbols source < 2 ^ 32)
    (hplace : dest.placement source = .ok p) :
    ¬ dest.Redefines source ∧ Placed dest source.force.functions.entries p := by
  have hkeys : source.force.functions.entries.Pairwise (fun a b => a.1 ≠ b.1) :=
    source.force.functions.ascending.imp (fun hlt => UInt32.ne_of_lt hlt)
  rcases dest.placement_cases source with ⟨-, name, herror⟩ | ⟨hclean, -⟩
  · cases herror.symm.trans hplace
  · rw [placement_eq] at hplace
    exact ⟨hclean, (Placed.start dest).run hd hkeys hroom hplace⟩

/-- The number of a function is that of the symbol of its name, or a new one. -/
theorem Placed.number_spec (h : Placed dest source.force.functions.entries p) {i : FunctionId}
    {f : Function} (hf : source.whole? i = some f) :
    p.targets.get? i = some (p.number i) ∧ (dest.idOf? f.name = some (p.number i) ∨
      dest.idOf? f.name = none ∧ dest.nextFunction ≤ p.number i ∧ p.number i < p.nextId) := by
  obtain ⟨id, hid, hcase⟩ := h.target i f (mem_entries_force.mpr hf)
  have hnumber : p.number i = id := by
    rw [Placement.number, hid]
    rfl
  rw [hnumber]
  exact ⟨hid, hcase⟩

/-- What is brought in are functions of the source under their numbers. -/
theorem Placed.mem_incoming (h : Placed dest source.force.functions.entries p) {id : FunctionId}
    {f : Function} : (id, f) ∈ p.incoming ↔
      ∃ i, source.whole? i = some f ∧ p.number i = id ∧ dest.brings f = true := by
  rw [h.incoming, List.mem_map]
  constructor
  · rintro ⟨⟨i, g⟩, hmem, he⟩
    obtain ⟨hi, hbring⟩ := List.mem_filter.mp hmem
    cases he
    exact ⟨i, mem_entries_force.mp hi, rfl, hbring⟩
  · rintro ⟨i, hi, rfl, hbring⟩
    exact ⟨(i, f), List.mem_filter.mpr ⟨mem_entries_force.mpr hi, hbring⟩, rfl⟩

/-- The functions of the source have numbers, and no others. -/
theorem Placed.contains_targets (h : Placed dest source.force.functions.entries p)
    (id : FunctionId) : p.targets.contains id = source.functions.contains id := by
  rw [Bool.eq_iff_iff, IdMap.contains_iff]
  have hsource : source.functions.contains id = true ↔ ∃ f, source.whole? id = some f := by
    rw [← Option.isSome_iff_exists, isSome_whole?]
    rfl
  rw [hsource]
  constructor
  · rintro ⟨target, ht⟩
    obtain ⟨f, hf⟩ := h.only id target ht
    exact ⟨f, mem_entries_force.mp hf⟩
  · rintro ⟨f, hf⟩
    obtain ⟨target, ht, -⟩ := h.target id f (mem_entries_force.mpr hf)
    exact ⟨target, ht⟩

/-- A function that calls anything is brought in. -/
theorem brings_of_mem_callees {f : Function} {callee : FunctionId} (h : callee ∈ f.callees) :
    dest.brings f = true := by
  simp [brings, Function.isDeclaration_of_mem_callees h]

/-- The functions to bring in with their calls renumbered. -/
def arrivals (p : Placement) : List Function :=
  p.incoming.map (fun e => e.2.renumber p.targets e.1)

/-- Renumbering the calls fails if one dangles. -/
theorem renumbered_spec (h : Placed dest source.force.functions.entries p) :
    (source.Dangles ∧ ∃ name callee,
      source.renumbered p = .error (.danglingCall name callee source.name)) ∨
    (¬ source.Dangles ∧ source.renumbered p = .ok (arrivals p)) := by
  unfold renumbered
  cases hfind : p.incoming.findSome? (fun e =>
      (e.2.danglingCall? p.targets).map (e.2.name, ·)) with
  | some found =>
    refine Or.inl ⟨?_, found.1, found.2, rfl⟩
    obtain ⟨⟨id, f⟩, hf, hdangling⟩ := List.exists_of_findSome?_eq_some hfind
    obtain ⟨callee, hcallee, -⟩ := Option.map_eq_some_iff.mp hdangling
    obtain ⟨i, hi, -⟩ := h.mem_incoming.mp hf
    have hfree := List.find?_some hcallee
    rw [h.contains_targets] at hfree
    exact ⟨i, f, hi, callee, List.mem_of_find?_eq_some hcallee,
      by simpa using hfree⟩
  | none =>
    refine Or.inr ⟨?_, rfl⟩
    rintro ⟨i, f, hf, callee, hcallee, hfree⟩
    have hmem := h.mem_incoming.mpr ⟨i, hf, rfl, brings_of_mem_callees hcallee⟩
    have hnone := List.findSome?_eq_none_iff.mp hfind (p.number i, f) hmem
    rw [Option.map_eq_none_iff] at hnone
    have hknown := List.find?_eq_none.mp hnone callee hcallee
    rw [h.contains_targets] at hknown
    simp [hfree] at hknown

end Module

end KernelFusion

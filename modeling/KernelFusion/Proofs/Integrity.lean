import KernelFusion.Bundle.Text
import KernelFusion.Proofs.ControlFlow
import KernelFusion.Proofs.Resolution
import KernelFusion.Proofs.StoreInvariant

/-!
# What the integrity check is good for

A module that was read from a bundle is whatever the bundle says: keys, stored numbers, the next
number and pending bodies need not agree. The integrity check looks at bodies and asks that every
pending body stands under the number of some function. It does not ask that numbers in use are below
the next one, nor that a pending body belongs to a declaration of its name. With these two questions
answered as well, a module is fit to be a destination: whatever is done to it, its functions stay
under their numbers with their names, and no number is given twice.
-/

namespace KernelFusion

namespace Module

/-- Pending bodies may have come to stand as the functions under their numbers. Nothing else
happened to functions and bodies, and no number was taken. -/
structure Unpacked (m left : Module) : Prop where
  /-- The next number is the same. -/
  next : left.nextFunction = m.nextFunction
  /-- Under each number all is as it was, or the body that was pending is the function. -/
  cases : ∀ id,
    (left.function? id = m.function? id ∧ left.pending.get? id = m.pending.get? id) ∨
      ∃ body, m.pending.get? id = some body ∧ left.function? id = some body ∧
        left.pending.get? id = none

variable {m mid left : Module} {id : FunctionId}

theorem Unpacked.refl (m : Module) : m.Unpacked m := ⟨rfl, fun _ => Or.inl ⟨rfl, rfl⟩⟩

theorem Unpacked.trans (h : m.Unpacked mid) (h' : mid.Unpacked left) : m.Unpacked left where
  next := h'.next.trans h.next
  cases id := by
    rcases h.cases id with ⟨hf, hp⟩ | ⟨body, hp, hf, hnone⟩
    · rcases h'.cases id with ⟨hf', hp'⟩ | ⟨body, hp', hf', hnone'⟩
      · exact Or.inl ⟨hf'.trans hf, hp'.trans hp⟩
      · exact Or.inr ⟨body, hp.symm.trans hp', hf', hnone'⟩
    · rcases h'.cases id with ⟨hf', hp'⟩ | ⟨body', hp', -, -⟩
      · exact Or.inr ⟨body, hp, hf'.trans hf, hp'.trans hnone⟩
      · cases hnone.symm.trans hp'

/-- Materializing a name unpacks at most one body. -/
theorem unpacked_materialize (m : Module) (name : String) : m.Unpacked (m.materialize name) := by
  cases hid : m.idOf? name with
  | none =>
    rw [materialize_of_none hid]
    exact .refl m
  | some i =>
    cases hp : m.pending.get? i with
    | none =>
      rw [materialize_of_pending_none hid hp]
      exact .refl m
    | some body =>
      rw [materialize_of_pending hid hp]
      refine ⟨rfl, fun id => ?_⟩
      by_cases he : i = id
      · obtain rfl := he
        exact Or.inr ⟨body, hp, by simp [function?, IdMap.get?_insert], by simp [IdMap.get?_erase]⟩
      · refine Or.inl ⟨?_, ?_⟩
        · simp [function?, IdMap.get?_insert, he]
        · simp [IdMap.get?_erase, he]

end Module

/-- Before a request adds a function it only unpacks bodies. -/
theorem Resolves.unpacked {α : Type} {name : String} {entries : List String} {r : Attempt α}
    (h : Resolves name entries r) (m : Module) : m.Unpacked (r m).2 := by
  induction h generalizing m with
  | answer x => exact .refl m
  | @findEntry entry _ =>
    have hunpacked := m.unpacked_materialize entry
    unfold KernelFusion.findEntry
    dsimp only
    cases (m.materialize entry).callable? entry <;> exact hunpacked
  | @andThen _ _ first next _ _ ih ihnext =>
    have hfirst := ih m
    rcases hm : first m with ⟨e | x, mid⟩
    · rw [hm] at hfirst
      rw [Attempt.andThen_of_error hm]
      exact hfirst
    · rw [hm] at hfirst
      rw [Attempt.andThen_of_ok hm]
      exact hfirst.trans (ihnext x mid)
  | @unlessTaken _ r _ ih =>
    dsimp only
    split
    · exact .refl m
    · exact ih m

/-- What can be done to a destination. -/
inductive Use where
  /-- Fuse a chain or wrap an invokable function. -/
  | request (config : FusionConfig) (r : Request)
  /-- Link a source into it. -/
  | link (source : Module)
  /-- Start a function. -/
  | start (name : String) (prototype : Prototype) (linkage : Linkage)
  /-- Declare a function. -/
  | declare (name : String) (prototype : Prototype) (linkage : Linkage)

/-- The numbers that were taken for functions with new names. -/
def Placement.taken (p : Placement) (dest : Module) : List FunctionId :=
  (p.incoming.filter (fun e => (dest.idOf? e.2.name).isNone)).map (·.1)

namespace Use

/-- The numbers that were taken for new functions, and the module that is left. -/
def run (m : Module) : Use → List FunctionId × Module
  | request config r => ((r.run config m).1.toOption.toList, (r.run config m).2)
  | link source =>
    match m.placement source with
    | .ok p => (p.taken m, (m.linkInto source).2)
    | .error _ => ([], (m.linkInto source).2)
  | start name prototype linkage =>
    let (b, id) := (Builder.new m).start name prototype linkage
    ([id], b.module)
  | declare name prototype linkage =>
    let (b, id) := (Builder.new m).declare name prototype linkage
    ([id], b.module)

/-- How many numbers are taken at most. -/
def demand (m : Module) : Use → Nat
  | link source => m.newSymbols source
  | request _ _ | start _ _ _ | declare _ _ _ => 1

end Use

namespace Module

/-- Every function is under its number as it was, or its pending body has moved over its declaration
and has the same name. -/
def Preserved (m left : Module) : Prop :=
  ∀ id f, m.function? id = some f → left.function? id = some f ∨
    (f.isDeclaration = true ∧ ∃ body, m.pending.get? id = some body ∧ body.name = f.name ∧
      left.function? id = some body)

/-- The number is not in use: nothing stands under it, and no function has it stored. -/
def Unused (m : Module) (id : FunctionId) : Prop :=
  m.Free id ∧ ∀ key f, m.function? key = some f → f.id ≠ id

/-- The integrity check passes, and so do the two checks that it lacks. -/
structure Verified (m : Module) : Prop where
  /-- The integrity check finds no fault. -/
  noFault : m.fault? = none
  /-- Numbers in use are below the next one. -/
  number_lt : ∀ {key : FunctionId} {f : Function}, m.function? key = some f →
    key < m.nextFunction ∧ f.id < m.nextFunction
  /-- A pending body belongs to a declaration of its name. -/
  declared : ∀ {key : FunctionId} {f body : Function}, m.function? key = some f →
    m.pending.get? key = some body → f.isDeclaration = true ∧ body.name = f.name

/-- Being verified is a matter of the entries. -/
theorem verified_iff {m : Module} :
    m.Verified ↔ m.fault? = none ∧
      (∀ e ∈ m.functions.entries, e.1 < m.nextFunction ∧ e.2.id < m.nextFunction) ∧
      ∀ e ∈ m.functions.entries, (m.pending.get? e.1).all (fun body =>
        e.2.isDeclaration && body.name == e.2.name) = true := by
  constructor
  · rintro ⟨hfault, hnumber, hdeclared⟩
    refine ⟨hfault, fun e he => hnumber (IdMap.mem_entries_iff.mp he), fun e he => ?_⟩
    cases hb : m.pending.get? e.1 with
    | none => rfl
    | some body => simpa using hdeclared (IdMap.mem_entries_iff.mp he) hb
  · rintro ⟨hfault, hnumber, hdeclared⟩
    refine ⟨hfault, fun hf => hnumber _ (IdMap.mem_entries_iff.mpr hf), fun hf hb => ?_⟩
    have hall := hdeclared _ (IdMap.mem_entries_iff.mpr hf)
    rw [hb] at hall
    simpa using hall

instance (m : Module) : Decidable m.Verified := decidable_of_iff _ verified_iff.symm

section Fresh

variable {m left source : Module} {p : Placement}

/-- The check finds a pending body under a number without a function. -/
theorem pending_of_fault? (h : m.fault? = none) {id : FunctionId} (hid : m.function? id = none) :
    m.pending.get? id = none := by
  cases hp : m.pending.get? id with
  | none => rfl
  | some body =>
    have hcontains := (fault?_eq_none_iff.mp h).2 id (IdMap.contains_iff.mpr ⟨body, hp⟩)
    obtain ⟨f, hf⟩ := IdMap.contains_iff.mp hcontains
    cases hid.symm.trans hf

/-- Numbers from the next one on are not in use. -/
theorem Verified.unused (h : m.Verified) {id : FunctionId} (hle : m.nextFunction ≤ id) :
    m.Unused id := by
  have hfunction : m.function? id = none := by
    cases hf : m.function? id with
    | none => rfl
    | some f => exact absurd hle (UInt32.not_le.mpr (h.number_lt hf).1)
  refine ⟨⟨hfunction, pending_of_fault? h.noFault hfunction⟩, ?_⟩
  rintro key f hf rfl
  exact UInt32.not_le.mpr (h.number_lt hf).2 hle

/-- Functions keep their names. -/
theorem Preserved.name_eq (h : m.Preserved left) (id : FunctionId) {name : String}
    (hname : (m.function? id).map (·.name) = some name) :
    (left.function? id).map (·.name) = some name := by
  obtain ⟨f, hf, rfl⟩ := Option.map_eq_some_iff.mp hname
  rcases h id f hf with hsame | ⟨-, body, -, hbody, hmoved⟩
  · rw [hsame]
    rfl
  · rw [hmoved, ← hbody]
    rfl

/-- Functions that are brought in do not take the place of others. -/
theorem function?_registerAll {id : FunctionId} {f : Function} (fs : List Function)
    (hf : m.function? id = some f) : (m.registerAll fs).1.function? id = some f := by
  induction fs generalizing m with
  | nil => exact hf
  | cons g rest ih =>
    refine ih (m := (m.register g).1) ?_
    rw [function?_register, if_neg, hf]
    rintro ⟨-, hnone⟩
    cases hf.symm.trans hnone

/-- A link keeps all functions as they are. -/
theorem preserved_linkInto (m source : Module) : m.Preserved (m.linkInto source).2 := by
  intro id f hf
  rcases hlink : m.linkInto source with ⟨e | stats, left⟩
  · obtain rfl := linkInto_error hlink
    exact Or.inl hf
  · obtain ⟨p, -, -, rfl⟩ := linkInto_ok hlink
    exact Or.inl (function?_registerAll _ hf)

/-- The numbers that are taken while functions are placed are the next ones, in order. -/
theorem taken_foldlM {origin : String} (es : List (FunctionId × Function)) {p p' : Placement}
    {count : Nat} (hnext : p.nextId.toNat = m.nextFunction.toNat + count)
    (htaken : (p.taken m).map UInt32.toNat = List.range' m.nextFunction.toNat count)
    (hroom : m.nextFunction.toNat + count + m.newCount es < 2 ^ 32)
    (hplace : es.foldlM (m.placeWhole origin) p = .ok p') :
    (p'.taken m).map UInt32.toNat =
      List.range' m.nextFunction.toNat (count + m.newCount es) := by
  induction es generalizing p count with
  | nil =>
    cases hplace
    exact htaken
  | cons e rest ih =>
    rw [List.foldlM_cons] at hplace
    rcases hstep : m.placeWhole origin p e with err | q
    · rw [hstep] at hplace
      cases hplace
    rw [hstep] at hplace
    have hcount : m.newCount (e :: rest) = m.newCount [e] + m.newCount rest :=
      newCount_append m [e] rest
    rw [hcount] at hroom ⊢
    unfold placeWhole at hstep
    cases hid : m.idOf? e.2.name with
    | some id =>
      have hnone : m.newCount [e] = 0 := by simp [newCount, hid]
      have hsame : q.nextId = p.nextId ∧ q.taken m = p.taken m := by
        rw [hid] at hstep
        dsimp only at hstep
        split at hstep
        · cases hstep
        · cases hstep
          refine ⟨rfl, ?_⟩
          unfold Placement.taken
          dsimp only
          split
          · rfl
          · simp [hid]
      rw [hnone, Nat.zero_add] at hroom ⊢
      exact ih (hsame.1 ▸ hnext) (hsame.2 ▸ htaken) hroom hplace
    | none =>
      have hone : m.newCount [e] = 1 := by simp [newCount, hid]
      rw [hone] at hroom ⊢
      rw [hid] at hstep
      cases hstep
      rw [← Nat.add_assoc]
      refine ih ?_ ?_ (by omega) hplace
      · show (p.nextId + 1).toNat = _
        rw [UInt32.toNat_add, UInt32.toNat_one, Nat.mod_eq_of_lt (by omega)]
        omega
      · have happend : Placement.taken { p with
            nextId := p.nextId + 1
            targets := p.targets.insert e.1 p.nextId
            incoming := p.incoming ++ [(p.nextId, e.2)] } m = p.taken m ++ [p.nextId] := by
          simp [Placement.taken, hid]
        rw [happend, List.map_append, htaken, List.range'_concat, List.map_singleton, hnext,
          Nat.one_mul]

/-- A link takes the next numbers. -/
theorem taken_placement (hroom : m.nextFunction.toNat + m.newSymbols source < 2 ^ 32)
    (hplace : m.placement source = .ok p) :
    (p.taken m).map UInt32.toNat =
      List.range' m.nextFunction.toNat (m.newSymbols source) := by
  rw [placement_eq] at hplace
  have hstart : (⟨m.nextFunction, .empty, [], 0⟩ : Placement).nextId.toNat =
      m.nextFunction.toNat + 0 := rfl
  have htaken := taken_foldlM _ hstart rfl hroom hplace
  rwa [Nat.zero_add] at htaken

/-- A function that is stored under a number without one leaves all others. -/
theorem preserved_addNext {f : Function} (hf : f.id = m.nextFunction)
    (hfree : m.function? m.nextFunction = none) : m.Preserved (m.addNext f) := by
  intro id g hg
  rw [function?_addNext hf, if_neg]
  · exact Or.inl hg
  · rintro rfl
    cases hfree.symm.trans hg

/-- A request preserves functions, and takes the next number if it succeeds. -/
theorem Verified.request (h : m.Verified) (config : FusionConfig) (r : Request) :
    m.Preserved (r.run config m).2 ∧
      ∀ id, (r.run config m).1 = .ok id → id = m.nextFunction := by
  obtain ⟨hfree, -⟩ := (h.unused UInt32.le_rfl).1
  have hunpacked := (Resolves.find r config).unpacked m
  have hkept : m.Preserved (r.find config m).2 := by
    intro id f hf
    rcases hunpacked.cases id with ⟨hsame, -⟩ | ⟨body, hp, hmoved, -⟩
    · exact Or.inl (hsame.trans hf)
    · obtain ⟨hdeclaration, hname⟩ := h.declared hf hp
      exact Or.inr ⟨hdeclaration, body, hp, hname, hmoved⟩
  rw [Request.run_eq]
  rcases hfind : r.find config m with ⟨e | a, left⟩
  · rw [Attempt.andThen_of_error hfind]
    rw [hfind] at hkept
    exact ⟨hkept, fun id hid => nomatch hid⟩
  · rw [Attempt.andThen_of_ok hfind]
    rw [hfind] at hkept hunpacked
    have hnext : left.nextFunction = m.nextFunction := hunpacked.next
    refine ⟨fun id f hf => ?_, fun id hid => ?_⟩
    · have hne : left.nextFunction ≠ id := by
        rintro rfl
        rw [hnext, hfree] at hf
        cases hf
      dsimp only
      rw [a.function?_apply, if_neg hne]
      exact hkept id f hf
    · cases hid
      exact hnext

/-- Whatever is done to a module that passes the integrity check and the two checks it lacks, every
function stays under its number with its name, as it was or with its pending body moved over its
declaration, and the numbers that are taken are different and were not in use. -/
theorem Verified.use (h : m.Verified) (u : Use)
    (hroom : m.nextFunction.toNat + u.demand m < 2 ^ 32) :
    m.Preserved (u.run m).2 ∧ (u.run m).1.Nodup ∧ ∀ id ∈ (u.run m).1, m.Unused id := by
  have hnext : m.Unused m.nextFunction := h.unused UInt32.le_rfl
  cases u with
  | request config r =>
    obtain ⟨hkept, htaken⟩ := h.request config r
    simp only [Use.run]
    rcases hanswer : (r.run config m).1 with e | id
    · exact ⟨hkept, .nil, fun _ hid => nomatch hid⟩
    · refine ⟨hkept, List.nodup_singleton id, fun id' hid => ?_⟩
      obtain rfl := List.mem_singleton.mp hid
      exact htaken id' hanswer ▸ hnext
  | link source =>
    have hkept := m.preserved_linkInto source
    simp only [Use.run]
    rcases hplace : m.placement source with e | p
    · exact ⟨hkept, .nil, fun _ hid => nomatch hid⟩
    · have htaken := taken_placement hroom hplace
      refine ⟨hkept, ?_, fun id hid => h.unused ?_⟩
      · refine List.Nodup.of_map UInt32.toNat ?_
        rw [htaken]
        exact List.nodup_range'
      · have hmem : id.toNat ∈ (p.taken m).map UInt32.toNat := List.mem_map.mpr ⟨id, hid, rfl⟩
        rw [htaken, List.mem_range'_1] at hmem
        exact UInt32.le_iff_toNat_le.mpr hmem.1
  | start name prototype linkage =>
    refine ⟨preserved_addNext rfl hnext.1.1, List.nodup_singleton _, fun id hid => ?_⟩
    obtain rfl := List.mem_singleton.mp hid
    exact hnext
  | declare name prototype linkage =>
    refine ⟨preserved_addNext rfl hnext.1.1, List.nodup_singleton _, fun id hid => ?_⟩
    obtain rfl := List.mem_singleton.mp hid
    exact hnext

end Fresh

/-- The linked sample modules are verified, so a link into them and a fusion preserve them. -/
theorem Verified.use_merged :
    Samples.merged.Verified ∧
      Samples.merged.Preserved ((Use.link Samples.fused).run Samples.merged).2 ∧
      Samples.merged.Preserved
        ((Use.request .standard (.fuse Samples.filter "fused")).run Samples.merged).2 ∧
      ((Use.request .standard (.fuse Samples.filter "fused")).run Samples.merged).1 = [10] ∧
      Samples.merged.Unused 10 := by
  have h : Samples.merged.Verified := by decide
  obtain ⟨hlink, -, -⟩ := h.use (.link Samples.fused) (by decide)
  obtain ⟨hfuse, -, hunused⟩ :=
    h.use (.request .standard (.fuse Samples.filter "fused")) (by decide)
  have htaken : ((Use.request .standard (.fuse Samples.filter "fused")).run Samples.merged).1 =
      [10] := rfl
  exact ⟨h, hlink, hfuse, htaken, hunused 10 (htaken ▸ List.mem_singleton.mpr rfl)⟩

/-- A module that has a function under the next number. -/
def overtaken : Module :=
  let b := Builder.new (Module.new "m")
  { (Samples.define b "f" [] .void .c Samples.nothing).module with nextFunction := 0 }

/-- A module that declares and exports a function for which a body of another name is pending. -/
def mislabelled : Module :=
  let prototype : Prototype := .ofParams [("n", .i32)] .void .c
  let m : Module :=
    { Module.new "n" with
      functions := IdMap.empty.insert 0 (.declaration 0 "f" prototype)
      pending := IdMap.empty.insert 0 (.new 0 "g" prototype)
      nextFunction := 1 }
  m.exportInvokable "f"

/-- The integrity check alone does not make a module fit to be a destination. Both modules can be
read from a bundle and pass it. In the one a function that is started takes the place of a function;
in the other a request turns a function into one of another name. -/
theorem noFault_not_enough :
    Bundle.decode (Bundle.toImage ⟨[overtaken]⟩) = .ok ⟨[overtaken]⟩ ∧
      Bundle.decode (Bundle.toImage ⟨[mislabelled]⟩) = .ok ⟨[mislabelled]⟩ ∧
      overtaken.fault? = none ∧ mislabelled.fault? = none ∧
      ((Use.start "g" (.ofParams [] .void .c) .pub).run overtaken).1 = [0] ∧
      ¬ overtaken.Unused 0 ∧
      ¬ overtaken.Preserved ((Use.start "g" (.ofParams [] .void .c) .pub).run overtaken).2 ∧
      ¬ mislabelled.Preserved
        ((Use.request .standard (.wrap ⟨mislabelled, 0⟩ "w")).run mislabelled).2 := by
  refine ⟨rfl, rfl, rfl, rfl, rfl, fun h => ?_, fun h => ?_, fun h => ?_⟩
  · cases h.1.1
  · exact absurd (h.name_eq 0 rfl) (by decide)
  · exact absurd (h.name_eq 0 rfl) (by decide)

end Module

end KernelFusion

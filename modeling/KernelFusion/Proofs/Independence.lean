import KernelFusion.Proofs.Resolution

/-!
# Requests that do not concern each other

Two requests can be run in either order if each gives its function a name that is neither the other
one's nor that of a function that the other one calls. Each has the same outcome and adds the same
function, whose number alone depends on the order, and the rest of the module is the same, but for
the order of the records that the two have appended.
-/

namespace KernelFusion

/-- The step gives the same answer and does the same to a module when an addition was made
before. -/
def Ignores {α : Type} (a : Addition) (r : Attempt α) : Prop :=
  ∀ m : Module, m.WellFormed → m.nextFunction.toNat + 1 < 2 ^ 32 →
    (r m).2.WellFormed ∧ (r m).2.nextFunction = m.nextFunction ∧
      r (a.apply m) = ((r m).1, a.apply (r m).2)

namespace Ignores

variable {α β : Type} {a : Addition} {name : String}

/-- An answer without a look at the module. -/
theorem pure (answer : Except FusionError α) : Ignores a (fun m => (answer, m)) :=
  fun _ hm _ => ⟨hm, rfl, rfl⟩

/-- A step that ignores the addition, followed by such steps. -/
theorem andThen {first : Attempt α} {next : α → Attempt β} (h : Ignores a first)
    (hnext : ∀ x, Ignores a (next x)) : Ignores a (first.andThen next) := by
  intro m hm hroom
  obtain ⟨hleft, hcounter, hsame⟩ := h m hm hroom
  rcases hfirst : first m with ⟨e | x, left⟩
  · rw [hfirst] at hleft hcounter hsame
    rw [Attempt.andThen_of_error hfirst, Attempt.andThen_of_error hsame]
    exact ⟨hleft, hcounter, rfl⟩
  · rw [hfirst] at hleft hcounter hsame
    rw [Attempt.andThen_of_ok hfirst, Attempt.andThen_of_ok hsame]
    dsimp only at hleft hcounter
    obtain ⟨hlast, hcounter', hsame'⟩ := hnext x left hleft (hcounter ▸ hroom)
    exact ⟨hlast, hcounter'.trans hcounter, hsame'⟩

/-- Finding another function. -/
theorem findEntry (hname : name ≠ a.function.name) : Ignores a (findEntry name) := by
  intro m hm hroom
  obtain ⟨hmodule, -, hcounter⟩ := m.materialize_frame name
  obtain ⟨hmodule', -, -⟩ := (a.apply m).materialize_frame name
  have hcall : ((a.apply m).materialize name).callable? name =
      (m.materialize name).callable? name := by
    rw [(Addition.wellFormed_apply hm hroom).callable?_materialize, hm.callable?_materialize,
      Addition.callable?_force_apply hm hroom hname]
  have hstays : ((a.apply m).materialize name).name = (m.materialize name).name :=
    hmodule'.trans hmodule.symm
  have hleft := Addition.materialize_apply hm hroom hname
  unfold KernelFusion.findEntry
  dsimp only
  rw [hcall, hstays, hleft]
  cases (m.materialize name).callable? name <;> exact ⟨hm.materialize name, hcounter, rfl⟩

/-- A step that is taken only if another name is free. -/
theorem unlessTaken {r : Attempt α} (hname : name ≠ a.function.name) (h : Ignores a r) :
    Ignores a (fun m =>
      if m.hasSymbol name then (.error (.nameCollision name m.name), m) else r m) := by
  intro m hm hroom
  have hsymbol : (a.apply m).hasSymbol name = m.hasSymbol name :=
    congrArg Option.isSome (Addition.idOf?_apply hm hroom hname)
  dsimp only
  rw [hsymbol]
  cases m.hasSymbol name with
  | true => exact ⟨hm, rfl, rfl⟩
  | false => exact h m hm hroom

/-- A step of a request ignores additions of other names than those it uses. -/
theorem of_resolves {entries : List String} {r : Attempt α} (hname : name ≠ a.function.name)
    (hentries : a.function.name ∉ entries) (h : Resolves name entries r) : Ignores a r := by
  induction h with
  | answer x => exact pure x
  | findEntry hentry => exact findEntry (fun he => hentries (he ▸ hentry))
  | andThen _ _ ih ihnext => exact andThen ih ihnext
  | unlessTaken _ ih => exact unlessTaken hname ih

end Ignores

/-- Make the addition that was found, if one was. -/
def settle (found : Except FusionError Addition) (m : Module) : Module :=
  match found with
  | .ok a => a.apply m
  | .error _ => m

/-- What two runs answered to the same request: the same outcome, and the functions that were added
differ in the number at most. -/
structure SameReply (answer : Except FusionError FunctionId) (left : Module)
    (answer' : Except FusionError FunctionId) (left' : Module) : Prop where
  /-- Both succeeded, or both failed with the same error. -/
  outcome : answer.map (fun _ => ()) = answer'.map (fun _ => ())
  /-- The same function stands under the number that was given to it. -/
  function : ∀ id id', answer = .ok id → answer' = .ok id' → ∃ f : Function,
    left.function? id = some (f.numbered id) ∧ left'.function? id' = some (f.numbered id')

/-- Two requests give the same in either order: `first` and then `second` are the answers and
modules of one order, `second'` and then `first'` those of the other. -/
structure EitherOrder (dest : Module)
    (first second first' second' : Except FusionError FunctionId × Module) : Prop where
  /-- The reply to one request. -/
  one : SameReply first.1 second.2 first'.1 first'.2
  /-- The reply to the other request. -/
  other : SameReply second.1 second.2 second'.1 first'.2
  /-- All other functions are the same. -/
  functions : ∀ id, first.1 ≠ .ok id → second.1 ≠ .ok id →
    second.2.function? id = first'.2.function? id
  /-- The same bodies are pending. -/
  pending : second.2.pending = first'.2.pending
  /-- The module has the same name. -/
  name : second.2.name = first'.2.name
  /-- The same number is the next. -/
  nextFunction : second.2.nextFunction = first'.2.nextFunction
  /-- The same tables exist. -/
  tables : ∀ table, (second.2.tables.get? table).isSome = (first'.2.tables.get? table).isSome
  /-- Each request appends its records, whichever comes first. -/
  records : ∃ own more : String → List String, ∀ table,
    first.2.records table = dest.records table ++ own table ∧
    second'.2.records table = dest.records table ++ more table ∧
    second.2.records table = dest.records table ++ own table ++ more table ∧
    first'.2.records table = dest.records table ++ more table ++ own table

namespace Request

variable {r s : Request} {c d : FusionConfig} {dest : Module}
  {x y : Except FusionError Addition} {moved later : List String}

/-- Whichever bodies of `dest` are moved, the request finds `x` and materializes the same names. -/
def Finds (r : Request) (c : FusionConfig) (dest : Module) (x : Except FusionError Addition)
    (moved : List String) : Prop :=
  ∀ m : Module, m.WellFormed → m.force = dest.force → r.find c m = (x, m.materializeAll moved)

theorem exists_finds (r : Request) (c : FusionConfig) (hd : dest.WellFormed) :
    ∃ x moved, r.Finds c dest x moved := by
  obtain ⟨moved, -, -, hmod⟩ := Probes.find hd.force (Module.force_force dest) r c
  exact ⟨_, moved, hmod⟩

/-- Running a request is finding what it adds and adding it. -/
theorem run_of_find {m left : Module} (h : r.find c m = (x, left)) :
    r.run c m = (x.map (fun _ => left.nextFunction), settle x left) := by
  rw [run_eq, Attempt.andThen, h]
  cases x <;> rfl

theorem Finds.run (h : r.Finds c dest x moved) (hd : dest.WellFormed) :
    r.run c dest = (x.map (fun _ => dest.nextFunction), settle x (dest.materializeAll moved)) := by
  rw [run_of_find (h dest hd rfl), (dest.materializeAll_frame moved).2.2]

/-- A request that follows another one finds what it finds without it, and adds it. -/
theorem Finds.run_after (hs : s.Finds d dest y later) (hr : r.Finds c dest x moved)
    (hd : dest.WellFormed) (hroom : dest.nextFunction.toNat + 2 < 2 ^ 32) (hne : r.name ≠ s.name)
    (hrs : r.name ∉ s.entryNames) :
    s.run d (settle x (dest.materializeAll moved)) =
      (y.map (fun _ =>
          (settle x ((dest.materializeAll moved).materializeAll later)).nextFunction),
        settle y (settle x ((dest.materializeAll moved).materializeAll later))) := by
  have hm := hd.materializeAll moved
  have hfound := hs _ hm (hd.force_materializeAll moved)
  cases x with
  | error e => exact run_of_find hfound
  | ok a =>
    have ha : a.function.name = r.name := name_find hd (hr dest hd rfl)
    have hcounter := (dest.materializeAll_frame moved).2.2
    have hignores : Ignores a (s.find d) :=
      .of_resolves (ha ▸ Ne.symm hne) (ha ▸ hrs) (.find s d)
    obtain ⟨-, -, hsame⟩ := hignores _ hm (by rw [hcounter]; omega)
    rw [hfound] at hsame
    exact run_of_find hsame

end Request

section Additions

variable {m : Module} {x y : Except FusionError Addition}

/-- The records for one table of the addition that was found, if one was. -/
def foundRecords (found : Except FusionError Addition) (table : String) : List String :=
  match found with
  | .ok a => a.recordsOf table
  | .error _ => []

theorem records_settle (x : Except FusionError Addition) (m : Module) (table : String) :
    (settle x m).records table = m.records table ++ foundRecords x table := by
  cases x with
  | error e => exact (List.append_nil _).symm
  | ok a => exact a.records_apply m table

/-- Additions are made under the next numbers, and the same numbers are taken in either order. -/
theorem settle_comm (x y : Except FusionError Addition) (m : Module) :
    (settle y (settle x m)).pending = (settle x (settle y m)).pending ∧
      (settle y (settle x m)).name = (settle x (settle y m)).name ∧
      (settle y (settle x m)).nextFunction = (settle x (settle y m)).nextFunction ∧
      ∀ table, ((settle y (settle x m)).tables.get? table).isSome =
        ((settle x (settle y m)).tables.get? table).isSome := by
  rcases x with e | a
  · exact ⟨rfl, rfl, rfl, fun _ => rfl⟩
  rcases y with e' | b
  · exact ⟨rfl, rfl, rfl, fun _ => rfl⟩
  refine ⟨rfl, rfl, ?_, fun table => ?_⟩
  · simp only [settle, Addition.nextFunction_apply]
  · simp only [settle, Addition.isSome_apply]
    exact Bool.or_right_comm _ _ _

/-- The function that was found stands under its number after another addition. -/
theorem sameReply_settle (x y : Except FusionError Addition)
    (hroom : m.nextFunction.toNat + 1 < 2 ^ 32) :
    SameReply (x.map (fun _ => m.nextFunction)) (settle y (settle x m))
      (x.map (fun _ => (settle y m).nextFunction)) (settle x (settle y m)) := by
  rcases x with e | a
  · exact ⟨rfl, fun _ _ h => nomatch h⟩
  refine ⟨rfl, fun id id' hid hid' => ⟨a.function, ?_, ?_⟩⟩
  · cases hid
    have hfirst : (a.apply m).function? m.nextFunction =
        some (a.function.numbered m.nextFunction) := by rw [a.function?_apply, if_pos rfl]
    rcases y with e | b
    · exact hfirst
    · have hlt := Module.WellFormed.next_lt hroom
      show (b.apply (a.apply m)).function? m.nextFunction = _
      rw [b.function?_apply, a.nextFunction_apply,
        if_neg (fun he => absurd (he ▸ hlt) (UInt32.lt_irrefl _)), hfirst]
  · cases hid'
    show (a.apply (settle y m)).function? (settle y m).nextFunction = _
    rw [a.function?_apply, if_pos rfl]

/-- A number that no addition gets has the same function in either order. -/
theorem function?_settle (id : FunctionId)
    (hx : x.map (fun _ => m.nextFunction) ≠ .ok id)
    (hy : y.map (fun _ => (settle x m).nextFunction) ≠ .ok id) :
    (settle y (settle x m)).function? id = (settle x (settle y m)).function? id := by
  rcases x with e | a
  · rfl
  rcases y with e' | b
  · rfl
  have ha : m.nextFunction ≠ id := fun he => hx (congrArg Except.ok he)
  have hb : m.nextFunction + 1 ≠ id := by
    rw [← a.nextFunction_apply]
    exact fun he => hy (congrArg Except.ok he)
  simp only [settle, Addition.function?_apply, Addition.nextFunction_apply, if_neg ha, if_neg hb]

end Additions

namespace Request

/-- Requests that do not use each other's names can be run in either order. -/
theorem either_order {r s : Request} {c d : FusionConfig} {dest : Module} (hd : dest.WellFormed)
    (hroom : dest.nextFunction.toNat + 2 < 2 ^ 32) (hne : r.name ≠ s.name)
    (hrs : r.name ∉ s.entryNames) (hsr : s.name ∉ r.entryNames) :
    EitherOrder dest (r.run c dest) (s.run d (r.run c dest).2) (r.run c (s.run d dest).2)
      (s.run d dest) := by
  obtain ⟨x, moved, hx⟩ := exists_finds r c hd
  obtain ⟨y, later, hy⟩ := exists_finds s d hd
  have hsecond := hy.run_after hx hd hroom hne hrs
  have hfirst' := hx.run_after hy hd hroom (Ne.symm hne) hsr
  rw [← hd.materializeAll_comm moved later] at hfirst'
  obtain ⟨-, htables, hnext⟩ := dest.materializeAll_frame moved
  obtain ⟨-, htables', -⟩ := dest.materializeAll_frame later
  -- Both orders come to the same module with the bodies of both requests moved.
  generalize hall : (dest.materializeAll moved).materializeAll later = all at hsecond hfirst'
  obtain ⟨-, halltables, hallnext⟩ := (dest.materializeAll moved).materializeAll_frame later
  rw [hall] at halltables hallnext
  have hnextall : dest.nextFunction = all.nextFunction := (hallnext.trans hnext).symm
  have hroomall : all.nextFunction.toNat + 1 < 2 ^ 32 := by rw [← hnextall]; omega
  have hrecords : ∀ table, all.records table = dest.records table := fun table =>
    congrArg (·.records table) (halltables.trans htables)
  have hmovedrecords : ∀ table, (dest.materializeAll moved).records table = dest.records table :=
    fun table => congrArg (·.records table) htables
  have hlaterrecords : ∀ table, (dest.materializeAll later).records table = dest.records table :=
    fun table => congrArg (·.records table) htables'
  rw [hx.run hd, hy.run hd, hsecond, hfirst', hnextall]
  obtain ⟨hpending, hname, hcounter, hexist⟩ := settle_comm x y all
  refine ⟨sameReply_settle x y hroomall, ?_, function?_settle, hpending, hname, hcounter, hexist,
    foundRecords x, foundRecords y, fun table => ?_⟩
  · obtain ⟨houtcome, hfunction⟩ := sameReply_settle y x hroomall
    refine ⟨houtcome.symm, fun id id' hid hid' => ?_⟩
    obtain ⟨f, hf, hf'⟩ := hfunction id' id hid' hid
    exact ⟨f, hf', hf⟩
  · simp only [records_settle, hrecords, hmovedrecords, hlaterrecords, List.append_assoc, and_self]

/-- Fusing the sample filter and wrapping the setup function can be done in either order. -/
theorem either_order_merged :
    EitherOrder Samples.merged
      ((fuse Samples.filter "fused").run .standard Samples.merged)
      ((wrap ⟨Samples.image, 0⟩ "wrapped").run .standard
        ((fuse Samples.filter "fused").run .standard Samples.merged).2)
      ((fuse Samples.filter "fused").run .standard
        ((wrap ⟨Samples.image, 0⟩ "wrapped").run .standard Samples.merged).2)
      ((wrap ⟨Samples.image, 0⟩ "wrapped").run .standard Samples.merged) ∧
    ((fuse Samples.filter "fused").run .standard Samples.merged).1 = .ok 10 ∧
    ((fuse Samples.filter "fused").run .standard
        ((wrap ⟨Samples.image, 0⟩ "wrapped").run .standard Samples.merged).2).1 = .ok 11 :=
  ⟨either_order (by decide) (by decide) (by decide) (by decide) (by decide), rfl, rfl⟩

end Request

end KernelFusion

import KernelFusion.Proofs.Acceptance
import KernelFusion.Proofs.Maps

/-!
# Paths through a valid body

A path starts at the entry block and follows terminators. Validation does not follow paths: it takes
the blocks in the order of their numbers, and so a register counts as defined in a block when a
block with a lower number writes it, whether or not control has been there. On a path through a body
without an error nothing else can go wrong: every register that is read has been written on the path
or belongs to a block with a lower number that the path has bypassed. No path bypasses such a block
exactly if it dominates the one that reads the register.
-/

namespace KernelFusion

/-- The registers that the block under a number writes. -/
def Graph.writesAt (g : Graph) (id : BlockId) : List Register :=
  ((g.blocks.get? id).map Block.writes).getD []

/-- A path from the entry: the numbers of the blocks that it has gone through, and of the one that
it has come to. -/
inductive Graph.Walk (g : Graph) : List BlockId → BlockId → Prop
  /-- A path starts at the entry. -/
  | entry : g.Walk [] g.entry
  /-- A path goes on where the terminator of its block goes. -/
  | step {visited : List BlockId} {id next : BlockId} {b : Block} (path : g.Walk visited id)
      (found : g.blocks.get? id = some b) (target : next ∈ b.successors) :
      g.Walk (visited ++ [id]) next

/-- Every path to a block goes through another one. -/
def Graph.Dominates (g : Graph) (other id : BlockId) : Prop :=
  ∀ visited, g.Walk visited id → other ∈ visited

/-- What has been written on a path behind some instructions of its last block. -/
def Function.written (f : Function) (visited : List BlockId) (before : List Instruction) :
    List Register :=
  f.paramRegisters ++ visited.flatMap f.graph.writesAt ++ writes before

/-- A block with a lower number writes the register, and the path has not gone through it. -/
def Function.Bypassed (f : Function) (visited : List BlockId) (id : BlockId) (r : Register) :
    Prop :=
  ∃ other < id, r ∈ f.graph.writesAt other ∧ other ∉ visited

/-- The registers that a block reads. -/
def Block.reads (b : Block) : List Register := b.instructions.flatMap (·.uses) ++ b.terminator.uses

/-- A block runs safely if registers may be read as `readable` says, given the instructions of the
block that have been executed. -/
structure Block.RunsSafely (m : Module) (f : Function)
    (readable : List Instruction → Register → Prop) (b : Block) : Prop where
  /-- Instructions read what may be read. -/
  reads : ∀ before i after, b.instructions = before ++ i :: after → ∀ r ∈ i.uses, readable before r
  /-- So does the terminator. -/
  leaves : ∀ r ∈ b.terminator.uses, readable b.instructions r
  /-- Calls fit the functions that they call. -/
  calls : ∀ i ∈ b.instructions, i.Fits m
  /-- The block has a terminator. -/
  terminated : b.terminator ≠ .unreachable
  /-- A return gives a value exactly if the function has a result. -/
  returns : ∀ value, b.terminator = .ret value → value.isSome = !f.result.isVoid

theorem Block.mem_reads_of_mem {b : Block} {i : Instruction} (hi : i ∈ b.instructions)
    {r : Register} (hr : r ∈ i.uses) : r ∈ b.reads :=
  List.mem_append_left _ (List.mem_flatMap.mpr ⟨i, hi, hr⟩)

namespace Block.RunsSafely

variable {m : Module} {f : Function} {b : Block}
  {readable readable' : List Instruction → Register → Prop}

/-- What may be read matters only for the registers that are read. -/
theorem imp (hb : b.RunsSafely m f readable)
    (h : ∀ before, ∀ r ∈ b.reads, readable before r → readable' before r) :
    b.RunsSafely m f readable' where
  reads before i after hl r hr := by
    have hi : i ∈ b.instructions := by
      rw [hl]
      exact List.mem_append_right _ List.mem_cons_self
    exact h before r (mem_reads_of_mem hi hr) (hb.reads before i after hl r hr)
  leaves r hr := h b.instructions r (List.mem_append_right _ hr) (hb.leaves r hr)
  calls := hb.calls
  terminated := hb.terminated
  returns := hb.returns

/-- What is read may be read behind some of the instructions. -/
theorem exists_readable (hb : b.RunsSafely m f readable) {r : Register} (hr : r ∈ b.reads) :
    ∃ before after, b.instructions = before ++ after ∧ readable before r := by
  rcases List.mem_append.mp hr with hr | hr
  · obtain ⟨i, hi, hr⟩ := List.mem_flatMap.mp hr
    obtain ⟨before, after, hl⟩ := List.append_of_mem hi
    exact ⟨before, i :: after, hl, hb.reads before i after hl r hr⟩
  · exact ⟨b.instructions, [], (List.append_nil _).symm, hb.leaves r hr⟩

end Block.RunsSafely

theorem Graph.mem_writesAt_iff {g : Graph} {id : BlockId} {r : Register} :
    r ∈ g.writesAt id ↔ ∃ b, g.blocks.get? id = some b ∧ r ∈ b.writes := by
  unfold writesAt
  cases g.blocks.get? id <;> simp

/-- The blocks that stand before a block are those with lower numbers. -/
theorem Graph.exists_split {g : Graph} {id : BlockId} {b : Block}
    (hb : g.blocks.get? id = some b) :
    ∃ before after, g.blocks.values = before ++ b :: after ∧
      ∀ r, r ∈ before.flatMap Block.writes ↔ ∃ other < id, r ∈ g.writesAt other := by
  obtain ⟨before, after, hl⟩ := List.append_of_mem (IdMap.mem_entries_iff.mpr hb)
  refine ⟨before.map (·.2), after.map (·.2), ?_, fun r => ?_⟩
  · rw [IdMap.values, hl, List.map_append, List.map_cons]
  · simp only [List.mem_flatMap, List.mem_map, Prod.exists, exists_eq_right,
      IdMap.mem_before_iff hl, mem_writesAt_iff]
    constructor
    · rintro ⟨b', ⟨other, hlt, hfound⟩, hr⟩
      exact ⟨other, hlt, b', hfound, hr⟩
    · rintro ⟨other, hlt, b', hfound, hr⟩
      exact ⟨b', ⟨other, hlt, hfound⟩, hr⟩

/-- A block in order writes no register that is defined before it. -/
theorem Block.Ordered.not_mem_of_mem_writes {f : Function} {defined : List Register} {b : Block}
    (h : b.Ordered f defined) {r : Register} (hr : r ∈ b.writes) : r ∉ defined := by
  obtain ⟨i, hi, hdest⟩ := List.mem_filterMap.mp hr
  obtain ⟨before, after, hl⟩ := List.append_of_mem hi
  exact fun hmem => (h.instructions before i after hl).fresh r hdest (List.mem_append_left _ hmem)

section Paths

variable {m : Module} {f : Function} {visited : List BlockId} {id : BlockId}

/-- A path through a body in order comes to blocks that exist. -/
theorem Function.Ordered.walk_contains (h : f.Ordered)
    (hentry : f.graph.blocks.contains f.graph.entry = true) (hwalk : f.graph.Walk visited id) :
    f.graph.blocks.contains id = true := by
  cases hwalk with
  | entry => exact hentry
  | step path found target =>
    obtain ⟨before, after, hl, -⟩ := Graph.exists_split found
    exact (h.blocks before _ after hl).terminator.targets _ target

/-- In a body in order no block writes a register of a parameter or of a block before it. -/
theorem Function.Ordered.not_written_before (h : f.Ordered) {r : Register}
    (hr : r ∈ f.graph.writesAt id) :
    r ∉ f.paramRegisters ∧ ∀ other < id, r ∉ f.graph.writesAt other := by
  obtain ⟨b, hb, hr⟩ := Graph.mem_writesAt_iff.mp hr
  obtain ⟨before, after, hl, hbefore⟩ := Graph.exists_split hb
  have hnew := (h.blocks before b after hl).not_mem_of_mem_writes hr
  exact ⟨fun hmem => hnew (List.mem_append_left _ hmem),
    fun other hlower hmem =>
      hnew (List.mem_append_right _ ((hbefore r).mpr ⟨other, hlower, hmem⟩))⟩

/-- In a body in order a register is written by one block only. -/
theorem Function.Ordered.writer_unique (h : f.Ordered) {other : BlockId} {r : Register}
    (hr : r ∈ f.graph.writesAt id) (hother : r ∈ f.graph.writesAt other) : other = id := by
  have hbefore : ¬ other < id := fun hlt => (h.not_written_before hr).2 other hlt hother
  have hbehind : ¬ id < other := fun hlt => (h.not_written_before hother).2 id hlt hr
  exact UInt32.le_antisymm (UInt32.not_lt.mp hbehind) (UInt32.not_lt.mp hbefore)

/-- A register of a block with a lower number has been written on a path only if the path went
through that block. -/
theorem Function.Ordered.mem_visited (h : f.Ordered) {other : BlockId} {b : Block} {r : Register}
    {before after : List Instruction} (hb : f.graph.blocks.get? id = some b)
    (hl : b.instructions = before ++ after) (hlower : other < id)
    (hother : r ∈ f.graph.writesAt other) (hr : r ∈ f.written visited before) :
    other ∈ visited := by
  unfold written at hr
  simp only [List.mem_append] at hr
  rcases hr with (hr | hr) | hr
  · exact absurd hr (h.not_written_before hother).1
  · obtain ⟨k, hk, hr⟩ := List.mem_flatMap.mp hr
    rw [h.writer_unique hr hother]
    exact hk
  · have hwrites : r ∈ b.writes := by
      rw [Block.writes, hl, writes, List.filterMap_append]
      exact List.mem_append_left _ hr
    have heq := h.writer_unique (Graph.mem_writesAt_iff.mpr ⟨b, hb, hwrites⟩) hother
    exact absurd (heq ▸ hlower) (UInt32.lt_irrefl _)

/-- A register that counts as defined in a block has been written on the path or was bypassed. -/
theorem Function.mem_written_or_bypassed {earlier : List Block} {before : List Instruction}
    (hearlier : ∀ r, r ∈ earlier.flatMap Block.writes ↔ ∃ other < id, r ∈ f.graph.writesAt other)
    {r : Register}
    (hr : r ∈ f.paramRegisters ++ earlier.flatMap Block.writes ++ writes before) :
    r ∈ f.written visited before ∨ f.Bypassed visited id r := by
  unfold written
  simp only [List.mem_append] at hr ⊢
  rcases hr with (hr | hr) | hr
  · exact Or.inl (Or.inl (Or.inl hr))
  · obtain ⟨other, hlower, hother⟩ := (hearlier r).mp hr
    by_cases hvisited : other ∈ visited
    · exact Or.inl (Or.inl (Or.inr (List.mem_flatMap.mpr ⟨other, hvisited, hother⟩)))
    · exact Or.inr ⟨other, hlower, hother, hvisited⟩
  · exact Or.inl (Or.inr hr)

/-- A block of a valid body runs safely, wherever the path to it led, if it may also read what was
bypassed. -/
theorem Function.runsSafely_of_errors_eq_nil (herrors : f.errors m = []) {b : Block}
    (hb : f.graph.blocks.get? id = some b) (path : List BlockId) :
    b.RunsSafely m f (fun before r => r ∈ f.written path before ∨ f.Bypassed path id r) := by
  obtain ⟨hordered, hfits⟩ := errors_eq_nil_iff.mp herrors
  obtain ⟨earlier, later, hl, hearlier⟩ := Graph.exists_split hb
  have hblock := hordered.blocks earlier b later hl
  exact {
    reads := fun before i after hi r hr => mem_written_or_bypassed hearlier
      ((hblock.instructions before i after hi).reads hr)
    leaves := fun r hr => mem_written_or_bypassed hearlier (hblock.terminator.reads hr)
    calls := fun i hi => hfits i (List.mem_flatMap.mpr ⟨b, IdMap.mem_values_iff.mpr ⟨id, hb⟩, hi⟩)
    terminated := hblock.terminator.terminated
    returns := hblock.terminator.returns }

/-- In a valid body a block runs safely on all paths exactly if the blocks before it whose registers
it reads dominate it. -/
theorem Function.forall_walk_runsSafely_iff (herrors : f.errors m = []) {b : Block}
    (hb : f.graph.blocks.get? id = some b) :
    (∀ path, f.graph.Walk path id → b.RunsSafely m f (fun before r => r ∈ f.written path before)) ↔
      ∀ other < id, ∀ r ∈ b.reads, r ∈ f.graph.writesAt other → f.graph.Dominates other id := by
  obtain ⟨hordered, -⟩ := errors_eq_nil_iff.mp herrors
  constructor
  · intro hsafe other hlower r hr hother path hpath
    obtain ⟨before, after, hl, hwritten⟩ := (hsafe path hpath).exists_readable hr
    exact hordered.mem_visited hb hl hlower hother hwritten
  · intro hdominates path hpath
    refine (runsSafely_of_errors_eq_nil herrors hb path).imp (fun before r hr hreadable => ?_)
    rcases hreadable with hwritten | ⟨other, hlower, hother, hnot⟩
    · exact hwritten
    · exact absurd (hdominates other hlower r hr hother path hpath) hnot

/-- On every path through a body without an error, the block that is come to exists and runs safely
up to registers of bypassed blocks. All paths to it have written whatever it reads exactly if the
blocks before it whose registers it reads dominate it. -/
theorem Function.walk_runsSafely (hentry : f.graph.blocks.contains f.graph.entry = true)
    (herrors : f.errors m = []) (hwalk : f.graph.Walk visited id) :
    ∃ b, f.graph.blocks.get? id = some b ∧
      b.RunsSafely m f
        (fun before r => r ∈ f.written visited before ∨ f.Bypassed visited id r) ∧
      ((∀ path, f.graph.Walk path id →
          b.RunsSafely m f (fun before r => r ∈ f.written path before)) ↔
        ∀ other < id, ∀ r ∈ b.reads, r ∈ f.graph.writesAt other →
          f.graph.Dominates other id) := by
  obtain ⟨hordered, -⟩ := errors_eq_nil_iff.mp herrors
  obtain ⟨b, hb⟩ := IdMap.contains_iff.mp (hordered.walk_contains hentry hwalk)
  exact ⟨b, hb, runsSafely_of_errors_eq_nil herrors hb visited,
    forall_walk_runsSafely_iff herrors hb⟩

end Paths

/-- A function of a flag with these blocks, from the given one on. -/
def Function.ofBlocks (name : String) (result : Ty) (entry : BlockId) (blocks : List Block) :
    Function :=
  { Function.new 0 name (.ofParams [("flag", .bool)] result .c) with
    graph := ⟨IdMap.ofList (blocks.map (fun b => (b.id, b))), entry, blocks.length.toUInt32⟩ }

/-- A body that starts at its middle block, may go around through the last one, and ends with the
first one. -/
def Function.looping : Function :=
  .ofBlocks "loop" .bool 1
    [⟨0, none, [], .ret (some 0), []⟩,
      ⟨1, none, [.const 1 (.i32 7)], .branchIf 0 2 0, []⟩,
      ⟨2, none, [.binary 2 .add 1 1], .branch 1, []⟩]

/-- Behind one round the last block of the loop is safe for the second time. -/
theorem Function.walk_runsSafely_looping :
    looping.graph.blocks.contains looping.graph.entry = true ∧
      looping.errors (Module.new "m") = [] ∧ looping.graph.Walk [1, 2, 1] 2 ∧
      ∃ b, looping.graph.blocks.get? 2 = some b ∧
        b.RunsSafely (Module.new "m") looping
          (fun before r => r ∈ looping.written [1, 2, 1] before ∨
            looping.Bypassed [1, 2, 1] 2 r) ∧
        ((∀ path, looping.graph.Walk path 2 →
            b.RunsSafely (Module.new "m") looping
              (fun before r => r ∈ looping.written path before)) ↔
          ∀ other < 2, ∀ r ∈ b.reads, r ∈ looping.graph.writesAt other →
            looping.graph.Dominates other 2) := by
  have hentry : looping.graph.blocks.contains looping.graph.entry = true := rfl
  have herrors : looping.errors (Module.new "m") = [] := rfl
  have hwalk : looping.graph.Walk [1, 2, 1] 2 :=
    .step (.step (.step .entry rfl (by decide)) rfl (by decide)) rfl (by decide)
  exact ⟨hentry, herrors, hwalk, walk_runsSafely hentry herrors hwalk⟩

/-- A body that branches, writes a register on one side only and reads it where the sides meet. -/
def Function.diamond : Function :=
  .ofBlocks "f" .i32 0
    [⟨0, none, [], .branchIf 0 1 2, []⟩,
      ⟨1, none, [.const 1 (.i32 7)], .branch 3, []⟩,
      ⟨2, none, [], .branch 3, []⟩,
      ⟨3, none, [], .ret (some 1), []⟩]

/-- A body without its entry block. -/
def Function.headless : Function := .ofBlocks "f" .bool 1 [⟨0, none, [], .ret (some 0), []⟩]

/-- Validation finds nothing in bodies in which a path reads a register that was not written on it,
or starts at a block that does not exist. -/
theorem Function.bypassed_read_accepted :
    (diamond.isDeclaration = false ∧ diamond.errors (Module.new "m") = [] ∧
      diamond.graph.Walk [0, 2] 3 ∧
      ∃ b, diamond.graph.blocks.get? 3 = some b ∧ ¬ b.RunsSafely (Module.new "m") diamond
        (fun before r => r ∈ diamond.written [0, 2] before)) ∧
    (headless.isDeclaration = false ∧ headless.errors (Module.new "m") = [] ∧
      headless.graph.Walk [] headless.graph.entry ∧
      headless.graph.blocks.get? headless.graph.entry = none) := by
  refine ⟨⟨rfl, rfl, ?_, _, rfl, fun hsafe => ?_⟩, rfl, rfl, .entry, rfl⟩
  · exact .step (.step .entry rfl (by decide)) rfl (by decide)
  · exact absurd (hsafe.leaves 1 (by decide)) (by decide)

end KernelFusion

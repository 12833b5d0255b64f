import KernelFusion.Export.Slots

/-!
# Extractors

An extractor gives out what the export tables of a module say, column by column. It has no slots
until it has read the tables, and if it cannot read them it stays as it is.
-/

namespace KernelFusion

/-- A reader of the export tables of a module. -/
structure Extractor where
  /-- The module. -/
  module : Module
  /-- The tables, as far as they were read. -/
  tables : Exports
deriving DecidableEq

namespace Extractor

/-- An extractor that has read nothing. -/
def new (m : Module) : Extractor := ⟨m, .empty⟩

/-- Read the tables. -/
def extract (x : Extractor) : Except ExportError Unit × Extractor :=
  match x.module.exports with
  | .ok tables => (.ok (), { x with tables := tables })
  | .error e => (.error e, x)

/-- The names of the kernel slots. -/
def names (x : Extractor) : List String := x.tables.names

/-- The numbers of inputs of the kernel slots. -/
def inputs (x : Extractor) : List UInt32 := x.tables.inputs

/-- The signatures of the kernel slots. -/
def signatures (x : Extractor) : List KernelSignature := x.tables.signatures

/-- The names of the invokable functions. -/
def invokable (x : Extractor) : List String := x.tables.invokable

/-- The error of asking for a slot, if there is no such slot. -/
def slotError? (x : Extractor) (kind : SlotKind) (slot : Nat) : Option ExportError :=
  let count := match kind with
    | .foreach => x.names.length
    | .invokable => x.invokable.length
  x.module.slotError? kind slot count

end Extractor

end KernelFusion

import KernelFusion.Export.Signature
import KernelFusion.IR.Module

/-!
# Export tables

A module exports kernels in two parallel tables, one with the names of the entry points and one with
their signatures, and invokable functions in a third. A slot is a position in a table; a slot with
an empty name is unused. Reading the tables gives each kernel slot its number of inputs too: the
parameters of its entry point that are neither coordinates nor the context.
-/

namespace KernelFusion

/-- The table with the names of kernels. -/
def foreachNameTable : String := "#rs_export_foreach_name"

/-- The table with the signatures of kernels. -/
def foreachTable : String := "#rs_export_foreach"

/-- The table with the names of invokable functions. -/
def invokableTable : String := "#rs_export_func"

/-- The two kinds of slots. -/
inductive SlotKind where
  /-- A kernel slot. -/
  | foreach
  /-- A slot of an invokable function. -/
  | invokable
deriving DecidableEq

/-- The word for a kind of slots. -/
def SlotKind.text : SlotKind → String
  | foreach => "foreach"
  | invokable => "invokable"

/-- What can be wrong with export tables. -/
inductive ExportError where
  /-- There are not as many names as signatures. -/
  | lengthMismatch (module : String) (names signatures : Nat)
  /-- A signature is no token. -/
  | invalidSignature (module : String) (slot : Nat) (token : String)
  /-- A kernel has no entry point in the module. -/
  | missingKernel (module name : String)
  /-- An entry point has fewer parameters than its signature needs. -/
  | malformedKernel (module : String) (slot : Nat) (name : String) (params needed : Nat)
  /-- There is no such slot. -/
  | slotOutOfRange (module : String) (kind : SlotKind) (slot count : Nat)
deriving DecidableEq

/-- The message of an export error. -/
def ExportError.message : ExportError → String
  | lengthMismatch module names signatures =>
    "module '" ++ module ++ "' exports " ++ names.repr ++ " foreach names but " ++
      signatures.repr ++ " signatures"
  | invalidSignature module slot token =>
    "module '" ++ module ++ "' slot " ++ slot.repr ++ ": invalid signature token '" ++ token ++ "'"
  | missingKernel module name =>
    "module '" ++ module ++ "' exports kernel '" ++ name ++ "' but does not declare it"
  | malformedKernel module slot name params needed =>
    "module '" ++ module ++ "' slot " ++ slot.repr ++ ": kernel '" ++ name ++ "' has " ++
      params.repr ++ " parameters but its signature needs " ++ needed.repr
  | slotOutOfRange module kind slot count =>
    "module '" ++ module ++ "' has no " ++ kind.text ++ " slot " ++ slot.repr ++ " (only " ++
      count.repr ++ ")"

/-- The export tables of a module, column by column. -/
structure Exports where
  /-- The names of the kernel slots; that of an unused slot is empty. -/
  names : List String
  /-- The signatures of the kernels. -/
  signatures : List KernelSignature
  /-- The numbers of inputs that the kernels read. -/
  inputs : List UInt32
  /-- The names of the invokable functions. -/
  invokable : List String
deriving DecidableEq

/-- Tables without slots. -/
def Exports.empty : Exports := ⟨[], [], [], []⟩

namespace Module

/-- The number of inputs that a kernel reads. An unused slot reads none, a kernel of the old style
one if its signature says so. -/
def inputCount (m : Module) (slot : Nat) (name : String) (signature : KernelSignature) :
    Except ExportError UInt32 :=
  if name = "" then .ok 0
  else if !signature.has .kernel then .ok (if signature.has .input then 1 else 0)
  else
    match m.idOf? name with
    | none => .error (.missingKernel m.name name)
    | some id =>
      let params := ((m.function? id).map (fun f => f.prototype.params.length)).getD 0
      let needed := signature.coordinates.length + (if signature.has .context then 1 else 0)
      if needed ≤ params then .ok (params - needed).toUInt32
      else .error (.malformedKernel m.name slot name params needed)

/-- Read the signature and the number of inputs of a kernel slot. -/
def foreachSlot (m : Module) (slot : Nat) (name token : String) :
    Except ExportError (KernelSignature × UInt32) :=
  match KernelSignature.ofToken? token with
  | none => .error (.invalidSignature m.name slot token)
  | some signature => (m.inputCount slot name signature).map (signature, ·)

/-- Read the columns of signatures and of numbers of inputs from a position on. -/
def foreachColumns (m : Module) (slot : Nat) :
    List (String × String) → Except ExportError (List KernelSignature × List UInt32)
  | [] => .ok ([], [])
  | (name, token) :: rest =>
    match m.foreachSlot slot name token with
    | .error e => .error e
    | .ok (signature, inputs) =>
      (m.foreachColumns (slot + 1) rest).map
        (fun columns => (signature :: columns.1, inputs :: columns.2))

/-- Read the export tables of a module. -/
def exports (m : Module) : Except ExportError Exports :=
  let names := m.records foreachNameTable
  let tokens := m.records foreachTable
  if names.length = tokens.length then
    (m.foreachColumns 0 (names.zip tokens)).map
      (fun columns => ⟨names, columns.1, columns.2, m.records invokableTable⟩)
  else .error (.lengthMismatch m.name names.length tokens.length)

/-- A slot puts an entry before each of the columns that are read after it. -/
theorem foreachColumns_cons_eq_ok_iff {m : Module} {slot : Nat} {p : String × String}
    {rest : List (String × String)} {columns : List KernelSignature × List UInt32} :
    m.foreachColumns slot (p :: rest) = .ok columns ↔ ∃ r later,
      m.foreachSlot slot p.1 p.2 = .ok r ∧ m.foreachColumns (slot + 1) rest = .ok later ∧
      columns = (r.1 :: later.1, r.2 :: later.2) := by
  rw [foreachColumns]
  rcases m.foreachSlot slot p.1 p.2 with e | r
  · simp
  · rcases m.foreachColumns (slot + 1) rest with e | later <;> simp [Except.map, eq_comm]

/-- The columns grow in lock-step, by one entry for every slot. -/
theorem length_foreachColumns {m : Module} {l : List (String × String)} {slot : Nat}
    {columns : List KernelSignature × List UInt32}
    (h : m.foreachColumns slot l = .ok columns) :
    columns.1.length = l.length ∧ columns.2.length = l.length := by
  induction l generalizing slot columns with
  | nil =>
    cases h
    exact ⟨rfl, rfl⟩
  | cons p rest ih =>
    obtain ⟨r, later, -, hlater, rfl⟩ := foreachColumns_cons_eq_ok_iff.mp h
    obtain ⟨hsignatures, hinputs⟩ := ih hlater
    exact ⟨congrArg (· + 1) hsignatures, congrArg (· + 1) hinputs⟩

/-- Tables are read if there are as many names as signatures and the other columns are read. -/
theorem exports_eq_ok_iff_columns {m : Module} {tables : Exports} :
    m.exports = .ok tables ↔
      (m.records foreachNameTable).length = (m.records foreachTable).length ∧ ∃ columns,
        m.foreachColumns 0 ((m.records foreachNameTable).zip (m.records foreachTable)) =
          .ok columns ∧
        tables = ⟨m.records foreachNameTable, columns.1, columns.2, m.records invokableTable⟩ := by
  by_cases hlength : (m.records foreachNameTable).length = (m.records foreachTable).length
  · simp only [exports, hlength, if_true, true_and]
    rcases m.foreachColumns 0 ((m.records foreachNameTable).zip (m.records foreachTable)) with
      e | columns <;> simp [Except.map, eq_comm]
  · simp [exports, hlength]

/-- All columns of kernel slots are equally long. -/
theorem length_exports {m : Module} {tables : Exports} (h : m.exports = .ok tables) :
    tables.signatures.length = tables.names.length ∧
      tables.inputs.length = tables.names.length := by
  obtain ⟨hlength, columns, hcolumns, rfl⟩ := exports_eq_ok_iff_columns.mp h
  have hslots := length_foreachColumns hcolumns
  rwa [List.length_zip, ← hlength, Nat.min_self] at hslots

/-- The names of invokable functions are read as they stand. -/
theorem invokable_of_exports {m : Module} {tables : Exports} (h : m.exports = .ok tables) :
    tables.invokable = m.records invokableTable := by
  obtain ⟨-, columns, -, rfl⟩ := exports_eq_ok_iff_columns.mp h
  rfl

/-- The error of asking for a slot that does not exist. -/
def slotError? (m : Module) (kind : SlotKind) (slot count : Nat) : Option ExportError :=
  if slot < count then none else some (.slotOutOfRange m.name kind slot count)

/-- Export a kernel. -/
def exportForeach (m : Module) (name : String) (signature : KernelSignature) : Module :=
  (m.appendRecord foreachNameTable name).appendRecord foreachTable signature.token

/-- Export an invokable function. -/
def exportInvokable (m : Module) (name : String) : Module := m.appendRecord invokableTable name

end Module

end KernelFusion

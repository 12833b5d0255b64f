import KernelFusion.Data.Tables
import KernelFusion.IR.Function

/-!
# Modules

A module is a store of functions by number. A body may be held back: then the store has the
declaration and the body is pending under the same number, until `materialize` moves it over the
declaration. Functions are looked up by name, the lowest number first. String tables of the module
say what it exports.
-/

namespace KernelFusion

/-- A unit of compiled functions. -/
structure Module where
  /-- The name of the module. -/
  name : String
  /-- The functions by number; one with a pending body stands here as a declaration. -/
  functions : IdMap Function
  /-- The bodies not yet materialized, under the numbers of their declarations. -/
  pending : IdMap Function
  /-- The string tables. -/
  tables : Tables
  /-- The number of the next function to be allocated. -/
  nextFunction : UInt32
deriving DecidableEq

/-- What can be wrong with the integrity of a module. -/
inductive ModuleFault where
  /-- A body is faulty. -/
  | function (id : FunctionId) (fault : GraphFault)
  /-- A pending body has no declaration. -/
  | undeclared (id : FunctionId)
deriving DecidableEq

/-- The message of a module fault. -/
def ModuleFault.message : ModuleFault → String
  | function id fault => "Function " ++ FunctionId.text id ++ " error: " ++ fault.message
  | undeclared id => "Lazy body " ++ FunctionId.text id ++ " has no declaration"

/-- Sizes of a module. -/
structure ModuleStats where
  /-- The number of functions. -/
  functions : Nat
  /-- The number of pending bodies. -/
  pending : Nat
  /-- The number of string tables. -/
  tables : Nat
deriving DecidableEq

namespace Module

/-- A module without content. -/
def new (name : String) : Module := ⟨name, .empty, .empty, .empty, 0⟩

/-- Store a function under its own number, and keep later allocations above it. -/
def add (m : Module) (f : Function) : Module :=
  { m with
    functions := m.functions.insert f.id f
    nextFunction := max m.nextFunction (f.id + 1) }

/-- Store a function as a declaration, its body pending. -/
def addLazy (m : Module) (f : Function) : Module :=
  let declared := m.add f.toDeclaration
  if f.isDeclaration then declared
  else { declared with pending := declared.pending.insert f.id f }

/-- Take the next function number. -/
def allocFunction (m : Module) : Module × FunctionId :=
  ({ m with nextFunction := m.nextFunction + 1 }, m.nextFunction)

/-- The function under a number, with or without its body. -/
def function? (m : Module) (id : FunctionId) : Option Function := m.functions.get? id

/-- The number of the first function with a name. -/
def idOf? (m : Module) (name : String) : Option FunctionId :=
  (m.functions.values.find? (fun f => f.name == name)).map (·.id)

/-- The first function with a name that has no pending body. -/
def callable? (m : Module) (name : String) : Option Function :=
  m.functions.values.find? (fun f => f.name == name && !m.pending.contains f.id)

/-- Whether a name is taken. -/
def hasSymbol (m : Module) (name : String) : Bool := (m.idOf? name).isSome

/-- Whether the function with a name has a pending body. -/
def isMaterializable (m : Module) (name : String) : Bool :=
  (m.idOf? name).any m.pending.contains

/-- Move the pending body of a name, if there is one, over its declaration. -/
def materialize (m : Module) (name : String) : Module :=
  match m.idOf? name with
  | none => m
  | some id =>
    match m.pending.get? id with
    | none => m
    | some body =>
      { m with functions := m.functions.insert id body, pending := m.pending.erase id }

/-- The records of a string table. -/
def records (m : Module) (table : String) : List String := m.tables.records table

/-- Append a record to a string table. -/
def appendRecord (m : Module) (table record : String) : Module :=
  { m with tables := m.tables.append table record }

/-- The first fault of the module: bodies in ascending order, then pending bodies. -/
def fault? (m : Module) : Option ModuleFault :=
  (m.functions.entries.findSome? (fun e => e.2.fault?.map (.function e.1))).or
    ((m.pending.keys.find? (fun id => !m.functions.contains id)).map .undeclared)

/-- The sizes of the module. -/
def stats (m : Module) : ModuleStats := ⟨m.functions.size, m.pending.size, m.tables.size⟩

/-- Whether two stores hold equal functions, constants compared by value. -/
def alikeFunctions (a b : IdMap Function) : Bool :=
  a.size == b.size &&
    (a.entries.zip b.entries).all (fun p => p.1.1 == p.2.1 && p.1.2.alike p.2.2)

/-- Whether two modules are equal, constants compared by value and tables in any order. -/
def alike (a b : Module) : Bool :=
  a.name == b.name && alikeFunctions a.functions b.functions &&
    alikeFunctions a.pending b.pending && a.tables.sameTables b.tables &&
    a.nextFunction == b.nextFunction

end Module

end KernelFusion

import KernelFusion.IR.Module

/-!
# Linking

Linking brings every function of one module into another. Each gets a number of the destination: the
number of the symbol with its name, if there is one, else a new number. Bodies arrive pending, with
the calls in them renumbered. A declaration and a definition of one name become one symbol; two
definitions of one name are an error, and so is a call of a function that the source does not have.
The destination changes only if all goes well.
-/

namespace KernelFusion

/-- Why modules cannot be linked. -/
inductive LinkError where
  /-- A name has a body on both sides. -/
  | duplicateDefinition (name existing incoming : String)
  /-- A body calls a function that its module does not have. -/
  | danglingCall (function : String) (callee : FunctionId) (module : String)
deriving DecidableEq

/-- The message of a link error. -/
def LinkError.message : LinkError → String
  | duplicateDefinition name existing incoming =>
    "function '" ++ name ++ "' is defined in both '" ++ existing ++ "' and '" ++ incoming ++ "'"
  | danglingCall function callee module =>
    "call in '" ++ function ++ "' targets " ++ FunctionId.text callee ++ ", which module '" ++
      module ++ "' does not define"

/-- What a link did. -/
structure LinkStats where
  /-- The number of functions that are new in the destination. -/
  imported : Nat
  /-- The number of functions whose name the destination had. -/
  merged : Nat
deriving DecidableEq

/-- Where the functions of a source go. -/
structure Placement where
  /-- The next number not given away. -/
  nextId : FunctionId
  /-- The destination's number of each source function. -/
  targets : IdMap FunctionId
  /-- The functions to bring in, each with its number in the destination. -/
  incoming : List (FunctionId × Function)
  /-- The number of functions whose name the destination had. -/
  merged : Nat

namespace Module

/-- The function under an entry: its pending body if there is one, else what is stored. -/
def fullFunction (m : Module) (id : FunctionId) (stored : Function) : Function :=
  (m.pending.get? id).getD stored

/-- Whether the symbol with a number has a body, pending or not. -/
def hasBody (m : Module) (id : FunctionId) : Bool :=
  m.pending.contains id || (m.function? id).any (fun f => !f.isDeclaration)

/-- Give one source function its number. -/
def placeOne (dest source : Module) (p : Placement) (entry : FunctionId × Function) :
    Except LinkError Placement :=
  let f := source.fullFunction entry.1 entry.2
  match dest.idOf? f.name with
  | some id =>
    if !f.isDeclaration && dest.hasBody id then
      .error (.duplicateDefinition f.name dest.name source.name)
    else
      .ok { p with
        targets := p.targets.insert entry.1 id
        incoming := if f.isDeclaration then p.incoming else p.incoming ++ [(id, f)]
        merged := p.merged + 1 }
  | none =>
    .ok { p with
      nextId := p.nextId + 1
      targets := p.targets.insert entry.1 p.nextId
      incoming := p.incoming ++ [(p.nextId, f)] }

/-- Give all source functions their numbers, in ascending order. -/
def placement (dest source : Module) : Except LinkError Placement :=
  source.functions.entries.foldlM (placeOne dest source) ⟨dest.nextFunction, .empty, [], 0⟩

end Module

/-- The instruction with the function it calls renumbered. -/
def Instruction.renumber (targets : IdMap FunctionId) : Instruction → Instruction
  | call dest callee args => call dest ((targets.get? callee).getD callee) args
  | i => i

/-- The function under a new number, with its calls renumbered. -/
def Function.renumber (targets : IdMap FunctionId) (id : FunctionId) (f : Function) : Function :=
  let blocks := f.graph.blocks.mapValues (fun _ b =>
    { b with instructions := b.instructions.map (Instruction.renumber targets) })
  { f with id := id, graph := { f.graph with blocks := blocks } }

/-- The first call of a body that has no number in the destination. -/
def Function.danglingCall? (targets : IdMap FunctionId) (f : Function) : Option FunctionId :=
  (f.graph.instructions.filterMap (·.callee)).find? (fun id => !targets.contains id)

namespace Module

/-- The functions to bring in with their calls renumbered, if all calls have a target. -/
def renumbered (source : Module) (p : Placement) : Except LinkError (List Function) :=
  match p.incoming.findSome? (fun e => (e.2.danglingCall? p.targets).map (e.2.name, ·)) with
  | some (name, callee) => .error (.danglingCall name callee source.name)
  | none => .ok (p.incoming.map (fun e => e.2.renumber p.targets e.1))

/-- Store one function that was brought in. A definition for a declaration takes over the linkage of
the declaration. The flag tells whether the function is new. -/
def register (dest : Module) (f : Function) : Module × Bool :=
  match dest.function? f.id with
  | some existing =>
    let merged := { f with
      attributes := { f.attributes with linkage := existing.attributes.linkage } }
    ({ dest with pending := dest.pending.insert f.id merged }, false)
  | none => (dest.addLazy f, true)

/-- Store functions that were brought in, and count the new ones. -/
def registerAll (dest : Module) : List Function → Module × Nat
  | [] => (dest, 0)
  | f :: rest =>
    let (stored, isNew) := dest.register f
    let (last, count) := stored.registerAll rest
    (last, if isNew then count + 1 else count)

/-- Bring every function of a source into a module, leaving bodies pending. -/
def link (dest source : Module) : Except LinkError (Module × LinkStats) :=
  match dest.placement source with
  | .error e => .error e
  | .ok p =>
    match source.renumbered p with
    | .error e => .error e
    | .ok functions =>
      let reserved := { dest with nextFunction := max dest.nextFunction p.nextId }
      let (linked, imported) := reserved.registerAll functions
      .ok (linked, ⟨imported, p.merged⟩)

/-- Link modules in order into a new module. -/
def linkAll (name : String) (sources : List Module) : Except LinkError Module :=
  sources.foldlM (fun dest source => (dest.link source).map (·.1)) (Module.new name)

end Module

end KernelFusion

import KernelFusion.Data.IdMap
import KernelFusion.IR.Instruction

/-!
# Blocks and flow graphs

A block is a list of instructions with a terminator that says where control goes next. The body of a
function is a graph of blocks; a graph without blocks marks a function that is only declared.
-/

namespace KernelFusion

/-- The number of a block of a function. -/
abbrev BlockId := UInt32

/-- The text of a block number. -/
def BlockId.text (id : BlockId) : String := "bb" ++ id.toNat.repr

/-- How a block ends. -/
inductive Terminator where
  /-- Go to a block. -/
  | branch (target : BlockId)
  /-- Go to one of two blocks. -/
  | branchIf (condition : Register) (onTrue onFalse : BlockId)
  /-- Return from the function, with a value or without. -/
  | ret (value : Option Register)
  /-- Not terminated yet. -/
  | unreachable
deriving DecidableEq

/-- The blocks a terminator goes to, in order. -/
def Terminator.successors : Terminator → List BlockId
  | branch target => [target]
  | branchIf _ onTrue onFalse => [onTrue, onFalse]
  | ret _ | unreachable => []

/-- A basic block. -/
structure Block where
  /-- The block's own number. -/
  id : BlockId
  /-- A word for readers. -/
  label : Option String
  /-- The instructions, executed in order. -/
  instructions : List Instruction
  /-- How the block ends. -/
  terminator : Terminator
  /-- The blocks that were recorded as leading here. -/
  predecessors : List BlockId
deriving DecidableEq

namespace Block

/-- A block without instructions and not terminated. -/
def new (id : BlockId) : Block := ⟨id, none, [], .unreachable, []⟩

/-- The block with one more instruction at its end. -/
def push (b : Block) (i : Instruction) : Block := { b with instructions := b.instructions ++ [i] }

/-- The blocks control may go to from here. -/
def successors (b : Block) : List BlockId := b.terminator.successors

/-- Whether the block has a terminator. -/
def isTerminated (b : Block) : Bool := b.terminator != .unreachable

/-- The number of calls in the block. -/
def callCount (b : Block) : Nat := b.instructions.countP (·.callee.isSome)

/-- Whether two blocks are equal, constants compared by value. -/
def alike (a b : Block) : Bool :=
  a.id == b.id && a.label == b.label && a.terminator == b.terminator &&
    a.predecessors == b.predecessors &&
    a.instructions.length == b.instructions.length &&
    (a.instructions.zip b.instructions).all (fun p => p.1.alike p.2)

end Block

/-- The flow graph of a function body. -/
structure Graph where
  /-- The blocks by number. -/
  blocks : IdMap Block
  /-- The block where execution starts. -/
  entry : BlockId
  /-- The number of the next block to be created. -/
  nextBlock : UInt32
deriving DecidableEq

/-- What can be wrong with the shape of a graph. -/
inductive GraphFault where
  /-- The entry block does not exist. -/
  | noEntry
  /-- A block has no terminator. -/
  | unterminated (block : BlockId)
  /-- A block goes to a block that does not exist. -/
  | missingSuccessor (block successor : BlockId)
deriving DecidableEq

/-- The message of a graph fault. -/
def GraphFault.message : GraphFault → String
  | noEntry => "Entry block not found"
  | unterminated block => "Block " ++ BlockId.text block ++ " is not properly terminated"
  | missingSuccessor block successor =>
    "Block " ++ BlockId.text block ++ " references non-existent successor " ++
      BlockId.text successor

namespace Graph

/-- The graph of a new body: an entry block and nothing else. -/
def new : Graph := ⟨IdMap.empty.insert 0 (Block.new 0), 0, 1⟩

/-- The graph of a declaration. -/
def empty : Graph := ⟨IdMap.empty, 0, 0⟩

/-- Whether there are no blocks. -/
def isEmpty (g : Graph) : Bool := g.blocks.isEmpty

/-- Add an empty block under the next number. -/
def createBlock (g : Graph) : Graph × BlockId :=
  ({ g with
      blocks := g.blocks.insert g.nextBlock (Block.new g.nextBlock)
      nextBlock := g.nextBlock + 1 },
    g.nextBlock)

/-- Change one block, if it exists. -/
def modifyBlock (g : Graph) (id : BlockId) (change : Block → Block) : Graph :=
  { g with blocks := g.blocks.modify id change }

/-- Record that one block leads to another, once. -/
def connect (g : Graph) (source target : BlockId) : Graph :=
  g.modifyBlock target (fun b =>
    if source ∈ b.predecessors then b
    else { b with predecessors := b.predecessors ++ [source] })

/-- All instructions, block after block. -/
def instructions (g : Graph) : List Instruction := g.blocks.values.flatMap (·.instructions)

/-- What is wrong with one block of a graph. -/
def blockFault? (g : Graph) (id : BlockId) (b : Block) : Option GraphFault :=
  if b.isTerminated then
    (b.successors.find? (fun s => !g.blocks.contains s)).map (.missingSuccessor id)
  else some (.unterminated id)

/-- The first fault of a graph: a missing entry, then the blocks in ascending order. -/
def fault? (g : Graph) : Option GraphFault :=
  if g.blocks.contains g.entry then
    g.blocks.entries.findSome? (fun e => g.blockFault? e.1 e.2)
  else some .noEntry

/-- Whether two graphs are equal, constants compared by value. -/
def alike (g h : Graph) : Bool :=
  g.entry == h.entry && g.nextBlock == h.nextBlock && g.blocks.size == h.blocks.size &&
    (g.blocks.entries.zip h.blocks.entries).all (fun p => p.1.1 == p.2.1 && p.1.2.alike p.2.2)

end Graph

end KernelFusion

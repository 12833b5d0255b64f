import KernelFusion.Bundle.Text
import KernelFusion.CommandLine.Files
import KernelFusion.CommandLine.Help
import KernelFusion.Fusion.ConfigText
import KernelFusion.Fusion.Log
import KernelFusion.IR.Listing
import KernelFusion.IR.Validation
import KernelFusion.Samples

/-!
# Running commands

A command reads files, links the modules of a bundle, carries out a request and writes the
destination module. What it prints is collected: the standard output, the messages on the error
output and the exit code. A failure ends the command with one last message; what was done until then
remains.
-/

namespace KernelFusion.CommandLine

/-- What a run of the program gives. -/
structure Outcome where
  /-- The exit code. -/
  code : Nat
  /-- What went to the standard output. -/
  output : Bytes
  /-- The messages that went to the error output, each with a line break behind it. -/
  errors : List String
deriving DecidableEq

/-- What a command has printed so far. -/
structure Printed where
  /-- What went to the standard output. -/
  output : Bytes
  /-- The messages that went to the error output. -/
  errors : List String

/-- A command at work: it prints, uses files and may fail with a message. -/
abbrev Action (m : Type → Type) := ExceptT String (StateT Printed m)

variable {m : Type → Type} [Monad m]

/-- Print to the standard output. -/
def print (bytes : Bytes) : Action m Unit :=
  modify (fun p => { p with output := p.output ++ bytes })

/-- Print a line to the standard output. -/
def printLine (text : String) : Action m Unit := print (Bytes.ofString (text ++ "\n"))

/-- Print a message to the error output. -/
def report (message : String) : Action m Unit :=
  modify (fun p => { p with errors := p.errors ++ [message] })

/-- The word for a level. -/
def levelText : LogLevel → String
  | .debug => "DEBUG"
  | .info => "INFO"
  | .warn => "WARN"

/-- The text of a report. Where only warnings are shown, all its lines but the first are
indented. -/
def logText (verbose : Bool) (l : LogLine) : String :=
  let text := if verbose then l.text else String.intercalate "\n    " (l.text.splitOn "\n")
  levelText l.level ++ " " ++ text

/-- Print the reports that are shown. -/
def log (verbose : Bool) (lines : List LogLine) : Action m Unit :=
  (lines.filter (·.isShown verbose)).forM (fun l => report (logText verbose l))

/-- Go on with a value, or fail with the message of an error. -/
def orFail {ε α : Type} (message : ε → String) : Except ε α → Action m α
  | .ok a => return a
  | .error e => throw (message e)

/-- Read a bundle from a file. -/
def loadBundle (files : FileAccess m) (path : String) : Action m Bundle := do
  let failure (cause : String) : String := "Failed to load " ++ path ++ ": " ++ cause
  let bytes ← orFail (fun e => failure ("I/O error: " ++ FileError.message e)) (← files.read path)
  orFail (fun e => failure (BundleError.message e)) (Bundle.decode bytes)

/-- Read settings from a file; without a file the standard settings hold. -/
def loadConfig (files : FileAccess m) : Option String → Action m FusionConfig
  | none => return .standard
  | some path => do
    let failure (e : FileError) : String := "failed to read " ++ path ++ ": " ++ e.message
    let bytes ← orFail failure (← files.read path)
    match Bytes.toString? bytes with
    | none => throw (failure .notText)
    | some text => orFail ConfigError.message (FusionConfig.ofText text)

/-- The word for a stored form in reports. -/
def formatText : BundleFormat → String
  | .json => "Json"
  | .image => "Postcard"

/-- Write the sample bundle. Without a file it is printed as JSON, whatever the form. -/
def runSample (files : FileAccess m) (verbose : Bool) (output : Option String)
    (format : BundleFormat) : Action m Unit := do
  match output with
  | none =>
    print Samples.bundle.toText
    printLine ""
  | some path =>
    let bytes := Samples.bundle.encode format
    log verbose [⟨.debug, "writing " ++ bytes.length.repr ++ " bytes of " ++ formatText format ++
      " bundle to " ++ path⟩]
    orFail (fun e => "Failed to write " ++ path ++ ": I/O error: " ++ FileError.message e)
      (← files.write path bytes)
    printLine ("Wrote " ++ Samples.bundle.modules.length.repr ++ " modules to " ++ path)

/-- The lines about the export tables of a module. -/
def exportLines (m : Module) (tables : Exports) : List String :=
  let slots := (tables.names.zip (tables.signatures.zip tables.inputs)).zipIdx
  let foreach := slots.map (fun ((name, signature, inputs), i) =>
    "  foreach[" ++ i.repr ++ "] " ++ (if name = "" then "<unused>" else name) ++
      " signature=" ++ signature.text ++ " inputs=" ++ inputs.toNat.repr)
  let invokable := tables.invokable.zipIdx.map (fun (name, i) =>
    "  invoke[" ++ i.repr ++ "] " ++ name)
  ("module " ++ m.name) :: (foreach ++ invokable)

/-- List the export tables of the modules of a bundle. -/
def runInspect (files : FileAccess m) (path : String) : Action m Unit := do
  let bundle ← loadBundle files path
  bundle.modules.forM (fun m => do
    let tables ← orFail ExportError.message m.exports
    (exportLines m tables).forM printLine)

/-- The module of a bundle that an argument names. -/
def findModule (bundle : Bundle) (name : String) : Action m Module :=
  match bundle.module? name with
  | some m => return m
  | none => throw ("No module named '" ++ name ++ "' in bundle")

/-- Link a bundle into a destination module. -/
def linkBundle (verbose : Bool) (bundle : Bundle) (name : String) : Action m Module := do
  log verbose ((Module.new name).linkAllLines bundle.modules)
  orFail LinkError.message (bundle.link name)

/-- Validate a destination module if the settings ask for it, and write it. -/
def emitModule (files : FileAccess m) (config : FusionConfig) (options : EmitOptions)
    (dest : Module) : Action m Unit := do
  let errors := if config.verify then dest.errors else []
  if !errors.isEmpty then
    throw ("Invalid output module:\n  " ++
      String.intercalate "\n  " (errors.map ValidationError.message))
  let bytes := match options.format with
    | .listing => Bytes.ofString dest.listing
    | .bundle format => (Bundle.mk [dest]).encode format
  match options.output with
  | none => print bytes
  | some path =>
    orFail (fun e => "Failed to write " ++ path ++ ": " ++ FileError.message e)
      (← files.write path bytes)

/-- Fuse a chain of kernels of a bundle. -/
def runFuse (files : FileAccess m) (verbose : Bool) (path : String) (stages : List SlotName)
    (name : String) (options : EmitOptions) : Action m Unit := do
  let config ← loadConfig files options.config
  let bundle ← loadBundle files path
  let slots ← stages.mapM (fun s => do return KernelSlot.mk (← findModule bundle s.module) s.slot)
  let chain ← orFail FusionError.message (Chain.ofStages slots)
  let dest ← linkBundle verbose bundle options.module
  log verbose (fuseLines chain name config dest)
  let (result, dest) := KernelFusion.fuse chain name config dest
  let kernel ← orFail (fun e => "Fusion failed: " ++ FusionError.message e) result
  report ("Fused " ++ kernel.stages.repr ++ " kernels into '" ++ kernel.name ++ "' (signature " ++
    kernel.signature.text ++ ")")
  emitModule files config options dest

/-- Wrap an invokable function of a bundle. -/
def runWrap (files : FileAccess m) (verbose : Bool) (path : String) (slot : SlotName)
    (name : String) (options : EmitOptions) : Action m Unit := do
  let config ← loadConfig files options.config
  let bundle ← loadBundle files path
  let target := InvokableSlot.mk (← findModule bundle slot.module) slot.slot
  let dest ← linkBundle verbose bundle options.module
  log verbose (wrapLines target name config dest)
  let (result, dest) := wrapInvoke target name config dest
  let id ← orFail (fun e => "Wrapping failed: " ++ FusionError.message e) result
  report ("Wrapped invokable as '" ++ name ++ "' (" ++ FunctionId.text id ++ ")")
  emitModule files config options dest

/-- Carry out a command. -/
def runCommand (files : FileAccess m) (verbose : Bool) : Command → Action m Unit
  | .sample output format => runSample files verbose output format
  | .inspect bundle => runInspect files bundle
  | .fuse bundle stages name emit => runFuse files verbose bundle stages name emit
  | .wrap bundle target name emit => runWrap files verbose bundle target name emit

/-- Run the program with arguments. -/
def run (files : FileAccess m) (arguments : List String) : m Outcome :=
  match request arguments with
  | .version => return ⟨0, Bytes.ofString "kfuse 0.1.0\n", []⟩
  | .help topic detailed => return ⟨0, Bytes.ofString (topic.text detailed), []⟩
  | .misuse => return ⟨2, [], [HelpTopic.program.text false]⟩
  | .run verbose command => do
    let (result, printed) ← ((runCommand files verbose command).run).run ⟨[], []⟩
    match result with
    | .ok () => return ⟨0, printed.output, printed.errors⟩
    | .error message =>
      return ⟨1, printed.output, printed.errors ++ ["Error: " ++ message]⟩

end KernelFusion.CommandLine

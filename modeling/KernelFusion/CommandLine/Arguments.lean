import KernelFusion.Bundle.Basic
import KernelFusion.Export.Signature

/-!
# Arguments of the command line

The program is called with a command and its options. Options come in any order; a long one may take
its value behind an equals sign or as the next argument, a short one also without a space. Whatever
does not follow these rules is a misuse; what exactly is wrong with it is not told.
-/

namespace KernelFusion.CommandLine

/-- A slot of a module, as it is named by an argument. -/
structure SlotName where
  /-- The name of the module. -/
  module : String
  /-- The position of the slot. -/
  slot : Nat
deriving DecidableEq

/-- The forms in which a destination module is written. -/
inductive OutputFormat where
  /-- The listing. -/
  | listing
  /-- A stored bundle. -/
  | bundle (format : BundleFormat)
deriving DecidableEq

/-- How a destination module is made and written. -/
structure EmitOptions where
  /-- The file with the settings. -/
  config : Option String
  /-- The name of the destination module. -/
  module : String
  /-- The file to write; the standard output if there is none. -/
  output : Option String
  /-- The form in which the module is written. -/
  format : OutputFormat
deriving DecidableEq

/-- A command with its options. -/
inductive Command where
  /-- Write the sample bundle. -/
  | sample (output : Option String) (format : BundleFormat)
  /-- List the export tables of a bundle. -/
  | inspect (bundle : String)
  /-- Fuse a chain of kernels. -/
  | fuse (bundle : String) (stages : List SlotName) (name : String) (emit : EmitOptions)
  /-- Wrap an invokable function. -/
  | wrap (bundle : String) (target : SlotName) (name : String) (emit : EmitOptions)
deriving DecidableEq

/-- The names of commands. -/
inductive CommandName where
  /-- Write the sample bundle. -/
  | sample
  /-- List the export tables of a bundle. -/
  | inspect
  /-- Fuse a chain of kernels. -/
  | fuse
  /-- Wrap an invokable function. -/
  | wrap
deriving DecidableEq

/-- What help is given on. -/
inductive HelpTopic where
  /-- The program as a whole. -/
  | program
  /-- A command. -/
  | command (name : CommandName)
  /-- The command that prints help. -/
  | help
deriving DecidableEq

/-- What arguments ask for. -/
inductive Request where
  /-- Run a command, reporting all steps or only warnings. -/
  | run (verbose : Bool) (command : Command)
  /-- Tell the version. -/
  | version
  /-- Tell how the program or a command is used, in brief or in detail. -/
  | help (topic : HelpTopic) (detailed : Bool)
  /-- The arguments do not follow the rules. -/
  | misuse
deriving DecidableEq

/-- The options of commands. -/
inductive OptionName where
  /-- The file to write. -/
  | output
  /-- The form in which to write. -/
  | format
  /-- A stage of a chain. -/
  | stage
  /-- The invokable function to wrap. -/
  | invoke
  /-- The name of the new function. -/
  | name
  /-- The file with settings. -/
  | config
  /-- The name of the destination module. -/
  | module
deriving DecidableEq

/-- The words of options that take a value. -/
def OptionName.ofWord? (word : String) : Option OptionName :=
  [("output", output), ("format", format), ("stage", stage), ("invoke", invoke), ("name", name),
    ("config", config), ("module", module)].lookup word

/-- The words of commands. -/
def CommandName.ofWord? (word : String) : Option CommandName :=
  [("sample", sample), ("inspect", inspect), ("fuse", fuse), ("wrap", wrap)].lookup word

/-- The options of a command. -/
def CommandName.options : CommandName → List OptionName
  | sample => [.output, .format]
  | inspect => []
  | fuse => [.output, .format, .stage, .name, .config, .module]
  | wrap => [.output, .format, .invoke, .name, .config, .module]

/-- Whether a command works on a bundle. -/
def CommandName.takesBundle : CommandName → Bool
  | sample => false
  | inspect | fuse | wrap => true

/-- The forms that a command can write. -/
def CommandName.formats : CommandName → List (String × OutputFormat)
  | sample => [("json", .bundle .json), ("postcard", .bundle .image)]
  | inspect => []
  | fuse | wrap =>
    [("ir", .listing), ("json", .bundle .json), ("postcard", .bundle .image)]

/-- What was read of the arguments of a command. -/
structure Given where
  /-- Whether all steps are to be reported. -/
  verbose : Bool
  /-- The file of the bundle. -/
  bundle : Option String
  /-- The options with their values, in order. -/
  options : List (OptionName × String)

/-- No arguments. -/
def Given.nothing : Given := ⟨false, none, []⟩

/-- A natural number of 64 bits, with or without a plus sign. -/
def slotNumber? (digits : List Char) : Option Nat :=
  (KernelSignature.unsigned? digits).filter (fun n => n < 2 ^ 64)

/-- Read the name of a slot: a module and a position behind the last colon. -/
def SlotName.ofText? (text : String) : Option SlotName :=
  let backwards := text.toList.reverse
  let digits := (backwards.takeWhile (· ≠ ':')).reverse
  match backwards.dropWhile (· ≠ ':') with
  | ':' :: module => (slotNumber? digits).map (⟨String.ofList module.reverse, ·⟩)
  | _ => none

/-- Whether a value is right for an option of a command. -/
def valueFits (command : CommandName) (option : OptionName) (value : String) : Bool :=
  match option with
  | .output | .config => value != ""
  | .format => command.formats.any (·.1 == value)
  | .stage | .invoke => (SlotName.ofText? value).isSome
  | .name | .module => true

/-- Why the reading of arguments ends early. -/
inductive Stop where
  /-- Help is asked for, in brief or in detail. -/
  | help (detailed : Bool)
  /-- The version is asked for. -/
  | version
  /-- The arguments do not follow the rules. -/
  | misuse
deriving DecidableEq

/-- The request that is left when the reading ends early. -/
def Stop.request (topic : HelpTopic) : Stop → Request
  | help detailed => .help topic detailed
  | version => .version
  | misuse => .misuse

/-- Add an option. Only stages may be given more than once. -/
def Given.add (command : CommandName) (option : OptionName) (value : String) (g : Given) :
    Except Stop Given :=
  if option ∈ command.options ∧ valueFits command option value ∧
      (option = .stage ∨ g.options.all (·.1 ≠ option)) then
    .ok { g with options := g.options ++ [(option, value)] }
  else .error .misuse

/-- Add a bundle. There can be only one, and its name is not empty. -/
def Given.addBundle (command : CommandName) (file : String) (g : Given) : Except Stop Given :=
  if command.takesBundle ∧ g.bundle = none ∧ file ≠ "" then .ok { g with bundle := some file }
  else .error .misuse

/-- Ask for reports. This can be asked only once. -/
def Given.addVerbose (g : Given) : Except Stop Given :=
  if g.verbose then .error .misuse else .ok { g with verbose := true }

/-- What the next argument can be. -/
inductive Expected where
  /-- An option or a file. -/
  | anything
  /-- The value of an option. -/
  | value (option : OptionName)
  /-- A file, however it looks. -/
  | file
deriving DecidableEq

/-- How far the reading of the arguments of a command has come. -/
structure Progress where
  /-- What was read. -/
  given : Given
  /-- What the next argument can be. -/
  expected : Expected

/-- Go on behind arguments that are complete. -/
def Progress.complete (given : Given) : Progress := ⟨given, .anything⟩

/-- Whether an argument can be the value of the option before it: it does not look like an option
itself. -/
def isValue (argument : String) : Bool :=
  match argument.toList with
  | ['-'] => true
  | '-' :: _ => false
  | _ => true

/-- Split an argument at its first equals sign. -/
def splitAtEquals (cs : List Char) : String × Option String :=
  let word := String.ofList (cs.takeWhile (· ≠ '='))
  match cs.dropWhile (· ≠ '=') with
  | [] => (word, none)
  | _ :: value => (word, some (String.ofList value))

/-- Read a long option, given without its dashes. -/
def readLong (command : CommandName) (g : Given) (long : List Char) : Except Stop Progress :=
  match splitAtEquals long with
  | ("verbose", none) => Progress.complete <$> g.addVerbose
  | ("help", none) => .error (.help true)
  | (word, value) =>
    match OptionName.ofWord? word, value with
    | some option, some value => Progress.complete <$> g.add command option value
    | some option, none => .ok ⟨g, .value option⟩
    | none, _ => .error .misuse

/-- Read a group of short options, given without the dash. -/
def readShort (command : CommandName) (g : Given) : List Char → Except Stop Progress
  | [] => .ok (.complete g)
  | 'v' :: rest =>
    match g.addVerbose with
    | .ok g => readShort command g rest
    | .error e => .error e
  | 'h' :: _ => .error (.help false)
  | ['o'] => .ok ⟨g, .value .output⟩
  | 'o' :: '=' :: value => Progress.complete <$> g.add command .output (String.ofList value)
  | 'o' :: value => Progress.complete <$> g.add command .output (String.ofList value)
  | _ => .error .misuse

/-- Read one argument of a command. -/
def readArgument (command : CommandName) (p : Progress) (argument : String) :
    Except Stop Progress :=
  match p.expected with
  | .file => (⟨·, .file⟩) <$> p.given.addBundle command argument
  | .value option =>
    if isValue argument then Progress.complete <$> p.given.add command option argument
    else .error .misuse
  | .anything =>
    match argument.toList with
    | ['-', '-'] => .ok ⟨p.given, .file⟩
    | '-' :: '-' :: long => readLong command p.given long
    | '-' :: c :: short => readShort command p.given (c :: short)
    | _ => Progress.complete <$> p.given.addBundle command argument

/-- Read the arguments of a command. No option may lack its value. -/
def readCommand (command : CommandName) (arguments : List String) : Except Stop Given := do
  let p ← arguments.foldlM (readArgument command) (.complete .nothing)
  match p.expected with
  | .value _ => .error .misuse
  | .anything | .file => .ok p.given

/-- The value of an option. -/
def Given.value? (g : Given) (option : OptionName) : Option String := g.options.lookup option

/-- The form in which a command writes. -/
def Given.format? (g : Given) (command : CommandName) : Option OutputFormat :=
  match g.value? .format with
  | none => command.formats.head?.map (·.2)
  | some word => command.formats.lookup word

/-- The options about the destination module. -/
def Given.emit? (g : Given) (command : CommandName) : Option EmitOptions :=
  (g.format? command).map (fun format =>
    ⟨g.value? .config, (g.value? .module).getD "fused", g.value? .output, format⟩)

/-- The command with the options that were given, if none that it needs is missing. -/
def Given.command? (g : Given) : CommandName → Option Command
  | .sample => do
    let .bundle format ← g.format? .sample | none
    some (.sample (g.value? .output) format)
  | .inspect => g.bundle.map .inspect
  | .fuse => do
    let stages := g.options.filterMap (fun o =>
      if o.1 = .stage then SlotName.ofText? o.2 else none)
    if stages.isEmpty then none
    else some (.fuse (← g.bundle) stages (← g.value? .name) (← g.emit? .fuse))
  | .wrap => do
    let target ← SlotName.ofText? (← g.value? .invoke)
    some (.wrap (← g.bundle) target (← g.value? .name) (← g.emit? .wrap))

/-- The request for a command with these arguments. -/
def commandRequest (verbose : Bool) (command : CommandName) (arguments : List String) : Request :=
  match readCommand command arguments with
  | .error stop => stop.request (.command command)
  | .ok g =>
    match g.command? command with
    | some c => .run (verbose || g.verbose) c
    | none => .misuse

/-- Read a group of short options before the command: whether reports are asked for then. -/
def readShortBefore (verbose : Bool) : List Char → Except Stop Bool
  | [] => .ok verbose
  | 'v' :: rest => if verbose then .error .misuse else readShortBefore true rest
  | 'h' :: _ => .error (.help false)
  | 'V' :: _ => .error .version
  | _ => .error .misuse

/-- Read an option before the command: whether reports are asked for then. No option is read where
the argument does not look like one. -/
def readBefore (verbose : Bool) (argument : String) : Option (Except Stop Bool) :=
  match argument.toList with
  | '-' :: '-' :: long =>
    match String.ofList long with
    | "verbose" => some (if verbose then .error .misuse else .ok true)
    | "version" => some (.error .version)
    | "help" => some (.error (.help true))
    | _ => some (.error .misuse)
  | '-' :: c :: short => some (readShortBefore verbose (c :: short))
  | _ => none

/-- The topic that is named behind the command that prints help: nothing, or one command. -/
def helpTopic? : List String → Option HelpTopic
  | [] => some .program
  | ["help"] => some .help
  | [word] => (CommandName.ofWord? word).map .command
  | _ => none

/-- The request of arguments, given whether reports were asked for before them. -/
def requestFrom (verbose : Bool) : List String → Request
  | [] => .misuse
  | argument :: rest =>
    match readBefore verbose argument with
    | some (.error stop) => stop.request .program
    | some (.ok verbose) => requestFrom verbose rest
    | none =>
      match CommandName.ofWord? argument with
      | some command => commandRequest verbose command rest
      | none =>
        match if argument = "help" then helpTopic? rest else none with
        | some topic => .help topic true
        | none => .misuse

/-- The request of arguments. -/
def request (arguments : List String) : Request := requestFrom false arguments

end KernelFusion.CommandLine

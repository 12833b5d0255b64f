import KernelFusion.CommandLine.Arguments

/-!
# Help

The pages that tell how the program is used. A page has a brief and a detailed form. The brief form
puts what is said about an entry into a second column; the detailed form puts it on lines of its own
and says more about the values to choose from. A page on which there is no more to say has only the
brief form.
-/

namespace KernelFusion.CommandLine

/-- A value to choose from. -/
structure Choice where
  /-- The value. -/
  value : String
  /-- What the value stands for, if it is not plain. -/
  about : Option String

/-- An entry of a page: an argument, an option or a command. -/
structure HelpEntry where
  /-- How the entry is written. -/
  label : String
  /-- What the entry is for, if it is not plain. -/
  about : Option String
  /-- The value that holds if none is given. -/
  standard : Option String
  /-- The values to choose from, if there is a choice. -/
  choices : List Choice

/-- A help page. -/
structure HelpPage where
  /-- What the command is for. -/
  about : String
  /-- How the command is written. -/
  usage : String
  /-- Lists of entries under their titles. -/
  sections : List (String × List HelpEntry)

/-- Fill a text up with spaces. -/
def padded (width : Nat) (text : String) : String :=
  text ++ String.ofList (List.replicate (width - text.length) ' ')

/-- The length of the longest text. -/
def widest (texts : List String) : Nat := texts.foldl (fun n t => max n t.length) 0

namespace HelpEntry

/-- An entry with nothing but its purpose. -/
def plain (label about : String) : HelpEntry := ⟨label, some about, none, []⟩

/-- The remark about the standard value. -/
def standardRemark (e : HelpEntry) : List String :=
  (e.standard.map (fun s => "[default: " ++ s ++ "]")).toList

/-- The line of an entry in the brief form. -/
def brief (width : Nat) (e : HelpEntry) : String :=
  let choices := if e.choices.isEmpty then []
    else ["[possible values: " ++ String.intercalate ", " (e.choices.map (·.value)) ++ "]"]
  "  " ++ padded width e.label ++ "  " ++
    String.intercalate " " (e.about.toList ++ (e.standardRemark ++ choices)) ++ "\n"

/-- The line of a value to choose from. -/
def choiceLine (width : Nat) (c : Choice) : String :=
  match c.about with
  | none => "- " ++ c.value
  | some about => "- " ++ padded (width + 2) (c.value ++ ":") ++ about

/-- The lines about the values to choose from. -/
def choiceLines (e : HelpEntry) : List String :=
  "Possible values:" :: e.choices.map (choiceLine (widest (e.choices.map (·.value))))

/-- The lines of an entry in the detailed form. Remarks are parted by a line without text. -/
def detailed (e : HelpEntry) : String :=
  let remarks := (e.about.toList.map (fun a => [a])) ++
    ((if e.choices.isEmpty then [] else [e.choiceLines]) ++ e.standardRemark.map (fun r => [r]))
  let lines := if remarks.isEmpty then [""] else [""].intercalate remarks
  "  " ++ e.label ++ "\n" ++ String.join (lines.map (fun l => "          " ++ l ++ "\n"))

end HelpEntry

namespace HelpPage

/-- A list of entries in the brief form. -/
def briefSection (entries : List HelpEntry) : String :=
  String.join (entries.map (HelpEntry.brief (widest (entries.map (·.label)))))

/-- A list of entries in the detailed form. -/
def detailedSection (entries : List HelpEntry) : String :=
  String.intercalate "\n" (entries.map HelpEntry.detailed)

/-- The text of a page. -/
def text (p : HelpPage) (detailed : Bool) : String :=
  let body := if detailed then detailedSection else briefSection
  p.about ++ "\n\nUsage: kfuse " ++ p.usage ++ "\n" ++
    String.join (p.sections.map (fun s => "\n" ++ s.1 ++ ":\n" ++ body s.2))

end HelpPage

/-- The entry of the bundle. -/
def bundleEntry : HelpEntry := ⟨"<BUNDLE>", none, none, []⟩

/-- The entry about reports. -/
def verboseEntry : HelpEntry := .plain "-v, --verbose" "Log planning and commit steps"

/-- The entry about help, on a page with one form or in one of two forms. -/
def helpEntry (twoForms detailed : Bool) : HelpEntry :=
  .plain "-h, --help" ("Print help" ++
    (if !twoForms then "" else if detailed then " (see a summary with '-h')"
      else " (see more with '--help')"))

/-- The entry of the name of a new function. -/
def nameEntry (function : String) : HelpEntry :=
  .plain "    --name <NAME>" ("Name of the " ++ function)

/-- The entries about the destination module. -/
def emitEntries : List HelpEntry := [
  .plain "    --config <CONFIG>" "Fusion config (TOML)",
  ⟨"    --module <MODULE>", some "Name of the linked destination module", some "fused", []⟩,
  .plain "-o, --output <OUTPUT>" "Output file (stdout if omitted)",
  ⟨"    --format <FORMAT>", none, some "ir", [⟨"ir", some "Text dump of the destination module"⟩,
    ⟨"json", none⟩, ⟨"postcard", none⟩]⟩]

/-- What a command is for. -/
def CommandName.about : CommandName → String
  | sample => "Write the built-in sample kernel bundle"
  | inspect => "Print the export tables of every module in a bundle"
  | fuse => "Fuse a chain of kernels into one"
  | wrap => "Wrap an invokable function under a new name"

/-- What the command that prints help is for. -/
def helpAbout : String := "Print this message or the help of the given subcommand(s)"

/-- The page of the program. -/
def programPage : HelpPage where
  about := "Fuse chains of elementwise compute kernels"
  usage := "[OPTIONS] <COMMAND>"
  sections := [
    ("Commands", [.plain "sample" CommandName.sample.about,
      .plain "inspect" CommandName.inspect.about, .plain "fuse" CommandName.fuse.about,
      .plain "wrap" CommandName.wrap.about, .plain "help" helpAbout]),
    ("Options", [verboseEntry, helpEntry false false, .plain "-V, --version" "Print version"])]

/-- The page of the command that prints help. -/
def helpPage : HelpPage where
  about := helpAbout
  usage := "help [COMMAND]..."
  sections := [("Arguments", [.plain "[COMMAND]..." "Print help for the subcommand(s)"])]

/-- Whether the page of a command has two forms. -/
def CommandName.hasDetails : CommandName → Bool
  | sample | inspect => false
  | fuse | wrap => true

/-- The page of a command, for one of its forms. -/
def CommandName.page (c : CommandName) (detailed : Bool) : HelpPage :=
  let help := helpEntry c.hasDetails detailed
  match c with
  | sample =>
    ⟨c.about, "sample [OPTIONS]", [("Options", [
      .plain "-o, --output <OUTPUT>" "Output file (JSON on stdout if omitted)", verboseEntry,
      ⟨"    --format <FORMAT>", none, some "json", [⟨"json", none⟩, ⟨"postcard", none⟩]⟩,
      help])]⟩
  | inspect =>
    ⟨c.about, "inspect [OPTIONS] <BUNDLE>",
      [("Arguments", [bundleEntry]), ("Options", [verboseEntry, help])]⟩
  | fuse =>
    ⟨c.about, "fuse [OPTIONS] --stage <STAGES> --name <NAME> <BUNDLE>",
      [("Arguments", [bundleEntry]), ("Options",
        .plain "    --stage <STAGES>" "Chain stage as module:slot, in execution order" ::
        verboseEntry :: nameEntry "fused kernel" :: (emitEntries ++ [help]))]⟩
  | wrap =>
    ⟨c.about, "wrap [OPTIONS] --invoke <INVOKE> --name <NAME> <BUNDLE>",
      [("Arguments", [bundleEntry]), ("Options",
        .plain "    --invoke <INVOKE>" "Invokable as module:slot" ::
        verboseEntry :: nameEntry "wrapper" :: (emitEntries ++ [help]))]⟩

/-- The help on a topic. -/
def HelpTopic.text (detailed : Bool) : HelpTopic → String
  | program => programPage.text false
  | help => helpPage.text false
  | command c => (c.page (c.hasDetails && detailed)).text (c.hasDetails && detailed)

end KernelFusion.CommandLine

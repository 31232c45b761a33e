import VarCensus.Command.Arguments
import VarCensus.Command.Help
import VarCensus.Command.Report
import VarCensus.Config.Toml
import VarCensus.Ignore.Walk
import VarCensus.Table.View
import VarCensus.Theme

/-!
# Running commands

A run takes files and arguments to files and an outcome: what is written to the two streams, and the exit
code. The configuration is read before any command runs. A command that fails has written what it wrote
until then, and ends with a line that says why, with the cause below where there is one.
-/

namespace VarCensus

/-- Why a command failed. -/
inductive Failure where
  | config (cause : ConfigError)
  | library (cause : Error)
  /-- A file with a response could not be read. -/
  | unreadable (path : Path) (cause : FileError)
  /-- The language of a path is not known. -/
  | undetected (path : Path)
  /-- The path of a report is no text, which JSON asks for. -/
  | notText
  | filesFailed (failed total : Nat)
deriving DecidableEq, Repr

namespace Failure

def message : Failure → String
  | .config cause => cause.message
  | .library cause => cause.message
  | .unreadable path _ => "failed to read " ++ path.shown
  | .undetected path => "cannot detect the language of " ++ path.shown
  | .notText => "path contains invalid UTF-8 characters"
  | .filesFailed failed total => s!"{failed} of {total} files failed"

/-- The cause that a failure has beyond itself. -/
def cause? : Failure → Option String
  | .library (.file cause) => some cause.message
  | .unreadable _ cause => some cause.message
  | _ => none

/-- The text with which a command ends that failed. -/
def text (failure : Failure) : String :=
  "Error: " ++ failure.message ++ "\n" ++
    match failure.cause? with
    | some cause => "\nCaused by:\n    " ++ cause ++ "\n"
    | none => ""

end Failure

/-- What is written to the two streams. -/
structure Output where
  out : String
  err : String
deriving DecidableEq, Repr, Inhabited

namespace Output

def none : Output :=
  ⟨"", ""⟩

instance : Append Output where
  append a b := ⟨a.out ++ b.out, a.err ++ b.err⟩

def line (text : String) : Output :=
  ⟨text ++ "\n", ""⟩

def errorLine (text : String) : Output :=
  ⟨"", text ++ "\n"⟩

def join (outputs : List Output) : Output :=
  outputs.foldl (· ++ ·) none

/-! ## Lines by their roles -/

variable (theme : Theme)

def header (text : String) : Output :=
  line ("🚀 " ++ theme.header.apply text)

def success (text : String) : Output :=
  line ("✅ " ++ theme.success.apply text)

def error (text : String) : Output :=
  errorLine ("❌ " ++ theme.error.apply text)

def warn (text : String) : Output :=
  errorLine ("⚠️ " ++ theme.warn.apply text)

def info (label value : String) : Output :=
  line (theme.info.apply "ℹ️" ++ " " ++ theme.dim.apply label ++ ": " ++ value)

def heading (title : String) : Output :=
  line "" ++ line ("━" ++ theme.header.apply title ++ "━")

def row (label value : String) : Output :=
  line ("  " ++ theme.dim.apply label ++ " " ++ value)

/-- The heading above the variables of a file. -/
def fileHeading (path : Path) (language : Language) (records : Nat) : Output :=
  let tag := language.tag
  line "" ++ line ("📄 " ++ theme.header.apply path.shown ++ " " ++
    theme.muted.apply s!"({tag}, {records} variables)")

end Output

/-- What a command comes to: the files as it leaves them, what it wrote, and why it failed if it did. -/
structure Outcome where
  files : Files
  output : Output
  failure : Option Failure

namespace Run

variable (theme : Theme)

/-! ## Extraction -/

/-- What is written about one file. -/
def showReport (report : Report) : Output :=
  let path := report.task.path
  match report.result with
  | .error e => Output.error theme (path.shown ++ ": " ++ e.message)
  | .ok records =>
    Output.fileHeading theme path report.task.language records.length ++
      if records.isEmpty then Output.line ("  " ++ theme.muted.apply "no variables")
      else Output.line (Table.ofRecords records).draw

/-- What is written about all files. -/
def showReports (reports : List Report) : Output :=
  if reports.isEmpty then Output.warn theme "No supported source files found"
  else
    let failed := Report.failures reports
    Output.join (reports.map (showReport theme)) ++ Output.heading theme "Summary" ++
      Output.row theme "Files:" (toString reports.length) ++
      Output.row theme "Variables:" (toString (Report.variableCount reports)) ++
      if failed = 0 then Output.none else Output.row theme "Failed:" (toString failed)

/-- The language with a tag, where a tag is given. -/
def languageOf : Option String → Except Error (Option Language)
  | none => .ok none
  | some tag => (Language.parse tag).map some

/-- How many workers there are unless told otherwise. -/
def usualWorkers : Nat := 1

/-- The tasks of an extraction. -/
def tasksOf (files : Files) (config : Config) (paths : List Path) (language : Option String) :
    Except Failure (List Task) :=
  match languageOf language with
  | .error e => .error (.library e)
  | .ok forced =>
    (Task.collect config files.isDirectory (fun path => Ignore.walk files path config.exclude) forced
      paths).mapError fun
      | .library cause => .library cause
      | .undetected path => .undetected path

/-- What reports come to: what is written, and a failure if one of them is one. Where a path keeps JSON from being
made nothing is written at all. -/
def conclude (reports : List Report) (format : Format) : Output × Option Failure :=
  let failed := Report.failures reports
  let failure : Option Failure := if failed = 0 then none else some (.filesFailed failed reports.length)
  match format with
  | .text => (showReports theme reports, failure)
  | .json =>
    match reports.mapM Report.toJson? with
    | none => (Output.none, some .notText)
    | some items => (Output.line (Json.array items).pretty, failure)

/-- Reads all tasks and shows what came of them. It fails if one of them did, or if they cannot be shown. -/
def showTasks (files : Files) (config : Config) (tasks : List Task) (format : Format) (jobs : Option Nat) :
    Output × Option Failure :=
  let wanted := (jobs.orElse fun _ => config.jobs).getD usualWorkers
  conclude theme (Report.ofTasks files config.limit (workerCount wanted tasks.length) tasks) format

/-! ## Languages -/

/-- A language as JSON. -/
def languageJson (language : Language) : Json :=
  .object [("adapter", .string language.title), ("extensions", .array (language.extensions.map Json.string)),
    ("family", .string language.family.name), ("tag", .string language.tag)]

def showLanguages (config : Config) : Format → Output
  | .json => Output.line (Json.array (Language.all.map languageJson)).pretty
  | .text =>
    let entries := config.overrides.entries
    Output.header theme "Supported languages" ++ Output.line (Table.ofLanguages Language.all).draw ++
      if entries.isEmpty then Output.none
      else Output.heading theme "Extension overrides" ++
        Output.join (entries.map fun (ext, tag) => Output.row theme ("." ++ ext) tag)

/-! ## Suggestions -/

/-- All suggestions of a response. -/
def showSuggestions (set : SuggestionSet) : Format → Output
  | .json => Output.line set.toJson.pretty
  | .text =>
    Output.header theme "Suggestions" ++
      (if set.entries.isEmpty then Output.warn theme "No suggestions found in response" else Output.none) ++
      Output.join (set.entries.map fun entry =>
        Output.row theme (entry.name ++ ":") (Table.listed entry.candidates))

/-- The language of a source: the one with the given tag, else the one that the configuration tells. -/
def sourceLanguage (config : Config) (source : Path) (language : Option String) : Except Failure Language :=
  match languageOf language with
  | .error e => .error (.library e)
  | .ok (some language) => .ok language
  | .ok none =>
    match config.languageFor source with
    | .error e => .error (.library e)
    | .ok none => .error (.undetected source)
    | .ok (some language) => .ok language

/-- The variables of a source with the names suggested for them. -/
def showReviews (set : SuggestionSet) (source : Path) (language : Language) (records : List Record) :
    Format → Output
  | .json => Output.line (Json.array ((set.reviews records).map Review.toJson)).pretty
  | .text =>
    let unknown := (set.entries.filter fun entry => !records.any (·.name == entry.name)).map (·.name)
    Output.fileHeading theme source language records.length ++
      Output.line (Table.ofReviews (set.reviews records)).draw ++
      if unknown.isEmpty then Output.none
      else Output.warn theme ("Suggestions for unknown variables: " ++ Table.listed unknown)

/-- Shows the suggestions of a response, for the variables of a source if one is given. -/
def suggestions (files : Files) (config : Config) (response : Path) (source : Option Path)
    (language : Option String) (format : Format) : Output × Option Failure :=
  match files.read response with
  | .error cause => (Output.none, some (.unreadable response cause))
  | .ok document =>
    let set := SuggestionSet.parse document.text
    let intro := if format = .text then Output.info theme "Response" response.shown else Output.none
    match source with
    | none => (intro ++ showSuggestions theme set format, none)
    | some source =>
      match sourceLanguage config source language with
      | .error failure => (intro, some failure)
      | .ok language =>
        match files.extract config.limit (some language) source with
        | .error e => (intro, some (.library e))
        | .ok records => (intro ++ showReviews theme set source language records format, none)

/-! ## Commands -/

/-- Runs a command under a configuration. `place` is where a new configuration goes. -/
def command (files : Files) (config : Config) (place : Path) : Command → Outcome
  | .extract paths language format jobs =>
    match tasksOf files config paths language with
    | .error failure => ⟨files, Output.none, some failure⟩
    | .ok tasks =>
      let (output, failure) := showTasks theme files config tasks format jobs
      ⟨files, output, failure⟩
  | .languages format => ⟨files, showLanguages theme config format, none⟩
  | .suggestions response source language format =>
    let (output, failure) := suggestions theme files config response source language format
    ⟨files, output, failure⟩
  | .init force =>
    match Config.starter.write .toml files place force with
    | .error cause => ⟨files, Output.none, some (.config cause)⟩
    | .ok files => ⟨files, Output.success theme ("Wrote " ++ place.shown), none⟩

/-- Runs a command after the configuration has been read. -/
def invocation (files : Files) (invocation : Invocation) : Outcome :=
  match Config.load .toml files invocation.config with
  | .error cause => ⟨files, Output.none, some (.config cause)⟩
  | .ok config =>
    command theme files (config.getD .empty) (invocation.config.getD Config.defaultPath) invocation.command

end Run

/-- How the program ends. -/
structure Exit where
  files : Files
  code : Nat
  output : Output
  failure : Option Failure

/-- The exit code for arguments that make no sense. -/
def misuseCode : Nat := 2

/-- Runs the program on files with arguments. -/
def run (theme : Theme) (files : Files) (arguments : List String) : Exit :=
  let shown (text : String) : Exit := ⟨files, 0, ⟨text, ""⟩, none⟩
  match Arguments.read arguments with
  | .misuse => ⟨files, misuseCode, ⟨"", "Error: the arguments make no sense\n"⟩, none⟩
  | .version => shown Help.version
  | .help none long => shown (Help.onProgram long)
  | .help (some verb) _ => shown (Help.onVerb verb)
  | .helpOnHelp => shown Help.onHelp
  | .run invocation =>
    let outcome := Run.invocation theme files invocation
    match outcome.failure with
    | none => ⟨outcome.files, 0, outcome.output, none⟩
    | some failure => ⟨outcome.files, 1, outcome.output ++ ⟨"", failure.text⟩, some failure⟩

end VarCensus

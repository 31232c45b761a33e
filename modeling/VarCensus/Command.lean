import VarCensus.Path

/-!
# Commands

What the program can be asked to do, and the switches by which it is asked. The verbosity and the place of
the configuration may be given before or after the name of a command.
-/

namespace VarCensus

/-- How results are written. -/
inductive Format where
  | text
  | json
deriving DecidableEq, Repr

/-- What is to be done. -/
inductive Command where
  /-- Lists the variables of files and directories. -/
  | extract (paths : List Path) (language : Option String) (format : Format) (jobs : Option Nat)
  | languages (format : Format)
  /-- Shows the names that a response suggests, for the variables of a source if one is given. -/
  | suggestions (response : Path) (source : Option Path) (language : Option String) (format : Format)
  /-- Writes a configuration to start from. -/
  | init (force : Bool)
deriving DecidableEq, Repr

/-- A command with what holds for all commands. -/
structure Invocation where
  verbose : Bool
  /-- Where the configuration is, if not in its usual place. -/
  config : Option Path
  command : Command
deriving DecidableEq, Repr

/-- The paths that a command names, in the order in which they are looked at. -/
def Invocation.paths (invocation : Invocation) : List Path :=
  invocation.config.toList ++
    match invocation.command with
    | .extract paths _ _ _ => paths
    | .languages _ => []
    | .suggestions response source _ _ => response :: source.toList
    | .init _ => []

/-- A command by its name only. -/
inductive Verb where
  | extract
  | languages
  | suggestions
  | init
deriving DecidableEq, Repr

namespace Verb

def all : List Verb :=
  [.extract, .languages, .suggestions, .init]

def name : Verb → String
  | .extract => "extract"
  | .languages => "languages"
  | .suggestions => "suggestions"
  | .init => "init"

/-- What a command does, in a few words. -/
def about : Verb → String
  | .extract => "Extract variable declarations from files or directories"
  | .languages => "List supported languages"
  | .suggestions => "Parse a model response and show its naming suggestions"
  | .init => "Write a starter aliasbot.toml"

def ofName? (text : String) : Option Verb :=
  all.find? (·.name == text)

end Verb

/-- A switch. -/
inductive Switch where
  | verbose
  | config
  | help
  | version
  | language
  | format
  | jobs
  | response
  | source
  | force
deriving DecidableEq, Repr

namespace Switch

/-- The name behind two dashes. -/
def name : Switch → String
  | .verbose => "verbose"
  | .config => "config"
  | .help => "help"
  | .version => "version"
  | .language => "language"
  | .format => "format"
  | .jobs => "jobs"
  | .response => "response"
  | .source => "source"
  | .force => "force"

/-- The letter behind one dash. -/
def letter : Switch → Char
  | .verbose => 'v'
  | .config => 'c'
  | .help => 'h'
  | .version => 'V'
  | .language => 'l'
  | .format => 'f'
  | .jobs => 'j'
  | .response => 'r'
  | .source => 's'
  | .force => 'f'

/-- Whether a value follows. -/
def takesValue : Switch → Bool
  | .config | .language | .format | .jobs | .response | .source => true
  | .verbose | .help | .version | .force => false

/-- The switches that may stand before the name of a command, in the order in which they are listed. -/
def general : List Switch :=
  [.verbose, .config, .help, .version]

/-- The switches of a command, in the order in which they are listed. -/
def ofVerb : Verb → List Switch
  | .extract => [.language, .verbose, .config, .format, .jobs, .help]
  | .languages => [.format, .verbose, .config, .help]
  | .suggestions => [.response, .verbose, .config, .source, .language, .format, .help]
  | .init => [.force, .verbose, .config, .help]

end Switch

/-- The format with a given name. -/
def Format.ofName? (text : String) : Option Format :=
  if text == "text" then some .text else if text == "json" then some .json else none

end VarCensus

import VarCensus.Command

/-!
# Help

What is written when help is asked for: what a command does, how it is called, and its arguments in two
columns. The program as a whole has a longer text as well, with each description on a line of its own.
-/

namespace VarCensus
namespace Help

/-- The name and the version of the program. -/
def version : String := "aliasbot 0.1.0\n"

/-- What the program does, in a few words. -/
def about : String := "Multi-language variable extraction for naming review\n"

/-- What the program does, at length. -/
def longAbout : String :=
  "Aliasbot finds variable declarations in source files, reporting each\n" ++
  "variable's initializer, value kind and (for JavaScript and TypeScript)\n" ++
  "every place it is read.\n\n" ++
  "Example usage:\n" ++
  "  aliasbot extract src/\n" ++
  "  aliasbot extract main.py --format json\n" ++
  "  aliasbot suggestions --response reply.md --source app.js\n\n"

/-- A switch as it is written, with the name of its value. -/
def form (switch : Switch) : String :=
  let value := if switch.takesValue then " <" ++ String.ofList (switch.name.toList.map Char.toUpper) ++ ">" else ""
  "-" ++ switch.letter.toString ++ ", --" ++ switch.name ++ value

/-- What a switch is for; `verb` is the command it belongs to, if any. -/
def purpose (verb : Option Verb) : Switch → String
  | .verbose => "Enable verbose logging"
  | .config => "Path to the config file (defaults to ./aliasbot.toml)"
  | .help => "Print help"
  | .version => "Print version"
  | .language =>
    if verb = some .extract then "Language of the given files; restricts directory walks to that language"
    else "Language of the source file"
  | .format => "Output format [default: text] [possible values: text, json]"
  | .jobs => "Worker threads (defaults to the config value, then the CPU count)"
  | .response => "File holding the model response"
  | .source => "Source file whose variables the suggestions are for"
  | .force => "Overwrite an existing config"

/-- Rows of two columns. -/
def columns (rows : List (String × String)) : String :=
  let width := rows.foldl (fun w row => max w row.1.length) 0
  String.join (rows.map fun (left, right) =>
    "  " ++ left ++ String.ofList (List.replicate (width - left.length) ' ') ++ "  " ++ right ++ "\n")

/-- Rows with the right side below the left. -/
def stacked (rows : List (String × String)) : String :=
  "\n".intercalate (rows.map fun (left, right) => "  " ++ left ++ "\n          " ++ right ++ "\n")

/-- The commands of the program. -/
def commands : String :=
  columns (Verb.all.map (fun verb => (verb.name, verb.about)) ++
    [("help", "Print this message or the help of the given subcommand(s)")])

/-- How a command is called. -/
def usage : Verb → String
  | .extract => "aliasbot extract [OPTIONS] <PATHS>..."
  | .languages => "aliasbot languages [OPTIONS]"
  | .suggestions => "aliasbot suggestions [OPTIONS] --response <RESPONSE>"
  | .init => "aliasbot init [OPTIONS]"

/-- Help on the program. -/
def onProgram (long : Bool) : String :=
  let more := if long then " (see a summary with '-h')" else " (see more with '--help')"
  let rows := Switch.general.map fun switch =>
    (form switch, purpose none switch ++ if switch = .help then more else "")
  (if long then longAbout else about) ++ "\nUsage: aliasbot [OPTIONS] <COMMAND>\n\nCommands:\n" ++ commands ++
    "\nOptions:\n" ++ if long then stacked rows else columns rows

/-- Help on a command. -/
def onVerb (verb : Verb) : String :=
  verb.about ++ "\n\nUsage: " ++ usage verb ++ "\n\n" ++
    (if verb = .extract then "Arguments:\n  <PATHS>...  Files or directories to scan\n\n" else "") ++
    "Options:\n" ++ columns ((Switch.ofVerb verb).map fun switch => (form switch, purpose (some verb) switch))

/-- Help on the help command. -/
def onHelp : String :=
  "Print this message or the help of the given subcommand(s)\n\nUsage: aliasbot help [COMMAND]...\n\n" ++
    "Arguments:\n  [COMMAND]...  Print help for the subcommand(s)\n"

end Help
end VarCensus

import VarCensus.Command
import VarCensus.Json

/-!
# Reading arguments

Arguments are read from left to right. A switch is given by its name behind two dashes or by its letter
behind one; letters may be run together, and a value may follow as the next argument, behind an equals
sign, or right behind a letter. A value never opens with a dash, unless it is only that. Behind two lone
dashes everything is a path. No switch may be given twice in one place.

The first thing that is wrong, or the first wish for help or the version, settles the matter.

Arguments are texts, and so are the paths among them; a path that is no text is met only below a directory.
-/

namespace VarCensus
namespace Arguments

/-- What arguments ask for. -/
inductive Wish where
  | run (invocation : Invocation)
  | version
  /-- Help on the program or a command; `long` asks for all that there is to say. -/
  | help (verb : Option Verb) (long : Bool)
  /-- Help on the help command. -/
  | helpOnHelp
  /-- The arguments make no sense. -/
  | misuse
deriving DecidableEq, Repr

/-- What has been given: switches with their values, the last one first, and paths, likewise. -/
structure Given where
  switches : List (Switch × String)
  paths : List String
deriving DecidableEq, Repr, Inhabited

namespace Given

def has (given : Given) (switch : Switch) : Bool :=
  given.switches.any (·.1 == switch)

def value? (given : Given) (switch : Switch) : Option String :=
  given.switches.lookup switch

end Given

/-! ## Values -/

/-- A number: digits, with a plus sign in front if it likes. -/
def number? (text : String) : Option Nat :=
  let digits := match text.toList with
    | '+' :: rest => rest
    | cs => cs
  if digits.isEmpty || !digits.all Char.isDigit then none
  else
    let n := digits.foldl (fun n c => 10 * n + (c.toNat - '0'.toNat)) 0
    if n ≤ Json.maxNumber then some n else none

/-- Whether a switch takes a value; paths may not be empty. -/
def accepts (switch : Switch) (value : String) : Bool :=
  match switch with
  | .config | .response | .source => !value.isEmpty
  | .format => (Format.ofName? value).isSome
  | .jobs => (number? value).isSome
  | _ => true

/-- Adds a switch that is not there yet, with a value that it takes. -/
def give? (given : Given) (switch : Switch) (value : String) : Option Given :=
  if given.has switch || !accepts switch value then none
  else some { given with switches := (switch, value) :: given.switches }

/-! ## Single arguments -/

/-- What one argument with dashes in front comes to. -/
inductive Reading where
  | given (given : Given)
  /-- The value of a switch has to follow. -/
  | needsValue (given : Given) (switch : Switch)
  | version
  | help (long : Bool)
  | misuse

/-- Turns a missing result into misuse. -/
def orMisuse : Option Given → Reading
  | some given => .given given
  | none => .misuse

/-- Reads the name of a switch, with its value behind an equals sign if there is one. -/
def readName (allowed : List Switch) (given : Given) (text : List Char) : Reading :=
  let name := text.takeWhile (· != '=')
  let value := match text.drop name.length with
    | _ :: rest => some (String.ofList rest)
    | [] => none
  match allowed.find? (·.name == String.ofList name), value with
  | none, _ => .misuse
  | some switch, some value => if switch.takesValue then orMisuse (give? given switch value) else .misuse
  | some .help, none => .help true
  | some .version, none => .version
  | some switch, none =>
    if switch.takesValue then .needsValue given switch else orMisuse (give? given switch "")

/-- Reads letters that are run together. -/
def readLetters (allowed : List Switch) (given : Given) : List Char → Reading
  | [] => .given given
  | c :: rest =>
    match allowed.find? (·.letter == c) with
    | none => .misuse
    | some .help => .help false
    | some .version => .version
    | some switch =>
      if switch.takesValue then
        match rest with
        | [] => .needsValue given switch
        | '=' :: value => orMisuse (give? given switch (String.ofList value))
        | value => orMisuse (give? given switch (String.ofList value))
      else match give? given switch "" with
        | some given => readLetters allowed given rest
        | none => .misuse

/-- Reads an argument that opens with a dash and is more than that; any other argument is plain. -/
def readSwitch? (allowed : List Switch) (given : Given) (argument : String) : Option Reading :=
  match argument.toList with
  | '-' :: '-' :: text => some (readName allowed given text)
  | '-' :: c :: rest => some (readLetters allowed given (c :: rest))
  | _ => none

/-- Whether an argument can be a value: it does not open with a dash, or is only that. -/
def canBeValue (argument : String) : Bool :=
  match argument.toList with
  | '-' :: _ :: _ => false
  | _ => true

/-! ## All arguments -/

/-- What a run of arguments comes to. -/
inductive Level where
  | finished (given : Given)
  /-- A plain argument where the name of a command was due, and what follows it. -/
  | plain (given : Given) (argument : String) (rest : List String)
  | version
  | help (long : Bool)
  | misuse

/-- Reads arguments. With `takesPaths` plain arguments are paths, else the first one ends the run. `pending` is
a switch whose value is due, and `onlyPaths` tells that two lone dashes have passed. -/
def readLevel (allowed : List Switch) (takesPaths : Bool) :
    Given → Option Switch → Bool → List String → Level
  | given, none, _, [] => .finished given
  | _, some _, _, [] => .misuse
  | given, some switch, onlyPaths, argument :: rest =>
    if canBeValue argument then
      match give? given switch argument with
      | some given => readLevel allowed takesPaths given none onlyPaths rest
      | none => .misuse
    else .misuse
  | given, none, onlyPaths, argument :: rest =>
    let asPath : Level :=
      if takesPaths && !argument.isEmpty then
        readLevel allowed takesPaths { given with paths := argument :: given.paths } none onlyPaths rest
      else .misuse
    if onlyPaths then asPath
    else if argument == "--" then readLevel allowed takesPaths given none true rest
    else match readSwitch? allowed given argument with
      | some (.given given) => readLevel allowed takesPaths given none false rest
      | some (.needsValue given switch) => readLevel allowed takesPaths given (some switch) false rest
      | some .version => .version
      | some (.help long) => .help long
      | some .misuse => .misuse
      | none => if takesPaths then asPath else .plain given argument rest

/-- The format that was asked for. -/
def formatOf (given : Given) : Format :=
  ((given.value? .format).bind Format.ofName?).getD .text

/-- The command that was asked for, if what it needs has been given. -/
def commandOf? (verb : Verb) (given : Given) : Option Command :=
  match verb with
  | .extract =>
    if given.paths.isEmpty then none
    else some (.extract (given.paths.reverse.map Path.ofString) (given.value? .language) (formatOf given)
      ((given.value? .jobs).bind number?))
  | .languages => some (.languages (formatOf given))
  | .suggestions =>
    (given.value? .response).map fun response =>
      .suggestions response ((given.value? .source).map Path.ofString) (given.value? .language) (formatOf given)
  | .init => some (.init (given.has .force))

/-- Reads what follows the name of a command. A configuration given there counts before one given earlier. -/
def readCommand (verb : Verb) (outer : Given) (arguments : List String) : Wish :=
  match readLevel (Switch.ofVerb verb) (verb == .extract) default none false arguments with
  | .finished given =>
    match commandOf? verb given with
    | some command =>
      .run ⟨outer.has .verbose || given.has .verbose,
        ((given.value? .config).orElse fun _ => outer.value? .config).map Path.ofString, command⟩
    | none => .misuse
  | .help _ => .help (some verb) false
  | .version | .plain .. | .misuse => .misuse

/-- Reads what follows the help command. -/
def readHelp : List String → Wish
  | [] => .help none true
  | [name] =>
    if name == "help" then .helpOnHelp
    else match Verb.ofName? name with
      | some verb => .help (some verb) false
      | none => .misuse
  | _ => .misuse

/-- What arguments ask for. -/
def read (arguments : List String) : Wish :=
  match readLevel Switch.general false default none false arguments with
  | .plain given name rest =>
    if name == "help" then readHelp rest
    else match Verb.ofName? name with
      | some verb => readCommand verb given rest
      | none => .misuse
  | .version => .version
  | .help long => .help none long
  | .finished _ | .misuse => .misuse

end Arguments
end VarCensus

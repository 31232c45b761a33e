import VarCensus.Text.Quoted
import VarCensus.Language
import VarCensus.Kind

/-!
# What can go wrong

The causes for which reading a source fails, and the wording of each. Scanned languages never fail on
account of their text: only a missing file, an unknown language or a faulty syntax tree stops an
extraction.
-/

namespace VarCensus

/-- Why a file could not be read or written. -/
inductive FileError where
  | notFound
  | notADirectory
  | isADirectory
  /-- The bytes are not UTF-8. -/
  | notText
deriving DecidableEq, Repr

def FileError.message : FileError → String
  | .notFound => "No such file or directory (os error 2)"
  | .notADirectory => "Not a directory (os error 20)"
  | .isADirectory => "Is a directory (os error 21)"
  | .notText => "stream did not contain valid UTF-8"

/-- Why an extraction failed. -/
inductive Error where
  | unsupportedLanguage (tag : String)
  /-- The syntax tree has a fault; line and offset of the first one, as far as known. -/
  | parse (language : Language) (line offset : Option Nat)
  | grammar (text : String)
  | invalidKind (raw : String)
  | file (cause : FileError)
deriving DecidableEq, Repr

namespace Error

/-- Where a fault lies, in words. -/
def describePlace : Option Nat → Option Nat → String
  | some line, some offset => s!" at line {line} (offset {offset})"
  | some line, none => s!" at line {line}"
  | none, some offset => s!" at offset {offset}"
  | none, none => ""

/-- The wording of an error. -/
def message : Error → String
  | .unsupportedLanguage tag => "Unsupported language: " ++ tag
  | .parse language line offset =>
    "Parse error in " ++ language.tag ++ " source" ++ describePlace line offset
  | .grammar text => "Grammar error: " ++ text
  | .invalidKind raw => "Invalid value kind: " ++ Text.quote raw
  | .file cause => "IO error: " ++ cause.message

end Error

/-- The language with a given tag, or the error that there is none. -/
def Language.parse (text : String) : Except Error Language :=
  match Language.ofTag? text with
  | some language => .ok language
  | none => .error (.unsupportedLanguage text)

/-- The kind with a given text, or the error that the text is blank. -/
def Kind.parse (raw : String) : Except Error Kind :=
  match Kind.ofText? raw with
  | some kind => .ok kind
  | none => .error (.invalidKind raw)

end VarCensus

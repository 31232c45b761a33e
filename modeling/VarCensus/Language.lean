import VarCensus.Text.Blank
import VarCensus.Path

/-!
# Languages

The six languages that can be read, the tags by which they are called and the file extensions by which
they are recognised. A language belongs to one of two families: the *grammar* family is read from a
syntax tree and knows where a variable is read, the *heuristic* family is scanned for declarations only.
-/

namespace VarCensus

/-- How a language is read. -/
inductive Family where
  | grammar
  | heuristic
deriving DecidableEq, Repr

/-- A language that can be read. -/
inductive Language where
  | javascript
  | typescript
  /-- TypeScript with embedded markup. -/
  | tsx
  | python
  | java
  | cpp
deriving DecidableEq, Repr, Inhabited

/-- The name of a family. -/
def Family.name : Family → String
  | .grammar => "grammar"
  | .heuristic => "heuristic"

namespace Language

/-- All languages, in the order in which they are listed. -/
def all : List Language :=
  [.javascript, .typescript, .tsx, .python, .java, .cpp]

/-- The tag under which a language is reported. -/
def tag : Language → String
  | .javascript => "javascript"
  | .typescript => "typescript"
  | .tsx => "typescriptreact"
  | .python => "python"
  | .java => "java"
  | .cpp => "cpp"

/-- Every tag under which a language may be asked for. -/
def tags : Language → List String
  | .javascript => ["javascript", "javascriptreact", "js", "jsx"]
  | .typescript => ["typescript", "ts"]
  | .tsx => ["typescriptreact", "tsx"]
  | .python => ["python", "py"]
  | .java => ["java"]
  | .cpp => ["cpp", "c++"]

def family : Language → Family
  | .javascript | .typescript | .tsx => .grammar
  | .python | .java | .cpp => .heuristic

/-- The name of a language as a title. -/
def title : Language → String
  | .javascript => "JavaScript"
  | .typescript => "TypeScript"
  | .tsx => "TypeScript JSX"
  | .python => "Python"
  | .java => "Java"
  | .cpp => "C++"

/-- The file extensions of a language. -/
def extensions : Language → List String
  | .javascript => ["js", "jsx", "mjs", "cjs"]
  | .typescript => ["ts", "mts", "cts"]
  | .tsx => ["tsx"]
  | .python => ["py", "pyi"]
  | .java => ["java"]
  | .cpp => ["cpp", "cc", "cxx", "hpp", "hh", "hxx", "h"]

/-- A text with its ASCII capitals lowered. -/
def lowerAscii (s : String) : String :=
  String.ofList (s.toList.map Char.toLower)

/-- The language with a given tag. Blanks around the tag and the case of its letters do not matter; no
character outside ASCII lowers to a letter of a tag, so lowering the ASCII capitals is enough. -/
def ofTag? (text : String) : Option Language :=
  let wanted := lowerAscii (Text.trim text)
  all.find? fun language => language.tags.contains wanted

/-- The language of files with a given extension, whatever its case. -/
def ofExtension? (ext : String) : Option Language :=
  let wanted := lowerAscii ext
  all.find? fun language => language.extensions.contains wanted

/-- The language that the extension of a path tells. -/
def ofPath? (path : Path) : Option Language :=
  path.extension?.bind ofExtension?

end Language
end VarCensus

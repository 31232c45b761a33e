import VarCensus.Language
import VarCensus.Lexicon

/-!
# Dialects of typed declarations

Java and C++ declare variables in one common form: modifiers, a type, and then declarators with commas
between them and a semicolon at the end. A `Dialect` holds the words and the liberties by which the two
differ; everything about the form itself is shared.
-/

namespace VarCensus

/-- The words and liberties of one language with typed declarations. -/
structure Dialect where
  language : Language
  lexicon : Lexicon
  /-- Names of built-in types. -/
  primitives : List String
  /-- Words that leave the type to the value. -/
  inferred : List String
  /-- Names that are types although they open with a small letter. -/
  libraryTypes : List String
  modifiers : List String
  /-- Words that are neither types nor names. -/
  keywords : List String
  /-- Keywords whose parenthesis may open with a declaration. -/
  headers : List String
  /-- What separates the parts of a qualified name. -/
  separator : String
  /-- Annotations may stand among the modifiers. -/
  annotations : Bool
  /-- Stars and ampersands may stand before a declared name. -/
  pointers : Bool
  /-- A value may be given in braces right after the name. -/
  braceValues : Bool
  /-- Every qualified name is taken for a type. -/
  qualifiedTypes : Bool
  /-- An ending by which a name is taken for a type. -/
  typeSuffix : Option String
deriving DecidableEq, Repr

namespace Dialect

def java : Dialect where
  language := .java
  lexicon := .java
  primitives := ["boolean", "byte", "char", "short", "int", "long", "float", "double", "void"]
  inferred := ["var"]
  libraryTypes := []
  modifiers := ["public", "protected", "private", "static", "final", "abstract", "transient", "volatile",
    "synchronized", "native", "strictfp", "sealed"]
  keywords := ["assert", "break", "case", "catch", "class", "continue", "default", "do", "else", "enum",
    "extends", "finally", "for", "goto", "if", "implements", "import", "instanceof", "interface", "new",
    "package", "permits", "return", "super", "switch", "this", "throw", "throws", "try", "while", "yield",
    "null", "true", "false"]
  headers := ["for", "try"]
  separator := "."
  annotations := true
  pointers := false
  braceValues := false
  qualifiedTypes := false
  typeSuffix := none

def cpp : Dialect where
  language := .cpp
  lexicon := .cpp
  primitives := ["bool", "char", "wchar_t", "char8_t", "char16_t", "char32_t", "short", "int", "long",
    "signed", "unsigned", "float", "double", "void"]
  inferred := ["auto"]
  libraryTypes := ["string", "wstring", "string_view", "vector", "map", "set", "unordered_map",
    "unordered_set", "list", "deque", "array", "pair", "tuple", "optional", "variant", "function",
    "shared_ptr", "unique_ptr", "weak_ptr"]
  modifiers := ["const", "constexpr", "consteval", "constinit", "static", "extern", "inline", "volatile",
    "mutable", "register", "thread_local", "virtual", "explicit"]
  keywords := ["alignas", "alignof", "asm", "break", "case", "catch", "class", "co_await", "co_return",
    "co_yield", "concept", "continue", "decltype", "default", "delete", "do", "else", "enum", "export",
    "false", "for", "friend", "goto", "if", "namespace", "new", "noexcept", "nullptr", "operator",
    "private", "protected", "public", "requires", "return", "sizeof", "static_assert", "static_cast",
    "dynamic_cast", "reinterpret_cast", "const_cast", "struct", "switch", "template", "this", "throw",
    "true", "try", "typedef", "typeid", "typename", "union", "using", "while"]
  headers := ["for", "if", "switch"]
  separator := "::"
  annotations := false
  pointers := true
  braceValues := true
  qualifiedTypes := true
  typeSuffix := some "_t"

/-- Whether a word can be no variable's name. -/
def isReserved (d : Dialect) (word : String) : Bool :=
  d.keywords.contains word || d.modifiers.contains word || d.primitives.contains word

/-- The bytes of the separator of qualified names. -/
def separatorBytes (d : Dialect) : List UInt8 :=
  d.separator.toUTF8.toList

end Dialect
end VarCensus

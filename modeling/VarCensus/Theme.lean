/-!
# Styles of terminal text

A style is a list of codes that are switched on before a text and all switched off after it; the style
without codes leaves a text as it is. A theme names a style for each role that text plays in a report.
-/

namespace VarCensus

/-- The codes of a style, in the order in which they are switched on. -/
structure Style where
  codes : List String
deriving DecidableEq, Repr

/-- A text in a style. -/
def Style.apply (style : Style) (text : String) : String :=
  if style.codes.isEmpty then text
  else "\x1b[" ++ ";".intercalate style.codes ++ "m" ++ text ++ "\x1b[0m"

/-- A style for each role. -/
structure Theme where
  header : Style
  success : Style
  error : Style
  warn : Style
  info : Style
  dim : Style
  muted : Style
  /-- Names of variables. -/
  name : Style
  /-- Kinds of values. -/
  kind : Style
deriving DecidableEq, Repr

namespace Theme

/-- The theme for a terminal with colours. -/
def colored : Theme where
  header := ⟨["36", "1"]⟩
  success := ⟨["32", "1"]⟩
  error := ⟨["31", "1"]⟩
  warn := ⟨["33", "1"]⟩
  info := ⟨["35"]⟩
  dim := ⟨["37", "2"]⟩
  muted := ⟨["90"]⟩
  name := ⟨["1"]⟩
  kind := ⟨["34"]⟩

/-- The theme that leaves every text as it is. -/
def plain : Theme :=
  ⟨⟨[]⟩, ⟨[]⟩, ⟨[]⟩, ⟨[]⟩, ⟨[]⟩, ⟨[]⟩, ⟨[]⟩, ⟨[]⟩, ⟨[]⟩⟩

end Theme
end VarCensus

import VarCensus.Error
import VarCensus.Python
import VarCensus.Dialect.Declaration
import VarCensus.Tree.Reads

/-!
# Extraction

One way in for all languages. A `Document` is a text, with the syntax tree that a grammar made of it where
there is one; `extract` finds the variables it declares. The scanned languages never fail; the others fail
exactly when their tree says it has a fault, and then name the first one.

An adapter is a language together with the bound that its scans keep to; a registry is a list of adapters,
of which the first that handles a language counts.
-/

namespace VarCensus

/-- A text to be read. -/
structure Document where
  text : String
  /-- The syntax tree of the text, for the languages that are read from one. -/
  tree : Option Tree
deriving Inhabited

/-- The variables of a tree, or its first fault. -/
def Tree.extract (language : Language) (src : Source) (tree : Tree) : Except Error (List Record) :=
  if tree.label.hasError then
    let fault := tree.firstFault?
    .error (.parse language (fault.map fun label => (Tree.place label src).line) (fault.map (·.start)))
  else .ok (Tree.recordsOf src tree)

/-- The variables that a document in a language declares; `limit` bounds how far one declaration of a
scanned language may extend. -/
def Language.extract (language : Language) (limit : Nat) (document : Document) :
    Except Error (List Record) :=
  let src := Source.ofString document.text
  match language with
  | .python => .ok (Python.records limit src)
  | .java => .ok (Dialect.java.records limit src)
  | .cpp => .ok (Dialect.cpp.records limit src)
  | .javascript | .typescript | .tsx =>
    match document.tree with
    | some tree => tree.extract language src
    | none => .error (.grammar "no syntax tree")

/-- The variables that a document declares in the language with the given tag. -/
def extract (limit : Nat) (tag : String) (document : Document) : Except Error (List Record) :=
  match Language.parse tag with
  | .ok language => language.extract limit document
  | .error e => .error e

/-- A language with the bound that its scans keep to. -/
structure Adapter where
  language : Language
  lookahead : Nat
deriving DecidableEq, Repr

namespace Adapter

/-- The languages that an adapter handles. -/
def languages (adapter : Adapter) : List Language :=
  [adapter.language]

def handles (adapter : Adapter) (language : Language) : Bool :=
  adapter.languages.contains language

def extract (adapter : Adapter) (document : Document) : Except Error (List Record) :=
  adapter.language.extract adapter.lookahead document

end Adapter

/-- Adapters in the order in which they were registered. -/
structure Registry where
  adapters : List Adapter
deriving DecidableEq, Repr

namespace Registry

def empty : Registry :=
  ⟨[]⟩

/-- The registry with one adapter for each language. -/
def full (lookahead : Nat) : Registry :=
  ⟨Language.all.map fun language => ⟨language, lookahead⟩⟩

def register (registry : Registry) (adapter : Adapter) : Registry :=
  ⟨registry.adapters ++ [adapter]⟩

/-- The first adapter that handles a language. -/
def find? (registry : Registry) (language : Language) : Option Adapter :=
  registry.adapters.find? (·.handles language)

end Registry
end VarCensus

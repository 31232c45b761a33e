import VarCensus.Files
import VarCensus.Ignore.Rule

/-!
# Walks

All files below a directory that nothing asks to leave out, in the order of names.

Two things can leave an entry out. The *rules of the directories* are those in the ignore files of its
directory and of all directories around it: a nearer directory counts before an outer one, the general
ignore files of all directories count before those of version control, and those before its exclusion
files. An entry on which they are silent is left out if its name opens with a dot. The *filter* of a walk
is made of the ignore files in the directory where the walk starts, of directories that hold no sources of
a project's own, and of patterns that the project adds; its later rules count before earlier ones.
-/

namespace VarCensus
namespace Ignore

/-! ## The filter of a walk -/

/-- Directories and files that hold no sources of a project's own. -/
def usual : List String :=
  ["target/", "node_modules/", "venv/", ".venv/", "vendor/", "dist/", "build/", "out/", "coverage/",
    "__pycache__/", ".git/", ".vscode/", ".idea/", "*.min.js"]

/-- Rules for paths that are given from where `root` is. -/
structure Filter where
  root : Path
  rules : Rules

/-- A path without a single dot in front. -/
def withoutDot (path : Path) : Path :=
  match path.bytes with
  | a :: b :: rest => if a = Path.dot ∧ b = Path.slash then ⟨rest⟩ else path
  | _ => path

/-- The rules in the file at the end of some names below an entry. -/
def rulesAt (entry : Entry) (names : List Path) : Rules :=
  match entry.at? names with
  | some (.file bytes _) => .ofBytes bytes
  | _ => []

/-- The filter of a walk that starts at a path. -/
def Filter.make (files : Files) (root : Path) (exclude : List String) : Filter where
  root := withoutDot root
  rules :=
    let entry := (files.locate root).toOption.getD (.directory [])
    rulesAt entry [".gitignore"] ++ rulesAt entry [".ignore"] ++
      Rules.ofLines ((usual ++ exclude).map String.toList)

/-- A path as seen from the directory of a filter. A path that is a mere name is left as it is, and so is any
path when the filter is for the place from which paths are given. -/
def Filter.relative (filter : Filter) (path : Path) : List UInt8 :=
  let bytes := (withoutDot path).bytes
  if filter.root.steps ≠ [.here] ∧ bytes.contains Path.slash then
    match dropFront? filter.root.bytes bytes with
    | some (b :: rest) => if b = Path.slash then rest else b :: rest
    | some [] => []
    | none => bytes
  else bytes

/-- Whether a filter leaves a path out. -/
def Filter.ignores (filter : Filter) (path : Path) (isDirectory : Bool) : Bool :=
  filter.rules.judge (filter.relative path) isDirectory = .ignore

/-! ## The rules of directories -/

/-- The ignore files of one directory, and the names that lead from it to where a walk is. -/
structure Level where
  general : Rules
  versioned : Rules
  excluded : Rules
  names : List Path

/-- The level of a directory in which a walk is. -/
def Level.ofEntry (entry : Entry) : Level :=
  ⟨rulesAt entry [".ignore"], rulesAt entry [".gitignore"], rulesAt entry [".git", "info", "exclude"], []⟩

/-- The level when a walk goes into a directory below. -/
def Level.enter (name : Path) (level : Level) : Level :=
  { level with names := level.names ++ [name] }

/-- The verdict of one kind of rules for an entry with a name; `levels` has the nearest directory first. -/
def judgeBy (kind : Level → Rules) (levels : List Level) (name : Path) (isDirectory : Bool) : Verdict :=
  levels.foldr (fun level outer =>
    ((kind level).judge (Path.join (level.names ++ [name])).bytes isDirectory).orElse outer) .silent

/-- The verdict of the rules of all directories around an entry. -/
def judgeEntry (levels : List Level) (name : Path) (isDirectory : Bool) : Verdict :=
  (judgeBy Level.general levels name isDirectory).orElse <|
    (judgeBy Level.versioned levels name isDirectory).orElse <|
      judgeBy Level.excluded levels name isDirectory

/-- Whether the rules of directories leave an entry out: they say so, or are silent on a name that opens with
a dot. -/
def leavesOut (levels : List Level) (name : Path) (isDirectory : Bool) : Bool :=
  match judgeEntry levels name isDirectory with
  | .ignore => true
  | .keep => false
  | .silent => name.bytes.head? = some Path.dot

/-- The levels of the directories on the way from an entry by some names, the innermost first and without
the last one. -/
def levelsAbove (entry : Entry) (above : List Level) : List Path → List Level
  | [] => above
  | name :: rest =>
    levelsAbove ((entry.child? name).getD (.directory []))
      ((Level.ofEntry entry :: above).map (Level.enter name)) rest

/-! ## Walks -/

/-- A path with a name behind it. -/
def extend (path name : Path) : Path :=
  if path.bytes.getLast? = some Path.slash then path ++ name else path ++ "/" ++ name

mutual

/-- The files of an entry, which itself is not left out. -/
def filesOf (filter : Filter) (above : List Level) (path : Path) : Entry → List Path
  | .file _ _ => [path]
  | .directory entries => filesAmong filter (Level.ofEntry (.directory entries) :: above) path entries

/-- The files of the entries of a directory. -/
def filesAmong (filter : Filter) (levels : List Level) (path : Path) : List (Path × Entry) → List Path
  | [] => []
  | (name, entry) :: rest =>
    let below := extend path name
    let out := leavesOut levels name entry.isDirectory || filter.ignores below entry.isDirectory
    (if out then [] else filesOf filter (levels.map (Level.enter name)) below entry) ++
      filesAmong filter levels path rest

end

/-- All files at or below a path that nothing leaves out. The path itself is never left out. -/
def walk (files : Files) (root : Path) (exclude : List String) : List Path :=
  match files.locate root, Files.follow files.root root.steps [] with
  | .ok entry, .ok names =>
    filesOf (.make files root exclude) (levelsAbove files.root [] names.reverse) root entry
  | _, _ => []

end Ignore
end VarCensus

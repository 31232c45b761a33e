import VarCensus.Config

/-!
# Tasks

Which files an extraction reads, and in which language. A path that is no directory is always read: in the
language that is forced, else in the one that the configuration tells, and there has to be one. Of a
directory those files are read whose language the configuration tells, and only those in the forced language
if one is forced.

What is a directory, and which files a walk through it finds, are given as functions.
-/

namespace VarCensus

/-- A file to read, and its language. -/
structure Task where
  path : Path
  language : Language
deriving DecidableEq, Repr

/-- Why tasks could not be collected. -/
inductive TaskError where
  | library (cause : Error)
  /-- The language of a path is not known. -/
  | undetected (path : Path)
deriving DecidableEq, Repr

namespace Task

/-- The task for a file that a walk has found, if its language is wanted. -/
def ofWalked (config : Config) (forced : Option Language) (path : Path) : Except Error (Option Task) :=
  match config.languageFor path with
  | .error e => .error e
  | .ok none => .ok none
  | .ok (some language) =>
    .ok (if forced = none ∨ forced = some language then some ⟨path, language⟩ else none)

/-- The tasks for the files that a walk has found. -/
def ofWalk (config : Config) (forced : Option Language) : List Path → Except Error (List Task)
  | [] => .ok []
  | path :: rest =>
    match ofWalked config forced path with
    | .error e => .error e
    | .ok task? => (ofWalk config forced rest).map (task?.toList ++ ·)

/-- The task for a path that is no directory. -/
def ofFile (config : Config) (forced : Option Language) (path : Path) : Except TaskError Task :=
  match forced with
  | some language => .ok ⟨path, language⟩
  | none =>
    match config.languageFor path with
    | .error e => .error (.library e)
    | .ok none => .error (.undetected path)
    | .ok (some language) => .ok ⟨path, language⟩

/-- The tasks for paths, in their order. The first failure settles the matter. -/
def collect (config : Config) (isDirectory : Path → Bool) (walk : Path → List Path)
    (forced : Option Language) : List Path → Except TaskError (List Task)
  | [] => .ok []
  | path :: rest =>
    let first : Except TaskError (List Task) :=
      if isDirectory path then (ofWalk config forced (walk path)).mapError .library
      else (ofFile config forced path).map ([·])
    match first with
    | .error e => .error e
    | .ok tasks => (collect config isDirectory walk forced rest).map (tasks ++ ·)

end Task
end VarCensus

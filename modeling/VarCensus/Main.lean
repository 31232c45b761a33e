import VarCensus.Command.Run

/-!
# The program

Brings the files that a command names into a `Files`, runs the command on them, writes what it wrote, and
ends with its exit code. Paths are relative to the working directory.

Directories are not listed here: where a command names one, the paths of the files below it are read from
standard input, one to a line. Syntax trees are not made here either, so sources of the grammar family are
reported as failures. Nothing is found at a path that is no text.
-/

namespace VarCensus
namespace Main

/-- The code with which reading a directory as a file fails. -/
def isDirectoryCode : UInt32 := 21

/-- The entry at a path: a file with its bytes, or a directory without its entries. -/
def entryAt (path : Path) : IO (Option Entry) := do
  let some text := path.text? | return none
  try
    let bytes ← IO.FS.readBinFile text
    return some (.file bytes none)
  catch
    | .inappropriateType _ code _ => return if code == isDirectoryCode then some (.directory []) else none
    | _ => return none

/-- The directories on the way to a path, the outermost first. -/
def directoriesTo (path : Path) : List Path :=
  let names := Files.plainNames path
  (List.range (names.length - 1)).map fun n => Path.join (names.take (n + 1))

/-- Adds what is found at a path, unless something is there already. -/
def addPath (files : Files) (path : Path) : IO Files := do
  if files.exists? path then return files
  match ← entryAt path with
  | some entry => return files.add path entry
  | none => return files

/-- Adds what is found at some paths and on the way to them. -/
def addPaths (files : Files) (paths : List Path) : IO Files :=
  (paths.flatMap fun path => directoriesTo path ++ [path]).foldlM addPath files

/-- The lines of a stream. -/
partial def readLines (stream : IO.FS.Stream) (lines : List String) : IO (List String) := do
  let line ← stream.getLine
  if line.isEmpty then return lines.reverse
  readLines stream (String.ofList (Text.trimEnd line.toList) :: lines)

/-- The files that a command sees. -/
def filesFor (invocation : Invocation) : IO Files := do
  let named ← addPaths .empty (Config.defaultPath :: invocation.paths)
  if invocation.paths.any named.isDirectory then
    addPaths named ((← readLines (← IO.getStdin) []).map Path.ofString)
  else return named

/-- Writes a file that a command has changed. -/
def saveChanged (old new : Files) (path : Path) : IO Unit := do
  let some name := path.text? | return ()
  match new.read path, old.read path with
  | .ok document, .ok before =>
    if document.text != before.text then IO.FS.writeFile name document.text
  | .ok document, .error _ => IO.FS.writeFile name document.text
  | .error _, _ => return ()

end Main
end VarCensus

open VarCensus in
/-- Runs the program. -/
def main (arguments : List String) : IO UInt32 := do
  let invocation? := match Arguments.read arguments with
    | .run invocation => some invocation
    | _ => none
  let files ← match invocation? with
    | some invocation => Main.filesFor invocation
    | none => pure .empty
  let done := run .plain files arguments
  (← IO.getStdout).putStr done.output.out
  (← IO.getStderr).putStr done.output.err
  if let some invocation := invocation? then
    Main.saveChanged files done.files (invocation.config.getD Config.defaultPath)
  return done.code.toUInt32

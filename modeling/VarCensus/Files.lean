import VarCensus.Error
import VarCensus.Extraction

/-!
# Files

A directory with everything below it, as a value. A file holds bytes, and the syntax tree that a grammar
made of them where there is one. The entries of a directory are in the order of their names, which is the
order in which directories are gone through.

Names are bytes, like paths, and paths are relative to the directory that the value stands for. Looking a
path up fails the way a file system does: a missing step is not found, a step below a file is not a directory,
and a path that ends in a slash or a dot has to lead to a directory. Nothing is known above the directory
itself.
-/

namespace VarCensus

/-- A file, or a directory with its entries. -/
inductive Entry where
  | file (bytes : ByteArray) (tree : Option Tree)
  | directory (entries : List (Path × Entry))
deriving Inhabited

namespace Entry

def isDirectory : Entry → Bool
  | .file _ _ => false
  | .directory _ => true

/-- The entries of a directory; a file has none. -/
def entries : Entry → List (Path × Entry)
  | .file _ _ => []
  | .directory entries => entries

/-- The entry with a name. -/
def child? (entry : Entry) (name : Path) : Option Entry :=
  entry.entries.lookup name

/-- The entry below by its names. -/
def at? (entry : Entry) : List Path → Option Entry
  | [] => some entry
  | name :: rest => (entry.child? name).bind (·.at? rest)

/-- Puts an entry among others in the order of names, in the place of one of the same name. -/
def putAmong (name : Path) (new : Entry) : List (Path × Entry) → List (Path × Entry)
  | [] => [(name, new)]
  | (other, entry) :: rest =>
    if name = other then (name, new) :: rest
    else if name < other then (name, new) :: (other, entry) :: rest
    else (other, entry) :: putAmong name new rest

/-- Puts an entry below another by its names; directories on the way are made where they are missing. -/
def put (new : Entry) : List Path → Entry → Entry
  | [], _ => new
  | name :: rest, entry =>
    let below := (entry.child? name).getD (.directory [])
    .directory (putAmong name (put new rest below) entry.entries)

end Entry

/-- A directory with everything below it. -/
structure Files where
  root : Entry
deriving Inhabited

namespace Files

def empty : Files :=
  ⟨.directory []⟩

/-- The names that a path with no steps upward is made of. -/
def plainNames (path : Path) : List Path :=
  path.steps.filterMap fun
    | .name name => some name
    | _ => none

/-- Puts an entry at a plain path, with all the directories on the way. -/
def add (files : Files) (path : Path) (entry : Entry) : Files :=
  ⟨Entry.put entry (plainNames path) files.root⟩

/-- Whether a path insists on a directory: its last part is empty or a dot. -/
def endsAsDirectory (path : Path) : Bool :=
  match (Path.split path.bytes).getLast? with
  | some part => part = [] || part = [Path.dot]
  | none => false

/-- Follows steps from the entry with the names `here`, the last one first, to the names of an entry. -/
def follow (root : Entry) : List PathStep → List Path → Except FileError (List Path)
  | [], here => .ok here
  | .root :: _, _ => .error .notFound
  | .here :: rest, here => follow root rest here
  | .parent :: rest, here =>
    match root.at? here.reverse, here with
    | some (.directory _), _ :: above => follow root rest above
    | some (.file _ _), _ => .error .notADirectory
    | _, _ => .error .notFound
  | .name name :: rest, here =>
    match root.at? here.reverse with
    | some (.file _ _) => .error .notADirectory
    | some (.directory entries) =>
      if (entries.lookup name).isSome then follow root rest (name :: here)
      else .error .notFound
    | none => .error .notFound

/-- The entry at a path. -/
def locate (files : Files) (path : Path) : Except FileError Entry :=
  if path.bytes.isEmpty then .error .notFound
  else match follow files.root path.steps [] with
    | .error e => .error e
    | .ok names =>
      match files.root.at? names.reverse with
      | none => .error .notFound
      | some entry =>
        if endsAsDirectory path && !entry.isDirectory then .error .notADirectory else .ok entry

def exists? (files : Files) (path : Path) : Bool :=
  (files.locate path).toOption.isSome

def isDirectory (files : Files) (path : Path) : Bool :=
  ((files.locate path).toOption).any Entry.isDirectory

/-- Makes sure that there is a directory at a plain path; one that is there keeps its entries. -/
def addDirectory (files : Files) (path : Path) : Files :=
  if files.isDirectory path then files else files.add path (.directory [])

/-- The document in a file. -/
def read (files : Files) (path : Path) : Except FileError Document :=
  match files.locate path with
  | .error e => .error e
  | .ok (.directory _) => .error .isADirectory
  | .ok (.file bytes tree) =>
    match String.fromUTF8? bytes with
    | some text => .ok ⟨text, tree⟩
    | none => .error .notText

/-- The names of the place where a path would be written: the directory of the path has to be there, and the
path may not lead to a directory. -/
def writable (files : Files) (path : Path) : Except FileError (List Path) :=
  match path.steps.getLast? with
  | none => .error .notFound
  | some (.name name) =>
    match follow files.root path.steps.dropLast [] with
    | .error e => .error e
    | .ok here =>
      let names := here.reverse ++ [name]
      match files.root.at? here.reverse, files.root.at? names with
      | some (.file _ _), _ => .error .notADirectory
      | _, some (.directory _) => .error .isADirectory
      | _, some (.file _ _) => if endsAsDirectory path then .error .notADirectory else .ok names
      | _, none => if endsAsDirectory path then .error .isADirectory else .ok names
  | some _ => .error .isADirectory

/-- Writes a text to a path, over what is there. -/
def write (files : Files) (path : Path) (text : String) : Except FileError Files :=
  match files.writable path with
  | .error e => .error e
  | .ok names => .ok ⟨Entry.put (.file text.toUTF8 none) names files.root⟩

/-- The variables that a file declares, in the given language or else the one that its extension tells. -/
def extract (files : Files) (limit : Nat) (language : Option Language) (path : Path) :
    Except Error (List Record) :=
  match language.orElse fun _ => Language.ofPath? path with
  | none => .error (.unsupportedLanguage (path.extension?.getD ""))
  | some language =>
    match files.read path with
    | .error e => .error (.file e)
    | .ok document => language.extract limit document

end Files
end VarCensus

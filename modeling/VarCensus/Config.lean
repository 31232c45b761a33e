import VarCensus.Files
import VarCensus.Finding

/-!
# Configuration

What a project may set for itself: how far a scan may extend, which language an extension stands for, what
walks leave out, and how many workers read files. A configuration is kept as a text, and how it is written
and read is given as a `Codec`.

Overrides of extensions are in the order of the extensions, each at most once; the order is part of their
type. A configuration that was read has been validated: every override names a language, and scans may
extend at all. Writing validates nothing.
-/

namespace VarCensus

/-! ## Overrides -/

/-- Puts a tag under an extension, in the order of extensions and in the place of an earlier tag. -/
def putTag (ext tag : String) : List (String × String) → List (String × String)
  | [] => [(ext, tag)]
  | (other, old) :: rest =>
    if ext < other then (ext, tag) :: (other, old) :: rest
    else if ext = other then (ext, tag) :: rest
    else (other, old) :: putTag ext tag rest

theorem mem_putTag {ext tag : String} {entries : List (String × String)} {entry : String × String}
    (h : entry ∈ putTag ext tag entries) : entry = (ext, tag) ∨ entry ∈ entries := by
  induction entries with
  | nil => simpa [putTag] using h
  | cons first rest ih =>
    obtain ⟨other, old⟩ := first
    simp only [putTag] at h
    split at h
    · simpa using h
    · split at h
      · rcases List.mem_cons.1 h with h | h
        · exact .inl h
        · exact .inr (List.mem_cons_of_mem _ h)
      · rcases List.mem_cons.1 h with h | h
        · exact .inr (h ▸ List.mem_cons_self)
        · exact (ih h).imp_right (List.mem_cons_of_mem _)

theorem pairwise_putTag {ext tag : String} {entries : List (String × String)}
    (h : entries.Pairwise (·.1 < ·.1)) : (putTag ext tag entries).Pairwise (·.1 < ·.1) := by
  induction entries with
  | nil => simp [putTag]
  | cons first rest ih =>
    obtain ⟨other, old⟩ := first
    have ⟨above, sorted⟩ := List.pairwise_cons.1 h
    simp only [putTag]
    split
    · rename_i lt
      refine List.pairwise_cons.2 ⟨fun entry mem => ?_, h⟩
      rcases List.mem_cons.1 mem with rfl | mem
      · exact lt
      · exact String.lt_trans lt (above entry mem)
    · split
      · rename_i eq
        exact List.pairwise_cons.2 ⟨fun entry mem => eq ▸ above entry mem, sorted⟩
      · rename_i notLt ne
        refine List.pairwise_cons.2 ⟨fun entry mem => ?_, ih sorted⟩
        rcases mem_putTag mem with rfl | mem
        · exact Decidable.byContradiction fun notGt =>
            ne (String.le_antisymm (String.not_lt.1 notGt) (String.not_lt.1 notLt))
        · exact above entry mem

/-- The languages that extensions stand for, by their tags. -/
structure Overrides where
  entries : List (String × String)
  sorted : entries.Pairwise (·.1 < ·.1)
deriving DecidableEq

namespace Overrides

def empty : Overrides :=
  ⟨[], .nil⟩

instance : Inhabited Overrides :=
  ⟨empty⟩

/-- The overrides with one more, which replaces an earlier one of the same extension. -/
def insert (overrides : Overrides) (ext tag : String) : Overrides :=
  ⟨putTag ext tag overrides.entries, pairwise_putTag overrides.sorted⟩

/-- The overrides of a list; of two for one extension the later counts. -/
def ofList (entries : List (String × String)) : Overrides :=
  entries.foldl (fun overrides (ext, tag) => overrides.insert ext tag) empty

/-- The tag for an extension. -/
def get? (overrides : Overrides) (ext : String) : Option String :=
  overrides.entries.lookup ext

end Overrides

/-! ## Configurations -/

/-- What a project sets for itself. -/
structure Config where
  /-- How many bytes a scan may take for one declaration. -/
  lookahead : Option Nat
  overrides : Overrides
  /-- Patterns for what walks leave out. -/
  exclude : List String
  /-- How many workers read files. -/
  jobs : Option Nat
deriving DecidableEq, Inhabited

/-- Why a configuration could not be read or written. -/
inductive ConfigError where
  | file (cause : FileError)
  /-- The text holds no configuration. -/
  | malformed
  /-- There is no text for the configuration. -/
  | unwritable
  | unsupported (ext tag : String)
  | noLookahead
  | alreadyExists (path : Path)
deriving DecidableEq, Repr

/-- The wording of an error. -/
def ConfigError.message : ConfigError → String
  | .file cause => cause.message
  | .malformed => "the configuration is not well formed"
  | .unwritable => "a number is out of range"
  | .unsupported ext tag =>
    "extension override '" ++ ext ++ "': " ++ (Error.unsupportedLanguage tag).message
  | .noLookahead => "max_lookahead must be greater than zero"
  | .alreadyExists path => "config already exists at " ++ path.shown ++ " (use --force to overwrite)"

namespace Config

/-- The configuration that sets nothing. -/
def empty : Config :=
  ⟨none, .empty, [], none⟩

/-- The configuration that a new project starts from. -/
def starter : Config :=
  ⟨some defaultLookahead, .ofList [("h", Language.cpp.tag), ("mjs", Language.javascript.tag)], [], none⟩

/-- Where the configuration is kept unless told otherwise. -/
def defaultPath : Path := "aliasbot.toml"

/-- How many bytes a scan may take for one declaration. -/
def limit (config : Config) : Nat :=
  config.lookahead.getD defaultLookahead

/-- The language of a path: what an override says for its extension in small letters, else what the
extension tells. -/
def languageFor (config : Config) (path : Path) : Except Error (Option Language) :=
  match path.extension?.bind fun ext => config.overrides.get? (Language.lowerAscii ext) with
  | some tag => (Language.parse tag).map some
  | none => .ok (Language.ofPath? path)

/-- Checks that every override names a language, in the order of extensions, and then that scans may extend
at all. -/
def validate (config : Config) : Except ConfigError Unit :=
  match config.overrides.entries.find? fun (_, tag) => (Language.ofTag? tag).isNone with
  | some (ext, tag) => .error (.unsupported ext tag)
  | none => if config.lookahead = some 0 then .error .noLookahead else .ok ()

/-! ## Keeping configurations -/

/-- How configurations are kept as texts. -/
structure Codec where
  /-- The text of a configuration, if there is one. -/
  write? : Config → Option String
  /-- The configuration that a text holds, if it holds one. -/
  read? : String → Option Config

/-- Reads a configuration; there is none where the path leads nowhere. -/
def load (codec : Codec) (files : Files) (path : Option Path) : Except ConfigError (Option Config) :=
  let path := path.getD defaultPath
  if !files.exists? path then .ok none
  else match files.read path with
    | .error cause => .error (.file cause)
    | .ok document =>
      match codec.read? document.text with
      | none => .error .malformed
      | some config => config.validate.map fun _ => some config

/-- Writes a configuration, over what is there only if `force` says so. -/
def write (codec : Codec) (config : Config) (files : Files) (path : Path) (force : Bool) :
    Except ConfigError Files :=
  if files.exists? path && !force then .error (.alreadyExists path)
  else match codec.write? config with
    | none => .error .unwritable
    | some text => (files.write path text).mapError .file

end Config
end VarCensus

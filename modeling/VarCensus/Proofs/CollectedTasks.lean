import VarCensus.Command.Task
import VarCensus.Proofs.ExtensionOverrides

/-!
# Which tasks are collected

Collecting tasks asks for the language of a path in two places, of files that are named and of files that a walk has
found, and there are three ways in which it can fail: the override for a named file names no language, that for a
found file names none, or a named file has no language at all. Under a configuration that has been validated the first
two do not happen, whatever is asked, since validation went through every override (`exists_detected`). What remains
is the third, and only where no language is forced (`collect_eq`). So a walk never makes an extraction fail.
-/

namespace VarCensus

variable {config : Config} {detected : Path → Option Language} {isDirectory : Path → Bool}
  {walk : Path → List Path} {forced : Option Language}

theorem Overrides.mem_of_get? {overrides : Overrides} {ext tag : String} (h : overrides.get? ext = some tag) :
    (ext, tag) ∈ overrides.entries := by
  obtain ⟨before, behind, hentries, -⟩ := List.lookup_eq_some_iff.mp h
  rw [hentries]
  exact List.mem_append_right before List.mem_cons_self

/-- Under a configuration that passes, asking for the language of a path never fails. -/
theorem Config.exists_detected (hvalid : config.validate = .ok ()) :
    ∃ detected : Path → Option Language, ∀ path, config.languageFor path = .ok (detected path) := by
  have hanswer (path : Path) : ∃ language?, config.languageFor path = .ok language? := by
    cases hget : path.extension?.bind fun ext => config.overrides.get? (Language.lowerAscii ext) with
    | none => exact ⟨Language.ofPath? path, by rw [languageFor, hget]⟩
    | some tag =>
      obtain ⟨ext, hext, htag⟩ := Option.bind_eq_some_iff.mp hget
      obtain ⟨language, hparse⟩ := exists_parse_of_validate hvalid (Overrides.mem_of_get? htag)
      exact ⟨some language, by rw [languageFor_of_get? hext htag, hparse]; rfl⟩
  exact ⟨fun path => (hanswer path).choose, fun path => (hanswer path).choose_spec⟩

namespace Task

/-- The task for a file that a walk has found: its language has to be detected, and to be the forced one if there is
one. -/
def found? (detected : Path → Option Language) (forced : Option Language) (file : Path) : Option Task :=
  ((detected file).filter fun language => forced = none ∨ forced = some language).map (⟨file, ·⟩)

/-- The tasks for a path: those for the files that a walk finds in a directory, and one for anything else, in the forced
language if there is one, else in the one that is detected. -/
def tasksAt (detected : Path → Option Language) (isDirectory : Path → Bool) (walk : Path → List Path)
    (forced : Option Language) (path : Path) : List Task :=
  if isDirectory path then (walk path).filterMap (found? detected forced)
  else (forced.or (detected path)).toList.map (⟨path, ·⟩)

/-- A path for which there is no task: no language is forced, it is no directory, and no language is detected. -/
def isUndetected (detected : Path → Option Language) (isDirectory : Path → Bool) (forced : Option Language)
    (path : Path) : Bool :=
  forced.isNone && !isDirectory path && (detected path).isNone

section

variable (hdetected : ∀ path, config.languageFor path = .ok (detected path))
include hdetected

theorem ofWalked_eq (file : Path) : ofWalked config forced file = .ok (found? detected forced file) := by
  rw [ofWalked, hdetected, found?]
  cases detected file with
  | none => rfl
  | some language =>
    simp only [Option.filter_some, decide_eq_true_eq]
    split <;> rfl

theorem ofWalk_eq (files : List Path) :
    ofWalk config forced files = .ok (files.filterMap (found? detected forced)) := by
  induction files with
  | nil => rfl
  | cons file files ih =>
    rw [ofWalk, ofWalked_eq hdetected, ih, List.filterMap_cons]
    cases found? detected forced file <;> rfl

/-- A path without a task ends the matter. -/
theorem collect_cons_undetected {path : Path} (h : isUndetected detected isDirectory forced path = true)
    (paths : List Path) : collect config isDirectory walk forced (path :: paths) = .error (.undetected path) := by
  simp only [isUndetected, Bool.and_eq_true, Option.isNone_iff_eq_none, Bool.not_eq_true'] at h
  obtain ⟨⟨rfl, hdirectory⟩, hnone⟩ := h
  simp only [collect, hdirectory, ofFile, hdetected, hnone]
  rfl

/-- Any other path gives its tasks, in front of those for the paths behind it. -/
theorem collect_cons {path : Path} (h : isUndetected detected isDirectory forced path = false)
    (paths : List Path) : collect config isDirectory walk forced (path :: paths) =
      (collect config isDirectory walk forced paths).map (tasksAt detected isDirectory walk forced path ++ ·) := by
  rw [collect, tasksAt]
  cases hdirectory : isDirectory path with
  | true =>
    rw [ofWalk_eq hdetected]
    rfl
  | false =>
    cases forced with
    | some language => rfl
    | none =>
      rw [isUndetected, hdirectory] at h
      obtain ⟨language, hlanguage⟩ : ∃ language, detected path = some language := by
        simpa [Option.isSome_iff_exists] using h
      simp only [ofFile, hdetected, hlanguage]
      rfl

/-- Tasks are collected path by path, up to the first path without one. -/
theorem collect_eq (paths : List Path) : collect config isDirectory walk forced paths =
    (paths.find? (isUndetected detected isDirectory forced)).elim
      (.ok (paths.flatMap (tasksAt detected isDirectory walk forced))) fun path => .error (.undetected path) := by
  induction paths with
  | nil => rfl
  | cons path paths ih =>
    cases hpath : isUndetected detected isDirectory forced path with
    | true => rw [collect_cons_undetected hdetected hpath, List.find?_cons_of_pos hpath, Option.elim_some]
    | false =>
      rw [collect_cons hdetected hpath, ih, List.find?_cons_of_neg (by simp [hpath]), List.flatMap_cons]
      cases paths.find? (isUndetected detected isDirectory forced) <;> rfl

end

theorem exists_isUndetected_iff {paths : List Path} :
    (∃ path ∈ paths, isUndetected detected isDirectory forced path = true) ↔
      forced = none ∧ ∃ path ∈ paths, isDirectory path = false ∧ detected path = none := by
  simp only [isUndetected, Bool.and_eq_true, Option.isNone_iff_eq_none, Bool.not_eq_true']
  constructor
  · rintro ⟨path, hmem, ⟨hforced, hdirectory⟩, hnone⟩
    exact ⟨hforced, path, hmem, hdirectory, hnone⟩
  · rintro ⟨hforced, path, hmem, hdirectory, hnone⟩
    exact ⟨path, hmem, ⟨hforced, hdirectory⟩, hnone⟩

/-- **Under a validated configuration no walk makes an extraction fail.** Every path can be asked for its language.
Collecting tasks fails exactly if no language is forced and some path that is no directory has no language, and it then
names the first such path. Else it gives the tasks for each path in the order of the paths: for one that is no
directory there is one task, in the forced language or else the one detected, and for a directory there is one for each
file found there that is in a language, and in the forced one if there is one. -/
theorem collect_of_validate (hvalid : config.validate = .ok ()) (isDirectory : Path → Bool)
    (walk : Path → List Path) (forced : Option Language) (paths : List Path) :
    ∃ detected : Path → Option Language, (∀ path, config.languageFor path = .ok (detected path)) ∧
      ((∃ error, collect config isDirectory walk forced paths = .error error) ↔
        forced = none ∧ ∃ path ∈ paths, isDirectory path = false ∧ detected path = none) ∧
      (∀ path, paths.find? (isUndetected detected isDirectory forced) = some path →
        collect config isDirectory walk forced paths = .error (.undetected path)) ∧
      (¬ (forced = none ∧ ∃ path ∈ paths, isDirectory path = false ∧ detected path = none) →
        collect config isDirectory walk forced paths =
          .ok (paths.flatMap (tasksAt detected isDirectory walk forced)) ∧
        ∀ path ∈ paths, isDirectory path = false → ∃ language, forced.or (detected path) = some language ∧
          tasksAt detected isDirectory walk forced path = [⟨path, language⟩]) := by
  obtain ⟨detected, hdetected⟩ := Config.exists_detected hvalid
  refine ⟨detected, hdetected, ?_, fun path hfind => ?_, fun hnone => ⟨?_, fun path hmem hdirectory => ?_⟩⟩
  · rw [← exists_isUndetected_iff, ← List.find?_isSome, collect_eq hdetected]
    cases paths.find? (isUndetected detected isDirectory forced) <;> simp
  · rw [collect_eq hdetected, hfind, Option.elim_some]
  · have hfind : paths.find? (isUndetected detected isDirectory forced) = none := by
      rw [← exists_isUndetected_iff] at hnone
      exact List.find?_eq_none.mpr fun path hmem h => hnone ⟨path, hmem, h⟩
    rw [collect_eq hdetected, hfind, Option.elim_none]
  · obtain ⟨language, hlanguage⟩ : ∃ language, forced.or (detected path) = some language := by
      refine Option.ne_none_iff_exists'.mp fun heq => hnone ?_
      obtain ⟨hforced, hpath⟩ := Option.or_eq_none_iff.mp heq
      exact ⟨hforced, path, hmem, hdirectory, hpath⟩
    exact ⟨language, hlanguage, by simp [tasksAt, hdirectory, hlanguage]⟩

theorem collect_of_validate_starter :
    Config.starter.validate = .ok () ∧
      collect .starter (· == "d") (fun _ => ["d/x.H", "d/README", "d/y.mjs"]) none ["d", "a.py"] =
        .ok [⟨"d/x.H", .cpp⟩, ⟨"d/y.mjs", .javascript⟩, ⟨"a.py", .python⟩] := by
  have hvalid : Config.starter.validate = .ok () := by decide
  obtain ⟨detected, hdetected, -, -, htasks⟩ := collect_of_validate hvalid (· == "d")
    (fun _ => ["d/x.H", "d/README", "d/y.mjs"]) none ["d", "a.py"]
  have hlanguage {path : Path} {language? : Option Language}
      (h : Config.starter.languageFor path = .ok language?) : detected path = language? :=
    Except.ok.inj ((hdetected path).symm.trans h)
  have hheader : detected "d/x.H" = some .cpp := hlanguage (by decide)
  have hreadme : detected "d/README" = none := hlanguage (by decide)
  have hmodule : detected "d/y.mjs" = some .javascript := hlanguage (by decide)
  have hscript : detected "a.py" = some .python := hlanguage (by decide)
  refine ⟨hvalid, (htasks ?_).1.trans ?_⟩
  · simp [hscript]
  · simp [tasksAt, found?, hheader, hreadme, hmodule, hscript]

end Task
end VarCensus

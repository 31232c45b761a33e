import Mathlib.Data.Bool.AllAny
import VarCensus.Config
import VarCensus.Proofs.Standing

/-!
# Overrides of extensions

A configuration may say which language an extension stands for, and it is refused unless every such entry names a
language. Does an entry that was not refused take effect?

Entries are looked up by the extension of a path in small letters, and they are stored as they were written. So an
entry whose extension has no ASCII capital decides for every file name with that extension, and one whose extension
has a capital decides nothing, for any path: the configuration is the same without it (`languageFor_override`).
-/

namespace VarCensus

/-! ## Extensions of file names -/

namespace Path

theorem split_of_no_slash {bytes : List UInt8} (h : slash ∉ bytes) : split bytes = [bytes] := by
  induction bytes with
  | nil => rfl
  | cons b bytes ih =>
    obtain ⟨hb, hbytes⟩ := not_or.mp (mt List.mem_cons.mpr h)
    rw [split, if_neg (Ne.symm hb), ih hbytes]

/-- A name is split at its last dot. -/
theorem behindDot?_append {stem ext : List UInt8} (hstem : stem ≠ []) (hext : dot ∉ ext) :
    behindDot? (stem ++ dot :: ext) = some ext := by
  have hreverse : (stem ++ dot :: ext).reverse = ext.reverse ++ dot :: stem.reverse := by simp
  have hplain : ∀ b ∈ ext.reverse, (b != dot) = true := by
    intro b hb
    rw [bne_iff_ne]
    rintro rfl
    exact hext (List.mem_reverse.mp hb)
  have htail : (ext.reverse ++ dot :: stem.reverse).takeWhile (· != dot) = ext.reverse := by
    rw [List.takeWhile_append_of_pos hplain]
    simp
  obtain ⟨b, more, hmore⟩ := List.exists_cons_of_ne_nil (mt List.reverse_eq_nil_iff.mp hstem)
  rw [behindDot?, hreverse, htail, List.drop_left, hmore, List.reverse_reverse]

theorem fileName?_of_no_slash {path : Path} (h : slash ∉ path.bytes) (hlength : 2 < path.bytes.length) :
    path.fileName? = some path := by
  have hsplit := split_of_no_slash h
  have hfirst : path.bytes.head? ≠ some slash := fun hhead => h (List.mem_of_mem_head? hhead)
  have hne {name : List UInt8} (hname : name.length ≤ 2) : path.bytes ≠ name := by
    rintro heq
    rw [heq] at hlength
    omega
  have hstep : step? path.bytes = some (.name path) := by
    rw [step?, if_neg, if_neg (hne (by decide))]
    exact not_or.mpr ⟨hne (by decide), hne (by decide)⟩
  have hhere : path.bytes ≠ [dot] := hne (by decide)
  have hsteps : path.steps = [.name path] := by
    simp [steps, hsplit, hfirst, hhere, hstep]
  rw [fileName?, hsteps]
  rfl

/-- **The extension of a file name is what was put behind its last dot.** -/
theorem extension?_of_name {stem : Path} {ext : String} (hstem : stem ≠ "") (hslash : slash ∉ stem.bytes)
    (hext : ext ≠ "") (hplain : '.' ∉ ext.toList ∧ '/' ∉ ext.toList) :
    (stem ++ "." ++ ext).extension? = some ext := by
  have hstem' : stem.bytes ≠ [] := fun hnil => hstem (by rw [Path.mk.injEq]; exact hnil)
  have hext' : Text.bytes ext ≠ [] := mt Text.bytes_eq_nil.mp hext
  have hdot : dot ∉ Text.bytes ext := mt (Text.mem_toList_of_mem_bytes (by decide) (by decide)) hplain.1
  have hextSlash : slash ∉ Text.bytes ext := mt (Text.mem_toList_of_mem_bytes (by decide) (by decide)) hplain.2
  have hname : (stem ++ "." ++ ext).bytes = stem.bytes ++ dot :: Text.bytes ext := List.append_assoc ..
  have hfile : (stem ++ "." ++ ext).fileName? = some (stem ++ "." ++ ext) := by
    refine fileName?_of_no_slash ?_ ?_
    · rw [hname]
      have hne : slash ≠ dot := by decide
      simp [hslash, hextSlash, hne]
    · have := List.length_pos_iff.mpr hstem'
      have := List.length_pos_iff.mpr hext'
      rw [hname, List.length_append, List.length_cons]
      omega
  rw [extension?, hfile, Option.bind_some, hname, behindDot?_append hstem' hdot, Option.bind_some]
  exact text?_ofString ext

end Path

/-! ## Small letters -/

namespace Language

theorem isUpper_of_mem_lowerAscii {s : String} {c : Char} (h : c ∈ (lowerAscii s).toList) : c.isUpper = false := by
  rw [lowerAscii, String.toList_ofList] at h
  obtain ⟨d, -, rfl⟩ := List.mem_map.mp h
  unfold Char.toLower Char.isUpper
  split
  · grind
  · grind

theorem lowerAscii_eq_self_iff {s : String} : lowerAscii s = s ↔ ∀ c ∈ s.toList, c.isUpper = false := by
  constructor
  · intro h c hc
    rw [← h] at hc
    exact isUpper_of_mem_lowerAscii hc
  · intro h
    have hsame : ∀ c ∈ s.toList, c.toLower = c := by
      intro c hc
      have hsmall := h c hc
      unfold Char.isUpper at hsmall
      unfold Char.toLower
      grind
    rw [lowerAscii, ← String.toList_inj, String.toList_ofList]
    exact (List.map_congr_left hsame).trans (List.map_id _)

theorem lowerAscii_lowerAscii (s : String) : lowerAscii (lowerAscii s) = lowerAscii s :=
  lowerAscii_eq_self_iff.mpr fun _ => isUpper_of_mem_lowerAscii

end Language

/-! ## Overrides -/

namespace Overrides

variable {overrides : Overrides} {ext tag : String}

/-- An entry is found under its extension, since no other entry has that extension. -/
theorem get?_of_mem (h : (ext, tag) ∈ overrides.entries) : overrides.get? ext = some tag := by
  obtain ⟨before, behind, hentries⟩ := List.append_of_mem h
  refine List.lookup_eq_some_iff.mpr ⟨before, behind, hentries, fun entry hentry => ?_⟩
  have hsorted := overrides.sorted
  rw [hentries, List.pairwise_append] at hsorted
  have hlt : entry.1 < ext := hsorted.2.2 entry hentry (ext, tag) List.mem_cons_self
  rw [bne_iff_ne]
  rintro rfl
  exact String.lt_irrefl _ hlt

/-- The overrides but that of one extension. -/
def without (overrides : Overrides) (ext : String) : Overrides :=
  ⟨overrides.entries.filter (·.1 != ext), overrides.sorted.filter _⟩

theorem get?_without {key : String} (h : key ≠ ext) : (overrides.without ext).get? key = overrides.get? key := by
  change (overrides.entries.filter (·.1 != ext)).lookup key = overrides.entries.lookup key
  induction overrides.entries with
  | nil => rfl
  | cons entry entries ih =>
    rw [List.filter_cons]
    split
    · rw [List.lookup_cons, List.lookup_cons, ih]
    · next hkept =>
      have hentry : entry.1 = ext := by simpa using hkept
      have hkey : (key == entry.1) = false := by simpa [hentry] using h
      rw [List.lookup_cons, hkey, ih]

end Overrides

namespace Config

variable {config : Config} {ext tag : String}

/-- The configuration but for one override. -/
def without (config : Config) (ext : String) : Config :=
  { config with overrides := config.overrides.without ext }

/-- Every override of a configuration that passes names a language. -/
theorem exists_parse_of_validate (hvalid : config.validate = .ok ()) (h : (ext, tag) ∈ config.overrides.entries) :
    ∃ language, Language.parse tag = .ok language := by
  unfold validate at hvalid
  split at hvalid
  · cases hvalid
  · next hnone =>
    have hsome : ¬ (Language.ofTag? tag).isNone = true := List.find?_eq_none.mp hnone (ext, tag) h
    obtain ⟨language, hlanguage⟩ : ∃ language, Language.ofTag? tag = some language := by
      simpa [Option.ne_none_iff_exists'] using hsome
    refine ⟨language, ?_⟩
    rw [Language.parse, hlanguage]

theorem languageFor_of_get? {path : Path} (hext : path.extension? = some ext)
    (h : config.overrides.get? (Language.lowerAscii ext) = some tag) :
    config.languageFor path = (Language.parse tag).map some := by
  rw [languageFor, hext, Option.bind_some, h]

/-- An override with a capital in its extension is never looked at. -/
theorem languageFor_without (hcapital : Language.lowerAscii ext ≠ ext) (path : Path) :
    (config.without ext).languageFor path = config.languageFor path := by
  have hget (key : String) : (config.without ext).overrides.get? (Language.lowerAscii key) =
      config.overrides.get? (Language.lowerAscii key) := by
    refine Overrides.get?_without ?_
    rintro rfl
    exact hcapital (Language.lowerAscii_lowerAscii key)
  unfold languageFor
  simp only [hget]

/-- **Which overrides take effect.** Take a configuration that passes validation, and an entry of it whose
extension is not empty and has neither dots nor slashes. The tag of the entry names a language. If the extension
has no ASCII capital, that is the language of every file name with that extension; if it has one, the entry
decides nothing: every path has the language that it would have without the entry. -/
theorem languageFor_override (hvalid : config.validate = .ok ()) (hmem : (ext, tag) ∈ config.overrides.entries)
    (hext : ext ≠ "") (hplain : '.' ∉ ext.toList ∧ '/' ∉ ext.toList) :
    ∃ language, Language.parse tag = .ok language ∧
      ((∀ c ∈ ext.toList, c.isUpper = false) → ∀ stem : Path, stem ≠ "" → Path.slash ∉ stem.bytes →
        config.languageFor (stem ++ "." ++ ext) = .ok (some language)) ∧
      ((∃ c ∈ ext.toList, c.isUpper = true) → ∀ path,
        config.languageFor path = (config.without ext).languageFor path) := by
  obtain ⟨language, hparse⟩ := exists_parse_of_validate hvalid hmem
  refine ⟨language, hparse, fun hsmall stem hstem hslash => ?_, fun hcapital path => ?_⟩
  · have hget : config.overrides.get? (Language.lowerAscii ext) = some tag := by
      rw [Language.lowerAscii_eq_self_iff.mpr hsmall]
      exact Overrides.get?_of_mem hmem
    rw [languageFor_of_get? (Path.extension?_of_name hstem hslash hext hplain) hget, hparse]
    rfl
  · refine (languageFor_without (fun hsmall => ?_) path).symm
    obtain ⟨c, hc, hupper⟩ := hcapital
    rw [Language.lowerAscii_eq_self_iff.mp hsmall c hc] at hupper
    cases hupper

/-- Two overrides, of which one has capitals in its extension. -/
def twoOverrides : Config :=
  { empty with overrides := .ofList [("PYX", "python"), ("inc", " C++ ")] }

theorem languageFor_override_twoDots :
    twoOverrides.validate = .ok () ∧ ("inc", " C++ ") ∈ twoOverrides.overrides.entries ∧
      ("PYX", "python") ∈ twoOverrides.overrides.entries ∧
      twoOverrides.languageFor ("..x" ++ "." ++ "inc") = .ok (some .cpp) ∧
      twoOverrides.languageFor "x.PYX" = (twoOverrides.without "PYX").languageFor "x.PYX" := by
  have hvalid : twoOverrides.validate = .ok () := by decide
  have hsmall : ("inc", " C++ ") ∈ twoOverrides.overrides.entries := by decide
  have hcapital : ("PYX", "python") ∈ twoOverrides.overrides.entries := by decide
  obtain ⟨language, hparse, heffect, -⟩ := languageFor_override hvalid hsmall (by decide) (by decide)
  obtain ⟨-, -, -, hnone⟩ := languageFor_override hvalid hcapital (by decide) (by decide)
  obtain rfl : Language.cpp = language := Except.ok.inj (hparse.symm.trans (by decide)).symm
  exact ⟨hvalid, hsmall, hcapital, heffect (List.all_iff_forall_prop.mp (by decide)) "..x" (by decide) (by decide),
    hnone ⟨'P', by decide, by decide⟩ "x.PYX"⟩

/-- An override that passes and does not take effect. -/
theorem capital_override_ignored :
    twoOverrides.validate = .ok () ∧ ("PYX", "python") ∈ twoOverrides.overrides.entries ∧
      Language.parse "python" = .ok .python ∧ twoOverrides.languageFor ("x" ++ "." ++ "PYX") = .ok none := by
  decide

end Config
end VarCensus

import Mathlib.Data.List.Induction
import Mathlib.Data.List.Nodup
import VarCensus.Proofs.LeftmostMatch
import VarCensus.Proofs.TrimmedTexts

/-!
# Suggestions in groups

The lines of a response are gone through one after the other, and each that suggests something adds a candidate to
the entries so far. What comes out does not depend on how the additions are made: it is the grouping of all pairs of
a name and a candidate that the lines contribute, names and candidates each in the order of their first appearance
(`parse_eq_grouped`).
-/

namespace VarCensus

/-! ## Lines -/

namespace Text

/-- A line without the carriage return at its end, if it has one. -/
def dropReturn (line : List Char) : List Char :=
  if line.getLast? = some '\r' then line.dropLast else line

theorem lines_cons_of_cons {c : Char} {cs line : List Char} {more : List (List Char)} (hc : c ≠ '\n')
    (hreturn : c = '\r' → cs.head? ≠ some '\n') (h : lines cs = line :: more) :
    lines (c :: cs) = (c :: line) :: more := by
  rw [lines.eq_4 _ _ hc fun rest hr hcs => hreturn hr (by rw [hcs]; rfl), h]

theorem lines_of_no_newline {line : List Char} (hline : '\n' ∉ line) (hne : line ≠ []) : lines line = [line] := by
  induction line with
  | nil => exact absurd rfl hne
  | cons c line ih =>
    have hc : c ≠ '\n' := fun h => hline (h ▸ List.mem_cons_self)
    have hrest : '\n' ∉ line := fun h => hline (List.mem_cons_of_mem c h)
    cases line with
    | nil =>
      rw [lines.eq_4 _ _ hc (by simp)]
      rfl
    | cons d line =>
      refine lines_cons_of_cons hc ?_ (ih hrest (by simp))
      rintro - heq
      exact hrest (List.mem_of_mem_head? heq)

/-- A text is read line by line. -/
theorem lines_append_newline {line : List Char} (hline : '\n' ∉ line) (rest : List Char) :
    lines (line ++ '\n' :: rest) = dropReturn line :: lines rest := by
  induction line with
  | nil => rfl
  | cons c line ih =>
    have hc : c ≠ '\n' := fun h => hline (h ▸ List.mem_cons_self)
    have hrest : '\n' ∉ line := fun h => hline (List.mem_cons_of_mem c h)
    cases line with
    | nil =>
      by_cases hr : c = '\r'
      · subst hr
        rfl
      · rw [List.singleton_append, lines_cons_of_cons hc (fun h => absurd h hr) rfl]
        simp [dropReturn, hr]
    | cons d line =>
      have hcons : dropReturn (c :: d :: line) = c :: dropReturn (d :: line) := by
        simp only [dropReturn, List.getLast?_cons_cons, List.dropLast_cons_cons]
        split <;> rfl
      rw [hcons]
      refine lines_cons_of_cons hc ?_ (ih hrest)
      rintro - heq
      exact hrest (List.mem_of_mem_head? heq)

/-- Texts are made of lines: each has one line only, or one in front of a line feed and the text behind it. -/
theorem lines_induction {motive : List Char → Prop} (last : ∀ line, '\n' ∉ line → motive line)
    (step : ∀ line rest, '\n' ∉ line → motive rest → motive (line ++ '\n' :: rest)) (cs : List Char) : motive cs := by
  by_cases hcs : '\n' ∈ cs
  · obtain ⟨line, rest, heq, hline⟩ := List.eq_append_cons_of_mem hcs
    have hshorter : rest.length < cs.length := by
      rw [heq, List.length_append, List.length_cons]
      omega
    rw [heq]
    exact step line rest hline (lines_induction last step rest)
  · exact last cs hcs
termination_by cs.length

theorem no_newline_dropReturn {line : List Char} (hline : '\n' ∉ line) : '\n' ∉ dropReturn line := by
  unfold dropReturn
  split
  · exact fun h => hline (List.dropLast_subset line h)
  · exact hline

theorem no_newline_of_mem_lines {cs : List Char} : ∀ line ∈ lines cs, '\n' ∉ line := by
  induction cs using lines_induction with
  | last cs hcs =>
    intro line hline
    by_cases hne : cs = []
    · subst hne
      cases hline
    · rw [lines_of_no_newline hcs hne, List.mem_singleton] at hline
      exact hline ▸ hcs
  | step first rest hfirst ih =>
    intro line hline
    rw [lines_append_newline hfirst, List.mem_cons] at hline
    rcases hline with rfl | hline
    · exact no_newline_dropReturn hfirst
    · exact ih line hline

end Text

namespace SuggestionSet

/-! ## First appearances -/

section

variable {α : Type} [BEq α] [LawfulBEq α]

theorem eraseDups_concat (l : List α) (a : α) :
    (l ++ [a]).eraseDups = if l.contains a then l.eraseDups else l.eraseDups ++ [a] := by
  rw [List.eraseDups_append]
  cases hmem : l.contains a <;> simp_all [List.removeAll, List.eraseDups_cons]

theorem nodup_eraseDups (l : List α) : l.eraseDups.Nodup := by
  induction l using List.reverseRecOn with
  | nil => simp
  | append_singleton l a ih =>
    rw [eraseDups_concat]
    split
    · exact ih
    · next hmem => simpa [List.nodup_append, ih] using fun b hb hba => hmem (by simp [← hba, hb])

theorem eraseDups_filter (p : α → Bool) (l : List α) : (l.filter p).eraseDups = l.eraseDups.filter p := by
  induction l using List.reverseRecOn with
  | nil => simp
  | append_singleton l a ih =>
    rw [List.filter_append, eraseDups_concat]
    cases hp : p a with
    | false =>
      rw [List.filter_cons_of_neg (by simp [hp]), List.filter_nil, List.append_nil, ih]
      split
      · rfl
      · simp [hp]
    | true =>
      have hmem : (l.filter p).contains a = l.contains a := by simp [hp]
      rw [List.filter_cons_of_pos hp, List.filter_nil, eraseDups_concat, hmem, ih]
      split
      · rfl
      · simp [hp]

theorem eraseDups_append_eq_filter (as bs : List α) :
    (as ++ bs).eraseDups = as.eraseDups ++ bs.eraseDups.filter fun b => !as.eraseDups.contains b := by
  have hnew : bs.removeAll as = bs.filter fun b => !as.eraseDups.contains b :=
    List.filter_congr fun b _ => by simp
  rw [List.eraseDups_append, hnew, eraseDups_filter]

end

/-! ## Groups -/

/-- The candidates for a name, each once and in the order of first appearance. -/
def candidatesFor (pairs : List (String × String)) (name : String) : List String :=
  ((pairs.filter (·.1 == name)).map (·.2)).eraseDups

/-- The pairs of a name and a candidate in groups: every name once and in the order of first appearance, with the
candidates for it. -/
def grouped (pairs : List (String × String)) : SuggestionSet :=
  ⟨(pairs.map (·.1)).eraseDups.map fun name => ⟨name, candidatesFor pairs name⟩⟩

theorem candidatesFor_concat (pairs : List (String × String)) (name candidate n : String) :
    candidatesFor (pairs ++ [(name, candidate)]) n =
      if n = name then addCandidate candidate (candidatesFor pairs n) else candidatesFor pairs n := by
  rw [candidatesFor, List.filter_append]
  split
  · next heq =>
    subst heq
    simp [candidatesFor, addCandidate, eraseDups_concat]
  · next hne => simp [candidatesFor, Ne.symm hne]

theorem candidatesFor_eq_nil {pairs : List (String × String)} {name : String} (h : name ∉ pairs.map (·.1)) :
    candidatesFor pairs name = [] := by
  have hnone : pairs.filter (·.1 == name) = [] := by
    refine List.filter_eq_nil_iff.mpr fun pair hpair heq => h ?_
    exact List.mem_map.mpr ⟨pair, hpair, by simpa using heq⟩
  rw [candidatesFor, hnone]
  rfl

/-- Adding a candidate to entries that are given by their names. -/
theorem addTo_map {names : List String} (hnames : names.Nodup) (of : String → List String) (name candidate : String) :
    addTo name candidate (names.map fun n => ⟨n, of n⟩) =
      if names.contains name then
        names.map fun n => ⟨n, if n = name then addCandidate candidate (of n) else of n⟩
      else (names.map fun n => ⟨n, of n⟩) ++ [⟨name, [candidate]⟩] := by
  induction names with
  | nil => rfl
  | cons n names ih =>
    obtain ⟨hn, hnodup⟩ := List.nodup_cons.mp hnames
    rw [List.map_cons, addTo]
    by_cases heq : n = name
    · subst heq
      -- the names behind are others, so nothing is changed there
      have hrest : ∀ m ∈ names, m ≠ n := fun m hm hmn => hn (hmn ▸ hm)
      simpa using fun m hm hmn => absurd hmn (hrest m hm)
    · have hcontains : (n :: names).contains name = names.contains name := by
        simp [Ne.symm heq]
      rw [ih hnodup, if_neg (by simpa using heq), hcontains, List.map_cons, if_neg heq]
      split <;> rfl

/-- One more pair is one more candidate. -/
theorem add_grouped (pairs : List (String × String)) (name candidate : String) :
    (grouped pairs).add name candidate = grouped (pairs ++ [(name, candidate)]) := by
  have hcontains : (pairs.map (·.1)).eraseDups.contains name = (pairs.map (·.1)).contains name := by
    rw [Bool.eq_iff_iff]
    simp
  rw [add, grouped, addTo_map (nodup_eraseDups _), grouped, List.map_append, List.map_singleton, eraseDups_concat,
    hcontains]
  simp only [candidatesFor_concat]
  split
  · rfl
  · next hnew =>
    have hnew' : name ∉ pairs.map (·.1) := by simpa using hnew
    have hold : ∀ n ∈ (pairs.map (·.1)).eraseDups, n ≠ name := by
      rintro n hn rfl
      exact hnew' (List.mem_eraseDups.mp hn)
    rw [List.map_append, List.map_singleton, if_pos rfl, candidatesFor_eq_nil hnew']
    congr 2
    exact List.map_congr_left fun n hn => by rw [if_neg (hold n hn)]

theorem foldl_add (pairs before : List (String × String)) :
    pairs.foldl (fun set pair => set.add pair.1 pair.2) (grouped before) = grouped (before ++ pairs) := by
  induction pairs generalizing before with
  | nil => simp
  | cons pair pairs ih =>
    rw [List.foldl_cons, add_grouped, ih, List.append_assoc]
    rfl

theorem mem_candidatesFor {pairs : List (String × String)} {name candidate : String} :
    candidate ∈ candidatesFor pairs name ↔ (name, candidate) ∈ pairs := by
  simp [candidatesFor]

theorem candidatesFor_append (as bs : List (String × String)) (name : String) :
    candidatesFor (as ++ bs) name = candidatesFor as name ++
      (candidatesFor bs name).filter fun candidate => !(candidatesFor as name).contains candidate := by
  rw [candidatesFor, List.filter_append, List.map_append, eraseDups_append_eq_filter]
  rfl

theorem names_grouped (pairs : List (String × String)) :
    (grouped pairs).entries.map (·.name) = (pairs.map (·.1)).eraseDups := by
  rw [grouped, List.map_map]
  exact List.map_id _

theorem candidates_grouped (pairs : List (String × String)) (name : String) :
    (grouped pairs).candidates name = candidatesFor pairs name := by
  have hfind : (grouped pairs).entries.find? (·.name == name) =
      ((pairs.map (·.1)).eraseDups.find? (· == name)).map fun n => ⟨n, candidatesFor pairs n⟩ :=
    List.find?_map ..
  rw [candidates, hfind]
  cases hfound : (pairs.map (·.1)).eraseDups.find? (· == name) with
  | none =>
    refine (candidatesFor_eq_nil fun hmem => ?_).symm
    exact List.find?_eq_none.mp hfound name (List.mem_eraseDups.mpr hmem) (by simp)
  | some found =>
    obtain rfl : found = name := by simpa using List.find?_some hfound
    rfl

/-! ## What lines contribute -/

/-- The name and the candidate that a line contributes: what the pattern of suggestions captures there, the candidate
trimmed. A blank candidate contributes nothing. -/
def contribution? (line : List Char) : Option (String × String) :=
  match Suggestion.pattern.captures? line with
  | some [name, candidate] =>
    let trimmed := Text.trim (String.ofList candidate)
    if trimmed = "" then none else some (String.ofList name, trimmed)
  | _ => none

/-- What the lines of a response contribute, one after the other. -/
def contributions (text : String) : List (String × String) :=
  (Text.lines text.toList).filterMap contribution?

theorem contribution?_of_match? {line : List Char} (hline : '\n' ∉ line) :
    contribution? line = (Suggestion.match? line).bind fun found =>
      if Text.trim (String.ofList found.2) = "" then none
      else some (String.ofList found.1, Text.trim (String.ofList found.2)) := by
  rw [contribution?, Suggestion.captures?_pattern hline]
  cases Suggestion.match? line <;> rfl

theorem addLine_eq (set : SuggestionSet) {line : List Char} (hline : '\n' ∉ line) :
    set.addLine line = (contribution? line).elim set fun pair => set.add pair.1 pair.2 := by
  rw [addLine, contribution?_of_match? hline]
  cases Suggestion.match? line with
  | none => rfl
  | some found =>
    have hblank : (Text.trimEnd (Text.trimStart found.2)).isEmpty = true ↔
        Text.trim (String.ofList found.2) = "" := by
      rw [Text.trim, String.toList_ofList, List.isEmpty_iff, ← String.toList_inj, String.toList_ofList]
      rfl
    simp only [Option.bind_some, hblank]
    split
    · rfl
    · simp [Text.trim]

/-- **What is read from a response** are the groups of what its lines contribute. -/
theorem parse_eq_grouped (text : String) : parse text = grouped (contributions text) := by
  have hlines : ∀ lines : List (List Char), (∀ line ∈ lines, '\n' ∉ line) → ∀ set : SuggestionSet,
      lines.foldl addLine set =
        (lines.filterMap contribution?).foldl (fun set pair => set.add pair.1 pair.2) set := by
    intro lines
    induction lines with
    | nil => exact fun _ _ => rfl
    | cons line lines ih =>
      intro hplain set
      rw [List.foldl_cons, addLine_eq set (hplain line List.mem_cons_self),
        ih fun other hother => hplain other (List.mem_cons_of_mem line hother)]
      cases hline : contribution? line <;> simp [hline]
  calc parse text
    _ = (contributions text).foldl (fun set pair => set.add pair.1 pair.2) (grouped []) :=
      hlines _ Text.no_newline_of_mem_lines _
    _ = grouped (contributions text) := foldl_add _ []

/-! ## Responses one after the other -/

theorem contribution?_dropReturn {line : List Char} (hline : '\n' ∉ line) :
    contribution? (Text.dropReturn line) = contribution? line := by
  rw [contribution?_of_match? (Text.no_newline_dropReturn hline), contribution?_of_match? hline]
  unfold Text.dropReturn
  split
  · next hlast =>
    rw [← Suggestion.match?_concat (c := '\r') (by decide) line.dropLast, List.dropLast_append_getLast? '\r' hlast]
  · rfl

theorem filterMap_contribution?_append (cs ds : List Char) :
    (Text.lines (cs ++ '\n' :: ds)).filterMap contribution? =
      (Text.lines cs).filterMap contribution? ++ (Text.lines ds).filterMap contribution? := by
  induction cs using Text.lines_induction with
  | last line hline =>
    rw [Text.lines_append_newline hline, List.filterMap_cons, contribution?_dropReturn hline]
    by_cases hne : line = []
    · subst hne
      rfl
    · rw [Text.lines_of_no_newline hline hne, List.filterMap_cons]
      cases contribution? line <;> rfl
  | step line rest hline ih =>
    rw [List.append_assoc, List.cons_append, Text.lines_append_newline hline, Text.lines_append_newline hline,
      List.filterMap_cons, List.filterMap_cons, ih]
    cases contribution? (Text.dropReturn line) <;> rfl

/-- Texts one below the other contribute one after the other. -/
theorem contributions_append (a b : String) : contributions (a ++ "\n" ++ b) = contributions a ++ contributions b := by
  have hlist : (a ++ "\n" ++ b).toList = a.toList ++ '\n' :: b.toList := by simp
  rw [contributions, hlist, filterMap_contribution?_append]
  rfl

theorem contributions_line {line : String} (hline : '\n' ∉ line.toList) :
    contributions line = (contribution? line.toList).toList := by
  rw [contributions]
  by_cases hne : line.toList = []
  · rw [hne]
    rfl
  · rw [Text.lines_of_no_newline hline hne, List.filterMap_cons]
    cases contribution? line.toList <;> rfl

/-- A candidate that a line contributes is trimmed and not empty. -/
theorem trimmed_of_mem_contributions {text name candidate : String} (h : (name, candidate) ∈ contributions text) :
    candidate ≠ "" ∧ Text.trim candidate = candidate := by
  obtain ⟨line, hline, hpair⟩ := List.mem_filterMap.mp h
  rw [contribution?_of_match? (Text.no_newline_of_mem_lines line hline)] at hpair
  obtain ⟨found, -, hpair⟩ := Option.bind_eq_some_iff.mp hpair
  rw [Option.ite_none_left_eq_some] at hpair
  obtain ⟨hne, heq⟩ := hpair
  cases heq
  exact ⟨hne, Text.trim_trim _⟩

/-- **Suggestions are grouped, and responses may be read one after the other.** In what is read from a text the names
are distinct and in the order of the first lines that contribute to them; every entry has candidates, all distinct, none
empty and each trimmed; and the candidates for a name are those that the lines contribute to it, in the order of the
lines and without later repetitions. Hence of a text below another only what is new counts: the candidates that the
first text does not have for a name go behind those that it has, and the names that it does not have behind its
names. -/
theorem parse_groups :
    (∀ text : String,
      ((parse text).entries.map (·.name) = ((contributions text).map (·.1)).eraseDups ∧
        ((parse text).entries.map (·.name)).Nodup) ∧
      (∀ entry ∈ (parse text).entries, entry.candidates ≠ [] ∧ entry.candidates.Nodup ∧
        ∀ candidate ∈ entry.candidates, candidate ≠ "" ∧ Text.trim candidate = candidate) ∧
      ∀ name, (parse text).candidates name = candidatesFor (contributions text) name) ∧
    ∀ a b : String,
      (∀ name, (parse (a ++ "\n" ++ b)).candidates name = (parse a).candidates name ++
        ((parse b).candidates name).filter fun candidate => !((parse a).candidates name).contains candidate) ∧
      (parse (a ++ "\n" ++ b)).entries.map (·.name) = (parse a).entries.map (·.name) ++
        ((parse b).entries.map (·.name)).filter fun name => !((parse a).entries.map (·.name)).contains name := by
  refine ⟨fun text => ⟨⟨?_, ?_⟩, ?_, ?_⟩, fun a b => ⟨?_, ?_⟩⟩
  · rw [parse_eq_grouped, names_grouped]
  · rw [parse_eq_grouped, names_grouped]
    exact nodup_eraseDups _
  · intro entry hentry
    rw [parse_eq_grouped] at hentry
    obtain ⟨name, hname, rfl⟩ := List.mem_map.mp hentry
    obtain ⟨⟨_, candidate⟩, hpair, rfl⟩ := List.mem_map.mp (List.mem_eraseDups.mp hname)
    refine ⟨List.ne_nil_of_mem (mem_candidatesFor.mpr hpair), nodup_eraseDups _, fun other hother => ?_⟩
    exact trimmed_of_mem_contributions (mem_candidatesFor.mp hother)
  · intro name
    rw [parse_eq_grouped, candidates_grouped]
  · intro name
    simp only [parse_eq_grouped, candidates_grouped, contributions_append]
    exact candidatesFor_append _ _ name
  · simp only [parse_eq_grouped, names_grouped, contributions_append]
    rw [List.map_append, eraseDups_append_eq_filter]

theorem parse_groups_repeated :
    (⟨"x", ["n", "m"]⟩ : Suggestion) ∈ (parse ("- `x:n`\r\n- `y:  `" ++ "\n" ++ "- `x: m `\n- `z:n`")).entries ∧
      ["n", "m"].Nodup ∧
      (parse ("- `x:n`\r\n- `y:  `" ++ "\n" ++ "- `x: m `\n- `z:n`")).candidates "x" =
        (parse "- `x:n`\r\n- `y:  `").candidates "x" ++ ["m"] := by
  have hmem : (⟨"x", ["n", "m"]⟩ : Suggestion) ∈
      (parse ("- `x:n`\r\n- `y:  `" ++ "\n" ++ "- `x: m `\n- `z:n`")).entries := by decide +kernel
  refine ⟨hmem, ((parse_groups.1 _).2.1 _ hmem).2.1, ?_⟩
  rw [(parse_groups.2 "- `x:n`\r\n- `y:  `" "- `x: m `\n- `z:n`").1 "x"]
  decide +kernel

/-! ## Responses that were written line by line -/

end SuggestionSet

/-- A name and a candidate that a line can suggest. -/
structure NamePair where
  name : String
  candidate : String
  name_ne : name ≠ ""
  name_words : ∀ c ∈ name.toList, Text.isWord c = true
  candidate_ne : candidate ≠ ""
  candidate_trimmed : Text.trim candidate = candidate
  candidate_plain : '\x60' ∉ candidate.toList ∧ '\n' ∉ candidate.toList

/-- A line of a response: a suggestion, or a remark without backticks. -/
inductive ResponseLine where
  | suggestion (pair : NamePair)
  | remark (text : String) (plain : '\x60' ∉ text.toList ∧ '\n' ∉ text.toList)

namespace ResponseLine

/-- The text of a line. -/
def text : ResponseLine → String
  | .suggestion pair => "- `" ++ pair.name ++ ":" ++ pair.candidate ++ "`"
  | .remark text _ => text

/-- What a line suggests. -/
def pair? : ResponseLine → Option (String × String)
  | .suggestion pair => some (pair.name, pair.candidate)
  | .remark _ _ => none

theorem toList_suggestion (pair : NamePair) : (suggestion pair).text.toList =
    '-' :: ' ' :: '\x60' :: (pair.name.toList ++ ':' :: (pair.candidate.toList ++ ['\x60'])) := by
  simp [text]

theorem no_newline (line : ResponseLine) : '\n' ∉ line.text.toList := by
  cases line with
  | suggestion pair =>
    have hname : '\n' ∉ pair.name.toList := fun hmem => by cases pair.name_words '\n' hmem
    simp [toList_suggestion, hname, pair.candidate_plain.2]
  | remark text plain => exact plain.2

/-- A line that suggests something is matched as a whole. -/
theorem match?_suggestion (pair : NamePair) :
    Suggestion.match? (suggestion pair).text.toList = some (pair.name.toList, pair.candidate.toList) := by
  have hhere : Suggestion.matchHere? (suggestion pair).text.toList =
      some (pair.name.toList, pair.candidate.toList) := by
    refine Suggestion.matchHere?_eq_some_iff.mpr ⟨?_, pair.name_words, ?_, ?_, [], toList_suggestion pair⟩
    · simpa using pair.name_ne
    · simpa using pair.candidate_ne
    · exact fun hmem => pair.candidate_plain.1 (List.mem_of_mem_tail hmem)
  rw [toList_suggestion] at hhere ⊢
  rw [Suggestion.match?, hhere]

theorem contribution?_text (line : ResponseLine) : SuggestionSet.contribution? line.text.toList = line.pair? := by
  rw [SuggestionSet.contribution?_of_match? line.no_newline]
  cases line with
  | suggestion pair =>
    rw [match?_suggestion, Option.bind_some, String.ofList_toList, String.ofList_toList, pair.candidate_trimmed,
      if_neg pair.candidate_ne]
    rfl
  | remark remark plain =>
    rw [text, Suggestion.match?_of_no_backtick plain.1]
    rfl

end ResponseLine

namespace SuggestionSet

theorem contributions_written (lines : List ResponseLine) :
    contributions ("\n".intercalate (lines.map ResponseLine.text)) = lines.filterMap ResponseLine.pair? := by
  induction lines with
  | nil => rfl
  | cons line lines ih =>
    have hline : contributions line.text = line.pair?.toList := by
      rw [contributions_line line.no_newline, line.contribution?_text]
    have hcons (rest : List ResponseLine) : (line :: rest).filterMap ResponseLine.pair? =
        line.pair?.toList ++ rest.filterMap ResponseLine.pair? := by
      cases hpair : line.pair? <;> simp [hpair]
    cases lines with
    | nil => rw [List.map_singleton, String.intercalate_singleton, hline, hcons, List.filterMap_nil, List.append_nil]
    | cons next lines =>
      rw [List.map_cons, String.intercalate_cons_of_ne_nil (by simp), contributions_append, ih, hline, hcons]

/-- **Written suggestions are read back.** Write pairs of a name and a candidate one to a line, with any remarks without
backticks on lines between them. What is read are the groups of those pairs: every name once, in the order of first
appearance, with every candidate for it once, in that order too. -/
theorem parse_written (lines : List ResponseLine) :
    parse ("\n".intercalate (lines.map ResponseLine.text)) = grouped (lines.filterMap ResponseLine.pair?) := by
  rw [parse_eq_grouped, contributions_written]

example : parse "- `größe:a - b: c`\nas well as\n- `x:n`\n- `größe:ñ`" =
    ⟨[⟨"größe", ["a - b: c", "ñ"]⟩, ⟨"x", ["n"]⟩]⟩ := by
  decide +kernel

end SuggestionSet
end VarCensus

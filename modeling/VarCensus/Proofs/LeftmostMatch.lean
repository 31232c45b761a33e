import Mathlib.Data.List.TakeWhile
import VarCensus.Suggestion

/-!
# The pattern of a suggestion

A suggestion is found in a line by a pattern with two captures: a dash, a space, a backtick, a run of word
characters, a colon, a run of any characters, a backtick. The first run is to be as long as possible and the second
one as short as possible.

Here patterns are data, and `Pattern.ways` lists all the ways in which one takes a front of a text, in the order of
preference: what a pattern that tries one way after the other would try first comes first. The match of a pattern is
the first way at the leftmost place that has one. `Suggestion.match?` reads the captures off the text without trying
anything, and `captures?_pattern` says that on a line it finds just what that search finds.
-/

namespace VarCensus

/-- A pattern for a stretch of text. -/
inductive Pattern where
  /-- The given character. -/
  | char (c : Char)
  /-- Characters that pass a test, at least one: as many as possible if `greedy`, else as few as possible. -/
  | run (test : Char → Bool) (greedy : Bool)
  /-- One pattern, and then another. -/
  | seq (first second : Pattern)
  /-- A pattern whose stretch is kept. -/
  | capture (inner : Pattern)

/-- One way to take a front of a text: what it keeps, and what it leaves. -/
structure Way where
  taken : List Char
  captures : List (List Char)
  rest : List Char

namespace Pattern

/-- The fronts of a text that pass a test, each with the rest, in the order of preference. -/
def runs (test : Char → Bool) (greedy : Bool) : List Char → List (List Char × List Char)
  | [] => []
  | c :: rest =>
    if test c then
      let longer := (runs test greedy rest).map fun (taken, left) => (c :: taken, left)
      if greedy then longer ++ [([c], rest)] else ([c], rest) :: longer
    else []

/-- All ways in which a pattern takes a front of a text, in the order of preference. -/
def ways : Pattern → List Char → List Way
  | .char _, [] => []
  | .char c, d :: rest => if d = c then [⟨[d], [], rest⟩] else []
  | .run test greedy, cs => (runs test greedy cs).map fun (taken, rest) => ⟨taken, [], rest⟩
  | .seq first second, cs =>
    (first.ways cs).flatMap fun way =>
      (second.ways way.rest).map fun more =>
        ⟨way.taken ++ more.taken, way.captures ++ more.captures, more.rest⟩
  | .capture inner, cs => (inner.ways cs).map fun way => { way with captures := way.taken :: way.captures }

/-- The way that is preferred at the front of a text. -/
def first? (pattern : Pattern) (cs : List Char) : Option Way :=
  (pattern.ways cs).head?

/-- The way that is preferred at the leftmost place where there is one. -/
def leftmost? (pattern : Pattern) : List Char → Option Way
  | [] => pattern.first? []
  | c :: rest => (pattern.first? (c :: rest)).or (leftmost? pattern rest)

/-- The captures of the match of a pattern. -/
def captures? (pattern : Pattern) (cs : List Char) : Option (List (List Char)) :=
  (pattern.leftmost? cs).map Way.captures

/-! ## One part after the other -/

/-- What is captured at the front of a text. -/
def capturesHere? (pattern : Pattern) (cs : List Char) : Option (List (List Char)) :=
  (pattern.first? cs).map Way.captures

theorem captures?_cons (pattern : Pattern) (c : Char) (cs : List Char) :
    pattern.captures? (c :: cs) = (pattern.capturesHere? (c :: cs)).or (pattern.captures? cs) := by
  rw [captures?, leftmost?, Option.map_or]
  rfl

section

variable {test : Char → Bool} {cs : List Char}

theorem capturesHere?_seq (first second : Pattern) : (first.seq second).capturesHere? cs =
    (first.ways cs).findSome? fun way => (second.capturesHere? way.rest).map (way.captures ++ ·) := by
  simp only [capturesHere?, first?, ways, List.head?_flatMap, List.head?_map, List.map_findSome?, Function.comp_def,
    Option.map_map]

theorem capturesHere?_char (c : Char) :
    (Pattern.char c).capturesHere? cs = if cs.head? = some c then some [] else none := by
  cases cs with
  | nil => rfl
  | cons d rest =>
    simp only [capturesHere?, first?, ways, List.head?_cons, Option.some.injEq]
    split <;> rfl

theorem capturesHere?_seq_char (c d : Char) (next : Pattern) :
    ((Pattern.char c).seq next).capturesHere? (d :: cs) = if d = c then next.capturesHere? cs else none := by
  rw [capturesHere?_seq, ways]
  split <;> simp

theorem capturesHere?_seq_char_nil (c : Char) (next : Pattern) :
    ((Pattern.char c).seq next).capturesHere? [] = none := rfl

theorem capturesHere?_seq_run (greedy : Bool) (next : Pattern) :
    ((Pattern.run test greedy).capture.seq next).capturesHere? cs =
      (runs test greedy cs).findSome? fun way => (next.capturesHere? way.2).map (way.1 :: ·) := by
  rw [capturesHere?_seq, ways, ways, List.findSome?_map, List.findSome?_map]
  rfl

/-! ## Runs -/

/-- A greedy run takes all it can if whatever comes next cannot start with a character of the run. -/
theorem findSome?_runs_greedy {α : Type} {next : List Char × List Char → Option α}
    (hnext : ∀ taken c rest, test c = true → next (taken, c :: rest) = none) :
    (runs test true cs).findSome? next =
      if cs.takeWhile test = [] then none else next (cs.takeWhile test, cs.dropWhile test) := by
  induction cs generalizing next with
  | nil => rfl
  | cons c cs ih =>
    rw [runs]
    cases hc : test c with
    | false => simp [hc]
    | true =>
      have hlonger := @ih (fun way => next (c :: way.1, way.2)) fun taken => hnext (c :: taken)
      simp only [↓reduceIte, List.findSome?_append, List.findSome?_map, Function.comp_def, hlonger,
        List.takeWhile_cons, List.dropWhile_cons, hc, reduceCtorEq, List.findSome?_singleton]
      cases cs with
      | nil => simp
      | cons d cs =>
        cases hd : test d with
        | true => simp [hd, hnext]
        | false => simp [hd]

/-- A lazy run stops before the first character that comes next, its own first character apart. -/
theorem findSome?_runs_lazy {α : Type} {next : List Char × List Char → Option α} (stop : Char)
    (hnext : ∀ taken rest, rest.head? ≠ some stop → next (taken, rest) = none)
    (hstop : ∀ taken rest, (next (taken, stop :: rest)).isSome) (c : Char) (hcs : ∀ d ∈ c :: cs, test d = true) :
    (runs test false (c :: cs)).findSome? next =
      next (c :: cs.takeWhile (· != stop), cs.dropWhile (· != stop)) := by
  induction cs generalizing c next with
  | nil => simp [runs, hcs c List.mem_cons_self]
  | cons d cs ih =>
    have hlonger := @ih (fun way => next (c :: way.1, way.2)) (fun taken => hnext (c :: taken))
      (fun taken => hstop (c :: taken)) d fun x hx => hcs x (List.mem_cons_of_mem _ hx)
    rw [runs, if_pos (hcs c List.mem_cons_self)]
    by_cases hd : d = stop
    · subst hd
      simp [List.findSome?_cons_of_isSome (hstop [c] cs)]
    · have hhere : next ([c], d :: cs) = none := hnext [c] (d :: cs) (by simpa using hd)
      simpa [List.findSome?_cons, List.findSome?_map, hhere, Function.comp_def, hd] using hlonger

end

end Pattern

/-! ## The pattern of a suggestion -/

namespace Suggestion

/-- The part of the pattern behind the name. -/
def colonPattern : Pattern :=
  .seq (.char ':') <| .seq (.capture (.run (· != '\n') false)) (.char '\x60')

/-- The part of the pattern behind the opening. -/
def namePattern : Pattern :=
  .seq (.capture (.run Text.isWord true)) colonPattern

/-- The pattern by which suggestions are found. -/
def pattern : Pattern :=
  .seq (.char '-') <| .seq (.char ' ') <| .seq (.char '\x60') namePattern

/-! ## Where a suggestion stands -/

/-- A text is cut at its first backtick. -/
theorem cut_backtick {before : List Char} (hbefore : '\x60' ∉ before) (after : List Char) :
    (before ++ '\x60' :: after).takeWhile (· != '\x60') = before ∧
      (before ++ '\x60' :: after).dropWhile (· != '\x60') = '\x60' :: after := by
  have hplain : ∀ c ∈ before, (c != '\x60') = true := by
    intro c hc
    rw [bne_iff_ne]
    rintro rfl
    exact hbefore hc
  constructor
  · rw [List.takeWhile_append_of_pos hplain, List.takeWhile_cons_of_neg (by simp), List.append_nil]
  · rw [List.dropWhile_append_of_pos hplain, List.dropWhile_cons_of_neg (by simp)]

theorem candidate?_cut (c : Char) {before : List Char} (hbefore : '\x60' ∉ before) (after : List Char) :
    candidate? (c :: (before ++ '\x60' :: after)) = some (c :: before) := by
  simp [candidate?, (cut_backtick hbefore after).1]

theorem candidate?_of_no_backtick (c : Char) {cs : List Char} (hcs : '\x60' ∉ cs) : candidate? (c :: cs) = none := by
  have hall : cs.takeWhile (· != '\x60') = cs := by
    rw [List.takeWhile_eq_self_iff]
    intro d hd
    rw [bne_iff_ne]
    rintro rfl
    exact hcs hd
  simp [candidate?, hall]

theorem candidate?_eq_some_iff {cs candidate : List Char} : candidate? cs = some candidate ↔
    candidate ≠ [] ∧ '\x60' ∉ candidate.tail ∧ ∃ after, cs = candidate ++ '\x60' :: after := by
  constructor
  · intro h
    cases cs with
    | nil => cases h
    | cons c cs =>
      by_cases hmem : '\x60' ∈ cs
      · obtain ⟨before, after, rfl, hbefore⟩ := List.eq_append_cons_of_mem hmem
        rw [candidate?_cut c hbefore] at h
        cases h
        exact ⟨by simp, hbefore, after, rfl⟩
      · rw [candidate?_of_no_backtick c hmem] at h
        cases h
  · rintro ⟨hne, hplain, after, rfl⟩
    obtain ⟨c, more, rfl⟩ := List.exists_cons_of_ne_nil hne
    exact candidate?_cut c hplain after

theorem drop_length_takeWhile (p : Char → Bool) (cs : List Char) :
    cs.drop (cs.takeWhile p).length = cs.dropWhile p := by
  calc cs.drop (cs.takeWhile p).length
    _ = (cs.takeWhile p ++ cs.dropWhile p).drop (cs.takeWhile p).length := by
      rw [List.takeWhile_append_dropWhile]
    _ = cs.dropWhile p := List.drop_left

theorem eq_of_afterOpening? {cs rest : List Char} (h : afterOpening? cs = some rest) :
    cs = '-' :: ' ' :: '\x60' :: rest := by
  unfold afterOpening? at h
  split at h
  · rw [Option.some.inj h]
  · cases h

/-- What a suggestion at the front of a text looks like. -/
theorem matchHere?_eq_some_iff {cs name candidate : List Char} : matchHere? cs = some (name, candidate) ↔
    name ≠ [] ∧ (∀ c ∈ name, Text.isWord c = true) ∧ candidate ≠ [] ∧ '\x60' ∉ candidate.tail ∧
      ∃ after, cs = '-' :: ' ' :: '\x60' :: (name ++ ':' :: (candidate ++ '\x60' :: after)) := by
  constructor
  · intro h
    rw [matchHere?] at h
    cases hopen : afterOpening? cs with
    | none => simp [hopen] at h
    | some rest =>
      simp only [hopen, drop_length_takeWhile] at h
      split at h
      · next after hrest =>
        simp only [List.isEmpty_iff, Option.ite_none_left_eq_some, Option.map_eq_some_iff, Prod.mk.injEq] at h
        obtain ⟨hname, found, hfound, rfl, rfl⟩ := h
        obtain ⟨hne, hplain, behind, rfl⟩ := candidate?_eq_some_iff.mp hfound
        refine ⟨hname, fun c hc => List.mem_takeWhile_imp hc, hne, hplain, behind, ?_⟩
        rw [eq_of_afterOpening? hopen, ← hrest, List.takeWhile_append_dropWhile]
      · cases h
  · rintro ⟨hname, hwords, hne, hplain, after, rfl⟩
    have hcandidate := candidate?_eq_some_iff.mpr ⟨hne, hplain, after, rfl⟩
    have htake : (name ++ ':' :: (candidate ++ '\x60' :: after)).takeWhile Text.isWord = name := by
      rw [List.takeWhile_append_of_pos hwords, List.takeWhile_cons_of_neg (by decide), List.append_nil]
    rw [matchHere?]
    simpa [afterOpening?, htake] using ⟨hname, hcandidate⟩

/-- A suggestion ends with a backtick, so another character at the end of a line makes no difference. -/
theorem matchHere?_concat {c : Char} (hc : c ≠ '\x60') (cs : List Char) : matchHere? (cs ++ [c]) = matchHere? cs := by
  ext ⟨name, candidate⟩
  rw [matchHere?_eq_some_iff, matchHere?_eq_some_iff]
  refine and_congr_right fun _ => and_congr_right fun _ => and_congr_right fun _ => and_congr_right fun _ => ?_
  constructor
  · rintro ⟨after, heq⟩
    rcases List.eq_nil_or_concat after with rfl | ⟨behind, d, rfl⟩
    · have hends : cs ++ [c] = '-' :: ' ' :: '\x60' :: (name ++ ':' :: candidate) ++ ['\x60'] := by simpa using heq
      have hlast := (List.append_inj' hends rfl).2
      exact absurd (List.cons.inj hlast).1 hc
    · have hends : cs ++ [c] = '-' :: ' ' :: '\x60' :: (name ++ ':' :: (candidate ++ '\x60' :: behind)) ++ [d] := by
        simpa using heq
      exact ⟨behind, (List.append_inj' hends rfl).1⟩
  · rintro ⟨after, rfl⟩
    exact ⟨after ++ [c], by simp⟩

theorem match?_concat {c : Char} (hc : c ≠ '\x60') (cs : List Char) : match? (cs ++ [c]) = match? cs := by
  induction cs with
  | nil =>
    have hhere := matchHere?_concat hc []
    rw [List.nil_append] at hhere
    simp only [List.nil_append, match?, hhere]
    rfl
  | cons d cs ih =>
    rw [List.cons_append, match?, match?, ← List.cons_append, matchHere?_concat hc, ih]

/-- There is no suggestion without a backtick. -/
theorem match?_of_no_backtick {cs : List Char} (h : '\x60' ∉ cs) : match? cs = none := by
  induction cs with
  | nil => rfl
  | cons c cs ih =>
    have hhere : matchHere? (c :: cs) = none := by
      refine Option.eq_none_iff_forall_not_mem.mpr fun ⟨name, candidate⟩ hfound => ?_
      obtain ⟨-, -, -, -, after, heq⟩ := matchHere?_eq_some_iff.mp hfound
      exact h (by simp [heq])
    rw [match?, hhere, ih fun hmem => h (List.mem_cons_of_mem c hmem)]

/-! ## What the pattern captures -/

/-- What is captured behind the colon. -/
theorem capturesHere?_candidate {cs : List Char} (hcs : '\n' ∉ cs) :
    ((Pattern.run (· != '\n') false).capture.seq (.char '\x60')).capturesHere? cs =
      (candidate? cs).map fun candidate => [candidate] := by
  rw [Pattern.capturesHere?_seq_run]
  cases cs with
  | nil => rfl
  | cons c cs =>
    have hdots : ∀ d ∈ c :: cs, (d != '\n') = true := by
      intro d hd
      rw [bne_iff_ne]
      rintro rfl
      exact hcs hd
    rw [Pattern.findSome?_runs_lazy '\x60' ?_ ?_ c hdots, Pattern.capturesHere?_char]
    · by_cases hmem : '\x60' ∈ cs
      · obtain ⟨before, after, rfl, hbefore⟩ := List.eq_append_cons_of_mem hmem
        obtain ⟨htake, hdrop⟩ := cut_backtick hbefore after
        simp [htake, hdrop, candidate?_cut c hbefore]
      · have hhead : (cs.dropWhile (· != '\x60')).head? ≠ some '\x60' := fun hhead =>
          hmem ((List.dropWhile_subset _) (List.mem_of_mem_head? hhead))
        rw [if_neg hhead, candidate?_of_no_backtick c hmem]
        rfl
    · intro taken rest hrest
      simp [Pattern.capturesHere?_char, hrest]
    · intro taken rest
      simp [Pattern.capturesHere?_char]

/-- The name in front of a colon is all of the word characters there, since a colon is none. -/
theorem capturesHere?_name {cs : List Char} (hcs : '\n' ∉ cs) :
    namePattern.capturesHere? cs =
      (matchHere? ('-' :: ' ' :: '\x60' :: cs)).map fun found => [found.1, found.2] := by
  have hcolon : ∀ taken c (rest : List Char), Text.isWord c = true →
      (colonPattern.capturesHere? (c :: rest)).map (taken :: ·) = none := by
    intro taken c rest hc
    have hne : c ≠ ':' := by
      rintro rfl
      cases hc
    rw [colonPattern, Pattern.capturesHere?_seq_char, if_neg hne]
    rfl
  rw [namePattern, Pattern.capturesHere?_seq_run, Pattern.findSome?_runs_greedy hcolon]
  simp only [matchHere?, afterOpening?, drop_length_takeWhile]
  cases hrest : cs.dropWhile Text.isWord with
  | nil => simp [colonPattern, Pattern.capturesHere?_seq_char_nil]
  | cons c after =>
    have hafter : '\n' ∉ after := fun hmem =>
      hcs ((List.dropWhile_suffix Text.isWord).mem (hrest ▸ List.mem_cons_of_mem c hmem))
    by_cases hc : c = ':'
    · subst hc
      rw [colonPattern, Pattern.capturesHere?_seq_char, if_pos rfl, capturesHere?_candidate hafter]
      cases hname : cs.takeWhile Text.isWord with
      | nil => simp
      | cons d name => simp [Function.comp_def]
    · rw [colonPattern, Pattern.capturesHere?_seq_char, if_neg hc]
      simp [hc]

theorem capturesHere?_opening (cs : List Char) :
    pattern.capturesHere? cs = (afterOpening? cs).bind namePattern.capturesHere? := by
  rcases cs with _ | ⟨a, _ | ⟨b, _ | ⟨c, rest⟩⟩⟩
  · rfl
  · simp [pattern, Pattern.capturesHere?_seq_char, Pattern.capturesHere?_seq_char_nil, afterOpening?]
  · simp [pattern, Pattern.capturesHere?_seq_char, Pattern.capturesHere?_seq_char_nil, afterOpening?]
  · simp only [pattern, Pattern.capturesHere?_seq_char]
    by_cases hopens : a = '-' ∧ b = ' ' ∧ c = '\x60'
    · obtain ⟨rfl, rfl, rfl⟩ := hopens
      rfl
    · have hnone : afterOpening? (a :: b :: c :: rest) = none := by
        unfold afterOpening?
        split
        · next heq => exact absurd (by simp_all) hopens
        · rfl
      rw [hnone, Option.bind_none]
      grind

/-- What is captured at the front of a line. -/
theorem capturesHere?_pattern {cs : List Char} (hcs : '\n' ∉ cs) :
    pattern.capturesHere? cs = (matchHere? cs).map fun found => [found.1, found.2] := by
  rw [capturesHere?_opening]
  cases hopen : afterOpening? cs with
  | none => simp [matchHere?, hopen]
  | some rest =>
    obtain rfl := eq_of_afterOpening? hopen
    rw [Option.bind_some, capturesHere?_name fun hmem => hcs (by simp [hmem])]

/-- **A line is searched for the pattern.** What is found in a line is what the pattern of suggestions captures
there: of all places the leftmost, and at that place the way that is preferred. -/
theorem captures?_pattern {cs : List Char} (hcs : '\n' ∉ cs) :
    pattern.captures? cs = (match? cs).map fun found => [found.1, found.2] := by
  induction cs with
  | nil => rfl
  | cons c cs ih =>
    rw [Pattern.captures?_cons, capturesHere?_pattern hcs, ih fun hmem => hcs (List.mem_cons_of_mem c hmem), match?]
    cases matchHere? (c :: cs) with
    | none => rfl
    | some found => rfl

end Suggestion
end VarCensus

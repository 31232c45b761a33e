import VarCensus.Proofs.RecordOrigins
import VarCensus.Proofs.Standing
import VarCensus.Proofs.TrimmedTexts

/-!
# Reading kinds back from their texts

A kind is stored as its text. The shared vocabulary is read back as it was; a declared type is read back as a
type unless its text is a word of the vocabulary or changes when it is trimmed. Types are taken from the source
as they are written, so which of them can go wrong depends on what the search takes for a type.

`extract_kind_roundtrip` gives the answer for every record of every language. In Java the one type that is lost
is `boolean`, in C++ it is `string`, `array` and `function`, and in both a type is changed that begins or ends
with a blank outside ASCII: such blanks count as letters of a word while a source is scanned.
-/

namespace VarCensus

/-! ## Texts and their ends -/

namespace Text

/-- A text begins or ends with a blank outside ASCII. -/
def WideBordered (s : String) : Prop :=
  ∃ c, (s.toList.head? = some c ∨ s.toList.getLast? = some c) ∧ isBlank c = true ∧ 0x80 ≤ c.toNat

/-- A text that is not empty and has no ASCII blank at either end. -/
structure Solid (s : String) : Prop where
  ne_empty : s ≠ ""
  ends : ∀ c, s.toList.head? = some c ∨ s.toList.getLast? = some c → c.toNat < 0x80 → isBlank c = false

theorem Solid.append {s t : String} (hs : Solid s) (m : String) (ht : Solid t) : Solid (s ++ (m ++ t)) := by
  have hs' : s.toList ≠ [] := by simpa using hs.ne_empty
  have ht' : t.toList ≠ [] := by simpa using ht.ne_empty
  refine ⟨by simp [hs.ne_empty], fun c hc => ?_⟩
  rw [String.toList_append, String.toList_append, List.head?_append_of_ne_nil _ hs', ← List.append_assoc,
    List.getLast?_append_of_ne_nil _ ht'] at hc
  rcases hc with hc | hc
  · exact hs.ends c (Or.inl hc)
  · exact ht.ends c (Or.inr hc)

theorem Solid.append_or {s t : String} (hs : Solid s) (ht : t = "" ∨ Solid t) : Solid (s ++ t) := by
  rcases ht with rfl | ht
  · rwa [String.append_empty]
  · simpa using hs.append "" ht

theorem exists_word_of_mem {c : Char} (hblank : isBlank c = false) :
    ∀ {cs : List Char}, c ∈ cs → ∃ w ∈ words cs, c ∈ w := by
  intro cs
  induction cs with
  | nil =>
    intro hc
    cases hc
  | cons d cs ih =>
    intro hc
    cases hd : isBlank d with
    | true =>
      rw [words_cons_blank hd]
      rcases List.mem_cons.mp hc with rfl | hc
      · rw [hblank] at hd
        cases hd
      · exact ih hc
    | false =>
      cases cs with
      | nil =>
        obtain rfl := List.mem_singleton.mp hc
        exact ⟨[c], by rw [words_singleton hd]; exact List.mem_singleton_self _, List.mem_singleton_self c⟩
      | cons b cs =>
        cases hb : isBlank b with
        | true =>
          rw [words_cons_of_blank_after hd hb]
          rcases List.mem_cons.mp hc with rfl | hc
          · exact ⟨[c], List.mem_cons_self, List.mem_singleton_self c⟩
          · obtain ⟨w, hw, hcw⟩ := ih hc
            exact ⟨w, List.mem_cons_of_mem _ hw, hcw⟩
        | false =>
          obtain ⟨v, vs, hv⟩ := words_ne_nil hb cs
          rw [words_cons_of_word hd hb hv]
          rcases List.mem_cons.mp hc with rfl | hc
          · exact ⟨c :: v, List.mem_cons_self, List.mem_cons_self⟩
          · obtain ⟨w, hw, hcw⟩ := ih hc
            rw [hv] at hw
            rcases List.mem_cons.mp hw with rfl | hw
            · exact ⟨d :: w, List.mem_cons_self, List.mem_cons_of_mem d hcw⟩
            · exact ⟨w, List.mem_cons_of_mem _ hw, hcw⟩

/-- Characters that are not blank stay when a text is collapsed. -/
theorem mem_collapse {s : String} {c : Char} (hc : c ∈ s.toList) (hblank : isBlank c = false) :
    c ∈ (collapse s).toList := by
  obtain ⟨w, hw, hcw⟩ := exists_word_of_mem hblank hc
  rw [collapse, String.toList_ofList]
  generalize words s.toList = ws at hw
  induction ws with
  | nil => cases hw
  | cons v ws ih =>
    cases ws with
    | nil =>
      obtain rfl := List.mem_singleton.mp hw
      simpa using hcw
    | cons u ws =>
      rw [List.intercalate_cons_cons]
      rcases List.mem_cons.mp hw with rfl | hw
      · exact List.mem_append_left _ (List.mem_append_left _ hcw)
      · exact List.mem_append_right _ (ih hw)

theorem solid_collapse (s : String) : collapse s = "" ∨ Solid (collapse s) := by
  by_cases hempty : collapse s = ""
  · exact Or.inl hempty
  · have hends := isCollapsed_of_collapse (collapse_collapse s)
    refine Or.inr ⟨hempty, fun c hc _ => ?_⟩
    rcases hc with hc | hc
    · exact hends.head c hc
    · exact hends.last c hc

theorem isBlank_eq_false_of_isIdentByte {c : Char} (hascii : c.toNat < 0x80)
    (h : isIdentByte c.toUInt8 = true) : isBlank c = false := by
  cases hblank : isBlank c with
  | false => rfl
  | true =>
    exfalso
    have hcode : c.toNat ∈ ['\t', '\n', '\x0b', '\x0c', '\r', ' '].map Char.toNat := by
      simp only [isBlank, Bool.or_eq_true, Bool.and_eq_true, decide_eq_true_eq, beq_iff_eq] at hblank
      simp only [List.map_cons, List.map_nil, List.mem_cons, List.not_mem_nil, or_false, Char.reduceToNat]
      omega
    obtain ⟨b, hb, hsame⟩ := List.mem_map.mp hcode
    obtain rfl : b = c := Char.ext (UInt32.toNat_inj.mp hsame)
    have hall : ['\t', '\n', '\x0b', '\x0c', '\r', ' '].all (fun c => !isIdentByte c.toUInt8) = true := by decide
    have := List.all_eq_true.mp hall b hb
    rw [h] at this
    cases this

theorem solid_of_isIdent {s : String} (h : isIdent s = true) : Solid s := by
  obtain ⟨b, rest, hbytes, -, hall⟩ := exists_of_isIdent h
  refine ⟨?_, fun c hc hascii => ?_⟩
  · rintro rfl
    cases hbytes
  · have hmem : c ∈ s.toList := by
      rcases hc with hc | hc
      · exact List.mem_of_head? hc
      · exact List.mem_of_getLast? hc
    have hsize : c.utf8Size = 1 := by
      rw [Char.utf8Size_eq_one_iff]
      exact Nat.le_of_lt_succ hascii
    exact isBlank_eq_false_of_isIdentByte hascii (hall _ (mem_bytes_of_mem_toList hsize hmem))

end Text

/-! ## The vocabulary -/

namespace Kind

/-- The words of the shared vocabulary. -/
def tags : List String :=
  shared.map text

theorem ofText?_of_isShared {kind : Kind} (h : kind.isShared = true) : ofText? kind.text = some kind := by
  cases kind with
  | declared => cases h
  | _ => decide

/-- A declared type is read back if trimming leaves it as it is and it is none of the words. -/
theorem ofText?_declared {type : String} (hne : type ≠ "") : ofText? type = some (.declared type) ↔
    Text.trim type = type ∧ type ∉ tags := by
  have hshared (k : Kind) (hk : k ∈ shared) (type : String) : k ≠ .declared type := by
    rintro rfl
    simp [shared] at hk
  unfold ofText?
  constructor
  · intro h
    simp only at h
    split at h
    · cases h
    · have hkind := Option.some.inj h
      cases hf : shared.find? (·.text == Text.trim type) with
      | some k =>
        rw [hf, Option.getD_some] at hkind
        exact absurd hkind (hshared k (List.mem_of_find?_eq_some hf) type)
      | none =>
        rw [hf, Option.getD_none] at hkind
        have htrim := Kind.declared.inj hkind
        refine ⟨htrim, fun hmem => ?_⟩
        obtain ⟨k, hk, hkt⟩ := List.mem_map.mp hmem
        have := List.find?_eq_none.mp hf k hk
        rw [htrim, hkt] at this
        simp at this
  · rintro ⟨htrim, hnot⟩
    have hnone : shared.find? (·.text == type) = none := by
      rw [List.find?_eq_none]
      intro k hk heq
      exact hnot (List.mem_map.mpr ⟨k, hk, beq_iff_eq.mp heq⟩)
    simp [htrim, hne, hnone]

end Kind

theorem Kind.isShared_ite {p : Prop} [Decidable p] {a b : Kind} (ha : a.isShared = true)
    (hb : b.isShared = true) : (if p then a else b).isShared = true := by
  split
  · exact ha
  · exact hb

/-- The shape of a value tells a kind of the vocabulary. -/
theorem Cue.isShared_kindOf (spelling : Spelling) (value : String) :
    (kindOf spelling value).isShared = true := by
  unfold kindOf kindOfTrimmed
  refine Kind.isShared_ite rfl ?_
  split
  · exact Kind.isShared_ite rfl rfl
  · repeat refine Kind.isShared_ite rfl ?_
    rfl

mutual

/-- So does a value in a syntax tree. -/
theorem Tree.isShared_valueOf (src : Source) : ∀ tree : Tree, (valueOf src tree).1.isShared = true
  | .node label children => by
    rw [valueOf]
    simp only [apply_ite Prod.fst]
    repeat refine Kind.isShared_ite rfl ?_
    refine Kind.isShared_ite ?_ rfl
    cases hsole : soleValue? src children with
    | none => rfl
    | some value => exact Tree.isShared_soleValue? src children value hsole

theorem Tree.isShared_soleValue? (src : Source) :
    ∀ (children : List Tree) (value : Kind × String), soleValue? src children = some value →
      value.1.isShared = true
  | [], value, h => by
    rw [soleValue?] at h
    cases h
  | tree :: more, value, h => by
    rw [soleValue?] at h
    split at h
    · split at h
      · cases h
      · cases h
        exact Tree.isShared_valueOf src tree
    · exact Tree.isShared_soleValue? src more value h

end

/-! ## What a slice holds -/

namespace Source

/-- A slice that opens with an ASCII character and ends behind one holds the first. -/
theorem mem_slice {text : String} {p q : Nat} {c : Char} {b : UInt8} (hsize : c.utf8Size = 1)
    (hascii : c.toUInt8 < 0x80) (hp : (ofString text).byte? p = some c.toUInt8)
    (hq : (ofString text).byte? q = some b) (hb : b < 0x80) (hle : p ≤ q) :
    c ∈ ((ofString text).slice p (q + 1)).toList := by
  apply Text.mem_toList_of_mem_bytes hsize hascii
  rw [bytes_slice (Nat.le_succ_of_le hle) (isValid_of_ascii hp hascii) (isValid_succ_of_ascii hq hb),
    after_eq_cons hp, Nat.succ_sub hle]
  exact List.mem_cons_self

theorem byte?_groupEndFrom? {lex : Lexicon} {src : Source} {opener closer : UInt8}
    {start limit depth pos e : Nat}
    (h : src.groupEndFrom? lex opener closer start limit depth pos = some e) :
    ∃ q, e = q + 1 ∧ pos ≤ q ∧ src.byte? q = some closer := by
  fun_induction groupEndFrom? lex src opener closer start limit depth pos with
  | case1 => cases h
  | case2 _ pos _ _ e' he ih =>
    obtain ⟨q, rfl, hle, hb⟩ := ih h
    exact ⟨q, rfl, Nat.le_trans (Nat.le_of_lt (enclosedEnd?_bounds he).1) hle, hb⟩
  | case3 _ pos _ _ _ _ ih =>
    obtain ⟨q, rfl, hle, hb⟩ := ih h
    exact ⟨q, rfl, Nat.le_of_succ_le hle, hb⟩
  | case4 _ pos hlt _ _ _ hb =>
    cases h
    refine ⟨pos, rfl, Nat.le_refl _, ?_⟩
    rw [byte?, Array.getElem?_eq_getElem hlt, beq_iff_eq.mp hb]
  | case5 _ pos _ _ _ _ _ _ ih =>
    obtain ⟨q, rfl, hle, hb⟩ := ih h
    exact ⟨q, rfl, Nat.le_of_succ_le hle, hb⟩
  | case6 _ pos _ _ _ _ _ ih =>
    obtain ⟨q, rfl, hle, hb⟩ := ih h
    exact ⟨q, rfl, Nat.le_of_succ_le hle, hb⟩
  | case7 => cases h

end Source

namespace Dialect

theorem byte?_typeArgumentsEndFrom? {src : Source} {start limit depth pos e : Nat}
    (h : typeArgumentsEndFrom? src start limit depth pos = some e) :
    ∃ q, e = q + 1 ∧ pos ≤ q ∧ src.byte? q = some '>'.toUInt8 := by
  fun_induction typeArgumentsEndFrom? src start limit depth pos with
  | case1 => cases h
  | case2 _ pos _ _ _ _ ih =>
    obtain ⟨q, rfl, hle, hb⟩ := ih h
    exact ⟨q, rfl, Nat.le_of_succ_le hle, hb⟩
  | case3 _ pos hlt b _ _ hb =>
    cases h
    refine ⟨pos, rfl, Nat.le_refl _, ?_⟩
    rw [Source.byte?, Array.getElem?_eq_getElem hlt]
    exact congrArg some (beq_iff_eq.mp hb)
  | case4 _ pos _ _ _ _ _ _ ih =>
    obtain ⟨q, rfl, hle, hb⟩ := ih h
    exact ⟨q, rfl, Nat.le_of_succ_le hle, hb⟩
  | case5 => cases h
  | case6 _ pos _ _ _ _ _ _ _ ih =>
    obtain ⟨q, rfl, hle, hb⟩ := ih h
    exact ⟨q, rfl, Nat.le_of_succ_le hle, hb⟩
  | case7 => cases h
  | case8 => cases h

/-! ## The texts of types -/

/-- Characters by which a type is more than words. -/
def typeMarks : List Char :=
  ['<', '.', ':', '[', '*', '&']

/-- A text with such a character. -/
def Marked (s : String) : Prop :=
  ∃ c ∈ typeMarks, c ∈ s.toList

theorem Marked.append_left {s : String} (h : Marked s) (t : String) : Marked (s ++ t) := by
  obtain ⟨c, hc, hmem⟩ := h
  exact ⟨c, hc, by simp [hmem]⟩

theorem Marked.append_right {t : String} (h : Marked t) (s : String) : Marked (s ++ t) := by
  obtain ⟨c, hc, hmem⟩ := h
  exact ⟨c, hc, by simp [hmem]⟩

/-- Whether a single word is taken for a type. -/
def acceptsWord (d : Dialect) (word : String) : Bool :=
  d.isAccepted word ⟨word, word, false, false, 0⟩

/-- The text of a type: a word that is taken for one, several words of which the first is built in, or a text
with a mark. -/
inductive IsTypeText (d : Dialect) : String → Prop
  | word {w : String} (h : d.acceptsWord w = true) : IsTypeText d w
  | words {w : String} (h : w ∈ d.primitives) (more : String) : IsTypeText d (w ++ (" " ++ more))
  | marked {s : String} (h : Marked s) : IsTypeText d s

theorem IsTypeText.append_marked {d : Dialect} {s t : String} (hs : d.IsTypeText s) (ht : t = "" ∨ Marked t) :
    d.IsTypeText (s ++ t) := by
  rcases ht with rfl | ht
  · rwa [String.append_empty]
  · exact .marked (ht.append_right s)

variable {d : Dialect} {text : String} {limit : Nat}

theorem isAccepted_eq_acceptsWord {first : String} {head : TypeHead} (hlast : head.last = first)
    (hqualified : head.qualified = false) : d.isAccepted first head = d.acceptsWord first := by
  simp only [acceptsWord, isAccepted, hlast, hqualified]

theorem marked_separator (hd : d = .java ∨ d = .cpp) : Marked d.separator := by
  rcases hd with rfl | rfl
  · exact ⟨'.', by decide, by decide⟩
  · exact ⟨':', by decide, by decide⟩

theorem edge_separator (hd : d = .java ∨ d = .cpp) {src : Source} {pos : Nat}
    (h : src.startsWith pos d.separatorBytes = true) : src.Edge (pos + d.separatorBytes.length) := by
  rcases hd with rfl | rfl
  · have hbytes : java.separatorBytes = [] ++ ['.'.toUInt8] := by decide +kernel
    rw [hbytes] at h ⊢
    exact Source.edge_startsWith [] (by decide) h
  · have hbytes : cpp.separatorBytes = [':'.toUInt8] ++ [':'.toUInt8] := by decide +kernel
    rw [hbytes] at h ⊢
    exact Source.edge_startsWith [':'.toUInt8] (by decide) h

/-- What is known of a type while it is read, when its first word is `first`. -/
structure ReadsType (d : Dialect) (src : Source) (first : String) (head : TypeHead) : Prop where
  edge : src.Edge head.stop
  declared : head.inferred = false
  solid : Text.Solid head.text
  shape : head.text = first ∧ head.last = first ∧ head.qualified = false ∨
    (first ∈ d.primitives ∧ ∃ more, head.text = first ++ (" " ++ more)) ∨ Marked head.text

theorem ReadsType.moreWords {first : String} {head : TypeHead} (hfirst : first ∈ d.primitives)
    (h : d.ReadsType (.ofString text) first head) :
    d.ReadsType (.ofString text) first (d.moreWords (.ofString text) head) := by
  fun_induction Dialect.moreWords d (Source.ofString text) head with
  | case1 head word e hid _ ih =>
    refine ih ⟨Source.edge_identAt? hid, h.declared, ?_, ?_⟩
    · have hword := (Source.after_of_identAt? ((Source.Lands.trivia head.stop).edge h.edge) hid).2
      simpa only [String.append_assoc] using h.solid.append " " (Text.solid_of_isIdent hword)
    · rcases h.shape with ⟨htext, -, -⟩ | ⟨-, more, htext⟩ | hmarked
      · exact Or.inr (Or.inl ⟨hfirst, word, by simp only [htext, String.append_assoc]⟩)
      · exact Or.inr (Or.inl ⟨hfirst, more ++ (" " ++ word), by simp only [htext, String.append_assoc]⟩)
      · exact Or.inr (Or.inr ((hmarked.append_left " ").append_left word))
  | case2 => exact h
  | case3 => exact h

/-- A list of type arguments shows in the text of the type. -/
theorem marked_typeArguments {pos close : Nat} (hopen : (Source.ofString text).byte? pos = some '<'.toUInt8)
    (h : typeArgumentsEnd? (.ofString text) limit pos = some close) :
    Marked (Text.collapse ((Source.ofString text).slice pos close)) := by
  obtain ⟨q, rfl, hle, hq⟩ := byte?_typeArgumentsEndFrom? h
  have hmem := Source.mem_slice (c := '<') (by decide) (by decide) hopen hq (by decide) hle
  exact ⟨'<', by decide, Text.mem_collapse hmem (by decide)⟩

theorem ReadsType.moreParts (hd : d = .java ∨ d = .cpp) {first : String} {head whole : TypeHead}
    (h : d.ReadsType (.ofString text) first head)
    (hparts : d.moreParts? (.ofString text) limit head = some whole) :
    d.ReadsType (.ofString text) first whole := by
  fun_induction moreParts? d (Source.ofString text) limit head with
  | case1 => cases hparts
  | case2 head hopen close hc ih =>
    have hmarked := marked_typeArguments (beq_iff_eq.mp hopen) hc
    have hgoes : Source.Goes d.lexicon _ _ close ∧ _ := goes_typeArgumentsEndFrom? hc
    exact ih ⟨hgoes.2, h.declared,
      h.solid.append_or (Text.solid_collapse _), Or.inr (Or.inr (hmarked.append_right _))⟩ hparts
  | case3 => cases hparts
  | case4 head _ hsep part e hid ih =>
    have hpart := (Source.after_of_identAt? (edge_separator hd hsep) hid).2
    refine ih ⟨Source.edge_identAt? hid, h.declared, ?_, ?_⟩ hparts
    · simpa only [String.append_assoc] using h.solid.append d.separator (Text.solid_of_isIdent hpart)
    · exact Or.inr (Or.inr (((marked_separator hd).append_right _).append_left part))
  | case5 =>
    cases hparts
    exact h

theorem ReadsType.moreDimensions {src : Source} {first : String} {head : TypeHead}
    (h : d.ReadsType src first head) : d.ReadsType src first (d.moreDimensions src head) := by
  fun_induction Dialect.moreDimensions d src head with
  | case1 head opener closer hb ih =>
    have hbrackets : Text.Solid "[]" := ⟨by decide, fun c hc _ => by
      rcases hc with hc | hc
      · cases hc; rfl
      · cases hc; rfl⟩
    exact ih ⟨Source.edge_succ hb.2 (by decide), h.declared, h.solid.append_or (Or.inr hbrackets),
      Or.inr (Or.inr (Marked.append_right ⟨'[', by decide, by decide⟩ _))⟩
  | case2 => exact h

/-- **The text of a type that is not inferred.** -/
theorem isTypeText_of_typeHead? (hd : d = .java ∨ d = .cpp) {pos : Nat} {head : TypeHead}
    (hedge : (Source.ofString text).Edge pos) (h : d.typeHead? (.ofString text) limit pos = some head)
    (hdeclared : head.inferred = false) : d.IsTypeText head.text ∧ Text.Solid head.text := by
  unfold typeHead? at h
  split at h
  · cases h
  · next first e hid =>
    split at h
    · cases h
    · split at h
      · cases h
        cases hdeclared
      · dsimp only at h
        split at h
        · cases h
        · next whole hparts =>
          have hword := (Source.after_of_identAt? hedge hid).2
          have hfirst : d.ReadsType (.ofString text) first ⟨first, first, false, false, e⟩ :=
            ⟨Source.edge_identAt? hid, rfl, Text.solid_of_isIdent hword, Or.inl ⟨rfl, rfl, rfl⟩⟩
          have hwords : d.ReadsType (.ofString text) first (if d.primitives.contains first then
              d.moreWords (.ofString text) ⟨first, first, false, false, e⟩
            else ⟨first, first, false, false, e⟩) := by
            split
            · next hprimitive => exact hfirst.moreWords (List.contains_iff_mem.mp hprimitive)
            · exact hfirst
          have hread := (hwords.moreParts hd hparts).moreDimensions
          split at h
          · next haccepted =>
            cases h
            refine ⟨?_, hread.solid⟩
            rcases hread.shape with ⟨htext, hlast, hqualified⟩ | ⟨hprimitive, more, htext⟩ | hmarked
            · rw [isAccepted_eq_acceptsWord hlast hqualified] at haccepted
              rw [htext]
              exact .word haccepted
            · rw [htext]
              exact .words hprimitive more
            · exact .marked hmarked
          · cases h

/-! ## Marks and brackets of a declarator -/

theorem marked_pointerMarks {marks : List Char} (h : ∀ c ∈ marks, c = '*' ∨ c = '&') :
    String.ofList marks = "" ∨ Marked (String.ofList marks) ∧ Text.Solid (String.ofList marks) := by
  cases marks with
  | nil => exact Or.inl rfl
  | cons c more =>
    refine Or.inr ⟨?_, by simp, fun b hb _ => ?_⟩
    · rcases h c List.mem_cons_self with rfl | rfl
      · exact ⟨'*', by decide, by simp⟩
      · exact ⟨'&', by decide, by simp⟩
    · rw [String.toList_ofList] at hb
      have hmem : b ∈ c :: more := by
        rcases hb with hb | hb
        · exact List.mem_of_head? hb
        · exact List.mem_of_getLast? hb
      rcases h b hmem with rfl | rfl
      · rfl
      · rfl

theorem marked_dimensions {pos stop : Nat} {brackets : String}
    (h : d.dimensions (.ofString text) limit pos = .ok (brackets, stop)) :
    brackets = "" ∨ Marked brackets ∧ Text.Solid brackets := by
  fun_induction dimensions d (Source.ofString text) limit pos generalizing brackets stop with
  | case1 => cases h
  | case2 => cases h
  | case3 pos hopen e he more stop' hrec ih =>
    cases h
    rw [Source.groupEnd?, if_pos hopen] at he
    obtain ⟨q, rfl, hle, hq⟩ := Source.byte?_groupEndFrom? he
    have hmem := Source.mem_slice (c := '[') (by decide) (by decide) (beq_iff_eq.mp hopen) hq (by decide) hle
    have hmarked : Marked (Text.collapse ((Source.ofString text).slice pos (q + 1))) :=
      ⟨'[', by decide, Text.mem_collapse hmem (by decide)⟩
    have hsolid : Text.Solid (Text.collapse ((Source.ofString text).slice pos (q + 1))) :=
      (Text.solid_collapse _).resolve_left (Text.collapse_ne_empty hmem (by decide))
    exact Or.inr ⟨hmarked.append_left _, hsolid.append_or ((ih hrec).imp_right And.right)⟩
  | case4 =>
    cases h
    exact Or.inl rfl

/-- **The declared type of a record.** -/
theorem Origin.isTypeText (hd : d = .java ∨ d = .cpp) {r : Record} (h : d.Origin (.ofString text) limit r) :
    r.kind.isShared = true ∨
      ∃ type, r.kind = .declared type ∧ d.IsTypeText type ∧ Text.Solid type := by
  obtain ⟨start, head, marks, brackets, pos, value, hedge, hhead, hof⟩ := h
  rw [hof.kinded]
  unfold kindWith
  cases hinferred : head.inferred with
  | true =>
    cases value with
    | none => exact Or.inl rfl
    | some v => exact Or.inl (Cue.isShared_kindOf .cLike v)
  | false =>
    obtain ⟨e, -, hdim⟩ := hof.named
    obtain ⟨htype, hsolid⟩ := isTypeText_of_typeHead? hd hedge hhead hinferred
    have hmarks := marked_pointerMarks hof.marked
    have hbrackets := marked_dimensions hdim
    refine Or.inr ⟨_, rfl, ?_, ?_⟩
    · exact (htype.append_marked (hmarks.imp_right And.left)).append_marked (hbrackets.imp_right And.left)
    · exact (hsolid.append_or (hmarks.imp_right And.right)).append_or (hbrackets.imp_right And.right)

end Dialect

/-! ## Types that are words of the vocabulary -/

/-- The types of a language that are also words of the vocabulary. -/
def Language.tagTypes : Language → List String
  | .java => ["boolean"]
  | .cpp => ["string", "array", "function"]
  | .python | .javascript | .typescript | .tsx => []

namespace Dialect

variable {d : Dialect}

/-- **No other type is a word of the vocabulary.** The vocabulary is a short list: which of its words are taken
for a type is looked up, and none of the others can come about from several words or with a mark. -/
theorem IsTypeText.mem_tagTypes (hd : d = .java ∨ d = .cpp) {type : String} (h : d.IsTypeText type)
    (htag : type ∈ Kind.tags) : type ∈ d.language.tagTypes := by
  cases h with
  | word haccepted =>
    have hall : Kind.tags.all (fun tag => !d.acceptsWord tag || d.language.tagTypes.contains tag) = true := by
      rcases hd with rfl | rfl
      · decide +kernel
      · decide +kernel
    have htype := List.all_eq_true.mp hall type htag
    rw [haccepted] at htype
    exact List.contains_iff_mem.mp htype
  | @words w hprimitive more =>
    have hall : Kind.tags.all (fun tag =>
        d.primitives.all fun w => !(w.toList ++ [' ']).isPrefixOf tag.toList) = true := by
      rcases hd with rfl | rfl
      · decide +kernel
      · decide +kernel
    have hno := List.all_eq_true.mp (List.all_eq_true.mp hall _ htag) w hprimitive
    have hleading : (w.toList ++ [' ']).isPrefixOf (w ++ (" " ++ more)).toList = true := by
      rw [List.isPrefixOf_iff_prefix, String.toList_append, String.toList_append, ← List.append_assoc]
      exact List.prefix_append _ _
    rw [hleading] at hno
    cases hno
  | marked hmarked =>
    have hall : Kind.tags.all (fun tag => typeMarks.all fun c => !tag.toList.contains c) = true := by decide +kernel
    obtain ⟨c, hc, hmem⟩ := hmarked
    have hno := List.all_eq_true.mp (List.all_eq_true.mp hall _ htag) c hc
    rw [List.contains_iff_mem.mpr hmem] at hno
    cases hno

end Dialect

theorem Language.mem_tags_of_mem_tagTypes {language : Language} {type : String}
    (h : type ∈ language.tagTypes) : type ∈ Kind.tags := by
  have hall : language.tagTypes.all Kind.tags.contains = true := by
    cases language <;> decide +kernel
  exact List.contains_iff_mem.mp (List.all_eq_true.mp hall type h)

/-! ## The main statement -/

/-- What is read back from the text of a kind that is shared, or declared with a solid type. -/
theorem Kind.ofText?_text_iff {language : Language} {kind : Kind}
    (h : kind.isShared = true ∨ ∃ type, kind = .declared type ∧ Text.Solid type ∧
      (type ∈ Kind.tags → type ∈ language.tagTypes)) :
    Kind.ofText? kind.text = some kind ↔
      ∀ type, kind = .declared type → type ∉ language.tagTypes ∧ ¬ Text.WideBordered type := by
  rcases h with hshared | ⟨type, rfl, hsolid, htags⟩
  · refine iff_of_true (Kind.ofText?_of_isShared hshared) ?_
    rintro type rfl
    cases hshared
  · rw [Kind.text, Kind.ofText?_declared hsolid.ne_empty, Text.trim_eq_self_iff]
    constructor
    · rintro ⟨hends, hnot⟩ type' heq
      obtain rfl := Kind.declared.inj heq
      refine ⟨fun hmem => hnot (Language.mem_tags_of_mem_tagTypes hmem), ?_⟩
      rintro ⟨c, hc, hblank, -⟩
      rw [hends c hc] at hblank
      cases hblank
    · intro hall
      obtain ⟨hnot, hborder⟩ := hall type rfl
      refine ⟨fun c hc => ?_, fun hmem => hnot (htags hmem)⟩
      -- a blank at an end is none of ASCII, and no other is allowed
      cases hblank : Text.isBlank c with
      | false => rfl
      | true =>
        rcases Nat.lt_or_ge c.toNat 0x80 with hascii | hwide
        · rw [hsolid.ends c hc hascii] at hblank
          cases hblank
        · exact absurd ⟨c, hc, hblank, hwide⟩ hborder

theorem Dialect.kind_of_mem_records {d : Dialect} (hd : d = .java ∨ d = .cpp) {text : String} {limit : Nat}
    {r : Record} (hr : r ∈ d.records limit (.ofString text)) :
    r.kind.isShared = true ∨ ∃ type, r.kind = .declared type ∧ Text.Solid type ∧
      (type ∈ Kind.tags → type ∈ d.language.tagTypes) := by
  have hsep : d.separatorBytes.all isPlain = true := by
    rcases hd with rfl | rfl
    · exact isPlain_separator_java
    · exact isPlain_separator_cpp
  rcases (origin_of_mem_records hsep hr).isTypeText hd with hshared | ⟨type, hkind, htype, hsolid⟩
  · exact Or.inl hshared
  · exact Or.inr ⟨type, hkind, hsolid, htype.mem_tagTypes hd⟩

theorem Python.isShared_of_mem_records {src : Source} {limit : Nat} {r : Record}
    (hr : r ∈ Python.records limit src) : r.kind.isShared = true := by
  obtain ⟨start, h⟩ := origin_of_mem_records hr
  cases h with
  | chained _ _ _ _ hr =>
    rw [hr]
    dsimp only
    exact Cue.isShared_kindOf .python _
  | annotated _ _ _ _ hr =>
    rw [hr]
    dsimp only
    exact Cue.isShared_kindOf .python _
  | bare _ _ _ hr =>
    rw [hr]
    rfl

theorem Tree.isShared_of_extract {language : Language} {src : Source} {tree : Tree} {records : List Record}
    (h : tree.extract language src = .ok records) {r : Record} (hr : r ∈ records) :
    r.kind.isShared = true := by
  unfold extract at h
  split at h
  · cases h
  · cases h
    obtain ⟨nodes, -, -, hall⟩ := forall₂_madeAt src tree
    obtain ⟨hlength, hget⟩ := List.forall₂_iff_get.mp hall
    obtain ⟨⟨i, hi⟩, rfl⟩ := List.mem_iff_get.mp hr
    obtain ⟨t, -, hmade⟩ := Option.map_eq_some_iff.mp (hget i hi (hlength ▸ hi))
    have hkind := congrArg Record.kind hmade
    dsimp only at hkind
    rw [← hkind]
    cases (nodes.get ⟨i, hlength ▸ hi⟩).keptValue? with
    | none => rfl
    | some value => exact isShared_valueOf src value

/-- **When a kind is read back from its text**, for every record of every language: always if it belongs to the
vocabulary; and a declared type exactly when it is none of the types that are also words of the vocabulary and
has no blank outside ASCII at either end. -/
theorem extract_kind_roundtrip {language : Language} {limit : Nat} {document : Document}
    {records : List Record} (h : language.extract limit document = .ok records) {r : Record}
    (hr : r ∈ records) :
    Kind.ofText? r.kind.text = some r.kind ↔
      ∀ type, r.kind = .declared type → type ∉ language.tagTypes ∧ ¬ Text.WideBordered type := by
  apply Kind.ofText?_text_iff
  unfold Language.extract at h
  cases language with
  | python =>
    cases h
    exact Or.inl (Python.isShared_of_mem_records hr)
  | java =>
    cases h
    exact Dialect.kind_of_mem_records (Or.inl rfl) hr
  | cpp =>
    cases h
    exact Dialect.kind_of_mem_records (Or.inr rfl) hr
  | javascript | typescript | tsx =>
    dsimp only at h
    split at h
    · exact Or.inl (Tree.isShared_of_extract h hr)
    · cases h

/-- The record of a variable with type arguments. -/
def listRecord : Record :=
  ⟨"xs", noValue, .declared "List<String>", [], ⟨1, 14, 13⟩⟩

theorem extract_kind_roundtrip_list :
    Language.java.extract 40 ⟨"List<String> xs;", none⟩ = .ok [listRecord] ∧
    (Kind.ofText? listRecord.kind.text = some listRecord.kind ↔
      ∀ type, listRecord.kind = .declared type →
        type ∉ Language.java.tagTypes ∧ ¬ Text.WideBordered type) :=
  have hextract : Language.java.extract 40 ⟨"List<String> xs;", none⟩ = .ok [listRecord] :=
    congrArg Except.ok (by decide +kernel)
  ⟨hextract, extract_kind_roundtrip hextract List.mem_cons_self⟩

/-- **Types that are not read back**: a library type and a built-in type that are words of the vocabulary, and
a type whose last letter is a blank outside ASCII. -/
theorem declared_types_not_read_back :
    (Language.cpp.extract 40 ⟨"string s;", none⟩ = .ok [⟨"s", noValue, .declared "string", [], ⟨1, 8, 7⟩⟩] ∧
      Kind.ofText? (Kind.declared "string").text = some .string) ∧
    (Language.java.extract 40 ⟨"boolean b = true;", none⟩ =
        .ok [⟨"b", "true", .declared "boolean", [], ⟨1, 9, 8⟩⟩] ∧
      Kind.ofText? (Kind.declared "boolean").text = some .boolean) ∧
    (Language.java.extract 40 ⟨"Foo\u00a0 x;", none⟩ =
        .ok [⟨"x", noValue, .declared "Foo\u00a0", [], ⟨1, 7, 6⟩⟩] ∧
      Kind.ofText? (Kind.declared "Foo\u00a0").text = some (.declared "Foo")) := by
  refine ⟨⟨congrArg Except.ok ?_, ?_⟩, ⟨congrArg Except.ok ?_, ?_⟩, ⟨congrArg Except.ok ?_, ?_⟩⟩
  all_goals decide +kernel

end VarCensus

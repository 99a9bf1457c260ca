/-
  Flowscript.Proofs.NameLetters

  What all ways to write a name keep.

  A name is written by changing the case of its words and putting them together, and its
  words hold its letters and digits in order (`flatten_words`).  So whatever separators are
  put in, the letters and digits are those of the name.  Words in small letters are read
  back as they are put together (`words_joinWith_small`), so snake case and kebab case leave
  a name alone that is in them already.
-/
import Flowscript.Proofs.CamelCase

namespace Flowscript

namespace Text

variable {s new : List Char} {ps : List (List Char)} {c : Char}

theorem replaceChar_eq_self (h : c ∉ s) : replaceChar c new s = s := by
  induction s with
  | nil => rfl
  | cons d s ih =>
      rw [List.mem_cons, not_or] at h
      rw [replaceChar_cons, if_neg (Ne.symm h.1), ih h.2]
      rfl

/-- Another separator is put between pieces by replacing the one between them. -/
theorem replaceChar_joinWith (h : ∀ p ∈ ps, c ∉ p) :
    replaceChar c new (joinWith [c] ps) = joinWith new ps := by
  induction ps with
  | nil => rfl
  | cons p ps ih =>
      rw [List.forall_mem_cons] at h
      cases ps with
      | nil => exact replaceChar_eq_self h.1
      | cons p' ps =>
          rw [joinWith_cons_cons, joinWith_cons_cons, replaceChar_append, replaceChar_append,
            replaceChar_eq_self h.1, ih h.2]
          simp

end Text

namespace Naming

variable {s w : List Char} {ws : List (List Char)} {c sep : Char} {p q : Char → Bool}

-- ============================================================================
-- Separated words
-- ============================================================================

/-- Small letters and digits, with single separators inside. -/
structure IsSeparated (sep : Char) (s : List Char) : Prop where
  chars : ∀ c ∈ s, isSmall c = true ∨ c = sep
  starts : s.head? ≠ some sep
  ends : s.getLast? ≠ some sep
  single : Apart (· = sep) (· = sep) s

/-- Words of small letters and digits. -/
def IsSmallWords (ws : List (List Char)) : Prop :=
  ∀ w ∈ ws, w ≠ [] ∧ ∀ c ∈ w, isSmall c = true

/-- Characters of words are changed one by one. -/
theorem forall_mem_map_of_isWords {f : Char → Char}
    (hf : ∀ c, c.isAlphanum = true → p (f c) = true) (h : IsWords ws) :
    ∀ w ∈ ws.map (List.map f), w ≠ [] ∧ ∀ c ∈ w, p c = true := by
  intro v hv
  obtain ⟨w, hw, rfl⟩ := List.mem_map.mp hv
  refine ⟨by simpa using (h w hw).1, fun c hc => ?_⟩
  obtain ⟨d, hd, rfl⟩ := List.mem_map.mp hc
  exact hf d ((h w hw).2 d hd)

theorem isSmallWords_map_small (h : IsWords ws) : IsSmallWords (ws.map small) :=
  forall_mem_map_of_isWords (fun _ hc => isSmall_toLower hc) h

theorem IsSmallWords.isWords (h : IsSmallWords ws) : IsWords ws :=
  fun w hw => ⟨(h w hw).1, fun c hc => isAlphanum_of_isSmall ((h w hw).2 c hc)⟩

theorem apart_of_forall (h : ∀ c ∈ s, p c = false) : Apart p q s := by
  induction s with
  | nil => exact .nil
  | cons c s ih =>
      rw [List.forall_mem_cons] at h
      exact apart_cons.mpr ⟨fun hc => by simp [h.1] at hc, ih h.2⟩

theorem isSeparated_word (hsep : isSmall sep = false) (hw : ∀ c ∈ w, isSmall c = true) :
    IsSeparated sep w := by
  have hne : sep ∉ w := by
    intro hmem
    rw [hw sep hmem] at hsep
    cases hsep
  refine ⟨fun c hc => .inl (hw c hc), ?starts, ?ends, ?single⟩
  case starts => exact fun h => hne (List.mem_of_mem_head? h)
  case ends => exact fun h => hne (List.mem_of_mem_getLast? h)
  case single =>
    refine apart_of_forall fun c hc => decide_eq_false ?_
    rintro rfl
    exact hne hc

/-- A word goes in front, with a separator after it. -/
theorem IsSeparated.cons (h : IsSeparated sep s) (hne : s ≠ []) (hsep : isSmall sep = false)
    (hwne : w ≠ []) (hw : ∀ c ∈ w, isSmall c = true) : IsSeparated sep (w ++ sep :: s) := by
  have hword := isSeparated_word hsep hw
  refine ⟨?chars, ?starts, ?ends, ?single⟩
  case chars =>
    rw [List.forall_mem_append, List.forall_mem_cons]
    exact ⟨hword.chars, .inr rfl, h.chars⟩
  case starts =>
    rw [List.head?_append_of_ne_nil _ hwne]
    exact hword.starts
  case ends =>
    rw [List.getLast?_append_of_ne_nil _ (List.cons_ne_nil _ _), List.getLast?_cons_of_ne_nil hne]
    exact h.ends
  case single =>
    have hrest : Apart (· = sep) (· = sep) (sep :: s) :=
      apart_cons.mpr ⟨fun _ d hd => decide_eq_false fun heq => h.starts (heq ▸ hd), h.single⟩
    refine List.isChain_append.mpr ⟨hword.single, hrest, fun d hd e _ hsame => ?_⟩
    -- the last character of the word is no separator
    exact absurd (of_decide_eq_true hsame ▸ hd) hword.ends

theorem isSeparated_joinWith (hsep : isSmall sep = false) (h : IsSmallWords ws) :
    IsSeparated sep (Text.joinWith [sep] ws) := by
  induction ws with
  | nil => exact isSeparated_word hsep (by simp)
  | cons w ws ih =>
      rw [IsSmallWords, List.forall_mem_cons] at h
      cases ws with
      | nil => exact isSeparated_word hsep h.1.2
      | cons w' ws =>
          rw [Text.joinWith_cons_cons, List.append_assoc, List.singleton_append]
          refine (ih h.2).cons ?_ hsep h.1.1 h.1.2
          have hne : w' ≠ [] := (h.2 w' List.mem_cons_self).1
          cases ws with
          | nil => exact hne
          | cons w'' ws => simp

-- ============================================================================
-- Words read back
-- ============================================================================

/-- Without capitals, no word ends but at a separator. -/
theorem markCase_eq_self (h : ∀ c ∈ s, c.isUpper = false) (b : Bool) : markCase b s = s := by
  fun_induction markCase b s with
  | case1 => rfl
  | case2 => rfl
  | case3 b c d rest hsmall hupper ih =>
      rw [h d (by simp)] at hupper
      cases hupper
  | case4 b c d rest hsmall hupper ih => rw [ih (List.forall_mem_cons.mp h).2]
  | case5 b c d rest hsmall hupper hrun ih =>
      rw [h c List.mem_cons_self] at hupper
      cases hupper
  | case6 b c d rest hsmall hupper hrun ih =>
      rw [h c List.mem_cons_self] at hupper
      cases hupper
  | case7 b c d rest hsmall hupper ih => rw [ih (List.forall_mem_cons.mp h).2]

theorem words_joinWith_small (hsep : sep.isAlphanum = false) (h : IsSmallWords ws) :
    words (Text.joinWith [sep] ws) = ws := by
  have hupper : ∀ c ∈ Text.joinWith [sep] ws, c.isUpper = false := by
    intro c hc
    rcases Text.mem_joinWith hc with hc | ⟨w, hw, hc⟩
    · rw [List.mem_singleton.mp hc]
      simp only [Char.isAlphanum, isAlpha_eq, Bool.or_eq_false_iff] at hsep
      exact hsep.1.1
    · exact isUpper_eq_false_of_isSmall ((h w hw).2 c hc)
  rw [words, markCase_eq_self hupper, alnumRuns_joinWith hsep h.isWords]

/-- A name whose words are put together in small letters is the same when that is done again. -/
theorem joinWith_words_joinWith (hsep : sep.isAlphanum = false) (s : List Char) :
    Text.joinWith [sep] ((words (Text.joinWith [sep] ((words s).map small))).map small) =
      Text.joinWith [sep] ((words s).map small) := by
  rw [words_joinWith_small hsep (isSmallWords_map_small (isWords_words s)), List.map_map]
  exact congrArg _ (List.map_congr_left fun w _ => small_small w)

-- ============================================================================
-- Letters and digits
-- ============================================================================

/-- The ASCII letters and digits of a text in order, in small letters. -/
def lettersOf (s : List Char) : List Char := small (s.filter Char.isAlphanum)

/-- A text without the separators of words, in small letters. -/
def unseparated (s : List Char) : List Char := small (s.filter fun c => c ≠ '_' && c ≠ '-')

/-- Nothing but separators is left out. -/
theorem unseparated_eq_lettersOf (h : ∀ c ∈ s, c.isAlphanum = true ∨ c = '_' ∨ c = '-') :
    unseparated s = lettersOf s := by
  have hfilter : s.filter (fun c => c ≠ '_' && c ≠ '-') = s.filter Char.isAlphanum := by
    refine List.filter_congr fun c hc => ?_
    rcases h c hc with halnum | rfl | rfl
    · have hne : c ≠ '_' ∧ c ≠ '-' := by
        constructor <;> (rintro rfl; cases halnum)
      simp [halnum, hne]
    · rfl
    · rfl
  rw [unseparated, hfilter, lettersOf]

theorem small_flatten (ws : List (List Char)) : small ws.flatten = (ws.map small).flatten := by
  rw [small, List.map_flatten]
  rfl

/-- Words that are those of a name but for case have its letters and digits. -/
theorem small_flatten_eq_lettersOf (h : ws.map small = (words s).map small) :
    small ws.flatten = lettersOf s := by
  rw [small_flatten, h, ← small_flatten, flatten_words, lettersOf]

theorem unseparated_joinWith (hsep : sep = '_' ∨ sep = '-') (hws : IsWords ws)
    (h : ws.map small = (words s).map small) :
    unseparated (Text.joinWith [sep] ws) = lettersOf s := by
  have hchars : ∀ c ∈ Text.joinWith [sep] ws, c.isAlphanum = true ∨ c = '_' ∨ c = '-' := by
    intro c hc
    rcases Text.mem_joinWith hc with hc | ⟨w, hw, hc⟩
    · rw [List.mem_singleton.mp hc]
      exact .inr hsep
    · exact .inl ((hws w hw).2 c hc)
  have halnum : sep.isAlphanum = false := by rcases hsep with rfl | rfl <;> decide
  rw [unseparated_eq_lettersOf hchars, lettersOf, ← flatten_alnumRuns, alnumRuns_joinWith halnum hws,
    small_flatten_eq_lettersOf h]

theorem unseparated_flatten (halnum : ∀ c ∈ ws.flatten, c.isAlphanum = true)
    (h : ws.map small = (words s).map small) : unseparated ws.flatten = lettersOf s := by
  rw [unseparated_eq_lettersOf fun c hc => .inl (halnum c hc), lettersOf,
    List.filter_eq_self.mpr halnum, small_flatten_eq_lettersOf h]

theorem isWords_map_big (h : IsWords ws) : IsWords (ws.map big) :=
  forall_mem_map_of_isWords (fun _ hc => isAlphanum_of_isBig (isBig_toUpper hc)) h

theorem small_big (w : List Char) : small (big w) = small w := by
  rw [small, big, List.map_map]
  exact List.map_congr_left fun c _ => (caseLaws c).toLower_toUpper

/-- Snake case and kebab case leave a name alone that is in them, consist of small letters and
digits with single separators inside, and differ in the separator only.  However a name is written,
its ASCII letters and digits are there in order, and nothing but separators is beside them. -/
theorem cases_keep_letters (s : List Char) :
    (snakeCase (snakeCase s) = snakeCase s ∧ kebabCase (kebabCase s) = kebabCase s) ∧
    (IsSeparated '_' (snakeCase s) ∧ IsSeparated '-' (kebabCase s)) ∧
    kebabCase s = Text.replaceChar '_' ['-'] (snakeCase s) ∧
    unseparated (snakeCase s) = lettersOf s ∧ unseparated (kebabCase s) = lettersOf s ∧
    unseparated (camelCase s) = lettersOf s ∧ unseparated (pascalCase s) = lettersOf s ∧
    unseparated (envName s) = lettersOf s := by
  have hwords := isWords_words s
  have hsmall := isSmallWords_map_small hwords
  have hmapSmall : ((words s).map small).map small = (words s).map small := by
    rw [List.map_map]
    exact List.map_congr_left fun w _ => small_small w
  refine ⟨⟨joinWith_words_joinWith (by decide) s, joinWith_words_joinWith (by decide) s⟩,
    ⟨isSeparated_joinWith (by decide) hsmall, isSeparated_joinWith (by decide) hsmall⟩,
    ?kebab, unseparated_joinWith (.inl rfl) hsmall.isWords hmapSmall,
    unseparated_joinWith (.inr rfl) hsmall.isWords hmapSmall, ?camel, ?pascal, ?env⟩
  case kebab =>
    refine (Text.replaceChar_joinWith fun w hw hmem => ?_).symm
    have hunderscore := (hsmall w hw).2 '_' hmem
    cases hunderscore
  case camel =>
    rw [camelCase_eq_flatten]
    refine unseparated_flatten (fun c hc => ?_) (map_small_camelWords (words s))
    rw [← camelCase_eq_flatten] at hc
    exact isAlphanum_of_mem_camelCase hc
  case pascal =>
    refine unseparated_flatten (fun c hc => isAlphanum_of_mem_pascalCase hc) ?_
    rw [List.map_map]
    exact List.map_congr_left fun w _ => small_capitalize w
  case env =>
    rw [envName_eq]
    refine unseparated_joinWith (.inl rfl) (isWords_map_big hwords) ?_
    rw [List.map_map]
    exact List.map_congr_left fun w _ => small_big w

/-- Characters that are no ASCII letters or digits are separators, capitals and small letters of
other alphabets among them. -/
example : snakeCase "--XMLHttpÉRequest_2x".toList = "xml_http_request_2x".toList ∧
    lettersOf "--XMLHttpÉRequest_2x".toList = "xmlhttprequest2x".toList := by decide

end Naming

end Flowscript

/-
  Flowscript.Proofs.Words

  Words of a text put together from parts, and texts without a character.

  White space around a text does not change its words, a run without white space is a
  word, and nothing is cut or replaced where the character to look for is missing.
-/
import Flowscript.Proofs.Trimming

namespace Flowscript.Text

variable {s t a b w old new : List Char} {c : Char}

-- ============================================================================
-- Words
-- ============================================================================

theorem words_blank_append (hb : isBlankText b = true) (s : List Char) :
    words (b ++ s) = words s := by
  induction b with
  | nil => rfl
  | cons c b ih =>
      rw [isBlankText_cons, Bool.and_eq_true] at hb
      rw [List.cons_append, words.eq_def]
      simp only
      rw [if_pos hb.1]
      exact ih hb.2

theorem words_of_isBlankText (hb : isBlankText b = true) : words b = [] := by
  rw [← List.append_nil b, words_blank_append hb, words_nil]

theorem words_append_blank (hb : isBlankText b = true) (s : List Char) :
    words (s ++ b) = words s := by
  induction s with
  | nil => exact words_of_isBlankText hb
  | cons c s ih =>
      cases s with
      | nil =>
          cases b with
          | nil => rfl
          | cons d b =>
              have hd : isBlank d = true := by
                rw [isBlankText_cons, Bool.and_eq_true] at hb
                exact hb.1
              simp only [List.cons_append, List.nil_append] at ih ⊢
              rw [words.eq_def, words.eq_def [c]]
              simp only [hd, if_true, ih, words_nil]
      | cons d s =>
          simp only [List.cons_append] at ih ⊢
          rw [words.eq_def, words.eq_def (c :: d :: s)]
          simp only [ih]

/-- A run without white space is a word, if white space follows. -/
theorem words_solid_append (hne : w ≠ []) (hw : ∀ d ∈ w, isBlank d = false)
    (hc : isBlank c = true) (s : List Char) : words (w ++ c :: s) = w :: words s := by
  have hskip : words (c :: s) = words s := words_blank_append (b := [c]) (by simp [hc]) s
  induction w with
  | nil => exact absurd rfl hne
  | cons d w ih =>
      have hd := hw d List.mem_cons_self
      have hrest := fun e he => hw e (List.mem_cons_of_mem d he)
      rw [List.cons_append, words.eq_def]
      simp only [hd, Bool.false_eq_true, if_false]
      cases w with
      | nil => simp only [List.nil_append, hc, if_true, hskip]
      | cons e w =>
          have he := hrest e List.mem_cons_self
          have ih := ih (by simp) hrest
          rw [List.cons_append] at ih ⊢
          simp only [he, Bool.false_eq_true, if_false, ih]

theorem words_solid (hne : w ≠ []) (hw : ∀ d ∈ w, isBlank d = false) : words w = [w] := by
  have h := words_solid_append hne hw (c := ' ') (by decide) []
  rwa [words_append_blank (by decide), words_nil] at h

/-- Words have no white space. -/
theorem isBlank_of_mem_words (hw : w ∈ words s) (hc : c ∈ w) : isBlank c = false := by
  fun_induction words s generalizing w with
  | case1 => cases hw
  | case2 d rest hd ih => exact ih hw hc
  | case3 d hd =>
      rw [List.mem_singleton.mp hw] at hc
      rw [List.mem_singleton.mp hc]
      simpa using hd
  | case4 d hd e rest he ih =>
      rcases List.mem_cons.mp hw with rfl | hw
      · rw [List.mem_singleton.mp hc]
        simpa using hd
      · exact ih hw hc
  | case5 d hd e rest he hnil ih =>
      rw [hnil] at hw
      rw [List.mem_singleton.mp hw] at hc
      rw [List.mem_singleton.mp hc]
      simpa using hd
  | case6 d hd e rest he v vs hcons ih =>
      rw [hcons] at hw
      rcases List.mem_cons.mp hw with rfl | hw
      · rcases List.mem_cons.mp hc with rfl | hc
        · simpa using hd
        · exact ih (by rw [hcons]; exact List.mem_cons_self) hc
      · exact ih (by rw [hcons]; exact List.mem_cons_of_mem _ hw) hc

/-- White space at the ends does not count. -/
theorem squeeze_padded (ha : isBlankText a = true) (hb : isBlankText b = true) (s : List Char) :
    squeeze (a ++ s ++ b) = squeeze s := by
  rw [squeeze, words_append_blank hb, words_blank_append ha, squeeze]

-- ============================================================================
-- Missing characters
-- ============================================================================

theorem cutAt_of_not_mem (h : c ∉ s) : cutAt c s = (s, none) := by
  induction s with
  | nil => rfl
  | cons d s ih =>
      rw [List.mem_cons, not_or] at h
      rw [cutAt, if_neg (Ne.symm h.1), ih h.2]

theorem cutAt_append {p : List Char} (hp : c ∉ p) (s : List Char) :
    cutAt c (p ++ c :: s) = (p, some s) := by
  induction p with
  | nil => simp [cutAt]
  | cons d p ih =>
      rw [List.mem_cons, not_or] at hp
      rw [List.cons_append, cutAt, if_neg (Ne.symm hp.1), ih hp.2]

theorem startsWith_cons_of_ne {d : Char} (h : c ≠ d) : startsWith (c :: old) (d :: s) = false := by
  simp [startsWith, after?, h]

/-- A text without the first character of what is replaced stays as it is. -/
theorem replaceFrom_append_of_not_mem (h : c ∉ s) (t : List Char) :
    replaceFrom (c :: old) new 0 (s ++ t) = s ++ replaceFrom (c :: old) new 0 t := by
  induction s with
  | nil => rfl
  | cons d s ih =>
      rw [List.mem_cons, not_or] at h
      rw [List.cons_append, replaceFrom, startsWith_cons_of_ne h.1, if_neg (by simp), ih h.2,
        List.cons_append]

theorem replaceFrom_of_not_mem (h : c ∉ s) : replaceFrom (c :: old) new 0 s = s := by
  have h' : replaceFrom (c :: old) new 0 (s ++ []) = s ++ replaceFrom (c :: old) new 0 [] :=
    replaceFrom_append_of_not_mem h []
  rwa [List.append_nil, replaceFrom, List.append_nil] at h'

theorem replaceFrom_drop (old new s t : List Char) :
    replaceFrom old new s.length (s ++ t) = replaceFrom old new 0 t := by
  induction s with
  | nil => rfl
  | cons c s ih => exact ih

/-- An occurrence is replaced, and the search goes on after it. -/
theorem replaceFrom_append_self (new t : List Char) :
    replaceFrom (c :: old) new 0 (c :: old ++ t) = new ++ replaceFrom (c :: old) new 0 t := by
  have hstarts : startsWith (c :: old) (c :: (old ++ t)) = true := by
    rw [startsWith, ← List.cons_append, after?_append, Option.isSome_some]
  rw [List.cons_append, replaceFrom, if_pos hstarts, List.length_cons, Nat.add_sub_cancel,
    replaceFrom_drop]

end Flowscript.Text

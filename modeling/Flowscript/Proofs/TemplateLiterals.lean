/-
  Flowscript.Proofs.TemplateLiterals

  Template literals read back.

  A character is escaped by the backslash before it unless that backslash is escaped
  itself, so what counts is whether the backslashes before it are odd in number
  (`Escaping`).  The inside of a template literal is made of pieces with an even number of
  backslashes and of escaped characters, hence every backtick in it and every dollar sign
  before a brace is escaped, and reading stops at the closing backtick and nowhere before.
-/
import Flowscript.Proofs.Literals
import Flowscript.Proofs.Words

namespace Flowscript.Script

variable {c : Char} {s u v rest : List Char}

-- ============================================================================
-- Three replacements
-- ============================================================================

/-- Backslashes and backticks escaped, one kind after the other. -/
def escapeTicks (s : List Char) : List Char :=
  Text.replaceChar '`' ['\\', '`'] (Text.replaceChar '\\' ['\\', '\\'] s)

theorem escapeTicks_cons (c : Char) (s : List Char) :
    escapeTicks (c :: s) = (if c = '\\' || c = '`' then ['\\', c] else [c]) ++ escapeTicks s := by
  unfold escapeTicks
  rw [Text.replaceChar_cons, Text.replaceChar_append]
  by_cases hbackslash : c = '\\'
  · subst hbackslash
    rfl
  · by_cases htick : c = '`'
    · subst htick
      rfl
    · simp [hbackslash, htick]

theorem head?_escapeTicks (h : (escapeTicks s).head? = some '{') : ∃ t, s = '{' :: t := by
  cases s with
  | nil => cases h
  | cons c s =>
      rw [escapeTicks_cons] at h
      split at h
      · cases h
      · cases h
        exact ⟨s, rfl⟩

/-- The inside of a template literal is its text with backslashes, then backticks and then the
openings of substitutions escaped. -/
theorem templateBody_eq_replace (s : List Char) :
    templateBody s = Text.replace ['$', '{'] ['\\', '$', '{'] (escapeTicks s) := by
  show templateBody s = Text.replaceFrom ['$', '{'] ['\\', '$', '{'] 0 (escapeTicks s)
  fun_induction templateBody s with
  | case1 => rfl
  | case2 rest ih =>
      have hopening : escapeTicks ('$' :: '{' :: rest) = ['$', '{'] ++ escapeTicks rest := by
        rw [escapeTicks_cons, escapeTicks_cons]
        rfl
      rw [hopening, Text.replaceFrom_append_self, ← ih]
      rfl
  | case3 c rest hother ih =>
      rw [escapeTicks_cons, ih]
      by_cases hc : c = '$'
      · have hstarts : Text.startsWith ['$', '{'] ('$' :: escapeTicks rest) = false := by
          cases hrest : escapeTicks rest with
          | nil => rfl
          | cons d t =>
              have hd : '{' ≠ d := by
                rintro rfl
                obtain ⟨t', ht'⟩ := head?_escapeTicks (s := rest) (by rw [hrest]; rfl)
                exact hother t' hc ht'
              simp [Text.startsWith, Text.after?, hd]
        subst hc
        show _ = Text.replaceFrom ['$', '{'] ['\\', '$', '{'] 0 ('$' :: escapeTicks rest)
        rw [Text.replaceFrom, hstarts]
        rfl
      · rw [Text.replaceFrom_append_of_not_mem]
        split <;> simp [Ne.symm hc]

-- ============================================================================
-- Escaped characters
-- ============================================================================

/-- The number of backslashes at the end of a text. -/
def finalBackslashes (s : List Char) : Nat := (s.reverse.takeWhile (· = '\\')).length

/-- What comes after the text is escaped. -/
def Escaping (s : List Char) : Prop := finalBackslashes s % 2 = 1

theorem finalBackslashes_concat (s : List Char) (c : Char) :
    finalBackslashes (s ++ [c]) = if c = '\\' then finalBackslashes s + 1 else 0 := by
  rw [finalBackslashes, List.reverse_append, List.reverse_singleton, List.singleton_append,
    List.takeWhile_cons]
  by_cases hc : c = '\\' <;> simp [hc, finalBackslashes]

/-- A character in front that is no backslash, or is one that is escaped with the next one, does not
count. -/
theorem finalBackslashes_append (h : finalBackslashes u % 2 = 0) (s : List Char) :
    finalBackslashes (u ++ s) % 2 = finalBackslashes s % 2 := by
  induction s using List.reverseRecOn with
  | nil => simpa [finalBackslashes] using h
  | append_singleton s c ih =>
      rw [← List.append_assoc, finalBackslashes_concat, finalBackslashes_concat]
      split
      · rw [Nat.add_mod, ih, ← Nat.add_mod]
      · rfl

theorem escaping_append_iff (h : finalBackslashes u % 2 = 0) (s : List Char) :
    Escaping (u ++ s) ↔ Escaping s := by
  rw [Escaping, Escaping, finalBackslashes_append h]

theorem head?_templateBody (h : (templateBody s).head? = some '{') : ∃ t, s = '{' :: t := by
  fun_cases templateBody s with
  | case1 => cases h
  | case2 rest => cases h
  | case3 c rest hother =>
      rw [templateBody.eq_3 c rest hother] at h
      split at h
      · cases h
      · cases h
        exact ⟨rest, rfl⟩

/-- A piece without a backslash to spare escapes nothing in the text after it. -/
theorem escaping_of_piece {piece : List Char} (heven : finalBackslashes piece % 2 = 0)
    (hrest : ∀ u, s = u ++ c :: v → Escaping u)
    (hpiece : ∀ t, piece = u ++ c :: t → v = t ++ s → Escaping u) (h : piece ++ s = u ++ c :: v) :
    Escaping u := by
  rcases List.append_eq_append_iff.mp h with ⟨u', rfl, hs⟩ | ⟨t, hsplit, ht⟩
  · exact (escaping_append_iff heven u').mpr (hrest u' hs)
  · cases t with
    | nil =>
        rw [List.append_nil] at hsplit
        have hempty := hrest [] ht.symm
        rw [← hsplit, ← List.append_nil piece]
        exact (escaping_append_iff heven []).mpr hempty
    | cons d t =>
        obtain ⟨rfl, hv⟩ := List.cons.inj ht
        exact hpiece t hsplit hv

/-- Wherever the inside of a template literal has a backtick, or a dollar sign before a brace, that
is escaped. -/
theorem escaping_of_templateBody (hc : c = '`' ∨ c = '$' ∧ v.head? = some '{')
    (h : templateBody s = u ++ c :: v) : Escaping u := by
  have hbackslash : '\\' ≠ c := by rcases hc with rfl | ⟨rfl, -⟩ <;> decide
  fun_induction templateBody s generalizing u with
  | case1 => simp at h
  | case2 rest ih =>
      have hopening : ['\\', '$', '{'] ++ templateBody rest = u ++ c :: v := h
      refine escaping_of_piece rfl (fun u => ih) (fun t ht _ => ?_) hopening
      rcases u with _ | ⟨x, _ | ⟨y, u⟩⟩
      · exact absurd (List.head_eq_of_cons_eq ht) hbackslash
      · cases ht
        rfl
      · rcases u with _ | ⟨z, u⟩
        · cases ht
          simp at hc
        · simp at ht
  | case3 d rest hother ih =>
      refine escaping_of_piece ?even (fun u => ih) (fun t ht hv => ?_) h
      case even =>
        split
        case isTrue hd =>
          simp only [Bool.or_eq_true, decide_eq_true_eq] at hd
          rcases hd with rfl | rfl <;> rfl
        case isFalse hd =>
          simp only [Bool.or_eq_true, decide_eq_true_eq, not_or] at hd
          have hone := finalBackslashes_concat [] d
          rw [if_neg hd.1, List.nil_append] at hone
          rw [hone]
      split at ht
      case isTrue =>
        rcases u with _ | ⟨x, _ | ⟨y, u⟩⟩
        · exact absurd (List.head_eq_of_cons_eq ht) hbackslash
        · cases ht
          rfl
        · simp at ht
      case isFalse hd =>
        -- the character stands for itself, so it is a dollar sign, and a brace follows in the text
        rcases u with _ | ⟨x, u⟩
        · cases ht
          rcases hc with rfl | ⟨rfl, hbrace⟩
          · simp at hd
          · rw [hv] at hbrace
            obtain ⟨t, ht⟩ := head?_templateBody hbrace
            exact absurd ht (hother t rfl)
        · simp at ht

-- ============================================================================
-- Reading
-- ============================================================================

/-- Reads a template literal without substitutions, whose opening backtick has been read: its text,
and what comes after the closing backtick.  A backslash, a backtick and a dollar sign can be
escaped, and every other character stands for itself. -/
def readTemplate : List Char → Option (List Char × List Char)
  | [] => none
  | '`' :: rest => some ([], rest)
  | '$' :: '{' :: _ => none
  | '\\' :: c :: rest =>
    if c = '\\' || c = '`' || c = '$' then (readTemplate rest).map fun (s, rest) => (c :: s, rest)
    else none
  | c :: rest =>
    if c = '\\' then none else (readTemplate rest).map fun (s, rest) => (c :: s, rest)

theorem readTemplate_cons (htick : c ≠ '`') (hbackslash : c ≠ '\\')
    (hbrace : c = '$' → s.head? ≠ some '{') :
    readTemplate (c :: s) = (readTemplate s).map fun (t, rest) => (c :: t, rest) := by
  rw [readTemplate.eq_5 c s htick ?dollar ?backslash, if_neg hbackslash]
  case dollar =>
    rintro t rfl rfl
    exact hbrace rfl rfl
  case backslash =>
    rintro d t rfl
    exact absurd rfl hbackslash

/-- The inside of a template literal reads as its text, up to the closing backtick. -/
theorem readTemplate_templateBody (s rest : List Char) :
    readTemplate (templateBody s ++ '`' :: rest) = some (s, rest) := by
  fun_induction templateBody s with
  | case1 => rfl
  | case2 s ih =>
      show readTemplate ('\\' :: '$' :: '{' :: (templateBody s ++ '`' :: rest)) = _
      rw [readTemplate, readTemplate_cons (by decide) (by decide) (by simp), ih]
      rfl
  | case3 c s hother ih =>
      split
      case isTrue hc =>
        show readTemplate ('\\' :: c :: (templateBody s ++ '`' :: rest)) = _
        rw [readTemplate, ih, if_pos (by rw [hc, Bool.true_or])]
        rfl
      case isFalse hc =>
        simp only [Bool.or_eq_true, decide_eq_true_eq, not_or] at hc
        rw [List.singleton_append, List.cons_append, readTemplate_cons hc.2 hc.1, ih]
        · rfl
        · intro hdollar hbrace
          cases hs : templateBody s with
          | nil =>
              rw [hs] at hbrace
              cases hbrace
          | cons d body =>
              rw [hs] at hbrace
              obtain ⟨t, ht⟩ := head?_templateBody (s := s) (by rw [hs]; exact hbrace)
              exact hother t hdollar ht

/-- No text can end its template literal or begin a substitution in it: wherever the inside has a
backtick, or a dollar sign before a brace, an odd number of backslashes is before it.  Reading gives
the text back and stops at the closing backtick, so no two texts have the same literal. -/
theorem template_reads_back (s : String) :
    (∀ u v, templateBody s.toList = u ++ '`' :: v → Escaping u) ∧
      (∀ u v, templateBody s.toList = u ++ '$' :: '{' :: v → Escaping u) ∧
      (∀ rest, readTemplate (templateBody s.toList ++ '`' :: rest) = some (s.toList, rest)) ∧
      ∀ t, templateString s = templateString t → s = t := by
  refine ⟨fun u v h => escaping_of_templateBody (.inl rfl) h,
    fun u v h => escaping_of_templateBody (.inr ⟨rfl, rfl⟩) h,
    readTemplate_templateBody s.toList, fun t h => ?_⟩
  have hliteral : template s.toList = template t.toList := String.ofList_injective h
  have hbody : templateBody s.toList ++ ['`'] = templateBody t.toList ++ ['`'] :=
    (List.cons.inj hliteral).2
  have hs := readTemplate_templateBody s.toList []
  rw [hbody, readTemplate_templateBody] at hs
  exact String.toList_injective (congrArg Prod.fst (Option.some.inj hs)).symm

example : templateString "\\`$$\x7bx\x7d\\" = "`\\\\\\`$\\$\x7bx\x7d\\\\`" := by decide

end Flowscript.Script

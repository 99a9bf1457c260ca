/-
  Flowscript.Proofs.Literals

  What the literals of generated code are made of.

  Quoting brings in nothing but the quote, backslashes and an `n`, and leaves no line
  break; a template literal has backslashes more than its text, and its lines are those of
  the text.  Numbers are digits and a few letters and signs.
-/
import Flowscript.Proofs.Identifiers
import Flowscript.Proofs.OutputLines
import Flowscript.Script.Literal

namespace Flowscript

-- ============================================================================
-- Numbers
-- ============================================================================

/-- The characters of numbers, also of those that are not finite. -/
def isNumberChar (c : Char) : Bool :=
  c.isDigit || ['-', '+', '.', 'e', 'i', 'n', 'f', 'a'].contains c

theorem Text.isDigit_of_mem_natDigits {n : Nat} {c : Char} (h : c ∈ natDigits n) :
    c.isDigit = true :=
  Nat.isDigit_of_mem_toDigits (b := 10) (by decide) (by decide) h

theorem Text.isNumberChar_of_mem_natDigits {n : Nat} {c : Char} (h : c ∈ natDigits n) :
    isNumberChar c = true := by
  rw [isNumberChar, isDigit_of_mem_natDigits h, Bool.true_or]

theorem Text.isNumberChar_of_mem_intDigits {i : Int} {c : Char} (h : c ∈ intDigits i) :
    isNumberChar c = true := by
  cases i with
  | ofNat n => exact isNumberChar_of_mem_natDigits h
  | negSucc n =>
      rcases List.mem_cons.mp h with rfl | h
      · rfl
      · exact isNumberChar_of_mem_natDigits h

namespace Double

variable {c : Char} {ds : List Char}

theorem isNumberChar_of_mem_positional {point : Int} (hds : ∀ c ∈ ds, isNumberChar c = true)
    (h : c ∈ positional ds point) : isNumberChar c = true := by
  have hzeros : ∀ {n : Nat}, c ∈ List.replicate n '0' → isNumberChar c = true := by
    intro n hmem
    rw [(List.mem_replicate.mp hmem).2]
    rfl
  unfold positional at h
  split at h
  · simp only [List.mem_cons, List.mem_append] at h
    rcases h with rfl | rfl | h | h
    · rfl
    · rfl
    · exact hzeros h
    · exact hds c h
  · split at h
    · simp only [List.mem_append, List.mem_cons, List.not_mem_nil, or_false] at h
      rcases h with (h | h) | rfl | rfl
      · exact hds c h
      · exact hzeros h
      · rfl
      · rfl
    · rcases List.mem_append.mp h with h | h
      · exact hds c (List.mem_of_mem_take h)
      · rcases List.mem_cons.mp h with rfl | h
        · rfl
        · exact hds c (List.mem_of_mem_drop h)

theorem isNumberChar_of_mem_scientific {e : Int} (hds : ∀ c ∈ ds, isNumberChar c = true)
    (h : c ∈ scientific ds e) : isNumberChar c = true := by
  have hexponent : ∀ c ∈ Text.natDigits e.natAbs, isNumberChar c = true := fun _ =>
    Text.isNumberChar_of_mem_natDigits
  unfold scientific at h
  simp only [List.mem_append, List.mem_cons] at h
  rcases h with h | rfl | rfl | h
  · split at h
    · simp only [List.mem_singleton] at h
      rw [h]
      rfl
    · exact hds c h
    · simp only [List.mem_cons] at h hds
      rcases h with rfl | rfl | h
      · exact hds _ (.inl rfl)
      · rfl
      · exact hds c (.inr h)
  · rfl
  · split <;> rfl
  · split at h
    · rcases List.mem_cons.mp h with rfl | h
      · rfl
      · exact hexponent c h
    · exact hexponent c h

theorem isNumberChar_of_mem_chars {x : Double} (h : c ∈ x.chars) : isNumberChar c = true := by
  have hsign : ∀ {negative : Bool}, c ∈ (if negative then ['-'] else []) →
      isNumberChar c = true := by
    intro negative hmem
    cases negative with
    | true =>
        rw [List.mem_singleton.mp hmem]
        rfl
    | false => cases hmem
  cases x with
  | nan =>
      simp only [chars, List.mem_cons, List.not_mem_nil, or_false] at h
      rcases h with rfl | rfl | rfl <;> rfl
  | infinite negative =>
      rcases List.mem_append.mp h with h | h
      · exact hsign h
      · simp only [List.mem_cons, List.not_mem_nil, or_false] at h
        rcases h with rfl | rfl | rfl <;> rfl
  | finite negative m q =>
      rcases List.mem_append.mp h with h | h
      · exact hsign h
      · split at h
        · simp only [List.mem_cons, List.not_mem_nil, or_false] at h
          rcases h with rfl | rfl | rfl <;> rfl
        · unfold magnitudeText at h
          simp only at h
          split at h
          · exact isNumberChar_of_mem_positional (fun _ => Text.isNumberChar_of_mem_natDigits) h
          · exact isNumberChar_of_mem_scientific (fun _ => Text.isNumberChar_of_mem_natDigits) h

end Double

-- ============================================================================
-- Strings and templates
-- ============================================================================

namespace Script

variable {q c d : Char} {s : List Char}

/-- Quoting a character brings in the quote, backslashes and an `n`, and no line break. -/
theorem mem_quoteChar (h : d ∈ quoteChar q c) :
    d = q ∨ d = '\\' ∨ d = 'n' ∨ d = c ∧ c ≠ '\n' := by
  unfold quoteChar at h
  split at h
  · simp only [List.mem_cons, List.not_mem_nil, or_false, or_self] at h
    exact .inr (.inl h)
  · split at h
    · simp only [List.mem_cons, List.not_mem_nil, or_false] at h
      exact h.symm.imp_right .inl
    · split at h
      · simp only [List.mem_cons, List.not_mem_nil, or_false] at h
        exact .inr (h.imp_right .inl)
      · next hc =>
        exact .inr (.inr (.inr ⟨List.mem_singleton.mp h, hc⟩))

theorem mem_quote (h : d ∈ quote q s) :
    d = q ∨ d = '\\' ∨ d = 'n' ∨ d ∈ s ∧ d ≠ '\n' := by
  simp only [quote, List.cons_append, List.mem_cons, List.mem_append, List.mem_flatMap,
    List.not_mem_nil, or_false] at h
  rcases h with rfl | ⟨c, hc, h⟩ | rfl
  · exact .inl rfl
  · rcases mem_quoteChar h with h | h | h | ⟨rfl, hne⟩
    · exact .inl h
    · exact .inr (.inl h)
    · exact .inr (.inr (.inl h))
    · exact .inr (.inr (.inr ⟨hc, hne⟩))
  · exact .inl rfl

theorem newline_not_mem_quote (hq : q ≠ '\n') (s : List Char) : '\n' ∉ quote q s := by
  intro h
  rcases mem_quote h with h | h | h | ⟨-, h⟩
  · exact hq h.symm
  · cases h
  · cases h
  · exact h rfl

theorem mem_templateBody (h : d ∈ templateBody s) : d = '\\' ∨ d ∈ s := by
  fun_induction templateBody s with
  | case1 => cases h
  | case2 rest ih =>
      simp only [List.mem_cons] at h ⊢
      rcases h with h | h | h | h
      · exact .inl h
      · exact .inr (.inl h)
      · exact .inr (.inr (.inl h))
      · exact (ih h).imp_right fun h => .inr (.inr h)
  | case3 c rest _ ih =>
      rcases List.mem_append.mp h with h | h
      · split at h
        · simp only [List.mem_cons, List.not_mem_nil, or_false] at h
          exact h.imp_right fun h => List.mem_cons.mpr (.inl h)
        · exact .inr (List.mem_cons.mpr (.inl (List.mem_singleton.mp h)))
      · exact (ih h).imp_right (List.mem_cons_of_mem _)

/-- The lines of a template literal are those of its text. -/
theorem splitOn_templateBody (s : List Char) :
    Text.splitOn '\n' (templateBody s) = (Text.splitOn '\n' s).map templateBody := by
  fun_induction templateBody s with
  | case1 => rfl
  | case2 rest ih =>
      obtain ⟨line, lines, h⟩ := List.exists_cons_of_ne_nil (Text.splitOn_ne_nil '\n' rest)
      rw [h] at ih
      have hleft := Text.splitOn_append_of_not_mem (p := ['\\', '$', '{']) (by decide) ih
      have hright := Text.splitOn_append_of_not_mem (p := ['$', '{']) (by decide) h
      simp only [List.cons_append, List.nil_append] at hleft hright
      rw [hleft, hright, List.map_cons]
      rfl
  | case3 c rest hdollar ih =>
      obtain ⟨line, lines, h⟩ := List.exists_cons_of_ne_nil (Text.splitOn_ne_nil '\n' rest)
      rw [h] at ih
      by_cases hc : c = '\n'
      · subst hc
        rw [if_neg (by decide), List.singleton_append, Text.splitOn_cons_self,
          Text.splitOn_cons_self, ih, h]
        rfl
      · have hleft := Text.splitOn_append_of_not_mem
          (p := if c = '\\' || c = '`' then ['\\', c] else [c])
          (by split <;> simp [Ne.symm hc]) ih
        have hright := Text.splitOn_cons_of_ne hc h
        have hbody : templateBody (c :: line) =
            (if c = '\\' || c = '`' then ['\\', c] else [c]) ++ templateBody line := by
          -- the line begins like the text, so no brace follows a dollar sign in it either
          rw [templateBody]
          rintro line' rfl rfl
          have hjoin := Text.joinWith_splitOn '\n' rest
          rw [h] at hjoin
          cases lines with
          | nil => exact hdollar _ rfl hjoin.symm
          | cons line' lines => exact hdollar _ rfl hjoin.symm
        rw [hleft, hright, List.map_cons, hbody]

-- ============================================================================
-- Keys
-- ============================================================================

theorem key_of_isIdentifier (h : Naming.isIdentifier s = true) : key s = s := by
  have hdrop : Text.dropFinalNewline s = s := by
    refine if_neg fun hlast => ?_
    exact Naming.not_mem_of_isIdentifier h (by decide) (List.mem_of_getLast? hlast)
  rw [key, hdrop, if_pos h]

/-- A key stands for itself, or is in quotes. -/
theorem key_cases (s : List Char) :
    (Naming.isIdentifier s = true ∧ key s = s) ∨
      (∃ name, Naming.isIdentifier name = true ∧ s = name ++ ['\n'] ∧ key s = s) ∨
      key s = quote '\'' s := by
  rw [key]
  split
  · next hidentifier =>
    unfold Text.dropFinalNewline at hidentifier
    split at hidentifier
    · next hlast =>
      obtain ⟨name, rfl⟩ := List.getLast?_eq_some_iff.mp hlast
      rw [List.dropLast_concat] at hidentifier
      exact .inr (.inl ⟨name, hidentifier, rfl, rfl⟩)
    · exact .inl ⟨hidentifier, rfl⟩
  · exact .inr (.inr rfl)

/-- A carriage return of a key is kept. -/
theorem mem_key (h : '\r' ∈ s) : '\r' ∈ key s := by
  rcases key_cases s with ⟨-, hkey⟩ | ⟨_, -, -, hkey⟩ | hkey
  · rwa [hkey]
  · rwa [hkey]
  · rw [hkey, quote]
    refine List.mem_append_left _ (List.mem_cons_of_mem _ (List.mem_flatMap.mpr ⟨_, h, ?_⟩))
    decide

end Script

end Flowscript

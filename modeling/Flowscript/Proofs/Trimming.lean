/-
  Flowscript.Proofs.Trimming

  White space at the ends of texts.

  A text is white space, its trimmed form, and white space again, and whatever does not
  start or end with white space keeps that end when it is trimmed.  Trimming an end sees
  only that end, so a text put together from parts is trimmed in its outermost parts.
-/
import Mathlib.Data.List.DropRight
import Flowscript.Text.Blank

namespace Flowscript.Text

variable {s t b : List Char} {c : Char}

-- ============================================================================
-- Blank texts
-- ============================================================================

@[simp] theorem isBlankText_nil : isBlankText [] = true := rfl

@[simp] theorem isBlankText_cons : isBlankText (c :: s) = (isBlank c && isBlankText s) := rfl

@[simp] theorem isBlankText_append :
    isBlankText (s ++ t) = (isBlankText s && isBlankText t) := List.all_append

theorem isBlankText_iff : isBlankText s = true ↔ ∀ c ∈ s, isBlank c = true := List.all_eq_true

-- ============================================================================
-- The start
-- ============================================================================

/-- The text is empty or starts with a character that is not white space. -/
def StartsSolid (s : List Char) : Prop := ∀ c, s.head? = some c → isBlank c = false

/-- The text is empty or ends with a character that is not white space. -/
def EndsSolid (s : List Char) : Prop := ∀ c, s.getLast? = some c → isBlank c = false

theorem startsSolid_cons (h : isBlank c = false) : StartsSolid (c :: s) := by
  intro d hd
  cases hd
  exact h

theorem StartsSolid.append_of_ne_nil (h : StartsSolid (s ++ t)) (hs : s ≠ []) :
    StartsSolid (s ++ b) := by
  intro d hd
  refine h d ?_
  rw [List.head?_append_of_ne_nil _ hs] at hd ⊢
  exact hd

theorem trimStart_append (h : isBlankText b = true) : trimStart (b ++ s) = trimStart s := by
  induction b with
  | nil => rfl
  | cons c b ih =>
      rw [isBlankText_cons, Bool.and_eq_true] at h
      rw [trimStart, List.cons_append, List.dropWhile_cons, if_pos h.1]
      exact ih h.2

theorem StartsSolid.trimStart_eq (h : StartsSolid s) : trimStart s = s := by
  cases s with
  | nil => rfl
  | cons c s =>
      have hc := h c rfl
      rw [trimStart, List.dropWhile_cons, if_neg (by simp [hc])]

theorem startsSolid_trimStart (s : List Char) : StartsSolid (trimStart s) := by
  intro c hc
  have hnot := List.head?_dropWhile_not isBlank s
  rw [show (s.dropWhile isBlank).head? = some c from hc] at hnot
  simpa using hnot

/-- A text is white space followed by its trimmed form. -/
theorem exists_trimStart (s : List Char) :
    ∃ b, isBlankText b = true ∧ s = b ++ trimStart s := by
  refine ⟨s.takeWhile isBlank, ?_, ?_⟩
  · exact isBlankText_iff.mpr fun c hc => List.mem_takeWhile_imp hc
  · exact List.takeWhile_append_dropWhile.symm

theorem trimStart_eq_nil_iff : trimStart s = [] ↔ isBlankText s = true := by
  rw [trimStart, List.dropWhile_eq_nil_iff, isBlankText_iff]

/-- A part that is not blank keeps what follows it. -/
theorem trimStart_append_of_not_blank (h : isBlankText s = false) :
    trimStart (s ++ t) = trimStart s ++ t := by
  obtain ⟨b, hb, hs⟩ := exists_trimStart s
  have hne : trimStart s ≠ [] := by
    rw [Ne, trimStart_eq_nil_iff, h]
    simp
  have hsolid : StartsSolid (trimStart s ++ t) := by
    intro c hc
    rw [List.head?_append_of_ne_nil _ hne] at hc
    exact startsSolid_trimStart s c hc
  calc trimStart (s ++ t) = trimStart (b ++ (trimStart s ++ t)) := by
        rw [← List.append_assoc, ← hs]
    _ = trimStart (trimStart s ++ t) := trimStart_append hb
    _ = trimStart s ++ t := hsolid.trimStart_eq

theorem trimStart_append_of_startsSolid (h : StartsSolid t) :
    trimStart (s ++ t) = trimStart s ++ t := by
  cases hblank : isBlankText s with
  | true => rw [trimStart_append hblank, trimStart_eq_nil_iff.mpr hblank, h.trimStart_eq]; rfl
  | false => exact trimStart_append_of_not_blank hblank

@[simp] theorem trimStart_trimStart (s : List Char) : trimStart (trimStart s) = trimStart s :=
  (startsSolid_trimStart s).trimStart_eq

-- ============================================================================
-- The end
-- ============================================================================

theorem endsSolid_concat (h : isBlank c = false) : EndsSolid (s ++ [c]) := by
  intro d hd
  rw [List.getLast?_concat] at hd
  cases hd
  exact h

theorem EndsSolid.append (h : EndsSolid t) (hne : t ≠ []) : EndsSolid (s ++ t) := by
  intro c hc
  rw [List.getLast?_append_of_ne_nil _ hne] at hc
  exact h c hc

theorem EndsSolid.of_append (h : EndsSolid (s ++ t)) : EndsSolid t := by
  cases t with
  | nil => intro c hc; cases hc
  | cons d t =>
      intro c hc
      refine h c ?_
      rw [List.getLast?_append_of_ne_nil _ (by simp)]
      exact hc

theorem EndsSolid.trimEnd_eq (h : EndsSolid s) : trimEnd s = s := by
  refine List.rdropWhile_eq_self_iff.mpr fun hne => ?_
  rw [h _ (List.getLast?_eq_some_getLast hne)]
  simp

theorem endsSolid_trimEnd (s : List Char) : EndsSolid (trimEnd s) := by
  intro c hc
  have hne : s.rdropWhile isBlank ≠ [] := by
    intro hnil
    rw [show trimEnd s = [] from hnil] at hc
    cases hc
  have hlast := List.rdropWhile_last_not isBlank s hne
  have heq : (s.rdropWhile isBlank).getLast hne = c := by
    have hsome := List.getLast?_eq_some_getLast hne
    rw [show (s.rdropWhile isBlank).getLast? = some c from hc] at hsome
    exact (Option.some.inj hsome).symm
  rw [heq] at hlast
  simpa using hlast

/-- A text is its trimmed form followed by white space. -/
theorem exists_trimEnd (s : List Char) : ∃ b, isBlankText b = true ∧ s = trimEnd s ++ b := by
  refine ⟨s.rtakeWhile isBlank, ?_, ?_⟩
  · exact isBlankText_iff.mpr fun c hc => List.mem_rtakeWhile_imp hc
  · exact List.rdropWhile_append_rtakeWhile.symm

theorem trimEnd_eq_nil_iff : trimEnd s = [] ↔ isBlankText s = true := by
  rw [isBlankText_iff]
  exact List.rdropWhile_eq_nil_iff

theorem trimEnd_append_blank (h : isBlankText b = true) : trimEnd (s ++ b) = trimEnd s := by
  rw [trimEnd, dropEndWhile, List.reverse_append]
  have hreverse : isBlankText b.reverse = true := by
    rw [isBlankText, List.all_reverse]
    exact h
  exact congrArg List.reverse (trimStart_append hreverse)

/-- A part that is not blank keeps what precedes it. -/
theorem trimEnd_append_of_not_blank (h : isBlankText t = false) :
    trimEnd (s ++ t) = s ++ trimEnd t := by
  obtain ⟨b, hb, ht⟩ := exists_trimEnd t
  have hne : trimEnd t ≠ [] := by
    rw [Ne, trimEnd_eq_nil_iff, h]
    simp
  have hsolid : EndsSolid (s ++ trimEnd t) := (endsSolid_trimEnd t).append hne
  calc trimEnd (s ++ t) = trimEnd (s ++ trimEnd t ++ b) := by rw [List.append_assoc, ← ht]
    _ = trimEnd (s ++ trimEnd t) := trimEnd_append_blank hb
    _ = s ++ trimEnd t := hsolid.trimEnd_eq

@[simp] theorem trimEnd_trimEnd (s : List Char) : trimEnd (trimEnd s) = trimEnd s :=
  (endsSolid_trimEnd s).trimEnd_eq

theorem trimEnd_cons_of_solid (h : isBlank c = false) : trimEnd (c :: s) = c :: trimEnd s := by
  cases hs : isBlankText s with
  | true =>
      have hend : EndsSolid ([] ++ [c]) := endsSolid_concat h
      rw [trimEnd_eq_nil_iff.mpr hs, show c :: s = [c] ++ s from rfl, trimEnd_append_blank hs]
      exact hend.trimEnd_eq
  | false => exact trimEnd_append_of_not_blank (s := [c]) hs

theorem prefix_of_trimEnd (s : List Char) : trimEnd s <+: s := List.rdropWhile_prefix isBlank s

theorem isBlankText_trimEnd (s : List Char) : isBlankText (trimEnd s) = isBlankText s := by
  obtain ⟨b, hb, hs⟩ := exists_trimEnd s
  conv => rhs; rw [hs, isBlankText_append, hb, Bool.and_true]

theorem isBlankText_trimStart (s : List Char) : isBlankText (trimStart s) = isBlankText s := by
  obtain ⟨b, hb, hs⟩ := exists_trimStart s
  conv => rhs; rw [hs, isBlankText_append, hb, Bool.true_and]

-- ============================================================================
-- Both ends
-- ============================================================================

/-- The two ends are trimmed in any order. -/
theorem trimStart_trimEnd (s : List Char) : trimStart (trimEnd s) = trim s := by
  obtain ⟨b, hb, hs⟩ := exists_trimStart s
  cases hblank : isBlankText s with
  | true => rw [trim, trimStart_eq_nil_iff.mpr hblank, trimEnd_eq_nil_iff.mpr hblank]; rfl
  | false =>
      have hrest : isBlankText (trimStart s) = false := by rw [isBlankText_trimStart, hblank]
      have hne : trimEnd (trimStart s) ≠ [] := by
        rw [Ne, trimEnd_eq_nil_iff, hrest]
        simp
      have hsolid : StartsSolid (trimEnd (trimStart s)) := by
        intro c hc
        obtain ⟨rest, hrest⟩ := prefix_of_trimEnd (trimStart s)
        refine startsSolid_trimStart s c ?_
        rw [← hrest, List.head?_append_of_ne_nil _ hne]
        exact hc
      conv => lhs; rw [hs, trimEnd_append_of_not_blank hrest, trimStart_append hb]
      exact hsolid.trimStart_eq

theorem trim_blank_append (h : isBlankText b = true) : trim (b ++ s) = trim s := by
  rw [trim, trimStart_append h, trim]

@[simp] theorem trim_trimEnd (s : List Char) : trim (trimEnd s) = trim s := by
  rw [← trimStart_trimEnd, trimEnd_trimEnd, trimStart_trimEnd]

@[simp] theorem trim_trimStart (s : List Char) : trim (trimStart s) = trim s := by
  rw [trim, trimStart_trimStart, trim]

theorem trim_eq_nil_iff : trim s = [] ↔ isBlankText s = true := by
  rw [trim, trimEnd_eq_nil_iff, isBlankText_trimStart]

/-- A text is its trimmed form between white space. -/
theorem exists_trim (s : List Char) :
    ∃ a b, isBlankText a = true ∧ isBlankText b = true ∧ s = a ++ trim s ++ b := by
  obtain ⟨a, ha, hs⟩ := exists_trimStart s
  obtain ⟨b, hb, ht⟩ := exists_trimEnd (trimStart s)
  refine ⟨a, b, ha, hb, ?_⟩
  rw [trim, List.append_assoc, ← ht, ← hs]

theorem startsSolid_trim (s : List Char) : StartsSolid (trim s) := by
  rw [← trimStart_trimEnd]
  exact startsSolid_trimStart _

theorem endsSolid_trim (s : List Char) : EndsSolid (trim s) := endsSolid_trimEnd _

@[simp] theorem trim_trim (s : List Char) : trim (trim s) = trim s := by
  rw [← trimStart_trimEnd, (endsSolid_trim s).trimEnd_eq, (startsSolid_trim s).trimStart_eq]

end Flowscript.Text

/-
  Flowscript.Proofs.Identifiers

  The identifiers that labels are made into.

  A label loses its capitals before it is cut into runs of letters and digits, so what
  is left is made of small letters and digits, and of the underscores between the runs
  (`isVariable_identifierChars`).
-/
import Flowscript.Naming.Identifier
import Mathlib.Data.List.Basic

namespace Flowscript

-- ============================================================================
-- Characters of texts
-- ============================================================================

namespace Text

variable {c d : Char} {s : List Char}

theorem isUpper_iff : c.isUpper = true ↔ 65 ≤ c.toNat ∧ c.toNat ≤ 90 := by
  show decide (65 ≤ c.val ∧ c.val ≤ 90) = true ↔ _
  simp [UInt32.le_iff_toNat_le]

theorem isAlphanum_eq (c : Char) : c.isAlphanum = (c.isUpper || c.isLower || c.isDigit) := rfl

theorem isUpper_ofNat {k : Nat} (h : 90 < k) : (Char.ofNat k).isUpper = false := by
  have hcode : (Char.ofNat k).toNat = 0 ∨ (Char.ofNat k).toNat = k := by
    by_cases hvalid : k.isValidChar
    · rw [Char.ofNat, dif_pos hvalid]
      exact .inr rfl
    · rw [Char.ofNat, dif_neg hvalid]
      exact .inl rfl
  rw [Bool.eq_false_iff, Ne, isUpper_iff]
  omega

/-- No capital of ASCII is the small letter of a character. -/
theorem isUpper_of_mem_lowerChar (h : d ∈ lowerChar c) : d.isUpper = false := by
  have hascii : ∀ k < 128, (Char.ofNat k).toLower.isUpper = false := by decide +kernel
  have hruns : ∀ r ∈ caseRuns, 90 < (r.first : Int) + r.shift := by decide +kernel
  unfold lowerChar at h
  split at h
  · next hc =>
    have hlower := hascii c.toNat hc
    rw [Char.ofNat_toNat] at hlower
    rwa [List.mem_singleton.mp h]
  · next hc =>
    split at h
    · rcases List.mem_pair.mp h with rfl | rfl
      · decide
      · decide
    · split at h
      · next r hr =>
        have hfirst : r.first ≤ c.toNat := by
          have hcontains := List.find?_some hr
          simp only [CaseRun.contains, Bool.and_eq_true, decide_eq_true_eq] at hcontains
          exact hcontains.1.1
        have hshift := hruns r (List.mem_of_find?_eq_some hr)
        rw [List.mem_singleton.mp h]
        exact isUpper_ofNat (by omega)
      · rw [List.mem_singleton.mp h, ← Char.ofNat_toNat c]
        exact isUpper_ofNat (by omega)

theorem isUpper_of_mem_lower (h : c ∈ lower s) : c.isUpper = false := by
  have key : ∀ (before rest : List Char), ∀ c ∈ lowerFrom before rest, c.isUpper = false := by
    intro before rest
    induction rest generalizing before with
    | nil => simp [lowerFrom]
    | cons d rest ih =>
        intro c hc
        rcases List.mem_append.mp hc with hc | hc
        · split at hc
          · split at hc
            · rw [List.mem_singleton.mp hc]
              decide
            · rw [List.mem_singleton.mp hc]
              decide
          · exact isUpper_of_mem_lowerChar hc
        · exact ih _ c hc
  exact key [] s c h

theorem mem_joinWith {sep : List Char} {ps : List (List Char)} {c : Char}
    (h : c ∈ joinWith sep ps) : c ∈ sep ∨ ∃ p ∈ ps, c ∈ p := by
  induction ps with
  | nil => cases h
  | cons p ps ih =>
      cases ps with
      | nil => exact .inr ⟨p, List.mem_cons_self, h⟩
      | cons q ps =>
          rw [joinWith_cons_cons, List.mem_append, List.mem_append] at h
          rcases h with (h | h) | h
          · exact .inr ⟨p, List.mem_cons_self, h⟩
          · exact .inl h
          · rcases ih h with h | ⟨p', hp', h⟩
            · exact .inl h
            · exact .inr ⟨p', List.mem_cons_of_mem _ hp', h⟩

theorem mem_joinWith_iff {sep : List Char} (hsep : c ∉ sep) (ps : List (List Char)) :
    c ∈ joinWith sep ps ↔ ∃ p ∈ ps, c ∈ p := by
  refine ⟨fun h => (mem_joinWith h).resolve_left hsep, fun h => ?_⟩
  induction ps with
  | nil => simp at h
  | cons p ps ih =>
      obtain ⟨p', hp', hc⟩ := h
      cases ps with
      | nil =>
          rw [List.mem_singleton.mp hp'] at hc
          exact hc
      | cons q ps =>
          rw [joinWith_cons_cons, List.mem_append, List.mem_append]
          rcases List.mem_cons.mp hp' with rfl | hp'
          · exact .inl (.inl hc)
          · exact .inr (ih ⟨p', hp', hc⟩)

end Text

-- ============================================================================
-- The shape of names
-- ============================================================================

namespace Naming

variable {s t w : List Char} {c : Char}

theorem toNat_of_isIdentifierPart (h : isIdentifierPart c = true) :
    36 ≤ c.toNat ∧ c.toNat ≤ 122 := by
  have halpha : c.isAlpha = (c.isUpper || c.isLower) := rfl
  have hupper : c.isUpper = decide (c.val ≥ 'A'.val ∧ c.val ≤ 'Z'.val) := rfl
  have hlower : c.isLower = (c.val ≥ 'a'.val && c.val ≤ 'z'.val) := rfl
  have hcode : c.toNat = c.val.toNat := rfl
  simp only [isIdentifierPart, Char.isAlphanum, halpha, hupper, hlower, Char.isDigit,
    Bool.or_eq_true, Bool.and_eq_true, decide_eq_true_eq, UInt32.le_iff_toNat_le, GE.ge] at h
  rcases h with (((h | h) | h) | rfl) | rfl
  · simp at h
    omega
  · simp at h
    omega
  · simp at h
    omega
  · decide
  · decide

theorem isIdentifierPart_of_mem (h : isIdentifier s = true) (hc : c ∈ s) :
    isIdentifierPart c = true := by
  cases s with
  | nil => cases hc
  | cons d s =>
      rw [isIdentifier, Bool.and_eq_true] at h
      rcases List.mem_cons.mp hc with rfl | hc
      · have hstart := h.1
        simp only [isIdentifierStart, Bool.or_eq_true] at hstart
        simp only [isIdentifierPart, Char.isAlphanum, Bool.or_eq_true]
        tauto
      · exact List.all_eq_true.mp h.2 c hc

theorem not_mem_of_isIdentifier (h : isIdentifier s = true) (hc : isIdentifierPart c = false) :
    c ∉ s := by
  intro hmem
  rw [isIdentifierPart_of_mem h hmem] at hc
  cases hc

/-- A character of the names that are made from labels. -/
def isNamePart (c : Char) : Bool := c.isAlphanum || c = '_'

/-- A text of letters, digits and underscores that is not empty. -/
def IsName (s : List Char) : Prop := s ≠ [] ∧ ∀ c ∈ s, isNamePart c = true

theorem IsName.not_mem (h : IsName s) (hc : isNamePart c = false) : c ∉ s := by
  intro hmem
  rw [h.2 c hmem] at hc
  cases hc

/-- A small letter, a digit or an underscore. -/
def isVariablePart (c : Char) : Bool := c.isLower || c.isDigit || c = '_'

/-- A small letter of ASCII, followed by small letters, digits and underscores. -/
def IsVariable (s : List Char) : Prop :=
  ∃ c rest, s = c :: rest ∧ c.isLower = true ∧ ∀ d ∈ rest, isVariablePart d = true

theorem IsVariable.append (h : IsVariable s) (ht : ∀ c ∈ t, isVariablePart c = true) :
    IsVariable (s ++ t) := by
  obtain ⟨c, rest, rfl, hfirst, hrest⟩ := h
  refine ⟨c, rest ++ t, rfl, hfirst, fun d hd => ?_⟩
  rcases List.mem_append.mp hd with hd | hd
  · exact hrest d hd
  · exact ht d hd

theorem IsVariable.isName (h : IsVariable s) : IsName s := by
  have hpart : ∀ d, isVariablePart d = true → isNamePart d = true := by
    intro d hd
    simp only [isVariablePart, Bool.or_eq_true] at hd
    rcases hd with (hlower | hdigit) | hunderscore
    · simp [isNamePart, Text.isAlphanum_eq, hlower]
    · simp [isNamePart, Text.isAlphanum_eq, hdigit]
    · simp [isNamePart, of_decide_eq_true hunderscore]
  obtain ⟨c, rest, rfl, hfirst, hrest⟩ := h
  refine ⟨by simp, fun d hd => ?_⟩
  rcases List.mem_cons.mp hd with rfl | hd
  · exact hpart d (by simp [isVariablePart, hfirst])
  · exact hpart d (hrest d hd)

-- ============================================================================
-- Labels
-- ============================================================================

/-- The runs of a text hold its letters and digits, in order. -/
theorem flatten_alnumRuns (s : List Char) : (alnumRuns s).flatten = s.filter Char.isAlphanum := by
  fun_induction alnumRuns s with
  | case1 => rfl
  | case2 c hc => simp [hc]
  | case3 c hc d rest hd hruns ih => simp_all
  | case4 c hc d rest hd w ws hruns ih => simp_all
  | case5 c hc d rest hd ih => simp_all
  | case6 c rest hc ih => simp_all

theorem mem_of_mem_alnumRuns (hw : w ∈ alnumRuns s) (hc : c ∈ w) : c ∈ s ∧ c.isAlphanum = true := by
  have hmem : c ∈ (alnumRuns s).flatten := List.mem_flatten.mpr ⟨w, hw, hc⟩
  rwa [flatten_alnumRuns, List.mem_filter] at hmem

theorem isAlphanum_of_mem_alnumRuns (hw : w ∈ alnumRuns s) (hc : c ∈ w) : c.isAlphanum = true :=
  (mem_of_mem_alnumRuns hw hc).2

theorem ne_nil_of_mem_alnumRuns (hw : w ∈ alnumRuns s) : w ≠ [] := by
  fun_induction alnumRuns s generalizing w with
  | case1 => cases hw
  | case2 c hc => simp_all
  | case3 c hc d rest hd hruns ih => simp_all
  | case4 c hc d rest hd v vs hruns ih =>
      rw [hruns] at hw
      rcases List.mem_cons.mp hw with rfl | hw
      · simp
      · exact ih (by rw [hruns]; exact List.mem_cons_of_mem _ hw)
  | case5 c hc d rest hd ih =>
      rcases List.mem_cons.mp hw with rfl | hw
      · simp
      · exact ih hw
  | case6 c rest hc ih => exact ih hw

/-- The characters of the runs of a text in small letters. -/
theorem isSmall_of_mem_alnumRuns_lower (hw : w ∈ alnumRuns (Text.lower s)) (hc : c ∈ w) :
    c.isLower = true ∨ c.isDigit = true := by
  obtain ⟨hmem, halnum⟩ := mem_of_mem_alnumRuns hw hc
  have hupper := Text.isUpper_of_mem_lower hmem
  simpa [Text.isAlphanum_eq, hupper] using halnum

theorem isVariablePart_of_mem_joinWith
    (hc : c ∈ Text.joinWith ['_'] (alnumRuns (Text.lower s))) : isVariablePart c = true := by
  rcases Text.mem_joinWith hc with hc | ⟨w, hw, hc⟩
  · rw [List.mem_singleton.mp hc]
    rfl
  · rcases isSmall_of_mem_alnumRuns_lower hw hc with hlower | hdigit
    · simp [isVariablePart, hlower]
    · simp [isVariablePart, hdigit]

/-- The first character of joined runs is that of the first run, so it is no underscore. -/
theorem isSmall_of_joinWith_eq_cons
    (hjoin : Text.joinWith ['_'] (alnumRuns (Text.lower s)) = c :: t) :
    c.isLower = true ∨ c.isDigit = true := by
  cases hruns : alnumRuns (Text.lower s) with
  | nil =>
      rw [hruns] at hjoin
      cases hjoin
  | cons w ws =>
      have hw : w ∈ alnumRuns (Text.lower s) := by
        rw [hruns]
        exact List.mem_cons_self
      obtain ⟨d, v, rfl⟩ := List.exists_cons_of_ne_nil (ne_nil_of_mem_alnumRuns hw)
      have hhead : (Text.joinWith ['_'] ((d :: v) :: ws)).head? = some d := by
        cases ws <;> simp
      rw [← hruns, hjoin] at hhead
      obtain rfl : c = d := Option.some.inj hhead
      exact isSmall_of_mem_alnumRuns_lower hw List.mem_cons_self

theorem isVariable_identifierChars (label : List Char) : IsVariable (identifierChars label) := by
  unfold identifierChars
  split
  · exact ⟨'n', ['o', 'd', 'e'], rfl, rfl, by simp [isVariablePart]⟩
  · next c rest hjoin =>
    have hpart : ∀ d ∈ c :: rest, isVariablePart d = true := by
      rw [← hjoin]
      exact fun d hd => isVariablePart_of_mem_joinWith hd
    split
    · refine ⟨_, _, rfl, rfl, fun d hd => ?_⟩
      rcases List.mem_cons.mp hd with rfl | hd
      · rfl
      · exact hpart d hd
    · next hdigit =>
      have hfirst := (isSmall_of_joinWith_eq_cons hjoin).resolve_right hdigit
      exact ⟨c, rest, rfl, hfirst, fun d hd => hpart d (List.mem_cons_of_mem _ hd)⟩

theorem isVariable_identifier (label : String) : IsVariable (identifier label).toList := by
  rw [identifier, String.toList_ofList]
  exact isVariable_identifierChars label.toList

end Naming

end Flowscript

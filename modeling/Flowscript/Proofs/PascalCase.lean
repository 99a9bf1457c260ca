/-
  Flowscript.Proofs.PascalCase

  Names that are written in one word, each of their words capitalized.

  The words of a name are capitalized as it is read, from left to right
  (`pascalCase_eq_capsFrom`).  What comes out is made of letters and digits, and is not
  empty if the name has any of them.
-/
import Flowscript.Proofs.ImportStatements
import Flowscript.Proofs.VariableNames

namespace Flowscript.Naming

variable {s w r : List Char} {ws : List (List Char)} {c d : Char} {b : Bool}

-- ============================================================================
-- Letters and digits
-- ============================================================================

/-- What holds of the letters and digits of ASCII. -/
theorem forall_alphanum {p : Char → Bool}
    (hall : ∀ k < 128, (Char.ofNat k).isAlphanum = true → p (Char.ofNat k) = true)
    (hc : c.isAlphanum = true) : p c = true := by
  have hascii : c.toNat < 128 := by
    have hpart : isIdentifierPart c = true := by simp [isIdentifierPart, hc]
    have hbound := (Naming.toNat_of_isIdentifierPart hpart).2
    omega
  have hchar := hall c.toNat hascii
  rw [Char.ofNat_toNat] at hchar
  exact hchar hc

theorem isAlpha_eq (c : Char) : c.isAlpha = (c.isUpper || c.isLower) := rfl

theorem isLower_eq (c : Char) : c.isLower = (c.val ≥ 'a'.val && c.val ≤ 'z'.val) := rfl

theorem isUpper_eq (c : Char) : c.isUpper = decide (c.val ≥ 'A'.val ∧ c.val ≤ 'Z'.val) := rfl

/-- Of what is no letter, each of the two cases is itself. -/
theorem cases_of_not_isAlpha (hc : c.isAlpha = false) :
    c.toUpper = c ∧ c.toLower = c ∧ c.isUpper = false := by
  rw [isAlpha_eq, Bool.or_eq_false_iff] at hc
  obtain ⟨hupper, hlower⟩ := hc
  refine ⟨dif_neg fun h => ?_, dif_neg fun h => ?_, hupper⟩
  · have hletter : c.isLower = true := by
      rw [isLower_eq, Bool.and_eq_true]
      simpa using h
    rw [hlower] at hletter
    cases hletter
  · have hletter : c.isUpper = true := by simpa [isUpper_eq] using h
    rw [hupper] at hletter
    cases hletter

/-- How the two cases of a character go together. -/
structure CaseLaws (c : Char) : Prop where
  toLower_toUpper : c.toUpper.toLower = c.toLower
  toUpper_toLower : c.toLower.toUpper = c.toUpper
  toLower_toLower : c.toLower.toLower = c.toLower
  isUpper_toUpper : c.toUpper.isUpper = c.isAlpha
  isUpper_toLower : c.toLower.isUpper = false
  isAlpha_toUpper : c.toUpper.isAlpha = c.isAlpha
  isAlpha_toLower : c.toLower.isAlpha = c.isAlpha

theorem caseLaws (c : Char) : CaseLaws c := by
  cases hc : c.isAlpha with
  | false =>
      obtain ⟨hupper, hlower, hnone⟩ := cases_of_not_isAlpha hc
      constructor <;> simp [hupper, hlower, hnone, hc]
  | true =>
      have halphanum : c.isAlphanum = true := by rw [Char.isAlphanum, hc, Bool.true_or]
      have hall := forall_alphanum (p := fun c => c.toUpper.toLower = c.toLower ∧
        c.toLower.toUpper = c.toUpper ∧ c.toLower.toLower = c.toLower ∧
        c.toUpper.isUpper = c.isAlpha ∧ c.toLower.isUpper = false ∧
        c.toUpper.isAlpha = c.isAlpha ∧ c.toLower.isAlpha = c.isAlpha)
        (by decide +kernel) halphanum
      obtain ⟨h₁, h₂, h₃, h₄, h₅, h₆, h₇⟩ := of_decide_eq_true hall
      exact ⟨h₁, h₂, h₃, h₄, h₅, h₆, h₇⟩

/-- A character that a capitalized word begins with. -/
def isBig (c : Char) : Bool := c.isUpper || c.isDigit

/-- What the two cases make of letters and digits. -/
theorem cases_of_alphanum (hc : c.isAlphanum = true) :
    isBig c.toUpper = true ∧ isSmall c.toLower = true ∧
      (isSmall c = true → c.toLower = c ∧ c.isUpper = false) ∧
      (isBig c = true → c.toUpper = c) := by
  have hall := forall_alphanum (p := fun c => isBig c.toUpper && isSmall c.toLower &&
    (!isSmall c || (c.toLower == c && !c.isUpper)) && (!isBig c || c.toUpper == c))
    (by decide +kernel) hc
  simp only [Bool.and_eq_true, Bool.or_eq_true, Bool.not_eq_true', beq_iff_eq, and_assoc] at hall
  obtain ⟨hbig, hsmall, hlower, hupper⟩ := hall
  exact ⟨hbig, hsmall, fun h => hlower.resolve_left (by simp [h]),
    fun h => hupper.resolve_left (by simp [h])⟩

theorem isBig_toUpper (hc : c.isAlphanum = true) : isBig c.toUpper = true :=
  (cases_of_alphanum hc).1

theorem isSmall_toLower (hc : c.isAlphanum = true) : isSmall c.toLower = true :=
  (cases_of_alphanum hc).2.1

theorem isAlphanum_of_isSmall (h : isSmall c = true) : c.isAlphanum = true := by
  simp only [isSmall, Bool.or_eq_true] at h
  show (c.isUpper || c.isLower || c.isDigit) = true
  simp only [Bool.or_eq_true]
  tauto

theorem isAlphanum_of_isBig (h : isBig c = true) : c.isAlphanum = true := by
  simp only [isBig, Bool.or_eq_true] at h
  show (c.isUpper || c.isLower || c.isDigit) = true
  simp only [Bool.or_eq_true]
  tauto

theorem toLower_of_isSmall (h : isSmall c = true) : c.toLower = c :=
  ((cases_of_alphanum (isAlphanum_of_isSmall h)).2.2.1 h).1

theorem isUpper_eq_false_of_isSmall (h : isSmall c = true) : c.isUpper = false :=
  ((cases_of_alphanum (isAlphanum_of_isSmall h)).2.2.1 h).2

theorem toUpper_of_isBig (h : isBig c = true) : c.toUpper = c :=
  (cases_of_alphanum (isAlphanum_of_isBig h)).2.2.2 h

-- ============================================================================
-- Capitalizing from left to right
-- ============================================================================

/-- Runs of letters and digits, capitalized and put together; `fresh` tells that the next
character begins a run. -/
def capsFrom (fresh : Bool) : List Char → List Char
  | [] => []
  | c :: s =>
    if c.isAlphanum then (if fresh then c.toUpper else c.toLower) :: capsFrom false s
    else capsFrom true s

theorem capsFrom_cons_of_alphanum (hc : c.isAlphanum = true) (fresh : Bool) (s : List Char) :
    capsFrom fresh (c :: s) = (if fresh then c.toUpper else c.toLower) :: capsFrom false s := by
  rw [capsFrom, if_pos hc]

theorem capsFrom_underscore (fresh : Bool) (s : List Char) :
    capsFrom fresh ('_' :: s) = capsFrom true s := rfl

/-- The characters of a run are in small letters, up to where the run ends. -/
theorem capsFrom_alnumRuns (s : List Char) :
    capsFrom true s = ((alnumRuns s).map capitalize).flatten ∧
      capsFrom false s =
        match s with
        | [] => []
        | c :: _ =>
          if c.isAlphanum then
            match alnumRuns s with
            | [] => []
            | w :: ws => small w ++ (ws.map capitalize).flatten
          else ((alnumRuns s).map capitalize).flatten := by
  fun_induction alnumRuns s with
  | case1 => exact ⟨rfl, rfl⟩
  | case2 c hc => simp [capsFrom, hc, capitalize, small]
  | case3 c hc d rest hd hruns ih =>
      simp only [hd, hruns, if_true] at ih
      simp [capsFrom_cons_of_alphanum hc, hc, hruns, ih.2, capitalize, small]
  | case4 c hc d rest hd w ws hruns ih =>
      simp only [hd, hruns, if_true] at ih
      simp [capsFrom_cons_of_alphanum hc, hc, hruns, ih.2, capitalize, small]
  | case5 c hc d rest hd ih =>
      simp only [hd, if_false, Bool.false_eq_true] at ih
      simp [capsFrom_cons_of_alphanum hc, hc, ih.2, capitalize, small]
  | case6 c rest hc ih => simp [capsFrom, hc, ih.1]

theorem pascalCase_eq_capsFrom (s : List Char) :
    pascalCase s = capsFrom true (markCase false s) := (capsFrom_alnumRuns _).1.symm

theorem isAlphanum_of_mem_capsFrom {fresh : Bool} (h : c ∈ capsFrom fresh s) :
    c.isAlphanum = true := by
  induction s generalizing fresh with
  | nil => cases h
  | cons d s ih =>
      rw [capsFrom] at h
      split at h
      · next hd =>
        rcases List.mem_cons.mp h with rfl | h
        · split
          · exact isAlphanum_of_isBig (isBig_toUpper hd)
          · exact isAlphanum_of_isSmall (isSmall_toLower hd)
        · exact ih h
      · exact ih h

/-- A name in one word is made of letters and digits. -/
theorem isAlphanum_of_mem_pascalCase (h : c ∈ pascalCase s) : c.isAlphanum = true := by
  rw [pascalCase_eq_capsFrom] at h
  exact isAlphanum_of_mem_capsFrom h

theorem mem_markCase (h : c ∈ s) : c ∈ markCase b s := by
  fun_induction markCase b s with
  | case1 => exact h
  | case2 => exact h
  | case3 b d e rest _ _ ih =>
      rcases List.mem_cons.mp h with rfl | h
      · exact List.mem_cons_self
      · rcases List.mem_cons.mp h with rfl | h
        · simp
        · simp [ih h]
  | case4 b d e rest _ _ ih =>
      rcases List.mem_cons.mp h with rfl | h
      · exact List.mem_cons_self
      · exact List.mem_cons_of_mem _ (ih h)
  | case5 b d e rest _ _ _ ih =>
      rcases List.mem_cons.mp h with rfl | h
      · simp
      · rcases List.mem_cons.mp h with rfl | h
        · simp
        · simp [ih h]
  | case6 b d e rest _ _ _ ih =>
      rcases List.mem_cons.mp h with rfl | h
      · exact List.mem_cons_self
      · exact List.mem_cons_of_mem _ (ih h)
  | case7 b d e rest _ _ ih =>
      rcases List.mem_cons.mp h with rfl | h
      · exact List.mem_cons_self
      · exact List.mem_cons_of_mem _ (ih h)

theorem capsFrom_ne_nil {fresh : Bool} (h : c ∈ s) (hc : c.isAlphanum = true) :
    capsFrom fresh s ≠ [] := by
  induction s generalizing fresh with
  | nil => cases h
  | cons d s ih =>
      rw [capsFrom]
      split
      · simp
      · next hd =>
        rcases List.mem_cons.mp h with rfl | h
        · exact absurd hc hd
        · exact ih h

/-- A name with a letter or digit is not empty in one word. -/
theorem pascalCase_ne_nil (h : c ∈ s) (hc : c.isAlphanum = true) : pascalCase s ≠ [] := by
  rw [pascalCase_eq_capsFrom]
  exact capsFrom_ne_nil (mem_markCase h) hc

end Flowscript.Naming

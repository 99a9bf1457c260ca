/-
  Flowscript.Proofs.EditRules

  What the rules for separators depend on.

  Each line is under one of the two rules, by the bracket it is in.  A line that has the
  separator its style asks for, or has none where the style asks for none, is left alone
  (`lineEdit_eq_keep`), and lines that agree in what the rules look at are treated alike
  (`lineEdit_congr`).
-/
import Flowscript.Proofs.LineStart

namespace Flowscript.Format

open Text

variable {style : CodeStyle} {l l' : Line} {f f' : Option Line}

-- ============================================================================
-- The rule for a line
-- ============================================================================

/-- The separator that the line may end with. -/
def Line.separator (l : Line) : Char := if inStatements l then ';' else ','

/-- The style asks for the separator. -/
def Line.isWanted (style : CodeStyle) (l : Line) : Bool :=
  if inStatements l then style.semicolons else style.trailingCommas

theorem isLastItem_eq_false (h : inStatements l = true) : isLastItem l f = false := by
  rw [inStatements, Bool.or_eq_true, decide_eq_true_eq, decide_eq_true_eq] at h
  unfold isLastItem
  rcases h with h | h
  · rw [h]
  · rw [h]

theorem commaEdit_of_inStatements (h : inStatements l = true) : commaEdit style l f = .keep := by
  rw [commaEdit, isLastItem_eq_false h]
  simp

theorem semicolonEdit_of_not_inStatements (h : inStatements l = false) :
    semicolonEdit style l f = .keep := by
  rw [inStatements, Bool.or_eq_false_iff, decide_eq_false_iff_not, decide_eq_false_iff_not] at h
  rw [semicolonEdit, if_pos]
  simp [h.1, h.2]

theorem lineEdit_of_not_isOpenEnded (h : isOpenEnded l = false) : lineEdit style l f = .keep := by
  rw [lineEdit, commaEdit, semicolonEdit, h]
  rfl

/-- The rule that a line is under decides on its edit. -/
theorem lineEdit_eq (style : CodeStyle) (l : Line) (f : Option Line) :
    lineEdit style l f =
      if inStatements l then semicolonEdit style l f else commaEdit style l f := by
  rw [lineEdit]
  cases h : inStatements l with
  | true => rw [commaEdit_of_inStatements h]; rfl
  | false =>
      rw [semicolonEdit_of_not_inStatements h]
      cases commaEdit style l f <;> rfl

/-- An edit gives the line the separator that the style asks for, or takes one that it does not
ask for. -/
theorem lineEdit_cases (style : CodeStyle) (l : Line) (f : Option Line) :
    lineEdit style l f = .keep ∨
      (l.isWanted style = true ∧ lineEdit style l f = .insert l.separator) ∨
      (l.isWanted style = false ∧ lineEdit style l f = .remove ∧
        l.finalChar? = some l.separator) := by
  rw [lineEdit_eq, Line.isWanted, Line.separator]
  cases inStatements l with
  | true =>
      rcases semicolonEdit_cases style l f with h | ⟨-, -, ⟨hstyle, h⟩ | ⟨hstyle, hlast, h⟩⟩
      · exact .inl h
      · exact .inr (.inl ⟨hstyle, h⟩)
      · exact .inr (.inr ⟨hstyle, h, hlast⟩)
  | false =>
      rcases commaEdit_cases style l f with h | ⟨-, -, ⟨hstyle, h⟩ | ⟨hstyle, hlast, h⟩⟩
      · exact .inl h
      · exact .inr (.inl ⟨hstyle, h⟩)
      · exact .inr (.inr ⟨hstyle, h, hlast⟩)

/-- A line that has what the style asks for is left alone. -/
theorem lineEdit_eq_keep
    (h : if l.isWanted style then l.finalChar? = some l.separator
      else l.finalChar? ≠ some l.separator) : lineEdit style l f = .keep := by
  rcases lineEdit_cases style l f with hkeep | ⟨hwanted, hinsert⟩ | ⟨hwanted, -, hlast⟩
  · exact hkeep
  · rw [hwanted, if_pos rfl] at h
    -- no rule puts a separator after a separator
    rw [Line.separator] at h hinsert
    rw [lineEdit_eq] at hinsert
    cases hin : inStatements l with
    | true =>
        rw [hin, if_pos rfl] at h
        rw [hin, if_pos rfl, if_pos rfl, semicolonEdit, h] at hinsert
        simp only [Option.getD_some] at hinsert
        split at hinsert
        · cases hinsert
        · split at hinsert
          · rw [if_pos (by simp [continuesAfter])] at hinsert
            cases hinsert
          · split at hinsert <;> cases hinsert
    | false =>
        rw [hin, if_neg (by simp)] at h
        rw [hin, if_neg (by simp), if_neg (by simp), commaEdit, h] at hinsert
        simp only [Option.getD_some] at hinsert
        split at hinsert
        · cases hinsert
        · split at hinsert
          · rw [if_pos (by decide)] at hinsert
            cases hinsert
          · split at hinsert <;> cases hinsert
  · rw [hwanted, if_neg (by simp)] at h
    exact absurd hlast h

-- ============================================================================
-- Lines that are treated alike
-- ============================================================================

/-- Two lines agree in what the rules look at. -/
structure SameEnd (l l' : Line) : Prop where
  ends : l'.ends = l.ends
  bearsCode : l'.bearsCode = l.bearsCode
  innermost : l'.innermost = l.innermost
  lastClosed : l'.lastClosed = l.lastClosed
  finalChar : l'.finalChar? = l.finalChar?
  leading : l'.leadingCode = l.leadingCode
  text : trimStart l'.text = trimStart l.text
  code : trimStart l'.code = trimStart l.code

theorem SameEnd.isLastItem_eq (h : SameEnd l l') (hf : SameStart (nextStart f) (nextStart f')) :
    isLastItem l' f' = isLastItem l f := by
  unfold isLastItem
  rw [h.innermost, hf.starts ['}'] (by decide), hf.starts [']'] (by decide)]

theorem SameEnd.isOpenEnded_eq (h : SameEnd l l') : isOpenEnded l' = isOpenEnded l := by
  rw [isOpenEnded, isOpenEnded, h.bearsCode, h.ends]

theorem SameEnd.opensStatement_eq (h : SameEnd l l') :
    opensStatement l'.code = opensStatement l.code := by
  have htrim : trim l'.code = trim l.code := congrArg trimEnd h.code
  unfold opensStatement
  rw [htrim]

theorem lineEdit_congr (h : SameEnd l l') (hf : SameStart (nextStart f) (nextStart f')) :
    lineEdit style l' f' = lineEdit style l f := by
  have htrim : trim l'.text = trim l.text := congrArg trimEnd h.text
  have hresuming : startsWithAny resumingStarts (nextStart f') =
      startsWithAny resumingStarts (nextStart f) := (hf.startsWithAny_eq (by decide)).symm
  have hhazard : startsWithAny hazardStarts (nextStart f') =
      startsWithAny hazardStarts (nextStart f) := (hf.startsWithAny_eq (by decide)).symm
  have hdots := hf.starts ['.', '.', '.'] (by decide)
  have hcomma : commaEdit style l' f' = commaEdit style l f := by
    unfold commaEdit
    rw [h.isOpenEnded_eq, h.isLastItem_eq hf, h.text, h.finalChar]
  have hsemicolon : semicolonEdit style l' f' = semicolonEdit style l f := by
    unfold semicolonEdit
    simp only
    rw [h.isOpenEnded_eq, h.innermost, h.leading, h.finalChar, h.lastClosed, hresuming, hhazard,
      ← hdots, h.opensStatement_eq, htrim]
  rw [lineEdit, lineEdit, hcomma, hsemicolon]

end Flowscript.Format

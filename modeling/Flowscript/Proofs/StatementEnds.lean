/-
  Flowscript.Proofs.StatementEnds

  Semicolons that are taken away, and what comes after them.

  Whether a statement keeps its semicolon is decided by the line that is looked at next:
  the next one with code, or one before it that starts in a comment
  (`following?_linesAfter`).  A line of the second kind shows no code, and of the texts
  that go on with a statement only some are looked for, so a statement may be joined with
  the next one (`continued_iff_of_removed`).
-/
import Flowscript.Proofs.Indentation
import Flowscript.Proofs.SecondPass

namespace Flowscript.Format

open Text

variable {style : CodeStyle} {c : Carry} {l n : Line} {f : Option Line} {rest : List Line}
  {raws : List (List Char)} {code : List Char}

-- ============================================================================
-- The next line with code
-- ============================================================================

/-- The next line that has code. -/
def nextCode? (lines : List Line) : Option Line := lines.find? Line.bearsCode

/-- The lines before the next one that has code. -/
def untilCode (lines : List Line) : List Line := lines.takeWhile (!·.bearsCode)

/-- A line without code does not end inside of a template literal, unless it starts there. -/
theorem Line.Sound.ends_ne_template (h : l.Sound) (hstarts : l.starts ≠ .template)
    (hquiet : l.bearsCode = false) : l.ends ≠ .template := by
  intro hends
  have hreads := h.reads
  rw [hends] at hreads
  obtain ⟨ss, b, hss⟩ := hreads.exists_open_template hstarts
  rw [h.bearsCode_eq, hss, bearCode, List.any_append, Bool.or_eq_false_iff] at hquiet
  have htick : Segment.bears ⟨.template, '`' :: b⟩ = true := by
    rw [Segment.bears, isBlankText_cons, show Text.isBlank '`' = false by decide]
    rfl
  rw [List.any_cons, htick] at hquiet
  cases hquiet.2

theorem Line.Sound.leadingCode_of_quiet (h : l.Sound) (hquiet : l.bearsCode = false) :
    l.leadingCode = [] := by
  rw [h.bearsCode_eq, bearCode, List.any_eq_false] at hquiet
  have hnone : (l.segments.find? fun s => s.kind ≠ .comment && !isBlankText s.text) = none :=
    List.find?_eq_none.mpr hquiet
  rw [Line.leadingCode, Format.leadingCode, hnone]

/-- The line that is looked at next is the next one with code, unless a line before that starts in
a comment. -/
theorem following?_linesAfter (hmode : c.mode ≠ .template)
    (hn : nextCode? (linesAfter c raws) = some n) :
    (following? (linesAfter c raws) = some n ∧
        ∀ k ∈ untilCode (linesAfter c raws), k.starts = .code) ∨
      ((∃ k ∈ untilCode (linesAfter c raws), k.starts = .comment) ∧
        nextStart (following? (linesAfter c raws)) = []) := by
  induction raws generalizing c with
  | nil => cases hn
  | cons raw raws ih =>
      have hsound := sound_lineOf c raw
      have hstarts := starts_lineOf c raw
      rw [linesAfter] at hn ⊢
      simp only [nextCode?, untilCode, following?] at hn ⊢
      cases hbears : (lineOf c raw).1.bearsCode with
      | true =>
          rw [List.find?_cons_of_pos hbears] at hn
          cases hn
          rw [List.find?_cons_of_pos (by simp [hbears]),
            List.takeWhile_cons_of_neg (by simp [hbears])]
          exact .inl ⟨rfl, List.forall_mem_nil _⟩
      | false =>
          rw [List.find?_cons_of_neg (by simp [hbears])] at hn
          rw [List.takeWhile_cons_of_pos (by simp [hbears])]
          have hends := hsound.ends_ne_template (by rwa [hstarts]) hbears
          cases hm : c.mode with
          | template => exact absurd hm hmode
          | code =>
              rw [hm] at hstarts
              rw [List.find?_cons_of_neg (by simp [hm, hbears])]
              rcases ih hends hn with ⟨hf, hcode⟩ | ⟨⟨k, hk, hcomment⟩, hf⟩
              · exact .inl ⟨hf, List.forall_mem_cons.mpr ⟨hstarts, hcode⟩⟩
              · exact .inr ⟨⟨k, List.mem_cons_of_mem _ hk, hcomment⟩, hf⟩
          | comment =>
              rw [hm] at hstarts
              rw [List.find?_cons_of_pos (by simp [hm])]
              refine .inr ⟨⟨_, List.mem_cons_self, hstarts⟩, ?_⟩
              exact hsound.leadingCode_of_quiet hbears

/-- Each line of a program follows from what the lines before leave, and leaves what the lines after
it follow from. -/
theorem exists_lineOf_of_suffix (h : l :: rest <:+ linesAfter c raws) :
    ∃ c' raw raws', l = (lineOf c' raw).1 ∧ rest = linesAfter (lineOf c' raw).2 raws' := by
  induction raws generalizing c with
  | nil => simp [linesAfter] at h
  | cons raw raws ih =>
      rw [linesAfter] at h
      rcases List.suffix_cons_iff.mp h with heq | h
      · cases heq
        exact ⟨c, raw, raws, rfl, rfl⟩
      · exact ih h

-- ============================================================================
-- Semicolons
-- ============================================================================

/-- The text starts with an operator that a statement goes on with.  Three dots are none. -/
def resumesStatement (s : List Char) : Bool :=
  startsWithAny resumingStarts s && !startsWith ['.', '.', '.'] s

/-- The text would be taken as a part of a statement before it that has no end. -/
def continuesStatement (s : List Char) : Bool := startsWithAny hazardStarts s || resumesStatement s

/-- A semicolon stays if what is looked at next would be taken as a part of the statement. -/
theorem not_hazard_of_semicolonEdit (hstyle : style.semicolons = false)
    (h : semicolonEdit style l f = .remove) : startsWithAny hazardStarts (nextStart f) = false := by
  unfold semicolonEdit at h
  split at h
  · cases h
  · simp only [hstyle, Bool.false_eq_true, if_false] at h
    split at h
    · next hguard =>
      simp only [Bool.and_eq_true, Bool.not_eq_true'] at hguard
      exact hguard.2
    · cases h

theorem Line.Sound.finalChar?_requoted {sep : Char} (h : l.Sound) (style : CodeStyle)
    (hsep : isQuote sep = false) (hlast : l.finalChar? = some sep) :
    (l.requoted style).finalChar? = some sep := by
  have hcode := congrArg List.getLast? (h.map_plainQuote_code style).1
  rw [List.getLast?_map, List.getLast?_map, show l.code.getLast? = some sep from hlast,
    Option.map_some, (plainQuote_eq_iff hsep).mpr rfl] at hcode
  obtain ⟨d, hd, hplain⟩ := Option.map_eq_some_iff.mp hcode
  rw [plainQuote_eq_iff hsep] at hplain
  rw [Line.finalChar?, hd, hplain]

/-- The line loses the semicolon that its code ends with. -/
def Line.LosesSemicolon (style : CodeStyle) (l : Line) (rest : List Line) : Prop :=
  l.finalChar? = some ';' ∧ l.edit style (following? rest) = .remove

theorem Line.LosesSemicolon.not_hazard (h : l.LosesSemicolon style rest) (hsound : l.Sound)
    (hstyle : style.semicolons = false) :
    startsWithAny hazardStarts (nextStart (following? rest)) = false := by
  obtain ⟨hlast, hedit⟩ := h
  have hlast' := hsound.finalChar?_requoted style (by decide) hlast
  rw [Line.edit] at hedit
  -- a line that is not under the rule for semicolons loses a comma
  have hstatements : inStatements (l.requoted style) = true := by
    rcases lineEdit_cases style (l.requoted style) (following? rest) with
      hkeep | ⟨-, hinsert⟩ | ⟨-, -, hsep⟩
    · rw [hkeep] at hedit
      cases hedit
    · rw [hinsert] at hedit
      cases hedit
    · rw [hlast', Line.separator] at hsep
      by_contra hnot
      rw [if_neg hnot] at hsep
      cases hsep
  rw [lineEdit_eq, if_pos hstatements] at hedit
  exact not_hazard_of_semicolonEdit hstyle hedit

/-- What comes after a semicolon that is taken away continues the statement exactly if it starts
with an operator, or it is hidden by a comment of several lines.  In the second case it may also
start with a parenthesis, a bracket or a backtick, and with these in no other. -/
theorem continued_iff_of_removed (style : CodeStyle) (code : List Char)
    (hstyle : style.semicolons = false) (hmem : l :: rest <:+ linesOf code)
    (hloses : l.LosesSemicolon style rest) (hn : nextCode? rest = some n) :
    lineText style l (following? rest) =
        (l.requoted style).code.dropLast ++ (l.requoted style).rest ∧
      (continuesStatement n.leadingCode = true ↔
        resumesStatement n.leadingCode = true ∨
          startsWithAny hazardStarts n.leadingCode = true ∧
            ∃ k ∈ untilCode rest, k.starts = .comment) := by
  obtain ⟨c, raw, raws, rfl, rfl⟩ := exists_lineOf_of_suffix hmem
  have hsound := sound_lineOf c raw
  refine ⟨hsound.lineText_of_remove hloses.2, ?_⟩
  have hhazard := hloses.not_hazard hsound hstyle
  have hends : (lineOf c raw).1.ends ≠ .template := by
    rw [ends_of_remove hloses.2]
    simp
  rw [continuesStatement, Bool.or_eq_true]
  constructor
  · rintro (hstart | hresumes)
    · refine .inr ⟨hstart, ?_⟩
      rcases following?_linesAfter hends hn with ⟨hf, -⟩ | ⟨hcomment, -⟩
      · rw [hf, nextStart, hstart] at hhazard
        cases hhazard
      · exact hcomment
    · exact .inl hresumes
  · rintro (hresumes | ⟨hstart, -⟩)
    · exact .inr hresumes
    · exact .inl hstart

/-- A statement with comments and a blank line before the next one. -/
def commentedStatement : List Char := "a(); // b\n\n/* c\n   d */\ne;\n".toList

theorem commentedStatement_not_continued :
    ∃ l rest n, linesOf commentedStatement = l :: rest ∧
      l.LosesSemicolon { semicolons := false } rest ∧ nextCode? rest = some n ∧
      continuesStatement n.leadingCode = false := by
  refine ⟨_, _, _, rfl, ⟨by decide, by decide⟩, rfl, ?_⟩
  rw [← Bool.not_eq_true, (continued_iff_of_removed { semicolons := false } commentedStatement rfl
    List.suffix_rfl ⟨by decide, by decide⟩ rfl).2]
  decide

-- The next line starts with an operator, or it is behind a comment of two lines.
example : format { semicolons := false } "a;\n/b/.test(c)".toList = "a\n/b/.test(c)\n".toList ∧
    format { semicolons := false } "a;\n/*\n*/\n(b)".toList = "a\n/*\n */\n(b)\n".toList := by
  decide

end Flowscript.Format

/-
  Flowscript.Proofs.Idempotence

  Formatting what is formatted.

  Formatting is to be idempotent.  It is, for programs that end outside of template
  literals and are settled (`isSettled`): whatever separator is taken from a line goes for
  good, and no edit changes what a brace at the start of the next line opens.  The proof
  follows both passes line by line.  They carry the same mode, level and open brackets,
  and every line of the second one is left as it is.
-/
import Flowscript.Proofs.SecondPass
import Flowscript.Proofs.TemplateText

namespace Flowscript.Format

open Text

variable {style : CodeStyle} {c c' : Carry} {l l' : Line} {f f' : Option Line} {m : Mode}
  {base ss : List Segment} {raw t : List Char} {raws : List (List Char)}
  {outs : List OutputLine} {started gap : Bool}

-- ============================================================================
-- Settled programs
-- ============================================================================

/-- The code of a text that starts in a mode. -/
def codeText (m : Mode) (t : List Char) : List Char := codeOf (scan m t).segments

/-- The next line that has code starts with a brace. -/
def opensBrace (lines : List Line) : Bool :=
  match lines.find? (·.bearsCode) with
  | some l => l.starts = .code && l.text.head? = some '{'
  | none => false

/-- What is done to the line settles it: a separator is taken from it only for good, and a brace
on the next line opens what it opens after the line as it is. -/
def Line.isSettled (style : CodeStyle) (l : Line) (rest : List Line) : Bool :=
  (l.edit style (following? rest) ≠ .remove || l.isRemovable) &&
    (!opensBrace rest ||
      braceKind (trimEnd l.code) =
        braceKind (trimEnd (codeText l.starts (lineText style l (following? rest)))))

/-- Every line is settled by what is done to it. -/
def isSettled (style : CodeStyle) : List Line → Bool
  | [] => true
  | l :: rest => l.isSettled style rest && isSettled style rest

theorem Line.allows_of_isSettled {rest : List Line} (h : l.isSettled style rest = true) :
    l.Allows (l.edit style (following? rest)) := by
  rw [Line.isSettled, Bool.and_eq_true, Bool.or_eq_true, decide_eq_true_eq] at h
  exact fun hremove => h.1.resolve_left (absurd hremove)

theorem Line.braceKind_of_isSettled {rest : List Line} (h : l.isSettled style rest = true)
    (hbrace : opensBrace rest = true) :
    braceKind (trimEnd l.code) =
      braceKind (trimEnd (codeText l.starts (lineText style l (following? rest)))) := by
  rw [Line.isSettled, Bool.and_eq_true, hbrace, Bool.not_true, Bool.false_or,
    decide_eq_true_eq] at h
  exact h.2

-- ============================================================================
-- A line in both passes
-- ============================================================================

/-- The output for a line. -/
def Line.output (style : CodeStyle) (l : Line) (f : Option Line) : OutputLine :=
  indentLine style l (lineText style l f)

/-- The output for a line, read from another carry. -/
def Line.again (style : CodeStyle) (l : Line) (f : Option Line) (c' : Carry) : Line :=
  (lineOf c' (l.output style f).text).1

/-- What the output for a line reads as. -/
structure Line.Rescanned (style : CodeStyle) (l : Line) (f : Option Line) (l' : Line)
    (base ss : List Segment) : Prop where
  retouched : l.Retouched style (l.edit style f) base ss
  text : textOf ss = lineText style l f
  ends : l'.ends = l.ends
  reread : Reread l ss l'.segments
  text' : l'.text = if l.starts = .comment then (l.output style f).text else textOf ss

theorem Line.Sound.exists_rescanned (h : l.Sound) (hallows : l.Allows (l.edit style f))
    (hmode : c'.mode = l.starts) : ∃ base ss, l.Rescanned style f (l.again style f c') base ss := by
  obtain ⟨base, ss, hr, htext⟩ := h.exists_retouched hallows
  obtain ⟨hstart, hend⟩ := h.solid_lineText hallows
  rw [← htext] at hstart hend
  have hindented := indented_indentLine style l (lineText style l f)
  rw [← htext] at hindented
  obtain ⟨hends, hreread, htext'⟩ := hr.reread h hallows hmode hstart hend hindented
  rw [htext] at hends hreread htext'
  exact ⟨base, ss, hr, htext, hends, hreread, by rw [htext]; exact htext'⟩

theorem Line.Rescanned.bearsCode_eq (hrescanned : l.Rescanned style f l' base ss) (h : l.Sound)
    (h' : l'.Sound) (hallows : l.Allows (l.edit style f)) : l'.bearsCode = l.bearsCode := by
  rw [h'.bearsCode_eq, hrescanned.reread.bearCode_eq, hrescanned.retouched.bearCode_eq h hallows,
    h.bearsCode_eq]

theorem Line.Rescanned.isBlank_eq (hrescanned : l.Rescanned style f l' base ss) (h : l.Sound)
    (hallows : l.Allows (l.edit style f)) : l'.isBlank = l.isBlank := by
  have htrim : trim l'.text = trim (textOf ss) := by
    rw [hrescanned.text']
    split
    · rw [Line.output, (indented_indentLine style l _).trim_eq, hrescanned.text]
    · rfl
  rw [← hrescanned.retouched.isBlankText_eq h hallows, Line.isBlank, Bool.eq_iff_iff,
    ← trim_eq_nil_iff, ← trim_eq_nil_iff, htrim]

theorem Line.Rescanned.sameStart (hrescanned : l.Rescanned style f l' base ss) (h : l.Sound)
    (hallows : l.Allows (l.edit style f)) : SameStart l.leadingCode l'.leadingCode :=
  (hrescanned.retouched.sameStart h hallows).trans hrescanned.reread.sameStart

theorem Line.Rescanned.braceKind_eq (hrescanned : l.Rescanned style f l' base ss) (h' : l'.Sound) :
    braceKind (trimEnd l'.code) =
      braceKind (trimEnd (codeText l.starts (lineText style l f))) := by
  have hscan := scan_eq_iff.mpr ⟨hrescanned.retouched.reads, hrescanned.text⟩
  rw [codeText, hscan, h'.code_eq]
  exact braceKind_congr hrescanned.reread.gist_codeOf

/-- Both carries leave the same to the next line, the code before it apart. -/
structure SameCarry (c c' : Carry) : Prop where
  mode : c'.mode = c.mode
  stack : c'.stack = c.stack
  level : c'.level = c.level

/-- The brackets of a line. -/
def lineBrackets (c : Carry) (level : Nat) (ss : List Segment) : Brackets :=
  Brackets.followAll level c.tail { stack := c.stack } [] ss

theorem level_lineOf (c : Carry) (raw : List Char) :
    (lineOf c raw).1.level = levelOf c.mode (lineOf c raw).1.segments c.stack c.level := rfl

theorem stack_lineOf (c : Carry) (raw : List Char) :
    (lineOf c raw).2.stack =
      (lineBrackets c (lineOf c raw).1.level (lineOf c raw).1.segments).stack := rfl

theorem lastClosed_lineOf (c : Carry) (raw : List Char) :
    (lineOf c raw).1.lastClosed =
      (lineBrackets c (lineOf c raw).1.level (lineOf c raw).1.segments).lastClosed := rfl

theorem innermost_lineOf (c : Carry) (raw : List Char) :
    (lineOf c raw).1.innermost = (lineOf c raw).2.stack.head?.map (·.1) := rfl

theorem tail_lineOf (c : Carry) (raw : List Char) :
    (lineOf c raw).2.tail =
      if (lineOf c raw).1.bearsCode then (lineOf c raw).1.code else c.tail := rfl

theorem carried_level_lineOf (c : Carry) (raw : List Char) :
    (lineOf c raw).2.level =
      if c.mode = .template || (lineOf c raw).1.isBlank then c.level
      else (lineOf c raw).1.level := rfl

/-- The code before the line leads both passes to the same kind of brace, if the line starts with
one. -/
def SameBrace (c c' : Carry) (l : Line) : Prop :=
  l.starts = .code → l.text.head? = some '{' →
    braceKind (trimEnd c.tail) = braceKind (trimEnd c'.tail)

/-- Other quotes and another carry make no difference to the brackets. -/
theorem lineBrackets_again (hc : SameCarry c c')
    (hr : (lineOf c raw).1.Rescanned style f l' base ss)
    (hbrace : SameBrace c c' (lineOf c raw).1) (level : Nat) :
    lineBrackets c level (lineOf c raw).1.segments = lineBrackets c' level base := by
  have h := sound_lineOf c raw
  rw [lineBrackets, lineBrackets, hc.stack]
  refine Brackets.followAll_congr _ hr.retouched.alike rfl fun _ hfirst => ?_
  have hstarts := h.reads.starts_of_bracesFirst hfirst
  exact hbrace hstarts
    (head?_of_bracesFirst hfirst (h.startsSolid hstarts) h.reads.text_ne_nil)

theorem indentLine_congr (hlevel : l'.level = l.level) (hstarts : l'.starts = l.starts) :
    indentLine style l' t = indentLine style l t := by
  unfold indentLine
  rw [hlevel, hstarts]

/-- The output for a line in a comment has its margin already. -/
theorem indentLine_indentLine (hstarts : l.starts = .comment) (t : List Char) :
    indentLine style l (indentLine style l t).text = indentLine style l t := by
  have htrim := (indented_indentLine style l t).trim_eq
  simp only [indentLine, hstarts, List.isEmpty_iff] at htrim ⊢
  split
  · rfl
  · next hne =>
    split
    · next hstar =>
      rw [if_neg hne, if_pos hstar] at htrim
      rw [htrim, if_neg hne, if_pos hstar]
    · next hstar => rw [trim_trimEnd, if_neg hne, if_neg hstar, trimEnd_trimEnd]

/-- Where nothing was inserted or removed, and the line ends in code, so that there is no white
space to lose at its end, only the start of the line may have changed. -/
theorem releads_again
    (hr : (lineOf c raw).1.Rescanned style f ((lineOf c raw).1.again style f c') base ss)
    (hkeep : (lineOf c raw).1.edit style f = .keep)
    (hskip : (lineOf c raw).1.isSkipped = false) (hends : (lineOf c raw).1.ends = .code) :
    ss = base ∧ (((lineOf c raw).1.again style f c').segments = base ∨
      Releads base ((lineOf c raw).1.again style f c').segments) := by
  have hss : ss = base := by
    have htouched := hr.retouched.touched
    rw [hkeep] at htouched
    cases htouched
    rfl
  refine ⟨hss, hr.reread.imp (fun heq => heq.trans hss) fun hreleads => ?_⟩
  obtain ⟨hbase, -⟩ := hr.retouched.quoted hskip
  have hcode : ((lineOf c raw).1.requoted style).ends ≠ .template := by
    rw [show ((lineOf c raw).1.requoted style).ends = .code from hends]
    simp
  have hsolid : EndsSolid (textOf base) :=
    hbase ▸ ((sound_lineOf c raw).requoted style).endsSolid hcode
  have htrim := hreleads.2
  rw [hss, trimEndSegments_eq_self (hss ▸ hr.retouched.reads.text_ne_nil) hsolid] at htrim
  exact htrim

section
variable (hc : SameCarry c c') (hallows : (lineOf c raw).1.Allows ((lineOf c raw).1.edit style f))
  (hr : (lineOf c raw).1.Rescanned style f ((lineOf c raw).1.again style f c') base ss)
include hc hallows hr

theorem level_again : ((lineOf c raw).1.again style f c').level = (lineOf c raw).1.level := by
  have hlevel := levelOf_congr (m := c.mode) (hr.sameStart (sound_lineOf c raw) hallows)
    c.stack c.level
  rw [level_lineOf c raw, hlevel, ← hc.mode, ← hc.stack, ← hc.level]
  rfl

variable (hbrace : SameBrace c c' (lineOf c raw).1)
include hbrace

theorem stack_again :
    (lineOf c' ((lineOf c raw).1.output style f).text).2.stack = (lineOf c raw).2.stack := by
  have hlevel := level_again hc hallows hr
  rw [Line.again] at hlevel
  rw [stack_lineOf, stack_lineOf, hlevel, lineBrackets_again hc hr hbrace, lineBrackets,
    lineBrackets, Brackets.stack_followAll, Brackets.stack_followAll]
  exact hr.reread.openAll_eq.trans hr.retouched.openAll_eq

theorem sameCarry_again :
    SameCarry (lineOf c raw).2 (lineOf c' ((lineOf c raw).1.output style f).text).2 := by
  have hlevel := level_again hc hallows hr
  have hblank := hr.isBlank_eq (sound_lineOf c raw) hallows
  rw [Line.again] at hlevel hblank
  refine ⟨?_, stack_again hc hallows hr hbrace, ?_⟩
  · rw [mode_lineOf, mode_lineOf]
    exact hr.ends
  · rw [carried_level_lineOf, carried_level_lineOf, hlevel, hblank, hc.mode, hc.level]

/-- Where nothing was inserted or removed, the second pass sees what the first one saw. -/
theorem sameEnd_again (hkeep : (lineOf c raw).1.edit style f = .keep)
    (hskip : (lineOf c raw).1.isSkipped = false) (hends : (lineOf c raw).1.ends = .code) :
    SameEnd ((lineOf c raw).1.requoted style) ((lineOf c raw).1.again style f c') := by
  have h := sound_lineOf c raw
  have hq := h.requoted style
  have h' : ((lineOf c raw).1.again style f c').Sound := sound_lineOf _ _
  obtain ⟨hbase, -⟩ := hr.retouched.quoted hskip
  obtain ⟨hss, hreread⟩ := releads_again hr hkeep hskip hends
  have hbrackets : ∀ level, lineBrackets c' level
      ((lineOf c raw).1.again style f c').segments = lineBrackets c' level base := by
    intro level
    rcases hreread with heq | hreleads
    · rw [heq]
    · exact (hreleads.followAll_eq _).symm
  have hstack := stack_again hc hallows hr hbrace
  have hlevel := level_again hc hallows hr
  refine ⟨hr.ends, hr.bearsCode_eq h h' hallows, ?_, ?_, ?_, ?_, ?_, ?_⟩
  · rw [Line.again, innermost_lineOf, hstack]
    rfl
  · rw [Line.again, lastClosed_lineOf]
    rw [Line.again] at hlevel hbrackets
    rw [hlevel, hbrackets, ← lineBrackets_again hc hr hbrace]
    rfl
  · rw [h'.finalChar?_eq, hq.finalChar?_eq, hr.reread.programOf_eq, hss, hbase]
    rfl
  · rcases hreread with heq | hreleads
    · rw [Line.leadingCode, heq, hbase]
      rfl
    · rw [Line.leadingCode, hreleads.leadingCode_eq, hbase]
      rfl
  · rcases hreread with heq | hreleads
    · rw [Line.text, heq, hbase]
      rfl
    · rw [Line.text, hreleads.trimStart_eq.1, hbase]
      rfl
  · rw [h'.code_eq, hq.code_eq]
    rcases hreread with heq | hreleads
    · rw [heq, hbase]
      rfl
    · rw [hreleads.trimStart_eq.2, hbase]
      rfl

/-- The second pass leaves the line as it is. -/
theorem lineEdit_again (hskip : (lineOf c raw).1.isSkipped = false)
    (hf : SameStart (nextStart f) (nextStart f')) :
    lineEdit style ((lineOf c raw).1.again style f c') f' = .keep := by
  have h := sound_lineOf c raw
  have hq := h.requoted style
  have h' : ((lineOf c raw).1.again style f c').Sound := sound_lineOf _ _
  obtain ⟨hbase, -⟩ := hr.retouched.quoted hskip
  have hinner : ((lineOf c raw).1.again style f c').innermost =
      ((lineOf c raw).1.requoted style).innermost := by
    rw [Line.again, innermost_lineOf, stack_again hc hallows hr hbrace]
    rfl
  have hin : inStatements ((lineOf c raw).1.again style f c') =
      inStatements ((lineOf c raw).1.requoted style) := by
    rw [inStatements, inStatements, hinner]
  have hfinal : ((lineOf c raw).1.again style f c').finalChar? = (programOf ss).getLast? := by
    rw [h'.finalChar?_eq, hr.reread.programOf_eq]
  have htouched := hr.retouched.touched
  rcases lineEdit_cases style ((lineOf c raw).1.requoted style) f with
    hkeep | ⟨hwanted, hinsert⟩ | ⟨hwanted, hremove, hlast⟩
  · cases hopen : isOpenEnded ((lineOf c raw).1.again style f c') with
    | false => exact lineEdit_of_not_isOpenEnded hopen
    | true =>
        have hends := (isOpenEnded_iff.mp hopen).2
        rw [hr.ends] at hends
        exact (lineEdit_congr (sameEnd_again hc hallows hr hbrace hkeep hskip hends) hf).trans
          hkeep
  · refine lineEdit_eq_keep ?_
    rw [Line.isWanted, Line.separator, hin]
    rw [Line.isWanted] at hwanted
    rw [hwanted, if_pos rfl, hfinal]
    rw [Line.edit, hinsert] at htouched
    cases htouched with
    | insert hsep _ hinserted =>
        rw [hinserted.programOf_eq hsep, List.getLast?_concat]
        rfl
  · refine lineEdit_eq_keep ?_
    rw [Line.isWanted, Line.separator, hin]
    rw [Line.isWanted] at hwanted
    rw [hwanted, if_neg (by simp), hfinal]
    rw [Line.edit, hremove] at htouched
    cases htouched with
    | @remove sep _ _ hsep hinserted =>
        have hprogram := hinserted.programOf_eq hsep
        have hsame : some sep = some ((lineOf c raw).1.requoted style).separator := by
          rw [← hlast, hq.finalChar?_eq,
            show ((lineOf c raw).1.requoted style).segments = base from hbase.symm, hprogram,
            List.getLast?_concat]
        rw [← Line.separator, ← hsame]
        exact (h.programOf_removed (hallows hremove) hr.retouched.alike hsep hprogram).2

theorem lineText_again (hf : SameStart (nextStart f) (nextStart f')) :
    lineText style ((lineOf c raw).1.again style f c') f' =
      ((lineOf c raw).1.again style f c').text := by
  have hstarts : ((lineOf c raw).1.again style f c').starts = (lineOf c raw).1.starts := hc.mode
  have hskipped : ((lineOf c raw).1.again style f c').isSkipped = (lineOf c raw).1.isSkipped := by
    rw [Line.isSkipped, Line.isSkipped, hr.isBlank_eq (sound_lineOf c raw) hallows, hstarts,
      hr.ends]
  cases hskip : (lineOf c raw).1.isSkipped with
  | true => exact lineText_of_skipped (hskipped.trans hskip)
  | false =>
      obtain ⟨-, hquoted⟩ := hr.retouched.quoted hskip
      have hself : ((lineOf c raw).1.again style f c').requoted style =
          (lineOf c raw).1.again style f c' := by
        rw [Line.requoted, hr.reread.requote_eq hr.retouched.reads hquoted]
      rw [lineText_of_not_skipped (hskipped.trans hskip), Line.edit, hself,
        lineEdit_again hc hallows hr hbrace hskip hf]
      rfl

theorem output_again (hf : SameStart (nextStart f) (nextStart f')) :
    ((lineOf c raw).1.again style f c').output style f' = (lineOf c raw).1.output style f := by
  have hstarts : ((lineOf c raw).1.again style f c').starts = (lineOf c raw).1.starts := hc.mode
  have hlevel := level_again hc hallows hr
  rw [Line.output, lineText_again hc hallows hr hbrace hf, hr.text',
    indentLine_congr hlevel hstarts]
  split
  · next hcomment => exact indentLine_indentLine hcomment _
  · rw [hr.text]
    rfl

end

-- ============================================================================
-- Programs in both passes
-- ============================================================================

theorem outputLines_cons (style : CodeStyle) (l : Line) (rest : List Line) :
    outputLines style (l :: rest) =
      l.output style (following? rest) :: outputLines style rest := rfl

/-- The code that the rules see after a line. -/
theorem nextStart_cons (l : Line) (rest : List Line) :
    nextStart (following? (l :: rest)) =
      if l.starts ≠ .code || l.bearsCode then l.leadingCode else nextStart (following? rest) := by
  rw [following?, List.find?_cons]
  cases decide (l.starts ≠ .code) || l.bearsCode with
  | true => rfl
  | false => rfl

/-- The first code after a line begins alike in both passes. -/
theorem sameStart_nextStart (hmode : c'.mode = c.mode)
    (hsettled : isSettled style (linesAfter c raws) = true) :
    SameStart (nextStart (following? (linesAfter c raws)))
      (nextStart (following? (linesAfter c'
        ((outputLines style (linesAfter c raws)).map (·.text))))) := by
  induction raws generalizing c c' with
  | nil => exact .refl _
  | cons raw raws ih =>
      rw [linesAfter, isSettled, Bool.and_eq_true] at hsettled
      have h := sound_lineOf c raw
      have hallows := Line.allows_of_isSettled hsettled.1
      obtain ⟨base, ss, hr⟩ := h.exists_rescanned hallows hmode
      have hmode' : (lineOf c' ((lineOf c raw).1.output style
          (following? (linesAfter (lineOf c raw).2 raws))).text).2.mode =
          (lineOf c raw).2.mode := hr.ends
      have hrest := ih hmode' hsettled.2
      have hstarts : ((lineOf c raw).1.again style
          (following? (linesAfter (lineOf c raw).2 raws)) c').starts = (lineOf c raw).1.starts :=
        hmode
      have hbears := hr.bearsCode_eq h (sound_lineOf _ _) hallows
      rw [linesAfter, outputLines_cons, List.map_cons, linesAfter, nextStart_cons, nextStart_cons]
      rw [Line.again] at hstarts hbears
      rw [hstarts, hbears]
      split
      · exact hr.sameStart h hallows
      · exact hrest

theorem opensBrace_cons (l : Line) (rest : List Line) :
    opensBrace (l :: rest) =
      if l.bearsCode then l.starts = .code && l.text.head? = some '{' else opensBrace rest := by
  rw [opensBrace, List.find?_cons]
  cases l.bearsCode with
  | true => rfl
  | false => rfl

theorem Line.Sound.bearsCode_of_head? (h : l.Sound) (hstarts : l.starts = .code)
    (hhead : l.text.head? = some '{') : l.bearsCode = true := by
  have hreads := h.reads
  rw [hstarts] at hreads
  rw [h.bearsCode_eq]
  rw [Line.text] at hhead
  generalize l.segments = ss at hreads hhead
  cases ss with
  | nil => cases hhead
  | cons s ss =>
      by_cases hk : s.kind = .code
      · have hne := hreads.text_ne_nil s List.mem_cons_self
        rw [textOf_cons, List.head?_append_of_ne_nil _ hne] at hhead
        have hsolid : isBlankText s.text = false := by
          rw [← Bool.not_eq_true, isBlankText_iff]
          intro hblank
          cases hblank '{' (List.mem_of_mem_head? hhead)
        rw [bearCode_cons, Segment.bears, hk, hsolid]
        rfl
      · -- literals and comments start with other characters
        have hstop := leavesCode_of_literalFirst hreads
          (literalFirst_cons (k := s.kind) (t := s.text) hk) (by simp)
        obtain ⟨r, hr⟩ := List.head?_eq_some_iff.mp hhead
        rw [hr] at hstop
        cases hstop

/-- The output for lines is the output for what was put out for them. -/
theorem outputLines_again (hc : SameCarry c c')
    (hbrace : opensBrace (linesAfter c raws) = true →
      braceKind (trimEnd c.tail) = braceKind (trimEnd c'.tail))
    (hsettled : isSettled style (linesAfter c raws) = true) :
    outputLines style (linesAfter c' ((outputLines style (linesAfter c raws)).map (·.text))) =
      outputLines style (linesAfter c raws) := by
  induction raws generalizing c c' with
  | nil => rfl
  | cons raw raws ih =>
      rw [linesAfter, isSettled, Bool.and_eq_true] at hsettled
      rw [linesAfter, opensBrace_cons] at hbrace
      have h := sound_lineOf c raw
      have hallows := Line.allows_of_isSettled hsettled.1
      obtain ⟨base, ss, hr⟩ := h.exists_rescanned hallows hc.mode
      have hsame : SameBrace c c' (lineOf c raw).1 := by
        intro hstarts hhead
        refine hbrace ?_
        rw [h.bearsCode_of_head? hstarts hhead, if_pos rfl, hstarts, hhead]
        rfl
      have hcarry := sameCarry_again hc hallows hr hsame
      have hrest := ih hcarry ?_ hsettled.2
      · rw [linesAfter, outputLines_cons, List.map_cons, linesAfter, outputLines_cons, hrest]
        exact congrArg (· :: _) (output_again hc hallows hr hsame
          (sameStart_nextStart hcarry.mode hsettled.2))
      · intro hopens
        have hbears := hr.bearsCode_eq h (sound_lineOf _ _) hallows
        have hkind := hr.braceKind_eq (sound_lineOf _ _)
        rw [Line.again] at hbears hkind
        rw [tail_lineOf, tail_lineOf, hbears]
        split
        · rw [hkind]
          exact Line.braceKind_of_isSettled hsettled.1 hopens
        · next hquiet =>
          refine hbrace ?_
          rw [if_neg hquiet]
          exact hopens

-- ============================================================================
-- Blank lines
-- ============================================================================

/-- Empty lines leave everything to the next line. -/
theorem carry_lineOf_nil (c : Carry) : (lineOf c []).2 = c := by
  obtain ⟨mode, stack, tail, level⟩ := c
  cases mode <;> rfl

theorem lineOf_nil (c : Carry) :
    (lineOf c []).1.bearsCode = false ∧ (lineOf c []).1.leadingCode = [] ∧
      (lineOf c []).1.text = [] := by
  obtain ⟨mode, stack, tail, level⟩ := c
  cases mode <;> exact ⟨rfl, rfl, rfl⟩

/-- Empty lines outside of template literals are put out as such. -/
theorem output_lineOf_nil (hmode : c.mode ≠ .template) (f : Option Line) :
    (lineOf c []).1.output style f = ⟨[], false⟩ := by
  have htext : lineText style (lineOf c []).1 f = [] := by
    rw [lineText_of_skipped, (lineOf_nil c).2.2]
    rw [Line.isSkipped, Line.isBlank, (lineOf_nil c).2.2]
    rfl
  rw [Line.output, htext, indentLine, starts_lineOf]
  cases hm : c.mode with
  | code => rfl
  | template => exact absurd hm hmode
  | comment => rfl

theorem nextStart_nil_cons (c : Carry) (raws : List (List Char)) :
    nextStart (following? (linesAfter c ([] :: raws))) =
      if c.mode = .code then nextStart (following? (linesAfter c raws)) else [] := by
  rw [linesAfter, nextStart_cons, starts_lineOf, (lineOf_nil c).1, (lineOf_nil c).2.1,
    carry_lineOf_nil]
  by_cases hm : c.mode = .code
  · simp [hm]
  · simp [hm]

theorem mode_lineOf_eq (c : Carry) (raw : List Char) :
    (lineOf c raw).2.mode = (scan c.mode raw).mode := (templatesOf_lineOf c raw).2

/-- Left-out blank lines make no difference to the code that follows a written line. -/
theorem nextStart_collapse (hmarked : Marked c.mode outs)
    (hgap : gap = true → c.mode ≠ .template) :
    nextStart (following? (linesAfter c (collapse true gap outs ++ [[]]))) =
      if gap && c.mode = .comment then []
      else nextStart (following? (linesAfter c (outs.map (·.text)))) := by
  induction outs generalizing c gap with
  | nil =>
      rw [collapse, List.nil_append, nextStart_nil_cons]
      simp [linesAfter, following?, nextStart]
  | cons o outs ih =>
      obtain ⟨hliteral, hrest⟩ := hmarked
      rw [collapse, List.map_cons]
      split
      · next hskip =>
        rw [Bool.and_eq_true, Bool.not_eq_true', List.isEmpty_iff] at hskip
        have hm : c.mode ≠ .template := by
          rw [Ne, ← hliteral, hskip.2]
          simp
        rw [hskip.1, scan_nil] at hrest
        rw [ih hrest fun _ => hm, hskip.1, nextStart_nil_cons]
        cases hmode : c.mode with
        | code => simp
        | template => exact absurd hmode hm
        | comment => simp
      · have hsame : nextStart (following? (linesAfter c
            (o.text :: (collapse true false outs ++ [[]])))) =
            nextStart (following? (linesAfter c (o.text :: outs.map (·.text)))) := by
          rw [← mode_lineOf_eq] at hrest
          rw [linesAfter, linesAfter, nextStart_cons, nextStart_cons, ih hrest (by simp)]
          simp
        rw [Bool.and_true]
        split
        · next hopen =>
          subst hopen
          rw [List.cons_append, List.cons_append, nextStart_nil_cons, hsame]
          cases hmode : c.mode with
          | code => simp
          | template => exact absurd hmode (hgap rfl)
          | comment => simp
        · next hclosed =>
          rw [Bool.not_eq_true] at hclosed
          subst hclosed
          rw [List.cons_append, hsame]
          simp

theorem SameEnd.refl (l : Line) : SameEnd l l := ⟨rfl, rfl, rfl, rfl, rfl, rfl, rfl, rfl⟩

theorem output_congr (h : nextStart f' = nextStart f) : l.output style f' = l.output style f := by
  have hf : SameStart (nextStart f) (nextStart f') := h ▸ .refl _
  have hedit : l.edit style f' = l.edit style f := lineEdit_congr (.refl _) hf
  rw [Line.output, Line.output]
  cases hskip : l.isSkipped with
  | true => rw [lineText_of_skipped hskip, lineText_of_skipped hskip]
  | false => rw [lineText_of_not_skipped hskip, lineText_of_not_skipped hskip, hedit]

theorem collapse_of_kept (hkept : ¬ (o.text.isEmpty && !o.literal) = true) :
    collapse started gap (o :: outs) =
      if gap && started then [] :: o.text :: collapse true false outs
      else o.text :: collapse true false outs := by
  rw [collapse, if_neg hkept]

/-- Lines that are put out for themselves are written as before without surplus blank lines. -/
theorem collapse_again (hfixed : outputLines style (linesAfter c (outs.map (·.text))) = outs)
    (hmarked : Marked c.mode outs) (hgap : gap = true → c.mode ≠ .template)
    (hend : endMode c.mode (outs.map (·.text)) ≠ .template) :
    collapse started false
        (outputLines style (linesAfter c (collapse started gap outs ++ [[]]))) =
      collapse started gap outs := by
  induction outs generalizing c started gap with
  | nil =>
      rw [collapse, List.nil_append, linesAfter, outputLines_cons, output_lineOf_nil hend]
      rfl
  | cons o outs ih =>
      obtain ⟨hliteral, hrest⟩ := hmarked
      rw [List.map_cons, linesAfter, outputLines_cons, List.cons.injEq] at hfixed
      obtain ⟨houtput, hfixed⟩ := hfixed
      rw [← mode_lineOf_eq] at hrest
      rw [List.map_cons, endMode, ← mode_lineOf_eq] at hend
      by_cases hskip : (o.text.isEmpty && !o.literal) = true
      · rw [collapse, if_pos hskip]
        rw [Bool.and_eq_true, Bool.not_eq_true', List.isEmpty_iff] at hskip
        have hm : c.mode ≠ .template := by
          rw [Ne, ← hliteral, hskip.2]
          simp
        rw [hskip.1, carry_lineOf_nil] at hfixed hrest hend
        exact ih hfixed hrest (fun _ => hm) hend
      · -- the line is put out once more, and so are the lines after it
        have hlines : outputLines style (linesAfter c
              (o.text :: (collapse true false outs ++ [[]]))) =
            o :: outputLines style (linesAfter (lineOf c o.text).2
              (collapse true false outs ++ [[]])) := by
          rw [linesAfter, outputLines_cons]
          refine congrArg (· :: _) (Eq.trans (output_congr ?_) houtput)
          rw [nextStart_collapse hrest (by simp)]
          simp
        have htail : collapse true false (outputLines style (linesAfter (lineOf c o.text).2
            (collapse true false outs ++ [[]]))) = collapse true false outs :=
          ih hfixed hrest (by simp) hend
        have hwritten : ∀ gap, collapse started gap (outputLines style (linesAfter c
              (o.text :: (collapse true false outs ++ [[]])))) =
            collapse started gap (o :: outs) := by
          intro gap
          rw [hlines, collapse_of_kept hskip, collapse_of_kept hskip, htail]
        rw [collapse_of_kept hskip]
        split
        · next hopen =>
          rw [Bool.and_eq_true] at hopen
          have hblank : outputLines style (linesAfter c
                ([] :: o.text :: (collapse true false outs ++ [[]]))) =
              ⟨[], false⟩ :: outputLines style (linesAfter c
                (o.text :: (collapse true false outs ++ [[]]))) := by
            rw [linesAfter, outputLines_cons, output_lineOf_nil (hgap hopen.1), carry_lineOf_nil]
          rw [List.cons_append, List.cons_append, hblank]
          refine (hwritten true).trans ?_
          rw [collapse_of_kept hskip, hopen.2]
          rfl
        · rw [List.cons_append, hwritten, collapse_of_kept hskip]
          rfl

/-- Formatting is idempotent on programs that end outside of template literals and whose lines are
settled by what is done to them. -/
theorem format_format_of_isSettled (style : CodeStyle) (code : List Char)
    (hend : EndsOutside (unifyNewlines code))
    (hsettled : isSettled style (linesOf code) = true) :
    format style (format style code) = format style code := by
  have hcarry : SameCarry {} {} := ⟨rfl, rfl, rfl⟩
  have hfixed := outputLines_again hcarry (fun _ => rfl) hsettled
  obtain ⟨hmarked, hmode, -, -⟩ :=
    templateLines_outputLines style {} (splitOn '\n' (unifyNewlines code))
  have hcollapse : collapse false false (outputLines style
      (linesAfter {} (written style code ++ [[]]))) = written style code :=
    collapse_again hfixed hmarked (by simp) (hmode ▸ hend)
  have hwritten : written style (format style code) = written style code := by
    rw [written, linesOf, unifyNewlines_format, splitOn_format]
    split
    · next hnil =>
      rw [hnil, List.singleton_append, linesAfter, outputLines_cons, output_lineOf_nil (by decide),
        carry_lineOf_nil, linesAfter, outputLines_cons, output_lineOf_nil (by decide)]
      rfl
    · exact hcollapse
  rw [format_eq style (format style code), hwritten]
  rfl

/-- A style without semicolons. -/
def plainStyle : CodeStyle := { semicolons := false, singleQuotes := false }

/-- A program with separators to remove, and a brace at the start of a line. -/
def bracedProgram : List Char := "f( 'a' ); // b\nif (c)\n\x7b\nd ();\n\x7d".toList

/-- It is settled, so it is formatted once and for all. -/
theorem bracedProgram_settled :
    EndsOutside (unifyNewlines bracedProgram) ∧
      isSettled plainStyle (linesOf bracedProgram) = true ∧
      format plainStyle (format plainStyle bracedProgram) = format plainStyle bracedProgram :=
  have hend : EndsOutside (unifyNewlines bracedProgram) := by
    unfold EndsOutside
    decide
  have hsettled : isSettled plainStyle (linesOf bracedProgram) = true := by decide
  ⟨hend, hsettled, format_format_of_isSettled plainStyle bracedProgram hend hsettled⟩

-- A second semicolon is taken away by the second pass.
example : format plainStyle "a;;".toList = "a;\n".toList ∧
    format plainStyle "a;\n".toList = "a\n".toList := by decide

end Flowscript.Format

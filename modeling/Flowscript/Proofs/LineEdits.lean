/-
  Flowscript.Proofs.LineEdits

  The facts of lines and what is done to them.

  A line is a reading of its text (`reads_lineOf`), without white space at its ends
  except inside of template literals.  Its edit puts one separator after its code, takes
  one away from there, or does nothing (`edits_lineEdit`).
-/
import Flowscript.Proofs.CodeEnd

namespace Flowscript.Format

open Text

variable {style : CodeStyle} {c : Carry} {l : Line} {f : Option Line} {raw : List Char}

-- ============================================================================
-- The facts of a line
-- ============================================================================

/-- The text of a line that starts in a mode, as it is scanned. -/
def scannedText (m : Mode) (raw : List Char) : List Char :=
  if m = .code then trimStart raw else raw

@[simp] theorem starts_lineOf (c : Carry) (raw : List Char) :
    (lineOf c raw).1.starts = c.mode := rfl

@[simp] theorem ends_lineOf (c : Carry) (raw : List Char) :
    (lineOf c raw).1.ends = (scan c.mode (scannedText c.mode raw)).mode := rfl

@[simp] theorem mode_lineOf (c : Carry) (raw : List Char) :
    (lineOf c raw).2.mode = (lineOf c raw).1.ends := rfl

theorem segments_lineOf (c : Carry) (raw : List Char) :
    (lineOf c raw).1.segments =
      if (lineOf c raw).1.ends = .template then
        (scan c.mode (scannedText c.mode raw)).segments
      else trimEndSegments (scan c.mode (scannedText c.mode raw)).segments := rfl

/-- A line is a reading of its text. -/
theorem reads_lineOf (c : Carry) (raw : List Char) :
    Reads c.mode (lineOf c raw).1.segments (lineOf c raw).1.ends := by
  have hreads := (reads_scan c.mode (scannedText c.mode raw)).1
  rw [segments_lineOf]
  split
  · exact hreads
  · next hends => exact hreads.trimEnd (.inr hends)

theorem text_lineOf (c : Carry) (raw : List Char) :
    (lineOf c raw).1.text =
      if (lineOf c raw).1.ends = .template then scannedText c.mode raw
      else trimEnd (scannedText c.mode raw) := by
  have htext := (reads_scan c.mode (scannedText c.mode raw)).2
  rw [Line.text, segments_lineOf]
  split
  · exact htext
  · rw [textOf_trimEndSegments, htext]

theorem trim_text_lineOf (c : Carry) (raw : List Char) :
    trim (lineOf c raw).1.text = trim raw := by
  have hscanned : trim (scannedText c.mode raw) = trim raw := by
    unfold scannedText
    split
    · exact trim_trimStart raw
    · rfl
  rw [text_lineOf]
  split
  · exact hscanned
  · rw [trim_trimEnd, hscanned]

/-- Lines that end outside of template literals do not end blank. -/
theorem endsSolid_text_lineOf (h : (lineOf c raw).1.ends ≠ .template) :
    EndsSolid (lineOf c raw).1.text := by
  rw [text_lineOf, if_neg h]
  exact endsSolid_trimEnd _

theorem head?_trimEnd_of_startsSolid {s : List Char} (h : StartsSolid s) :
    StartsSolid (trimEnd s) := by
  cases s with
  | nil => exact h
  | cons d s =>
      rw [trimEnd_cons_of_solid (h d rfl)]
      exact startsSolid_cons (h d rfl)

/-- Lines that start in code do not start blank. -/
theorem startsSolid_text_lineOf (h : c.mode = .code) : StartsSolid (lineOf c raw).1.text := by
  have hstart : StartsSolid (scannedText c.mode raw) := by
    rw [scannedText, if_pos h]
    exact startsSolid_trimStart raw
  rw [text_lineOf]
  split
  · exact hstart
  · exact head?_trimEnd_of_startsSolid hstart

/-- What holds of the facts of every line. -/
structure Line.Sound (l : Line) : Prop where
  reads : Reads l.starts l.segments l.ends
  codeEnd : l.codeEnd = codeEndFrom 0 0 l.segments
  startsSolid : l.starts = .code → StartsSolid l.text
  endsSolid : l.ends ≠ .template → EndsSolid l.text

theorem sound_lineOf (c : Carry) (raw : List Char) : (lineOf c raw).1.Sound where
  reads := reads_lineOf c raw
  codeEnd := rfl
  startsSolid := startsSolid_text_lineOf
  endsSolid := endsSolid_text_lineOf

theorem Line.Sound.bearsCode_eq (h : l.Sound) : l.bearsCode = bearCode l.segments := by
  rw [Line.bearsCode, h.codeEnd, Bool.eq_iff_iff, decide_eq_true_eq]
  exact codeEndFrom_pos_iff

/-- A line that bears code is not blank. -/
theorem Line.Sound.isBlank_eq_false (h : l.Sound) (hbears : l.bearsCode = true) :
    l.isBlank = false := by
  rw [h.bearsCode_eq, bearCode, List.any_eq_true] at hbears
  obtain ⟨s, hs, hsolid⟩ := hbears
  rw [Segment.bears, Bool.and_eq_true, Bool.not_eq_true'] at hsolid
  by_contra hblank
  rw [Bool.not_eq_false, Line.isBlank, isBlankText_iff] at hblank
  have hall : isBlankText s.text = true :=
    isBlankText_iff.mpr fun d hd => hblank d (List.mem_flatMap.mpr ⟨s, hs, hd⟩)
  rw [hall] at hsolid
  cases hsolid.2

/-- What a program consists of. -/
def linesOf (code : List Char) : List Line :=
  linesAfter {} (splitOn '\n' (unifyNewlines code))

-- ============================================================================
-- Quotes
-- ============================================================================

/-- The line with the quotes of the style. -/
def Line.requoted (style : CodeStyle) (l : Line) : Line :=
  { l with segments := requoteSegments style.quote l.segments }

theorem isQuote_quote (style : CodeStyle) : isQuote style.quote = true := by
  unfold CodeStyle.quote
  split
  · rfl
  · rfl

theorem solid_congr {s t : List Char} (h : s.map plainQuote = t.map plainQuote) :
    (StartsSolid t → StartsSolid s) ∧ (EndsSolid t → EndsSolid s) := by
  constructor
  · intro hsolid c hc
    have hhead := congrArg List.head? h
    rw [List.head?_map, List.head?_map, hc] at hhead
    obtain ⟨d, hd, hcd⟩ := Option.map_eq_some_iff.mp hhead.symm
    rw [← isBlank_plainQuote, ← hcd, isBlank_plainQuote]
    exact hsolid d hd
  · intro hsolid c hc
    have hlast := congrArg List.getLast? h
    rw [List.getLast?_map, List.getLast?_map, hc] at hlast
    obtain ⟨d, hd, hcd⟩ := Option.map_eq_some_iff.mp hlast.symm
    rw [← isBlank_plainQuote, ← hcd, isBlank_plainQuote]
    exact hsolid d hd

theorem Line.Sound.map_plainQuote_requoted (h : l.Sound) (style : CodeStyle) :
    (l.requoted style).text.map plainQuote = l.text.map plainQuote :=
  h.reads.map_plainQuote_requote (isQuote_quote style)

theorem Line.Sound.requoted (h : l.Sound) (style : CodeStyle) : (l.requoted style).Sound where
  reads := h.reads.requote (isQuote_quote style)
  codeEnd := by
    rw [show (l.requoted style).codeEnd = l.codeEnd from rfl, h.codeEnd]
    exact (h.reads.codeEndFrom_requote (isQuote_quote style)).2.symm
  startsSolid hstarts := (solid_congr (h.map_plainQuote_requoted style)).1 (h.startsSolid hstarts)
  endsSolid hends := (solid_congr (h.map_plainQuote_requoted style)).2 (h.endsSolid hends)

-- ============================================================================
-- Edits
-- ============================================================================

/-- An edit of a line in which the code ends as it has to for the edit. -/
inductive Edits (l : Line) : Edit → Prop
  | keep : Edits l .keep
  | insert {sep : Char} : isSeparator sep = true → l.ends = .code → l.bearsCode = true →
      Edits l (.insert sep)
  | remove {sep : Char} : isSeparator sep = true → l.ends = .code → l.bearsCode = true →
      l.finalChar? = some sep → Edits l .remove

theorem isOpenEnded_iff : isOpenEnded l = true ↔ l.bearsCode = true ∧ l.ends = .code := by
  rw [isOpenEnded, Bool.and_eq_true, decide_eq_true_eq]

theorem getD_eq_some {o : Option Char} {d : Char} (h : o.getD ' ' = d) (hd : d ≠ ' ') :
    o = some d := by
  cases o with
  | none => exact absurd h.symm hd
  | some e => exact congrArg some h

/-- What the rule for commas does: lines that are not the last item of an object or a list stay
as they are, and the others get the comma that the style asks for. -/
theorem commaEdit_cases (style : CodeStyle) (l : Line) (f : Option Line) :
    commaEdit style l f = .keep ∨
      (isOpenEnded l = true ∧ isLastItem l f = true ∧
        ((style.trailingCommas = true ∧ commaEdit style l f = .insert ',') ∨
          (style.trailingCommas = false ∧ l.finalChar? = some ',' ∧
            commaEdit style l f = .remove))) := by
  unfold commaEdit
  split
  · exact .inl rfl
  · next hguard =>
    simp only [Bool.or_eq_true, Bool.not_eq_true', not_or, Bool.not_eq_false] at hguard
    obtain ⟨⟨hopen, hitem⟩, -⟩ := hguard
    simp only
    split
    · next hstyle =>
      split
      · exact .inl rfl
      · exact .inr ⟨hopen, hitem, .inl ⟨hstyle, rfl⟩⟩
    · next hstyle =>
      split
      · next hlast =>
        exact .inr ⟨hopen, hitem,
          .inr ⟨by simpa using hstyle, getD_eq_some hlast (by decide), rfl⟩⟩
      · exact .inl rfl

/-- The semicolon rule looks at lines that are in no object, list or parentheses. -/
def inStatements (l : Line) : Bool := l.innermost = none || l.innermost = some .block

/-- What the rule for semicolons does to lines that are not inside of anything but blocks. -/
theorem semicolonEdit_cases (style : CodeStyle) (l : Line) (f : Option Line) :
    semicolonEdit style l f = .keep ∨
      (isOpenEnded l = true ∧ inStatements l = true ∧
        ((style.semicolons = true ∧ semicolonEdit style l f = .insert ';') ∨
          (style.semicolons = false ∧ l.finalChar? = some ';' ∧
            semicolonEdit style l f = .remove))) := by
  unfold semicolonEdit
  split
  · exact .inl rfl
  · next hguard =>
    simp only [Bool.or_eq_true, Bool.not_eq_true', not_or, Bool.not_eq_false,
      Bool.and_eq_true, decide_eq_true_eq, Classical.not_and_iff_not_or_not,
      Classical.not_not] at hguard
    obtain ⟨⟨hopen, hinner⟩, -⟩ := hguard
    have hstatements : inStatements l = true := by
      rw [inStatements, Bool.or_eq_true, decide_eq_true_eq, decide_eq_true_eq]
      exact hinner
    simp only
    split
    · next hstyle =>
      split
      · exact .inl rfl
      · exact .inr ⟨hopen, hstatements, .inl ⟨hstyle, rfl⟩⟩
    · next hstyle =>
      split
      · next hremove =>
        simp only [Bool.and_eq_true, decide_eq_true_eq] at hremove
        exact .inr ⟨hopen, hstatements,
          .inr ⟨by simpa using hstyle, getD_eq_some hremove.1.1 (by decide), rfl⟩⟩
      · exact .inl rfl

theorem edits_of_cases {e : Edit} (sep : Char) (flag : Bool) (hsep : isSeparator sep = true)
    (h : e = .keep ∨ (isOpenEnded l = true ∧ ((flag = true ∧ e = .insert sep) ∨
      (flag = false ∧ l.finalChar? = some sep ∧ e = .remove)))) : Edits l e := by
  rcases h with rfl | ⟨hopen, ⟨-, rfl⟩ | ⟨-, hlast, rfl⟩⟩
  · exact .keep
  · exact .insert hsep (isOpenEnded_iff.mp hopen).2 (isOpenEnded_iff.mp hopen).1
  · exact .remove hsep (isOpenEnded_iff.mp hopen).2 (isOpenEnded_iff.mp hopen).1 hlast

/-- The edit of a line puts one separator in or takes one out, or does nothing. -/
theorem edits_lineEdit (style : CodeStyle) (l : Line) (f : Option Line) :
    Edits l (lineEdit style l f) := by
  have hcomma : Edits l (commaEdit style l f) := by
    refine edits_of_cases ',' style.trailingCommas (by decide) ?_
    exact (commaEdit_cases style l f).imp_right fun h => ⟨h.1, h.2.2⟩
  have hsemicolon : Edits l (semicolonEdit style l f) := by
    refine edits_of_cases ';' style.semicolons (by decide) ?_
    exact (semicolonEdit_cases style l f).imp_right fun h => ⟨h.1, h.2.2⟩
  unfold lineEdit
  split
  · exact hsemicolon
  · exact hcomma

-- ============================================================================
-- Edited lines
-- ============================================================================

/-- What follows the code of a line. -/
def Line.rest (l : Line) : List Char := l.text.drop l.codeEnd

theorem Line.text_eq (l : Line) : l.text = l.code ++ l.rest := (List.take_append_drop _ _).symm

theorem Line.Sound.map_plainQuote_code (h : l.Sound) (style : CodeStyle) :
    (l.requoted style).code.map plainQuote = l.code.map plainQuote ∧
      (l.requoted style).rest.map plainQuote = l.rest.map plainQuote := by
  have htext := h.map_plainQuote_requoted style
  constructor
  · rw [Line.code, List.map_take, htext, ← List.map_take]
    rfl
  · rw [Line.rest, List.map_drop, htext, ← List.map_drop]
    rfl

theorem Line.Sound.length_code (h : l.Sound) : l.code.length = l.codeEnd := by
  rw [Line.code, List.length_take, h.codeEnd]
  exact Nat.min_eq_left (codeEndFrom_le l.segments)

theorem Line.apply_insert (l : Line) (sep : Char) :
    (Edit.insert sep).apply l.codeEnd l.text = l.code ++ sep :: l.rest := rfl

theorem Line.Sound.apply_remove (h : l.Sound) {left : List Char} {sep : Char}
    (hcode : l.code = left ++ [sep]) :
    Edit.remove.apply l.codeEnd l.text = left ++ l.rest := by
  have hlen : left.length + 1 = l.codeEnd := by
    rw [← h.length_code, hcode]
    simp
  rw [Edit.apply, ← hlen, Nat.add_sub_cancel, hlen]
  refine congrArg (· ++ l.rest) ?_
  rw [l.text_eq, hcode, List.append_assoc, List.take_left]

/-- The segments after an edit, which has changed nothing but the separator. -/
inductive Touched : Edit → List Segment → List Segment → Prop
  | keep {ss : List Segment} : Touched .keep ss ss
  | insert {sep : Char} {ss ss' : List Segment} : isSeparator sep = true → bearCode ss = true →
      Inserted sep ss ss' → Touched (.insert sep) ss ss'
  | remove {sep : Char} {ss ss' : List Segment} : isSeparator sep = true → Inserted sep ss' ss →
      Touched .remove ss ss'

/-- The edit takes away what keeps a slash apart from a comment. -/
def Line.JoinedBy (l : Line) (e : Edit) : Prop := e = .remove ∧ Joined l.code.dropLast l.rest

/-- An edited line has a reading that starts and ends as before, with the same template literals
and, as a rule, all else but the separator the same. -/
theorem Line.Sound.exists_reads_apply (h : l.Sound) {e : Edit} (he : Edits l e) :
    ∃ ss, Reads l.starts ss l.ends ∧ textOf ss = e.apply l.codeEnd l.text ∧
      templatesOf ss = templatesOf l.segments ∧
      (¬ l.JoinedBy e → Touched e l.segments ss) := by
  cases he with
  | keep => exact ⟨l.segments, h.reads, rfl, rfl, fun _ => .keep⟩
  | insert hsep hends hbears =>
      have hsolid := h.endsSolid (by rw [hends]; simp)
      have hcode : bearCode l.segments = true := h.bearsCode_eq ▸ hbears
      obtain ⟨ss, u, v, hinserted, hreads, htext, htext', hlen⟩ :=
        h.reads.exists_inserted hsep hends hsolid hcode
      refine ⟨ss, hends ▸ hreads, ?_, hinserted.templatesOf_eq,
        fun _ => .insert hsep hcode hinserted⟩
      rw [htext', Edit.apply, Line.text, htext, h.codeEnd, List.take_left' hlen,
        List.drop_left' hlen]
  | @remove sep hsep hends hbears hlast =>
      have hsolid := h.endsSolid (by rw [hends]; simp)
      obtain ⟨u, hu⟩ := List.getLast?_eq_some_iff.mp hlast
      have htext : textOf l.segments = u ++ sep :: l.rest := by
        rw [show textOf l.segments = l.text from rfl, l.text_eq, hu]
        simp
      have hlen : u.length + 1 = codeEndFrom 0 0 l.segments := by
        rw [← h.codeEnd, ← h.length_code, hu]
        simp
      obtain ⟨ss, hreads, htext', hremoved⟩ :=
        h.reads.exists_removed hsep hends hsolid htext hlen
      refine ⟨ss, hends ▸ hreads, ?_, hremoved.templates, fun hjoined => .remove hsep
        (hremoved.inserted fun hslash => hjoined ⟨rfl, ?_⟩)⟩
      · rw [htext', h.apply_remove hu]
      · rw [hu, List.dropLast_concat]
        exact hslash

/-- Lines that are left as they are. -/
def Line.isSkipped (l : Line) : Bool := l.isBlank || (l.starts = .comment && l.ends = .comment)

/-- The edit of a line, which has got its quotes before. -/
def Line.edit (style : CodeStyle) (l : Line) (f : Option Line) : Edit :=
  lineEdit style (l.requoted style) f

theorem lineText_of_skipped (h : l.isSkipped = true) : lineText style l f = l.text := by
  rw [lineText]
  exact if_pos h

theorem lineText_of_not_skipped (h : l.isSkipped = false) :
    lineText style l f = (l.edit style f).apply l.codeEnd (l.requoted style).text := by
  rw [lineText]
  refine (if_neg ?_).trans rfl
  rw [show (l.isBlank || decide (l.starts = .comment) && decide (l.ends = .comment)) = false
    from h]
  simp

/-- The text of a line, with its quotes and its separator in order, has a reading that starts and
ends as before and has the same template literals. -/
theorem Line.Sound.exists_reads_lineText (h : l.Sound) (style : CodeStyle) (f : Option Line) :
    ∃ ss, Reads l.starts ss l.ends ∧ textOf ss = lineText style l f ∧
      templatesOf ss = templatesOf l.segments := by
  cases hskip : l.isSkipped with
  | true => exact ⟨l.segments, h.reads, (lineText_of_skipped hskip).symm, rfl⟩
  | false =>
      obtain ⟨ss, hreads, htext, htemplates, -⟩ :=
        (h.requoted style).exists_reads_apply (edits_lineEdit style (l.requoted style) f)
      refine ⟨ss, hreads, ?_, ?_⟩
      · rw [htext, lineText_of_not_skipped hskip]
        rfl
      · rw [htemplates]
        exact templatesOf_requote style.quote l.segments

end Flowscript.Format

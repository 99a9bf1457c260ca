/-
  Flowscript.Proofs.TemplateText

  Template literals in formatted programs.

  Formatting is to leave the text of template literals alone.  It does, but for one kind
  of line: a line that starts in a block comment is trimmed at its end, also where it
  ends inside of a template literal.  A program without such lines keeps its template
  literals, and one with such lines does not (`template_text_kept_iff`).
-/
import Flowscript.Proofs.Indentation
import Flowscript.Proofs.OutputLines

namespace Flowscript.Format

open Text

variable {style : CodeStyle} {c : Carry} {l : Line} {f : Option Line} {m : Mode}
  {raw : List Char} {raws : List (List Char)} {outs : List OutputLine}

-- ============================================================================
-- Template literals of a program
-- ============================================================================

/-- The text of the template literals in lines, scanned one after another from a mode.  A line
that starts in a literal has its line break in front. -/
def templateLines : Mode → List (List Char) → List Char
  | _, [] => []
  | m, raw :: raws =>
    (if m = .template then ['\n'] else []) ++ templatesOf (scan m raw).segments ++
      templateLines (scan m raw).mode raws

/-- The mode that lines end in. -/
def endMode : Mode → List (List Char) → Mode
  | m, [] => m
  | m, raw :: raws => endMode (scan m raw).mode raws

/-- The text of the template literals in a program. -/
def templateText (code : List Char) : List Char := templateLines .code (splitOn '\n' code)

/-- The program ends outside of template literals. -/
def EndsOutside (code : List Char) : Prop := endMode .code (splitOn '\n' code) ≠ .template

theorem templateLines_concat_nil (h : endMode m raws ≠ .template) :
    templateLines m (raws ++ [[]]) = templateLines m raws := by
  induction raws generalizing m with
  | nil =>
      have hm : m ≠ .template := h
      simp [templateLines, hm]
  | cons raw raws ih => rw [List.cons_append, templateLines, templateLines, ih h]

-- ============================================================================
-- Lines
-- ============================================================================

/-- The line is none that starts in a comment and loses white space of a template literal. -/
def Line.IsWhole (l : Line) : Prop :=
  l.starts = .comment → l.ends = .template → trimEnd l.text = l.text

/-- White space at its ends is no matter for what a line that starts in code holds. -/
theorem templatesOf_lineOf (c : Carry) (raw : List Char) :
    templatesOf (lineOf c raw).1.segments = templatesOf (scan c.mode raw).segments ∧
      (lineOf c raw).1.ends = (scan c.mode raw).mode := by
  have hscanned : templatesOf (scan c.mode (scannedText c.mode raw)).segments =
      templatesOf (scan c.mode raw).segments ∧
      (scan c.mode (scannedText c.mode raw)).mode = (scan c.mode raw).mode := by
    unfold scannedText
    split
    · next hmode =>
      obtain ⟨b, hb, hraw⟩ := exists_trimStart raw
      rw [hmode]
      obtain ⟨hreads, htext⟩ := reads_scan .code (trimStart raw)
      obtain ⟨hpadded, htext', htemplates⟩ := hreads.padded hb
      rw [htext, ← hraw] at htext'
      rw [scan_eq_iff.mpr ⟨hpadded, htext'⟩]
      exact ⟨htemplates.symm, rfl⟩
    · exact ⟨rfl, rfl⟩
  refine ⟨?_, hscanned.2⟩
  rw [← hscanned.1, segments_lineOf]
  split
  · rfl
  · next hends => exact (reads_scan _ _).1.templatesOf_trimEnd hends

theorem trimEnd_eq_iff {s : List Char} : trimEnd s = s ↔ EndsSolid s :=
  ⟨fun h => h ▸ endsSolid_trimEnd s, EndsSolid.trimEnd_eq⟩

/-- Lines that end inside of a template literal get other quotes at most. -/
theorem Line.Sound.trimEnd_lineText_iff (h : l.Sound) (hends : l.ends = .template) :
    trimEnd (lineText style l f) = lineText style l f ↔ trimEnd l.text = l.text := by
  have hquotes : (lineText style l f).map plainQuote = l.text.map plainQuote := by
    cases hskip : l.isSkipped with
    | true => rw [lineText_of_skipped hskip]
    | false =>
        have hkeep : l.edit style f = .keep := by
          have hedits := edits_lineEdit style (l.requoted style) f
          cases hedit : l.edit style f with
          | keep => rfl
          | insert sep =>
              rw [show lineEdit style (l.requoted style) f = .insert sep from hedit] at hedits
              cases hedits with
              | insert _ hcode _ => cases hends.symm.trans hcode
          | remove =>
              rw [show lineEdit style (l.requoted style) f = .remove from hedit] at hedits
              cases hedits with
              | remove _ hcode _ _ => cases hends.symm.trans hcode
        rw [lineText_of_not_skipped hskip, hkeep]
        exact h.map_plainQuote_requoted style
  rw [trimEnd_eq_iff, trimEnd_eq_iff]
  exact ⟨(solid_congr hquotes.symm).2, (solid_congr hquotes).2⟩

/-- A line of output ends in the mode of its line, and of the template literals at most white
space is lost, where the line is not whole. -/
theorem Line.Sound.scan_indentLine (h : l.Sound) (style : CodeStyle) (f : Option Line) :
    let o := indentLine style l (lineText style l f)
    (scan l.starts o.text).mode = l.ends ∧
      templatesOf (scan l.starts o.text).segments <+: templatesOf l.segments ∧
      (templatesOf (scan l.starts o.text).segments = templatesOf l.segments ↔ l.IsWhole) := by
  obtain ⟨ss, hreads, htext, htemplates⟩ := h.exists_reads_lineText style f
  have hwhole : l.starts ≠ .comment ∨ l.ends ≠ .template → l.IsWhole := by
    rintro (hne | hne) hstarts hends
    · exact absurd hstarts hne
    · exact absurd hends hne
  -- a reading with the same template literals settles the line
  have hsettle : ∀ {ss' : List Segment} {text : List Char}, Reads l.starts ss' l.ends →
      textOf ss' = text → templatesOf ss' = templatesOf ss → l.IsWhole →
      (scan l.starts text).mode = l.ends ∧
        templatesOf (scan l.starts text).segments <+: templatesOf l.segments ∧
        (templatesOf (scan l.starts text).segments = templatesOf l.segments ↔ l.IsWhole) := by
    intro ss' text hreads' htext' htemplates' hw
    rw [scan_eq_iff.mpr ⟨hreads', htext'⟩]
    have hsame : templatesOf ss' = templatesOf l.segments := htemplates'.trans htemplates
    exact ⟨rfl, hsame ▸ List.prefix_rfl, iff_of_true hsame hw⟩
  intro o
  have hindented : Indented l (lineText style l f) o.text := indented_indentLine style l _
  rw [← htext] at hindented
  generalize o.text = out at hindented ⊢
  cases hindented with
  | literal hstarts => exact hsettle hreads rfl rfl (hwhole (.inl (by simp [hstarts])))
  | blank hstarts hblank =>
      have hnil : trimEndSegments ss = [] := trimEndSegments_eq_nil_iff.mpr hblank
      have hreads' := hreads.trimEnd (.inl hstarts)
      rw [hnil] at hreads'
      have hends : l.ends ≠ .template := by
        rw [← hreads'.eq_of_nil]
        exact hstarts
      refine hsettle hreads' rfl ?_ (hwhole (.inr hends))
      rw [← hnil, hreads.templatesOf_trimEnd hends]
  | code hstarts _ hb =>
      have hreads' := hreads
      rw [hstarts] at hreads'
      obtain ⟨hpadded, htext', htemplates'⟩ := hreads'.padded hb
      exact hsettle (hstarts ▸ hpadded) htext' htemplates' (hwhole (.inl (by simp [hstarts])))
  | comment hstarts hsolid ha =>
      have htrim := hreads.trimEnd (.inl (by simp [hstarts]))
      rw [hstarts] at htrim
      obtain ⟨ss', hreads', htext', hreleads⟩ := htrim.exists_releads
        (by rw [textOf_trimEndSegments, isBlankText_trimEnd]; exact hsolid) ha
      rw [textOf_trimEndSegments, trimStart_trimEnd] at htext'
      have htemplates' := hreleads.templatesOf_eq
      rw [← hstarts] at hreads'
      by_cases hends : l.ends = .template
      · rw [hends] at hreads
        obtain ⟨hinit, hiff⟩ := hreads.templatesOf_trimEnd_iff (by simp [hstarts])
        rw [scan_eq_iff.mpr ⟨hreads', htext'⟩]
        rw [← htemplates', htemplates] at hinit hiff
        refine ⟨rfl, hinit, hiff.trans ?_⟩
        rw [htext, h.trimEnd_lineText_iff hends]
        exact ⟨fun htrim _ _ => htrim, fun hw => hw hstarts hends⟩
      · refine hsettle hreads' htext' ?_ (hwhole (.inr hends))
        rw [htemplates', hreads.templatesOf_trimEnd hends]

theorem literal_indentLine (style : CodeStyle) (l : Line) (t : List Char) :
    (indentLine style l t).literal = true ↔ l.starts = .template := by
  unfold indentLine
  split
  · next hstarts => simp [hstarts]
  · next hstarts =>
    simp only
    split
    · simp [hstarts]
    · split <;> simp [hstarts]
  · next hstarts => split <;> simp [hstarts]

-- ============================================================================
-- Programs
-- ============================================================================

/-- Lines of output are marked as literal where they start in a template literal. -/
def Marked : Mode → List OutputLine → Prop
  | _, [] => True
  | m, o :: outs => (o.literal = true ↔ m = .template) ∧ Marked (scan m o.text).mode outs

/-- Blank lines that are left out or put in are in no template literal. -/
theorem templateLines_collapse (started gap : Bool) (h : Marked m outs)
    (hgap : gap = true → m ≠ .template) :
    templateLines m (collapse started gap outs) = templateLines m (outs.map (·.text)) ∧
      endMode m (collapse started gap outs) = endMode m (outs.map (·.text)) := by
  induction outs generalizing m started gap with
  | nil => exact ⟨rfl, rfl⟩
  | cons o outs ih =>
      obtain ⟨hliteral, hrest⟩ := h
      rw [collapse, List.map_cons, templateLines, endMode]
      split
      · next hskip =>
        rw [Bool.and_eq_true, Bool.not_eq_true', List.isEmpty_iff] at hskip
        have hm : m ≠ .template := by
          rw [Ne, ← hliteral, hskip.2]
          simp
        rw [hskip.1, scan_nil] at hrest ⊢
        obtain ⟨hlines, hmode⟩ := ih started true hrest fun _ => hm
        rw [hlines, hmode, if_neg hm]
        exact ⟨rfl, rfl⟩
      · obtain ⟨hlines, hmode⟩ := ih true false hrest (by simp)
        split
        · next hopen =>
          rw [Bool.and_eq_true] at hopen
          have hm := hgap hopen.1
          simp [templateLines, endMode, hm, hlines, hmode]
        · rw [templateLines, endMode, hlines, hmode]
          exact ⟨rfl, rfl⟩

theorem append_eq_append_iff_of_le {s s' t t' : List Char} (hs : s <+: s')
    (ht : t.length ≤ t'.length) :
    s ++ t = s' ++ t' ↔ s = s' ∧ t = t' := by
  refine ⟨fun h => ?_, fun ⟨hs, ht⟩ => by rw [hs, ht]⟩
  have hlen := congrArg List.length h
  rw [List.length_append, List.length_append] at hlen
  have hle := hs.length_le
  exact List.append_inj h (by omega)

/-- What is put out for lines has the template literals of the lines, but for those that lose
white space. -/
theorem templateLines_outputLines (style : CodeStyle) (c : Carry) (raws : List (List Char)) :
    let outs := outputLines style (linesAfter c raws)
    Marked c.mode outs ∧ endMode c.mode (outs.map (·.text)) = endMode c.mode raws ∧
      (templateLines c.mode (outs.map (·.text))).length ≤ (templateLines c.mode raws).length ∧
      (templateLines c.mode (outs.map (·.text)) = templateLines c.mode raws ↔
        ∀ l ∈ linesAfter c raws, l.IsWhole) := by
  induction raws generalizing c with
  | nil => simp [linesAfter, outputLines, Marked, endMode]
  | cons raw raws ih =>
      rw [linesAfter]
      obtain ⟨hmarked, hend, hlength, hiff⟩ := ih (lineOf c raw).2
      obtain ⟨htemplates, hends⟩ := templatesOf_lineOf c raw
      rw [mode_lineOf] at hmarked hend hlength hiff
      obtain ⟨hmode, hinit, hwhole⟩ := (sound_lineOf c raw).scan_indentLine style
        (following? (linesAfter (lineOf c raw).2 raws))
      have hliteral := literal_indentLine style (lineOf c raw).1
        (lineText style (lineOf c raw).1 (following? (linesAfter (lineOf c raw).2 raws)))
      rw [starts_lineOf] at hmode hinit hwhole hliteral
      rw [htemplates] at hinit hwhole
      simp only [outputLines, List.map_cons, Marked, endMode, templateLines, List.forall_mem_cons]
      rw [hmode, ← hends]
      refine ⟨⟨hliteral, hmarked⟩, hend, ?_, ?_⟩
      · have hle := hinit.length_le
        simp only [List.length_append]
        omega
      · rw [List.append_assoc, List.append_assoc, List.append_cancel_left_eq,
          append_eq_append_iff_of_le hinit hlength, hwhole, hiff]

/-- Formatting leaves the template literals of a program that ends outside of them untouched,
unless a line starts in a comment and ends in a template literal with white space at the end. -/
theorem template_text_kept_iff (style : CodeStyle) (code : List Char)
    (h : EndsOutside (unifyNewlines code)) :
    templateText (format style code) = templateText (unifyNewlines code) ↔
      ∀ l ∈ linesOf code, l.starts = .comment → l.ends = .template → trimEnd l.text = l.text := by
  obtain ⟨hmarked, hend, -, hiff⟩ :=
    templateLines_outputLines style {} (splitOn '\n' (unifyNewlines code))
  obtain ⟨hlines, hmode⟩ := templateLines_collapse false false hmarked (by simp)
  have hwritten : templateText (format style code) = templateLines .code (written style code) := by
    have houtside : endMode .code (written style code) ≠ .template := fun htemplate =>
      h (hend.symm.trans (hmode.symm.trans htemplate))
    rw [templateText, splitOn_format]
    split
    · next hnil =>
      rw [hnil]
      rfl
    · exact templateLines_concat_nil houtside
  rw [hwritten]
  exact (iff_of_eq (congrArg (· = _) hlines)).trans hiff

/-- A template literal that begins behind a comment of two lines. -/
def commentedTemplate : List Char := "/* a\n b */ x = `c\n  d  \n`\n".toList

/-- It is kept, with the white space of its second line. -/
theorem commentedTemplate_kept :
    EndsOutside (unifyNewlines commentedTemplate) ∧
      templateText (format {} commentedTemplate) = templateText commentedTemplate :=
  have houtside : EndsOutside (unifyNewlines commentedTemplate) := by
    unfold EndsOutside
    decide
  ⟨houtside, (template_text_kept_iff {} commentedTemplate houtside).mpr (by decide)⟩

-- White space at the end of its first line is lost.
example : templateText "/*\n*/ x = `a  \nb`\n".toList = "`a  \nb`".toList ∧
    templateText (format {} "/*\n*/ x = `a  \nb`\n".toList) = "`a\nb`".toList := by decide

end Flowscript.Format

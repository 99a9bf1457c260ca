/-
  Flowscript.Proofs.TemplateStatement

  Statements with a template literal in formatted programs.

  A statement that begins a line in code, has a template literal as its only literal and
  ends with a semicolon is formatted line by line: a margin is put in front of its first
  line, the lines inside of the literal stay as they are, and the last one keeps its
  semicolon or loses it.  So up to the semicolon the formatted program has the text of the
  statement (`template_statement_kept`).
-/
import Flowscript.Proofs.Idempotence
import Flowscript.Proofs.SealedText

namespace Flowscript

open Text

-- ============================================================================
-- Lines of a text in parts
-- ============================================================================

namespace Text

variable {c : Char} {s t : List Char}

/-- A separator between two texts keeps their pieces apart. -/
theorem splitOn_append_cons (c : Char) (s t : List Char) :
    splitOn c (s ++ c :: t) = splitOn c s ++ splitOn c t := by
  induction s with
  | nil => rw [List.nil_append, splitOn_cons_self]; rfl
  | cons d s ih =>
      by_cases hd : d = c
      · rw [hd, List.cons_append, splitOn_cons_self, splitOn_cons_self, ih]
        rfl
      · obtain ⟨p, ps, hps⟩ := List.exists_cons_of_ne_nil (splitOn_ne_nil c s)
        rw [hps, List.cons_append] at ih
        rw [List.cons_append, splitOn_cons_of_ne hd ih, splitOn_cons_of_ne hd hps]
        rfl

theorem unifyNewlines_append (hs : '\r' ∉ s) (t : List Char) :
    unifyNewlines (s ++ t) = s ++ unifyNewlines t := by
  induction s with
  | nil => rfl
  | cons c s ih =>
      rw [List.mem_cons, not_or] at hs
      rw [List.cons_append, unifyNewlines, if_neg (Ne.symm hs.1), ih hs.2]
      · rfl
      · rintro rest rfl
        exact absurd rfl hs.1

theorem joinWith_append_cons (sep a p : List Char) (ps : List (List Char)) :
    joinWith sep ((a ++ p) :: ps) = a ++ joinWith sep (p :: ps) := by
  cases ps with
  | nil => rfl
  | cons p' ps => simp

theorem joinWith_concat_append (sep p t : List Char) (ps : List (List Char)) :
    joinWith sep (ps ++ [p ++ t]) = joinWith sep (ps ++ [p]) ++ t := by
  induction ps with
  | nil => rfl
  | cons p' ps ih =>
      obtain ⟨r, rest, hrest⟩ := List.exists_cons_of_ne_nil (l := ps ++ [p]) (by simp)
      obtain ⟨r', rest', hrest'⟩ := List.exists_cons_of_ne_nil (l := ps ++ [p ++ t]) (by simp)
      rw [hrest, hrest'] at ih
      rw [List.cons_append, List.cons_append, hrest, hrest', joinWith_cons_cons, joinWith_cons_cons,
        ih, List.append_assoc _ _ t]

/-- What stands behind a text goes to its last piece. -/
theorem splitOn_append_tail {p : List Char} {ps : List (List Char)} (ht : c ∉ t)
    (h : splitOn c s = ps ++ [p]) : splitOn c (s ++ t) = ps ++ [p ++ t] := by
  have hpieces : ∀ r ∈ ps ++ [p], c ∉ r := fun r hr => not_mem_of_mem_splitOn (h ▸ hr)
  have hjoin : joinWith [c] (ps ++ [p ++ t]) = s ++ t := by
    rw [joinWith_concat_append, ← h, joinWith_splitOn]
  rw [← hjoin, splitOn_joinWith (by simp)]
  intro r hr
  rcases List.mem_append.mp hr with hr | hr
  · exact hpieces r (List.mem_append_left _ hr)
  · rw [List.mem_singleton.mp hr, List.mem_append, not_or]
    exact ⟨hpieces p (by simp), ht⟩

/-- Some of the pieces, put together, stand in the whole. -/
theorem infix_joinWith_append {sep : List Char} {xs ys zs : List (List Char)} (hys : ys ≠ []) :
    joinWith sep ys <:+: joinWith sep (xs ++ ys ++ zs) := by
  have hfront : joinWith sep ys <+: joinWith sep (ys ++ zs) := by
    clear xs
    induction ys with
    | nil => exact absurd rfl hys
    | cons y ys ih =>
        cases ys with
        | nil =>
            cases zs with
            | nil => exact List.prefix_rfl
            | cons z zs => exact ⟨sep ++ joinWith sep (z :: zs), by simp⟩
        | cons y' ys =>
            rw [joinWith_cons_cons, List.cons_append, List.cons_append, joinWith_cons_cons]
            exact List.prefix_append_right_inj _ |>.mpr (ih (by simp))
  induction xs with
  | nil => exact hfront.isInfix
  | cons x xs ih =>
      refine ih.trans ?_
      cases hrest : xs ++ ys ++ zs with
      | nil => simp [hys] at hrest
      | cons r rest =>
          rw [List.cons_append, List.cons_append, hrest, joinWith_cons_cons]
          exact (List.suffix_append _ _).isInfix

end Text

namespace Format

variable {style : CodeStyle} {c : Carry} {l : Line} {f : Option Line} {ss : List Segment}
  {b w z : List Char} {raw : List Char} {raws raws' : List (List Char)} {outs : List OutputLine}

-- ============================================================================
-- Programs in parts
-- ============================================================================

/-- What lines leave to the line after them. -/
def carryAfter (c : Carry) (raws : List (List Char)) : Carry :=
  raws.foldl (fun c raw => (lineOf c raw).2) c

theorem mode_carryAfter (c : Carry) (raws : List (List Char)) :
    (carryAfter c raws).mode = endMode c.mode raws := by
  induction raws generalizing c with
  | nil => rfl
  | cons raw raws ih =>
      rw [endMode, ← (templatesOf_lineOf c raw).2, ← mode_lineOf]
      exact ih _

theorem linesAfter_cons (c : Carry) (raw : List Char) (raws : List (List Char)) :
    linesAfter c (raw :: raws) = (lineOf c raw).1 :: linesAfter (lineOf c raw).2 raws := rfl

theorem linesAfter_append (c : Carry) (raws raws' : List (List Char)) :
    linesAfter c (raws ++ raws') = linesAfter c raws ++ linesAfter (carryAfter c raws) raws' := by
  induction raws generalizing c with
  | nil => rfl
  | cons raw raws ih =>
      rw [List.cons_append, linesAfter_cons, linesAfter_cons, ih]
      rfl

/-- Lines are put out after those before them. -/
theorem outputLines_append (style : CodeStyle) (ls ls' : List Line) :
    ∃ outs, outputLines style (ls ++ ls') = outs ++ outputLines style ls' := by
  induction ls with
  | nil => exact ⟨[], rfl⟩
  | cons l ls ih =>
      obtain ⟨outs, houts⟩ := ih
      rw [List.cons_append, outputLines_cons, houts]
      exact ⟨_ :: outs, rfl⟩

/-- Blank lines are left out before a line as they are at the start. -/
theorem collapse_append (started gap : Bool) (outs outs' : List OutputLine) :
    ∃ texts started' gap',
      collapse started gap (outs ++ outs') = texts ++ collapse started' gap' outs' := by
  induction outs generalizing started gap with
  | nil => exact ⟨[], started, gap, rfl⟩
  | cons o outs ih =>
      rw [List.cons_append, collapse]
      split
      · exact ih started true
      · obtain ⟨texts, started', gap', h⟩ := ih true false
        rw [h]
        split
        · exact ⟨_ :: _ :: texts, started', gap', rfl⟩
        · exact ⟨_ :: texts, started', gap', rfl⟩

/-- The lines of a literal are written one after another. -/
theorem collapse_literal (h : ∀ o ∈ outs, o.literal = true) (outs' : List OutputLine) :
    ∃ texts, collapse true false (outs ++ outs') = outs.map (·.text) ++ texts := by
  induction outs with
  | nil => exact ⟨_, rfl⟩
  | cons o outs ih =>
      rw [List.forall_mem_cons] at h
      obtain ⟨texts, htexts⟩ := ih h.2
      rw [List.cons_append, collapse_of_kept (by simp [h.1]), htexts]
      exact ⟨texts, rfl⟩

-- ============================================================================
-- Lines without strings
-- ============================================================================

theorem requoted_eq_self (h : ∀ s ∈ l.segments, s.kind ≠ .string) : l.requoted style = l := by
  have hsame : requoteSegments style.quote l.segments = l.segments :=
    (List.map_congr_left fun s hs => if_neg (h s hs)).trans (List.map_id _)
  rw [Line.requoted, hsame]

/-- A line that ends inside of a template literal has no edit. -/
theorem lineText_of_ends_template (h : ∀ s ∈ l.segments, s.kind ≠ .string)
    (hends : l.ends = .template) : lineText style l f = l.text := by
  cases hskip : l.isSkipped with
  | true => exact lineText_of_skipped hskip
  | false =>
      have hopen : isOpenEnded l = false := by simp [isOpenEnded, hends]
      rw [lineText_of_not_skipped hskip, Line.edit, requoted_eq_self h,
        lineEdit_of_not_isOpenEnded hopen]
      rfl

/-- No separator is put after a semicolon. -/
theorem lineEdit_of_semicolon (style : CodeStyle) (f : Option Line) (h : l.finalChar? = some ';') :
    lineEdit style l f = .keep ∨ lineEdit style l f = .remove := by
  have hcomma : commaEdit style l f = .keep := by
    unfold commaEdit
    rw [h]
    split
    · rfl
    · simp
  have hsemicolon : semicolonEdit style l f ≠ .insert ';' := by
    unfold semicolonEdit
    rw [h]
    split
    · simp
    · have hcontinues : continuesAfter ';' = true := by decide
      simp only [Option.getD_some, hcontinues, Bool.true_or, if_true]
      split
      · simp
      · split <;> simp
  rw [lineEdit, hcomma]
  rcases semicolonEdit_cases style l f with hkeep | ⟨-, -, ⟨-, hinsert⟩ | ⟨-, -, hremove⟩⟩
  · exact .inl hkeep
  · exact absurd hinsert hsemicolon
  · exact .inr hremove

/-- A line of code that ends with a semicolon is kept up to the semicolon. -/
theorem Line.Sound.lineText_semicolon (h : l.Sound) (hplain : ∀ s ∈ l.segments, s.kind ≠ .string)
    (hcode : l.code = l.text) {t : List Char} (htext : l.text = t ++ [';']) :
    lineText style l f = t ++ [';'] ∨ lineText style l f = t := by
  cases hskip : l.isSkipped with
  | true => exact .inl ((lineText_of_skipped hskip).trans htext)
  | false =>
      have hlast : l.finalChar? = some ';' := by
        rw [Line.finalChar?, hcode, htext, List.getLast?_concat]
      have hrest : l.rest = [] := by
        have hsplit := l.text_eq
        rw [hcode] at hsplit
        simpa using hsplit
      rw [lineText_of_not_skipped hskip, Line.edit, requoted_eq_self hplain]
      rcases lineEdit_of_semicolon style f hlast with hedit | hedit
      · rw [hedit]
        exact .inl htext
      · rw [hedit, h.apply_remove (hcode.trans htext), hrest, List.append_nil]
        exact .inr rfl

/-- The code of a line whose last segment is code goes up to the end of the line. -/
theorem codeEndFrom_concat {s : Segment} (hbears : s.bears = true) (hsolid : EndsSolid s.text)
    (ss : List Segment) : codeEndFrom 0 0 (ss ++ [s]) = (textOf (ss ++ [s])).length := by
  induction ss with
  | nil =>
      rw [List.nil_append, codeEndFrom_cons]
      simp [hbears, hsolid.trimEnd_eq]
  | cons s' ss ih =>
      have hrest : bearCode (ss ++ [s]) = true := by simp [bearCode, hbears]
      rw [List.cons_append, codeEndFrom_cons, if_pos hrest, ih]
      simp

theorem Line.Sound.code_eq_text (h : l.Sound) {s : Segment} (hsegments : l.segments = ss ++ [s])
    (hbears : s.bears = true) (hsolid : EndsSolid s.text) : l.code = l.text := by
  rw [Line.code, h.codeEnd, hsegments, codeEndFrom_concat hbears hsolid, ← hsegments]
  exact List.take_length

-- ============================================================================
-- Lines of a statement
-- ============================================================================

/-- Text of code within a line. -/
def IsPlainCode (w : List Char) : Prop := ∀ c ∈ w, isCodeChar c = true ∧ c ≠ '\n'

theorem IsPlainCode.of_all (h : w.all (fun c => isCodeChar c && c != '\n') = true) :
    IsPlainCode w := fun c hc => by simpa using List.all_eq_true.mp h c hc

theorem IsPlainCode.append {w' : List Char} (h : IsPlainCode w) (h' : IsPlainCode w') :
    IsPlainCode (w ++ w') := fun c hc => (List.mem_append.mp hc).elim (h c) (h' c)

theorem IsPlainCode.without (h : IsPlainCode w) (next : List Char) : Without leavesCode next w := by
  induction w with
  | nil => trivial
  | cons c w ih =>
      obtain ⟨hc, hrest⟩ := List.forall_mem_cons.mp h
      have hstay := stays_of_isCodeChar hc.1 (w ++ next)
      cases hstay with
      | code hstay => exact ⟨hstay, ih hrest⟩
      | literal hp _ _ => cases hp

theorem body_templateBody (s : List Char) : Body '`' (Script.templateBody s) := by
  fun_induction Script.templateBody s with
  | case1 => exact .nil
  | case2 rest ih => exact .escape '$' (.char (by decide) (by decide) ih)
  | case3 c rest _ ih =>
      split
      · exact .escape c ih
      · next hc =>
        simp only [Bool.or_eq_true, decide_eq_true_eq, not_or] at hc
        exact .char hc.2 hc.1 ih

theorem Body.openBody {q : Char} (h : Body q b) : OpenBody q b := by
  induction h with
  | nil => exact .nil
  | escape d _ ih => exact .escape d ih
  | char hq hb _ ih => exact .char hq hb ih

theorem output_of_template (hstarts : l.starts = .template) :
    l.output style f = ⟨lineText style l f, true⟩ := by
  simp [Line.output, indentLine, hstarts]

theorem exists_output_of_code (hstarts : l.starts = .code) (hmem : '`' ∈ lineText style l f) :
    ∃ margin, (l.output style f).text = margin ++ lineText style l f := by
  have hblank : isBlankText (lineText style l f) = false := by
    by_contra h
    rw [Bool.not_eq_false, isBlankText_iff] at h
    exact absurd (h _ hmem) (by decide)
  have hindented : Indented l (lineText style l f) (l.output style f).text :=
    indented_indentLine style l _
  generalize (l.output style f).text = out at hindented
  cases hindented with
  | literal htemplate => cases hstarts.symm.trans htemplate
  | blank _ h => cases h.symm.trans hblank
  | @code a _ _ _ => exact ⟨a, rfl⟩
  | comment hcomment _ _ => cases hstarts.symm.trans hcomment

/-- The start of a statement, which leads to its literal. -/
structure IsStatementStart (w : List Char) : Prop where
  ne_nil : w ≠ []
  plain : IsPlainCode w
  solid : StartsSolid w

theorem IsStatementStart.scannedText_append (h : IsStatementStart w) (t : List Char) :
    scannedText .code (w ++ t) = w ++ t := by
  have hstart : StartsSolid (w ++ []) := by
    rw [List.append_nil]
    exact h.solid
  rw [scannedText, if_pos rfl, (hstart.append_of_ne_nil h.ne_nil).trimStart_eq]

/-- In the line where it begins, the literal is put out behind a margin. -/
theorem output_open (style : CodeStyle) (hc : c.mode = .code) (hw : IsStatementStart w)
    (hb : OpenBody '`' b) :
    (lineOf c (w ++ '`' :: b)).2.mode = .template ∧ ∀ f, ∃ margin,
      ((lineOf c (w ++ '`' :: b)).1.output style f).text = margin ++ (w ++ '`' :: b) := by
  have hreads : Reads c.mode [⟨.code, w⟩, ⟨.template, '`' :: b⟩] .template := by
    rw [hc]
    exact .code hw.ne_nil (hw.plain.without _) (literalFirst_cons (by simp))
      (.opened (.literal .template hb))
  have htext : textOf [⟨.code, w⟩, ⟨.template, '`' :: b⟩] = scannedText c.mode (w ++ '`' :: b) := by
    rw [hc, hw.scannedText_append]
    simp
  obtain ⟨hsegments, hends⟩ := segments_lineOf_of_reads hreads htext (by simp)
  refine ⟨hends, fun f => ?_⟩
  have hline : lineText style (lineOf c (w ++ '`' :: b)).1 f = w ++ '`' :: b := by
    rw [lineText_of_ends_template (by simp [hsegments]) hends, Line.text, hsegments]
    simp
  have hmem : '`' ∈ lineText style (lineOf c (w ++ '`' :: b)).1 f := by simp [hline]
  have hout := exists_output_of_code ((starts_lineOf c _).trans hc) hmem
  rwa [hline] at hout

/-- Lines inside of a literal are put out as they are. -/
theorem output_inside (style : CodeStyle) (hc : c.mode = .template) (hb : OpenBody '`' b) :
    (lineOf c b).2.mode = .template ∧ ∀ f, (lineOf c b).1.output style f = ⟨b, true⟩ := by
  obtain ⟨ss, hreads, htext, hplain⟩ : ∃ ss, Reads c.mode ss .template ∧
      textOf ss = scannedText c.mode b ∧ ∀ s ∈ ss, s.kind ≠ .string := by
    rw [hc]
    by_cases hne : b = []
    · exact ⟨[], .nil _, by simp [hne, scannedText], by simp⟩
    · exact ⟨[⟨.template, b⟩], .opened (.restOfTemplate hne hb), by simp [scannedText], by simp⟩
  obtain ⟨hsegments, hends⟩ := segments_lineOf_of_reads hreads htext (by simp)
  refine ⟨hends, fun f => ?_⟩
  rw [output_of_template ((starts_lineOf c b).trans hc),
    lineText_of_ends_template (by rwa [hsegments]) hends, Line.text, hsegments, htext, hc]
  rfl

/-- A line in which the literal ends and the statement after it is kept up to the semicolon. -/
theorem lineText_close (style : CodeStyle)
    (hreads : Reads c.mode (ss ++ [⟨.code, z ++ [';']⟩]) .code)
    (htext : textOf ss ++ (z ++ [';']) = scannedText c.mode raw)
    (hplain : ∀ s ∈ ss, s.kind ≠ .string) (f : Option Line) :
    lineText style (lineOf c raw).1 f = textOf ss ++ z ++ [';'] ∨
      lineText style (lineOf c raw).1 f = textOf ss ++ z := by
  have hsemicolon : EndsSolid (z ++ [';']) := endsSolid_concat (by decide)
  have hall : textOf (ss ++ [⟨.code, z ++ [';']⟩]) = textOf ss ++ (z ++ [';']) := by simp [textOf]
  obtain ⟨hsegments, hends⟩ := segments_lineOf_of_reads hreads (hall.trans htext)
    fun _ => hall ▸ hsemicolon.append (by simp)
  have hsound := sound_lineOf c raw
  have hbears : Segment.bears ⟨.code, z ++ [';']⟩ = true := by
    simp [Segment.bears, show isBlank ';' = false by decide]
  refine hsound.lineText_semicolon ?_ (hsound.code_eq_text hsegments hbears hsemicolon) ?_
  · rw [hsegments]
    simpa [or_imp, forall_and] using hplain
  · rw [Line.text, hsegments, hall, List.append_assoc]

theorem IsPlainCode.concat_semicolon (h : IsPlainCode z) : IsPlainCode (z ++ [';']) :=
  h.append (.of_all (by decide))

/-- What is left of a line up to its semicolon. -/
def UpToSemicolon (s t : List Char) : Prop := t = s ++ [';'] ∨ t = s

/-- The last line of a literal of several lines. -/
theorem output_close (style : CodeStyle) (hc : c.mode = .template) (hb : Body '`' b)
    (hz : IsPlainCode z) (f : Option Line) : ∃ t, UpToSemicolon (b ++ '`' :: z) t ∧
      (lineOf c (b ++ '`' :: (z ++ [';']))).1.output style f = ⟨t, true⟩ := by
  have hreads : Reads c.mode ([⟨.template, b ++ ['`']⟩] ++ [⟨.code, z ++ [';']⟩]) .code := by
    rw [hc]
    exact .closed (.restOfTemplate hb) (.code (by simp) (hz.concat_semicolon.without _)
      literalFirst_nil (.nil _))
  have htext : textOf [⟨.template, b ++ ['`']⟩] ++ (z ++ [';']) =
      scannedText c.mode (b ++ '`' :: (z ++ [';'])) := by
    simp [scannedText, hc]
  have hline := lineText_close style hreads htext (by simp) f
  rw [output_of_template ((starts_lineOf c _).trans hc)]
  exact ⟨_, by simpa [UpToSemicolon] using hline, rfl⟩

/-- The only line of a statement whose literal has one line. -/
theorem output_single (style : CodeStyle) (hc : c.mode = .code) (hw : IsStatementStart w)
    (hb : Body '`' b) (hz : IsPlainCode z) (f : Option Line) :
    ∃ margin t, UpToSemicolon (w ++ '`' :: (b ++ '`' :: z)) t ∧
      ((lineOf c (w ++ '`' :: (b ++ '`' :: (z ++ [';'])))).1.output style f).text =
        margin ++ t := by
  have hreads : Reads c.mode ([⟨.code, w⟩, ⟨.template, '`' :: (b ++ ['`'])⟩] ++
      [⟨.code, z ++ [';']⟩]) .code := by
    rw [hc]
    exact .code hw.ne_nil (hw.plain.without _) (literalFirst_cons (by simp))
      (.closed (.literal .template hb) (.code (by simp) (hz.concat_semicolon.without _)
        literalFirst_nil (.nil _)))
  generalize hraw : w ++ '`' :: (b ++ '`' :: (z ++ [';'])) = raw
  have htext : textOf [⟨.code, w⟩, ⟨.template, '`' :: (b ++ ['`'])⟩] ++ (z ++ [';']) =
      scannedText c.mode raw := by
    rw [hc, ← hraw, hw.scannedText_append]
    simp
  have hline := lineText_close style hreads htext (by simp) f
  have hmem : '`' ∈ lineText style (lineOf c raw).1 f := by
    rcases hline with hline | hline <;> simp [hline]
  obtain ⟨margin, hout⟩ := exists_output_of_code ((starts_lineOf c raw).trans hc) hmem
  exact ⟨margin, _, by simpa [UpToSemicolon] using hline, hout⟩

/-- All lines inside of a literal are put out as they are. -/
theorem outputLines_inside (style : CodeStyle) (hc : c.mode = .template)
    (h : ∀ raw ∈ raws, OpenBody '`' raw) (ls : List Line) : (carryAfter c raws).mode = .template ∧
      outputLines style (linesAfter c raws ++ ls) =
        raws.map (fun raw => ⟨raw, true⟩) ++ outputLines style ls := by
  induction raws generalizing c with
  | nil => exact ⟨hc, rfl⟩
  | cons raw raws ih =>
      rw [List.forall_mem_cons] at h
      obtain ⟨hmode, hout⟩ := output_inside style hc h.1
      obtain ⟨hcarry, hrest⟩ := ih hmode h.2
      refine ⟨hcarry, ?_⟩
      rw [linesAfter_cons, List.cons_append, outputLines_cons, hout, hrest]
      rfl

-- ============================================================================
-- Statements
-- ============================================================================

/-- The lines of a statement are put out next to each other, and up to the semicolon they have its
text. -/
def PutsOut (outs : List OutputLine) (text : List Char) : Prop :=
  ∃ o literals rest, outs = o :: (literals ++ rest) ∧ o.text ≠ [] ∧
    (∀ o ∈ literals, o.literal = true) ∧ text <:+: joinWith ['\n'] ((o :: literals).map (·.text))

theorem UpToSemicolon.isInfix {x t : List Char} (h : UpToSemicolon x t) (margin : List Char) :
    x <:+: margin ++ t := by
  rcases h with rfl | rfl
  · exact (List.prefix_append x [';']).isInfix.trans (List.suffix_append _ _).isInfix
  · exact (List.suffix_append _ _).isInfix

theorem putsOut_single (style : CodeStyle) (hc : c.mode = .code) (hw : IsStatementStart w)
    (hb : Body '`' b) (hz : IsPlainCode z) (raws : List (List Char)) :
    PutsOut (outputLines style (linesAfter c ((w ++ '`' :: (b ++ '`' :: (z ++ [';']))) :: raws)))
      (w ++ '`' :: (b ++ '`' :: z)) := by
  rw [linesAfter_cons, outputLines_cons]
  generalize following? _ = f
  obtain ⟨margin, t, ht, hout⟩ := output_single style hc hw hb hz f
  refine ⟨_, [], _, rfl, ?_, by simp, ?_⟩
  · rw [hout]
    rcases ht with rfl | rfl <;> simp
  · rw [List.map_singleton, joinWith_singleton, hout]
    exact ht.isInfix margin

theorem putsOut_several (style : CodeStyle) (hc : c.mode = .code) (hw : IsStatementStart w)
    {first last : List Char} {inner : List (List Char)} (hfirst : OpenBody '`' first)
    (hinner : ∀ b ∈ inner, OpenBody '`' b)
    (hlast : Body '`' last) (hz : IsPlainCode z) (raws : List (List Char)) :
    PutsOut (outputLines style (linesAfter c ((w ++ '`' :: first) ::
        (inner ++ (last ++ '`' :: (z ++ [';'])) :: raws))))
      (w ++ '`' :: (joinWith ['\n'] (first :: (inner ++ [last])) ++ '`' :: z)) := by
  rw [linesAfter_cons, outputLines_cons]
  generalize following? _ = f
  obtain ⟨hmode, hout⟩ := output_open style hc hw hfirst
  obtain ⟨margin, hout⟩ := hout f
  rw [linesAfter_append, (outputLines_inside style hmode hinner _).2, linesAfter_cons,
    outputLines_cons]
  generalize following? _ = f'
  have hclose := (outputLines_inside style hmode hinner []).1
  obtain ⟨t, ht, hlastOut⟩ := output_close style hclose hlast hz f'
  rw [hlastOut]
  refine ⟨_, inner.map (fun b => ⟨b, true⟩) ++ [⟨t, true⟩], _, by rw [List.append_assoc]; rfl, ?_,
    ?_, ?_⟩
  · rw [hout]
    simp
  · simp only [List.mem_append, List.mem_map, List.mem_singleton]
    rintro o (⟨b, -, rfl⟩ | rfl) <;> rfl
  · have htexts : (inner.map fun b => (⟨b, true⟩ : OutputLine)).map (·.text) = inner := by
      rw [List.map_map]
      exact List.map_id _
    have htail (y : List Char) : joinWith ['\n'] (first :: (inner ++ [last ++ y])) =
        joinWith ['\n'] (first :: (inner ++ [last])) ++ y :=
      joinWith_concat_append ['\n'] last y (first :: inner)
    rw [List.map_cons, List.map_append, htexts, hout, List.map_singleton, joinWith_append_cons]
    refine UpToSemicolon.isInfix ?_ margin
    have hjoin := joinWith_append_cons ['\n'] (w ++ ['`']) first (inner ++ [t])
    rw [List.append_assoc, List.singleton_append] at hjoin
    rw [hjoin, UpToSemicolon]
    rcases ht with rfl | rfl
    · rw [List.append_assoc last, htail]
      exact .inl (by simp)
    · rw [htail]
      exact .inr (by simp)

/-- What a statement puts out, whatever its literal says. -/
theorem putsOut_statement (style : CodeStyle) (hc : c.mode = .code) (hw : IsStatementStart w)
    (hz : IsPlainCode z) (s : List Char) (raws : List (List Char)) :
    PutsOut (outputLines style (linesAfter c
      (splitOn '\n' (w ++ Script.template s ++ z ++ [';']) ++ raws)))
      (w ++ Script.template s ++ z) := by
  obtain ⟨init, last, hlines⟩ : ∃ init last, splitOn '\n' s = init ++ [last] :=
    ⟨_, _, (List.dropLast_append_getLast (splitOn_ne_nil '\n' s)).symm⟩
  have hfront : '\n' ∉ w ++ ['`'] := by
    have hw' : '\n' ∉ w := fun h => (hw.plain _ h).2 rfl
    simp [hw']
  have hback : '\n' ∉ '`' :: (z ++ [';']) := by
    have hz' : '\n' ∉ z := fun h => (hz _ h).2 rfl
    simp [hz']
  have hbody : splitOn '\n' (Script.templateBody s) =
      init.map Script.templateBody ++ [Script.templateBody last] := by
    rw [Script.splitOn_templateBody, hlines, List.map_append]
    rfl
  have hjoin := joinWith_splitOn '\n' (Script.templateBody s)
  have htail := splitOn_append_tail hback hbody
  have hstatement : w ++ Script.template s ++ z ++ [';'] =
      (w ++ ['`']) ++ (Script.templateBody s ++ '`' :: (z ++ [';'])) := by simp [Script.template]
  have htext : w ++ Script.template s ++ z = w ++ '`' :: (Script.templateBody s ++ '`' :: z) := by
    simp [Script.template]
  rw [hstatement, htext, ← hjoin, hbody]
  rw [← hjoin, hbody] at htail
  cases init with
  | nil =>
      rw [List.map_nil, List.nil_append] at htail ⊢
      rw [splitOn_append_of_not_mem hfront htail]
      have hout := putsOut_single style hc hw (body_templateBody last) hz raws
      simpa using hout
  | cons first init =>
      rw [List.map_cons, List.cons_append] at htail ⊢
      rw [splitOn_append_of_not_mem hfront htail]
      have hinner : ∀ b ∈ init.map Script.templateBody, OpenBody '`' b :=
        List.forall_mem_map.mpr fun line _ => (body_templateBody line).openBody
      have hout := putsOut_several style hc hw (body_templateBody first).openBody
        hinner (body_templateBody last) hz raws
      simpa using hout

/-- Lines that are put out next to each other are written next to each other. -/
theorem PutsOut.infix_collapse {text : List Char} (h : PutsOut outs text) (started gap : Bool)
    (before : List OutputLine) :
    text <:+: joinWith ['\n'] (collapse started gap (before ++ outs)) := by
  obtain ⟨o, literals, rest, rfl, hne, hliteral, hinfix⟩ := h
  obtain ⟨texts, started', gap', hbefore⟩ :=
    collapse_append started gap before (o :: (literals ++ rest))
  obtain ⟨texts', hliterals⟩ := collapse_literal hliteral rest
  have hkept : ¬ (o.text.isEmpty && !o.literal) = true := by simp [hne]
  obtain ⟨blank, hfirst⟩ : ∃ blank, collapse started' gap' (o :: (literals ++ rest)) =
      blank ++ (o.text :: (literals.map (·.text) ++ texts')) := by
    rw [collapse_of_kept hkept, hliterals]
    split
    · exact ⟨[[]], rfl⟩
    · exact ⟨[], rfl⟩
  have hall : collapse started gap (before ++ o :: (literals ++ rest)) =
      (texts ++ blank) ++ (o :: literals).map (·.text) ++ texts' := by
    rw [hbefore, hfirst]
    simp
  rw [hall]
  exact hinfix.trans (infix_joinWith_append (by simp))

/-- A statement that begins a line in code, with a template literal as its only literal, is in the
formatted program as it is, up to the semicolon at its end. -/
theorem template_statement_kept (style : CodeStyle) {pre s : List Char} (post : List Char)
    (hpre : Sealed (pre ++ ['\n'])) (hw : IsStatementStart w) (hz : IsPlainCode z)
    (hs : '\r' ∉ s) :
    w ++ Script.template s ++ z <:+:
      format style (pre ++ '\n' :: (w ++ Script.template s ++ z ++ ';' :: '\n' :: post)) := by
  generalize htext : w ++ Script.template s ++ z = text
  have hreturn : '\r' ∉ pre ++ '\n' :: (text ++ [';', '\n']) := by
    have hplain : ∀ {t : List Char}, IsPlainCode t → '\r' ∉ t := fun ht hmem =>
      absurd (ht _ hmem).1 (by decide)
    have hliteral := (Sealed.template hs).noReturn
    have hbefore := hpre.noReturn
    rw [← htext]
    simp only [List.mem_append, List.mem_cons, not_or] at hbefore ⊢
    exact ⟨hbefore.1, by decide, ⟨⟨hplain hw.plain, hliteral⟩, hplain hz⟩, by decide, by decide,
      by simp⟩
  have hcode : unifyNewlines (pre ++ '\n' :: (text ++ ';' :: '\n' :: post)) =
      pre ++ '\n' :: ((text ++ [';']) ++ '\n' :: unifyNewlines post) := by
    have hunify := unifyNewlines_append hreturn post
    simpa using hunify
  have hmode : (carryAfter {} (splitOn '\n' pre)).mode = .code :=
    (mode_carryAfter {} _).trans hpre.endMode_lines
  have hputs := putsOut_statement style hmode hw hz s (splitOn '\n' (unifyNewlines post))
  rw [htext] at hputs
  obtain ⟨before, hbefore⟩ := outputLines_append style (linesAfter {} (splitOn '\n' pre))
    (linesAfter (carryAfter {} (splitOn '\n' pre))
      (splitOn '\n' (text ++ [';']) ++ splitOn '\n' (unifyNewlines post)))
  rw [format_eq, written, linesOf, hcode, splitOn_append_cons, splitOn_append_cons,
    linesAfter_append, hbefore]
  exact (hputs.infix_collapse false false before).trans (List.prefix_append _ _).isInfix

end Format

end Flowscript

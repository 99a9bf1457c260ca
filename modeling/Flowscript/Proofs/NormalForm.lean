/-
  Flowscript.Proofs.NormalForm

  The form of formatted programs.

  What is put out for a line is empty or not blank (`isClean_indentLine`), so the only
  blank lines outside of template literals are those that are put in for a run of blank
  ones, and each of these has a line after it (`isFollowed_collapse`).  A line has no white
  space at its end, unless its separator is taken away, which nothing follows, and leaves
  the white space before it (`Line.Sound.endsSolid_indentLine_iff`).
-/
import Flowscript.Proofs.SecondPass
import Flowscript.Proofs.TemplateText

namespace Flowscript.Format

open Text

variable {style : CodeStyle} {c : Carry} {l : Line} {f : Option Line} {m : Mode}
  {raws ts : List (List Char)} {outs : List OutputLine} {s t code : List Char}
  {P Q : Mode → List Char → List (List Char) → Prop}

-- ============================================================================
-- Lines and modes
-- ============================================================================

/-- What holds of each of the lines, given the mode it starts in and the lines after it. -/
def EachLine (P : Mode → List Char → List (List Char) → Prop) : Mode → List (List Char) → Prop
  | _, [] => True
  | m, t :: ts => P m t ts ∧ EachLine P (scan m t).mode ts

theorem EachLine.mono (h : EachLine P m ts) (hPQ : ∀ {m t ts}, P m t ts → Q m t ts) :
    EachLine Q m ts := by
  induction ts generalizing m with
  | nil => trivial
  | cons t ts ih => exact ⟨hPQ h.1, ih h.2⟩

theorem EachLine.last (h : EachLine P m (ts ++ [t])) : P (endMode m ts) t [] := by
  induction ts generalizing m with
  | nil => exact h.1
  | cons u ts ih => exact ih h.2

theorem endMode_concat (m : Mode) (ts : List (List Char)) (t : List Char) :
    endMode m (ts ++ [t]) = (scan (endMode m ts) t).mode := by
  induction ts generalizing m with
  | nil => rfl
  | cons u ts ih => exact ih _

/-- The lines of a text that ends with a line break. -/
def closedLines (s : List Char) : List (List Char) := (splitOn '\n' s).dropLast

/-- A line outside of template literals that is blank has no blank line after it. -/
def IsSpaced (m : Mode) (t : List Char) (later : List (List Char)) : Prop :=
  m ≠ .template → isBlankText t = true → ∀ u ∈ later.head?, isBlankText u = false

/-- A line that does not end inside of a template literal does not end in white space. -/
def EndsClean (m : Mode) (t : List Char) (_ : List (List Char)) : Prop :=
  (scan m t).mode ≠ .template → EndsSolid t

instance (s : List Char) : Decidable (EndsSolid s) :=
  decidable_of_iff (s.getLast?.all fun c => !isBlank c) (by simp [Option.all_eq_true, EndsSolid])

instance (m : Mode) (t : List Char) (ts : List (List Char)) : Decidable (EndsClean m t ts) :=
  inferInstanceAs (Decidable (_ → _))

instance EachLine.decidable [∀ m t ts, Decidable (P m t ts)] (m : Mode) :
    (ts : List (List Char)) → Decidable (EachLine P m ts)
  | [] => .isTrue trivial
  | _ :: ts => @instDecidableAnd _ _ _ (EachLine.decidable _ ts)

/-- A text without surplus white space, but for that at the ends of its lines. -/
structure IsTidy (s : List Char) : Prop where
  no_return : '\r' ∉ s
  one_newline : ∃ body, s = body ++ ['\n'] ∧ body.getLast? ≠ some '\n'
  first_line : s = ['\n'] ∨ ∀ t ∈ (closedLines s).head?, isBlankText t = false
  spaced : EachLine IsSpaced .code (closedLines s)

-- ============================================================================
-- Blank lines
-- ============================================================================

/-- The line is literal, empty or not blank. -/
def OutputLine.IsClean (o : OutputLine) : Prop :=
  o.literal = true ∨ o.text = [] ∨ isBlankText o.text = false

theorem isClean_indentLine (style : CodeStyle) (l : Line) (t : List Char) :
    (indentLine style l t).IsClean := by
  have hindented := indented_indentLine style l t
  have hliteral := literal_indentLine style l t
  generalize indentLine style l t = o at hindented hliteral
  obtain ⟨text, literal⟩ := o
  cases hindented with
  | literal hstarts => exact .inl (hliteral.mpr hstarts)
  | blank _ _ => exact .inr (.inl rfl)
  | code _ hsolid _ =>
      refine .inr (.inr ?_)
      show isBlankText (_ ++ t) = false
      rw [isBlankText_append, hsolid, Bool.and_false]
  | comment _ hsolid _ =>
      refine .inr (.inr ?_)
      show isBlankText (_ ++ trim t) = false
      rw [isBlankText_append, trim, isBlankText_trimEnd, isBlankText_trimStart, hsolid,
        Bool.and_false]

theorem isClean_outputLines (style : CodeStyle) (ls : List Line) :
    ∀ o ∈ outputLines style ls, o.IsClean := by
  induction ls with
  | nil => exact List.forall_mem_nil _
  | cons l ls ih => exact List.forall_mem_cons.mpr ⟨isClean_indentLine style l _, ih⟩

/-- A line outside of template literals that is not left out is not blank. -/
theorem OutputLine.IsClean.isBlankText_eq {o : OutputLine} (h : o.IsClean)
    (hwritten : (o.text.isEmpty && !o.literal) = false) (hliteral : o.literal = false) :
    isBlankText o.text = false := by
  rcases h with h | h | h
  · rw [hliteral] at h
    cases h
  · rw [h, hliteral] at hwritten
    cases hwritten
  · exact h

/-- A line outside of template literals that is blank has a line after it that is not. -/
def IsFollowed (m : Mode) (t : List Char) (later : List (List Char)) : Prop :=
  m ≠ .template → isBlankText t = true → ∃ u us, later = u :: us ∧ isBlankText u = false

theorem IsFollowed.isSpaced (h : IsFollowed m t ts) : IsSpaced m t ts := by
  intro hm hblank v hv
  obtain ⟨u, us, rfl, hu⟩ := h hm hblank
  cases hv
  exact hu

/-- Of blank lines outside of template literals only those are written that have a line after
them. -/
theorem isFollowed_collapse (started gap : Bool) (h : Marked m outs)
    (hgap : gap = true → m ≠ .template) (hclean : ∀ o ∈ outs, o.IsClean) :
    EachLine IsFollowed m (collapse started gap outs) := by
  induction outs generalizing m started gap with
  | nil => trivial
  | cons o outs ih =>
      obtain ⟨hliteral, hrest⟩ := h
      rw [List.forall_mem_cons] at hclean
      have hplain : m ≠ .template → o.literal = false := fun hm => by
        rw [← Bool.not_eq_true, hliteral]
        exact hm
      rw [collapse]
      split
      · next hskip =>
        rw [Bool.and_eq_true, Bool.not_eq_true', List.isEmpty_iff] at hskip
        have hm : m ≠ .template := by
          rw [Ne, ← hliteral, hskip.2]
          simp
        rw [hskip.1, scan_nil] at hrest
        exact ih started true hrest (fun _ => hm) hclean.2
      · next hwritten =>
        rw [Bool.not_eq_true] at hwritten
        have hsolid : m ≠ .template → isBlankText o.text = false := fun hm =>
          hclean.1.isBlankText_eq hwritten (hplain hm)
        have hlater := ih true false hrest (by simp) hclean.2
        have hself : ∀ later, IsFollowed m o.text later := fun _ hm hblank => by
          rw [hsolid hm] at hblank
          cases hblank
        split
        · next hopen =>
          rw [Bool.and_eq_true] at hopen
          refine ⟨fun hm _ => ⟨_, _, rfl, hsolid hm⟩, ?_⟩
          rw [scan_nil]
          exact ⟨hself _, hlater⟩
        · exact ⟨hself _, hlater⟩

/-- The first line is not blank. -/
theorem head?_collapse (gap : Bool) (h : Marked .code outs) (hclean : ∀ o ∈ outs, o.IsClean) :
    ∀ t ∈ (collapse false gap outs).head?, isBlankText t = false := by
  induction outs generalizing gap with
  | nil => nofun
  | cons o outs ih =>
      obtain ⟨hliteral, hrest⟩ := h
      rw [List.forall_mem_cons] at hclean
      rw [collapse]
      split
      · next hskip =>
        rw [Bool.and_eq_true, List.isEmpty_iff] at hskip
        rw [hskip.1, scan_nil] at hrest
        exact ih true hrest hclean.2
      · next hwritten =>
        rw [Bool.not_eq_true] at hwritten
        rw [Bool.and_false, if_neg (by simp)]
        intro t ht
        cases ht
        refine hclean.1.isBlankText_eq hwritten ?_
        rw [← Bool.not_eq_true, hliteral]
        simp

-- ============================================================================
-- The ends of lines
-- ============================================================================

theorem endsSolid_append_iff (ht : isBlankText t = false) : EndsSolid (s ++ t) ↔ EndsSolid t := by
  refine ⟨EndsSolid.of_append, fun h => h.append ?_⟩
  rintro rfl
  cases ht

theorem isBlankText_congr (h : s.map plainQuote = t.map plainQuote) :
    isBlankText s = isBlankText t := by
  have hmap : ∀ s : List Char, isBlankText (s.map plainQuote) = isBlankText s := fun s => by
    rw [isBlankText, List.all_map]
    exact congrArg s.all (funext isBlank_plainQuote)
  rw [← hmap s, h, hmap]

/-- If nothing follows the separator that is taken from a line, what is left is the code before
it. -/
theorem Line.Sound.map_plainQuote_lineText (h : l.Sound) (hedit : l.edit style f = .remove)
    (hrest : l.rest = []) :
    (lineText style l f).map plainQuote = l.code.dropLast.map plainQuote := by
  obtain ⟨hcode, hrest'⟩ := h.map_plainQuote_code style
  rw [hrest, List.map_nil, List.map_eq_nil_iff] at hrest'
  rw [h.lineText_of_remove hedit, hrest', List.append_nil, List.map_dropLast, hcode,
    List.map_dropLast]

/-- Otherwise the text of the line does not end in white space. -/
theorem Line.Sound.endsSolid_lineText (h : l.Sound) (hends : l.ends ≠ .template)
    (hother : ¬ (l.edit style f = .remove ∧ l.rest = [])) : EndsSolid (lineText style l f) := by
  have hsolid : EndsSolid (l.requoted style).text := (h.requoted style).endsSolid hends
  have hrest : EndsSolid (l.requoted style).rest := by
    rw [Line.text_eq] at hsolid
    exact hsolid.of_append
  cases hskip : l.isSkipped with
  | true =>
      rw [lineText_of_skipped hskip]
      exact h.endsSolid hends
  | false =>
      cases hedit : l.edit style f with
      | remove =>
          rw [h.lineText_of_remove hedit]
          refine hrest.append fun hnil => hother ⟨hedit, ?_⟩
          have hmap := (h.map_plainQuote_code style).2
          rw [hnil, List.map_nil] at hmap
          exact List.map_eq_nil_iff.mp hmap.symm
      | keep =>
          rw [lineText_of_not_skipped hskip, hedit]
          exact hsolid
      | insert sep =>
          have hedits := edits_lineEdit style (l.requoted style) f
          rw [show lineEdit style (l.requoted style) f = .insert sep from hedit] at hedits
          rw [lineText_of_not_skipped hskip, hedit,
            show l.codeEnd = (l.requoted style).codeEnd from rfl, Line.apply_insert]
          cases hedits with
          | insert hsep _ _ =>
              cases hcases : (l.requoted style).rest with
              | nil => exact endsSolid_concat (isBlank_eq_false_of_isSeparator hsep)
              | cons d rest =>
                  rw [hcases] at hrest
                  rw [← List.singleton_append, ← List.append_assoc]
                  exact hrest.append (by simp)

/-- The line loses its separator, which nothing follows, and keeps white space before it.  A line
that starts in a comment is trimmed after that. -/
def Line.LeavesBlank (style : CodeStyle) (l : Line) (f : Option Line) : Prop :=
  l.starts ≠ .comment ∧ l.edit style f = .remove ∧ l.rest = [] ∧ ¬ EndsSolid l.code.dropLast

/-- What is put out for a line ends in white space only if white space is left behind. -/
theorem Line.Sound.endsSolid_indentLine_iff (h : l.Sound) (hends : l.ends ≠ .template) :
    EndsSolid (indentLine style l (lineText style l f)).text ↔ ¬ l.LeavesBlank style f := by
  have hindented := indented_indentLine style l (lineText style l f)
  generalize (indentLine style l (lineText style l f)).text = out at hindented
  by_cases hremoved : l.edit style f = .remove ∧ l.rest = []
  · -- the text of the line is its code without the separator
    obtain ⟨hedit, hrest⟩ := hremoved
    have hleft := h.map_plainQuote_lineText hedit hrest
    have hiff : EndsSolid (lineText style l f) ↔ EndsSolid l.code.dropLast :=
      ⟨(solid_congr hleft.symm).2, (solid_congr hleft).2⟩
    have hblanks : l.LeavesBlank style f ↔
        l.starts ≠ .comment ∧ ¬ EndsSolid (lineText style l f) := by
      rw [Line.LeavesBlank, hiff]
      exact ⟨fun h => ⟨h.1, h.2.2.2⟩, fun h => ⟨h.1, hedit, hrest, h.2⟩⟩
    rw [hblanks]
    cases hindented with
    | literal hstarts => simp [hstarts]
    | blank hstarts hblank =>
        refine iff_of_true (by intro d hd; cases hd) fun ⟨hcomment, hsolid⟩ => hsolid ?_
        have hcode : l.starts = .code := by
          cases hm : l.starts with
          | code => rfl
          | template => exact absurd hm hstarts
          | comment => exact absurd hm hcomment
        -- the line starts with code, so nothing is left of it
        rw [hiff]
        cases hcases : l.code.dropLast with
        | nil => intro d hd; cases hd
        | cons d left =>
            have hprefix : l.code.dropLast <+: l.text :=
              (List.dropLast_prefix _).trans (List.take_prefix _ _)
            rw [hcases] at hprefix
            obtain ⟨rest, htext⟩ := hprefix
            have hsolid := h.startsSolid hcode d (by rw [← htext]; rfl)
            rw [isBlankText_congr hleft, hcases, isBlankText_cons, hsolid] at hblank
            cases hblank
    | code hstarts hsolid _ =>
        rw [endsSolid_append_iff hsolid]
        simp [hstarts]
    | comment hstarts hsolid _ =>
        refine iff_of_true ?_ (by simp [hstarts])
        exact (endsSolid_trim _).append (by rw [Ne, trim_eq_nil_iff, hsolid]; simp)
  · have hsolid := h.endsSolid_lineText hends hremoved
    refine iff_of_true ?_ fun hblank => hremoved ⟨hblank.2.1, hblank.2.2.1⟩
    cases hindented with
    | literal _ => exact hsolid
    | blank _ _ => intro d hd; cases hd
    | code _ hblank _ => exact (endsSolid_append_iff hblank).mpr hsolid
    | comment _ hblank _ =>
        exact (endsSolid_trim _).append (by rw [Ne, trim_eq_nil_iff, hblank]; simp)

/-- Blank lines that are left out or put in have no white space. -/
theorem endsClean_collapse (started gap : Bool) :
    EachLine EndsClean m (collapse started gap outs) ↔
      EachLine EndsClean m (outs.map (·.text)) := by
  have hempty : ∀ m later, EndsClean m [] later := fun m later _ d hd => by cases hd
  induction outs generalizing m started gap with
  | nil => exact Iff.rfl
  | cons o outs ih =>
      rw [collapse, List.map_cons, EachLine]
      split
      · next hskip =>
        rw [Bool.and_eq_true, List.isEmpty_iff] at hskip
        rw [hskip.1, scan_nil]
        exact (ih started true).trans (and_iff_right (hempty _ _)).symm
      · have hself : EndsClean m o.text (collapse true false outs) ∧
            EachLine EndsClean (scan m o.text).mode (collapse true false outs) ↔
              EndsClean m o.text (outs.map (·.text)) ∧
                EachLine EndsClean (scan m o.text).mode (outs.map (·.text)) :=
          and_congr Iff.rfl (ih true false)
        split
        · rw [EachLine, scan_nil, EachLine]
          exact (and_iff_right (hempty _ _)).trans hself
        · exact hself

/-- The lines that are put out do not end in white space, unless some is left behind. -/
theorem endsClean_outputLines (style : CodeStyle) (c : Carry) (raws : List (List Char)) :
    EachLine EndsClean c.mode ((outputLines style (linesAfter c raws)).map (·.text)) ↔
      ∀ l rest, l :: rest <:+ linesAfter c raws → ¬ l.LeavesBlank style (following? rest) := by
  induction raws generalizing c with
  | nil =>
      refine iff_of_true trivial fun l rest h => ?_
      simp [linesAfter] at h
  | cons raw raws ih =>
      have hsound := sound_lineOf c raw
      obtain ⟨rest, hrest⟩ : ∃ rest, linesAfter (lineOf c raw).2 raws = rest := ⟨_, rfl⟩
      have hmode := (hsound.scan_indentLine style (following? rest)).1
      rw [starts_lineOf] at hmode
      have ih := ih (lineOf c raw).2
      rw [hrest, mode_lineOf, ← hmode] at ih
      simp only [linesAfter, hrest, outputLines, List.map_cons, EachLine]
      rw [ih, EndsClean, hmode]
      constructor
      · rintro ⟨hself, hlater⟩ l later hsuffix
        rcases List.suffix_cons_iff.mp hsuffix with heq | hsuffix
        · cases heq
          by_cases hends : (lineOf c raw).1.ends = .template
          · rintro ⟨-, hedit, -⟩
            cases hends.symm.trans (ends_of_remove hedit)
          · exact (hsound.endsSolid_indentLine_iff hends).mp (hself hends)
        · exact hlater l later hsuffix
      · intro h
        refine ⟨fun hends => ?_, fun l later hsuffix => ?_⟩
        · exact (hsound.endsSolid_indentLine_iff hends).mpr (h _ _ List.suffix_rfl)
        · exact h l later (hsuffix.trans (List.suffix_cons _ _))

-- ============================================================================
-- Programs
-- ============================================================================

theorem closedLines_format (style : CodeStyle) (code : List Char) :
    closedLines (format style code) =
      if written style code = [] then [[]] else written style code := by
  rw [closedLines, splitOn_format, List.dropLast_concat]

/-- What holds of each written line holds of each line of the text, if it does of an empty one. -/
theorem eachLine_closedLines (hempty : P .code [] []) :
    EachLine P .code (closedLines (format style code)) ↔ EachLine P .code (written style code) := by
  rw [closedLines_format]
  split
  · next hnil =>
    rw [hnil]
    exact iff_of_true ⟨hempty, trivial⟩ trivial
  · exact Iff.rfl

theorem marked_outputLines (style : CodeStyle) (code : List Char) :
    Marked .code (outputLines style (linesOf code)) :=
  (templateLines_outputLines style {} (splitOn '\n' (unifyNewlines code))).1

/-- The last line has no line after it, so it is not blank. -/
theorem getLast?_written_ne (style : CodeStyle) (h : EndsOutside (unifyNewlines code)) :
    (written style code).getLast? ≠ some [] := by
  obtain ⟨hmarked, hend, -⟩ :=
    templateLines_outputLines style {} (splitOn '\n' (unifyNewlines code))
  obtain ⟨-, hmode⟩ := templateLines_collapse false false hmarked (by simp)
  have hfollowed : EachLine IsFollowed .code (written style code) :=
    isFollowed_collapse false false hmarked (by simp) (isClean_outputLines style (linesOf code))
  have houtside : endMode .code (written style code) ≠ .template := fun htemplate =>
    h (hend.symm.trans (hmode.symm.trans htemplate))
  intro hlast
  obtain ⟨ts, hts⟩ := List.getLast?_eq_some_iff.mp hlast
  rw [hts] at hfollowed houtside
  rw [endMode_concat, scan_nil] at houtside
  obtain ⟨u, us, hnil, -⟩ := hfollowed.last houtside rfl
  cases hnil

/-- Text that is put together from lines ends with a line break only if the last one is empty. -/
theorem getLast?_joinWith_ne (h : ∀ t ∈ ts, '\n' ∉ t) (hlast : ts.getLast? ≠ some []) :
    (joinWith ['\n'] ts).getLast? ≠ some '\n' := by
  induction ts with
  | nil => simp
  | cons t ts ih =>
      rw [List.forall_mem_cons] at h
      cases ts with
      | nil => exact fun hmem => h.1 (List.mem_of_getLast? hmem)
      | cons u us =>
          rw [List.getLast?_cons_cons] at hlast
          have hrest := ih h.2 hlast
          rw [joinWith_cons_cons]
          cases hcases : joinWith ['\n'] (u :: us) with
          | nil =>
              cases us with
              | nil => exact absurd (congrArg some hcases) (by simpa using hlast)
              | cons v vs => simp at hcases
          | cons d rest =>
              rw [hcases] at hrest
              rwa [List.getLast?_append_of_ne_nil _ (by simp)]

/-- A formatted program has no carriage returns, ends with one line break, does not start with a
blank line and has no two blank lines in a row outside of template literals; and none of its lines
ends in white space outside of template literals, unless one of the program's lines has white space
before a separator at its end, and loses the separator. -/
theorem format_isTidy (style : CodeStyle) (code : List Char)
    (h : EndsOutside (unifyNewlines code)) :
    IsTidy (format style code) ∧
      (EachLine EndsClean .code (closedLines (format style code)) ↔
        ∀ l rest, l :: rest <:+ linesOf code → ¬ l.LeavesBlank style (following? rest)) := by
  have hmarked := marked_outputLines style code
  have hclean := isClean_outputLines style (linesOf code)
  have hfollowed := isFollowed_collapse false false hmarked (by simp) hclean
  have hlast := getLast?_written_ne style h
  refine ⟨⟨?_, ?_, ?_, ?_⟩, ?_⟩
  · rw [← unifyNewlines_format]
    exact not_mem_unifyNewlines _
  · exact ⟨_, format_eq style code, getLast?_joinWith_ne newline_not_mem_written hlast⟩
  · rw [closedLines_format]
    split
    · next hnil =>
      left
      rw [format_eq, hnil]
      rfl
    · exact .inr (head?_collapse false hmarked hclean)
  · exact (eachLine_closedLines fun _ _ => nofun).mpr (hfollowed.mono IsFollowed.isSpaced)
  · have hwritten : EachLine EndsClean .code (written style code) ↔ _ :=
      endsClean_collapse false false
    have hempty : EndsClean .code [] [] := fun _ d hd => by cases hd
    exact (eachLine_closedLines hempty).trans
      (hwritten.trans (endsClean_outputLines style {} (splitOn '\n' (unifyNewlines code))))

/-- A style without separators. -/
def sparseStyle : CodeStyle := { semicolons := false, trailingCommas := false }

/-- A program that loses its semicolons and a comma, with blank lines between statements and inside
of a template literal. -/
def spacedProgram : List Char :=
  "\n\na = [1,\r\n2,\r\n];  \n \n\t\nb = `c  \n\n\n`; // d \n\n".toList

theorem spacedProgram_isTidy :
    EndsOutside (unifyNewlines spacedProgram) ∧ IsTidy (format sparseStyle spacedProgram) ∧
      ∀ l rest, l :: rest <:+ linesOf spacedProgram →
        ¬ l.LeavesBlank sparseStyle (following? rest) := by
  have houtside : EndsOutside (unifyNewlines spacedProgram) := by
    unfold EndsOutside
    decide
  obtain ⟨htidy, hends⟩ := format_isTidy sparseStyle spacedProgram houtside
  exact ⟨houtside, htidy, hends.mp (by decide)⟩

-- White space that stands before a semicolon is left behind.
example : format sparseStyle "a ;".toList = "a \n".toList := by decide

end Flowscript.Format

/-
  Flowscript.Proofs.SecondPass

  A line that is formatted once more.

  The output for a line reads as the line itself, with other quotes, one separator more
  or less, and other white space around it.  So it has the brackets and the level of the
  line, and it is left as it is, if the separator that was taken from it is followed by
  nothing else to take (`Line.isRemovable`).
-/
import Flowscript.Proofs.BracketStack
import Flowscript.Proofs.EditRules
import Flowscript.Proofs.OutputLines

namespace Flowscript.Format

open Text

variable {style : CodeStyle} {c' : Carry} {l : Line} {f : Option Line} {m e : Mode}
  {base ss ss' ss₂ : List Segment} {s t : List Char} {sep q : Char}

-- ============================================================================
-- Lines as they are edited
-- ============================================================================

theorem Line.Sound.code_eq (h : l.Sound) : l.code = codeOf l.segments := by
  rw [Line.code, h.codeEnd]
  rfl

theorem Line.Sound.finalChar?_eq (h : l.Sound) :
    l.finalChar? = (programOf l.segments).getLast? := by
  rw [Line.finalChar?, h.code_eq, getLast?_codeOf]

/-- The separator at the end of the line's code can be taken away for good: it is not the only
character of code, it does not stand after another one of its kind, and neither white space
comes to stand at the end of the line nor a slash before a comment. -/
def Line.isRemovable (l : Line) : Bool :=
  (programOf l.segments).dropLast.getLast?.any (fun d => l.finalChar? ≠ some d) &&
    (l.starts = .comment || !l.rest.isEmpty || trimEnd l.code.dropLast = l.code.dropLast) &&
    !(l.code.dropLast.getLast? = some '/' && l.rest.head? = some '/')

/-- Lines that are left as they are have no edit. -/
theorem Line.Sound.edit_of_skipped (h : l.Sound) (hskip : l.isSkipped = true) :
    l.edit style f = .keep := by
  have hopen : isOpenEnded (l.requoted style) = false := by
    rw [← Bool.not_eq_true, isOpenEnded_iff]
    rintro ⟨hbears, hends⟩
    rw [Line.isSkipped, h.isBlank_eq_false hbears, Bool.false_or, Bool.and_eq_true,
      decide_eq_true_eq, decide_eq_true_eq] at hskip
    cases hskip.2.symm.trans hends
  exact lineEdit_of_not_isOpenEnded hopen

/-- A line that loses its separator keeps the code before it and what follows. -/
theorem Line.Sound.lineText_of_remove (h : l.Sound) (hedit : l.edit style f = .remove) :
    lineText style l f = (l.requoted style).code.dropLast ++ (l.requoted style).rest := by
  have hskip : l.isSkipped = false := by
    rw [← Bool.not_eq_true]
    intro hskip
    rw [h.edit_of_skipped hskip] at hedit
    cases hedit
  have hedits := edits_lineEdit style (l.requoted style) f
  rw [show lineEdit style (l.requoted style) f = l.edit style f from rfl, hedit] at hedits
  cases hedits with
  | remove _ _ _ hlast =>
      obtain ⟨left, hleft⟩ := List.getLast?_eq_some_iff.mp hlast
      rw [lineText_of_not_skipped hskip, hedit,
        show l.codeEnd = (l.requoted style).codeEnd from rfl,
        (h.requoted style).apply_remove hleft, hleft, List.dropLast_concat]

/-- A line that loses its separator ends outside of template literals. -/
theorem ends_of_remove (hedit : l.edit style f = .remove) : l.ends = .code := by
  have hedits := edits_lineEdit style (l.requoted style) f
  rw [show lineEdit style (l.requoted style) f = .remove from hedit] at hedits
  cases hedits with
  | remove _ hcode _ _ => exact hcode

theorem requote_of_getLast?_ne {r : List Char} (h : r.getLast? ≠ some q) (target : Char) :
    requote target (q :: r) = q :: r := by
  rw [requote, if_pos]
  simp [h]

theorem Inserted.requote_insert (hsep : isSeparator sep = true) (h : Inserted sep base ss)
    (hbase : requoteSegments q base = base) : requoteSegments q ss = ss := by
  induction h with
  | within _ _ _ =>
      rw [requoteSegments_cons, List.cons.injEq] at hbase ⊢
      exact ⟨rfl, hbase.2⟩
  | fresh _ _ => rw [requoteSegments_cons, hbase]; rfl
  | @inString q' b hq =>
      have hlast : (b ++ [sep]).getLast? ≠ some q' := by
        rw [List.getLast?_concat, Ne, Option.some.injEq]
        exact isSeparator_ne_quote hsep hq
      rw [requoteSegments_cons, if_pos rfl, requote_of_getLast?_ne hlast]
      rfl
  | later _ _ ih =>
      rw [requoteSegments_cons, List.cons.injEq] at hbase ⊢
      exact ⟨hbase.1, ih hbase.2⟩

theorem Reads.exists_tail {s : Segment} (h : Reads m (s :: ss) e) : ∃ m', Reads m' ss e := by
  cases h with
  | code _ _ _ hrest => exact ⟨_, hrest⟩
  | closed _ hrest => exact ⟨_, hrest⟩
  | opened _ => exact ⟨_, .nil _⟩

theorem Opened.openBody (h : Opened m .string (q :: t) e) : OpenBody q t := by
  obtain ⟨q', b, -, hb, htext⟩ := h.exists_body
  cases htext
  exact hb

theorem Inserted.requote_remove (hsep : isSeparator sep = true) (h : Inserted sep ss base)
    (hreads : Reads m base e) (hbase : requoteSegments q base = base) :
    requoteSegments q ss = ss := by
  induction h generalizing m with
  | within _ _ _ =>
      rw [requoteSegments_cons, List.cons.injEq] at hbase ⊢
      exact ⟨rfl, hbase.2⟩
  | fresh _ _ =>
      rw [requoteSegments_cons, List.cons.injEq] at hbase
      exact hbase.2
  | @inString q' b hq =>
      have hopen : OpenBody q' (b ++ [sep]) := by
        cases hreads with
        | closed hclosed _ =>
            refine absurd ?_ (hclosed.getLast?_ne hsep)
            rw [← List.cons_append, List.getLast?_concat]
        | opened hopened => exact hopened.openBody
      rw [requoteSegments_cons, if_pos rfl, requote_open hq hopen.of_append]
      rfl
  | later _ _ ih =>
      obtain ⟨m', hrest⟩ := hreads.exists_tail
      rw [requoteSegments_cons, List.cons.injEq] at hbase ⊢
      exact ⟨hbase.1, ih hrest hbase.2⟩

/-- An edit leaves the quotes in order. -/
theorem Touched.requote_eq {ed : Edit} (h : Touched ed base ss) (hreads : Reads m base e)
    (hbase : requoteSegments q base = base) : requoteSegments q ss = ss := by
  cases h with
  | keep => exact hbase
  | insert hsep _ hinserted => exact hinserted.requote_insert hsep hbase
  | remove hsep hinserted => exact hinserted.requote_remove hsep hreads hbase

/-- The segments `ss` are those of the line, with other quotes in `base`, after an edit. -/
structure Line.Retouched (style : CodeStyle) (l : Line) (ed : Edit) (base ss : List Segment) :
    Prop where
  alike : List.Forall₂ Segment.Alike l.segments base
  touched : Touched ed base ss
  reads : Reads l.starts ss l.ends
  quoted : l.isSkipped = false →
    base = requoteSegments style.quote l.segments ∧ requoteSegments style.quote ss = ss

theorem joined_congr {u u' v v' : List Char} (hu : u.map plainQuote = u'.map plainQuote)
    (hv : v.map plainQuote = v'.map plainQuote) (h : Joined u v) : Joined u' v' := by
  have hslash : ∀ d, plainQuote '/' = plainQuote d → d = '/' := fun d hd =>
    (plainQuote_eq_iff (by decide)).mp hd.symm
  constructor
  · have hlast := congrArg List.getLast? hu
    rw [List.getLast?_map, List.getLast?_map, h.1] at hlast
    obtain ⟨d, hd, hdq⟩ := Option.map_eq_some_iff.mp hlast.symm
    rw [hd, hslash d hdq.symm]
  · have hhead := congrArg List.head? hv
    rw [List.head?_map, List.head?_map, h.2] at hhead
    obtain ⟨d, hd, hdq⟩ := Option.map_eq_some_iff.mp hhead.symm
    rw [hd, hslash d hdq.symm]

/-- The text of a line has a reading that differs from the line in quotes and one separator. -/
theorem Line.Sound.exists_retouched (h : l.Sound)
    (hremove : l.edit style f = .remove → l.isRemovable = true) :
    ∃ base ss, l.Retouched style (l.edit style f) base ss ∧ textOf ss = lineText style l f := by
  cases hskip : l.isSkipped with
  | true =>
      refine ⟨l.segments, l.segments, ⟨alike_refl _, ?_, h.reads, fun hnot => ?_⟩, ?_⟩
      · rw [h.edit_of_skipped hskip]
        exact .keep
      · rw [hskip] at hnot
        cases hnot
      · exact (lineText_of_skipped hskip).symm
  | false =>
      have hq := isQuote_quote style
      obtain ⟨ss, hreads, htext, -, htouched⟩ :=
        (h.requoted style).exists_reads_apply (edits_lineEdit style (l.requoted style) f)
      have htouched : Touched (l.edit style f) (requoteSegments style.quote l.segments) ss := by
        refine htouched ?_
        rintro ⟨hedit, hjoined⟩
        have hremovable := hremove hedit
        rw [Line.isRemovable, Bool.and_eq_true, Bool.not_eq_true', Bool.and_eq_false_iff,
          decide_eq_false_iff_not, decide_eq_false_iff_not] at hremovable
        obtain ⟨hcode, hrest⟩ := h.map_plainQuote_code style
        have hjoined' : Joined l.code.dropLast l.rest := by
          refine joined_congr ?_ hrest hjoined
          rw [List.map_dropLast, hcode, ← List.map_dropLast]
        exact hremovable.2.elim (absurd hjoined'.1) (absurd hjoined'.2)
      refine ⟨_, ss, ⟨h.reads.alike_requote hq, htouched, hreads, fun _ => ⟨rfl, ?_⟩⟩, ?_⟩
      · exact htouched.requote_eq (h.reads.requote hq) (requoteSegments_requoteSegments _ _)
      · rw [htext, lineText_of_not_skipped hskip]
        rfl

-- ============================================================================
-- The ends of edited lines
-- ============================================================================

/-- A line that may lose its separator has code left, which does not end with that separator. -/
theorem Line.Sound.programOf_removed (h : l.Sound) (hremovable : l.isRemovable = true)
    (halike : List.Forall₂ Segment.Alike l.segments base) (hsep : isSeparator sep = true)
    (hbase : programOf base = programOf ss ++ [sep]) :
    programOf ss ≠ [] ∧ (programOf ss).getLast? ≠ some sep := by
  have hquote : isQuote sep = false := by
    rw [← Bool.not_eq_true]
    exact fun hq => isSeparator_ne_quote hsep hq rfl
  have hmap := map_plainQuote_programOf halike
  rw [hbase] at hmap
  have hleft : (programOf ss).map plainQuote = (programOf l.segments).dropLast.map plainQuote := by
    rw [List.map_dropLast, ← hmap, List.map_append]
    exact (List.dropLast_concat).symm
  have hfinal : l.finalChar? = some sep := by
    have hlast := congrArg List.getLast? hmap
    rw [List.map_append, List.map_singleton, List.getLast?_concat, List.getLast?_map,
      ← h.finalChar?_eq] at hlast
    obtain ⟨d, hd, hdq⟩ := Option.map_eq_some_iff.mp hlast.symm
    rw [(plainQuote_eq_iff hquote).mpr rfl, plainQuote_eq_iff hquote] at hdq
    rw [hd, hdq]
  rw [Line.isRemovable, Bool.and_eq_true, Bool.and_eq_true, Option.any_eq_true] at hremovable
  obtain ⟨⟨⟨d, hd, hne⟩, -⟩, -⟩ := hremovable
  rw [decide_eq_true_eq, hfinal, Ne, Option.some.injEq] at hne
  have hlast : (programOf ss).getLast?.map plainQuote = some (plainQuote d) := by
    rw [← List.getLast?_map, hleft, List.getLast?_map, hd]
    rfl
  constructor
  · intro hnil
    rw [hnil] at hlast
    cases hlast
  · intro hsame
    rw [hsame, Option.map_some, Option.some.injEq, (plainQuote_eq_iff hquote).mpr rfl] at hlast
    exact hne ((plainQuote_eq_iff hquote).mp hlast.symm).symm

/-- The edit takes the separator of a line only where it goes for good. -/
def Line.Allows (l : Line) (ed : Edit) : Prop := ed = .remove → l.isRemovable = true

theorem bearCode_of_programOf_ne_nil (h : programOf ss ≠ []) : bearCode ss = true := by
  rw [← Bool.not_eq_false, ← programOf_eq_nil_iff]
  exact h

theorem bearCode_of_alike (h : List.Forall₂ Segment.Alike ss ss') : bearCode ss' = bearCode ss := by
  induction h with
  | nil => rfl
  | cons hs _ ih => rw [bearCode_cons, bearCode_cons, hs.bears_eq, ih]

/-- The line has code after the edit if it has code before. -/
theorem Line.Retouched.bearCode_eq {ed : Edit} (hr : l.Retouched style ed base ss) (h : l.Sound)
    (hallows : l.Allows ed) : bearCode ss = bearCode l.segments := by
  rw [← bearCode_of_alike hr.alike]
  cases hr.touched with
  | keep => rfl
  | insert hsep hbears hinserted =>
      rw [hbears]
      exact bearCode_of_programOf_ne_nil (by rw [hinserted.programOf_eq hsep]; simp)
  | remove hsep hinserted =>
      have hprogram := hinserted.programOf_eq hsep
      have hleft := (h.programOf_removed (hallows rfl) hr.alike hsep hprogram).1
      rw [bearCode_of_programOf_ne_nil hleft]
      exact (bearCode_of_programOf_ne_nil (by rw [hprogram]; simp)).symm

/-- The code begins as before. -/
theorem Line.Retouched.sameStart {ed : Edit} (hr : l.Retouched style ed base ss) (h : l.Sound)
    (hallows : l.Allows ed) :
    SameStart (Format.leadingCode l.segments) (Format.leadingCode ss) := by
  refine (sameStart_of_alike hr.alike).trans ?_
  cases hr.touched with
  | keep => exact .refl _
  | insert hsep hbears hinserted => exact hinserted.sameStart hsep hbears
  | remove hsep hinserted =>
      have hleft :=
        (h.programOf_removed (hallows rfl) hr.alike hsep (hinserted.programOf_eq hsep)).1
      exact (hinserted.sameStart hsep (bearCode_of_programOf_ne_nil hleft)).symm

/-- The edited line is blank if the line is. -/
theorem Line.Retouched.isBlankText_eq {ed : Edit} (hr : l.Retouched style ed base ss)
    (h : l.Sound) (hallows : l.Allows ed) : isBlankText (textOf ss) = l.isBlank := by
  have hsolid : ∀ {ss : List Segment}, bearCode ss = true → isBlankText (textOf ss) = false := by
    intro ss hbears
    by_contra hblank
    rw [Bool.not_eq_false] at hblank
    rw [programOf_eq_nil_iff.mp (programOf_of_isBlankText hblank)] at hbears
    cases hbears
  by_cases hbears : bearCode l.segments = true
  · rw [hsolid (hr.bearCode_eq h hallows ▸ hbears)]
    exact (hsolid hbears).symm
  · cases hr.touched with
    | keep =>
        rw [← isBlankText_map_plainQuote, map_plainQuote_textOf hr.alike,
          isBlankText_map_plainQuote]
        rfl
    | insert _ hbase _ => exact absurd (bearCode_of_alike hr.alike ▸ hbase) hbears
    | remove hsep hinserted =>
        refine absurd ?_ hbears
        rw [← bearCode_of_alike hr.alike]
        exact bearCode_of_programOf_ne_nil (by rw [hinserted.programOf_eq hsep]; simp)

theorem Line.Retouched.openAll_eq {ed : Edit} (hr : l.Retouched style ed base ss)
    {level : Nat} {tail before : List Char} {stack : List (Bracket × Nat)} :
    openAll level tail stack before ss = openAll level tail stack before base := by
  cases hr.touched with
  | keep => rfl
  | insert hsep _ hinserted => exact hinserted.openAll_eq hsep
  | remove hsep hinserted => exact (hinserted.openAll_eq hsep).symm

theorem Line.Sound.endsSolid_rest (h : l.Sound) (hends : l.ends ≠ .template) : EndsSolid l.rest :=
  EndsSolid.of_append (s := l.code) (l.text_eq ▸ h.endsSolid hends)

theorem Line.Sound.code_ne_nil (h : l.Sound) (hbears : l.bearsCode = true) : l.code ≠ [] := by
  rw [Line.bearsCode, decide_eq_true_eq] at hbears
  rw [← List.length_pos_iff_ne_nil, h.length_code]
  exact hbears

theorem Line.Sound.solid_insert (h : l.Sound) (hsep : isSeparator sep = true)
    (hends : l.ends = .code) (hbears : l.bearsCode = true) :
    (l.starts = .code → StartsSolid (l.code ++ sep :: l.rest)) ∧
      EndsSolid (l.code ++ sep :: l.rest) := by
  constructor
  · intro hstarts
    have hstart := h.startsSolid hstarts
    rw [Line.text_eq] at hstart
    exact hstart.append_of_ne_nil (h.code_ne_nil hbears)
  · rw [show l.code ++ sep :: l.rest = (l.code ++ [sep]) ++ l.rest by simp]
    by_cases hnil : l.rest = []
    · rw [hnil, List.append_nil]
      exact endsSolid_concat (isBlank_eq_false_of_isSeparator hsep)
    · exact (h.endsSolid_rest (by simp [hends])).append hnil

/-- There is a character of code in front of a separator that is removed for good, and white space
between the two only where something follows. -/
theorem Line.Sound.solid_of_isRemovable (h : l.Sound) (hremovable : l.isRemovable = true)
    {left : List Char} (hleft : l.code = left ++ [sep]) :
    left ≠ [] ∧ (l.starts ≠ .comment → l.rest = [] → EndsSolid left) := by
  rw [Line.isRemovable, Bool.and_eq_true, Bool.and_eq_true, Option.any_eq_true, Bool.or_eq_true,
    Bool.or_eq_true, decide_eq_true_eq, decide_eq_true_eq, Bool.not_eq_true',
    List.isEmpty_eq_false_iff] at hremovable
  obtain ⟨⟨⟨d, hd, -⟩, hends⟩, -⟩ := hremovable
  constructor
  · have hshort := length_programOf_le l.segments
    rw [← h.codeEnd, ← h.length_code, hleft, List.length_append, List.length_singleton] at hshort
    have hlong : 0 < (programOf l.segments).dropLast.length :=
      List.length_pos_of_mem (List.mem_of_getLast? hd)
    rw [List.length_dropLast] at hlong
    rw [← List.length_pos_iff_ne_nil]
    omega
  · intro hstarts hnil
    have htrim := hends.resolve_left fun hor => hor.elim hstarts (absurd hnil)
    rw [hleft, List.dropLast_concat] at htrim
    rw [← htrim]
    exact endsSolid_trimEnd _

theorem Line.Sound.solid_remove (h : l.Sound) (hremovable : l.isRemovable = true)
    (hends : l.ends = .code) {left : List Char} (hleft : (l.requoted style).code = left ++ [sep]) :
    (l.starts = .code → StartsSolid (left ++ (l.requoted style).rest)) ∧
      (l.starts ≠ .comment → EndsSolid (left ++ (l.requoted style).rest)) := by
  have hq := h.requoted style
  obtain ⟨hcode, hrest⟩ := h.map_plainQuote_code style
  -- the code has the same characters before its quotes are changed
  rw [hleft, List.map_append, eq_comm, List.map_eq_append_iff] at hcode
  obtain ⟨left', last, hleft', hsame, hlast⟩ := hcode
  obtain ⟨sep', rfl, -⟩ := List.map_eq_singleton_iff.mp hlast
  obtain ⟨hne, hsolid⟩ := h.solid_of_isRemovable hremovable hleft'
  constructor
  · intro hstarts
    have hstart := hq.startsSolid hstarts
    rw [Line.text_eq, hleft, List.append_assoc] at hstart
    refine hstart.append_of_ne_nil fun hnil => hne ?_
    rw [hnil] at hsame
    exact List.map_eq_nil_iff.mp hsame
  · intro hstarts
    by_cases hnil : (l.requoted style).rest = []
    · rw [hnil] at hrest
      rw [hnil, List.append_nil]
      exact (solid_congr hsame.symm).2 (hsolid hstarts (List.map_eq_nil_iff.mp hrest.symm))
    · have hcode : (l.requoted style).ends ≠ .template := by
        rw [show (l.requoted style).ends = .code from hends]
        simp
      exact (hq.endsSolid_rest hcode).append hnil

/-- The text of a line starts and ends without white space, where the line does. -/
theorem Line.Sound.solid_lineText (h : l.Sound) (hallows : l.Allows (l.edit style f)) :
    (l.starts = .code → StartsSolid (lineText style l f)) ∧
      (l.starts ≠ .comment → l.ends ≠ .template → EndsSolid (lineText style l f)) := by
  cases hskip : l.isSkipped with
  | true =>
      rw [lineText_of_skipped hskip]
      exact ⟨h.startsSolid, fun _ => h.endsSolid⟩
  | false =>
      have hq := h.requoted style
      have hedits := edits_lineEdit style (l.requoted style) f
      rw [lineText_of_not_skipped hskip, show l.codeEnd = (l.requoted style).codeEnd from rfl]
      rw [show lineEdit style (l.requoted style) f = l.edit style f from rfl] at hedits
      generalize l.edit style f = ed at hedits hallows
      cases hedits with
      | keep => exact ⟨hq.startsSolid, fun _ => hq.endsSolid⟩
      | insert hsep hends hbears =>
          rw [Line.apply_insert]
          obtain ⟨hstart, hend⟩ := hq.solid_insert hsep hends hbears
          exact ⟨hstart, fun _ _ => hend⟩
      | remove hsep hends hbears hlast =>
          obtain ⟨left, hleft⟩ := List.getLast?_eq_some_iff.mp hlast
          rw [hq.apply_remove hleft]
          obtain ⟨hstart, hend⟩ := h.solid_remove (hallows rfl) hends hleft
          exact ⟨hstart, fun hstarts _ => hend hstarts⟩

-- ============================================================================
-- The output for a line, read again
-- ============================================================================

/-- A line whose reading does not end blank is read as it is. -/
theorem segments_lineOf_of_reads {raw : List Char} (hreads : Reads c'.mode ss e)
    (htext : textOf ss = scannedText c'.mode raw) (hsolid : e ≠ .template → EndsSolid (textOf ss)) :
    (lineOf c' raw).1.segments = ss ∧ (lineOf c' raw).1.ends = e := by
  have hscan := scan_eq_iff.mpr ⟨hreads, htext⟩
  have hends : (lineOf c' raw).1.ends = e := by rw [ends_lineOf, hscan]
  refine ⟨?_, hends⟩
  rw [segments_lineOf, hends, hscan]
  split
  · rfl
  · next he => exact trimEndSegments_eq_self hreads.text_ne_nil (hsolid he)

theorem textOf_eq_nil_iff (h : Reads m ss e) : textOf ss = [] ↔ ss = [] := by
  constructor
  · intro hnil
    cases ss with
    | nil => rfl
    | cons s ss =>
        rw [textOf_cons, List.append_eq_nil_iff] at hnil
        exact absurd hnil.1 (h.text_ne_nil s List.mem_cons_self)
  · rintro rfl
    rfl

/-- Blank lines outside of template literals are empty, and stay so. -/
theorem Line.Retouched.eq_nil {ed : Edit} (hr : l.Retouched style ed base ss) (h : l.Sound)
    (hallows : l.Allows ed) (hstarts : l.starts ≠ .template)
    (hblank : isBlankText (textOf ss) = true) : ss = [] ∧ l.ends = l.starts := by
  have hends : l.ends = l.starts := by
    have hreads := hr.reads.trimEnd (.inl hstarts)
    rw [trimEndSegments_eq_nil_iff.mpr hblank] at hreads
    exact hreads.eq_of_nil.symm
  rw [hr.isBlankText_eq h hallows] at hblank
  have htext : l.text = [] := by
    have hsolid := h.endsSolid (by rw [hends]; exact hstarts)
    rw [← hsolid.trimEnd_eq]
    exact trimEnd_eq_nil_iff.mpr hblank
  have hquiet : bearCode l.segments = false :=
    programOf_eq_nil_iff.mp (programOf_of_isBlankText hblank)
  refine ⟨?_, hends⟩
  rw [← textOf_eq_nil_iff hr.reads]
  cases hr.touched with
  | keep =>
      have hmap := map_plainQuote_textOf hr.alike
      rw [show textOf l.segments = [] from htext] at hmap
      exact List.map_eq_nil_iff.mp hmap
  | insert _ hbears _ =>
      rw [bearCode_of_alike hr.alike, hquiet] at hbears
      cases hbears
  | remove hsep hinserted =>
      have hbears : bearCode base = true :=
        bearCode_of_programOf_ne_nil (by rw [hinserted.programOf_eq hsep]; simp)
      rw [bearCode_of_alike hr.alike, hquiet] at hbears
      cases hbears

/-- The segments of the second reading: those of the edited line, but in a comment with other
white space around them. -/
def Reread (l : Line) (ss ss₂ : List Segment) : Prop :=
  ss₂ = ss ∨ (l.starts = .comment ∧ Releads (trimEndSegments ss) ss₂)

/-- The output for a line reads as the edited line. -/
theorem Line.Retouched.reread {ed : Edit} {out : List Char} (hr : l.Retouched style ed base ss)
    (h : l.Sound) (hallows : l.Allows ed) (hmode : c'.mode = l.starts)
    (hstart : l.starts = .code → StartsSolid (textOf ss))
    (hend : l.starts ≠ .comment → l.ends ≠ .template → EndsSolid (textOf ss))
    (hindented : Indented l (textOf ss) out) :
    (lineOf c' out).1.ends = l.ends ∧ Reread l ss (lineOf c' out).1.segments ∧
      (lineOf c' out).1.text = if l.starts = .comment then out else textOf ss := by
  have hsame : l.starts ≠ .comment → scannedText c'.mode out = textOf ss →
      (lineOf c' out).1.ends = l.ends ∧ Reread l ss (lineOf c' out).1.segments ∧
        (lineOf c' out).1.text = if l.starts = .comment then out else textOf ss := by
    intro hstarts hscanned
    obtain ⟨hsegments, hends⟩ :=
      segments_lineOf_of_reads (hmode ▸ hr.reads) hscanned.symm (hend hstarts)
    exact ⟨hends, .inl hsegments, by rw [if_neg hstarts, Line.text, hsegments]⟩
  cases hindented with
  | literal hstarts =>
      refine hsame (by simp [hstarts]) ?_
      rw [scannedText, hmode, hstarts]
      rfl
  | blank hstarts hblank =>
      obtain ⟨rfl, hends⟩ := hr.eq_nil h hallows hstarts hblank
      have hscanned : scannedText c'.mode [] = [] := by
        rw [scannedText, trimStart_nil, ite_self]
      have hnil : EndsSolid [] := fun d hd => by cases hd
      have hreads : Reads c'.mode [] l.ends := hmode ▸ hr.reads
      obtain ⟨hsegments, hends'⟩ := segments_lineOf_of_reads hreads hscanned.symm fun _ => hnil
      exact ⟨hends', .inl hsegments, by rw [Line.text, hsegments, textOf_nil, ite_self]⟩
  | code hstarts hsolid ha =>
      refine hsame (by simp [hstarts]) ?_
      rw [scannedText, hmode, if_pos hstarts, trimStart_append ha, (hstart hstarts).trimStart_eq]
  | @comment a hstarts hsolid ha =>
      have htrim := hr.reads.trimEnd (.inl (by simp [hstarts]))
      rw [hstarts] at htrim
      obtain ⟨ss₂, hreads, htext, hreleads⟩ := htrim.exists_releads
        (by rw [textOf_trimEndSegments, isBlankText_trimEnd]; exact hsolid) ha
      rw [textOf_trimEndSegments, trimStart_trimEnd] at htext
      have hne : trim (textOf ss) ≠ [] := by
        rw [Ne, trim_eq_nil_iff, hsolid]
        simp
      have hscanned : scannedText c'.mode (a ++ trim (textOf ss)) = a ++ trim (textOf ss) := by
        rw [scannedText, hmode, hstarts]
        rfl
      obtain ⟨hsegments, hends⟩ := segments_lineOf_of_reads (hmode.trans hstarts ▸ hreads)
        (htext.trans hscanned.symm) fun _ => htext ▸ (endsSolid_trim _).append hne
      rw [hsegments]
      exact ⟨hends, .inr ⟨hstarts, hreleads⟩, by rw [if_pos hstarts, Line.text, hsegments, htext]⟩

-- ============================================================================
-- What the second reading has in common with the first
-- ============================================================================

theorem codeOf_trimEnd (ss : List Segment) : codeOf (trimEndSegments ss) = codeOf ss := by
  induction ss with
  | nil => rfl
  | cons s ss ih =>
      rw [trimEndSegments_cons]
      split
      · next hnil =>
        have hquiet : bearCode ss = false := programOf_eq_nil_iff.mp
          (programOf_of_isBlankText (trimEndSegments_eq_nil_iff.mp hnil))
        have hcode : codeOf (s :: ss) = if s.bears then trimEnd s.text else [] := by
          rw [codeOf_cons, hquiet]
          rfl
        rw [hcode]
        split
        · next hs =>
          rw [hs, ite_self]
          rfl
        · have hbears : Segment.bears ⟨s.kind, trimEnd s.text⟩ = s.bears := by
            rw [Segment.bears, Segment.bears, isBlankText_trimEnd]
          rw [codeOf_cons, if_neg (by simp), hbears, trimEnd_trimEnd]
      · have hbears : bearCode (trimEndSegments ss) = bearCode ss := by
          rw [Bool.eq_iff_iff, ← Bool.not_eq_false, ← Bool.not_eq_false, ← programOf_eq_nil_iff,
            ← programOf_eq_nil_iff, programOf_trimEnd]
        rw [codeOf_cons, codeOf_cons, ih, hbears]

theorem Releads.trimStart_eq (h : Releads ss ss') :
    trimStart (textOf ss') = trimStart (textOf ss) ∧
      trimStart (codeOf ss') = trimStart (codeOf ss) := by
  cases h with
  | @comment a a' x ss ha ha' _ _ =>
      constructor
      · rw [textOf_cons, textOf_cons, List.append_assoc, List.append_assoc, trimStart_append ha,
          trimStart_append ha']
      · have hcomment : ∀ t, Segment.bears ⟨.comment, t⟩ = false := fun t => rfl
        rw [codeOf_cons, codeOf_cons, hcomment, hcomment]
        split
        · rw [List.append_assoc, List.append_assoc, trimStart_append ha, trimStart_append ha']
        · rfl

theorem Reread.programOf_eq (h : Reread l ss ss₂) : programOf ss₂ = programOf ss := by
  rcases h with rfl | ⟨-, hreleads⟩
  · rfl
  · rw [hreleads.programOf_eq, programOf_trimEnd]

theorem Reread.bearCode_eq (h : Reread l ss ss₂) : bearCode ss₂ = bearCode ss := by
  rw [Bool.eq_iff_iff, ← Bool.not_eq_false, ← Bool.not_eq_false, ← programOf_eq_nil_iff,
    ← programOf_eq_nil_iff, h.programOf_eq]

theorem Reread.sameStart (h : Reread l ss ss₂) : SameStart (leadingCode ss) (leadingCode ss₂) := by
  rcases h with rfl | ⟨-, hreleads⟩
  · exact .refl _
  · rw [hreleads.leadingCode_eq]
    exact sameStart_trimEnd ss

theorem Reread.gist_codeOf (h : Reread l ss ss₂) : gist (codeOf ss₂) = gist (codeOf ss) := by
  rcases h with rfl | ⟨-, hreleads⟩
  · rfl
  · rw [gist, hreleads.trimStart_eq.2, codeOf_trimEnd]
    rfl

theorem Reread.openAll_eq (h : Reread l ss ss₂) {level : Nat} {tail : List Char}
    {stack : List (Bracket × Nat)} :
    openAll level tail stack [] ss₂ = openAll level tail stack [] ss := by
  rcases h with rfl | ⟨-, hreleads⟩
  · rfl
  · have hbrackets : Brackets.followAll level tail ⟨stack, none⟩ [] (trimEndSegments ss) =
        Brackets.followAll level tail ⟨stack, none⟩ [] ss₂ := hreleads.followAll_eq _
    have hstack := congrArg Brackets.stack hbrackets
    rw [Brackets.stack_followAll, Brackets.stack_followAll] at hstack
    rw [← hstack, openAll_trimEnd]

/-- Trimmed strings are open ones, which have no quotes to change. -/
theorem Reads.requote_trimEnd (h : Reads m ss e) (hss : requoteSegments q ss = ss) :
    requoteSegments q (trimEndSegments ss) = trimEndSegments ss := by
  induction h with
  | nil _ => rfl
  | code _ _ _ _ ih =>
      rw [requoteSegments_cons, List.cons.injEq] at hss
      rw [trimEndSegments_cons]
      split
      · split <;> rfl
      · rw [requoteSegments_cons, ih hss.2]
        rfl
  | closed hclosed _ ih =>
      rw [requoteSegments_cons, List.cons.injEq] at hss
      rw [trimEndSegments_cons, hclosed.endsSolid.trimEnd_eq, if_neg hclosed.ne_nil]
      split
      · rw [requoteSegments_cons, hss.1]
        rfl
      · rw [requoteSegments_cons, hss.1, ih hss.2]
  | @opened m e k t hopened =>
      rw [trimEndSegments_cons, if_pos (by rfl)]
      split
      · rfl
      · by_cases hk : k = .string
        · subst hk
          obtain ⟨q', r, hq', hr, rfl⟩ := hopened.exists_body
          rw [trimEnd_cons_of_solid (isBlank_eq_false_of_delimits (.string hq')),
            requoteSegments_cons, if_pos rfl, requote_open hq' hr.trimEnd]
          rfl
        · rw [requoteSegments_cons, if_neg hk]
          rfl

theorem Reread.requote_eq (h : Reread l ss ss₂) (hreads : Reads m ss e)
    (hss : requoteSegments q ss = ss) : requoteSegments q ss₂ = ss₂ := by
  rcases h with rfl | ⟨-, hreleads⟩
  · exact hss
  · have htrim := hreads.requote_trimEnd hss
    generalize trimEndSegments ss = ss' at hreleads htrim
    cases hreleads with
    | comment _ _ _ _ =>
        rw [requoteSegments_cons, List.cons.injEq] at htrim ⊢
        exact ⟨rfl, htrim.2⟩

end Flowscript.Format

/-
  Flowscript.Proofs.SealedText

  Texts of a program that lead from code to code.

  The lines of a program are scanned one after another, each from the mode the one before
  it ended in.  `endFrom` is the mode that a text ends in when the scan has come to some
  place in a line.  A text is sealed if whatever follows it is scanned as if the text were
  not there: its literals and comments are closed, and it ends in code.  Texts put together
  from sealed ones are sealed, so a program that is made of them is in code between any two.
-/
import Flowscript.Proofs.Literals
import Flowscript.Proofs.TemplateText

namespace Flowscript.Format

open Text

variable {p p' : Place} {q c : Char} {s t w line : List Char} {lines : List (List Char)}

-- ============================================================================
-- The mode that a text ends in
-- ============================================================================

@[simp] theorem Scan.mode_push (k : SegmentKind) (r : List Char) (s : Scan) :
    (s.push k r).mode = s.mode := by
  unfold Scan.push
  split <;> rfl

/-- What was read of a segment before is no matter for the mode that a line ends in. -/
theorem mode_scanFrom (p : Place) (r s : List Char) :
    ∀ r', (scanFrom p r s).mode = (scanFrom p r' s).mode := by
  fun_induction scanFrom p r s <;> intro r'
  case case1 p r => cases p <;> simp [scanFrom]
  -- after one step, what was read before is still no matter
  all_goals simp_all [scanFrom]
  all_goals apply_assumption

/-- The mode that a text ends in when the scan has come to a place in its first line. -/
def endFrom (p : Place) (s : List Char) : Mode :=
  match splitOn '\n' s with
  | [] => p.mode
  | line :: lines => endMode (scanFrom p [] line).mode lines

theorem endFrom_eq (h : splitOn '\n' s = line :: lines) :
    endFrom p s = endMode (scanFrom p [] line).mode lines := by
  rw [endFrom, h]

theorem mode_scanFrom_nil (p : Place) : (scanFrom p [] []).mode = p.mode := by
  cases p <;> rfl

/-- Code ends as its lines do, one after another. -/
theorem endFrom_code (s : List Char) : endFrom .code s = endMode .code (splitOn '\n' s) := by
  obtain ⟨line, lines, h⟩ := List.exists_cons_of_ne_nil (splitOn_ne_nil '\n' s)
  rw [endFrom_eq h, h]
  rfl

/-- The line after a line starts in the mode that the line ends in. -/
theorem endFrom_line (hw : '\n' ∉ w) (s : List Char) :
    endFrom p (w ++ '\n' :: s) = endFrom (scanFrom p [] w).mode.place s := by
  obtain ⟨line, lines, h⟩ := List.exists_cons_of_ne_nil (splitOn_ne_nil '\n' s)
  have hsplit := splitOn_append_of_not_mem hw (splitOn_cons_self '\n' s)
  rw [List.append_nil] at hsplit
  rw [endFrom_eq hsplit, endFrom_eq h, h]
  rfl

theorem endFrom_newline (p : Place) (s : List Char) :
    endFrom p ('\n' :: s) = endFrom p.mode.place s := by
  have hline := endFrom_line (p := p) List.not_mem_nil s
  rwa [mode_scanFrom_nil] at hline

-- ============================================================================
-- Pieces of a line
-- ============================================================================

/-- A piece of a line that leads from one place to another, whatever follows in the line. -/
def LeadsTo (p : Place) (w : List Char) (p' : Place) : Prop :=
  ∀ l, (scanFrom p [] (w ++ l)).mode = (scanFrom p' [] l).mode

theorem LeadsTo.endFrom_append (h : LeadsTo p w p') (hw : '\n' ∉ w) (s : List Char) :
    endFrom p (w ++ s) = endFrom p' s := by
  obtain ⟨line, lines, hs⟩ := List.exists_cons_of_ne_nil (splitOn_ne_nil '\n' s)
  rw [endFrom_eq (splitOn_append_of_not_mem hw hs), endFrom_eq hs, h line]

theorem leadsTo_of_stays (h : ∀ l, Stays p c l) : LeadsTo p [c] p := by
  intro l
  rw [List.singleton_append, scanFrom_of_stays (h l)]
  exact mode_scanFrom _ _ _ _

theorem leadsTo_of_closed {k : SegmentKind} (h : Closed .code k t) : LeadsTo .code t .code := by
  intro l
  have hscan : scanFrom .code [] (t ++ l) = _ := scan_closed h l
  rw [hscan]
  rfl

theorem Delimits.leadsTo_open (h : Delimits p q) : LeadsTo .code [q] p := by
  intro l
  rw [List.singleton_append, h.scan_code, Scan.mode_push]
  exact mode_scanFrom _ _ _ _

theorem Delimits.leadsTo_close (h : Delimits p q) : LeadsTo p [q] .code := by
  intro l
  rw [List.singleton_append, h.scan_close, Scan.mode_push]

theorem Delimits.leadsTo_escape (h : Delimits p q) (d : Char) : LeadsTo p ['\\', d] p := by
  intro l
  rw [List.cons_append, List.singleton_append, h.scan_escape]
  exact mode_scanFrom _ _ _ _

-- ============================================================================
-- Sealed texts
-- ============================================================================

/-- A text that leads from code to code and has no carriage return, so that what follows it is
read as if it were not there. -/
structure Sealed (s : List Char) : Prop where
  noReturn : '\r' ∉ s
  passes : ∀ t, endFrom .code (s ++ t) = endFrom .code t

namespace Sealed

theorem nil : Sealed [] := ⟨List.not_mem_nil, fun _ => rfl⟩

theorem append (hs : Sealed s) (ht : Sealed t) : Sealed (s ++ t) where
  noReturn := by simp [hs.noReturn, ht.noReturn]
  passes u := by rw [List.append_assoc, hs.passes, ht.passes]

theorem flatten (h : ∀ l ∈ lines, Sealed l) : Sealed lines.flatten := by
  induction lines with
  | nil => exact nil
  | cons l lines ih =>
      rw [List.forall_mem_cons] at h
      exact h.1.append (ih h.2)

theorem joinWith {sep : List Char} (hsep : Sealed sep) (h : ∀ l ∈ lines, Sealed l) :
    Sealed (Text.joinWith sep lines) := by
  induction lines with
  | nil => exact nil
  | cons l lines ih =>
      rw [List.forall_mem_cons] at h
      cases lines with
      | nil => exact h.1
      | cons l' lines =>
          rw [joinWith_cons_cons]
          exact (h.1.append hsep).append (ih h.2)

/-- A program is in code after a sealed text of whole lines. -/
theorem endMode_lines (h : Sealed (s ++ ['\n'])) : endMode .code (splitOn '\n' s) = .code := by
  have hpass := h.passes []
  rw [List.append_nil, endFrom_code, endFrom_code, splitOn_concat] at hpass
  have hconcat : ∀ m : Mode, endMode m (splitOn '\n' s ++ [[]]) = endMode m (splitOn '\n' s) := by
    generalize splitOn '\n' s = lines
    induction lines with
    | nil => exact fun m => congrArg Scan.mode (scan_nil m)
    | cons line lines ih => exact fun m => ih _
  rwa [hconcat] at hpass

end Sealed

-- ============================================================================
-- Code
-- ============================================================================

/-- A character that neither starts nor ends a literal, a comment or, but for line feeds, a
line. -/
def isCodeChar (c : Char) : Bool := !isQuote c && c != '`' && c != '/' && c != '\r'

/-- Characters of a sort that has no quote, no slash and no carriage return. -/
theorem isCodeChar_of_sort {sort : Char → Bool}
    (hsort : ['\'', '"', '`', '/', '\r'].all (fun c => !sort c) = true) (h : sort c = true) :
    isCodeChar c = true := by
  by_contra hc
  have hstops : c ∈ ['\'', '"', '`', '/', '\r'] := by
    simp only [isCodeChar, isQuote, Bool.and_eq_true, Bool.not_eq_true', Bool.or_eq_false_iff,
      decide_eq_false_iff_not, bne_iff_ne, not_and_or, not_not] at hc
    simp only [List.mem_cons, List.not_mem_nil, or_false]
    tauto
  simpa [h] using List.all_eq_true.mp hsort c hstops

theorem stays_of_isCodeChar (h : isCodeChar c = true) (l : List Char) : Stays .code c l := by
  simp only [isCodeChar, Bool.and_eq_true, Bool.not_eq_true', bne_iff_ne] at h
  refine .code ?_
  rw [leavesCode_of_ne h.1.2, h.1.1.1]
  simpa using h.1.1.2

theorem Sealed.code (h : ∀ c ∈ s, isCodeChar c = true) : Sealed s where
  noReturn hmem := absurd (h _ hmem) (by decide)
  passes t := by
    induction s with
    | nil => rfl
    | cons c s ih =>
        rw [List.forall_mem_cons] at h
        have hrest := ih h.2
        by_cases hc : c = '\n'
        · rw [hc, List.cons_append, endFrom_newline]
          exact hrest
        · have hstay := leadsTo_of_stays (stays_of_isCodeChar h.1)
          have hstep := hstay.endFrom_append (by simpa using Ne.symm hc) (s ++ t)
          exact hstep.trans hrest

theorem Sealed.of_all (h : s.all isCodeChar = true) : Sealed s := .code (List.all_eq_true.mp h)

-- ============================================================================
-- Literals
-- ============================================================================

theorem body_quote (q : Char) (s : List Char) : Body q (s.flatMap (Script.quoteChar q)) := by
  induction s with
  | nil => exact .nil
  | cons c s ih =>
      rw [List.flatMap_cons, Script.quoteChar]
      split
      · exact .escape _ ih
      · next hc =>
        split
        · exact .escape _ ih
        · next hne =>
          split
          · exact .escape _ ih
          · exact .char hne hc ih

/-- A string literal is sealed, whatever it says. -/
theorem Sealed.quote (hq : isQuote q = true) (hs : '\r' ∉ s) : Sealed (Script.quote q s) where
  noReturn h := by
    rcases Script.mem_quote h with rfl | h | h | ⟨h, -⟩
    · cases hq
    · cases h
    · cases h
    · exact hs h
  passes t := by
    have hclosed : Closed .code .string (Script.quote q s) :=
      .literal (.string hq) (body_quote q s)
    have hnewline : q ≠ '\n' := by
      rintro rfl
      cases hq
    exact (leadsTo_of_closed hclosed).endFrom_append (Script.newline_not_mem_quote hnewline s) t

/-- The inside of a template literal does not leave the literal. -/
theorem endFrom_templateBody (s t : List Char) :
    endFrom .template (Script.templateBody s ++ t) = endFrom .template t := by
  have hescape := fun d hd t => (Delimits.template.leadsTo_escape d).endFrom_append hd t
  have hstay : ∀ c t, c ≠ '`' → c ≠ '\\' →
      endFrom .template (c :: t) = endFrom .template t := by
    intro c t hquote hslash
    by_cases hc : c = '\n'
    · rw [hc]
      exact endFrom_newline .template t
    · exact (leadsTo_of_stays fun _ => .literal .template hquote hslash).endFrom_append
        (by simpa using Ne.symm hc) t
  fun_induction Script.templateBody s with
  | case1 => rfl
  | case2 rest ih =>
      have hdollar := hescape '$' (by decide) ('{' :: (Script.templateBody rest ++ t))
      have hbrace := hstay '{' (Script.templateBody rest ++ t) (by decide) (by decide)
      exact hdollar.trans (hbrace.trans ih)
  | case3 c rest _ ih =>
      rw [List.append_assoc]
      split
      · next hc =>
        have hnewline : '\n' ∉ ['\\', c] := by
          simp only [Bool.or_eq_true, decide_eq_true_eq] at hc
          rcases hc with rfl | rfl <;> decide
        exact (hescape c hnewline _).trans ih
      · next hc =>
        simp only [Bool.or_eq_true, decide_eq_true_eq, not_or] at hc
        exact (hstay c _ hc.2 hc.1).trans ih

/-- A template literal is sealed, whatever it says. -/
theorem Sealed.template (hs : '\r' ∉ s) : Sealed (Script.template s) where
  noReturn h := by
    simp only [Script.template, List.cons_append, List.mem_cons, List.mem_append,
      List.not_mem_nil, or_false] at h
    rcases h with h | h | h
    · cases h
    · rcases Script.mem_templateBody h with h | h
      · cases h
      · exact hs h
    · cases h
  passes t := by
    have hopen := Delimits.template.leadsTo_open.endFrom_append (by decide)
      (Script.templateBody s ++ '`' :: t)
    have hclose := Delimits.template.leadsTo_close.endFrom_append (by decide) t
    rw [endFrom_templateBody] at hopen
    have hall := hopen.trans hclose
    simpa [Script.template] using hall

-- ============================================================================
-- Comments
-- ============================================================================

/-- A comment to the end of its line. -/
theorem Sealed.lineComment (hline : '\n' ∉ s) (hreturn : '\r' ∉ s) :
    Sealed ('/' :: '/' :: (s ++ ['\n'])) where
  noReturn := by simp [hreturn]
  passes t := by
    have hcomment : scan .code ('/' :: '/' :: s) = _ := scan_opened .lineComment
    have hend : (scanFrom .code [] ('/' :: '/' :: s)).mode = .code := congrArg Scan.mode hcomment
    have hpass := endFrom_line (p := .code) (w := '/' :: '/' :: s) (by simpa using hline) t
    rw [hend] at hpass
    simpa [Mode.place] using hpass

theorem leavesComment_of_head? (h : s.head? ≠ some '/') (c : Char) :
    leavesComment (c :: s) = false := by
  cases s with
  | nil => simp [leavesComment]
  | cons d s =>
      have hd : d ≠ '/' := by simpa using h
      simp [leavesComment, hd]

/-- A text without slashes does not end a comment, unless a slash follows it. -/
theorem without_of_slash_not_mem {b next : List Char} (hb : '/' ∉ b)
    (hnext : next.head? ≠ some '/') : Without leavesComment next b := by
  induction b with
  | nil => trivial
  | cons c b ih =>
      rw [List.mem_cons, not_or] at hb
      refine ⟨leavesComment_of_head? ?_ c, ih hb.2⟩
      cases b with
      | nil => exact hnext
      | cons d b =>
          intro hd
          exact hb.2 (List.mem_cons.mpr (.inl (Option.some.inj hd).symm))

theorem prefix_of_splitOn {d : Char} (h : splitOn d s = line :: lines) : line <+: s := by
  rw [← joinWith_splitOn d s, h]
  cases lines with
  | nil => simp
  | cons line' lines =>
      rw [joinWith_cons_cons, List.append_assoc]
      exact List.prefix_append _ _

/-- The first line of a text stays in a comment if the text does. -/
theorem leavesComment_of_prefix (h : leavesComment (c :: s) = false) (hline : line <+: s) :
    leavesComment (c :: line) = false := by
  obtain ⟨rest, rfl⟩ := hline
  cases line with
  | nil => simp [leavesComment]
  | cons d line =>
      rw [List.cons_append, shortSighted_leavesComment.pair] at h
      rwa [shortSighted_leavesComment.pair]

/-- Lines that do not end a comment do not leave it. -/
theorem endFrom_comment {b : List Char} (h : Without leavesComment ['*', '/'] b) (t : List Char) :
    endFrom .comment (b ++ '*' :: '/' :: t) = endFrom .code t := by
  induction b with
  | nil =>
      have hclose : LeadsTo .comment ['*', '/'] .code := fun l => Scan.mode_push _ _ _
      exact hclose.endFrom_append (by decide) t
  | cons c b ih =>
      rw [List.cons_append]
      refine Eq.trans ?_ (ih h.2)
      by_cases hc : c = '\n'
      · rw [hc]
        exact endFrom_newline .comment _
      · obtain ⟨line, lines, hlines⟩ :=
          List.exists_cons_of_ne_nil (splitOn_ne_nil '\n' (b ++ '*' :: '/' :: t))
        rw [endFrom_eq (splitOn_cons_of_ne hc hlines), endFrom_eq hlines]
        have hfull : Without leavesComment ('*' :: '/' :: t) (c :: b) :=
          h.congr shortSighted_leavesComment fun _ _ _ hd _ _ => hd
        have hstay := leavesComment_of_prefix hfull.1 (prefix_of_splitOn hlines)
        rw [scanFrom_of_stays (.comment hstay), mode_scanFrom]

/-- A block comment. -/
theorem Sealed.blockComment {b : List Char} (h : Without leavesComment ['*', '/'] b)
    (hreturn : '\r' ∉ b) : Sealed ('/' :: '*' :: (b ++ ['*', '/'])) where
  noReturn := by simp [hreturn]
  passes t := by
    have hopen : LeadsTo .code ['/', '*'] .comment := by
      intro l
      have hcomment := scanFrom_code_comment [] l
      rw [List.cons_append, List.singleton_append, hcomment, Scan.mode_push]
      exact mode_scanFrom _ _ _ _
    have hbody := hopen.endFrom_append (by decide) (b ++ '*' :: '/' :: t)
    rw [endFrom_comment h] at hbody
    simpa using hbody

end Flowscript.Format

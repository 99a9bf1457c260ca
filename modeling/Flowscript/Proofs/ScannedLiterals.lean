/-
  Flowscript.Proofs.ScannedLiterals

  Where the segments of a line lie, and what literals are scanned as.

  No segment is empty and their texts put together are the line, so they lie one after
  another from its start to its end (`tiles_scan`).  The inside of a literal has no quote
  that is not escaped, and in it no line ends in a backslash that escapes.  So a string
  literal is one segment, and so is each line of a template literal that is not empty
  (`scan_tiles_and_literals`).
-/
import Flowscript.Proofs.DeclaredInterfaces
import Flowscript.Proofs.TemplateStatement
import Mathlib.Data.List.Chain

namespace Flowscript.Format

open Text

variable {m : Mode} {ss : List Segment} {c : Char} {s t line : List Char} {lines : List (List Char)}

-- ============================================================================
-- Places of segments
-- ============================================================================

/-- Spans that are not empty, lie one after another and cover a text of some length. -/
structure Tiles (length : Nat) (spans : List (SegmentKind × Nat × Nat)) : Prop where
  nonempty : ∀ x ∈ spans, x.2.1 < x.2.2
  contiguous : spans.IsChain fun x y => x.2.2 = y.2.1
  starts : ∀ x ∈ spans.head?, x.2.1 = 0
  ends : ∀ x ∈ spans.getLast?, x.2.2 = length
  none : spans = [] ↔ length = 0

theorem head?_spans (start : Nat) (ss : List Segment) :
    ∀ x ∈ (spans start ss).head?, x.2.1 = start := by
  cases ss with
  | nil => simp [spans]
  | cons seg ss => simp [spans]

theorem getLast?_spans (start : Nat) (ss : List Segment) :
    ∀ x ∈ (spans start ss).getLast?, x.2.2 = start + (textOf ss).length := by
  induction ss generalizing start with
  | nil => simp [spans]
  | cons seg ss ih =>
      cases ss with
      | nil => simp [spans]
      | cons seg' ss =>
          intro x hx
          have hlast := ih (start + seg.text.length) x (by simpa [spans] using hx)
          rw [hlast, textOf_cons seg, List.length_append, Nat.add_assoc]

theorem isChain_spans (start : Nat) (ss : List Segment) :
    (spans start ss).IsChain fun x y => x.2.2 = y.2.1 := by
  induction ss generalizing start with
  | nil => exact .nil
  | cons seg ss ih =>
      refine List.isChain_cons.mpr ⟨fun y hy => ?_, ih _⟩
      exact (head?_spans _ ss y hy).symm

theorem lt_of_mem_spans (h : ∀ seg ∈ ss, seg.text ≠ []) (start : Nat) :
    ∀ x ∈ spans start ss, x.2.1 < x.2.2 := by
  induction ss generalizing start with
  | nil => simp [spans]
  | cons seg ss ih =>
      rw [List.forall_mem_cons] at h
      refine List.forall_mem_cons.mpr ⟨?_, ih h.2 _⟩
      have hlength := List.length_pos_of_ne_nil h.1
      simp only
      omega

/-- The span of a segment is where its text lies in the line. -/
theorem slice_spans (w : List Char) (ss : List Segment) :
    (spans w.length ss).map (fun x => ((w ++ textOf ss).drop x.2.1).take (x.2.2 - x.2.1)) =
      ss.map (·.text) := by
  induction ss generalizing w with
  | nil => rfl
  | cons seg ss ih =>
      have hrest := ih (w ++ seg.text)
      rw [List.length_append, List.append_assoc] at hrest
      rw [spans, textOf_cons, List.map_cons, List.map_cons, hrest, List.drop_left,
        Nat.add_sub_cancel_left, List.take_left]

theorem tiles_spans (h : ∀ seg ∈ ss, seg.text ≠ []) :
    Tiles (textOf ss).length (spans 0 ss) where
  nonempty := lt_of_mem_spans h 0
  contiguous := isChain_spans 0 ss
  starts := head?_spans 0 ss
  ends x hx := by rw [getLast?_spans 0 ss x hx, Nat.zero_add]
  none := by
    cases ss with
    | nil => simp [spans]
    | cons seg ss =>
        have hlength := List.length_pos_of_ne_nil (h seg List.mem_cons_self)
        simp only [spans, textOf_cons, List.length_append, reduceCtorEq, false_iff]
        omega

theorem tiles_scan (m : Mode) (line : List Char) :
    Tiles line.length (spans 0 (scan m line).segments) := by
  obtain ⟨hreads, htext⟩ := reads_scan m line
  have htiles := tiles_spans hreads.text_ne_nil
  rwa [htext] at htiles

-- ============================================================================
-- Literals
-- ============================================================================

/-- A string literal is one segment, whatever it says. -/
theorem scan_quote {q : Char} (hq : isQuote q = true) (s : List Char) :
    scan .code (Script.quote q s) = ⟨[⟨.string, Script.quote q s⟩], .code⟩ := by
  have hclosed : Closed .code .string (Script.quote q s) :=
    .literal (.string hq) (body_quote q s)
  have hreads : Reads .code [⟨.string, Script.quote q s⟩] .code := .closed hclosed (.nil _)
  exact scan_eq_iff.mpr ⟨hreads, by simp⟩

/-- The scans of lines, each from the mode that the one before it ends in. -/
def scanLines : Mode → List (List Char) → List Scan
  | _, [] => []
  | m, line :: lines => scan m line :: scanLines (scan m line).mode lines

/-- The segments of a line that is inside of a template literal from its start to its end. -/
def insideTemplate (line : List Char) : List Segment :=
  if line = [] then [] else [⟨.template, line⟩]

/-- The lines hold one template literal and nothing else: each of them but the last ends inside of
it, and the last one outside. -/
def AreTemplate (lines : List (List Char)) : Prop :=
  ∃ init last, lines = init ++ [last] ∧
    scanLines .code lines =
      init.map (fun line => ⟨insideTemplate line, .template⟩) ++ [⟨[⟨.template, last⟩], .code⟩]

theorem scan_inside (hs : OpenBody '`' s) : scan .template s = ⟨insideTemplate s, .template⟩ := by
  unfold insideTemplate
  split
  · next hnil => rw [hnil, scan_nil]
  · next hne => exact scan_opened (.restOfTemplate hne hs)

theorem scan_closing (hs : Body '`' s) :
    scan .template (s ++ ['`']) = ⟨[⟨.template, s ++ ['`']⟩], .code⟩ := by
  have hreads : Reads .template [⟨.template, s ++ ['`']⟩] .code :=
    .closed (.restOfTemplate hs) (.nil _)
  exact scan_eq_iff.mpr ⟨hreads, by simp⟩

/-- The lines after the first one of a template literal, of which the last one closes it. -/
theorem scanLines_template (hlines : ∀ l ∈ lines, Body '`' l) (ht : Body '`' t) :
    scanLines .template (lines ++ [t ++ ['`']]) =
      lines.map (fun line => ⟨insideTemplate line, .template⟩) ++
        [⟨[⟨.template, t ++ ['`']⟩], .code⟩] := by
  induction lines with
  | nil => simp [scanLines, scan_closing ht]
  | cons l lines ih =>
      rw [List.forall_mem_cons] at hlines
      simp [scanLines, scan_inside hlines.1.openBody, ih hlines.2]

/-- A template literal on one line. -/
theorem scan_template (hs : Body '`' s) :
    scan .code ('`' :: (s ++ ['`'])) = ⟨[⟨.template, '`' :: (s ++ ['`'])⟩], .code⟩ := by
  have hreads : Reads .code [⟨.template, '`' :: (s ++ ['`'])⟩] .code :=
    .closed (.literal .template hs) (.nil _)
  exact scan_eq_iff.mpr ⟨hreads, by simp⟩

/-- The first of several lines. -/
theorem scan_opening (hs : OpenBody '`' s) :
    scan .code ('`' :: s) = ⟨insideTemplate ('`' :: s), .template⟩ :=
  scan_opened (.literal .template hs)

/-- No line inside of a template literal ends in a backslash that escapes, so each of them is
scanned by itself. -/
theorem areTemplate_splitOn (s : List Char) : AreTemplate (splitOn '\n' (Script.template s)) := by
  have hbody : ∀ l ∈ splitOn '\n' (Script.templateBody s), Body '`' l := by
    rw [Script.splitOn_templateBody]
    intro l hl
    obtain ⟨l', -, rfl⟩ := List.mem_map.mp hl
    exact body_templateBody l'
  obtain ⟨lines, last, hsplit⟩ : ∃ lines last,
      splitOn '\n' (Script.templateBody s) = lines ++ [last] :=
    (List.eq_nil_or_concat' _).resolve_left (splitOn_ne_nil '\n' _)
  have htail : splitOn '\n' (Script.templateBody s ++ ['`']) = lines ++ [last ++ ['`']] :=
    splitOn_append_tail (by decide) hsplit
  rw [hsplit] at hbody
  have hlast := hbody last (by simp)
  rw [Script.template, List.cons_append]
  cases lines with
  | nil =>
      rw [splitOn_cons_of_ne (by decide) htail]
      exact ⟨[], _, rfl, by simp [scanLines, scan_template hlast]⟩
  | cons first lines =>
      have hfirst := hbody first (by simp)
      have hlines : ∀ l ∈ lines, Body '`' l := fun l hl => hbody l (by simp [hl])
      rw [splitOn_cons_of_ne (by decide) htail]
      refine ⟨('`' :: first) :: lines, last ++ ['`'], rfl, ?_⟩
      have hlater := scanLines_template hlines hlast
      show scan .code ('`' :: first) :: scanLines (scan .code ('`' :: first)).mode _ = _
      rw [scan_opening hfirst.openBody]
      exact congrArg (_ :: ·) hlater

-- ============================================================================
-- Line ends
-- ============================================================================

theorem templateBody_cons (hbrace : c = '$' → s.head? ≠ some '{') :
    Script.templateBody (c :: s) =
      (if c = '\\' || c = '`' then ['\\', c] else [c]) ++ Script.templateBody s := by
  rw [Script.templateBody]
  rintro rest rfl rfl
  exact hbrace rfl rfl

theorem head?_templateBody_ne (hc : c ≠ '\n') (s : List Char) :
    (Script.templateBody (c :: s)).head? ≠ some '\n' := by
  by_cases hbrace : c = '$' ∧ s.head? = some '{'
  · obtain ⟨rfl, hs⟩ := hbrace
    obtain ⟨t, rfl⟩ := List.head?_eq_some_iff.mp hs
    simp [Script.templateBody]
  · rw [templateBody_cons fun hc hs => hbrace ⟨hc, hs⟩]
    split <;> simp [hc]

/-- Nothing is escaped between a carriage return and a line feed. -/
theorem unifyNewlines_templateBody (s : List Char) :
    unifyNewlines (Script.templateBody s) = Script.templateBody (unifyNewlines s) := by
  fun_induction Script.templateBody s with
  | case1 => rfl
  | case2 rest ih =>
      have hleft : unifyNewlines (['\\', '$', '{'] ++ Script.templateBody rest) = _ :=
        unifyNewlines_append (by decide) _
      have hright : unifyNewlines (['$', '{'] ++ rest) = _ := unifyNewlines_append (by decide) _
      simp only [List.cons_append, List.nil_append] at hleft hright
      rw [hleft, hright, ih]
      rfl
  | case3 c rest hother ih =>
      have hbrace : c = '$' → (unifyNewlines rest).head? ≠ some '{' := by
        intro hdollar hhead
        obtain ⟨rest', hrest⟩ := List.head?_eq_some_iff.mp
          ((head?_unifyNewlines (by decide) (by decide) rest).mp hhead)
        exact hother rest' hdollar hrest
      by_cases hreturn : c = '\r'
      · subst hreturn
        cases rest with
        | nil => rfl
        | cons d rest =>
            by_cases hd : d = '\n'
            · -- the two are one line end, which the rest of the text begins with
              subst hd
              exact ih
            · have hleft : unifyNewlines (['\r'] ++ Script.templateBody (d :: rest)) = _ :=
                unifyNewlines_append_of_head (head?_templateBody_ne hd rest)
              have hright : unifyNewlines (['\r'] ++ d :: rest) = _ :=
                unifyNewlines_append_of_head (by simpa using hd)
              exact hleft.trans ((congrArg ('\n' :: ·) ih).trans
                (congrArg Script.templateBody hright).symm)
      · have hrest : unifyNewlines ([c] ++ rest) = [c] ++ unifyNewlines rest :=
          unifyNewlines_append (by simpa using Ne.symm hreturn) rest
        rw [List.singleton_append, List.singleton_append] at hrest
        rw [unifyNewlines_append, ih, hrest, templateBody_cons hbrace]
        split <;> simp [Ne.symm hreturn]

theorem unifyNewlines_template (s : List Char) :
    unifyNewlines (Script.template s) = Script.template (unifyNewlines s) := by
  have hopen : unifyNewlines (['`'] ++ (Script.templateBody s ++ ['`'])) = _ :=
    unifyNewlines_append (by decide) _
  have hclose : unifyNewlines (Script.templateBody s ++ ['`']) = _ :=
    unifyNewlines_append_of_head (by decide)
  rw [hclose, unifyNewlines_templateBody] at hopen
  exact hopen

/-- The segments of a line, which starts in code, in a template literal or in a comment, are not
empty and lie one after another from its start to its end, each where its text is.  A string
literal is one segment of the whole text.  Each line of a template literal is one segment that
leaves the literal open, or none if it is empty, but for the last one, which closes the literal;
and so it is when the line ends of the text are made the same first. -/
theorem scan_tiles_and_literals (m : Mode) (line s : List Char) :
    Tiles line.length (spans 0 (scan m line).segments) ∧
      (spans 0 (scan m line).segments).map (fun x => (line.drop x.2.1).take (x.2.2 - x.2.1)) =
        (scan m line).segments.map (·.text) ∧
      scan .code (Script.quote '\'' s) = ⟨[⟨.string, Script.quote '\'' s⟩], .code⟩ ∧
      scan .code (Script.quote '"' s) = ⟨[⟨.string, Script.quote '"' s⟩], .code⟩ ∧
      AreTemplate (splitOn '\n' (Script.template s)) ∧
      AreTemplate (splitOn '\n' (unifyNewlines (Script.template s))) := by
  have hslices := slice_spans [] (scan m line).segments
  rw [List.nil_append, (reads_scan m line).2] at hslices
  refine ⟨tiles_scan m line, hslices, scan_quote rfl s, scan_quote rfl s, areTemplate_splitOn s, ?_⟩
  rw [unifyNewlines_template]
  exact areTemplate_splitOn _

/-- An empty line inside of a template literal has no segment. -/
example : scanLines .code (splitOn '\n' (Script.template "a\\\n\n`".toList)) =
    [⟨[⟨.template, "`a\\\\".toList⟩], .template⟩, ⟨[], .template⟩,
      ⟨[⟨.template, "\\``".toList⟩], .code⟩] := by decide

end Flowscript.Format

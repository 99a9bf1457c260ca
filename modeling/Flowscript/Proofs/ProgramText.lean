/-
  Flowscript.Proofs.ProgramText

  Formatting keeps the text of a program.

  The skeleton of a text is what is left of it without white space and separators, the
  two quotes taken for one.  A formatted program has the skeleton of the program, and its
  lines are the lines of the program, each with at most one separator more or less at the
  end of its code.
-/
import Flowscript.Proofs.Indentation
import Flowscript.Proofs.OutputLines

namespace Flowscript.Format

open Text

variable {style : CodeStyle} {c : Carry} {l : Line} {f : Option Line} {raws : List (List Char)}
  {s t out : List Char}

-- ============================================================================
-- Skeletons
-- ============================================================================

/-- Characters that formatting has to leave in their order. -/
def isProgramChar (c : Char) : Bool := !isBlank c && !isSeparator c

/-- A text without white space and separators, and with one kind of quotes. -/
def skeleton (s : List Char) : List Char := (s.filter isProgramChar).map plainQuote

@[simp] theorem skeleton_append (s t : List Char) :
    skeleton (s ++ t) = skeleton s ++ skeleton t := by
  rw [skeleton, List.filter_append, List.map_append]
  rfl

theorem skeleton_cons (d : Char) (s : List Char) : skeleton (d :: s) = skeleton [d] ++ skeleton s :=
  skeleton_append [d] s

theorem skeleton_of_isBlankText (h : isBlankText s = true) : skeleton s = [] := by
  have hnone : s.filter isProgramChar = [] := by
    refine List.filter_eq_nil_iff.mpr fun d hd => ?_
    simp [isProgramChar, isBlankText_iff.mp h d hd]
  rw [skeleton, hnone]
  rfl

theorem skeleton_separator {d : Char} (h : isSeparator d = true) : skeleton [d] = [] := by
  simp [skeleton, isProgramChar, h]

theorem isProgramChar_plainQuote (d : Char) : isProgramChar (plainQuote d) = isProgramChar d := by
  unfold plainQuote
  split
  · next h =>
    rw [h]
    decide
  · rfl

/-- The text of a line, whatever its quotes and the white space around it. -/
def bare (t : List Char) : List Char := (trim t).map plainQuote

@[simp] theorem skeleton_bare (t : List Char) : skeleton (bare t) = skeleton t := by
  have htrim : skeleton (trim t) = skeleton t := by
    obtain ⟨a, b, ha, hb, ht⟩ := exists_trim t
    conv => rhs; rw [ht]
    simp [skeleton_of_isBlankText ha, skeleton_of_isBlankText hb]
  have hquotes : skeleton ((trim t).map plainQuote) = skeleton (trim t) := by
    rw [skeleton, List.filter_map, List.map_map]
    rw [show isProgramChar ∘ plainQuote = isProgramChar from funext isProgramChar_plainQuote]
    rw [show plainQuote ∘ plainQuote = plainQuote from funext plainQuote_plainQuote]
    rfl
  rw [bare, hquotes, htrim]

/-- The skeleton of a text is made of the skeletons of its lines. -/
theorem skeleton_joinWith (ts : List (List Char)) :
    skeleton (joinWith ['\n'] ts) = ts.flatMap skeleton := by
  have hnewline : skeleton ['\n'] = [] := skeleton_of_isBlankText (by decide)
  induction ts with
  | nil => rfl
  | cons t ts ih =>
      cases ts with
      | nil => simp
      | cons u ts =>
          rw [joinWith_cons_cons, skeleton_append, skeleton_append, ih, hnewline]
          simp

theorem skeleton_unifyNewlines (s : List Char) : skeleton (unifyNewlines s) = skeleton s := by
  have hnewline : skeleton ['\n'] = [] := skeleton_of_isBlankText (by decide)
  have hreturn : skeleton ['\r'] = [] := skeleton_of_isBlankText (by decide)
  fun_induction unifyNewlines s with
  | case1 => rfl
  | case2 rest ih =>
      rw [skeleton_cons, ih, skeleton_cons '\r', skeleton_cons '\n' rest, hnewline, hreturn]
      rfl
  | case3 d rest _ ih =>
      rw [skeleton_cons, ih, skeleton_cons d]
      by_cases hd : d = '\r'
      · rw [if_pos hd, hd, hnewline, hreturn]
      · rw [if_neg hd]

-- ============================================================================
-- Edited lines
-- ============================================================================

/-- What may become of a line: the same text, or one separator more or less at the end of its
code, which is followed by comments and white space. -/
inductive Edited (l : Line) (out : List Char) : Prop
  | same : bare out = bare l.text → Edited l out
  | inserted {sep : Char} : isSeparator sep = true → l.isBlank = false →
      bare out = bare (l.code ++ sep :: l.rest) → Edited l out
  | removed {sep : Char} {left : List Char} : isSeparator sep = true → l.isBlank = false →
      l.code = left ++ [sep] → bare out = bare (left ++ l.rest) → Edited l out

theorem Edited.skeleton_eq (h : Edited l out) : skeleton out = skeleton l.text := by
  rw [← skeleton_bare out]
  cases h with
  | same hsame => rw [hsame, skeleton_bare]
  | inserted hsep _ hsame =>
      rw [hsame, skeleton_bare, skeleton_append, skeleton_cons, skeleton_separator hsep, l.text_eq,
        skeleton_append, List.nil_append]
  | removed hsep _ hcode hsame =>
      rw [hsame, skeleton_bare, skeleton_append, l.text_eq, hcode, skeleton_append,
        skeleton_append, skeleton_separator hsep, List.append_nil]

theorem Edited.congr (h : Edited l t) (hsame : bare out = bare t) : Edited l out := by
  cases h with
  | same ht => exact .same (hsame.trans ht)
  | inserted hsep hblank ht => exact .inserted hsep hblank (hsame.trans ht)
  | removed hsep hblank hcode ht => exact .removed hsep hblank hcode (hsame.trans ht)

theorem bare_congr (h : s.map plainQuote = t.map plainQuote) : bare s = bare t := by
  rw [bare, ← trim_map_plainQuote, h, trim_map_plainQuote, bare]

theorem edited_lineText (h : l.Sound) (style : CodeStyle) (f : Option Line) :
    Edited l (lineText style l f) := by
  cases hskip : l.isSkipped with
  | true =>
      rw [lineText_of_skipped hskip]
      exact .same rfl
  | false =>
      rw [lineText_of_not_skipped hskip]
      obtain ⟨hcode, hrest⟩ := h.map_plainQuote_code style
      have hedits := edits_lineEdit style (l.requoted style) f
      rw [show lineEdit style (l.requoted style) f = l.edit style f from rfl] at hedits
      generalize l.edit style f = e at hedits
      cases hedits with
      | keep => exact .same (bare_congr (h.map_plainQuote_requoted style))
      | insert hsep _ hbears =>
          refine .inserted hsep (h.isBlank_eq_false hbears) (bare_congr ?_)
          rw [show l.codeEnd = (l.requoted style).codeEnd from rfl, Line.apply_insert,
            List.map_append, List.map_append, List.map_cons, List.map_cons, hcode, hrest]
      | @remove sep hsep _ hbears hlast =>
          obtain ⟨left, hleft⟩ := List.getLast?_eq_some_iff.mp hlast
          rw [hleft, List.map_append] at hcode
          obtain ⟨left', last', hcode', hleft', hlast'⟩ := List.map_eq_append_iff.mp hcode.symm
          have hself : last' = [sep] := by
            obtain ⟨d, rfl, hd⟩ := List.map_eq_singleton_iff.mp hlast'
            have hquote : isQuote sep = false := by
              rw [← Bool.not_eq_true]
              exact fun hq => isSeparator_ne_quote hsep hq rfl
            rw [(plainQuote_eq_iff hquote).mpr rfl, plainQuote_eq_iff hquote] at hd
            rw [hd]
          rw [hself] at hcode'
          refine .removed hsep (h.isBlank_eq_false hbears) hcode' (bare_congr ?_)
          rw [show l.codeEnd = (l.requoted style).codeEnd from rfl,
            (h.requoted style).apply_remove hleft, List.map_append, List.map_append, hleft', hrest]

-- ============================================================================
-- Edited programs
-- ============================================================================

theorem sound_of_mem_linesAfter (h : l ∈ linesAfter c raws) : l.Sound := by
  induction raws generalizing c with
  | nil => cases h
  | cons raw raws ih =>
      rw [linesAfter] at h
      rcases List.mem_cons.mp h with rfl | h
      · exact sound_lineOf c raw
      · exact ih h

/-- Every line of output is a line of the program, edited. -/
theorem edited_outputLines {ls : List Line} (h : ∀ l ∈ ls, l.Sound) :
    List.Forall₂ Edited ls ((outputLines style ls).map (·.text)) := by
  induction ls with
  | nil => exact .nil
  | cons l ls ih =>
      rw [List.forall_mem_cons] at h
      refine .cons ?_ (ih h.2)
      refine (edited_lineText h.1 style (following? ls)).congr ?_
      rw [bare, (indented_indentLine style l _).trim_eq, bare]

theorem skeleton_of_edited {ls : List Line} {outs : List (List Char)}
    (h : List.Forall₂ Edited ls outs) :
    outs.flatMap skeleton = ls.flatMap fun l => skeleton l.text := by
  induction h with
  | nil => rfl
  | cons hedited _ ih => rw [List.flatMap_cons, List.flatMap_cons, hedited.skeleton_eq, ih]

/-- The lines that are not blank. -/
def solidLines (ts : List (List Char)) : List (List Char) := ts.filter (!isBlankText ·)

theorem flatMap_solidLines (ts : List (List Char)) :
    (solidLines ts).flatMap skeleton = ts.flatMap skeleton := by
  induction ts with
  | nil => rfl
  | cons t ts ih =>
      rw [List.flatMap_cons, ← ih, solidLines, List.filter_cons]
      cases hblank : isBlankText t with
      | true =>
          rw [skeleton_of_isBlankText hblank]
          rfl
      | false => rfl

/-- Surplus blank lines are left out, and nothing else. -/
theorem solidLines_collapse (started gap : Bool) (outs : List OutputLine) :
    solidLines (collapse started gap outs) = solidLines (outs.map (·.text)) := by
  induction outs generalizing started gap with
  | nil => rfl
  | cons o outs ih =>
      have hcons : ∀ t ts, solidLines (t :: ts) = solidLines [t] ++ solidLines ts := fun t ts =>
        List.filter_append [t] ts
      have hempty : solidLines [[]] = [] := rfl
      rw [collapse, List.map_cons, hcons, ← ih true false]
      split
      · next hskip =>
        rw [Bool.and_eq_true, List.isEmpty_iff] at hskip
        rw [ih, hskip.1, hempty, ih]
        rfl
      · split
        · rw [hcons, hempty, hcons]
          rfl
        · rw [hcons]

theorem map_trim_linesAfter (c : Carry) (raws : List (List Char)) :
    (linesAfter c raws).map (fun l => trim l.text) = raws.map trim := by
  induction raws generalizing c with
  | nil => rfl
  | cons raw raws ih =>
      rw [linesAfter, List.map_cons, List.map_cons, ih, trim_text_lineOf]

/-- Formatting neither loses nor invents program text.  White space, separators and the choice of
quotes apart, the output is the input; and the lines of the output are those of the input, blank
ones apart, each with at most one separator inserted or removed at the end of its code. -/
theorem program_text_kept (style : CodeStyle) (code : List Char) :
    skeleton (format style code) = skeleton code ∧
      ∃ outs, List.Forall₂ Edited (linesOf code) outs ∧
        (linesOf code).map (fun l => trim l.text) =
          (splitOn '\n' (unifyNewlines code)).map trim ∧
        solidLines (splitOn '\n' (format style code)) = solidLines outs := by
  have hedited : List.Forall₂ Edited (linesOf code)
      ((outputLines style (linesOf code)).map (·.text)) :=
    edited_outputLines fun l hl => sound_of_mem_linesAfter hl
  have hsolid : solidLines (written style code) =
      solidLines ((outputLines style (linesOf code)).map (·.text)) :=
    solidLines_collapse false false _
  have htrim := map_trim_linesAfter {} (splitOn '\n' (unifyNewlines code))
  refine ⟨?_, _, hedited, htrim, ?_⟩
  · have hraw : ∀ t, skeleton (trim t) = skeleton t := fun t => by
      rw [← skeleton_bare (trim t), bare, trim_trim, ← bare, skeleton_bare]
    calc skeleton (format style code)
        = (written style code).flatMap skeleton := by
          rw [format_eq, skeleton_append, skeleton_joinWith,
            skeleton_of_isBlankText (s := ['\n']) (by decide), List.append_nil]
      _ = ((outputLines style (linesOf code)).map (·.text)).flatMap skeleton := by
          rw [← flatMap_solidLines, hsolid, flatMap_solidLines]
      _ = ((linesOf code).map fun l => trim l.text).flatMap skeleton := by
          rw [skeleton_of_edited hedited, List.flatMap_map]
          simp only [hraw]
      _ = (splitOn '\n' (unifyNewlines code)).flatMap skeleton := by
          rw [linesOf, htrim, List.flatMap_map]
          simp only [hraw]
      _ = skeleton code := by
          rw [← skeleton_joinWith, joinWith_splitOn, skeleton_unifyNewlines]
  · rw [splitOn_format]
    rw [← hsolid]
    split
    · next hnil =>
      rw [hnil]
      rfl
    · rw [solidLines, List.filter_append]
      exact List.append_nil _

end Flowscript.Format

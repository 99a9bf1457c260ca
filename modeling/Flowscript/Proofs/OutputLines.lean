/-
  Flowscript.Proofs.OutputLines

  The lines of formatted programs.

  Formatting brings no line breaks into a line, so the lines of a formatted program are
  the lines that were put out, without surplus blank ones, and an empty one at the end.
-/
import Flowscript.Proofs.LineEdits

namespace Flowscript

open Text

-- ============================================================================
-- Splitting
-- ============================================================================

namespace Text

variable {c d : Char} {s : List Char} {ps : List (List Char)}

theorem splitOn_cons_self (c : Char) (s : List Char) :
    splitOn c (c :: s) = [] :: splitOn c s := by
  rw [splitOn, if_pos rfl]

theorem splitOn_cons_of_ne (hd : d ≠ c) {p : List Char} (h : splitOn c s = p :: ps) :
    splitOn c (d :: s) = (d :: p) :: ps := by
  rw [splitOn, if_neg hd, h]

/-- A part without the separator goes in front of the first piece. -/
theorem splitOn_append_of_not_mem {p q : List Char} (hp : c ∉ p) (h : splitOn c s = q :: ps) :
    splitOn c (p ++ s) = (p ++ q) :: ps := by
  induction p with
  | nil => exact h
  | cons d p ih =>
      rw [List.mem_cons, not_or] at hp
      exact splitOn_cons_of_ne (Ne.symm hp.1) (ih hp.2)

theorem splitOn_of_not_mem (hs : c ∉ s) : splitOn c s = [s] := by
  have hsplit := splitOn_append_of_not_mem (s := []) hs rfl
  simpa using hsplit

/-- Pieces without the separator that were put together come apart again. -/
theorem splitOn_joinWith (hne : ps ≠ []) (hps : ∀ p ∈ ps, c ∉ p) :
    splitOn c (joinWith [c] ps) = ps := by
  induction ps with
  | nil => exact absurd rfl hne
  | cons p ps ih =>
      have hp := hps p List.mem_cons_self
      cases ps with
      | nil => exact splitOn_of_not_mem hp
      | cons q ps =>
          have hrest := ih (by simp) fun r hr => hps r (List.mem_cons_of_mem _ hr)
          have hsplit : splitOn c ([c] ++ joinWith [c] (q :: ps)) = [] :: q :: ps := by
            rw [List.singleton_append, splitOn_cons_self, hrest]
          rw [joinWith_cons_cons, List.append_assoc, splitOn_append_of_not_mem hp hsplit,
            List.append_nil]

theorem splitOn_concat (c : Char) (s : List Char) :
    splitOn c (s ++ [c]) = splitOn c s ++ [[]] := by
  induction s with
  | nil => rw [List.nil_append, splitOn_cons_self]; rfl
  | cons d s ih =>
      by_cases hd : d = c
      · rw [hd, List.cons_append, splitOn_cons_self, splitOn_cons_self, ih]
        rfl
      · obtain ⟨p, ps, hps⟩ := List.exists_cons_of_ne_nil (splitOn_ne_nil c s)
        rw [hps, List.cons_append] at ih
        rw [List.cons_append, splitOn_cons_of_ne hd ih, splitOn_cons_of_ne hd hps]
        rfl

theorem not_mem_of_mem_splitOn {p : List Char} (h : p ∈ splitOn c s) : c ∉ p := by
  induction s generalizing p with
  | nil =>
      cases List.mem_singleton.mp h
      simp
  | cons d s ih =>
      by_cases hd : d = c
      · rw [hd, splitOn_cons_self, List.mem_cons] at h
        rcases h with rfl | h
        · simp
        · exact ih h
      · obtain ⟨q, qs, hqs⟩ := List.exists_cons_of_ne_nil (splitOn_ne_nil c s)
        rw [hqs] at ih
        rw [splitOn_cons_of_ne hd hqs, List.mem_cons] at h
        rcases h with rfl | h
        · have hq : c ∉ q := ih List.mem_cons_self
          simp [Ne.symm hd, hq]
        · exact ih (List.mem_cons_of_mem _ h)

theorem mem_of_mem_splitOn {p : List Char} (h : p ∈ splitOn c s) (hd : d ∈ p) : d ∈ s := by
  rw [← joinWith_splitOn c s]
  generalize splitOn c s = ps at h
  induction ps with
  | nil => cases h
  | cons q ps ih =>
      cases ps with
      | nil =>
          cases List.mem_singleton.mp h
          exact hd
      | cons r ps =>
          rw [joinWith_cons_cons, List.mem_append, List.mem_append]
          rcases List.mem_cons.mp h with rfl | h
          · exact .inl (.inl hd)
          · exact .inr (ih h)

theorem exists_mem_splitOn (hdc : d ≠ c) (hd : d ∈ s) : ∃ p ∈ splitOn c s, d ∈ p := by
  induction s with
  | nil => cases hd
  | cons e s ih =>
      by_cases he : e = c
      · subst he
        rw [List.mem_cons] at hd
        obtain ⟨p, hp, hmem⟩ := ih (hd.resolve_left hdc)
        rw [splitOn_cons_self]
        exact ⟨p, List.mem_cons_of_mem _ hp, hmem⟩
      · obtain ⟨q, qs, hqs⟩ := List.exists_cons_of_ne_nil (splitOn_ne_nil c s)
        rw [hqs] at ih
        rw [splitOn_cons_of_ne he hqs]
        rcases List.mem_cons.mp hd with rfl | hd
        · exact ⟨d :: q, List.mem_cons_self, List.mem_cons_self⟩
        · obtain ⟨p, hp, hmem⟩ := ih hd
          rcases List.mem_cons.mp hp with rfl | hp
          · exact ⟨e :: p, List.mem_cons_self, List.mem_cons_of_mem _ hmem⟩
          · exact ⟨p, List.mem_cons_of_mem _ hp, hmem⟩

theorem unifyNewlines_of_not_mem (h : '\r' ∉ s) : unifyNewlines s = s := by
  induction s with
  | nil => rfl
  | cons c s ih =>
      rw [List.mem_cons, not_or] at h
      rw [unifyNewlines, if_neg (Ne.symm h.1), ih h.2]
      rintro rest rfl
      exact absurd rfl h.1

end Text

namespace Format

variable {style : CodeStyle} {c : Carry} {l : Line} {f : Option Line} {raws : List (List Char)}
  {code : List Char} {d : Char}

-- ============================================================================
-- Characters of the output
-- ============================================================================

/-- Characters that formatting may put into a line. -/
def isAdded (d : Char) : Bool := isQuote d || isSeparator d || d = ' ' || d = '\t'

theorem mem_of_map_plainQuote {s t : List Char} (h : s.map plainQuote = t.map plainQuote)
    (hd : isQuote d = false) (hs : d ∈ s) : d ∈ t := by
  have hself : plainQuote d = d := (plainQuote_eq_iff hd).mpr rfl
  have hmem : d ∈ t.map plainQuote := by
    rw [← h, ← hself]
    exact List.mem_map_of_mem hs
  obtain ⟨e, he, hed⟩ := List.mem_map.mp hmem
  rw [(plainQuote_eq_iff hd).mp hed] at he
  exact he

theorem mem_of_mem_apply {e : Edit} {n : Nat} {s : List Char} (h : d ∈ e.apply n s) :
    d ∈ s ∨ e = .insert d := by
  cases e with
  | keep => exact .inl h
  | insert sep =>
      rcases List.mem_append.mp h with h | h
      · exact .inl (List.mem_of_mem_take h)
      · rcases List.mem_cons.mp h with rfl | h
        · exact .inr rfl
        · exact .inl (List.mem_of_mem_drop h)
  | remove =>
      rcases List.mem_append.mp h with h | h
      · exact .inl (List.mem_of_mem_take h)
      · exact .inl (List.mem_of_mem_drop h)

theorem Line.Sound.mem_of_mem_lineText (h : l.Sound) (hd : isAdded d = false)
    (hmem : d ∈ lineText style l f) : d ∈ l.text := by
  simp only [isAdded, Bool.or_eq_false_iff, decide_eq_false_iff_not] at hd
  cases hskip : l.isSkipped with
  | true => rwa [lineText_of_skipped hskip] at hmem
  | false =>
      rw [lineText_of_not_skipped hskip] at hmem
      rcases mem_of_mem_apply hmem with hmem | hinsert
      · exact mem_of_map_plainQuote (h.map_plainQuote_requoted style) hd.1.1.1 hmem
      · have hedits := edits_lineEdit style (l.requoted style) f
        rw [show lineEdit style (l.requoted style) f = .insert d from hinsert] at hedits
        cases hedits with
        | insert hsep _ _ =>
            rw [hd.1.1.2] at hsep
            cases hsep

theorem mem_of_mem_trim {s : List Char} (h : d ∈ trim s) : d ∈ s := by
  obtain ⟨a, b, -, -, hs⟩ := exists_trim s
  rw [hs]
  simp [h]

theorem isAdded_of_mem_margin {n : Nat} (h : d ∈ times n style.indent) : isAdded d = true := by
  obtain ⟨s, hs, hd⟩ := List.mem_flatten.mp h
  rw [(List.mem_replicate.mp hs).2, CodeStyle.indent] at hd
  split at hd
  · rw [(List.mem_replicate.mp hd).2]
    rfl
  · rw [List.mem_singleton.mp hd]
    rfl

theorem mem_of_mem_indentLine {t : List Char} (hd : isAdded d = false)
    (h : d ∈ (indentLine style l t).text) : d ∈ t := by
  have hmargin : ∀ {n s}, d ∈ times n style.indent ++ s → d ∈ s := by
    intro n s hmem
    rcases List.mem_append.mp hmem with hmem | hmem
    · rw [isAdded_of_mem_margin hmem] at hd
      cases hd
    · exact hmem
  unfold indentLine at h
  split at h
  · exact h
  · simp only at h
    split at h
    · cases h
    · split at h
      · rcases List.mem_cons.mp (hmargin h) with rfl | hmem
        · cases hd
        · exact mem_of_mem_trim hmem
      · exact (prefix_of_trimEnd t).subset h
  · split at h
    · cases h
    · exact hmargin h

theorem mem_of_mem_text_lineOf {raw : List Char} (h : d ∈ (lineOf c raw).1.text) : d ∈ raw := by
  have hscanned : d ∈ scannedText c.mode raw := by
    rw [text_lineOf] at h
    split at h
    · exact h
    · exact (prefix_of_trimEnd _).subset h
  rw [scannedText] at hscanned
  split at hscanned
  · exact (List.dropWhile_suffix _).subset hscanned
  · exact hscanned

/-- Formatting puts in nothing but quotes, separators and margins. -/
theorem not_mem_outputLines (hd : isAdded d = false) (h : ∀ raw ∈ raws, d ∉ raw) :
    ∀ o ∈ outputLines style (linesAfter c raws), d ∉ o.text := by
  induction raws generalizing c with
  | nil => simp [linesAfter, outputLines]
  | cons raw raws ih =>
      rw [List.forall_mem_cons] at h
      rw [linesAfter, outputLines, List.forall_mem_cons]
      refine ⟨fun hmem => h.1 ?_, ih h.2⟩
      have htext := (sound_lineOf c raw).mem_of_mem_lineText hd (mem_of_mem_indentLine hd hmem)
      exact mem_of_mem_text_lineOf htext

-- ============================================================================
-- Lines that are written
-- ============================================================================

/-- The lines of a formatted program before the last line break. -/
def written (style : CodeStyle) (code : List Char) : List (List Char) :=
  collapse false false (outputLines style (linesOf code))

theorem format_eq (style : CodeStyle) (code : List Char) :
    format style code = joinWith ['\n'] (written style code) ++ ['\n'] := rfl

variable {outs : List OutputLine} {started gap : Bool} {t : List Char}

/-- Only empty lines are written that were not put out. -/
theorem mem_collapse (h : t ∈ collapse started gap outs) : t = [] ∨ ∃ o ∈ outs, t = o.text := by
  induction outs generalizing started gap with
  | nil => cases h
  | cons o outs ih =>
      have hrest : ∀ {started gap}, t ∈ collapse started gap outs →
          t = [] ∨ ∃ o' ∈ o :: outs, t = o'.text := fun hmem =>
        (ih hmem).imp_right fun ⟨o', ho', ht⟩ => ⟨o', List.mem_cons_of_mem _ ho', ht⟩
      have hself : t = o.text → t = [] ∨ ∃ o' ∈ o :: outs, t = o'.text := fun ht =>
        .inr ⟨o, List.mem_cons_self, ht⟩
      rw [collapse] at h
      split at h
      · exact hrest h
      · split at h
        · rcases List.mem_cons.mp h with ht | h
          · exact .inl ht
          · exact (List.mem_cons.mp h).elim hself hrest
        · exact (List.mem_cons.mp h).elim hself hrest

theorem not_mem_written (hd : isAdded d = false)
    (h : ∀ raw ∈ splitOn '\n' (unifyNewlines code), d ∉ raw) : ∀ t ∈ written style code, d ∉ t := by
  intro t ht
  rcases mem_collapse ht with rfl | ⟨o, ho, rfl⟩
  · simp
  · exact not_mem_outputLines hd h o ho

theorem newline_not_mem_written : ∀ t ∈ written style code, '\n' ∉ t :=
  not_mem_written (by decide) fun _ hraw => not_mem_of_mem_splitOn hraw

/-- The lines of a formatted program are the ones that were written, and an empty one. -/
theorem splitOn_format (style : CodeStyle) (code : List Char) :
    splitOn '\n' (format style code) =
      (if written style code = [] then [[]] else written style code) ++ [[]] := by
  rw [format_eq, splitOn_concat]
  split
  · next hnil =>
    rw [hnil]
    rfl
  · next hne => rw [splitOn_joinWith hne newline_not_mem_written]

/-- Formatted programs have no carriage returns. -/
theorem unifyNewlines_format (style : CodeStyle) (code : List Char) :
    unifyNewlines (format style code) = format style code := by
  refine unifyNewlines_of_not_mem fun hmem => ?_
  obtain ⟨t, ht, hr⟩ := exists_mem_splitOn (c := '\n') (by decide) hmem
  rw [splitOn_format, List.mem_append, List.mem_singleton] at ht
  have hwritten : ∀ t ∈ written style code, '\r' ∉ t := not_mem_written (by decide)
    fun _ hraw hr => not_mem_unifyNewlines code (mem_of_mem_splitOn hraw hr)
  rcases ht with ht | rfl
  · split at ht
    · cases List.mem_singleton.mp ht
      cases hr
    · exact hwritten t ht hr
  · cases hr

end Format

end Flowscript

/-
  Flowscript.Proofs.Indentation

  White space around lines.

  A line may get other white space in front of its code, or inside of the comment it
  starts in, and lose white space at its end.  It still reads as before, and its template
  literals lose nothing unless one of them is what the line ends in.
-/
import Flowscript.Proofs.LineEdits

namespace Flowscript.Format

open Text

variable {style : CodeStyle} {l : Line} {m e : Mode} {k : SegmentKind} {ss ss' : List Segment}
  {s t a b next : List Char}

-- ============================================================================
-- Margins
-- ============================================================================

theorem isBlankText_margin (style : CodeStyle) (n : Nat) :
    isBlankText (times n style.indent) = true := by
  have hunit : isBlankText style.indent = true := by
    unfold CodeStyle.indent
    split
    · exact isBlankText_iff.mpr fun d hd => by rw [(List.mem_replicate.mp hd).2]; decide
    · decide
  refine isBlankText_iff.mpr fun d hd => ?_
  obtain ⟨u, hu, hmem⟩ := List.mem_flatten.mp hd
  rw [(List.mem_replicate.mp hu).2] at hmem
  exact isBlankText_iff.mp hunit d hmem

/-- What may become of a text that is put out as a line: it is left alone inside of a literal, and
gets a margin and loses white space at its end elsewhere. -/
inductive Indented (l : Line) (t : List Char) : List Char → Prop
  | literal : l.starts = .template → Indented l t t
  | blank : l.starts ≠ .template → isBlankText t = true → Indented l t []
  | code {a : List Char} : l.starts = .code → isBlankText t = false → isBlankText a = true →
      Indented l t (a ++ t)
  | comment {a : List Char} : l.starts = .comment → isBlankText t = false → isBlankText a = true →
      Indented l t (a ++ trim t)

theorem indented_indentLine (style : CodeStyle) (l : Line) (t : List Char) :
    Indented l t (indentLine style l t).text := by
  have hmargin := isBlankText_margin style l.level
  cases hstarts : l.starts with
  | template =>
      have hout : (indentLine style l t).text = t := by simp [indentLine, hstarts]
      rw [hout]
      exact .literal hstarts
  | code =>
      have hout : (indentLine style l t).text =
          if isBlankText t then [] else times l.level style.indent ++ t := by
        simp only [indentLine, hstarts]
        split <;> rfl
      rw [hout]
      cases hblank : isBlankText t with
      | true => exact .blank (by simp [hstarts]) hblank
      | false => exact .code hstarts hblank hmargin
  | comment =>
      have hout : (indentLine style l t).text =
          if trim t = [] then []
          else if startsWith ['*'] (trim t) then times l.level style.indent ++ ' ' :: trim t
          else trimEnd t := by
        simp only [indentLine, hstarts, List.isEmpty_iff]
        split
        · rfl
        · split <;> rfl
      rw [hout]
      split
      · next hnil => exact .blank (by simp [hstarts]) (trim_eq_nil_iff.mp hnil)
      · next hne =>
        have hblank : isBlankText t = false := by
          rw [← Bool.not_eq_true, ← trim_eq_nil_iff]
          exact hne
        split
        · have hblanks : isBlankText (times l.level style.indent ++ [' ']) = true := by
            rw [isBlankText_append, hmargin]
            decide
          have hcomment := Indented.comment hstarts hblank hblanks
          rw [List.append_assoc] at hcomment
          exact hcomment
        · obtain ⟨a, ha, hlead⟩ := exists_trimStart (trimEnd t)
          rw [hlead, trimStart_trimEnd]
          exact .comment hstarts hblank ha

theorem Indented.trim_eq {out : List Char} (h : Indented l t out) : trim out = trim t := by
  cases h with
  | literal _ => rfl
  | blank _ hblank => exact (trim_eq_nil_iff.mpr hblank).symm
  | code _ _ ha => exact trim_blank_append ha
  | comment _ _ ha => rw [trim_blank_append ha, trim_trim]

-- ============================================================================
-- White space in front
-- ============================================================================

/-- The line with white space in front of its code. -/
def padded (b : List Char) : List Segment → List Segment
  | ⟨.code, t⟩ :: ss => ⟨.code, b ++ t⟩ :: ss
  | ss => if b = [] then ss else ⟨.code, b⟩ :: ss

theorem padded_of_literalFirst (h : LiteralFirst ss) (hb : b ≠ []) :
    padded b ss = ⟨.code, b⟩ :: ss := by
  unfold padded
  split
  · exact absurd rfl (h _ rfl)
  · rw [if_neg hb]

theorem leavesCode_blank {c : Char} (h : isBlank c = true) (s : List Char) :
    leavesCode (c :: s) = false := by
  have hne : ∀ d, isBlank d = false → c ≠ d := by
    rintro d hd rfl
    rw [h] at hd
    cases hd
  rw [leavesCode_of_ne (hne '/' (by decide))]
  simp [isQuote, hne '\'' (by decide), hne '"' (by decide), hne '`' (by decide)]

theorem leavesComment_blank {c : Char} (h : isBlank c = true) (s : List Char) :
    leavesComment (c :: s) = false := by
  have hstar : c ≠ '*' := by
    rintro rfl
    cases h
  simp [leavesComment, hstar]

/-- In white space is no place to stop. -/
theorem without_of_isBlankText {stop : List Char → Bool}
    (hstop : ∀ {c}, isBlank c = true → ∀ s, stop (c :: s) = false) (h : isBlankText b = true) :
    Without stop next b := by
  induction b with
  | nil => trivial
  | cons c b ih =>
      rw [isBlankText_cons, Bool.and_eq_true] at h
      exact ⟨hstop h.1 _, ih h.2⟩

theorem Reads.padded (h : Reads .code ss e) (hb : isBlankText b = true) :
    Reads .code (padded b ss) e ∧ textOf (padded b ss) = b ++ textOf ss ∧
      templatesOf (padded b ss) = templatesOf ss := by
  by_cases hnil : b = []
  · subst hnil
    have hsame : Format.padded [] ss = ss := by
      unfold Format.padded
      split
      · rfl
      · rfl
    rw [hsame]
    exact ⟨h, rfl, rfl⟩
  have hfresh : LiteralFirst ss → Reads .code (Format.padded b ss) e ∧
      textOf (Format.padded b ss) = b ++ textOf ss ∧
      templatesOf (Format.padded b ss) = templatesOf ss := fun hfirst => by
    rw [padded_of_literalFirst hfirst hnil]
    exact ⟨.code hnil (without_of_isBlankText leavesCode_blank hb) hfirst h, rfl, rfl⟩
  cases h with
  | nil => exact hfresh literalFirst_nil
  | code hne hplain hfirst hrest =>
      refine ⟨.code (by simp [hnil]) ?_ hfirst hrest, List.append_assoc _ _ _, rfl⟩
      exact without_append.mpr ⟨without_of_isBlankText leavesCode_blank hb, hplain⟩
  | closed hclosed _ => exact hfresh (literalFirst_cons hclosed.kind_ne_code)
  | opened hopened => exact hfresh (literalFirst_cons hopened.kind_ne_code)

/-- The two lines start in a comment and differ in the white space they start with. -/
inductive Releads : List Segment → List Segment → Prop
  | comment {a a' x : List Char} {ss : List Segment} : isBlankText a = true →
      isBlankText a' = true → StartsSolid x → x ≠ [] →
      Releads (⟨.comment, a ++ x⟩ :: ss) (⟨.comment, a' ++ x⟩ :: ss)

theorem Releads.templatesOf_eq (h : Releads ss ss') : templatesOf ss' = templatesOf ss := by
  cases h
  rfl

theorem Without.relead (h : Without leavesComment next s) (ha : isBlankText a = true) :
    Without leavesComment next (a ++ trimStart s) := by
  obtain ⟨b, -, hs⟩ := exists_trimStart s
  rw [hs] at h
  exact without_append.mpr
    ⟨without_of_isBlankText leavesComment_blank ha, (without_append.mp h).2⟩

theorem Closed.relead (h : Closed .comment k t) (ha : isBlankText a = true) :
    k = .comment ∧ isBlankText t = false ∧ Closed .comment .comment (a ++ trimStart t) := by
  generalize hm : Mode.comment = m at h
  cases h with
  | literal _ _ => cases hm
  | comment _ => cases hm
  | restOfTemplate _ => cases hm
  | restOfComment hx =>
      have hend : StartsSolid ['*', '/'] := startsSolid_cons (by decide)
      refine ⟨rfl, ?_, ?_⟩
      · rw [isBlankText_append, isBlankText_cons, show isBlank '*' = false by decide]
        simp
      · rw [trimStart_append_of_startsSolid hend, ← List.append_assoc]
        exact .restOfComment (hx.relead ha)

theorem Opened.relead (h : Opened .comment k t e) (ha : isBlankText a = true)
    (hsolid : isBlankText t = false) :
    k = .comment ∧ Opened .comment .comment (a ++ trimStart t) e := by
  generalize hm : Mode.comment = m at h
  cases h with
  | literal _ _ => cases hm
  | lineComment => cases hm
  | comment _ => cases hm
  | restOfTemplate _ _ => cases hm
  | restOfComment _ hx =>
      have hne : trimStart t ≠ [] := by
        rw [Ne, trimStart_eq_nil_iff, hsolid]
        simp
      exact ⟨rfl, .restOfComment (by simp [hne]) (hx.relead ha)⟩

theorem Reads.eq_of_nil (h : Reads m [] e) : m = e := by
  cases h
  rfl

/-- A line that starts in a comment may get other white space in front. -/
theorem Reads.exists_releads (h : Reads .comment ss e) (hsolid : isBlankText (textOf ss) = false)
    (ha : isBlankText a = true) :
    ∃ ss', Reads .comment ss' e ∧ textOf ss' = a ++ trimStart (textOf ss) ∧ Releads ss ss' := by
  have hreleads : ∀ {t : List Char} (ss : List Segment), isBlankText t = false →
      Releads (⟨.comment, t⟩ :: ss) (⟨.comment, a ++ trimStart t⟩ :: ss) := by
    intro t ss ht
    obtain ⟨b, hb, hlead⟩ := exists_trimStart t
    have hne : trimStart t ≠ [] := by
      rw [Ne, trimStart_eq_nil_iff, ht]
      simp
    conv => arg 1; rw [hlead]
    exact .comment hb ha (startsSolid_trimStart t) hne
  generalize hm : Mode.comment = m at h
  cases h with
  | nil => cases hsolid
  | code _ _ _ _ => cases hm
  | closed hclosed hrest =>
      subst hm
      obtain ⟨rfl, ht, hclosed'⟩ := hclosed.relead ha
      refine ⟨_, .closed hclosed' hrest, ?_, hreleads _ ht⟩
      rw [textOf_cons, textOf_cons, trimStart_append_of_not_blank ht, List.append_assoc]
  | opened hopened =>
      subst hm
      rw [textOf_cons, textOf_nil, List.append_nil] at hsolid ⊢
      obtain ⟨rfl, hopened'⟩ := hopened.relead ha hsolid
      exact ⟨_, .opened hopened', by simp, hreleads _ hsolid⟩

-- ============================================================================
-- Template literals at the end
-- ============================================================================

theorem Opened.kind_ne_template (h : Opened m k t e) (he : e ≠ .template) : k ≠ .template := by
  cases h with
  | literal hp _ =>
      cases hp with
      | string _ => simp [Place.kind]
      | template => exact absurd rfl he
  | lineComment => simp
  | comment _ => simp
  | restOfTemplate _ _ => exact absurd rfl he
  | restOfComment _ _ => simp

/-- A line that ends outside of template literals has no white space of one at its end. -/
theorem Reads.templatesOf_trimEnd (h : Reads m ss e) (he : e ≠ .template) :
    templatesOf (trimEndSegments ss) = templatesOf ss := by
  induction h with
  | nil _ => rfl
  | code _ _ _ _ ih =>
      rw [templatesOf_cons, ← ih he, trimEndSegments_cons]
      split
      · next hnil =>
        rw [hnil]
        split <;> rfl
      · rfl
  | closed hclosed _ ih =>
      rw [templatesOf_cons, ← ih he, trimEndSegments_cons]
      split
      · next hnil =>
        rw [hnil, hclosed.endsSolid.trimEnd_eq, if_neg hclosed.ne_nil]
        rfl
      · rfl
  | @opened m e k t hopened =>
      have hk := hopened.kind_ne_template he
      rw [trimEndSegments_cons, if_pos (by rfl), templatesOf_cons, if_neg hk]
      split
      · rfl
      · rw [templatesOf_cons, if_neg hk]

/-- A line that a template literal starts in, to go on in the next one, ends with its part. -/
theorem Reads.exists_open_template (h : Reads m ss .template) (hm : m ≠ .template) :
    ∃ ss₀ b, ss = ss₀ ++ [⟨.template, '`' :: b⟩] := by
  generalize he : Mode.template = e at h
  induction h with
  | nil _ => exact absurd he.symm hm
  | code _ _ _ _ ih =>
      obtain ⟨ss₀, b, rfl⟩ := ih (by simp) he
      exact ⟨_ :: ss₀, b, rfl⟩
  | closed _ _ ih =>
      obtain ⟨ss₀, b, rfl⟩ := ih (by simp) he
      exact ⟨_ :: ss₀, b, rfl⟩
  | opened hopened =>
      cases hopened with
      | literal hp _ =>
          cases hp with
          | string _ => cases he
          | template => exact ⟨[], _, rfl⟩
      | lineComment => cases he
      | comment _ => cases he
      | restOfTemplate _ _ => exact absurd rfl hm
      | restOfComment _ _ => cases he

theorem trimEndSegments_concat {s : Segment} (h : isBlankText s.text = false) :
    trimEndSegments (ss ++ [s]) = ss ++ [⟨s.kind, trimEnd s.text⟩] := by
  induction ss with
  | nil =>
      have hne : trimEnd s.text ≠ [] := by
        rw [Ne, trimEnd_eq_nil_iff, h]
        simp
      rw [List.nil_append, trimEndSegments_cons, if_pos (by rfl), if_neg hne]
      rfl
  | cons s' ss ih => rw [List.cons_append, trimEndSegments_cons, ih, if_neg (by simp)]; rfl

theorem templatesOf_append (ss ss' : List Segment) :
    templatesOf (ss ++ ss') = templatesOf ss ++ templatesOf ss' := List.flatMap_append

theorem textOf_append (ss ss' : List Segment) : textOf (ss ++ ss') = textOf ss ++ textOf ss' :=
  List.flatMap_append

/-- A line that ends in a template literal loses of it the white space at its end. -/
theorem Reads.templatesOf_trimEnd_iff (h : Reads m ss .template) (hm : m ≠ .template) :
    templatesOf (trimEndSegments ss) <+: templatesOf ss ∧
      (templatesOf (trimEndSegments ss) = templatesOf ss ↔
        Text.trimEnd (textOf ss) = textOf ss) := by
  obtain ⟨ss₀, b, rfl⟩ := h.exists_open_template hm
  have htick : isBlankText ('`' :: b) = false := by
    rw [isBlankText_cons, show isBlank '`' = false by decide]
    rfl
  rw [trimEndSegments_concat htick, templatesOf_append, templatesOf_append, textOf_append,
    textOf_cons, textOf_nil, List.append_nil, trimEnd_append_of_not_blank htick]
  simp only [templatesOf_cons, templatesOf_nil, List.append_nil, if_true]
  exact ⟨(List.prefix_append_right_inj _).mpr (prefix_of_trimEnd _), by
    rw [List.append_cancel_left_eq, List.append_cancel_left_eq]⟩

end Flowscript.Format

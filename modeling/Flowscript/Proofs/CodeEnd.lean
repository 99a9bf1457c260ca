/-
  Flowscript.Proofs.CodeEnd

  Separators at the end of a line's code.

  After the code of a line there are only comments and white space.  `Inserted c ss ss'`
  says that `ss'` has a separator there that `ss` has not.  The line with it and the line
  without it have readings that differ in nothing else, whichever of the two one starts
  from, unless the separator is all that keeps a slash apart from a comment.
-/
import Flowscript.Proofs.Retouching

namespace Flowscript.Format

open Text

variable {m e : Mode} {k : SegmentKind} {ss ss' : List Segment} {s t x y next : List Char}
  {c q : Char}

-- ============================================================================
-- The length of the code
-- ============================================================================

/-- The segment has code or a part of a literal. -/
def Segment.bears (s : Segment) : Bool := s.kind ≠ .comment && !isBlankText s.text

/-- Some segment has code or a part of a literal. -/
def bearCode (ss : List Segment) : Bool := ss.any Segment.bears

@[simp] theorem bearCode_nil : bearCode [] = false := rfl

@[simp] theorem bearCode_cons (s : Segment) (ss : List Segment) :
    bearCode (s :: ss) = (s.bears || bearCode ss) := rfl

theorem bears_iff_length_trimEnd (s : Segment) :
    (s.kind ≠ .comment && 0 < (trimEnd s.text).length) = s.bears := by
  have hlength : decide (0 < (trimEnd s.text).length) = !isBlankText s.text := by
    cases hblank : isBlankText s.text with
    | true => simp [trimEnd_eq_nil_iff.mpr hblank]
    | false =>
        have hne : trimEnd s.text ≠ [] := by
          rw [Ne, trimEnd_eq_nil_iff, hblank]
          simp
        simp [List.length_pos_iff_ne_nil, hne]
  rw [hlength, Segment.bears]

theorem codeEndFrom_eq (start sofar : Nat) (ss : List Segment) :
    codeEndFrom start sofar ss =
      if bearCode ss then start + codeEndFrom 0 0 ss else sofar := by
  induction ss generalizing start sofar with
  | nil => rfl
  | cons s ss ih =>
      rw [codeEndFrom, codeEndFrom, bears_iff_length_trimEnd, bearCode_cons, ih, ih (0 + _)]
      by_cases hss : bearCode ss = true
      · simp only [hss, Bool.or_true, if_true]
        omega
      · by_cases hs : s.bears = true <;> simp [hs, hss]

/-- The code of segments ends in the last one that has any. -/
theorem codeEndFrom_cons (s : Segment) (ss : List Segment) :
    codeEndFrom 0 0 (s :: ss) =
      if bearCode ss then s.text.length + codeEndFrom 0 0 ss
      else if s.bears then (trimEnd s.text).length else 0 := by
  rw [codeEndFrom, codeEndFrom_eq, bears_iff_length_trimEnd]
  simp

theorem codeEndFrom_pos_iff : 0 < codeEndFrom 0 0 ss ↔ bearCode ss = true := by
  induction ss with
  | nil => simp [codeEndFrom]
  | cons s ss ih =>
      rw [codeEndFrom_cons, bearCode_cons]
      by_cases hss : bearCode ss = true
      · have hpos := ih.mpr hss
        simp only [hss, Bool.or_true, if_true, iff_true]
        omega
      · rw [if_neg hss]
        by_cases hs : s.bears = true
        · have hlength := bears_iff_length_trimEnd s
          rw [hs, Bool.and_eq_true, decide_eq_true_eq, decide_eq_true_eq] at hlength
          simp [hs, hlength.2]
        · simp [hs, hss]

theorem codeEndFrom_le (ss : List Segment) : codeEndFrom 0 0 ss ≤ (textOf ss).length := by
  induction ss with
  | nil => simp [codeEndFrom]
  | cons s ss ih =>
      rw [codeEndFrom_cons, textOf_cons, List.length_append]
      have htrim := (prefix_of_trimEnd s.text).length_le
      split
      · omega
      · split
        · omega
        · omega

/-- Other quotes leave code where it is. -/
theorem Reads.codeEndFrom_requote {target : Char} (ht : isQuote target = true)
    (h : Reads m ss e) :
    bearCode (requoteSegments target ss) = bearCode ss ∧
      codeEndFrom 0 0 (requoteSegments target ss) = codeEndFrom 0 0 ss := by
  have hlength : ∀ {t t' : List Char}, t.map plainQuote = t'.map plainQuote →
      isBlankText t = isBlankText t' ∧ t.length = t'.length ∧
        (Text.trimEnd t).length = (Text.trimEnd t').length := by
    intro t t' hmap
    refine ⟨?_, by simpa using congrArg List.length hmap, ?_⟩
    · rw [← isBlankText_map_plainQuote, hmap, isBlankText_map_plainQuote]
    · have htrim := congrArg (fun s => (Text.trimEnd s).length) hmap
      simpa [trimEnd_map_plainQuote] using htrim
  have hquotes := h.exists_quote
  clear h
  induction ss with
  | nil => exact ⟨rfl, rfl⟩
  | cons s ss ih =>
      obtain ⟨hbears, hend⟩ := ih fun s hs => hquotes s (List.mem_cons_of_mem _ hs)
      by_cases hs : s.kind = .string
      · obtain ⟨q, r, hq, htext⟩ := hquotes s List.mem_cons_self hs
        have hsame := hlength (Format.map_plainQuote_requote ht hq r)
        rw [← htext] at hsame
        have hself : Segment.bears ⟨s.kind, Format.requote target s.text⟩ = s.bears := by
          rw [Segment.bears, Segment.bears, hsame.1]
        rw [requoteSegments_cons, if_pos hs]
        refine ⟨by rw [bearCode_cons, bearCode_cons, hself, hbears], ?_⟩
        rw [codeEndFrom_cons, codeEndFrom_cons, hself, hbears, hend, hsame.2.1, hsame.2.2]
      · rw [requoteSegments_cons, if_neg hs]
        refine ⟨by rw [bearCode_cons, bearCode_cons, hbears], ?_⟩
        rw [codeEndFrom_cons, codeEndFrom_cons, hbears, hend]

-- ============================================================================
-- A separator more
-- ============================================================================

/-- The characters that end an item or a statement. -/
def isSeparator (c : Char) : Bool := c = ',' || c = ';'

theorem isSeparator_iff : isSeparator c = true ↔ c = ',' ∨ c = ';' := by simp [isSeparator]

theorem isBlank_eq_false_of_isSeparator (hc : isSeparator c = true) : isBlank c = false := by
  rcases isSeparator_iff.mp hc with rfl | rfl <;> decide

/-- The second line has the separator `c` after the code of the first one. -/
inductive Inserted (c : Char) : List Segment → List Segment → Prop
  | within {x b : List Char} {ss : List Segment} : isBlankText b = true → x ++ b ≠ [] →
      bearCode ss = false → Inserted c (⟨.code, x ++ b⟩ :: ss) (⟨.code, x ++ c :: b⟩ :: ss)
  | fresh {ss : List Segment} : LiteralFirst ss → bearCode ss = false →
      Inserted c ss (⟨.code, [c]⟩ :: ss)
  | inString {q : Char} {b : List Char} : isQuote q = true →
      Inserted c [⟨.string, q :: b⟩] [⟨.string, q :: (b ++ [c])⟩]
  | later {s : Segment} {ss ss' : List Segment} : s.text ≠ [] → Inserted c ss ss' →
      Inserted c (s :: ss) (s :: ss')

theorem leavesCode_separator (hc : isSeparator c = true) (s : List Char) :
    leavesCode (c :: s) = false := by
  rcases isSeparator_iff.mp hc with rfl | rfl <;> rfl

/-- A separator in code is no reason to stop. -/
theorem Without.insert (hc : isSeparator c = true) (h : Without leavesCode next (x ++ y)) :
    Without leavesCode next (x ++ c :: y) := by
  rw [without_append] at h ⊢
  refine ⟨?_, leavesCode_separator hc _, h.2⟩
  refine h.1.congr shortSighted_leavesCode fun d e _ he hsingle hpair => ?_
  cases he
  rcases (leavesCode_pair hsingle hpair).2 with rfl | rfl <;> cases hc

theorem OpenBody.concat (h : OpenBody q s) (hq : c ≠ q) (hb : c ≠ '\\') :
    OpenBody q (s ++ [c]) := by
  induction h with
  | nil => exact .char hq hb .nil
  | dangling => exact .escape c .nil
  | escape d _ ih => exact .escape d ih
  | char hq' hb' _ ih => exact .char hq' hb' ih

theorem isSeparator_ne_quote (hc : isSeparator c = true) (hq : isQuote q = true) : c ≠ q := by
  rintro rfl
  rcases isSeparator_iff.mp hc with rfl | rfl <;> cases hq

theorem isSeparator_ne_backslash (hc : isSeparator c = true) : c ≠ '\\' := by
  rintro rfl
  cases hc

/-- Where code is kept apart from what is inserted, nothing changes at the start. -/
theorem Inserted.literalFirst (h : Inserted c ss ss') (hfirst : LiteralFirst ss')  :
    LiteralFirst ss ∧ (textOf ss).head? = (textOf ss').head? := by
  cases h with
  | within _ _ _ => exact absurd rfl (hfirst _ rfl)
  | fresh _ _ => exact absurd rfl (hfirst _ rfl)
  | inString _ => exact ⟨literalFirst_cons (by simp), by simp⟩
  | @later s ss ss' hne _ =>
      refine ⟨literalFirst_cons (k := s.kind) (t := s.text) (hfirst s rfl), ?_⟩
      rw [textOf_cons, textOf_cons, List.head?_append_of_ne_nil _ hne,
        List.head?_append_of_ne_nil _ hne]

theorem Inserted.literalFirst_of_bearCode (h : Inserted c ss ss') (hcode : bearCode ss = true)
    (hfirst : LiteralFirst ss) : LiteralFirst ss' := by
  cases h with
  | within _ _ _ => exact absurd rfl (hfirst _ rfl)
  | fresh _ hquiet =>
      rw [hcode] at hquiet
      cases hquiet
  | inString _ => exact literalFirst_cons (by simp)
  | @later s ss ss' _ _ => exact literalFirst_cons (k := s.kind) (t := s.text) (hfirst s rfl)

theorem Closed.kind_ne_code (h : Closed m k t) : k ≠ .code := by
  cases h with
  | literal hp _ => exact hp.kind_ne_code
  | comment _ => simp
  | restOfTemplate _ => simp
  | restOfComment _ => simp

theorem Opened.kind_ne_code (h : Opened m k t e) : k ≠ .code := by
  cases h with
  | literal hp _ => exact hp.kind_ne_code
  | lineComment => simp
  | comment _ => simp
  | restOfTemplate _ _ => simp
  | restOfComment _ _ => simp

/-- In front of comments and white space, a separator joins the white space or is a segment of
its own. -/
theorem Reads.exists_inserted_first (hc : isSeparator c = true) (h : Reads .code ss e)
    (hquiet : bearCode ss = false) :
    ∃ ss', Inserted c ss ss' ∧ Reads .code ss' e ∧ textOf ss' = c :: textOf ss := by
  have hfresh : LiteralFirst ss →
      ∃ ss', Inserted c ss ss' ∧ Reads .code ss' e ∧ textOf ss' = c :: textOf ss := fun hfirst =>
    ⟨⟨.code, [c]⟩ :: ss, .fresh hfirst hquiet,
      .code (by simp) ⟨leavesCode_separator hc _, trivial⟩ hfirst h, by simp⟩
  cases h with
  | nil => exact hfresh literalFirst_nil
  | @code b ss _ hne hplain hfirst hrest =>
      rw [bearCode_cons, Bool.or_eq_false_iff] at hquiet
      have hb : isBlankText b = true := by simpa [Segment.bears] using hquiet.1
      exact ⟨⟨.code, c :: b⟩ :: ss, .within (x := []) hb hne hquiet.2,
        .code (by simp) (hplain.insert (x := []) hc) hfirst hrest, by simp⟩
  | closed hclosed _ => exact hfresh (literalFirst_cons hclosed.kind_ne_code)
  | opened hopened => exact hfresh (literalFirst_cons hopened.kind_ne_code)

/-- An open string literal goes on with what is put after it. -/
theorem Opened.exists_inserted (hc : isSeparator c = true) (h : Opened m k t .code)
    (hcode : Segment.bears ⟨k, t⟩ = true) :
    ∃ ss', Inserted c [⟨k, t⟩] ss' ∧ Reads m ss' .code ∧ textOf ss' = t ++ [c] := by
  generalize he : Mode.code = e at h
  cases h with
  | @literal p q b hp hb =>
      cases hp with
      | string hq =>
          have hopen : Opened .code (Place.string q).kind (q :: (b ++ [c])) _ :=
            .literal (.string hq)
              (hb.concat (isSeparator_ne_quote hc hq) (isSeparator_ne_backslash hc))
          exact ⟨_, .inString hq, .opened hopen, by simp⟩
      | template => cases he
  | lineComment => cases hcode
  | comment _ => cases hcode
  | restOfTemplate _ _ => cases he
  | restOfComment _ _ => cases hcode

/-- A separator can be put after the code of every line that ends outside of literals and
comments. -/
theorem Reads.exists_inserted (hc : isSeparator c = true) (h : Reads m ss e) (he : e = .code)
    (hsolid : EndsSolid (textOf ss)) (hcode : bearCode ss = true) :
    ∃ ss' u v, Inserted c ss ss' ∧ Reads m ss' .code ∧ textOf ss = u ++ v ∧
      textOf ss' = u ++ c :: v ∧ u.length = codeEndFrom 0 0 ss := by
  induction h with
  | nil m => cases hcode
  | @code t ss e hne hplain hfirst hrest ih =>
      rw [textOf_cons] at hsolid
      by_cases hss : bearCode ss = true
      · obtain ⟨ss', u, v, hinserted, hreads, htext, htext', hlen⟩ := ih he hsolid.of_append hss
        have hfirst' := hinserted.literalFirst_of_bearCode hss hfirst
        refine ⟨⟨.code, t⟩ :: ss', t ++ u, v, .later hne hinserted, .code hne ?_ hfirst' hreads,
          by simp [htext], by simp [htext'], ?_⟩
        · refine hplain.congr shortSighted_leavesCode fun _ _ _ hd _ _ => ?_
          rw [(hinserted.literalFirst hfirst').2]
          exact hd
        · rw [codeEndFrom_cons, if_pos hss, List.length_append, hlen]
      · rw [Bool.not_eq_true] at hss
        rw [bearCode_cons, hss, Bool.or_false] at hcode
        obtain ⟨b, hb, ht⟩ := exists_trimEnd t
        refine ⟨⟨.code, Text.trimEnd t ++ c :: b⟩ :: ss, Text.trimEnd t, b ++ textOf ss, ?_, ?_,
          ?_, by simp, ?_⟩
        · have hwithin : Inserted c (⟨.code, Text.trimEnd t ++ b⟩ :: ss) _ :=
            .within hb (by rw [← ht]; exact hne) hss
          rw [← ht] at hwithin
          exact hwithin
        · rw [ht] at hplain
          exact .code (by simp) (hplain.insert hc) hfirst (he ▸ hrest)
        · rw [textOf_cons, ← List.append_assoc, ← ht]
        · rw [codeEndFrom_cons, hss, hcode]
          rfl
  | @closed m e k t ss hclosed hrest ih =>
      rw [textOf_cons] at hsolid
      subst he
      by_cases hss : bearCode ss = true
      · obtain ⟨ss', u, v, hinserted, hreads, htext, htext', hlen⟩ := ih rfl hsolid.of_append hss
        refine ⟨⟨k, t⟩ :: ss', t ++ u, v, .later hclosed.ne_nil hinserted, .closed hclosed hreads,
          by simp [htext], by simp [htext'], ?_⟩
        rw [codeEndFrom_cons, if_pos hss, List.length_append, hlen]
      · rw [Bool.not_eq_true] at hss
        rw [bearCode_cons, hss, Bool.or_false] at hcode
        have hlen : t.length = codeEndFrom 0 0 (⟨k, t⟩ :: ss) := by
          rw [codeEndFrom_cons, hss, hcode, hclosed.endsSolid.trimEnd_eq]
          rfl
        obtain ⟨ss', hinserted, hreads, htext⟩ := hrest.exists_inserted_first hc hss
        exact ⟨⟨k, t⟩ :: ss', t, textOf ss, .later hclosed.ne_nil hinserted,
          .closed hclosed hreads, by simp, by simp [htext], hlen⟩
  | @opened m e k t hopened =>
      subst he
      rw [bearCode_cons, bearCode_nil, Bool.or_false] at hcode
      rw [textOf_cons, textOf_nil, List.append_nil] at hsolid
      obtain ⟨ss', hinserted, hreads, htext⟩ := hopened.exists_inserted hc hcode
      refine ⟨ss', t, [], hinserted, hreads, by simp, htext, ?_⟩
      rw [codeEndFrom_cons, bearCode_nil, hcode, hsolid.trimEnd_eq]
      rfl

-- ============================================================================
-- A separator less
-- ============================================================================

/-- The text of the template literals of segments. -/
def templatesOf (ss : List Segment) : List Char :=
  ss.flatMap fun s => if s.kind = .template then s.text else []

@[simp] theorem templatesOf_nil : templatesOf [] = [] := rfl

@[simp] theorem templatesOf_cons (s : Segment) (ss : List Segment) :
    templatesOf (s :: ss) = (if s.kind = .template then s.text else []) ++ templatesOf ss := rfl

theorem templatesOf_requote (target : Char) (ss : List Segment) :
    templatesOf (requoteSegments target ss) = templatesOf ss := by
  induction ss with
  | nil => rfl
  | cons s ss ih =>
      rw [requoteSegments_cons, templatesOf_cons, templatesOf_cons, ih]
      by_cases hs : s.kind = .string
      · rw [if_pos hs, hs]
        rfl
      · rw [if_neg hs]

theorem Inserted.templatesOf_eq (h : Inserted c ss ss') : templatesOf ss' = templatesOf ss := by
  induction h with
  | within _ _ _ => rfl
  | fresh _ _ => rfl
  | inString _ => rfl
  | later _ _ ih => rw [templatesOf_cons, templatesOf_cons, ih]

/-- Template literals that start in a line are not blank. -/
theorem Reads.bears_of_template (h : Reads m ss e) (hm : m = .code) :
    ∀ s ∈ ss, s.kind = .template → s.bears = true := by
  have htick : ∀ b : List Char, Segment.bears ⟨.template, '`' :: b⟩ = true := by
    intro b
    simp [Segment.bears, show isBlank '`' = false by decide]
  induction h with
  | nil _ => simp
  | code _ _ _ _ ih => simpa using ih rfl
  | closed hclosed _ ih =>
      rw [List.forall_mem_cons]
      refine ⟨fun hk => ?_, ih rfl⟩
      cases hclosed with
      | literal hp _ =>
          cases hp with
          | string _ => cases hk
          | template => exact htick _
      | comment _ => cases hk
      | restOfTemplate _ => cases hm
      | restOfComment _ => cases hm
  | opened hopened =>
      rw [List.forall_mem_singleton]
      intro hk
      cases hopened with
      | literal hp _ =>
          cases hp with
          | string _ => cases hk
          | template => exact htick _
      | lineComment => cases hk
      | comment _ => cases hk
      | restOfTemplate _ _ => cases hm
      | restOfComment _ _ => cases hm

theorem Reads.templatesOf_eq_nil (h : Reads .code ss e) (hquiet : bearCode ss = false) :
    templatesOf ss = [] := by
  refine List.flatMap_eq_nil_iff.mpr fun s hs => ?_
  rw [if_neg]
  intro hk
  exact absurd (h.bears_of_template rfl s hs hk) (List.any_eq_false.mp hquiet s hs)

/-- Code that loses a separator has no new place to stop, unless a slash and what follows it
make one. -/
theorem Without.remove (h : Without leavesCode next (x ++ c :: y))
    (hapart : ∀ d, x.getLast? = some '/' → (y ++ next).head? = some d → d ≠ '/' ∧ d ≠ '*') :
    Without leavesCode next (x ++ y) := by
  rw [without_append] at h ⊢
  refine ⟨h.1.congr shortSighted_leavesCode fun a d ha hd hsingle hpair => ?_, h.2.2⟩
  obtain ⟨rfl, hcomment⟩ := leavesCode_pair hsingle hpair
  have hne := hapart d ha hd
  rcases hcomment with rfl | rfl
  · exact absurd rfl hne.1
  · exact absurd rfl hne.2

/-- What ends in a line ends with no separator. -/
theorem Closed.getLast?_ne (h : Closed m k t) (hc : isSeparator c = true) :
    t.getLast? ≠ some c := by
  have hne : ∀ {d : Char} (s : List Char), isSeparator d = false →
      (s ++ [d]).getLast? ≠ some c := by
    intro d s hd hlast
    rw [List.getLast?_concat] at hlast
    cases hlast
    rw [hc] at hd
    cases hd
  cases h with
  | @literal p q b hp _ =>
      have hq : isSeparator q = false := by
        cases hp with
        | string hq => rcases isQuote_iff.mp hq with rfl | rfl <;> decide
        | template => decide
      exact hne (q :: b) hq
  | @comment b _ =>
      rw [show '/' :: '*' :: (b ++ ['*', '/']) = ('/' :: '*' :: (b ++ ['*'])) ++ ['/'] by simp]
      exact hne _ (by decide)
  | restOfTemplate _ => exact hne _ (by decide)
  | @restOfComment b _ =>
      rw [show b ++ ['*', '/'] = (b ++ ['*']) ++ ['/'] by simp]
      exact hne _ (by decide)

/-- Where a slash comes to stand in front of a comment, the rest of the line is a comment. -/
theorem exists_reads_slash {u : List Char} (hplain : Without leavesCode next (u ++ ['/', c]))
    (hnext : next.head? = some '/') :
    ∃ ss, Reads .code ss .code ∧ textOf ss = u ++ '/' :: next ∧ templatesOf ss = [] := by
  obtain ⟨rest, rfl⟩ : ∃ rest, next = '/' :: rest := by
    cases next with
    | nil => cases hnext
    | cons d rest =>
        cases hnext
        exact ⟨rest, rfl⟩
  have hcomment : Reads .code [⟨.comment, '/' :: '/' :: rest⟩] .code := .opened .lineComment
  by_cases hu : u = []
  · exact ⟨_, hcomment, by simp [hu], rfl⟩
  · rw [without_append] at hplain
    refine ⟨⟨.code, u⟩ :: _, .code hu ?_ (literalFirst_cons (by simp)) hcomment, by simp, rfl⟩
    exact hplain.1.congr shortSighted_leavesCode fun _ _ _ hd _ _ => by simpa using hd

/-- Neither white space nor what follows the code in front of it starts with a star. -/
theorem Reads.head?_ne_star {b : List Char} (h : Reads .code ss .code) (hfirst : LiteralFirst ss)
    (hb : isBlankText b = true) : (b ++ textOf ss).head? ≠ some '*' := by
  intro hd
  cases b with
  | cons d b =>
      cases hd
      cases hb
  | nil =>
      have hne : ss ≠ [] := by
        rintro rfl
        cases hd
      have hstop := leavesCode_of_literalFirst h hfirst hne
      cases htext : textOf ss with
      | nil =>
          rw [List.nil_append, htext] at hd
          cases hd
      | cons d rest =>
          rw [List.nil_append, htext] at hd
          rw [htext] at hstop
          cases hd
          cases hstop

/-- The separator that ends the code of a segment can be taken out of it. -/
theorem Reads.exists_removed_code {u b : List Char} (hb : isBlankText b = true)
    (hplain : Without leavesCode (textOf ss) (u ++ c :: b)) (hfirst : LiteralFirst ss)
    (hrest : Reads .code ss .code) (hquiet : bearCode ss = false) :
    ∃ ss', Reads .code ss' .code ∧ textOf ss' = u ++ (b ++ textOf ss) ∧ templatesOf ss' = [] ∧
      ((u.getLast? = some '/' → (b ++ textOf ss).head? ≠ some '/') →
        Inserted c ss' (⟨.code, u ++ c :: b⟩ :: ss)) := by
  have htemplates := hrest.templatesOf_eq_nil hquiet
  by_cases hnil : u ++ b = []
  · rw [List.append_eq_nil_iff] at hnil
    obtain ⟨rfl, rfl⟩ := hnil
    exact ⟨ss, hrest, rfl, htemplates, fun _ => .fresh hfirst hquiet⟩
  by_cases hslash : u.getLast? = some '/' ∧ (b ++ textOf ss).head? = some '/'
  · obtain ⟨hlast, hhead⟩ := hslash
    have hbnil : b = [] := by
      cases b with
      | nil => rfl
      | cons d b =>
          cases hhead
          cases hb
    subst hbnil
    obtain ⟨u, rfl⟩ := List.getLast?_eq_some_iff.mp hlast
    rw [List.append_assoc, List.singleton_append] at hplain
    obtain ⟨ss', hreads, htext, hnone⟩ := exists_reads_slash hplain hhead
    refine ⟨ss', hreads, by simp [htext], hnone, fun hapart => ?_⟩
    exact absurd hhead (hapart hlast)
  · have hplain' : Without leavesCode (textOf ss) (u ++ b) := by
      refine hplain.remove fun d hlast hd => ⟨?_, ?_⟩
      · rintro rfl
        exact hslash ⟨hlast, hd⟩
      · rintro rfl
        exact hrest.head?_ne_star hfirst hb hd
    exact ⟨⟨.code, u ++ b⟩ :: ss, .code hnil hplain' hfirst hrest, by simp, by simp [htemplates],
      fun _ => .within hb hnil hquiet⟩

/-- The second line is the first one without the separator `c`.  Template literals stay as they
are, and all else does if the line is not joined to a comment. -/
structure Removed (c : Char) (joined : Prop) (ss ss' : List Segment) : Prop where
  templates : templatesOf ss' = templatesOf ss
  first : LiteralFirst ss → LiteralFirst ss' ∧ (textOf ss').head? = (textOf ss).head?
  inserted : ¬ joined → Inserted c ss' ss

/-- A slash comes to stand in front of a comment. -/
def Joined (u v : List Char) : Prop := u.getLast? = some '/' ∧ v.head? = some '/'

/-- A separator in a later segment is taken out there. -/
theorem Removed.later {u v : List Char} (hne : t ≠ []) (h : Removed c (Joined u v) ss ss') :
    Removed c (Joined (t ++ u) v) (⟨k, t⟩ :: ss) (⟨k, t⟩ :: ss') where
  templates := by simp [h.templates]
  first hfirst := by
    refine ⟨literalFirst_cons (hfirst _ rfl), ?_⟩
    rw [textOf_cons, textOf_cons, List.head?_append_of_ne_nil _ hne,
      List.head?_append_of_ne_nil _ hne]
  inserted hjoined := by
    refine .later hne (h.inserted fun hslash => hjoined ⟨?_, hslash.2⟩)
    rw [List.getLast?_append, hslash.1]
    rfl

theorem exists_later {u v : List Char} (htext : t ++ textOf ss = u ++ c :: v)
    (hlen : u.length + 1 = t.length + codeEndFrom 0 0 ss) (hss : bearCode ss = true) :
    ∃ u', u = t ++ u' ∧ textOf ss = u' ++ c :: v ∧ u'.length + 1 = codeEndFrom 0 0 ss := by
  have hpos := codeEndFrom_pos_iff.mpr hss
  rcases List.append_eq_append_iff.mp htext with ⟨u', rfl, hrest⟩ | ⟨t', rfl, hrest⟩
  · refine ⟨u', rfl, hrest, ?_⟩
    rw [List.length_append] at hlen
    omega
  · rw [List.length_append] at hlen
    have hnil : t' = [] := List.length_eq_zero_iff.mp (by omega)
    subst hnil
    refine ⟨[], by simp, by simpa using hrest.symm, ?_⟩
    rw [List.length_nil] at hlen ⊢
    omega

theorem eq_concat_of_append {u v : List Char} (htext : t ++ s = u ++ c :: v)
    (hlen : u.length + 1 = t.length) : t = u ++ [c] ∧ v = s := by
  rw [show u ++ c :: v = (u ++ [c]) ++ v by simp] at htext
  have hinj := List.append_inj htext (by simpa using hlen.symm)
  exact ⟨hinj.1, hinj.2.symm⟩

/-- The separator at the end of an open string literal can be taken out. -/
theorem Opened.exists_removed {u : List Char} (hc : isSeparator c = true)
    (h : Opened m k (u ++ [c]) .code) (hcode : Segment.bears ⟨k, u ++ [c]⟩ = true) :
    ∃ ss', Reads m ss' .code ∧ textOf ss' = u ∧ Removed c (Joined u []) [⟨k, u ++ [c]⟩] ss' := by
  generalize he : Mode.code = e at h
  generalize ht : u ++ [c] = t at h hcode
  cases h with
  | @literal p q b hp hb =>
      cases hp with
      | string hq =>
          cases u with
          | nil =>
              cases ht
              exact absurd rfl (isSeparator_ne_quote hc hq)
          | cons d u =>
              rw [List.cons_append, List.cons.injEq] at ht
              obtain ⟨rfl, rfl⟩ := ht
              have hopen : Opened .code (Place.string d).kind (d :: u) (Place.string d).mode :=
                .literal (.string hq) hb.of_append
              exact ⟨_, .opened hopen, by simp, rfl,
                fun _ => ⟨literalFirst_cons hopen.kind_ne_code, by simp⟩,
                fun _ => .inString hq⟩
      | template => cases he
  | lineComment => cases hcode
  | comment _ => cases hcode
  | restOfTemplate _ _ => cases he
  | restOfComment _ _ => cases hcode

/-- The separator that ends the code of a line can be taken out. -/
theorem Reads.exists_removed (hc : isSeparator c = true) (h : Reads m ss e) (he : e = .code)
    (hsolid : EndsSolid (textOf ss)) {u v : List Char} (htext : textOf ss = u ++ c :: v)
    (hlen : u.length + 1 = codeEndFrom 0 0 ss) :
    ∃ ss', Reads m ss' .code ∧ textOf ss' = u ++ v ∧ Removed c (Joined u v) ss ss' := by
  induction h generalizing u with
  | nil m => cases hlen
  | @code t ss e hne hplain hfirst hrest ih =>
      subst he
      rw [textOf_cons] at hsolid htext
      rw [codeEndFrom_cons] at hlen
      by_cases hss : bearCode ss = true
      · rw [if_pos hss] at hlen
        obtain ⟨u', rfl, hrest', hlen'⟩ := exists_later htext hlen hss
        obtain ⟨ss', hreads, htext', hremoved⟩ := ih rfl hsolid.of_append hrest' hlen'
        obtain ⟨hfirst', hhead⟩ := hremoved.first hfirst
        refine ⟨⟨.code, t⟩ :: ss', .code hne ?_ hfirst' hreads, by simp [htext'],
          hremoved.later hne⟩
        exact hplain.congr shortSighted_leavesCode fun _ _ _ hd _ _ => hhead ▸ hd
      · rw [if_neg hss] at hlen
        rw [Bool.not_eq_true] at hss
        have hbears : Segment.bears ⟨.code, t⟩ = true := by
          by_contra hquiet
          rw [if_neg hquiet] at hlen
          cases hlen
        rw [if_pos hbears] at hlen
        obtain ⟨b, hb, ht⟩ := exists_trimEnd t
        rw [ht, List.append_assoc] at htext
        obtain ⟨hu, rfl⟩ := eq_concat_of_append htext hlen
        rw [hu, List.append_assoc, List.singleton_append] at ht
        subst ht
        obtain ⟨ss', hreads, htext', htemplates, hinserted⟩ :=
          Reads.exists_removed_code hb hplain hfirst hrest hss
        refine ⟨ss', hreads, htext', by simp [htemplates, hrest.templatesOf_eq_nil hss],
          fun hcode => absurd rfl (hcode _ rfl), fun hjoined => hinserted fun hlast hhead => ?_⟩
        exact hjoined ⟨hlast, hhead⟩
  | @closed m e k t ss hclosed hrest ih =>
      subst he
      rw [textOf_cons] at hsolid htext
      rw [codeEndFrom_cons] at hlen
      by_cases hss : bearCode ss = true
      · rw [if_pos hss] at hlen
        obtain ⟨u', rfl, hrest', hlen'⟩ := exists_later htext hlen hss
        obtain ⟨ss', hreads, htext', hremoved⟩ := ih rfl hsolid.of_append hrest' hlen'
        exact ⟨⟨k, t⟩ :: ss', .closed hclosed hreads, by simp [htext'],
          hremoved.later hclosed.ne_nil⟩
      · rw [if_neg hss, hclosed.endsSolid.trimEnd_eq] at hlen
        have hlen' : u.length + 1 = t.length := by
          split at hlen
          · exact hlen
          · cases hlen
        obtain ⟨rfl, -⟩ := eq_concat_of_append htext hlen'
        exact absurd List.getLast?_concat (hclosed.getLast?_ne hc)
  | @opened m e k t hopened =>
      subst he
      rw [textOf_cons, textOf_nil, List.append_nil] at hsolid htext
      rw [codeEndFrom_cons, bearCode_nil, if_neg (by simp), hsolid.trimEnd_eq] at hlen
      have hbears : Segment.bears ⟨k, t⟩ = true := by
        by_contra hquiet
        rw [if_neg hquiet] at hlen
        cases hlen
      rw [if_pos hbears] at hlen
      obtain ⟨rfl, rfl⟩ := eq_concat_of_append (s := []) (by simpa using htext) hlen
      obtain ⟨ss', hreads, htext', hremoved⟩ := hopened.exists_removed hc hbears
      exact ⟨ss', hreads, by simp [htext'], hremoved⟩

end Flowscript.Format

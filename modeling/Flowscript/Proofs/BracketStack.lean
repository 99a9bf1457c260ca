/-
  Flowscript.Proofs.BracketStack

  The brackets a line leaves open.

  What a brace opens depends on the text before it, its quotes and the white space at its
  ends apart (`gist`).  So the brackets of a line stay the same when its quotes or the
  white space in front of it change; and the open ones stay the same also when white space
  or a separator is added to the end of its code or taken away there.
-/
import Flowscript.Proofs.LineStart
import Flowscript.Proofs.Words

namespace Flowscript.Format

open Text

variable {m e : Mode} {ss ss' : List Segment} {s t u u' a b before before' tail tail' : List Char}
  {later later' : List Char} {level : Nat} {c : Char} {stack : List (Bracket × Nat)}

-- ============================================================================
-- What a brace opens
-- ============================================================================

/-- A text without white space in front and with one kind of quotes. -/
def gist (s : List Char) : List Char := (trimStart s).map plainQuote

theorem gist_eq_nil_iff : gist s = [] ↔ isBlankText s = true := by
  rw [gist, List.map_eq_nil_iff, trimStart_eq_nil_iff]

theorem isBlankText_of_gist (h : gist s = gist t) : isBlankText s = isBlankText t := by
  rw [Bool.eq_iff_iff, ← gist_eq_nil_iff, h, gist_eq_nil_iff]

theorem gist_append (h : gist s = gist t) (hu : u.map plainQuote = u'.map plainQuote) :
    gist (s ++ u) = gist (t ++ u') := by
  have hblank := isBlankText_of_gist h
  cases hs : isBlankText s with
  | true =>
      rw [hs] at hblank
      rw [gist, gist, trimStart_append hs, trimStart_append hblank.symm, ← trimStart_map_plainQuote,
        ← trimStart_map_plainQuote, hu]
  | false =>
      rw [hs] at hblank
      rw [gist, gist, trimStart_append_of_not_blank hs, trimStart_append_of_not_blank hblank.symm,
        List.map_append, List.map_append, hu]
      exact congrArg (· ++ _) h

theorem words_map_plainQuote (s : List Char) :
    words (s.map plainQuote) = (words s).map (·.map plainQuote) := by
  induction s with
  | nil => rfl
  | cons c s ih =>
      rw [List.map_cons, words.eq_def, words.eq_def (c :: s)]
      simp only [isBlank_plainQuote]
      split
      · exact ih
      · cases s with
        | nil => rfl
        | cons d s =>
            simp only [List.map_cons, isBlank_plainQuote] at ih ⊢
            split
            · rw [ih]
              rfl
            · rw [ih]
              cases words (d :: s) with
              | nil => rfl
              | cons w ws => rfl

theorem mem_objectWords_iff {w : List Char} :
    w.map plainQuote ∈ objectWords ↔ w ∈ objectWords := by
  have hquotes : ∀ o ∈ objectWords, ∀ d ∈ o, isQuote d = false := by
    simp [objectWords, isQuote]
  constructor
  · intro h
    rwa [(map_plainQuote_eq_iff (hquotes _ h)).mp rfl]
  · intro h
    rwa [(map_plainQuote_eq_iff (hquotes w h)).mpr rfl]

theorem opensObject_plainQuote (c : Char) : opensObject (plainQuote c) = opensObject c := by
  unfold plainQuote
  split
  · next h =>
    rw [h]
    decide
  · rfl

theorem endsWith_arrow_congr (h : SameStart s.reverse t.reverse) :
    endsWith ['=', '>'] s = endsWith ['=', '>'] t := h.starts ['>', '='] (by decide)

/-- Quotes are no matter for what a brace opens. -/
theorem braceKind_map_plainQuote (s : List Char) :
    braceKind (s.map plainQuote) = braceKind s := by
  have harrow : endsWith ['=', '>'] (s.map plainQuote) = endsWith ['=', '>'] s := by
    refine endsWith_arrow_congr (sameStart_of_map_plainQuote ?_)
    rw [← List.map_reverse, List.map_map]
    exact congrArg (s.reverse.map ·) (funext plainQuote_plainQuote)
  unfold braceKind
  rw [List.getLast?_map, words_map_plainQuote, List.getLast?_map, harrow]
  cases s.getLast? with
  | none => rfl
  | some c =>
      simp only [Option.map_some, opensObject_plainQuote]
      cases (words s).getLast? with
      | none => rfl
      | some w => simp only [Option.map_some, mem_objectWords_iff]

/-- Nor is white space in front. -/
theorem braceKind_blank_append (hb : isBlankText b = true) (hne : s ≠ []) :
    braceKind (b ++ s) = braceKind s := by
  have harrow : endsWith ['=', '>'] (b ++ s) = endsWith ['=', '>'] s := by
    refine endsWith_arrow_congr ?_
    rw [List.reverse_append]
    refine sameStart_append_blank ?_
    rw [isBlankText, List.all_reverse]
    exact hb
  unfold braceKind
  rw [List.getLast?_append_of_ne_nil _ hne, words_blank_append hb, harrow]

theorem braceKind_gist (s : List Char) : braceKind (trimEnd (gist s)) = braceKind (trimEnd s) := by
  have htrim : braceKind (trimEnd s) = braceKind (trim s) := by
    by_cases hnil : trim s = []
    · rw [hnil, trimEnd_eq_nil_iff.mpr (trim_eq_nil_iff.mp hnil)]
    · obtain ⟨b, hb, hs⟩ := exists_trimStart (trimEnd s)
      rw [trimStart_trimEnd] at hs
      rw [hs, braceKind_blank_append hb hnil]
  rw [gist, trimEnd_map_plainQuote, braceKind_map_plainQuote, htrim]
  rfl

theorem braceKind_congr (h : gist s = gist t) : braceKind (trimEnd s) = braceKind (trimEnd t) := by
  rw [← braceKind_gist, h, braceKind_gist]

-- ============================================================================
-- Lines with other quotes or other white space in front
-- ============================================================================

theorem endsStatement_congr (h : s.map plainQuote = t.map plainQuote) :
    endsStatement s = endsStatement t := by
  have htrim : (trim s).map plainQuote = (trim t).map plainQuote := by
    rw [← trim_map_plainQuote, h, trim_map_plainQuote]
  have heq : ∀ o : List Char, (∀ d ∈ o, isQuote d = false) → (trim s = o ↔ trim t = o) := by
    intro o ho
    rw [← map_plainQuote_eq_iff ho, htrim, map_plainQuote_eq_iff ho]
  have hsemicolon := heq [';'] (by simp [isQuote])
  have hcomma := heq [','] (by simp [isQuote])
  simp only [endsStatement, heq [] (by simp), hsemicolon, hcomma]

theorem Brackets.follow_cons (b : Brackets) (c : Char) (rest : List Char) :
    b.follow level tail later before (c :: rest) =
      Brackets.follow level tail later
        (if c = '(' then { b with stack := (.paren, level) :: b.stack }
        else if c = '[' then { b with stack := (.square, level) :: b.stack }
        else if c = '{' then
          { b with stack := (braceKind (if (trimEnd before.reverse).isEmpty then trimEnd tail
            else trimEnd before.reverse), level) :: b.stack }
        else if isCloser c then
          { stack := b.stack.tail
            lastClosed := if isBlankText rest || endsStatement (rest ++ later) then
              b.stack.head?.map (·.1) else b.lastClosed }
        else b) (c :: before) rest := rfl

theorem isEmpty_trimEnd_reverse (before : List Char) :
    (trimEnd before.reverse).isEmpty = isBlankText before := by
  rw [Bool.eq_iff_iff, List.isEmpty_iff, trimEnd_eq_nil_iff, isBlankText, List.all_reverse]
  rfl

/-- The brackets of a code segment, after other text before the line or in it. -/
theorem Brackets.follow_congr (b : Brackets)
    (hbefore : gist before.reverse = gist before'.reverse)
    (hlater : later.map plainQuote = later'.map plainQuote)
    (htail : isBlankText before = true → (trimStart t).head? = some '{' →
      braceKind (trimEnd tail) = braceKind (trimEnd tail')) :
    b.follow level tail later before t = b.follow level tail' later' before' t := by
  induction t generalizing b before before' with
  | nil => rfl
  | cons c t ih =>
      rw [Brackets.follow_cons, Brackets.follow_cons]
      have hkind : c = '{' → braceKind (if (trimEnd before.reverse).isEmpty then trimEnd tail
            else trimEnd before.reverse) =
          braceKind (if (trimEnd before'.reverse).isEmpty then trimEnd tail'
            else trimEnd before'.reverse) := by
        rintro rfl
        have hblank := isBlankText_of_gist hbefore
        rw [isBlankText, List.all_reverse, isBlankText, List.all_reverse] at hblank
        rw [isEmpty_trimEnd_reverse, isEmpty_trimEnd_reverse,
          show isBlankText before = isBlankText before' from hblank]
        split
        · next hb' =>
          refine htail (hblank.trans hb') ?_
          rw [trimStart, List.dropWhile_cons, if_neg (by decide)]
          rfl
        · exact braceKind_congr hbefore
      have hend : endsStatement (t ++ later) = endsStatement (t ++ later') := by
        refine endsStatement_congr ?_
        rw [List.map_append, List.map_append, hlater]
      have hstep : ∀ b₁ : Brackets, b₁.follow level tail later (c :: before) t =
          b₁.follow level tail' later' (c :: before') t := by
        intro b₁
        refine ih b₁ ?_ ?_
        · rw [List.reverse_cons, List.reverse_cons]
          exact gist_append hbefore rfl
        · intro hblank hhead
          rw [isBlankText_cons, Bool.and_eq_true] at hblank
          refine htail hblank.2 ?_
          rwa [trimStart, List.dropWhile_cons, if_pos hblank.1]
      rw [hend, hstep]
      by_cases hc : c = '{'
      · rw [hkind hc]
      · simp only [if_neg hc]

/-- The first character that is not white space is a brace in code. -/
def bracesFirst : List Segment → Bool
  | [] => false
  | s :: ss =>
    if isBlankText s.text then bracesFirst ss
    else s.kind = .code && (trimStart s.text).head? = some '{'

theorem map_plainQuote_textOf (h : List.Forall₂ Segment.Alike ss ss') :
    (textOf ss').map plainQuote = (textOf ss).map plainQuote := by
  induction h with
  | nil => rfl
  | cons hs _ ih =>
      rw [textOf_cons, textOf_cons, List.map_append, List.map_append, hs.quotes, ih]

/-- The brackets of a line with other quotes.  The code before the line is a matter only for a
line that begins with a brace. -/
theorem Brackets.followAll_congr (b : Brackets) (h : List.Forall₂ Segment.Alike ss ss')
    (hbefore : gist before.reverse = gist before'.reverse)
    (htail : isBlankText before = true → bracesFirst ss = true →
      braceKind (trimEnd tail) = braceKind (trimEnd tail')) :
    b.followAll level tail before ss = b.followAll level tail' before' ss' := by
  induction h generalizing b before before' with
  | nil => rfl
  | @cons s s' ss ss' hs hss ih =>
      rw [Brackets.followAll, Brackets.followAll]
      have hfollow : (if s.kind = .code then
            b.follow level tail (textOf ss) before s.text else b) =
          (if s'.kind = .code then
            b.follow level tail' (textOf ss') before' s'.text else b) := by
        rw [hs.kind]
        split
        · next hcode =>
          rw [hs.code hcode]
          refine b.follow_congr hbefore (map_plainQuote_textOf hss).symm ?_
          intro hblank hhead
          refine htail hblank ?_
          have hsolid : isBlankText s.text = false := by
            rw [← Bool.not_eq_true, ← trimStart_eq_nil_iff]
            intro hnil
            rw [hnil] at hhead
            cases hhead
          rw [bracesFirst, hsolid]
          simp [hcode, hhead]
        · rfl
      rw [hfollow]
      refine ih _ ?_ ?_
      · rw [List.reverse_append, List.reverse_append, List.reverse_reverse, List.reverse_reverse]
        exact gist_append hbefore hs.quotes.symm
      · intro hblank hfirst
        rw [isBlankText_append, Bool.and_eq_true] at hblank
        have hs : isBlankText s.text = true := by
          rw [isBlankText, ← List.all_reverse]
          exact hblank.1
        refine htail hblank.2 ?_
        rw [bracesFirst, hs]
        exact hfirst

/-- The brackets of a line that starts in a comment are the same with other white space in front
and after any code. -/
theorem Releads.followAll_eq (b : Brackets) (h : Releads ss ss') :
    b.followAll level tail [] ss = b.followAll level tail' [] ss' := by
  cases h with
  | @comment a a' x ss ha ha' hx hne =>
      rw [Brackets.followAll, Brackets.followAll]
      have hsolid : isBlankText x = false := by
        rw [← Bool.not_eq_true, ← trimStart_eq_nil_iff, hx.trimStart_eq]
        exact hne
      refine Brackets.followAll_congr _ (alike_refl ss) ?_ ?_
      · rw [List.append_nil, List.append_nil, List.reverse_reverse, List.reverse_reverse, gist,
          gist, trimStart_append ha, trimStart_append ha']
      · intro hblank
        rw [List.append_nil, isBlankText, List.all_reverse] at hblank
        rw [show (a ++ x).all isBlank = (isBlankText a && isBlankText x) from List.all_append,
          hsolid, Bool.and_false] at hblank
        cases hblank

theorem Reads.starts_of_bracesFirst (h : Reads m ss e) (hfirst : bracesFirst ss = true) :
    m = .code := by
  have hcode : ∀ {k : SegmentKind} {t : List Char} {ss : List Segment}, k ≠ .code →
      isBlankText t = false → bracesFirst (⟨k, t⟩ :: ss) = false := by
    intro k t ss hk ht
    rw [bracesFirst, ht]
    simp [hk]
  cases h with
  | nil => cases hfirst
  | code _ _ _ _ => rfl
  | closed hclosed _ =>
      have hsolid : ∀ {t}, EndsSolid t → t ≠ [] → isBlankText t = false := by
        intro t ht hne
        rw [← Bool.not_eq_true, ← trimEnd_eq_nil_iff, ht.trimEnd_eq]
        exact hne
      rw [hcode hclosed.kind_ne_code (hsolid hclosed.endsSolid hclosed.ne_nil)] at hfirst
      cases hfirst
  | @opened m e k t hopened =>
      cases ht : isBlankText t with
      | true =>
          rw [bracesFirst, ht] at hfirst
          cases hfirst
      | false =>
          rw [hcode hopened.kind_ne_code ht] at hfirst
          cases hfirst

theorem head?_of_bracesFirst (hfirst : bracesFirst ss = true) (hsolid : StartsSolid (textOf ss))
    (hne : ∀ s ∈ ss, s.text ≠ []) : (textOf ss).head? = some '{' := by
  cases ss with
  | nil => cases hfirst
  | cons s ss =>
      have hs := hne s List.mem_cons_self
      rw [textOf_cons] at hsolid ⊢
      have hstart : StartsSolid s.text := by
        intro d hd
        refine hsolid d ?_
        rw [List.head?_append_of_ne_nil _ hs]
        exact hd
      have hblank : isBlankText s.text = false := by
        rw [← Bool.not_eq_true, ← trimStart_eq_nil_iff, hstart.trimStart_eq]
        exact hs
      rw [bracesFirst, hblank, hstart.trimStart_eq] at hfirst
      rw [List.head?_append_of_ne_nil _ hs]
      simpa using And.right (by simpa using hfirst)

-- ============================================================================
-- Open brackets
-- ============================================================================

/-- The open brackets after a character. -/
def openBracket (level : Nat) (tail : List Char) (stack : List (Bracket × Nat))
    (before : List Char) (c : Char) : List (Bracket × Nat) :=
  if c = '(' then (.paren, level) :: stack
  else if c = '[' then (.square, level) :: stack
  else if c = '{' then
    (braceKind (if (trimEnd before.reverse).isEmpty then trimEnd tail else trimEnd before.reverse),
      level) :: stack
  else if isCloser c then stack.tail
  else stack

/-- The open brackets after a text. -/
def openBrackets (level : Nat) (tail : List Char) (stack : List (Bracket × Nat))
    (before : List Char) : List Char → List (Bracket × Nat)
  | [] => stack
  | c :: rest =>
    openBrackets level tail (openBracket level tail stack before c) (c :: before) rest

/-- The open brackets after segments. -/
def openAll (level : Nat) (tail : List Char) (stack : List (Bracket × Nat)) (before : List Char) :
    List Segment → List (Bracket × Nat)
  | [] => stack
  | s :: ss =>
    openAll level tail
      (if s.kind = .code then openBrackets level tail stack before s.text else stack)
      (s.text.reverse ++ before) ss

theorem Brackets.stack_follow (b : Brackets) (t : List Char) :
    (b.follow level tail later before t).stack =
      openBrackets level tail b.stack before t := by
  induction t generalizing b before with
  | nil => rfl
  | cons c t ih =>
      rw [Brackets.follow_cons, ih, openBrackets, openBracket]
      congr 1
      split
      · rfl
      · split
        · rfl
        · split
          · rfl
          · split <;> rfl

theorem Brackets.stack_followAll (b : Brackets) (ss : List Segment) :
    (b.followAll level tail before ss).stack = openAll level tail b.stack before ss := by
  induction ss generalizing b before with
  | nil => rfl
  | cons s ss ih =>
      rw [Brackets.followAll, openAll, ih]
      congr 1
      split
      · exact b.stack_follow s.text
      · rfl

theorem openBrackets_append (x y : List Char) :
    openBrackets level tail stack before (x ++ y) =
      openBrackets level tail (openBrackets level tail stack before x) (x.reverse ++ before) y := by
  induction x generalizing stack before with
  | nil => rfl
  | cons c x ih =>
      rw [List.cons_append, openBrackets, openBrackets, ih, List.reverse_cons, List.append_assoc]
      rfl

/-- Characters that are no brackets. -/
def isPlain (c : Char) : Bool := isBlank c || isSeparator c

theorem openBracket_of_isPlain (hc : isPlain c = true) :
    openBracket level tail stack before c = stack := by
  have hne : ∀ d, isPlain d = false → c ≠ d := by
    rintro d hd rfl
    rw [hc] at hd
    cases hd
  have hcloser : isCloser c = false := by
    simp [isCloser, hne ')' (by decide), hne ']' (by decide), hne '}' (by decide)]
  rw [openBracket, if_neg (hne '(' (by decide)), if_neg (hne '[' (by decide)),
    if_neg (hne '{' (by decide)), hcloser]
  rfl

theorem openBrackets_of_isPlain (h : ∀ c ∈ t, isPlain c = true) :
    openBrackets level tail stack before t = stack := by
  induction t generalizing stack before with
  | nil => rfl
  | cons c t ih =>
      rw [List.forall_mem_cons] at h
      rw [openBrackets, openBracket_of_isPlain h.1, ih h.2]

theorem isPlain_of_isBlankText (h : isBlankText t = true) : ∀ c ∈ t, isPlain c = true := by
  intro c hc
  rw [isPlain, isBlankText_iff.mp h c hc]
  rfl

/-- Comments and white space open nothing and close nothing. -/
theorem openAll_of_quiet (h : bearCode ss = false) :
    openAll level tail stack before ss = stack := by
  induction ss generalizing before with
  | nil => rfl
  | cons s ss ih =>
      rw [bearCode_cons, Bool.or_eq_false_iff] at h
      rw [openAll]
      split
      · next hcode =>
        have hblank : isBlankText s.text = true := by simpa [Segment.bears, hcode] using h.1
        rw [openBrackets_of_isPlain (isPlain_of_isBlankText hblank), ih h.2]
      · exact ih h.2

theorem openAll_trimEnd (ss : List Segment) :
    openAll level tail stack before (trimEndSegments ss) = openAll level tail stack before ss := by
  induction ss generalizing stack before with
  | nil => rfl
  | cons s ss ih =>
      rw [trimEndSegments_cons]
      split
      · next hnil =>
        have hquiet : bearCode ss = false := programOf_eq_nil_iff.mp
          (programOf_of_isBlankText (trimEndSegments_eq_nil_iff.mp hnil))
        rw [openAll, openAll_of_quiet hquiet]
        split
        · next hs =>
          have hblank := isPlain_of_isBlankText (trimEnd_eq_nil_iff.mp hs)
          rw [openBrackets_of_isPlain hblank, ite_self]
          rfl
        · obtain ⟨b, hb, hs⟩ := exists_trimEnd s.text
          have hsame : openBrackets level tail stack before (trimEnd s.text) =
              openBrackets level tail stack before s.text := by
            conv => rhs; rw [hs, openBrackets_append,
              openBrackets_of_isPlain (isPlain_of_isBlankText hb)]
          rw [openAll, openAll, hsame]
      · rw [openAll, openAll, ih]

/-- A separator after the code opens nothing and closes nothing. -/
theorem Inserted.openAll_eq (hc : isSeparator c = true) (h : Inserted c ss ss') :
    openAll level tail stack before ss' = openAll level tail stack before ss := by
  have hplain : isPlain c = true := by rw [isPlain, hc, Bool.or_true]
  induction h generalizing stack before with
  | @within x b ss hb _ hquiet =>
      have hblank := isPlain_of_isBlankText hb
      rw [openAll, openAll, openAll_of_quiet hquiet, openAll_of_quiet hquiet, if_pos rfl,
        if_pos rfl, openBrackets_append, openBrackets_append, openBrackets_of_isPlain hblank,
        openBrackets_of_isPlain (List.forall_mem_cons.mpr ⟨hplain, hblank⟩)]
  | fresh _ hquiet =>
      rw [openAll, openAll_of_quiet hquiet, openAll_of_quiet hquiet, if_pos rfl,
        openBrackets_of_isPlain (List.forall_mem_singleton.mpr hplain)]
  | inString _ => rfl
  | later _ _ ih => rw [openAll, openAll, ih]

end Flowscript.Format

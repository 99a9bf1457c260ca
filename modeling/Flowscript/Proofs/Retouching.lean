/-
  Flowscript.Proofs.Retouching

  Changes of a line under which it keeps its reading.

  White space at the end may be trimmed, unless a template literal is left open there, and
  the quotes of strings may be changed.  What a line says with either quote is compared by
  `plainQuote`, which counts the two as one.
-/
import Flowscript.Format.Code
import Flowscript.Proofs.Reading

namespace Flowscript.Format

open Text

variable {m e : Mode} {k : SegmentKind} {ss ss' : List Segment} {s t next : List Char} {c q : Char}

-- ============================================================================
-- White space at the end
-- ============================================================================

theorem trimEndSegments_cons (s : Segment) (ss : List Segment) :
    trimEndSegments (s :: ss) =
      if trimEndSegments ss = [] then
        if trimEnd s.text = [] then [] else [⟨s.kind, trimEnd s.text⟩]
      else s :: trimEndSegments ss := by
  rw [trimEndSegments]
  split
  · next hnil => simp [hnil]
  · next hne => rw [if_neg hne]

theorem trimEndSegments_eq_nil_iff : trimEndSegments ss = [] ↔ isBlankText (textOf ss) = true := by
  induction ss with
  | nil => simp [trimEndSegments]
  | cons s ss ih =>
      rw [textOf_cons, isBlankText_append, Bool.and_eq_true, ← ih, ← trimEnd_eq_nil_iff,
        trimEndSegments_cons]
      by_cases hss : trimEndSegments ss = []
      · by_cases hs : trimEnd s.text = [] <;> simp [hss, hs]
      · simp [hss]

theorem textOf_trimEndSegments (ss : List Segment) :
    textOf (trimEndSegments ss) = trimEnd (textOf ss) := by
  induction ss with
  | nil => rfl
  | cons s ss ih =>
      rw [textOf_cons, trimEndSegments_cons]
      by_cases hss : trimEndSegments ss = []
      · rw [if_pos hss, trimEnd_append_blank (trimEndSegments_eq_nil_iff.mp hss)]
        by_cases hs : trimEnd s.text = [] <;> simp [hs]
      · have hsolid : isBlankText (textOf ss) = false := by
          rw [← Bool.not_eq_true, ← trimEndSegments_eq_nil_iff]
          exact hss
        rw [if_neg hss, textOf_cons, ih, trimEnd_append_of_not_blank hsolid]

/-- Segments are left alone by a trim if none is empty and the last one does not end blank. -/
theorem trimEndSegments_eq_self (hne : ∀ s ∈ ss, s.text ≠ []) (hsolid : EndsSolid (textOf ss)) :
    trimEndSegments ss = ss := by
  induction ss with
  | nil => rfl
  | cons s ss ih =>
      rw [textOf_cons] at hsolid
      have hrest : trimEndSegments ss = ss :=
        ih (fun s hs => hne s (List.mem_cons_of_mem _ hs)) hsolid.of_append
      rw [trimEndSegments_cons, hrest]
      by_cases hss : ss = []
      · subst hss
        rw [textOf_nil, List.append_nil] at hsolid
        rw [if_pos rfl, hsolid.trimEnd_eq, if_neg (hne s List.mem_cons_self)]
      · rw [if_neg hss]

/-- A literal that is left open may be cut off anywhere. -/
theorem OpenBody.of_append (h : OpenBody q (s ++ t)) : OpenBody q s := by
  generalize hst : s ++ t = st at h
  induction h generalizing s with
  | nil =>
      rw [(List.append_eq_nil_iff.mp hst).1]
      exact .nil
  | dangling =>
      cases s with
      | nil => exact .nil
      | cons c s =>
          rw [List.cons_append, List.cons.injEq, List.append_eq_nil_iff] at hst
          obtain ⟨rfl, rfl, -⟩ := hst
          exact .dangling
  | escape d _ ih =>
      cases s with
      | nil => exact .nil
      | cons c s =>
          rw [List.cons_append, List.cons.injEq] at hst
          obtain ⟨rfl, hst⟩ := hst
          cases s with
          | nil => exact .dangling
          | cons d' s =>
              rw [List.cons_append, List.cons.injEq] at hst
              obtain ⟨rfl, hst⟩ := hst
              exact .escape d' (ih hst)
  | char hq hb _ ih =>
      cases s with
      | nil => exact .nil
      | cons c s =>
          rw [List.cons_append, List.cons.injEq] at hst
          obtain ⟨rfl, hst⟩ := hst
          exact .char hq hb (ih hst)

theorem OpenBody.trimEnd (h : OpenBody q s) : OpenBody q (trimEnd s) := by
  obtain ⟨b, -, hs⟩ := exists_trimEnd s
  rw [hs] at h
  exact h.of_append

/-- Code or a comment without a place to stop has none when it is trimmed. -/
theorem Without.trimEnd {stop : List Char → Bool} (hstop : ShortSighted stop)
    (h : Without stop next s) : Without stop [] (trimEnd s) := by
  obtain ⟨b, -, hs⟩ := exists_trimEnd s
  rw [hs, without_append] at h
  have hcut : Without stop ([] ++ (b ++ next)) (Text.trimEnd s) := h.1
  exact hcut.of_append hstop

theorem isBlank_eq_false_of_delimits {p : Place} (h : Delimits p q) : isBlank q = false := by
  cases h with
  | string hq => rcases isQuote_iff.mp hq with rfl | rfl <;> decide
  | template => decide

/-- What ends in a line does not end blank. -/
theorem Closed.endsSolid (h : Closed m k t) : EndsSolid t := by
  have hslash : isBlank '/' = false := by decide
  cases h with
  | @literal p q b hp _ =>
      exact endsSolid_concat (s := q :: b) (isBlank_eq_false_of_delimits hp)
  | @comment b _ =>
      rw [show '/' :: '*' :: (b ++ ['*', '/']) = ('/' :: '*' :: (b ++ ['*'])) ++ ['/'] by simp]
      exact endsSolid_concat hslash
  | restOfTemplate _ => exact endsSolid_concat (by decide)
  | @restOfComment b _ =>
      rw [show b ++ ['*', '/'] = (b ++ ['*']) ++ ['/'] by simp]
      exact endsSolid_concat hslash

theorem Closed.ne_nil (h : Closed m k t) : t ≠ [] := by
  cases h <;> simp

theorem Opened.ne_nil (h : Opened m k t e) : t ≠ [] := by
  cases h with
  | literal _ _ => simp
  | lineComment => simp
  | comment _ => simp
  | restOfTemplate hne _ => exact hne
  | restOfComment hne _ => exact hne

/-- No segment of a reading is empty. -/
theorem Reads.text_ne_nil (h : Reads m ss e) : ∀ s ∈ ss, s.text ≠ [] := by
  induction h with
  | nil _ => simp
  | code hne _ _ _ ih => simpa [hne] using ih
  | closed hclosed _ ih => simpa [hclosed.ne_nil] using ih
  | opened hopened => simpa using hopened.ne_nil

/-- What is left open at the end of a line may be trimmed.  A line inside of a template literal
at both ends may have nothing left. -/
theorem Opened.trimEnd (h : Opened m k t e) (hm : m ≠ .template ∨ e ≠ .template) :
    Reads m (trimEndSegments [⟨k, t⟩]) e := by
  by_cases hnil : Text.trimEnd t = []
  · rw [show trimEndSegments [⟨k, t⟩] = [] by simp [trimEndSegments, hnil]]
    cases h with
    | literal hp _ =>
        rw [trimEnd_cons_of_solid (isBlank_eq_false_of_delimits hp)] at hnil
        cases hnil
    | lineComment =>
        rw [trimEnd_cons_of_solid (by decide)] at hnil
        cases hnil
    | comment _ =>
        rw [trimEnd_cons_of_solid (by decide)] at hnil
        cases hnil
    | restOfTemplate _ _ => exact .nil _
    | restOfComment _ _ => exact .nil _
  · rw [show trimEndSegments [⟨k, t⟩] = [⟨k, Text.trimEnd t⟩] by simp [trimEndSegments, hnil]]
    cases h with
    | literal hp hb =>
        rw [trimEnd_cons_of_solid (isBlank_eq_false_of_delimits hp)]
        exact .opened (.literal hp hb.trimEnd)
    | lineComment =>
        rw [trimEnd_cons_of_solid (by decide), trimEnd_cons_of_solid (by decide)]
        exact .opened .lineComment
    | comment hb =>
        rw [trimEnd_cons_of_solid (by decide), trimEnd_cons_of_solid (by decide)]
        exact .opened (.comment (hb.trimEnd shortSighted_leavesComment))
    | restOfTemplate _ hb => exact .opened (.restOfTemplate hnil hb.trimEnd)
    | restOfComment _ hb =>
        exact .opened (.restOfComment hnil (hb.trimEnd shortSighted_leavesComment))

/-- The first segment keeps its kind when the segments are trimmed. -/
theorem LiteralFirst.trimEnd (h : LiteralFirst ss) : LiteralFirst (trimEndSegments ss) := by
  cases ss with
  | nil => exact literalFirst_nil
  | cons s ss =>
      have hkind : s.kind ≠ .code := h s rfl
      rw [trimEndSegments_cons]
      split
      · split
        · exact literalFirst_nil
        · exact literalFirst_cons hkind
      · exact literalFirst_cons (k := s.kind) (t := s.text) hkind

/-- Trimming keeps the reading of a line, unless it is inside of a template literal. -/
theorem Reads.trimEnd (h : Reads m ss e) (hm : m ≠ .template ∨ e ≠ .template) :
    Reads m (trimEndSegments ss) e := by
  induction h with
  | nil m => exact .nil m
  | @code t ss e hne hplain hfirst hrest ih =>
      have hrest' := ih (.inl (by simp))
      rw [trimEndSegments_cons]
      split
      · next hnil =>
        rw [hnil] at hrest'
        cases hrest'
        split
        · exact .nil _
        · next ht =>
          exact .code ht (hplain.trimEnd shortSighted_leavesCode) literalFirst_nil (.nil _)
      · obtain ⟨b, -, htext⟩ := exists_trimEnd (textOf ss)
        rw [htext] at hplain
        refine .code hne ?_ hfirst.trimEnd hrest'
        rw [textOf_trimEndSegments]
        exact hplain.of_append shortSighted_leavesCode
  | @closed m e k t ss hclosed hrest ih =>
      have hrest' := ih (.inl (by simp))
      rw [trimEndSegments_cons]
      split
      · next hnil =>
        rw [hnil] at hrest'
        rw [hclosed.endsSolid.trimEnd_eq, if_neg hclosed.ne_nil]
        exact .closed hclosed hrest'
      · exact .closed hclosed hrest'
  | opened hopened => exact hopened.trimEnd hm

-- ============================================================================
-- Quotes
-- ============================================================================

variable {target : Char}

theorem body_of_forall_ne (hq : q ∉ s) (hb : '\\' ∉ s) : Body q s := by
  induction s with
  | nil => exact .nil
  | cons c s ih =>
      rw [List.mem_cons, not_or] at hq hb
      exact .char (Ne.symm hq.1) (Ne.symm hb.1) (ih hq.2 hb.2)

/-- A string literal that ends in its line has one kind of quotes, whichever it is. -/
theorem exists_requote_closed (ht : isQuote target = true) (hq : isQuote q = true)
    (hb : Body q s) :
    ∃ q', isQuote q' = true ∧ Body q' s ∧ requote target (q :: (s ++ [q])) = q' :: (s ++ [q']) := by
  rw [requote, List.dropLast_concat]
  split
  · exact ⟨q, hq, hb, rfl⟩
  · next hchange =>
    simp only [Bool.or_eq_true, decide_eq_true_eq, not_or] at hchange
    exact ⟨target, ht, body_of_forall_ne hchange.1.2 hchange.2, rfl⟩

/-- A quote at the end of an open string literal has a backslash in front of it. -/
theorem OpenBody.backslash_mem (hq : q ≠ '\\') (h : OpenBody q (s ++ [q])) : '\\' ∈ s := by
  generalize hst : s ++ [q] = st at h
  induction h generalizing s with
  | nil => simp at hst
  | dangling =>
      cases s with
      | nil =>
          cases hst
          exact absurd rfl hq
      | cons c s => simp at hst
  | escape d _ ih =>
      cases s with
      | nil => simp at hst
      | cons c s =>
          rw [List.cons_append, List.cons.injEq] at hst
          rw [hst.1]
          exact List.mem_cons_self
  | char hcq _ _ ih =>
      cases s with
      | nil =>
          cases hst
          exact absurd rfl hcq
      | cons c s =>
          rw [List.cons_append, List.cons.injEq] at hst
          exact List.mem_cons_of_mem _ (ih hst.2)

/-- An open string literal keeps its quote. -/
theorem requote_open (hq : isQuote q = true) (hb : OpenBody q s) :
    requote target (q :: s) = q :: s := by
  rw [requote]
  split
  · rfl
  · next hchange =>
    simp only [Bool.or_eq_true, decide_eq_true_eq, not_or, Classical.not_not, List.isEmpty_iff]
      at hchange
    obtain ⟨⟨⟨⟨hne, -⟩, hlast⟩, -⟩, hbackslash⟩ := hchange
    obtain ⟨s', rfl⟩ := List.getLast?_eq_some_iff.mp hlast
    rw [List.dropLast_concat] at hbackslash
    exact absurd (hb.backslash_mem (Delimits.string hq).ne_backslash) hbackslash

theorem requote_requote (target : Char) (s : List Char) :
    requote target (requote target s) = requote target s := by
  cases s with
  | nil => rfl
  | cons source rest =>
      by_cases hkeep : requote target (source :: rest) = source :: rest
      · rw [hkeep, hkeep]
      · have hnew : ∃ body, requote target (source :: rest) = target :: (body ++ [target]) := by
          rw [requote] at hkeep ⊢
          split
          · next h =>
            rw [if_pos h] at hkeep
            exact absurd rfl hkeep
          · exact ⟨_, rfl⟩
        obtain ⟨body, hnew⟩ := hnew
        rw [hnew, requote]
        simp

@[simp] theorem requoteSegments_nil : requoteSegments target [] = [] := rfl

@[simp] theorem requoteSegments_cons (s : Segment) (ss : List Segment) :
    requoteSegments target (s :: ss) =
      (if s.kind = .string then ⟨s.kind, requote target s.text⟩ else s) ::
        requoteSegments target ss := rfl

theorem requoteSegments_requoteSegments (target : Char) (ss : List Segment) :
    requoteSegments target (requoteSegments target ss) = requoteSegments target ss := by
  induction ss with
  | nil => rfl
  | cons s ss ih =>
      rw [requoteSegments_cons, requoteSegments_cons, ih]
      by_cases hs : s.kind = .string
      · simp [hs, requote_requote]
      · simp [hs]

theorem LiteralFirst.requote (h : LiteralFirst ss) : LiteralFirst (requoteSegments target ss) := by
  cases ss with
  | nil => exact literalFirst_nil
  | cons s ss =>
      have hkind : s.kind ≠ .code := h s rfl
      rw [requoteSegments_cons]
      by_cases hs : s.kind = .string
      · rw [if_pos hs]
        exact literalFirst_cons hkind
      · rw [if_neg hs]
        exact literalFirst_cons (k := s.kind) (t := s.text) hkind

/-- A string literal that ends in its line. -/
theorem Closed.exists_body (h : Closed m .string t) :
    ∃ q b, m = .code ∧ isQuote q = true ∧ Body q b ∧ t = q :: (b ++ [q]) := by
  generalize hk : SegmentKind.string = k at h
  cases h with
  | literal hp hb =>
      cases hp with
      | string hq => exact ⟨_, _, rfl, hq, hb, rfl⟩
      | template => cases hk
  | comment _ => cases hk
  | restOfTemplate _ => cases hk
  | restOfComment _ => cases hk

/-- A string literal that goes on to the end of the line. -/
theorem Opened.exists_body (h : Opened m .string t e) :
    ∃ q b, isQuote q = true ∧ OpenBody q b ∧ t = q :: b := by
  generalize hk : SegmentKind.string = k at h
  cases h with
  | literal hp hb =>
      cases hp with
      | string hq => exact ⟨_, _, hq, hb, rfl⟩
      | template => cases hk
  | lineComment => cases hk
  | comment _ => cases hk
  | restOfTemplate _ _ => cases hk
  | restOfComment _ _ => cases hk

/-- String literals, requoted, are string literals. -/
theorem Closed.requote (ht : isQuote target = true) (h : Closed m .string t) :
    Closed m .string (requote target t) := by
  obtain ⟨q, b, rfl, hq, hb, rfl⟩ := h.exists_body
  obtain ⟨q', hq', hb', heq⟩ := exists_requote_closed ht hq hb
  rw [heq]
  exact .literal (.string hq') hb'

theorem Opened.requote (h : Opened m .string t e) : requote target t = t := by
  obtain ⟨q, b, hq, hb, rfl⟩ := h.exists_body
  exact requote_open hq hb

/-- String literals start with a quote. -/
theorem Reads.exists_quote (h : Reads m ss e) :
    ∀ s ∈ ss, s.kind = .string → ∃ q r, isQuote q = true ∧ s.text = q :: r := by
  induction h with
  | nil _ => simp
  | code _ _ _ _ ih => simpa using ih
  | closed hclosed _ ih =>
      refine List.forall_mem_cons.mpr ⟨fun hk => ?_, ih⟩
      subst hk
      obtain ⟨q, b, -, hq, -, htext⟩ := hclosed.exists_body
      exact ⟨q, _, hq, htext⟩
  | opened hopened =>
      refine List.forall_mem_singleton.mpr fun hk => ?_
      subst hk
      obtain ⟨q, b, hq, -, htext⟩ := hopened.exists_body
      exact ⟨q, b, hq, htext⟩

theorem exists_requote_cons (target q : Char) (s : List Char) :
    ∃ q' s', requote target (q :: s) = q' :: s' ∧ (q' = q ∨ q' = target) := by
  rw [requote]
  split
  · exact ⟨q, s, rfl, .inl rfl⟩
  · exact ⟨target, _, rfl, .inr rfl⟩

/-- New quotes change no first character but a quote. -/
theorem Reads.head?_requote (ht : isQuote target = true) (h : Reads m ss e) {d : Char}
    (hd : (textOf (requoteSegments target ss)).head? = some d) (hquote : isQuote d = false) :
    (textOf ss).head? = some d := by
  cases ss with
  | nil => exact hd
  | cons s ss =>
      rw [requoteSegments_cons, textOf_cons] at hd
      by_cases hs : s.kind = .string
      · obtain ⟨q, r, hq, htext⟩ := h.exists_quote s List.mem_cons_self hs
        obtain ⟨q', r', hnew, hq'⟩ := exists_requote_cons target q r
        rw [if_pos hs, htext, hnew] at hd
        cases hd
        rcases hq' with rfl | rfl
        · rw [hq] at hquote
          cases hquote
        · rw [ht] at hquote
          cases hquote
      · have hne : s.text ≠ [] := h.text_ne_nil s List.mem_cons_self
        rw [if_neg hs, List.head?_append_of_ne_nil _ hne] at hd
        rw [textOf_cons, List.head?_append_of_ne_nil _ hne]
        exact hd

/-- New quotes keep the reading of a line. -/
theorem Reads.requote (ht : isQuote target = true) (h : Reads m ss e) :
    Reads m (requoteSegments target ss) e := by
  induction h with
  | nil m => exact .nil m
  | @code t ss e hne hplain hfirst hrest ih =>
      rw [requoteSegments_cons, if_neg (by simp)]
      refine .code hne ?_ hfirst.requote ih
      refine hplain.congr shortSighted_leavesCode fun c d _ hd hsingle hpair => ?_
      refine hrest.head?_requote ht hd ?_
      rcases (leavesCode_pair hsingle hpair).2 with rfl | rfl <;> decide
  | @closed m e k t ss hclosed _ ih =>
      rw [requoteSegments_cons]
      by_cases hk : k = .string
      · subst hk
        rw [if_pos rfl]
        exact .closed (hclosed.requote ht) ih
      · rw [if_neg hk]
        exact .closed hclosed ih
  | @opened m e k t hopened =>
      rw [requoteSegments_cons, requoteSegments_nil]
      by_cases hk : k = .string
      · subst hk
        rw [if_pos rfl, hopened.requote]
        exact .opened hopened
      · rw [if_neg hk]
        exact .opened hopened

/-- The two quotes count as one. -/
def plainQuote (c : Char) : Char := if c = '"' then '\'' else c

theorem plainQuote_of_isQuote (h : isQuote c = true) : plainQuote c = '\'' := by
  rcases isQuote_iff.mp h with rfl | rfl <;> rfl

theorem plainQuote_eq_iff {d : Char} (hd : isQuote d = false) : plainQuote c = d ↔ c = d := by
  unfold plainQuote
  by_cases hc : c = '"'
  · rw [if_pos hc]
    refine ⟨fun h => ?_, fun h => ?_⟩
    · rw [← h] at hd
      cases hd
    · rw [← h, hc] at hd
      cases hd
  · rw [if_neg hc]

theorem plainQuote_plainQuote (c : Char) : plainQuote (plainQuote c) = plainQuote c := by
  unfold plainQuote
  split
  · rfl
  · rfl

theorem isBlank_plainQuote (c : Char) : isBlank (plainQuote c) = isBlank c := by
  unfold plainQuote
  split
  · next h => rw [h]; decide
  · rfl

theorem isBlankText_map_plainQuote (s : List Char) :
    isBlankText (s.map plainQuote) = isBlankText s := by
  rw [isBlankText, List.all_map, isBlankText]
  exact congrArg s.all (funext isBlank_plainQuote)

theorem trimStart_map_plainQuote (s : List Char) :
    trimStart (s.map plainQuote) = (trimStart s).map plainQuote := by
  rw [trimStart, List.dropWhile_map, trimStart]
  exact congrArg (fun p => (s.dropWhile p).map plainQuote) (funext isBlank_plainQuote)

theorem trimEnd_map_plainQuote (s : List Char) :
    trimEnd (s.map plainQuote) = (trimEnd s).map plainQuote := by
  rw [trimEnd, dropEndWhile, ← List.map_reverse]
  rw [show List.dropWhile isBlank (s.reverse.map plainQuote) =
    (trimStart s.reverse).map plainQuote from trimStart_map_plainQuote _, ← List.map_reverse]
  rfl

theorem trim_map_plainQuote (s : List Char) :
    trim (s.map plainQuote) = (trim s).map plainQuote := by
  rw [trim, trimStart_map_plainQuote, trimEnd_map_plainQuote, trim]

/-- A string literal with other quotes is the same but for its quotes. -/
theorem map_plainQuote_requote (ht : isQuote target = true) (hq : isQuote q = true)
    (s : List Char) : (requote target (q :: s)).map plainQuote = (q :: s).map plainQuote := by
  rw [requote]
  split
  · rfl
  · next hchange =>
    simp only [Bool.or_eq_true, decide_eq_true_eq, not_or, Classical.not_not] at hchange
    obtain ⟨b, rfl⟩ := List.getLast?_eq_some_iff.mp hchange.1.1.2
    simp [plainQuote_of_isQuote ht, plainQuote_of_isQuote hq]

/-- A line with other quotes is the same but for its quotes. -/
theorem Reads.map_plainQuote_requote (ht : isQuote target = true) (h : Reads m ss e) :
    (textOf (requoteSegments target ss)).map plainQuote = (textOf ss).map plainQuote := by
  have hquotes := h.exists_quote
  clear h
  induction ss with
  | nil => rfl
  | cons s ss ih =>
      rw [requoteSegments_cons, textOf_cons, textOf_cons, List.map_append, List.map_append,
        ih fun s hs => hquotes s (List.mem_cons_of_mem _ hs)]
      by_cases hs : s.kind = .string
      · obtain ⟨q, r, hq, htext⟩ := hquotes s List.mem_cons_self hs
        rw [if_pos hs, htext, Format.map_plainQuote_requote ht hq]
      · rw [if_neg hs]

end Flowscript.Format

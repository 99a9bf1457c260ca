/-
  Flowscript.Proofs.YamlScalars

  Gaps, strings and words of JSON as the YAML reader sees them.

  A gap is skipped to the next token.  A string is read to its closing quote and a word
  to the end of the gap after it, and a string does not leave its line, so that the place
  after it is known.  No character of a tree is refused.
-/
import Flowscript.Proofs.WordScalars
import Flowscript.Yaml.Lexer

namespace Flowscript

open Shared

namespace Yaml

variable {s s' r w g spaces : List Char} {c : Char}

-- ============================================================================
-- Places
-- ============================================================================

theorem Place.along_append (p : Place) (s r : List Char) :
    p.along (s ++ r) = (p.along s).along r := by
  simp only [along, List.countP_append, List.length_append, Nat.add_assoc]

theorem Place.along_cons (p : Place) (c : Char) (s : List Char) :
    (p.along [c]).along s = p.along (c :: s) :=
  (p.along_append [c] s).symm

/-- A character that does not end the line. -/
theorem Place.next_of_not_isBreak (h : isBreak c = false) (p : Place) (s : List Char) :
    p.next c s = p.along [c] := by
  rw [next, h, Bool.false_and, if_neg Bool.false_ne_true]
  by_cases hmark : c = byteOrderMark
  · simp [hmark, along]
  · simp [hmark, along]

-- ============================================================================
-- Gaps
-- ============================================================================

/-- Without white space at the start. -/
def skipGap (s : List Char) : List Char := s.dropWhile isGap

theorem skipGap_of_gap (h : Gap s r) : skipGap s = skipGap r := by
  obtain ⟨g, rfl, hg⟩ := h
  exact List.dropWhile_append_of_pos hg

theorem skipGap_cons (h : isGap c = false) (s : List Char) : skipGap (c :: s) = c :: s := by
  rw [skipGap, List.dropWhile_cons, h, if_neg (by simp)]

theorem length_skipGap_le (s : List Char) : (skipGap s).length ≤ s.length :=
  (List.dropWhile_sublist isGap).length_le

/-- A character that starts a token and neither a comment nor a directive. -/
def isStart (c : Char) : Bool := !isGap c && !isBreak c && c ≠ '#' && c ≠ '%'

/-- The end of the text, or a character that starts a token. -/
def Starts (s : List Char) : Prop := ∀ c, s.head? = some c → isStart c = true

theorem starts_cons (h : isStart c = true) (s : List Char) : Starts (c :: s) := by
  rintro d ⟨⟩
  exact h

theorem isBreak_or_eq_of_isGap (h : isGap c = true) : isBreak c = true ∨ c = ' ' := by
  simp only [isGap, Bool.or_eq_true, decide_eq_true_eq] at h
  rcases h with (rfl | rfl) | rfl
  · exact .inr rfl
  · exact .inl (by decide)
  · exact .inl (by decide)

theorem isGap_of_startsTree (h : startsTree c = true) : isGap c = false := by
  by_contra hgap
  simp only [isGap, Bool.not_eq_false, Bool.or_eq_true, decide_eq_true_eq] at hgap
  rcases hgap with (rfl | rfl) | rfl <;> cases h

/-- The text that a tree begins with has no gap in front. -/
theorem skipGap_of_begins {t : Tree} (h : Begins t s r) : skipGap s = s := by
  obtain ⟨c, cs, rfl, hc⟩ := h.exists_cons
  exact skipGap_cons (isGap_of_startsTree hc) cs

namespace Lexer

/-- Where a token starts there is no gap left. -/
theorem skipGaps_of_starts (h : Starts s) (broke : Bool) (p : Place) :
    skipGaps false broke p s = ⟨broke, p, s⟩ := by
  cases s with
  | nil => rfl
  | cons c s =>
      have hc := h c rfl
      simp only [isStart, Bool.and_eq_true, Bool.not_eq_true', decide_eq_true_eq] at hc
      have hspace : c ≠ ' ' := by
        rintro rfl
        cases hc.1.1.1
      rw [skipGaps]
      simp only [hc.1.1.2, hspace, hc.1.2, Bool.false_eq_true, if_false]

/-- The gap before a token is skipped. -/
theorem exists_skipGaps (hg : ∀ c ∈ g, isGap c = true) (hs : Starts s) (broke : Bool) (p : Place) :
    ∃ broke' p', skipGaps false broke p (g ++ s) = ⟨broke', p', s⟩ := by
  induction g generalizing broke p with
  | nil => exact ⟨broke, p, skipGaps_of_starts hs broke p⟩
  | cons c g ih =>
      have hg' : ∀ d ∈ g, isGap d = true := fun d hd => hg d (List.mem_cons_of_mem c hd)
      rw [List.cons_append, skipGaps]
      by_cases hc : isBreak c = true
      · simp only [hc, if_true]
        exact ih hg' _ _
      · obtain rfl := (isBreak_or_eq_of_isGap (hg c List.mem_cons_self)).resolve_left hc
        simp only [hc, if_false, if_true, Bool.false_eq_true]
        exact ih hg' _ _

/-- Spaces are skipped along the line. -/
theorem skipGaps_spaces (hspaces : ∀ c ∈ spaces, c = ' ') (hs : Starts s) (p : Place) :
    skipGaps false false p (spaces ++ s) = ⟨false, p.along spaces, s⟩ := by
  induction spaces generalizing p with
  | nil => exact skipGaps_of_starts hs false p
  | cons c spaces ih =>
      obtain rfl := hspaces c List.mem_cons_self
      have hbreak : isBreak ' ' = false := by decide
      have htail := ih fun d hd => hspaces d (List.mem_cons_of_mem _ hd)
      rw [List.cons_append, skipGaps, Place.next_of_not_isBreak hbreak]
      simp only [hbreak, Bool.false_eq_true, if_false, if_true, htail]
      rw [Place.along_cons]

end Lexer

-- ============================================================================
-- Strings
-- ============================================================================

/-- An escape of one letter stands for the same character. -/
theorem escaped?_of_json {e : Char} (h : Json.escaped? c = some e) :
    escaped? c = some e.toNat ∧ isBreak c = false := by
  unfold Json.escaped? at h
  split at h <;> cases h <;> decide

theorem isBreak_of_toNat (hlow : 0x20 ≤ c.toNat) (hhigh : c.toNat < 0x80) : isBreak c = false := by
  have hline : c ≠ '\n' := by
    rintro rfl
    exact absurd hlow (by decide)
  have hreturn : c ≠ '\r' := by
    rintro rfl
    exact absurd hlow (by decide)
  simp [isBreak, hline, hreturn]
  omega

theorem toNat_of_hexValue? {n : Nat} (h : Json.hexValue? c = some n) :
    48 ≤ c.toNat ∧ c.toNat ≤ 102 ∧ n < 16 := by
  have hrange : ∀ {low high : Char}, (low ≤ c && c ≤ high) = true →
      low.toNat ≤ c.toNat ∧ c.toNat ≤ high.toNat := by
    intro low high h
    rw [Bool.and_eq_true, decide_eq_true_eq, decide_eq_true_eq] at h
    exact ⟨UInt32.le_iff_toNat_le.mp h.1, UInt32.le_iff_toNat_le.mp h.2⟩
  unfold Json.hexValue? at h
  split at h
  · next hc =>
    have hdigit := toNat_of_isDigit hc
    cases h
    omega
  split at h
  · next hc =>
    have hsmall : 97 ≤ c.toNat ∧ c.toNat ≤ 102 := hrange hc
    cases h
    omega
  split at h
  · next hc =>
    have hcapital : 65 ≤ c.toNat ∧ c.toNat ≤ 70 := hrange hc
    cases h
    omega
  · cases h

theorem isBreak_of_hexValue? {n : Nat} (h : Json.hexValue? c = some n) : isBreak c = false := by
  have hrange := toNat_of_hexValue? h
  exact isBreak_of_toNat (by omega) (by omega)

/-- Reading stands in the text of a quoted scalar or among spaces of it. -/
def QuotedState.IsOpen (st : QuotedState) : Prop := st = .text ∨ ∃ spaces, st = .gap spaces []

theorem QuotedState.isOpen_addSpace {st : QuotedState} (h : st.IsOpen) (c : Char) :
    (st.addSpace c).IsOpen ∧ (st.addSpace c).kept = st.kept ++ [c] := by
  rcases h with rfl | ⟨spaces, rfl⟩
  · exact ⟨.inr ⟨_, rfl⟩, rfl⟩
  · exact ⟨.inr ⟨_, rfl⟩, rfl⟩

/-- One character of a quoted scalar, which does not end the line. -/
theorem quotedCodes_cons {st : QuotedState} (hst : st.IsOpen) (hc : isBreak c = false) (p : Place)
    (s : List Char) :
    quotedCodes true st p (c :: s) =
      if isSpace c then quotedCodes true (st.addSpace c) (p.along [c]) s
      else if c = '"' then .ok ⟨st.kept.map Char.toNat, p.along [c], s⟩
      else if c = '\\' then prepend st.kept (quotedCodes true .escape (p.along [c]) s)
      else prepend (st.kept ++ [c]) (quotedCodes true .text (p.along [c]) s) := by
  rcases hst with rfl | ⟨spaces, rfl⟩ <;>
    simp [quotedCodes, hc, Place.next_of_not_isBreak hc]

/-- A hexadecimal digit of an escape that is not the last one. -/
theorem quotedCodes_code {d left : Nat} (hd : Json.hexValue? c = some d) (hleft : 1 < left)
    (value : Nat) (p : Place) (s : List Char) :
    quotedCodes true (.code left value) p (c :: s) =
      quotedCodes true (.code (left - 1) (value * 16 + d)) (p.along [c]) s := by
  rw [quotedCodes]
  simp only [hd, hleft, if_true, Place.next_of_not_isBreak (isBreak_of_hexValue? hd)]

/-- An escape of four digits. -/
theorem quotedCodes_unit {a b c d : Char} {u : Nat} (hu : Json.unit? a b c d = some u) (p : Place)
    (s : List Char) :
    quotedCodes true .escape p ('u' :: a :: b :: c :: d :: s) =
      (quotedCodes true .text (p.along ['u', a, b, c, d]) s).map (Scanned.map (u :: ·)) := by
  simp only [Json.unit?, Option.bind_eq_bind, Option.bind_eq_some_iff, Option.pure_def,
    Option.some.injEq] at hu
  obtain ⟨i, ha, j, hb, k, hc, l, hd, rfl⟩ := hu
  have hletter : quotedCodes true .escape p ('u' :: a :: b :: c :: d :: s) =
      quotedCodes true (.code 4 0) (p.along ['u']) (a :: b :: c :: d :: s) := by
    rw [quotedCodes, Place.next_of_not_isBreak (by decide)]
    rfl
  have hfits : ¬ 0x10FFFF < ((i * 16 + j) * 16 + k) * 16 + l := by
    have hi := (toNat_of_hexValue? ha).2.2
    have hj := (toNat_of_hexValue? hb).2.2
    have hk := (toNat_of_hexValue? hc).2.2
    have hl := (toNat_of_hexValue? hd).2.2
    omega
  have hplace : ((((p.along ['u']).along [a]).along [b]).along [c]).along [d] =
      p.along ['u', a, b, c, d] := by
    simp only [← Place.along_append]
    rfl
  rw [hletter, quotedCodes_code ha (by decide), quotedCodes_code hb (by decide),
    quotedCodes_code hc (by decide), quotedCodes]
  simp only [hd, Place.next_of_not_isBreak (isBreak_of_hexValue? hd), hplace, hfits, if_false,
    Nat.reduceSub, Nat.lt_irrefl, Nat.zero_mul, Nat.zero_add]

/-- A string is read up to its closing quote, along the line. -/
theorem exists_quotedCodes {us : List Nat} (h : Codes us s r) {st : QuotedState}
    (hst : st.IsOpen) (p : Place) :
    ∃ w, s = w ++ r ∧
      quotedCodes true st p s = .ok ⟨st.kept.map Char.toNat ++ us, p.along w, r⟩ := by
  induction h generalizing st p with
  | @close r =>
      refine ⟨['"'], rfl, ?_⟩
      rw [quotedCodes_cons hst (by decide), List.append_nil]
      rfl
  | @bare c us s r hc _ ih =>
      simp only [isBare, Bool.and_eq_true, decide_eq_true_eq, Bool.not_eq_true'] at hc
      rw [quotedCodes_cons hst hc.2]
      by_cases hspace : isSpace c = true
      · obtain ⟨hopen, hkept⟩ := QuotedState.isOpen_addSpace hst c
        obtain ⟨w, rfl, hread⟩ := ih hopen (p.along [c])
        refine ⟨c :: w, rfl, ?_⟩
        rw [if_pos hspace, hread, hkept, Place.along_cons, List.map_append, List.append_assoc]
        rfl
      · obtain ⟨w, rfl, hread⟩ := ih (.inl rfl) (p.along [c])
        refine ⟨c :: w, rfl, ?_⟩
        rw [if_neg hspace, if_neg hc.1.1.1.1, if_neg hc.1.1.1.2, hread, Place.along_cons, prepend]
        simp [Except.map, Scanned.map, QuotedState.kept]
  | @escape c e us s r he _ ih =>
      obtain ⟨hescaped, hbreak⟩ := escaped?_of_json he
      obtain ⟨w, rfl, hread⟩ := ih (.inl rfl) (p.along ['\\', c])
      refine ⟨'\\' :: c :: w, rfl, ?_⟩
      rw [quotedCodes_cons hst (by decide), if_neg (by decide), if_neg (by decide), if_pos rfl,
        quotedCodes]
      simp only [hbreak, hescaped, Place.next_of_not_isBreak hbreak, Bool.false_eq_true, if_false,
        Place.along_cons]
      rw [hread, ← Place.along_append]
      rfl
  | @code a b c d u us s r hu _ _ ih =>
      obtain ⟨w, rfl, hread⟩ := ih (.inl rfl) (p.along ['\\', 'u', a, b, c, d])
      refine ⟨'\\' :: 'u' :: a :: b :: c :: d :: w, rfl, ?_⟩
      rw [quotedCodes_cons hst (by decide), if_neg (by decide), if_neg (by decide), if_pos rfl,
        quotedCodes_unit hu, Place.along_cons, hread, ← Place.along_append]
      rfl

theorem exists_quoted {us : List Nat} (h : Codes us s r) (p : Place) :
    ∃ w, s = w ++ r ∧ quoted true p s = .ok ⟨textOf us, p.along w, r⟩ := by
  obtain ⟨w, hs, hread⟩ := exists_quotedCodes h (.inl rfl) p
  refine ⟨w, hs, ?_⟩
  rw [quoted, hread]
  rfl

-- ============================================================================
-- Words
-- ============================================================================

/-- A character that does not end a plain scalar. -/
def isInner (c : Char) : Bool :=
  c ≠ ' ' && !isBreak c && c ≠ '\t' && c ≠ ':' && c ≠ '?' && !isFlowMark c

theorem isInner_of_isNumeral (hc : isNumeral c = true) : isInner c = true := by
  refine isNumeral_induction (p := fun c => isInner c = true) ?_ ?_ ?_ ?_ ?_ ?_ hc
  · intro c hlow hhigh
    have hne : ∀ {d : Char}, d.toNat < 48 ∨ 57 < d.toNat → c ≠ d := by
      rintro d hd rfl
      omega
    have hmark : isFlowMark c = false := by
      simp [isFlowMark, hne (d := ',') (by decide), hne (d := '[') (by decide),
        hne (d := ']') (by decide), hne (d := '{') (by decide), hne (d := '}') (by decide)]
    simp [isInner, hmark, isBreak_of_toNat (show 0x20 ≤ c.toNat by omega) (by omega),
      hne (d := ' ') (by decide), hne (d := '\t') (by decide), hne (d := ':') (by decide),
      hne (d := '?') (by decide)]
  all_goals decide

/-- The text ends here, or a mark follows that ends a plain scalar of a flow collection. -/
def Closes (flow : Bool) (s : List Char) : Prop :=
  s = [] ∨ flow = true ∧ ∃ c r, s = c :: r ∧ (c = ',' ∨ c = ']' ∨ c = '}')

theorem atSeparator_of_ne (hminus : c ≠ '-') (hpoint : c ≠ '.') (s : List Char) :
    atSeparator (c :: s) = false := by
  unfold atSeparator
  split
  · next heq =>
    cases heq
    simp [hminus, hpoint]
  · rfl

theorem atSeparator_of_closes {flow : Bool} (hg : ∀ c ∈ g, isGap c = true) (hs : Closes flow s) :
    atSeparator (g ++ s) = false := by
  cases g with
  | nil =>
      rcases hs with rfl | ⟨-, c, r, rfl, hc⟩
      · rfl
      · rcases hc with rfl | rfl | rfl <;> exact atSeparator_of_ne (by decide) (by decide) r
  | cons c g =>
      have hc := hg c List.mem_cons_self
      refine atSeparator_of_ne ?_ ?_ (g ++ s)
      · rintro rfl
        cases hc
      · rintro rfl
        cases hc

/-- A plain scalar ends with the gap before a mark. -/
theorem exists_plain_gap {flow : Bool} (hg : ∀ c ∈ g, isGap c = true) (hs : Closes flow s)
    (indent : Int) (st : PlainState) (p : Place) :
    ∃ broke p', plain flow indent st p (g ++ s) = ⟨([], broke), p', s⟩ := by
  induction g generalizing st p with
  | nil =>
      refine ⟨st.broke, p, ?_⟩
      rcases hs with rfl | ⟨rfl, c, r, rfl, hc⟩
      · rfl
      · rcases hc with rfl | rfl | rfl <;>
          simp [plain, isBreak, PlainState.endsAt, stopsPlain, isFlowMark]
  | cons c g ih =>
      have hg' : ∀ d ∈ g, isGap d = true := fun d hd => hg d (List.mem_cons_of_mem c hd)
      rw [List.cons_append, plain.eq_def]
      by_cases hspace : c = ' '
      · simp only [hspace, if_true]
        exact ih hg' _ _
      · have hbreak := (isBreak_or_eq_of_isGap (hg c List.mem_cons_self)).resolve_right hspace
        simp only [hspace, hbreak, atSeparator_of_closes hg' hs, if_false, if_true,
          Bool.false_eq_true]
        split
        · exact ih hg' _ _
        · exact ih hg' _ _

/-- A plain scalar is read up to the gap after it. -/
theorem exists_plain {flow : Bool} (hw : ∀ c ∈ w, isInner c = true)
    (hg : ∀ c ∈ g, isGap c = true) (hs : Closes flow s) (indent : Int) (p : Place) :
    ∃ broke p', plain flow indent .word p (w ++ (g ++ s)) = ⟨(w, broke), p', s⟩ := by
  induction w generalizing p with
  | nil => exact exists_plain_gap hg hs indent .word p
  | cons c w ih =>
      have hc := hw c List.mem_cons_self
      simp only [isInner, Bool.and_eq_true, Bool.not_eq_true', decide_eq_true_eq] at hc
      obtain ⟨⟨⟨⟨⟨hspace, hbreak⟩, htab⟩, hcolon⟩, hquestion⟩, hmark⟩ := hc
      have hends : ∀ p s, PlainState.word.endsAt flow indent p c s = false := by
        intro p s
        simp [PlainState.endsAt, stopsPlain, htab, hcolon, hquestion, hmark]
      obtain ⟨broke, p', hread⟩ := ih (fun d hd => hw d (List.mem_cons_of_mem c hd))
        (p.next c (w ++ (g ++ s)))
      refine ⟨broke, p', ?_⟩
      rw [List.cons_append, plain.eq_def]
      simp only [hspace, hbreak, hends, hread, if_false, Bool.false_eq_true]
      rfl

/-- The characters of a word. -/
theorem isInner_of_word {v : Scalar} (hw : Word v w) : ∀ c ∈ w, isInner c = true := by
  have hnumeric : IsNumeric w → ∀ c ∈ w, isInner c = true := fun h c hc =>
    isInner_of_isNumeral (h c hc)
  cases hw with
  | null => exact List.all_eq_true.mp (by decide)
  | yes => exact List.all_eq_true.mp (by decide)
  | no => exact List.all_eq_true.mp (by decide)
  | int negative hds =>
      exact hnumeric (isNumeric_append (isNumeric_sign negative)
        (isNumeric_of_digits (isDigits_of_isWhole hds).2))
  | float negative hds hplaces hx =>
      refine hnumeric ?_
      simpa using isNumeric_append (isNumeric_sign negative)
        (isNumeric_fraction (isDigits_of_isWhole hds) hplaces hx)

-- ============================================================================
-- Characters
-- ============================================================================

/-- All characters may stand in a text. -/
def IsAllowed (s : List Char) : Prop := ∀ c ∈ s, isAllowed c = true

theorem isAllowed_cons (hc : isAllowed c = true) (hs : IsAllowed s) : IsAllowed (c :: s) := by
  intro d hd
  rcases List.mem_cons.mp hd with rfl | hd
  · exact hc
  · exact hs d hd

theorem isAllowed_append (hs : IsAllowed s) (hr : IsAllowed r) : IsAllowed (s ++ r) := by
  intro c hc
  rcases List.mem_append.mp hc with hc | hc
  · exact hs c hc
  · exact hr c hc

theorem isAllowed_of_toNat (hlow : 0x20 ≤ c.toNat) (hhigh : c.toNat ≤ 0x7E) :
    isAllowed c = true := by
  simp [isAllowed, hlow, hhigh]

theorem isAllowed_of_gap (h : Gap s r) (hr : IsAllowed r) : IsAllowed s := by
  obtain ⟨g, rfl, hg⟩ := h
  refine isAllowed_append (fun c hc => ?_) hr
  have hgap := hg c hc
  simp only [isGap, Bool.or_eq_true, decide_eq_true_eq] at hgap
  rcases hgap with (rfl | rfl) | rfl <;> decide

theorem isAllowed_of_isNumeric (h : IsNumeric s) : IsAllowed s := by
  intro c hc
  refine isNumeral_induction (p := fun c => isAllowed c = true) ?_ ?_ ?_ ?_ ?_ ?_ (h c hc)
  · intro c hlow hhigh
    exact isAllowed_of_toNat (by omega) (by omega)
  all_goals decide

theorem isAllowed_of_word {v : Scalar} (hw : Word v w) : IsAllowed w := by
  cases hw with
  | null => exact List.all_eq_true.mp (by decide)
  | yes => exact List.all_eq_true.mp (by decide)
  | no => exact List.all_eq_true.mp (by decide)
  | int negative hds =>
      exact isAllowed_of_isNumeric (isNumeric_append (isNumeric_sign negative)
        (isNumeric_of_digits (isDigits_of_isWhole hds).2))
  | float negative hds hplaces hx =>
      refine isAllowed_of_isNumeric ?_
      simpa using isNumeric_append (isNumeric_sign negative)
        (isNumeric_fraction (isDigits_of_isWhole hds) hplaces hx)

theorem isAllowed_of_hexValue? {n : Nat} (h : Json.hexValue? c = some n) :
    isAllowed c = true := by
  have hrange := toNat_of_hexValue? h
  exact isAllowed_of_toNat (by omega) (by omega)

theorem isAllowed_of_codes {us : List Nat} (h : Codes us s r) (hr : IsAllowed r) :
    IsAllowed s := by
  induction h with
  | close => exact isAllowed_cons (by decide) hr
  | bare hc _ ih =>
      simp only [isBare, Bool.and_eq_true] at hc
      exact isAllowed_cons hc.1.2 (ih hr)
  | escape he _ ih =>
      refine isAllowed_cons (by decide) (isAllowed_cons ?_ (ih hr))
      unfold Json.escaped? at he
      split at he <;> cases he <;> decide
  | code hu _ _ ih =>
      simp only [Json.unit?, Option.bind_eq_bind, Option.bind_eq_some_iff] at hu
      obtain ⟨_, ha, _, hb, _, hc, _, hd, -⟩ := hu
      exact isAllowed_cons (by decide) (isAllowed_cons (by decide)
        (isAllowed_cons (isAllowed_of_hexValue? ha) (isAllowed_cons (isAllowed_of_hexValue? hb)
          (isAllowed_cons (isAllowed_of_hexValue? hc) (isAllowed_cons (isAllowed_of_hexValue? hd)
            (ih hr))))))

mutual

theorem isAllowed_of_begins {t : Tree} {s r : List Char} (h : Begins t s r) (hr : IsAllowed r) :
    IsAllowed s := by
  cases h with
  | word hw _ => exact isAllowed_append (isAllowed_of_word hw) hr
  | string hcodes => exact isAllowed_cons (by decide) (isAllowed_of_codes hcodes hr)
  | emptyList hgap | emptyMap hgap =>
      exact isAllowed_cons (by decide) (isAllowed_of_gap hgap (isAllowed_cons (by decide) hr))
  | list hitems => exact isAllowed_cons (by decide) (isAllowed_of_items hitems hr)
  | map hmembers => exact isAllowed_cons (by decide) (isAllowed_of_members hmembers hr)

theorem isAllowed_of_items {ts : List Tree} {s r : List Char} (h : Items ts s r)
    (hr : IsAllowed r) : IsAllowed s := by
  cases h with
  | last hgap hitem hend =>
      exact isAllowed_of_gap hgap (isAllowed_of_begins hitem
        (isAllowed_of_gap hend (isAllowed_cons (by decide) hr)))
  | cons hgap hitem hcomma hitems =>
      exact isAllowed_of_gap hgap (isAllowed_of_begins hitem
        (isAllowed_of_gap hcomma (isAllowed_cons (by decide) (isAllowed_of_items hitems hr))))

theorem isAllowed_of_member {m : String × Tree} {s r : List Char} (h : Member m s r)
    (hr : IsAllowed r) : IsAllowed s := by
  cases h with
  | mk hcodes hspaces _ hgap hvalue =>
      refine isAllowed_cons (by decide) (isAllowed_of_codes hcodes (isAllowed_append ?_
        (isAllowed_cons (by decide) (isAllowed_of_gap hgap (isAllowed_of_begins hvalue hr)))))
      intro c hc
      rw [hspaces c hc]
      decide

theorem isAllowed_of_members {ms : List (String × Tree)} {s r : List Char} (h : Members ms s r)
    (hr : IsAllowed r) : IsAllowed s := by
  cases h with
  | last hgap hmember hend =>
      exact isAllowed_of_gap hgap (isAllowed_of_member hmember
        (isAllowed_of_gap hend (isAllowed_cons (by decide) hr)))
  | cons hgap hmember hcomma hmembers =>
      exact isAllowed_of_gap hgap (isAllowed_of_member hmember
        (isAllowed_of_gap hcomma (isAllowed_cons (by decide) (isAllowed_of_members hmembers hr))))

end

end Yaml

end Flowscript

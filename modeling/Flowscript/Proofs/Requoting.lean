/-
  Flowscript.Proofs.Requoting

  What new quotes leave as it was.

  A literal gets new quotes only if it is closed and has neither the new quote nor a backslash
  inside.  Its own quote is not inside either, because only a backslash could have kept the
  literal open there.  So the literal ends where it ended and denotes what it denoted, and the
  line is scanned as it was (`requoted_scansAlike`).
-/
import Flowscript.Proofs.LiteralReading
import Flowscript.Proofs.ProgramText
import Mathlib.Data.List.Forall2

namespace Flowscript

-- ============================================================================
-- Strings between other quotes
-- ============================================================================

namespace Script

variable {s : List Char} {q q' : Char}

/-- A text without quotes and backslashes is read alike between any quotes. -/
theorem readUnits_between (hq : q ∉ s) (hq' : q' ∉ s) (hb : '\\' ∉ s) (fuel : Nat)
    (rest : List Char) :
    readUnits q fuel (s ++ q :: rest) = readUnits q' fuel (s ++ q' :: rest) := by
  induction s generalizing fuel with
  | nil =>
      cases fuel with
      | zero => rfl
      | succ fuel => simp [readUnits]
  | cons c s ih =>
      rw [List.mem_cons, not_or] at hq hq' hb
      cases fuel with
      | zero => rfl
      | succ fuel =>
          rw [List.cons_append, List.cons_append, readUnits, readUnits, if_neg (Ne.symm hq.1),
            if_neg (Ne.symm hq'.1), if_neg (Ne.symm hb.1), if_neg (Ne.symm hb.1),
            ih hq.2 hq'.2 hb.2]

theorem readString_between (hq : q ∉ s) (hq' : q' ∉ s) (hb : '\\' ∉ s) (rest : List Char) :
    readString q (s ++ q :: rest) = readString q' (s ++ q' :: rest) := by
  have hlength : (s ++ q :: rest).length = (s ++ q' :: rest).length := by simp
  rw [readString, readString, hlength, readUnits_between hq hq' hb]

theorem read?_quoted (hq : q = '\'' ∨ q = '"') (s : List Char) :
    read? (q :: s) = (readString q s).bind fun (t, rest) =>
      if (skipGaps rest).isEmpty then some (.str (String.ofList t)) else none := by
  have hfuel : 2 * (q :: s).length = 2 * s.length + 1 + 1 := by
    rw [List.length_cons]
    omega
  have htoken : isGap q = false := by rcases hq with rfl | rfl <;> decide
  have hquote : q ≠ '[' ∧ q ≠ '{' := by rcases hq with rfl | rfl <;> decide
  rw [read?, hfuel, readValue, skipGaps_of_token htoken]
  simp only [if_neg hquote.1, if_neg hquote.2, Bool.or_eq_true, decide_eq_true_eq, if_pos hq]
  cases readString q s <;> rfl

/-- A string denotes the same between any quotes, if it has no quotes and backslashes inside. -/
theorem read?_between (hq : q = '\'' ∨ q = '"') (hq' : q' = '\'' ∨ q' = '"') (hs : q ∉ s)
    (hs' : q' ∉ s) (hb : '\\' ∉ s) : read? (q :: (s ++ [q])) = read? (q' :: (s ++ [q'])) := by
  rw [read?_quoted hq, read?_quoted hq', readString_between hs hs' hb]

end Script

namespace Format

variable {target q : Char} {k : SegmentKind} {t b : List Char} {m e : Mode} {s s' : Segment}
  {ss ss' : List Segment} {l : Line}

-- ============================================================================
-- Segments with the wanted quotes
-- ============================================================================

/-- A segment with the wanted quotes.  A string literal that is closed, and that has neither the
wanted quote nor a backslash in it, has its quotes replaced; everything else is as it was. -/
inductive Requoted (target : Char) : Segment → Segment → Prop
  | changed {q : Char} {b : List Char} : isQuote q = true → q ∉ b → target ∉ q :: b → '\\' ∉ b →
      Requoted target ⟨.string, q :: (b ++ [q])⟩ ⟨.string, target :: (b ++ [target])⟩
  | kept {s : Segment} : (s.kind = .string →
      target ∈ s.text ∨ '\\' ∈ s.text ∨ ∀ q b, s.text ≠ q :: (b ++ [q])) → Requoted target s s

/-- Without a backslash, the quote of a literal is not inside of it. -/
theorem Body.not_mem (h : Body q b) (hb : '\\' ∉ b) : q ∉ b := by
  induction h with
  | nil => exact List.not_mem_nil
  | escape d _ ih => exact absurd List.mem_cons_self hb
  | char hq _ _ ih =>
      rw [List.mem_cons, not_or] at hb ⊢
      exact ⟨Ne.symm hq, ih hb.2⟩

theorem requote_quoted (target q : Char) (b : List Char) :
    requote target (q :: (b ++ [q])) =
      if target ∈ q :: b ∨ '\\' ∈ b then q :: (b ++ [q]) else target :: (b ++ [target]) := by
  have hopen : (b ++ [q]).isEmpty = false := by simp
  rw [requote, List.dropLast_concat, List.getLast?_concat, hopen]
  refine if_congr ?_ rfl rfl
  have hsame : target = q ↔ q = target := eq_comm
  rw [List.mem_cons, hsame]
  simp [or_assoc]

theorem Closed.requoted (h : Closed m .string t) :
    Requoted target ⟨.string, t⟩ ⟨.string, Format.requote target t⟩ := by
  obtain ⟨q, b, -, hq, hb, rfl⟩ := h.exists_body
  rw [requote_quoted]
  split
  · next hkeep =>
    refine .kept fun _ => ?_
    rcases hkeep with hmem | hmem
    · exact .inl (List.mem_append_left [q] hmem)
    · exact .inr (.inl (by simp [hmem]))
  · next hchange =>
    rw [not_or] at hchange
    exact .changed hq (hb.not_mem hchange.2) hchange.1 hchange.2

/-- A literal that is left open may end with its quote, but after a backslash only. -/
theorem Opened.requoted (h : Opened m .string t e) : Requoted target ⟨.string, t⟩ ⟨.string, t⟩ := by
  obtain ⟨q, b, hq, hb, rfl⟩ := h.exists_body
  refine .kept fun _ => ?_
  by_cases hend : b.getLast? = some q
  · obtain ⟨b', rfl⟩ := List.getLast?_eq_some_iff.mp hend
    have hbackslash := hb.backslash_mem (Delimits.string hq).ne_backslash
    exact .inr (.inl (by simp [hbackslash]))
  · refine .inr (.inr fun q' b' htext => hend ?_)
    cases htext
    exact List.getLast?_concat

theorem requoted_of_ne_string (hk : s.kind ≠ .string) : Requoted target s s :=
  .kept fun h => absurd h hk

/-- Each segment of a line has the wanted quotes. -/
theorem Reads.requoted (target : Char) (h : Reads m ss e) :
    List.Forall₂ (Requoted target) ss (requoteSegments target ss) := by
  induction h with
  | nil _ => exact .nil
  | code _ _ _ _ ih =>
      rw [requoteSegments_cons, if_neg (by simp)]
      exact .cons (requoted_of_ne_string (by simp)) ih
  | @closed m e k t ss hclosed _ ih =>
      rw [requoteSegments_cons]
      by_cases hk : k = .string
      · subst hk
        rw [if_pos rfl]
        exact .cons hclosed.requoted ih
      · rw [if_neg hk]
        exact .cons (requoted_of_ne_string hk) ih
  | @opened m e k t hopened =>
      rw [requoteSegments_cons, requoteSegments_nil]
      by_cases hk : k = .string
      · subst hk
        rw [if_pos rfl, hopened.requote]
        exact .cons hopened.requoted .nil
      · rw [if_neg hk]
        exact .cons (requoted_of_ne_string hk) .nil

-- ============================================================================
-- Places and values
-- ============================================================================

theorem Requoted.kind_eq (h : Requoted target s s') : s'.kind = s.kind := by
  cases h <;> rfl

theorem Requoted.length_eq (h : Requoted target s s') : s'.text.length = s.text.length := by
  cases h with
  | changed _ _ _ _ => simp
  | kept _ => rfl

theorem spans_requoted (h : List.Forall₂ (Requoted target) ss ss') (start : Nat) :
    spans start ss' = spans start ss := by
  induction h generalizing start with
  | nil => rfl
  | cons hs _ ih => rw [spans, spans, hs.kind_eq, hs.length_eq, ih]

/-- A string literal of a line begins or ends with the character at this place. -/
def IsDelimiterAt (i : Nat) (spans : List (SegmentKind × Nat × Nat)) : Prop :=
  ∃ first last, (.string, first, last) ∈ spans ∧ (i = first ∨ i + 1 = last)

/-- A segment is changed at its ends only. -/
theorem Requoted.changed_at (h : Requoted target s s') {i : Nat} (hi : s'.text[i]? ≠ s.text[i]?) :
    s.kind = .string ∧ (i = 0 ∨ i + 1 = s.text.length) := by
  cases h with
  | kept _ => exact absurd rfl hi
  | @changed q b _ _ _ _ =>
      refine ⟨rfl, ?_⟩
      by_contra hinside
      rw [not_or, List.length_cons, List.length_append, List.length_singleton] at hinside
      obtain ⟨j, rfl⟩ := Nat.exists_eq_succ_of_ne_zero hinside.1
      refine hi ?_
      rw [Nat.succ_eq_add_one, List.getElem?_cons_succ, List.getElem?_cons_succ]
      by_cases hj : j < b.length
      · rw [List.getElem?_append_left hj, List.getElem?_append_left hj]
      · have hend : ∀ d, (b ++ [d])[j]? = none := by
          intro d
          refine List.getElem?_eq_none ?_
          rw [List.length_append, List.length_singleton]
          omega
        rw [hend, hend]

theorem isDelimiterAt_of_changed (h : List.Forall₂ (Requoted target) ss ss') (start : Nat) {i : Nat}
    (hi : (textOf ss')[i]? ≠ (textOf ss)[i]?) : IsDelimiterAt (start + i) (spans start ss) := by
  induction h generalizing start i with
  | nil => exact absurd rfl hi
  | @cons s s' ss ss' hs _ ih =>
      have hlength := hs.length_eq
      rw [textOf_cons, textOf_cons] at hi
      by_cases hlow : i < s.text.length
      · rw [List.getElem?_append_left hlow, List.getElem?_append_left (hlength ▸ hlow)] at hi
        obtain ⟨hkind, hend⟩ := hs.changed_at hi
        exact ⟨start, start + s.text.length, by simp [spans, hkind], by omega⟩
      · rw [List.getElem?_append_right (by omega), List.getElem?_append_right (by omega), hlength] at hi
        obtain ⟨first, last, hmem, hplace⟩ := ih (start + s.text.length) hi
        exact ⟨first, last, List.mem_cons_of_mem _ hmem, by omega⟩

/-- A string literal denotes what it denoted. -/
theorem Requoted.read?_eq (ht : isQuote target = true) (h : Requoted target s s') :
    Script.read? s'.text = Script.read? s.text := by
  cases h with
  | kept _ => rfl
  | changed hq hb htarget hbackslash =>
      rw [List.mem_cons, not_or] at htarget
      exact Script.read?_between (isQuote_iff.mp ht) (isQuote_iff.mp hq) htarget.2 hb hbackslash

-- ============================================================================
-- Lines
-- ============================================================================

/-- A text differs from a line in nothing but the quotes of string literals that may have the
wanted ones, and its scan from where the line starts is that of the line. -/
structure Line.ScansAlike (l : Line) (target : Char) (text : List Char) : Prop where
  changed : ∀ i, text[i]? ≠ l.text[i]? → IsDelimiterAt i (spans 0 l.segments)
  mode : (scan l.starts text).mode = l.ends
  places : spans 0 (scan l.starts text).segments = spans 0 l.segments
  requoted : List.Forall₂ (Requoted target) l.segments (scan l.starts text).segments
  values : List.Forall₂ (fun s s' => s.kind = .string →
    Script.read? s'.text = Script.read? s.text) l.segments (scan l.starts text).segments

/-- New quotes change a line at the ends of string literals only.  The line is scanned as before,
to segments at the same places and to the same end, and its string literals denote what they did. -/
theorem requoted_scansAlike (style : CodeStyle) {c : Carry} {raws : List (List Char)}
    (h : l ∈ linesAfter c raws) :
    l.ScansAlike style.quote (textOf (requoteSegments style.quote l.segments)) := by
  have hquote := isQuote_quote style
  have hreads := (sound_of_mem_linesAfter h).reads
  have hscan := (hreads.requote hquote).scan_eq
  have hrequoted := hreads.requoted style.quote
  constructor
  case changed =>
    intro i hi
    have hplace := isDelimiterAt_of_changed hrequoted 0 hi
    rwa [Nat.zero_add] at hplace
  case mode => rw [hscan]
  case places => rw [hscan, spans_requoted hrequoted]
  case requoted => rwa [hscan]
  case values =>
    rw [hscan]
    exact hrequoted.imp fun _ _ hs _ => hs.read?_eq hquote

/-- A line that starts inside of a template literal, has all sorts of strings, and leaves one open
with a quote and blanks at its end. -/
def mixedQuotes : List (List Char) :=
  ["x = `a \"b\"".toList, "c` + \"d\" + 'e' + \"it's\" + \"f\\n\" + \"g\\\"  ".toList]

theorem mixedQuotes_scanAlike :
    ∃ l ∈ linesAfter {} mixedQuotes, l.starts = .template ∧
      ∃ text, text = "c` + 'd' + 'e' + \"it's\" + \"f\\n\" + \"g\\\"".toList ∧
        l.ScansAlike '\'' text := by
  have hmem : (linesAfter {} mixedQuotes)[1] ∈ linesAfter {} mixedQuotes := List.getElem_mem _
  have htext : textOf (requoteSegments '\'' (linesAfter {} mixedQuotes)[1].segments) =
      "c` + 'd' + 'e' + \"it's\" + \"f\\n\" + \"g\\\"".toList := by decide
  exact ⟨_, hmem, by decide, _, htext, requoted_scansAlike {} hmem⟩

end Format

end Flowscript

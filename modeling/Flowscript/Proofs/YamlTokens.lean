/-
  Flowscript.Proofs.YamlTokens

  The YAML tokens of a JSON text.

  The tokens of a tree are those of YAML flow style.  Between two tokens the reader is
  `At` the tokens it has made so far: outside of all blocks, and with no candidate that
  must become a key.  From there one step reads a token with the gap before it:
    * a bracket, a brace or a comma is a token by itself;
    * a string ends at its closing quote, on the line it starts on;
    * a word ends where the gap after it ends, since a bracket, a brace, a comma or the
      end of the text follows;
    * a string before a colon that is not too far away turns out to be a key.
  The tokens of a tree follow by induction over how the tree is written.
-/
import Flowscript.Proofs.YamlScalars

namespace Flowscript

open Shared

-- ============================================================================
-- Tokens of a tree
-- ============================================================================

namespace Shared.Tree

open Yaml (Token)

mutual

/-- The tokens of a tree. -/
def tokens : Tree → List Token
  | .leaf isPlain text _ => [.scalar isPlain text]
  | .list ts => .flowSequence :: itemTokens true ts
  | .map ms => .flowMapping :: memberTokens true ms

/-- The tokens of the items of a list with the closing bracket.  A comma is before every item but
the first one of the list. -/
def itemTokens (first : Bool) : List Tree → List Token
  | [] => [.flowSequenceEnd]
  | t :: ts => (if first then [] else [.comma]) ++ t.tokens ++ itemTokens false ts

/-- The tokens of the members of an object with the closing brace. -/
def memberTokens (first : Bool) : List (String × Tree) → List Token
  | [] => [.flowMappingEnd]
  | m :: ms =>
    (if first then [] else [.comma]) ++ [.key, .scalar false m.1, .value] ++ m.2.tokens ++
      memberTokens false ms

end

end Shared.Tree

namespace Yaml

variable {s s' r w g spaces : List Char} {c : Char}

-- ============================================================================
-- Between tokens
-- ============================================================================

namespace Lexer

variable {l l' l'' : Lexer} {ts : List Token} {level : Nat}

/-- The reader has made some tokens outside of all blocks, is inside some flow collections, and
has no candidate that must be a key. -/
structure At (l : Lexer) (ts : List Token) (level : Nat) : Prop where
  tokens : l.tokens = ts.reverse
  count : l.count = ts.length
  indent : l.indent = -1
  outer : l.outer = []
  level : l.outerCandidates.length = level
  free : ∀ k, l.candidate = some k → k.required = false
  outerFree : ∀ k, some k ∈ l.outerCandidates → k.required = false

/-- Reading goes on from one state as it does from the other, with enough steps. -/
def Leads (l l' : Lexer) : Prop :=
  ∀ n, l.rest.length < n → ∃ n', l'.rest.length < n' ∧ run n l = run n' l'

theorem Leads.refl (l : Lexer) : l.Leads l := fun n hn => ⟨n, hn, rfl⟩

theorem Leads.trans (h : l.Leads l') (h' : l'.Leads l'') : l.Leads l'' := by
  intro n hn
  obtain ⟨n', hn', hrun⟩ := h n hn
  obtain ⟨n'', hn'', hrun'⟩ := h' n' hn'
  exact ⟨n'', hn'', hrun.trans hrun'⟩

/-- A candidate that need not be a key is kept or given up. -/
theorem exists_fresh (p : Place) {k? : Option KeyCandidate}
    (hfree : ∀ k, k? = some k → k.required = false) :
    ∃ k?', fresh p k? = .ok k?' ∧ ∀ k, k?' = some k → k.required = false := by
  cases k? with
  | none => exact ⟨none, rfl, hfree⟩
  | some k =>
      rw [fresh]
      split
      · exact ⟨some k, rfl, hfree⟩
      · rw [hfree k rfl, if_neg Bool.false_ne_true]
        exact ⟨none, rfl, fun _ h => by cases h⟩

theorem exists_mapM_fresh (p : Place) {ks : List (Option KeyCandidate)}
    (hfree : ∀ k, some k ∈ ks → k.required = false) :
    ∃ ks', ks.mapM (fresh p) = .ok ks' ∧ ks'.length = ks.length ∧
      ∀ k, some k ∈ ks' → k.required = false := by
  induction ks with
  | nil => exact ⟨[], rfl, rfl, fun _ h => by cases h⟩
  | cons k? ks ih =>
      obtain ⟨k?', hfresh, hkept⟩ := exists_fresh p fun k (hk : k? = some k) =>
        hfree k (hk ▸ List.mem_cons_self)
      obtain ⟨ks', hmapM, hlength, hall⟩ := ih fun k hk => hfree k (List.mem_cons_of_mem _ hk)
      refine ⟨k?' :: ks', ?_, by rw [List.length_cons, hlength, List.length_cons], ?_⟩
      · rw [List.mapM_cons, hfresh, hmapM]
        rfl
      · intro k hk
        rcases List.mem_cons.mp hk with hk | hk
        · exact hkept k hk.symm
        · exact hall k hk

theorem At.inFlow (hl : l.At ts level) : l.inFlow = decide (0 < level) := by
  rw [Lexer.inFlow, ← hl.level]
  cases l.outerCandidates <;> simp

/-- No block is open that could end. -/
theorem At.unwind (hl : l.At ts level) (column : Int) : l.unwind column = l := by
  obtain ⟨rest, place, tokens, count, indent, outer, keyAllowed, candidate, outerCandidates⟩ := l
  obtain rfl : outer = [] := hl.outer
  unfold Lexer.unwind
  split
  · rfl
  · rfl

theorem At.dropCandidate (hl : l.At ts level) :
    l.dropCandidate = .ok { l with candidate := none } := by
  obtain ⟨rest, place, tokens, count, indent, outer, keyAllowed, candidate, outerCandidates⟩ := l
  cases candidate with
  | none => rfl
  | some k =>
      have hk : k.required = false := hl.free k rfl
      simp only [Lexer.dropCandidate, hk, Bool.false_eq_true, if_false]

/-- A token becomes a candidate where a key may stand; it need not be a key. -/
theorem At.exists_saveCandidate (hl : l.At ts level) :
    ∃ l' : Lexer, l.saveCandidate = .ok l' ∧ l'.At ts level ∧ l'.rest = l.rest ∧
      l'.place = l.place ∧ (l.keyAllowed = true →
        l'.candidate = some { before := ts.length, required := false, place := l.place }) := by
  have hrequired : (!l.inFlow && decide (l.indent = l.column)) = false := by
    rw [decide_eq_false, Bool.and_false]
    rw [hl.indent, Lexer.column]
    omega
  rw [Lexer.saveCandidate, hl.dropCandidate, ← hl.count, ← hrequired]
  split
  · have hsaved : ({ l with
        candidate := some
          { before := l.count, required := !l.inFlow && decide (l.indent = l.column)
            place := l.place } } : Lexer).At ts level :=
      { hl with
        free := by
          rintro k ⟨⟩
          exact hrequired }
    exact ⟨_, rfl, hsaved, rfl, rfl, fun _ => rfl⟩
  · next hkey => exact ⟨l, rfl, hl, rfl, rfl, fun h => absurd h hkey⟩

/-- The gap before a token, or before the end of the text.  Candidates are given up on the way, but
not one that is near on the same line. -/
theorem At.exists_dropStale (hl : l.At ts level) (hs : skipGap l.rest = s) (hstarts : Starts s) :
    ∃ l₁ : Lexer, l.toNextToken.dropStale = .ok l₁ ∧ l₁.At ts level ∧ l₁.rest = s ∧
      (l.keyAllowed = true → l₁.keyAllowed = true) ∧
      l₁.place = (skipGaps false false l.place l.rest).place ∧
      fresh l₁.place l.candidate = .ok l₁.candidate := by
  have hrest : l.rest = l.rest.takeWhile isGap ++ s := by
    rw [← hs]
    exact List.takeWhile_append_dropWhile.symm
  obtain ⟨broke, place, hskip⟩ := exists_skipGaps
    (fun _ => List.mem_takeWhile_imp) hstarts false l.place
  rw [← hrest] at hskip
  obtain ⟨candidate, hfresh, hfree⟩ := exists_fresh place hl.free
  obtain ⟨outerCandidates, hmapM, hlength, houter⟩ := exists_mapM_fresh place hl.outerFree
  refine ⟨{ l with
    rest := s
    place
    keyAllowed := l.keyAllowed || (broke && !l.inFlow)
    candidate
    outerCandidates }, ?_,
    { hl with level := hlength.trans hl.level, free := hfree, outerFree := houter }, rfl,
    fun h => by simp [h], by rw [hskip], hfresh⟩
  rw [toNextToken, hskip, dropStale]
  simp only [hfresh, hmapM]
  rfl

/-- The next token is read where the gap before it ends. -/
theorem At.exists_next (hl : l.At ts level) (hs : skipGap l.rest = c :: s) (hc : isStart c = true) :
    ∃ l₁ : Lexer, l₁.At ts level ∧ l₁.rest = c :: s ∧
      (l.keyAllowed = true → l₁.keyAllowed = true) ∧
      l₁.place = (skipGaps false false l.place l.rest).place ∧
      fresh l₁.place l.candidate = .ok l₁.candidate ∧
      ∀ l' : Lexer, l₁.next c s = .ok l' → l'.rest.length ≤ s.length → l.Leads l' := by
  obtain ⟨l₁, hstale, hat, hrest, hkey, hplace, hfresh⟩ :=
    hl.exists_dropStale hs (starts_cons hc s)
  refine ⟨l₁, hat, hrest, hkey, hplace, hfresh, ?_⟩
  intro l' hnext hle n hn
  have hlength := length_skipGap_le l.rest
  rw [hs, List.length_cons] at hlength
  obtain ⟨n, rfl⟩ : ∃ m, n = m + 1 := ⟨n - 1, by omega⟩
  refine ⟨n, by omega, ?_⟩
  simp only [run, hstale, bind, Except.bind, hat.unwind, hrest, hnext]

/-- At the end of the text the tokens are complete. -/
theorem At.run_end (hl : l.At ts level) (hs : skipGap l.rest = []) (n : Nat) :
    run (n + 1) l = .ok ts := by
  obtain ⟨l₁, hstale, hat, hrest, -⟩ := hl.exists_dropStale hs fun _ h => by cases h
  simp only [run, hstale, bind, Except.bind, hat.unwind, hrest, hat.dropCandidate, hat.tokens,
    List.reverse_reverse]
  rfl

-- ============================================================================
-- Tokens
-- ============================================================================

theorem At.push (hl : l.At ts level) (t : Token) : (l.push t).At (ts ++ [t]) level :=
  { hl with
    tokens := by rw [Lexer.push, hl.tokens, List.reverse_append]; rfl
    count := by rw [Lexer.push, hl.count, List.length_append]; rfl }

theorem At.skip (hl : l.At ts level) (n : Nat) : (l.skip n).At ts level := { hl with }

/-- A bracket or a brace opens a collection. -/
theorem At.exists_openFlow (hl : l.At ts level) (hrest : l.rest = c :: s) (t : Token) :
    ∃ l' : Lexer, l.openFlow t = .ok l' ∧ l'.At (ts ++ [t]) (level + 1) ∧ l'.rest = s ∧
      l'.keyAllowed = true := by
  obtain ⟨l₁, hsave, hat, hsame, -⟩ := hl.exists_saveCandidate
  have hopen : ({ l₁ with
      outerCandidates := l₁.candidate :: l₁.outerCandidates
      candidate := none
      keyAllowed := true } : Lexer).At ts (level + 1) :=
    { hat with
      level := congrArg (· + 1) hat.level
      free := fun _ h => by cases h
      outerFree := fun k hk => (List.mem_cons.mp hk).elim (fun h => hat.free k h.symm)
        (hat.outerFree k) }
  refine ⟨_, ?_, (hopen.skip 1).push t, ?_, rfl⟩
  · rw [openFlow, hsave]
    rfl
  · change l₁.rest.drop 1 = s
    rw [hsame, hrest]
    rfl

/-- A bracket or a brace closes a collection. -/
theorem At.exists_closeFlow (hl : l.At ts (level + 1)) (hrest : l.rest = c :: s) (t : Token) :
    ∃ l' : Lexer, l.closeFlow t = .ok l' ∧ l'.At (ts ++ [t]) level ∧ l'.rest = s := by
  obtain ⟨candidate, outerCandidates, houter⟩ :=
    List.exists_cons_of_length_eq_add_one hl.level
  have hclose : ({ l with candidate, outerCandidates, keyAllowed := false } : Lexer).At ts level :=
    { hl with
      level := by simpa [houter] using hl.level
      free := by
        rintro k rfl
        exact hl.outerFree k (by rw [houter]; exact List.mem_cons_self)
      outerFree := fun k hk => hl.outerFree k (by rw [houter]; exact List.mem_cons_of_mem _ hk) }
  refine ⟨_, ?_, (hclose.skip 1).push t, ?_⟩
  · rw [closeFlow, houter]
  · change l.rest.drop 1 = s
    rw [hrest]
    rfl

theorem At.exists_comma (hl : l.At ts level) (hrest : l.rest = c :: s) :
    ∃ l' : Lexer, l.comma = .ok l' ∧ l'.At (ts ++ [.comma]) level ∧ l'.rest = s ∧
      l'.keyAllowed = true := by
  have hkey : ({ l with keyAllowed := true } : Lexer).At ts level := { hl with }
  have hdrop : ({ l with keyAllowed := true, candidate := none } : Lexer).At ts level :=
    { hl with free := fun _ h => by cases h }
  refine ⟨_, ?_, (hdrop.skip 1).push .comma, ?_, rfl⟩
  · rw [Lexer.comma, hkey.dropCandidate]
    rfl
  · change l.rest.drop 1 = s
    rw [hrest]
    rfl

/-- A string without its opening quote. -/
theorem At.exists_quoted {us : List Nat} (hl : l.At ts level) (hrest : l.rest = '"' :: s)
    (hcodes : Codes us s r) :
    ∃ (l' : Lexer) (w : List Char),
      l.candidateToken (Token.scalar false) (quoted true) 1 = .ok l' ∧
      l'.At (ts ++ [.scalar false (textOf us)]) level ∧ l'.rest = r ∧ s = w ++ r ∧
      l'.place = l.place.along ('"' :: w) ∧ (l.keyAllowed = true →
        l'.candidate = some { before := ts.length, required := false, place := l.place }) := by
  obtain ⟨l₁, hsave, hat, hsame, hplace, hcandidate⟩ := hl.exists_saveCandidate
  obtain ⟨w, rfl, hread⟩ := Yaml.exists_quoted hcodes (l.place.along ['"'])
  have hopen : ({ l₁ with keyAllowed := false } : Lexer).At ts level := { hat with }
  have hskip : ({ l₁ with keyAllowed := false } : Lexer).skip 1 =
      { l₁ with keyAllowed := false, rest := w ++ r, place := l.place.along ['"'] } := by
    rw [Lexer.skip]
    simp only [hsame, hrest, hplace]
    rfl
  have haccept : ({ l₁ with
      keyAllowed := false
      rest := r
      place := (l.place.along ['"']).along w } : Lexer).At ts level := { hat with }
  refine ⟨_, w, ?_, haccept.push _, rfl, rfl, Place.along_cons _ _ _, hcandidate⟩
  rw [candidateToken, hsave]
  change quoted true _ _ >>= _ = _
  rw [hskip]
  simp only
  rw [hread]
  rfl

/-- A word with the gap after it. -/
theorem At.exists_plainScalar (hl : l.At ts level) (hrest : l.rest = w ++ (g ++ s))
    (hw : ∀ c ∈ w, isInner c = true) (hg : ∀ c ∈ g, isGap c = true)
    (hs : Closes (decide (0 < level)) s) :
    ∃ l' : Lexer, l.plainScalar = .ok l' ∧ l'.At (ts ++ [.scalar true (String.ofList w)]) level ∧
      l'.rest = s := by
  obtain ⟨l₁, hsave, hat, hsame, -⟩ := hl.exists_saveCandidate
  obtain ⟨broke, place, hread⟩ := exists_plain hw hg hs (l₁.indent + 1) l₁.place
  have haccept : ({ l₁ with keyAllowed := broke, rest := s, place } : Lexer).At ts level :=
    { hat with }
  refine ⟨_, ?_, haccept.push _, rfl⟩
  rw [← hat.inFlow, ← hrest, ← hsame] at hread
  rw [plainScalar, hsave]
  simp only [bind, Except.bind, hread]
  rfl

theorem At.insertAfter {us : List Token} (hl : l.At (ts ++ us) level) (t : Token) :
    (l.insertAfter ts.length t).At (ts ++ t :: us) level := by
  have hlast : l.count - ts.length = us.length := by
    rw [hl.count, List.length_append]
    omega
  refine { hl with tokens := ?_, count := ?_ }
  · rw [Lexer.insertAfter, hlast, hl.tokens, List.reverse_append,
      List.take_left' List.length_reverse, List.drop_left' List.length_reverse]
    simp
  · rw [Lexer.insertAfter, hl.count]
    simp only [List.length_append, List.length_cons]
    omega

/-- The mark of a value after a token that may be a key. -/
theorem At.exists_value {k : Token} {place : Place} (hl : l.At (ts ++ [k]) (level + 1))
    (hrest : l.rest = c :: s)
    (hkey : l.candidate = some { before := ts.length, required := false, place }) :
    ∃ l' : Lexer, l.value = .ok l' ∧ l'.At (ts ++ [.key, k, .value]) (level + 1) ∧
      l'.rest = s := by
  have hdrop : ({ l with candidate := none, keyAllowed := false } : Lexer).At (ts ++ [k])
      (level + 1) := { hl with free := fun _ h => by cases h }
  have hinsert := hdrop.insertAfter Token.key
  refine ⟨_, ?_, by simpa using (hinsert.skip 1).push .value, ?_⟩
  · rw [Lexer.value, hkey]
    simp only [hinsert.inFlow, Nat.zero_lt_succ, decide_true, if_true]
  · change l.rest.drop 1 = s
    rw [hrest]
    rfl

-- ============================================================================
-- Steps
-- ============================================================================

/-- A bracket or a brace that opens a collection is the next token. -/
theorem At.exists_opening {t : Token} (hl : l.At ts level) (hs : skipGap l.rest = c :: s)
    (hc : isStart c = true) (hnext : ∀ l : Lexer, l.next c s = l.openFlow t) :
    ∃ l' : Lexer, l.Leads l' ∧ l'.At (ts ++ [t]) (level + 1) ∧ l'.rest = s ∧
      l'.keyAllowed = true := by
  obtain ⟨l₁, hat, hrest, -, -, -, hleads⟩ := hl.exists_next hs hc
  obtain ⟨l', hopen, hat', hrest', hkey⟩ := hat.exists_openFlow hrest t
  exact ⟨l', hleads l' ((hnext l₁).trans hopen) (by rw [hrest']), hat', hrest', hkey⟩

/-- A bracket or a brace that closes a collection is the next token. -/
theorem At.exists_closing {t : Token} (hl : l.At ts (level + 1)) (hs : skipGap l.rest = c :: s)
    (hc : isStart c = true) (hnext : ∀ l : Lexer, l.next c s = l.closeFlow t) :
    ∃ l' : Lexer, l.Leads l' ∧ l'.At (ts ++ [t]) level ∧ l'.rest = s := by
  obtain ⟨l₁, hat, hrest, -, -, -, hleads⟩ := hl.exists_next hs hc
  obtain ⟨l', hclose, hat', hrest'⟩ := hat.exists_closeFlow hrest t
  exact ⟨l', hleads l' ((hnext l₁).trans hclose) (by rw [hrest']), hat', hrest'⟩

theorem next_list (l : Lexer) (s : List Char) : l.next '[' s = l.openFlow .flowSequence := by
  rw [next, if_neg (by simp), if_neg (by simp [atSeparator_of_ne])]

theorem next_listEnd (l : Lexer) (s : List Char) : l.next ']' s = l.closeFlow .flowSequenceEnd := by
  rw [next, if_neg (by simp), if_neg (by simp [atSeparator_of_ne])]

theorem next_map (l : Lexer) (s : List Char) : l.next '{' s = l.openFlow .flowMapping := by
  rw [next, if_neg (by simp), if_neg (by simp [atSeparator_of_ne])]

theorem next_mapEnd (l : Lexer) (s : List Char) : l.next '}' s = l.closeFlow .flowMappingEnd := by
  rw [next, if_neg (by simp), if_neg (by simp [atSeparator_of_ne])]

theorem next_comma (l : Lexer) (s : List Char) : l.next ',' s = l.comma := by
  rw [next, if_neg (by simp), if_neg (by simp [atSeparator_of_ne])]

theorem next_quote (l : Lexer) (s : List Char) :
    l.next '"' s = l.candidateToken (Token.scalar false) (quoted true) 1 := by
  rw [next, if_neg (by simp), if_neg (by simp [atSeparator_of_ne])]

theorem next_colon (hl : l.At ts (level + 1)) (s : List Char) : l.next ':' s = l.value := by
  rw [next.eq_def, if_neg (by simp), if_neg (by simp [atSeparator_of_ne])]
  change (if (':' = '-' && gapFollows s) = true then l.entry
    else if (':' = '?' && (l.inFlow || gapFollows s)) = true then l.explicitKey
    else if (':' = ':' && (l.inFlow || gapFollows s)) = true then l.value else _) = _
  rw [if_neg (by simp), if_neg (by simp), if_pos (by simp [hl.inFlow])]

theorem isIndicator_of_isDigit (h : c.isDigit = true) : isIndicator c = false := by
  have hinner := isInner_of_isNumeral (isNumeral_of_isDigit h)
  simp only [isInner, Bool.and_eq_true, Bool.not_eq_true', decide_eq_true_eq] at hinner
  obtain ⟨⟨⟨⟨⟨hspace, hbreak⟩, htab⟩, -⟩, -⟩, -⟩ := hinner
  have hblank : isSpace c = false := by simp [isSpace, hspace, htab]
  rw [isIndicator, hblank, hbreak, Bool.false_or, Bool.false_or]
  refine decide_eq_false fun hmem => ?_
  have hdigit := List.all_eq_true (p := fun d => !d.isDigit) |>.mp (by decide) _ hmem
  rw [h] at hdigit
  cases hdigit

/-- A character that is no indicator starts a plain scalar. -/
theorem next_plain (hc : isIndicator c = false) (hpoint : c ≠ '.') (l : Lexer) (s : List Char) :
    l.next c s = l.plainScalar ∧ isStart c = true := by
  have hne : ∀ {d : Char}, isIndicator d = true → c ≠ d := by
    rintro d hd rfl
    rw [hc] at hd
    cases hd
  have hbreak : isBreak c = false := by
    simp only [isIndicator, Bool.or_eq_false_iff] at hc
    exact hc.1.2
  have hgap : isGap c = false := by
    simp [isGap, hne (d := ' ') (by decide), hne (d := '\n') (by decide),
      hne (d := '\r') (by decide)]
  have hpercent := hne (d := '%') (by decide)
  constructor
  · have hseparator := atSeparator_of_ne (hne (d := '-') (by decide)) hpoint s
    rw [next.eq_def, if_neg (by simp [hpercent]), if_neg (by simp [hseparator])]
    split
    case h_11 =>
      simp only [hne (d := '-') (by decide), hne (d := '?') (by decide),
        hne (d := ':') (by decide), hne (d := '|') (by decide), hne (d := '>') (by decide),
        startsPlain, hc, decide_false, Bool.false_and, Bool.not_false, Bool.true_or,
        Bool.false_eq_true, if_false, if_true]
    all_goals exact absurd rfl (hne (by decide))
  · simp [isStart, hgap, hbreak, hpercent, hne (d := '#') (by decide)]

/-- A sign before a digit starts a plain scalar. -/
theorem next_minus (hc : c.isDigit = true) (l : Lexer) (s : List Char) :
    l.next '-' (c :: s) = l.plainScalar := by
  have hindicator := isIndicator_of_isDigit hc
  have hseparator : atSeparator ('-' :: c :: s) = false := by
    unfold atSeparator
    split
    · next heq =>
      cases heq
      simp [(Json.ne_sign_of_isDigit hc).1]
    · rfl
  simp only [isIndicator, Bool.or_eq_false_iff] at hindicator
  have hgap : gapFollows (c :: s) = false := by
    rw [gapFollows, hindicator.1.1, hindicator.1.2, Bool.or_false]
  rw [next.eq_def, if_neg (by simp), if_neg (by simp [hseparator])]
  change (if ('-' = '-' && gapFollows (c :: s)) = true then l.entry
    else if ('-' = '?' && _) = true then l.explicitKey
    else if ('-' = ':' && _) = true then l.value
    else if ('-' = '|' && _) = true then l.blockScalar false
    else if ('-' = '>' && _) = true then l.blockScalar true
    else if l.startsPlain '-' (c :: s) = true then l.plainScalar else _) = _
  rw [if_neg (by simp [hgap]), if_neg (by simp), if_neg (by simp), if_neg (by simp),
    if_neg (by simp), if_pos (by simp [startsPlain, hgap])]

/-- A word starts a plain scalar. -/
theorem next_word {v : Scalar} (hw : Word v (c :: w)) (l : Lexer) (r : List Char) :
    l.next c (w ++ r) = l.plainScalar ∧ isStart c = true := by
  have hnumber : ∀ (negative : Bool) {ds : List Char} (x : List Char), IsWhole ds →
      c :: w = sign negative ++ ds ++ x →
      l.next c (w ++ r) = l.plainScalar ∧ isStart c = true := by
    intro negative ds x hds heq
    obtain ⟨d, cs, rfl, hd⟩ := hds.exists_cons
    cases negative with
    | true =>
        obtain ⟨rfl, rfl⟩ := List.cons.inj heq
        exact ⟨next_minus hd l _, by decide⟩
    | false =>
        obtain ⟨rfl, rfl⟩ := List.cons.inj heq
        refine next_plain (isIndicator_of_isDigit hd) ?_ l _
        rintro rfl
        cases hd
  generalize htext : c :: w = text at hw
  cases hw with
  | null | yes | no =>
      obtain ⟨rfl, -⟩ := List.cons.inj htext
      exact next_plain (by decide) (by decide) l _
  | int negative hds => exact hnumber negative [] hds (by simpa using htext)
  | @float negative ds places x _ hds _ _ =>
      exact hnumber negative ('.' :: places ++ x) hds (by simpa using htext)

/-- A string before a colon is a key, if the colon is on the same line and not too far away. -/
theorem At.exists_key {us : List Nat} (hl : l.At ts (level + 1)) (hkey : l.keyAllowed = true)
    (hs : skipGap l.rest = '"' :: s) (hcodes : Codes us s (spaces ++ ':' :: r))
    (hspaces : ∀ c ∈ spaces, c = ' ') (hreach : s.length ≤ r.length + keyReach) :
    ∃ l' : Lexer, l.Leads l' ∧
      l'.At (ts ++ [.key, .scalar false (textOf us), .value]) (level + 1) ∧ l'.rest = r := by
  obtain ⟨l₁, hat₁, hrest₁, hkey₁, -, -, hleads₁⟩ := hl.exists_next hs (by decide)
  obtain ⟨l₂, w, hquoted, hat₂, hrest₂, rfl, hplace₂, hcandidate₂⟩ :=
    hat₁.exists_quoted hrest₁ hcodes
  have hstart : Starts (':' :: r) := starts_cons (by decide) r
  have hgap : skipGap l₂.rest = ':' :: r := by
    rw [hrest₂, skipGap_of_gap ⟨spaces, rfl, fun c hc => by rw [hspaces c hc]; rfl⟩,
      skipGap_cons (by decide)]
  obtain ⟨l₃, hat₃, hrest₃, -, hplace₃, hfresh, hleads₃⟩ := hat₂.exists_next hgap (by decide)
  have hcandidate : l₃.candidate =
      some { before := ts.length, required := false, place := l₁.place } := by
    rw [hcandidate₂ (hkey₁ hkey), hplace₃, hrest₂, skipGaps_spaces hspaces hstart, hplace₂,
      ← Place.along_append] at hfresh
    have hnear : ('"' :: w ++ spaces).length ≤ maxKeyLength := by
      simp only [List.length_append, List.length_cons] at hreach ⊢
      change _ ≤ 1024
      rw [keyReach] at hreach
      omega
    rw [fresh, if_pos (by simpa [Place.along] using hnear)] at hfresh
    exact (Except.ok.inj hfresh).symm
  obtain ⟨l₄, hvalue, hat₄, hrest₄⟩ := hat₃.exists_value hrest₃ hcandidate
  have htail : l₂.Leads l₄ :=
    hleads₃ l₄ ((next_colon hat₃ r).trans hvalue) (by rw [hrest₄])
  have hhead : l.Leads l₂ :=
    hleads₁ l₂ ((next_quote l₁ _).trans hquoted) (by rw [hrest₂]; simp)
  exact ⟨l₄, hhead.trans htail, hat₄, hrest₄⟩

-- ============================================================================
-- Trees
-- ============================================================================

theorem skipGap_of_member {m : String × Tree} (h : Member m s r) : skipGap s = s := by
  cases h
  exact skipGap_cons (by decide) _

/-- A comma is before the items that are not the first ones. -/
theorem itemTokens_of_items {us : List Tree} (h : Items us s r) :
    Tree.itemTokens false us = .comma :: Tree.itemTokens true us := by
  cases h <;> simp [Tree.itemTokens]

theorem memberTokens_of_members {ms : List (String × Tree)} (h : Members ms s r) :
    Tree.memberTokens false ms = .comma :: Tree.memberTokens true ms := by
  cases h <;> simp [Tree.memberTokens]

theorem closes_of_mark (h : c = ',' ∨ c = ']' ∨ c = '}') (s : List Char) :
    Closes true (c :: s) := .inr ⟨rfl, c, s, rfl, h⟩

/-- A comma is the next token. -/
theorem At.exists_commaStep (hl : l.At ts level) (hs : skipGap l.rest = ',' :: s) :
    ∃ l' : Lexer, l.Leads l' ∧ l'.At (ts ++ [.comma]) level ∧ l'.rest = s ∧
      l'.keyAllowed = true := by
  obtain ⟨l₁, hat, hrest, -, -, -, hleads⟩ := hl.exists_next hs (by decide)
  obtain ⟨l', hcomma, hat', hrest', hkey⟩ := hat.exists_comma hrest
  exact ⟨l', hleads l' ((next_comma l₁ s).trans hcomma) (by rw [hrest']), hat', hrest', hkey⟩

mutual

/-- The tokens of a tree are read.  A word takes the gap after it along. -/
theorem exists_tree {t : Tree} {s r : List Char} (h : Begins t s r) {l : Lexer} {ts : List Token}
    {level : Nat} (hl : l.At ts level) (hs : skipGap l.rest = s)
    (hr : Closes (decide (0 < level)) (skipGap r)) :
    ∃ l' : Lexer, l.Leads l' ∧ l'.At (ts ++ t.tokens) level ∧ skipGap l'.rest = skipGap r := by
  cases h with
  | @word v w r hw _ =>
      obtain ⟨c, w, rfl, -⟩ := hw.exists_cons
      have hgap : r = r.takeWhile isGap ++ skipGap r := List.takeWhile_append_dropWhile.symm
      obtain ⟨l₁, hat, hrest, -, -, -, hleads⟩ := hl.exists_next hs (next_word hw l r).2
      have hsplit : l₁.rest = c :: w ++ (r.takeWhile isGap ++ skipGap r) := by
        rw [← hgap, hrest]
        rfl
      obtain ⟨l', hplain, hat', hrest'⟩ := hat.exists_plainScalar hsplit (isInner_of_word hw)
        (fun _ => List.mem_takeWhile_imp) hr
      refine ⟨l', hleads l' ((next_word hw l₁ r).1.trans hplain) ?_, hat', ?_⟩
      · have hle := length_skipGap_le r
        rw [hrest']
        change _ ≤ (w ++ r).length
        rw [List.length_append]
        omega
      · rw [hrest']
        exact List.dropWhile_idempotent _ _
  | @string us s r hcodes =>
      obtain ⟨l₁, hat, hrest, -, -, -, hleads⟩ := hl.exists_next hs (by decide)
      obtain ⟨l', w, hquoted, hat', hrest', hw, -⟩ := hat.exists_quoted hrest hcodes
      refine ⟨l', hleads l' ((next_quote l₁ _).trans hquoted) ?_, hat', by rw [hrest']⟩
      rw [hrest', hw, List.length_append]
      omega
  | @emptyList s r hgap =>
      obtain ⟨l₁, hopen, hat, hrest, -⟩ :=
        hl.exists_opening hs (by decide) fun l => next_list l s
      obtain ⟨l', hclose, hat', hrest'⟩ := hat.exists_closing
        (by rw [hrest, skipGap_of_gap hgap, skipGap_cons (by decide)]) (by decide)
        fun l => next_listEnd l r
      exact ⟨l', hopen.trans hclose, by simpa [Tree.tokens, Tree.itemTokens] using hat', by rw [hrest']⟩
  | @emptyMap s r hgap =>
      obtain ⟨l₁, hopen, hat, hrest, -⟩ :=
        hl.exists_opening hs (by decide) fun l => next_map l s
      obtain ⟨l', hclose, hat', hrest'⟩ := hat.exists_closing
        (by rw [hrest, skipGap_of_gap hgap, skipGap_cons (by decide)]) (by decide)
        fun l => next_mapEnd l r
      exact ⟨l', hopen.trans hclose, by simpa [Tree.tokens, Tree.memberTokens] using hat', by rw [hrest']⟩
  | @list us s r hitems =>
      obtain ⟨l₁, hopen, hat, hrest, -⟩ :=
        hl.exists_opening hs (by decide) fun l => next_list l s
      obtain ⟨l', hread, hat', hrest'⟩ := exists_items hitems hat (by rw [hrest])
      exact ⟨l', hopen.trans hread, by simpa [Tree.tokens] using hat', by rw [hrest']⟩
  | @map ms s r hmembers =>
      obtain ⟨l₁, hopen, hat, hrest, hkey⟩ :=
        hl.exists_opening hs (by decide) fun l => next_map l s
      obtain ⟨l', hread, hat', hrest'⟩ := exists_members hmembers hat hkey (by rw [hrest])
      exact ⟨l', hopen.trans hread, by simpa [Tree.tokens] using hat', by rw [hrest']⟩

/-- The tokens of the items of a list are read, with the closing bracket. -/
theorem exists_items {us : List Tree} {s r : List Char} (h : Items us s r) {l : Lexer}
    {ts : List Token} {level : Nat} (hl : l.At ts (level + 1)) (hs : skipGap l.rest = skipGap s) :
    ∃ l' : Lexer, l.Leads l' ∧ l'.At (ts ++ Tree.itemTokens true us) level ∧ l'.rest = r := by
  cases h with
  | @last t s s₁ s₂ r hgap hitem hend =>
      have hclose : skipGap s₂ = ']' :: r := by rw [skipGap_of_gap hend, skipGap_cons (by decide)]
      obtain ⟨l₁, hread, hat, hrest⟩ := exists_tree hitem hl
        (by rw [hs, skipGap_of_gap hgap, skipGap_of_begins hitem])
        (by rw [hclose]; exact closes_of_mark (by simp) r)
      obtain ⟨l', hend, hat', hrest'⟩ := hat.exists_closing (hrest.trans hclose) (by decide)
        fun l => next_listEnd l r
      exact ⟨l', hread.trans hend, by simpa [Tree.itemTokens] using hat', hrest'⟩
  | @cons t us s s₁ s₂ s₃ r hgap hitem hcomma hitems =>
      have hmark : skipGap s₂ = ',' :: s₃ := by
        rw [skipGap_of_gap hcomma, skipGap_cons (by decide)]
      obtain ⟨l₁, hread, hat, hrest⟩ := exists_tree hitem hl
        (by rw [hs, skipGap_of_gap hgap, skipGap_of_begins hitem])
        (by rw [hmark]; exact closes_of_mark (by simp) s₃)
      obtain ⟨l₂, hstep, hat₂, hrest₂, -⟩ := hat.exists_commaStep (hrest.trans hmark)
      obtain ⟨l', hrecur, hat', hrest'⟩ := exists_items hitems hat₂ (by rw [hrest₂])
      refine ⟨l', (hread.trans hstep).trans hrecur, ?_, hrest'⟩
      rw [Tree.itemTokens, itemTokens_of_items hitems]
      simpa using hat'

/-- The tokens of a member of an object are read. -/
theorem exists_member {m : String × Tree} {s r : List Char} (h : Member m s r) {l : Lexer}
    {ts : List Token} {level : Nat} (hl : l.At ts (level + 1)) (hkey : l.keyAllowed = true)
    (hs : skipGap l.rest = s) (hr : Closes true (skipGap r)) :
    ∃ l' : Lexer, l.Leads l' ∧
      l'.At (ts ++ [.key, .scalar false m.1, .value] ++ m.2.tokens) (level + 1) ∧
      skipGap l'.rest = skipGap r := by
  cases h with
  | mk hcodes hspaces hreach hgap hvalue =>
      obtain ⟨l₁, hname, hat, hrest⟩ := hl.exists_key hkey hs hcodes hspaces hreach
      obtain ⟨l', hread, hat', hrest'⟩ := exists_tree hvalue hat
        (by rw [hrest, skipGap_of_gap hgap, skipGap_of_begins hvalue]) hr
      exact ⟨l', hname.trans hread, hat', hrest'⟩

/-- The tokens of the members of an object are read, with the closing brace. -/
theorem exists_members {ms : List (String × Tree)} {s r : List Char} (h : Members ms s r)
    {l : Lexer} {ts : List Token} {level : Nat} (hl : l.At ts (level + 1))
    (hkey : l.keyAllowed = true) (hs : skipGap l.rest = skipGap s) :
    ∃ l' : Lexer, l.Leads l' ∧ l'.At (ts ++ Tree.memberTokens true ms) level ∧ l'.rest = r := by
  cases h with
  | @last m s s₁ s₂ r hgap hmember hend =>
      have hclose : skipGap s₂ = '}' :: r := by rw [skipGap_of_gap hend, skipGap_cons (by decide)]
      obtain ⟨l₁, hread, hat, hrest⟩ := exists_member hmember hl hkey
        (by rw [hs, skipGap_of_gap hgap, skipGap_of_member hmember])
        (by rw [hclose]; exact closes_of_mark (by simp) r)
      obtain ⟨l', hend, hat', hrest'⟩ := hat.exists_closing (hrest.trans hclose) (by decide)
        fun l => next_mapEnd l r
      exact ⟨l', hread.trans hend, by simpa [Tree.memberTokens] using hat', hrest'⟩
  | @cons m ms s s₁ s₂ s₃ r hgap hmember hcomma hmembers =>
      have hmark : skipGap s₂ = ',' :: s₃ := by
        rw [skipGap_of_gap hcomma, skipGap_cons (by decide)]
      obtain ⟨l₁, hread, hat, hrest⟩ := exists_member hmember hl hkey
        (by rw [hs, skipGap_of_gap hgap, skipGap_of_member hmember])
        (by rw [hmark]; exact closes_of_mark (by simp) s₃)
      obtain ⟨l₂, hstep, hat₂, hrest₂, hkey₂⟩ := hat.exists_commaStep (hrest.trans hmark)
      obtain ⟨l', hrecur, hat', hrest'⟩ := exists_members hmembers hat₂ hkey₂ (by rw [hrest₂])
      refine ⟨l', (hread.trans hstep).trans hrecur, ?_, hrest'⟩
      rw [Tree.memberTokens, memberTokens_of_members hmembers]
      simpa using hat'

end

end Lexer

-- ============================================================================
-- Texts
-- ============================================================================

/-- No mark of the byte order is in front of a tree. -/
theorem ne_byteOrderMark {t : Tree} (hgap : Gap (c :: s) s') (h : Begins t s' r) :
    c ≠ byteOrderMark := by
  obtain ⟨g, heq, hg⟩ := hgap
  cases g with
  | nil =>
      obtain ⟨d, cs, rfl, hd⟩ := h.exists_cons
      obtain ⟨rfl, -⟩ := List.cons.inj heq
      rintro rfl
      exact absurd hd (by decide)
  | cons d g =>
      obtain ⟨rfl, -⟩ := List.cons.inj heq
      rintro rfl
      exact absurd (hg _ List.mem_cons_self) (by decide)

/-- The tokens of a whole text are those of its tree. -/
theorem tokens_document {t : Tree} (h : Document t s) : tokens s = .ok t.tokens := by
  obtain ⟨s₁, s₂, hgap, htree, hend⟩ := h
  have hallowed : IsAllowed s := isAllowed_of_gap hgap (isAllowed_of_begins htree
    (isAllowed_of_gap hend fun _ h => by cases h))
  have hfind : (s.find? fun c => !isAllowed c) = none :=
    List.find?_eq_none.mpr fun c hc => by simp [hallowed c hc]
  have hat : ({ rest := s } : Lexer).At [] 0 :=
    { tokens := rfl, count := rfl, indent := rfl, outer := rfl, level := rfl
      free := fun _ h => by cases h
      outerFree := fun _ h => by cases h }
  have hstart : skipGap s = s₁ := by rw [skipGap_of_gap hgap, skipGap_of_begins htree]
  have hclose : skipGap s₂ = [] := skipGap_of_gap hend
  obtain ⟨l, hleads, hat', hrest⟩ := Lexer.exists_tree htree hat hstart (.inl hclose)
  obtain ⟨n, hn, hrun⟩ := hleads (s.length + 1) (by simp)
  obtain ⟨n, rfl⟩ : ∃ m, n = m + 1 := ⟨n - 1, by omega⟩
  rw [hat'.run_end (hrest.trans hclose)] at hrun
  rw [tokens.eq_def, hfind]
  cases s with
  | nil => exact hrun
  | cons c s =>
      simp only [ne_byteOrderMark hgap htree, if_false]
      exact hrun

end Yaml

end Flowscript

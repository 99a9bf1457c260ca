/-
  Flowscript.Proofs.NameBoundaries

  Where the words of a name end, and names in upper snake case.

  A word never ends between a digit and a small letter, and always between a digit and a
  capital (`apart_markCase`).  In upper snake case all letters are capitals, so a name that
  is written in it once more is cut after every digit that a letter follows, and nowhere
  else (`envName_of_isUpperSnake`).
-/
import Flowscript.Proofs.PascalCase

namespace Flowscript

theorem Text.joinWith_cons_append_cons (sep p q : List Char) (ps qs : List (List Char)) :
    joinWith sep (p :: (ps ++ q :: qs)) =
      joinWith sep (p :: ps) ++ sep ++ joinWith sep (q :: qs) := by
  induction ps generalizing p with
  | nil => rfl
  | cons p' ps ih => simp [ih]

namespace Naming

variable {s t w : List Char} {ws : List (List Char)} {c d : Char} {b : Bool}
  {p q : Char → Bool}

-- ============================================================================
-- Sorts of characters
-- ============================================================================

theorem isDigit_eq_false_of_isAlpha (h : c.isAlpha = true) : c.isDigit = false := by
  simp only [isAlpha_eq, isLower_eq, isUpper_eq, Char.isDigit, Bool.or_eq_true, Bool.and_eq_true,
    Bool.and_eq_false_iff, decide_eq_true_eq, decide_eq_false_iff_not, GE.ge,
    UInt32.le_iff_toNat_le] at h ⊢
  simp at h ⊢
  omega

theorem not_small_of_isUpper (h : c.isUpper = true) : c.isLower = false ∧ c.isDigit = false := by
  have halpha : c.isAlpha = true := by rw [isAlpha_eq, h, Bool.true_or]
  have hall := forall_alphanum (p := fun c => !c.isUpper || !c.isLower) (by decide +kernel)
    (show c.isAlphanum = true by rw [Char.isAlphanum, halpha, Bool.true_or])
  exact ⟨by simpa [h] using hall, isDigit_eq_false_of_isAlpha halpha⟩

theorem isLower_eq_false_of_isBig (h : isBig c = true) : c.isLower = false := by
  rw [isBig, Bool.or_eq_true] at h
  rcases h with hupper | hdigit
  · exact (not_small_of_isUpper hupper).1
  · by_contra hlower
    rw [isDigit_eq_false_of_isAlpha (by simp [isAlpha_eq, hlower])] at hdigit
    cases hdigit

/-- A digit is no letter in upper case, and is no letter. -/
theorem isDigit_toUpper (c : Char) : c.toUpper.isDigit = c.isDigit := by
  cases halpha : c.isAlpha with
  | true =>
      rw [isDigit_eq_false_of_isAlpha halpha, isDigit_eq_false_of_isAlpha]
      rw [(caseLaws c).isAlpha_toUpper, halpha]
  | false => rw [(cases_of_not_isAlpha halpha).1]

-- ============================================================================
-- Runs put together
-- ============================================================================

/-- A run that begins a text begins with its first character. -/
theorem head?_of_alnumRuns (hc : c.isAlphanum = true) (h : alnumRuns (c :: s) = w :: ws) :
    w.head? = some c := by
  have hflatten := flatten_alnumRuns (c :: s)
  have hne : w ≠ [] := ne_nil_of_mem_alnumRuns (by rw [h]; exact List.mem_cons_self)
  obtain ⟨d, v, rfl⟩ := List.exists_cons_of_ne_nil hne
  rw [h, List.filter_cons, if_pos hc, List.flatten_cons, List.cons_append] at hflatten
  rw [List.head?_cons, List.head_eq_of_cons_eq hflatten]

theorem alnumRuns_ne_nil (hc : c.isAlphanum = true) (s : List Char) : alnumRuns (c :: s) ≠ [] := by
  intro h
  have hflatten := flatten_alnumRuns (c :: s)
  rw [h, List.filter_cons, if_pos hc] at hflatten
  cases hflatten

theorem alnumRuns_cons_of_not_alphanum (hc : c.isAlphanum = false) (s : List Char) :
    alnumRuns (c :: s) = alnumRuns s := by
  rw [alnumRuns.eq_def]
  simp [hc]

/-- A run of letters and digits that something else follows. -/
theorem alnumRuns_append (hne : w ≠ []) (hw : ∀ d ∈ w, d.isAlphanum = true)
    (hs : ∀ d ∈ s.head?, d.isAlphanum = false) : alnumRuns (w ++ s) = w :: alnumRuns s := by
  induction w with
  | nil => exact absurd rfl hne
  | cons c w ih =>
      rw [List.forall_mem_cons] at hw
      rw [List.cons_append, alnumRuns.eq_def]
      cases w with
      | nil =>
          cases s with
          | nil => simp [hw.1]
          | cons d s => simp [hw.1, hs d rfl]
      | cons d w =>
          have hrest := ih (by simp) hw.2
          rw [List.cons_append] at hrest ⊢
          simp [hw.1, hw.2 d List.mem_cons_self, hrest]

theorem alnumRuns_joinWith (hc : c.isAlphanum = false)
    (h : ∀ w ∈ ws, w ≠ [] ∧ ∀ d ∈ w, d.isAlphanum = true) :
    alnumRuns (Text.joinWith [c] ws) = ws := by
  induction ws with
  | nil => rfl
  | cons w ws ih =>
      rw [List.forall_mem_cons] at h
      cases ws with
      | nil =>
          have hrun := alnumRuns_append (s := []) h.1.1 h.1.2 (by simp)
          rwa [List.append_nil] at hrun
      | cons w' ws =>
          rw [Text.joinWith_cons_cons, List.append_assoc, List.singleton_append,
            alnumRuns_append h.1.1 h.1.2 (by simpa using hc), alnumRuns_cons_of_not_alphanum hc,
            ih h.2]

/-- Words are cut apart by underscores, and letters and digits stay. -/
theorem filter_markCase (b : Bool) (s : List Char) :
    (markCase b s).filter Char.isAlphanum = s.filter Char.isAlphanum := by
  fun_induction markCase b s with
  | case1 => rfl
  | case2 => rfl
  | case3 b c d rest hsmall hupper ih => simp [List.filter_cons, ih]
  | case4 b c d rest hsmall hupper ih => rw [List.filter_cons, ih, ← List.filter_cons]
  | case5 b c d rest hsmall hupper hrun ih => simp [List.filter_cons, ih]
  | case6 b c d rest hsmall hupper hrun ih => rw [List.filter_cons, ih, ← List.filter_cons]
  | case7 b c d rest hsmall hupper ih => rw [List.filter_cons, ih, ← List.filter_cons]

/-- The words of a name hold its letters and digits, in order. -/
theorem flatten_words (s : List Char) : (words s).flatten = s.filter Char.isAlphanum := by
  rw [words, flatten_alnumRuns, filter_markCase]

-- ============================================================================
-- Neighbours
-- ============================================================================

/-- Nowhere in the text does a character of the second sort follow one of the first. -/
def Apart (p q : Char → Bool) (s : List Char) : Prop :=
  s.IsChain fun c d => p c = true → q d = false

theorem apart_cons :
    Apart p q (c :: s) ↔ (p c = true → ∀ d ∈ s.head?, q d = false) ∧ Apart p q s := by
  rw [Apart, List.isChain_cons, Apart]
  refine and_congr_left fun _ => ?_
  constructor
  · exact fun h hc d hd => h d hd hc
  · exact fun h d hd hc => h hc d hd

theorem apart_cons_cons :
    Apart p q (c :: d :: s) ↔ (p c = true → q d = false) ∧ Apart p q (d :: s) :=
  List.isChain_cons_cons

/-- Words that are put together with a character of neither sort do not meet. -/
theorem apart_joinWith (hp : p c = false) (hq : q c = false) :
    Apart p q (Text.joinWith [c] ws) ↔ ∀ w ∈ ws, Apart p q w := by
  induction ws with
  | nil => simp [Apart]
  | cons w ws ih =>
      cases ws with
      | nil => simp
      | cons w' ws =>
          rw [Text.joinWith_cons_cons, List.append_assoc, List.singleton_append,
            List.forall_mem_cons, ← ih]
          have hsplit : Apart p q (w ++ c :: Text.joinWith [c] (w' :: ws)) ↔
              Apart p q w ∧ Apart p q (c :: Text.joinWith [c] (w' :: ws)) := by
            rw [Apart, List.isChain_append]
            simp [Apart, hq]
          rw [hsplit, apart_cons]
          simp [hp]

/-- Characters that are neighbours and letters or digits are in one run. -/
theorem apart_alnumRuns (hp : ∀ c, p c = true → c.isAlphanum = true)
    (hq : ∀ c, q c = true → c.isAlphanum = true) :
    Apart p q s ↔ ∀ w ∈ alnumRuns s, Apart p q w := by
  have hapart : ∀ d, d.isAlphanum = false → q d = false := by
    intro d hd
    by_contra hqd
    rw [hq d (by simpa using hqd)] at hd
    cases hd
  fun_induction alnumRuns s with
  | case1 => simp [Apart]
  | case2 c hc => simp [Apart]
  | case3 c hc d rest hd hruns ih => exact absurd hruns (alnumRuns_ne_nil hd rest)
  | case4 c hc d rest hd w ws hruns ih =>
      have hhead := head?_of_alnumRuns hd hruns
      have hrest : Apart p q (d :: rest) ↔ ∀ w ∈ alnumRuns (d :: rest), Apart p q w := ih
      rw [apart_cons_cons, hrest, hruns, List.forall_mem_cons, List.forall_mem_cons, apart_cons,
        hhead, and_assoc]
      simp
  | case5 c hc d rest hd ih =>
      have hqd := hapart d (by simpa using hd)
      have hrest : Apart p q (d :: rest) ↔ ∀ w ∈ alnumRuns (d :: rest), Apart p q w := ih
      rw [apart_cons_cons, hrest, List.forall_mem_cons]
      simp [Apart, hqd]
  | case6 c rest hc ih =>
      have hpc : p c = false := by
        by_contra hpc
        exact hc (hp c (by simpa using hpc))
      have hrest : Apart p q rest ↔ ∀ w ∈ alnumRuns rest, Apart p q w := ih
      rw [apart_cons, hrest]
      simp [hpc]

theorem head?_markCase (b : Bool) (c : Char) (s : List Char) :
    (markCase b (c :: s)).head? = some c ∨
      (markCase b (c :: s)).head? = some '_' ∧ c.isUpper = true := by
  cases s with
  | nil => exact .inl rfl
  | cons d s =>
      rw [markCase]
      split
      · split <;> exact .inl rfl
      · split
        · next hupper =>
          split
          · exact .inr ⟨rfl, hupper⟩
          · exact .inl rfl
        · exact .inl rfl

/-- A word ends between a digit and a capital, and not between a digit and a small letter. -/
theorem apart_markCase (b : Bool) (s : List Char) :
    Apart Char.isDigit Char.isAlpha (markCase b s) ↔ Apart Char.isDigit Char.isLower s := by
  fun_induction markCase b s with
  | case1 => simp [Apart]
  | case2 => simp [Apart]
  | case3 b c d rest hsmall hupper ih =>
      have hrest : Apart _ _ (markCase false rest) ↔ Apart _ _ rest := ih
      have hd : d.isLower = false ∧ d.isDigit = false := not_small_of_isUpper hupper
      rw [apart_cons_cons, apart_cons_cons, apart_cons, hrest, apart_cons_cons, apart_cons]
      simp [hd.1, hd.2]
  | case4 b c d rest hsmall hupper ih =>
      have hrest : Apart _ _ (markCase false (d :: rest)) ↔ Apart _ _ (d :: rest) := ih
      have hhead := (head?_markCase false d rest).resolve_right fun h => hupper h.2
      rw [apart_cons, hrest, hhead, apart_cons_cons]
      simp [isAlpha_eq, hupper]
  | case5 b c d rest hsmall hupper hrun ih =>
      have hrest : Apart _ _ (markCase false rest) ↔ Apart _ _ rest := ih
      have hc : c.isLower = false ∧ c.isDigit = false := not_small_of_isUpper hupper
      have hd : d.isDigit = false := by
        rw [Bool.and_eq_true] at hrun
        exact isDigit_eq_false_of_isAlpha (by rw [isAlpha_eq, hrun.2, Bool.or_true])
      rw [apart_cons_cons, apart_cons_cons, apart_cons, hrest, apart_cons_cons, apart_cons]
      simp [hc.2, hd]
  | case6 b c d rest hsmall hupper hrun ih =>
      have hrest : Apart _ _ (markCase true (d :: rest)) ↔ Apart _ _ (d :: rest) := ih
      have hc : c.isLower = false ∧ c.isDigit = false := not_small_of_isUpper hupper
      rw [apart_cons, hrest, apart_cons_cons]
      simp [hc.2]
  | case7 b c d rest hsmall hupper ih =>
      have hrest : Apart _ _ (markCase false (d :: rest)) ↔ Apart _ _ (d :: rest) := ih
      have hc : c.isDigit = false := by
        simp only [isSmall, Bool.or_eq_true, not_or] at hsmall
        simpa using hsmall.2
      rw [apart_cons, hrest, apart_cons_cons]
      simp [hc]

-- ============================================================================
-- Upper snake case
-- ============================================================================

/-- An underscore between each digit and the capital right after it. -/
def cutDigits : List Char → List Char
  | [] => []
  | [c] => [c]
  | c :: d :: s =>
    if c.isDigit && d.isUpper then c :: '_' :: cutDigits (d :: s) else c :: cutDigits (d :: s)

theorem cutDigits_cons_of_not_digit (hc : c.isDigit = false) (s : List Char) :
    cutDigits (c :: s) = c :: cutDigits s := by
  cases s with
  | nil => rfl
  | cons d s => simp [cutDigits, hc]

theorem head?_cutDigits (s : List Char) : (cutDigits s).head? = s.head? := by
  fun_cases cutDigits s <;> rfl

/-- Without small letters, words end at digits only. -/
theorem markCase_eq_cutDigits (h : ∀ c ∈ s, c.isLower = false) (b : Bool) :
    markCase b s = cutDigits s := by
  fun_induction markCase b s with
  | case1 => rfl
  | case2 => rfl
  | case3 b c d rest hsmall hupper ih =>
      rw [List.forall_mem_cons, List.forall_mem_cons] at h
      -- the capital after the cut is passed over, and it is no digit
      have hc : c.isDigit = true := by simpa [isSmall, h.1] using hsmall
      rw [ih h.2.2, cutDigits, hc, hupper,
        cutDigits_cons_of_not_digit (not_small_of_isUpper hupper).2]
      rfl
  | case4 b c d rest hsmall hupper ih =>
      rw [ih (List.forall_mem_cons.mp h).2, cutDigits]
      simp [hupper]
  | case5 b c d rest hsmall hupper hrun ih =>
      rw [List.forall_mem_cons, List.forall_mem_cons] at h
      simp [h.2.1] at hrun
  | case6 b c d rest hsmall hupper hrun ih =>
      rw [ih (List.forall_mem_cons.mp h).2,
        cutDigits_cons_of_not_digit (not_small_of_isUpper hupper).2]
  | case7 b c d rest hsmall hupper ih =>
      have hc : c.isDigit = false := by
        simp only [isSmall, Bool.or_eq_true, not_or] at hsmall
        simpa using hsmall.2
      rw [ih (List.forall_mem_cons.mp h).2, cutDigits_cons_of_not_digit hc]

theorem cutDigits_eq_self_iff : cutDigits s = s ↔ Apart Char.isDigit Char.isUpper s := by
  fun_induction cutDigits s with
  | case1 => simp [Apart]
  | case2 => simp [Apart]
  | case3 c d s hcut ih =>
      rw [Bool.and_eq_true] at hcut
      rw [apart_cons_cons]
      constructor
      · intro heq
        have hunderscore : '_' = d := (List.cons_eq_cons.mp (List.cons_eq_cons.mp heq).2).1
        rw [← hunderscore] at hcut
        exact absurd hcut.2 (by decide)
      · intro hapart
        rw [hapart.1 hcut.1] at hcut
        cases hcut.2
  | case4 c d s hcut ih =>
      have hrest : cutDigits (d :: s) = d :: s ↔ Apart Char.isDigit Char.isUpper (d :: s) := ih
      rw [List.cons_eq_cons, hrest, apart_cons_cons]
      simp only [Bool.and_eq_true, not_and, Bool.not_eq_true] at hcut
      tauto

theorem apart_cutDigits (s : List Char) : Apart Char.isDigit Char.isUpper (cutDigits s) := by
  fun_induction cutDigits s with
  | case1 => simp [Apart]
  | case2 => simp [Apart]
  | case3 c d s hcut ih =>
      rw [apart_cons_cons, apart_cons]
      exact ⟨fun _ => by decide, fun h => absurd h (by decide), ih⟩
  | case4 c d s hcut ih =>
      simp only [Bool.and_eq_true, not_and, Bool.not_eq_true] at hcut
      rw [apart_cons, head?_cutDigits]
      exact ⟨fun hc e he => by simpa [← Option.mem_some.mp he] using hcut hc, ih⟩

theorem cutDigits_append_underscore (s t : List Char) :
    cutDigits (s ++ '_' :: t) = cutDigits s ++ '_' :: cutDigits t := by
  fun_induction cutDigits s with
  | case1 => exact cutDigits_cons_of_not_digit (by decide) t
  | case2 c =>
      have hcut : (c.isDigit && '_'.isUpper) = false := by simp
      rw [List.singleton_append, cutDigits, hcut, cutDigits_cons_of_not_digit (by decide)]
      rfl
  | case3 c d s hcut ih =>
      rw [List.cons_append] at ih
      rw [List.cons_append, List.cons_append, cutDigits, if_pos hcut, ih]
      rfl
  | case4 c d s hcut ih =>
      rw [List.cons_append] at ih
      rw [List.cons_append, List.cons_append, cutDigits, if_neg hcut, ih]
      rfl

/-- Words of capitals and digits, with an underscore between them. -/
def IsUpperSnake (s : List Char) : Prop :=
  ∃ ws, (∀ w ∈ ws, w ≠ [] ∧ ∀ c ∈ w, isBig c = true) ∧ s = Text.joinWith ['_'] ws

/-- A word is cut into words. -/
theorem exists_cutDigits (hne : w ≠ []) (hw : ∀ c ∈ w, isBig c = true) :
    ∃ v vs, (∀ u ∈ v :: vs, u ≠ [] ∧ ∀ c ∈ u, isBig c = true) ∧
      cutDigits w = Text.joinWith ['_'] (v :: vs) := by
  fun_induction cutDigits w with
  | case1 => exact absurd rfl hne
  | case2 c => exact ⟨[c], [], by simpa using hw, rfl⟩
  | case3 c d s hcut ih =>
      rw [List.forall_mem_cons] at hw
      obtain ⟨v, vs, hwords, hcut⟩ := ih (by simp) hw.2
      refine ⟨[c], v :: vs, ?_, by rw [hcut]; rfl⟩
      rw [List.forall_mem_cons]
      exact ⟨by simpa using hw.1, hwords⟩
  | case4 c d s hcut ih =>
      rw [List.forall_mem_cons] at hw
      obtain ⟨v, vs, hwords, hcut⟩ := ih (by simp) hw.2
      rw [List.forall_mem_cons] at hwords
      refine ⟨c :: v, vs, ?_, by rw [hcut]; cases vs <;> rfl⟩
      rw [List.forall_mem_cons, List.forall_mem_cons]
      exact ⟨⟨by simp, hw.1, hwords.1.2⟩, hwords.2⟩

theorem exists_cutDigits_joinWith (h : ∀ u ∈ w :: ws, u ≠ [] ∧ ∀ c ∈ u, isBig c = true) :
    ∃ v vs, (∀ u ∈ v :: vs, u ≠ [] ∧ ∀ c ∈ u, isBig c = true) ∧
      cutDigits (Text.joinWith ['_'] (w :: ws)) = Text.joinWith ['_'] (v :: vs) := by
  induction ws generalizing w with
  | nil =>
      rw [List.forall_mem_singleton] at h
      exact exists_cutDigits h.1 h.2
  | cons w' ws ih =>
      rw [List.forall_mem_cons] at h
      obtain ⟨v, vs, hwords, hfirst⟩ := exists_cutDigits h.1.1 h.1.2
      obtain ⟨u, us, hmore, hrest⟩ := ih h.2
      refine ⟨v, vs ++ u :: us, ?_, ?_⟩
      · rw [← List.cons_append]
        exact List.forall_mem_append.mpr ⟨hwords, hmore⟩
      · rw [Text.joinWith_cons_cons, List.append_assoc, List.singleton_append,
          cutDigits_append_underscore, hfirst, hrest, Text.joinWith_cons_append_cons]
        simp

theorem IsUpperSnake.cutDigits (h : IsUpperSnake s) : IsUpperSnake (cutDigits s) := by
  obtain ⟨ws, hws, rfl⟩ := h
  cases ws with
  | nil => exact ⟨[], by simp, rfl⟩
  | cons w ws =>
      obtain ⟨v, vs, hwords, hcut⟩ := exists_cutDigits_joinWith hws
      exact ⟨v :: vs, hwords, hcut⟩

theorem IsUpperSnake.isLower_eq_false (h : IsUpperSnake s) : ∀ c ∈ s, c.isLower = false := by
  obtain ⟨ws, hws, rfl⟩ := h
  intro c hc
  rcases Text.mem_joinWith hc with hc | ⟨w, hw, hc⟩
  · rw [List.mem_singleton.mp hc]
    decide
  · exact isLower_eq_false_of_isBig ((hws w hw).2 c hc)

-- ============================================================================
-- Names in upper snake case
-- ============================================================================

theorem big_joinWith (ws : List (List Char)) :
    big (Text.joinWith ['_'] ws) = Text.joinWith ['_'] (ws.map big) := by
  induction ws with
  | nil => rfl
  | cons w ws ih =>
      cases ws with
      | nil => rfl
      | cons w' ws =>
          rw [Text.joinWith_cons_cons, List.map_cons, List.map_cons, Text.joinWith_cons_cons,
            ← List.map_cons, ← ih]
          simp [big]

theorem big_small (w : List Char) : big (small w) = big w := by
  rw [big, small, List.map_map]
  exact List.map_congr_left fun c _ => (caseLaws c).toUpper_toLower

theorem envName_eq (s : List Char) :
    envName s = Text.joinWith ['_'] ((words s).map big) := by
  rw [envName, snakeCase, big_joinWith, List.map_map]
  exact congrArg _ (List.map_congr_left fun w _ => big_small w)

theorem big_eq_self (h : ∀ c ∈ w, isBig c = true) : big w = w := by
  have hmap : w.map Char.toUpper = w.map id :=
    List.map_congr_left fun c hc => toUpper_of_isBig (h c hc)
  rw [big, hmap, List.map_id]

theorem isUpperSnake_envName (s : List Char) : IsUpperSnake (envName s) := by
  refine ⟨(words s).map big, ?_, envName_eq s⟩
  simp only [List.forall_mem_map]
  intro w hw
  refine ⟨by simpa [big] using ne_nil_of_mem_alnumRuns hw, ?_⟩
  intro c hc
  obtain ⟨d, hd, rfl⟩ := List.mem_map.mp hc
  exact isBig_toUpper (isAlphanum_of_mem_alnumRuns hw hd)

/-- A name in upper snake case is cut at its digits when it is written in it once more. -/
theorem envName_of_isUpperSnake (h : IsUpperSnake s) : envName s = cutDigits s := by
  obtain ⟨ws, hws, hcut⟩ := h.cutDigits
  have hwords : words s = ws := by
    rw [words, markCase_eq_cutDigits h.isLower_eq_false, hcut,
      alnumRuns_joinWith (by decide) fun w hw =>
        ⟨(hws w hw).1, fun c hc => isAlphanum_of_isBig ((hws w hw).2 c hc)⟩]
  have hbig : ws.map big = ws.map id := List.map_congr_left fun w hw => big_eq_self (hws w hw).2
  rw [envName_eq, hwords, hbig, List.map_id, hcut]

/-- Capitals of a word in capitals are letters of the word. -/
theorem apart_big (w : List Char) :
    Apart Char.isDigit Char.isUpper (big w) ↔ Apart Char.isDigit Char.isAlpha w := by
  rw [Apart, big, List.isChain_map, Apart]
  simp only [isDigit_toUpper, (caseLaws _).isUpper_toUpper]

/-- A capital follows a digit in the upper snake case of a name exactly if a small letter follows
one in the name. -/
theorem apart_envName (s : List Char) :
    Apart Char.isDigit Char.isUpper (envName s) ↔ Apart Char.isDigit Char.isLower s := by
  have halpha : ∀ c : Char, c.isAlpha = true → c.isAlphanum = true := by
    intro c hc
    rw [Char.isAlphanum, hc, Bool.true_or]
  have hdigit : ∀ c : Char, c.isDigit = true → c.isAlphanum = true := by
    intro c hc
    rw [Char.isAlphanum, hc, Bool.or_true]
  rw [envName_eq, apart_joinWith (by decide) (by decide), List.forall_mem_map,
    ← apart_markCase false s, apart_alnumRuns hdigit halpha]
  exact forall₂_congr fun w _ => apart_big w

end Naming

end Flowscript

/-
  Flowscript.Proofs.KeptNames

  Which names the case of types keeps, and which it makes the same.

  A capital is read as the start of a word if it comes after a small letter or a digit, or
  if it is the last one of a run that a small letter follows.  A capital that is read
  within a word becomes a small letter.  In a name in one word the characters are read in
  turn with at most one capital ahead (`capsFrom_markCase_false`), so only at its start
  two capitals side by side can both be kept (`pascalCase_eq_self_iff`).
-/
import Flowscript.Proofs.CamelCase

namespace Flowscript.Naming

variable {s t : List Char} {c : Char}

-- ============================================================================
-- Names that are kept
-- ============================================================================

/-- No two capitals stand side by side; `afterCapital` tells that one comes before the text. -/
def capitalsApart (afterCapital : Bool) : List Char → Bool
  | [] => true
  | c :: s => !(afterCapital && c.isUpper) && capitalsApart c.isUpper s

/-- Every capital is read as the start of a word: no two stand side by side, but for the first two
characters, if a small letter comes after them and no capital after that. -/
def isLegible : List Char → Bool
  | c :: d :: e :: s =>
    if c.isUpper && d.isUpper then e.isLower && capitalsApart true s
    else capitalsApart false (c :: d :: e :: s)
  | s => capitalsApart false s

theorem isLegible_of_not_isUpper {d : Char} (h : (c.isUpper && d.isUpper) = false) :
    isLegible (c :: d :: s) = capitalsApart d.isUpper s := by
  have hapart : capitalsApart false (c :: d :: s) = capitalsApart d.isUpper s := by
    simp [capitalsApart, h]
  cases s with
  | nil => exact hapart
  | cons e s => rw [isLegible, if_neg (by simp [h]), hapart]

theorem isSmall_eq_not_isUpper (hc : c.isAlphanum = true) : isSmall c = !c.isUpper := by
  have hcases : (c.isUpper || c.isLower || c.isDigit) = true := hc
  cases hupper : c.isUpper with
  | true =>
      obtain ⟨hlower, hdigit⟩ := not_small_of_isUpper hupper
      simp [isSmall, hlower, hdigit]
  | false => simpa [isSmall, hupper] using hcases

theorem toLower_ne_of_isUpper (h : c.isUpper = true) : c.toLower ≠ c := by
  intro heq
  have hlower : c.toLower.isUpper = false := (caseLaws c).isUpper_toLower
  rw [heq, h] at hlower
  cases hlower

theorem toUpper_of_isUpper (h : c.isUpper = true) : c.toUpper = c :=
  toUpper_of_isBig (by simp [isBig, h])

/-- A text in the middle of a word is kept if no two capitals stand side by side in it; a capital
before it is not part of a run. -/
theorem capsFrom_markCase_false (b : Bool) (hs : ∀ c ∈ s, c.isAlphanum = true)
    (hb : b = true → ∀ c ∈ s.head?, c.isUpper = false) :
    capsFrom false (markCase b s) = s ↔ capitalsApart true s = true := by
  fun_induction markCase b s with
  | case1 => simp [capsFrom, capitalsApart]
  | case2 b c =>
      rw [List.forall_mem_singleton] at hs
      rw [capsFrom_cons_of_alphanum hs]
      cases hupper : c.isUpper with
      | true => simp [capsFrom, capitalsApart, hupper, toLower_ne_of_isUpper hupper]
      | false =>
          have hsmall : isSmall c = true := by rw [isSmall_eq_not_isUpper hs, hupper]; rfl
          simp [capsFrom, capitalsApart, hupper, toLower_of_isSmall hsmall]
  | case3 b c d rest hsmall hupper ih =>
      -- the capital that starts a word is taken together with the character before it
      rw [List.forall_mem_cons, List.forall_mem_cons] at hs
      have hrest := ih hs.2.2 (by simp)
      rw [capsFrom_cons_of_alphanum hs.1, capsFrom_underscore, capsFrom_cons_of_alphanum hs.2.1]
      simp [hrest, capitalsApart, hupper, isUpper_eq_false_of_isSmall hsmall,
        toLower_of_isSmall hsmall, toUpper_of_isUpper hupper]
  | case4 b c d rest hsmall hupper ih =>
      rw [List.forall_mem_cons] at hs
      have hrest := ih hs.2 (by simp)
      rw [capsFrom_cons_of_alphanum hs.1]
      simp only [Bool.not_eq_true] at hupper
      simp [hrest, capitalsApart, hupper, isUpper_eq_false_of_isSmall hsmall,
        toLower_of_isSmall hsmall]
  | case5 b c d rest hsmall hupper hrun ih =>
      rw [Bool.and_eq_true] at hrun
      rw [hb hrun.1 c rfl] at hupper
      cases hupper
  | case6 b c d rest hsmall hupper hrun ih =>
      rw [List.forall_mem_cons] at hs
      rw [capsFrom_cons_of_alphanum hs.1]
      simp [capitalsApart, hupper, toLower_ne_of_isUpper hupper]
  | case7 b c d rest hsmall hupper ih =>
      rw [List.forall_mem_cons] at hs
      rw [isSmall_eq_not_isUpper hs.1] at hsmall
      simp [hupper] at hsmall

/-- After a capital, what starts with one is kept if that one is the last of the run. -/
theorem capsFrom_markCase_run {d : Char} (hd : d.isUpper = true)
    (hs : ∀ c ∈ d :: s, c.isAlphanum = true) :
    capsFrom false (markCase true (d :: s)) = d :: s ↔
      ∃ e r, s = e :: r ∧ e.isLower = true ∧ capitalsApart true r = true := by
  rw [List.forall_mem_cons] at hs
  have hsmall : isSmall d = false := by rw [isSmall_eq_not_isUpper hs.1, hd]; rfl
  cases s with
  | nil => simp [capsFrom_cons_of_alphanum hs.1, toLower_ne_of_isUpper hd]
  | cons e r =>
      rw [List.forall_mem_cons] at hs
      cases hlower : e.isLower with
      | false =>
          rw [markCase]
          simp [hsmall, hd, hlower, capsFrom_cons_of_alphanum hs.1, toLower_ne_of_isUpper hd]
      | true =>
          have he : isSmall e = true := by simp [isSmall, hlower]
          have hrest := capsFrom_markCase_false false hs.2.2 (by simp)
          rw [markCase]
          simp [hsmall, hd, hlower, capsFrom_underscore, capsFrom_cons_of_alphanum hs.1,
            capsFrom_cons_of_alphanum hs.2.1, toUpper_of_isUpper hd, toLower_of_isSmall he, hrest]

/-- A capital at the start of a name opens a run. -/
theorem capsFrom_markCase_capital {d : Char} (hc : c.isUpper = true)
    (hs : ∀ x ∈ c :: d :: s, x.isAlphanum = true) :
    capsFrom true (markCase false (c :: d :: s)) = c :: capsFrom false (markCase true (d :: s)) := by
  have halnum := hs c List.mem_cons_self
  have hsmall : isSmall c = false := by rw [isSmall_eq_not_isUpper halnum, hc]; rfl
  rw [markCase]
  simp [hsmall, hc, capsFrom_cons_of_alphanum halnum, toUpper_of_isUpper hc]

/-- A digit at the start of a name is read as in the middle of a word. -/
theorem capsFrom_markCase_digit {d : Char} (hc : c.isDigit = true) :
    capsFrom true (markCase false (c :: d :: s)) = capsFrom false (markCase false (c :: d :: s)) := by
  have halnum : c.isAlphanum = true := by simp [Char.isAlphanum, hc]
  have hsmall : isSmall c = true := by simp [isSmall, hc]
  have hbig : isBig c = true := by simp [isBig, hc]
  rw [markCase, if_pos hsmall]
  split <;>
    simp [capsFrom_cons_of_alphanum halnum, toUpper_of_isBig hbig, toLower_of_isSmall hsmall]

/-- A name in one word that begins with a capital or a digit is kept by the case of types exactly
if every capital in it is read as the start of a word. -/
theorem pascalCase_eq_self_iff (hs : ∀ c ∈ s, c.isAlphanum = true)
    (hhead : ∀ c ∈ s.head?, isBig c = true) : pascalCase s = s ↔ isLegible s = true := by
  rw [pascalCase_eq_capsFrom]
  match s with
  | [] => simp [capsFrom, isLegible, capitalsApart]
  | [c] =>
      have hbig := toUpper_of_isBig (hhead c rfl)
      simp [capsFrom_cons_of_alphanum (hs c List.mem_cons_self), capsFrom, isLegible,
        capitalsApart, hbig]
  | c :: d :: s =>
      have htail := (List.forall_mem_cons.mp hs).2
      cases hc : c.isUpper with
      | false =>
          have hdigit : c.isDigit = true := by
            have hbig := hhead c rfl
            simpa [isBig, hc] using hbig
          rw [capsFrom_markCase_digit hdigit, capsFrom_markCase_false false hs (by simp),
            isLegible_of_not_isUpper (by simp [hc])]
          simp [capitalsApart, hc]
      | true =>
          rw [capsFrom_markCase_capital hc hs, List.cons.injEq, eq_self, true_and]
          cases hd : d.isUpper with
          | false =>
              rw [capsFrom_markCase_false true htail (by simp [hd]),
                isLegible_of_not_isUpper (by simp [hd])]
              simp [capitalsApart, hd]
          | true =>
              rw [capsFrom_markCase_run hd htail]
              cases s with
              | nil => simp [isLegible, capitalsApart, hc, hd]
              | cons e r => simp [isLegible, hc, hd]

/-- Two words of one character are one word to the reader, but for a word after them. -/
example : isLegible (pascalCase "a b".toList) = false ∧
    isLegible (pascalCase "a big".toList) = true ∧ isLegible (pascalCase "plan b q".toList) = false := by
  decide

-- ============================================================================
-- Names that are made the same
-- ============================================================================

theorem isBig_of_mem_head?_capsFrom (h : c ∈ (capsFrom true s).head?) : isBig c = true := by
  induction s with
  | nil => cases h
  | cons d s ih =>
      rw [capsFrom] at h
      split at h
      · next hd =>
        cases h
        exact isBig_toUpper hd
      · exact ih h

theorem isBig_of_mem_head?_pascalCase (h : c ∈ (pascalCase s).head?) : isBig c = true := by
  rw [pascalCase_eq_capsFrom] at h
  exact isBig_of_mem_head?_capsFrom h

/-- Two names are the same in the case of types exactly if they show the same words. -/
theorem pascalCase_eq_iff : pascalCase s = pascalCase t ↔ shownWords s = shownWords t := by
  have hflatten : ∀ s, pascalCase s = ((glue (words s)).map capitalize).flatten := fun s =>
    (flatten_capitalize_glue (isWords_words s)).symm
  have hread : ∀ s, (cutCapitals (pascalCase s)).map small = shownWords s := by
    intro s
    have hwords := isWords_glue (isWords_words s)
    have hdigit := startsWithDigit_of_mem_tail_glue (words s)
    rw [hflatten, shownWords]
    cases hglue : glue (words s) with
    | nil => rfl
    | cons w ws =>
        rw [hglue, IsWords, List.forall_mem_cons] at hwords
        rw [hglue] at hdigit
        obtain ⟨c, r, rfl⟩ := List.exists_cons_of_ne_nil hwords.1.1
        have htitles : ∀ v ∈ ws.map capitalize, IsTitle v := by
          simp only [List.forall_mem_map]
          exact fun v hv => isTitle_capitalize (hwords.2 v hv).1 (hwords.2 v hv).2 (hdigit v hv)
        have hcut := cutCapitals_append (w := capitalize (c :: r)) (by simp [capitalize])
          (fun d hd => isUpper_of_mem_small hd) htitles
        rw [List.map_cons, List.flatten_cons, hcut, List.map_cons, List.map_cons, List.map_map,
          small_capitalize]
        exact congrArg _ (List.map_congr_left fun v _ => small_capitalize v)
  constructor
  · intro h
    rw [← hread s, h, hread t]
  · intro h
    have hcapitalize : ∀ ws : List (List Char), (ws.map small).map capitalize = ws.map capitalize := by
      intro ws
      rw [List.map_map]
      exact List.map_congr_left fun w _ => capitalize_small w
    rw [hflatten, hflatten, ← hcapitalize, ← hcapitalize (glue (words t))]
    exact congrArg (fun ws => (ws.map capitalize).flatten) h

end Flowscript.Naming

/-
  Flowscript.Proofs.CamelCase

  Which names are the same in one word.

  In one word, a capital shows where a word begins, but the first word has none, and a word
  that begins with a digit is not told from the end of the word before it.  So two names are
  the same exactly if their words are, in small letters, once each word that begins with a
  digit is joined to the one before it (`camelCase_eq_iff`).
-/
import Flowscript.Proofs.NameBoundaries
import Mathlib.Data.List.SplitBy

namespace Flowscript.Naming

variable {s t v w : List Char} {vs ws : List (List Char)} {c : Char}

-- ============================================================================
-- Words in one
-- ============================================================================

/-- The words of a name as they are written in one: the first in small letters, the others
capitalized. -/
def camelWords : List (List Char) → List (List Char)
  | [] => []
  | w :: ws => small w :: ws.map capitalize

theorem camelCase_eq_flatten (s : List Char) : camelCase s = (camelWords (words s)).flatten := by
  unfold camelCase
  cases words s <;> rfl

/-- Words of letters and digits. -/
def IsWords (ws : List (List Char)) : Prop :=
  ∀ w ∈ ws, w ≠ [] ∧ ∀ c ∈ w, c.isAlphanum = true

theorem isWords_words (s : List Char) : IsWords (words s) :=
  fun _ hw => ⟨ne_nil_of_mem_alnumRuns hw, fun _ hc => isAlphanum_of_mem_alnumRuns hw hc⟩

theorem isAlphanum_of_mem_small (hw : ∀ c ∈ w, c.isAlphanum = true) (hc : c ∈ small w) :
    c.isAlphanum = true := by
  obtain ⟨d, hd, rfl⟩ := List.mem_map.mp hc
  exact isAlphanum_of_isSmall (isSmall_toLower (hw d hd))

theorem isAlphanum_of_mem_capitalize (hw : ∀ c ∈ w, c.isAlphanum = true) (hc : c ∈ capitalize w) :
    c.isAlphanum = true := by
  cases w with
  | nil => cases hc
  | cons d w =>
      rw [List.forall_mem_cons] at hw
      rcases List.mem_cons.mp hc with rfl | hc
      · exact isAlphanum_of_isBig (isBig_toUpper hw.1)
      · exact isAlphanum_of_mem_small hw.2 hc

theorem isAlphanum_of_mem_camelCase (hc : c ∈ camelCase s) : c.isAlphanum = true := by
  have hwords := isWords_words s
  rw [camelCase_eq_flatten] at hc
  obtain ⟨w, hw, hc⟩ := List.mem_flatten.mp hc
  cases hws : words s with
  | nil =>
      rw [hws] at hw
      cases hw
  | cons v vs =>
      rw [hws, IsWords, List.forall_mem_cons] at hwords
      rw [hws] at hw
      rcases List.mem_cons.mp hw with rfl | hw
      · exact isAlphanum_of_mem_small hwords.1.2 hc
      · obtain ⟨u, hu, rfl⟩ := List.mem_map.mp hw
        exact isAlphanum_of_mem_capitalize (hwords.2 u hu).2 hc

theorem small_small (w : List Char) : small (small w) = small w := by
  rw [small, small, List.map_map]
  exact List.map_congr_left fun c _ => (caseLaws c).toLower_toLower

theorem small_capitalize (w : List Char) : small (capitalize w) = small w := by
  cases w with
  | nil => rfl
  | cons c w =>
      have hrest : small (small w) = small w := small_small w
      rw [small, capitalize, List.map_cons, (caseLaws c).toLower_toUpper]
      exact congrArg _ hrest

theorem capitalize_small (w : List Char) : capitalize (small w) = capitalize w := by
  cases w with
  | nil => rfl
  | cons c w =>
      have hrest : small (small w) = small w := small_small w
      rw [small, List.map_cons, capitalize, (caseLaws c).toUpper_toLower]
      exact congrArg _ hrest

/-- The words are known from what is written, but for capitals. -/
theorem map_small_camelWords (ws : List (List Char)) :
    (camelWords ws).map small = ws.map small := by
  cases ws with
  | nil => rfl
  | cons w ws =>
      rw [camelWords, List.map_cons, List.map_cons, List.map_map, small_small]
      exact congrArg _ (List.map_congr_left fun w _ => small_capitalize w)

theorem camelWords_map_small (ws : List (List Char)) :
    camelWords (ws.map small) = camelWords ws := by
  cases ws with
  | nil => rfl
  | cons w ws =>
      rw [List.map_cons, camelWords, camelWords, List.map_map, small_small]
      exact congrArg _ (List.map_congr_left fun w _ => capitalize_small w)

-- ============================================================================
-- Words that begin with a digit
-- ============================================================================

/-- The text begins with a digit. -/
def startsWithDigit (w : List Char) : Bool := w.head?.any Char.isDigit

/-- Words of which each that begins with a digit is joined to the word before it. -/
def glue : List (List Char) → List (List Char)
  | [] => []
  | w :: ws =>
    match glue ws with
    | [] => [w]
    | v :: vs => if startsWithDigit v then (w ++ v) :: vs else w :: v :: vs

theorem capitalize_of_startsWithDigit (h : startsWithDigit w = true) :
    capitalize w = small w := by
  cases w with
  | nil => rfl
  | cons c w =>
      have hc : c.isDigit = true := by simpa [startsWithDigit] using h
      have hsmall : isSmall c = true := by rw [isSmall, hc, Bool.or_true]
      have hbig : isBig c = true := by rw [isBig, hc, Bool.or_true]
      rw [capitalize, toUpper_of_isBig hbig, small, small, List.map_cons, toLower_of_isSmall hsmall]

theorem isWords_glue (h : IsWords ws) : IsWords (glue ws) := by
  fun_induction glue ws with
  | case1 => exact h
  | case2 w ws hglue ih => exact List.forall_mem_singleton.mpr (h w List.mem_cons_self)
  | case3 w ws v vs hglue hdigit ih =>
      rw [IsWords, List.forall_mem_cons] at h
      have hrest := ih h.2
      rw [hglue, IsWords, List.forall_mem_cons] at hrest
      refine List.forall_mem_cons.mpr ⟨⟨by simp [h.1.1], fun c hc => ?_⟩, hrest.2⟩
      rcases List.mem_append.mp hc with hc | hc
      · exact h.1.2 c hc
      · exact hrest.1.2 c hc
  | case4 w ws v vs hglue hdigit ih =>
      rw [IsWords, List.forall_mem_cons] at h
      exact List.forall_mem_cons.mpr ⟨h.1, hglue ▸ ih h.2⟩

/-- No word but the first begins with a digit any more. -/
theorem startsWithDigit_of_mem_tail_glue (ws : List (List Char)) :
    ∀ w ∈ (glue ws).tail, startsWithDigit w = false := by
  fun_induction glue ws with
  | case1 => simp
  | case2 w ws hglue ih => simp
  | case3 w ws v vs hglue hdigit ih => rwa [hglue] at ih
  | case4 w ws v vs hglue hdigit ih =>
      rw [hglue] at ih
      exact List.forall_mem_cons.mpr ⟨by simpa using hdigit, ih⟩

theorem capitalize_append (hne : w ≠ []) (v : List Char) :
    capitalize (w ++ v) = capitalize w ++ small v := by
  cases w with
  | nil => exact absurd rfl hne
  | cons c w => simp [capitalize, small]

theorem flatten_capitalize_glue (h : IsWords ws) :
    ((glue ws).map capitalize).flatten = (ws.map capitalize).flatten := by
  fun_induction glue ws with
  | case1 => rfl
  | case2 w ws hglue ih =>
      have hrest := ih (List.forall_mem_cons.mp h).2
      rw [hglue] at hrest
      rw [List.map_cons, List.map_cons, List.flatten_cons, List.flatten_cons, ← hrest]
  | case3 w ws v vs hglue hdigit ih =>
      have hrest := ih (List.forall_mem_cons.mp h).2
      have hne := (h w List.mem_cons_self).1
      rw [hglue, List.map_cons, List.flatten_cons] at hrest
      rw [List.map_cons, List.map_cons, List.flatten_cons, List.flatten_cons, ← hrest,
        capitalize_append hne, capitalize_of_startsWithDigit hdigit, List.append_assoc]
  | case4 w ws v vs hglue hdigit ih =>
      have hrest := ih (List.forall_mem_cons.mp h).2
      rw [hglue] at hrest
      rw [List.map_cons, List.flatten_cons, hrest, List.map_cons, List.flatten_cons]

/-- Joining words at their digits shows nowhere. -/
theorem flatten_camelWords_glue (h : IsWords ws) :
    (camelWords (glue ws)).flatten = (camelWords ws).flatten := by
  cases ws with
  | nil => rfl
  | cons w ws =>
      -- the first word is in small letters, and so is one that is joined to it
      have hrest := flatten_capitalize_glue (List.forall_mem_cons.mp h).2
      rw [glue, camelWords, List.flatten_cons, ← hrest]
      split
      · next hglue => rw [hglue]; rfl
      · next v vs hglue =>
        rw [hglue]
        split
        · next hdigit =>
          rw [camelWords, List.flatten_cons, List.map_cons, List.flatten_cons,
            capitalize_of_startsWithDigit hdigit, small, List.map_append, List.append_assoc]
          rfl
        · rfl

-- ============================================================================
-- Reading words back
-- ============================================================================

/-- The words of a text in which each word but the first begins with a capital. -/
def cutCapitals (s : List Char) : List (List Char) := s.splitBy fun _ d => !d.isUpper

theorem isChain_of_tail (h : ∀ d ∈ w.tail, d.isUpper = false) :
    w.IsChain fun _ d => (!d.isUpper) = true := by
  induction w with
  | nil => exact .nil
  | cons c w ih =>
      rw [List.isChain_cons]
      refine ⟨fun d hd => ?_, ih fun d hd => h d (List.mem_of_mem_tail hd)⟩
      rw [h d (List.mem_of_mem_head? hd)]
      rfl

theorem isUpper_of_mem_small (hc : c ∈ small w) : c.isUpper = false := by
  obtain ⟨d, hd, rfl⟩ := List.mem_map.mp hc
  exact (caseLaws d).isUpper_toLower

/-- A capital, and nothing but small letters and digits after it. -/
def IsTitle (w : List Char) : Prop :=
  ∃ c r, w = c :: r ∧ c.isUpper = true ∧ ∀ d ∈ r, d.isUpper = false

theorem isTitle_capitalize (hne : w ≠ []) (hw : ∀ c ∈ w, c.isAlphanum = true)
    (hdigit : startsWithDigit w = false) : IsTitle (capitalize w) := by
  obtain ⟨c, r, rfl⟩ := List.exists_cons_of_ne_nil hne
  rw [List.forall_mem_cons] at hw
  have hc : c.isDigit = false := by simpa [startsWithDigit] using hdigit
  have halpha : c.isAlpha = true := by simpa [Char.isAlphanum, hc] using hw.1
  refine ⟨c.toUpper, small r, rfl, ?_, fun d hd => isUpper_of_mem_small hd⟩
  rw [(caseLaws c).isUpper_toUpper, halpha]

theorem cutCapitals_append (hne : w ≠ []) (hw : ∀ d ∈ w.tail, d.isUpper = false)
    (hvs : ∀ v ∈ vs, IsTitle v) : cutCapitals (w ++ vs.flatten) = w :: vs := by
  induction vs generalizing w with
  | nil =>
      rw [List.flatten_nil, List.append_nil, cutCapitals,
        List.splitBy_of_isChain hne (isChain_of_tail hw)]
  | cons v vs ih =>
      rw [List.forall_mem_cons] at hvs
      obtain ⟨c, r, rfl, hc, hr⟩ := hvs.1
      have hcut : ∀ x ∈ w.getLast?, ∀ d ∈ ((c :: r) :: vs).flatten.head?, (!d.isUpper) = false := by
        rintro x - d ⟨⟩
        simp [hc]
      have hrest : cutCapitals (c :: r ++ vs.flatten) = (c :: r) :: vs := ih (by simp) hr hvs.2
      rw [cutCapitals, List.splitBy_append hcut,
        List.splitBy_of_isChain hne (isChain_of_tail hw), List.flatten_cons, ← cutCapitals, hrest]
      rfl

/-- Words are read back, if no word but the first begins with a digit. -/
theorem cutCapitals_camelWords (h : IsWords ws)
    (hdigit : ∀ w ∈ ws.tail, startsWithDigit w = false) :
    cutCapitals (camelWords ws).flatten = camelWords ws := by
  cases ws with
  | nil => rfl
  | cons w ws =>
      rw [IsWords, List.forall_mem_cons] at h
      refine cutCapitals_append (by simpa [small] using h.1.1) (fun d hd => ?_) ?_
      · exact isUpper_of_mem_small (List.mem_of_mem_tail hd)
      · simp only [List.forall_mem_map]
        exact fun v hv => isTitle_capitalize (h.2 v hv).1 (h.2 v hv).2 (hdigit v hv)

/-- The words that a name in one word shows, in small letters. -/
def shownWords (s : List Char) : List (List Char) := (glue (words s)).map small

/-- Two names are the same in one word exactly if they show the same words. -/
theorem camelCase_eq_iff : camelCase s = camelCase t ↔ shownWords s = shownWords t := by
  have hwords := fun s => isWords_glue (isWords_words s)
  have hflatten : ∀ s, camelCase s = (camelWords (glue (words s))).flatten := by
    intro s
    rw [flatten_camelWords_glue (isWords_words s), camelCase_eq_flatten]
  have hread : ∀ s, (cutCapitals (camelCase s)).map small = shownWords s := by
    intro s
    rw [hflatten, cutCapitals_camelWords (hwords s) (startsWithDigit_of_mem_tail_glue _),
      map_small_camelWords, shownWords]
  constructor
  · intro h
    rw [← hread s, h, hread t]
  · intro h
    rw [hflatten, hflatten, ← camelWords_map_small, ← camelWords_map_small (glue (words t))]
    exact congrArg (fun ws => (camelWords ws).flatten) h

/-- Separators and capitals show nothing, but where a word of letters begins. -/
example : shownWords "node-ENV".toList = shownWords "nodeEnv".toList ∧
    shownWords "a 1b".toList = shownWords "a1b".toList ∧
    shownWords "a-b".toList ≠ shownWords "ab".toList := by decide

end Flowscript.Naming

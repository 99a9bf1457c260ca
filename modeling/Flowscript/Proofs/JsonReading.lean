/-
  Flowscript.Proofs.JsonReading

  What is written as JSON is read as JSON.

  Every part of the grammar is read up to where it ends: words by the character that
  follows them, strings to their closing quote, and trees by induction over how they are
  written, with as much fuel as there are characters left, twice.  An integer of too many
  digits ends the reading.
-/
import Flowscript.Proofs.SharedText
import Mathlib.Data.List.DropRight

namespace Flowscript.Json

open Shared

variable {s s' r w ds places x : List Char} {c : Char} {fuel depth : Nat}

/-- What is read, if no integer in it is too long. -/
def unlessLong {α : Type} (isShort : Bool) (a : α) : Except Problem α :=
  if isShort then .ok a else .error .longInteger

-- ============================================================================
-- White space
-- ============================================================================

theorem isSpace_of_isGap (h : isGap c = true) : isSpace c = true := by
  simp only [isGap, Bool.or_eq_true, decide_eq_true_eq] at h
  rcases h with (rfl | rfl) | rfl <;> decide

theorem skipSpace_gap (h : Gap s r) : skipSpace s = skipSpace r := by
  obtain ⟨g, rfl, hg⟩ := h
  exact List.dropWhile_append_of_pos fun c hc => isSpace_of_isGap (hg c hc)

theorem skipSpace_cons (h : isSpace c = false) (s : List Char) : skipSpace (c :: s) = c :: s := by
  rw [skipSpace, List.dropWhile_cons, h, if_neg (by simp)]

/-- White space in front of a value is no matter. -/
theorem value_congr (h : skipSpace s = skipSpace s') (fuel depth : Nat) :
    value fuel depth s = value fuel depth s' := by
  cases fuel with
  | zero => rfl
  | succ fuel => rw [value, value, h]

theorem value_gap (h : Gap s r) (fuel depth : Nat) : value fuel depth s = value fuel depth r :=
  value_congr (skipSpace_gap h) fuel depth

-- ============================================================================
-- Numbers
-- ============================================================================

/-- The next character, if there is one, is no digit. -/
def StopsDigits (r : List Char) : Prop := ∀ c, r.head? = some c → c.isDigit = false

theorem span_digits (hds : ∀ d ∈ ds, d.isDigit = true) (hr : StopsDigits r) :
    (ds ++ r).span Char.isDigit = (ds, r) := by
  have hstop : r.takeWhile Char.isDigit = [] ∧ r.dropWhile Char.isDigit = r := by
    cases r with
    | nil => exact ⟨rfl, rfl⟩
    | cons c r => simp [hr c rfl]
  rw [List.span_eq_takeWhile_dropWhile, List.takeWhile_append_of_pos hds,
    List.dropWhile_append_of_pos hds, hstop.1, hstop.2, List.append_nil]

theorem stopsDigits_of_ends (h : Ends r) : StopsDigits r := by
  intro c hc
  rcases h.head_cases hc with rfl | rfl | rfl | rfl | rfl | rfl <;> decide

theorem stopsDigits_cons (h : c.isDigit = false) (s : List Char) : StopsDigits (c :: s) := by
  rintro d ⟨⟩
  exact h

theorem fraction_of_head? (h : r.head? ≠ some '.') : fraction r = ([], r) := by
  unfold fraction
  split
  · exact absurd rfl h
  · rfl

theorem fraction_digits (hplaces : IsDigits places) (hr : StopsDigits r) :
    fraction ('.' :: (places ++ r)) = (places, r) := by
  unfold fraction
  simp only
  rw [span_digits hplaces.2 hr]
  split
  · next heq =>
    cases heq
    exact absurd rfl hplaces.1
  · next heq =>
    cases heq
    rfl

theorem exponent_of_head? (h : ∀ c, r.head? = some c → c ≠ 'e' ∧ c ≠ 'E') :
    exponent r = (none, r) := by
  cases r with
  | nil => rfl
  | cons c r => simp [exponent, h c rfl]

theorem ne_sign_of_isDigit (h : c.isDigit = true) : c ≠ '-' ∧ c ≠ '+' := by
  constructor
  · rintro rfl
    cases h
  · rintro rfl
    cases h

/-- Digits are an exponent, with or without sign. -/
theorem readExponent?_digits (hds : IsDigits ds) :
    Decimal.readExponent? ds = some (digitsValue ds : Int) ∧
      Decimal.readExponent? ('-' :: ds) = some (-(digitsValue ds : Int)) ∧
      Decimal.readExponent? ('+' :: ds) = some (digitsValue ds : Int) := by
  have hall : ds.all Char.isDigit = true := List.all_eq_true.mpr hds.2
  have hempty : ds.isEmpty = false := by simpa using hds.1
  refine ⟨?_, by simp [Decimal.readExponent?, hall, hempty],
    by simp [Decimal.readExponent?, hall, hempty]⟩
  obtain ⟨d, ds, rfl⟩ := List.exists_cons_of_ne_nil hds.1
  have hd := ne_sign_of_isDigit (hds.2 d List.mem_cons_self)
  unfold Decimal.readExponent?
  split
  next negative rest heq =>
  split at heq
  · next h => exact absurd (List.cons.inj h).1 hd.1
  · next h => exact absurd (List.cons.inj h).1 hd.2
  · cases heq
    simp [hall, hempty]

/-- An exponent with a sign is read to its end. -/
theorem exponent_append {e : Int} (hx : Exponent e x) (hr : Ends r) :
    ∃ e?, exponent (x ++ r) = (e?, r) ∧ e?.getD 0 = e := by
  have hread : ∀ {ds : List Char}, IsDigits ds → ∀ {a : Char}, a = 'e' ∨ a = 'E' →
      exponent (a :: '-' :: (ds ++ r)) = (some (-(digitsValue ds : Int)), r) ∧
        exponent (a :: '+' :: (ds ++ r)) = (some (digitsValue ds : Int), r) := by
    intro ds hds a ha
    have hspan := span_digits hds.2 (stopsDigits_of_ends hr)
    obtain ⟨hplain, hminus, -⟩ := readExponent?_digits hds
    obtain ⟨d, ds, rfl⟩ := List.exists_cons_of_ne_nil hds.1
    have hletter : (a = 'e' || a = 'E') = true := by simpa using ha
    rw [List.cons_append] at hspan
    constructor
    · simp only [exponent, hletter, if_true, List.cons_append, hspan, List.nil_append, hminus]
    · simp only [exponent, hletter, if_true, List.cons_append, hspan, List.nil_append, hplain]
  cases hx with
  | absent =>
      refine ⟨none, exponent_of_head? fun c hc => ?_, rfl⟩
      rcases hr.head_cases hc with rfl | rfl | rfl | rfl | rfl | rfl <;> decide
  | minus he hds => exact ⟨_, (hread hds he).1, rfl⟩
  | plus he hds => exact ⟨_, (hread hds he).2, rfl⟩

theorem stopsDigits_exponent {e : Int} (hx : Exponent e x) (hr : Ends r) : StopsDigits (x ++ r) := by
  cases hx with
  | absent => exact stopsDigits_of_ends hr
  | minus he _ => rcases he with rfl | rfl <;> exact stopsDigits_cons (by decide) _
  | plus he _ => rcases he with rfl | rfl <;> exact stopsDigits_cons (by decide) _

/-- The whole part of a number is read up to what is no digit. -/
theorem magnitude_whole (hds : IsWhole ds) (hr : StopsDigits r) (negative : Bool) :
    magnitude negative (ds ++ r) =
      (let (places, rest) := fraction r
      let (e?, rest) := exponent rest
      if places.isEmpty && e?.isNone then
        if Decimal.maxIntegerDigits < ds.length then .error .longInteger
        else
          let n : Int := digitsValue ds
          .ok (.int (if negative then -n else n), rest)
      else
        let digits := digitsValue (ds ++ places)
        .ok (.float (Double.ofDecimal negative digits (e?.getD 0 - places.length)), rest)) := by
  rcases hds with rfl | ⟨c, cs, rfl, hc, hall⟩
  · rfl
  · have hspan := span_digits hall hr
    rw [List.cons_append] at hspan ⊢
    unfold magnitude
    split
    · next heq => exact absurd (List.cons.inj heq).1 hc
    · rw [hspan]
      rfl

-- ============================================================================
-- Words
-- ============================================================================

theorem value_of_isDigit (hc : c.isDigit = true) (fuel depth : Nat) (s : List Char) :
    value (fuel + 1) depth (c :: s) = magnitude false (c :: s) := by
  have hspace : isSpace c = false := by
    by_contra h
    simp only [isSpace, Bool.not_eq_false, Bool.or_eq_true, decide_eq_true_eq] at h
    rcases h with ((rfl | rfl) | rfl) | rfl <;> cases hc
  rw [value, skipSpace_cons hspace]
  split
  all_goals first
    | rfl
    | (next heq => cases heq <;> cases hc)

theorem value_of_minus (hc : c.isDigit = true) (fuel depth : Nat) (s : List Char) :
    value (fuel + 1) depth ('-' :: c :: s) = magnitude true (c :: s) := by
  rw [value, skipSpace_cons (by decide)]
  split
  case h_11 heq =>
    cases heq
    rfl
  case h_12 hminus => exact absurd rfl (hminus _)
  all_goals next heq => cases heq <;> cases hc

theorem value_number (hds : IsWhole ds) (negative : Bool) (fuel depth : Nat) (s : List Char) :
    value (fuel + 1) depth (sign negative ++ ds ++ s) = magnitude negative (ds ++ s) := by
  obtain ⟨d, cs, rfl, hd⟩ := hds.exists_cons
  cases negative with
  | true => exact value_of_minus hd fuel depth _
  | false => exact value_of_isDigit hd fuel depth _

/-- The digits of an integer with a sign. -/
theorem countP_isDigit_whole (hds : IsWhole ds) (negative : Bool) :
    (sign negative ++ ds).countP Char.isDigit = ds.length := by
  have hall : ∀ d ∈ ds, d.isDigit = true := by
    rcases hds with rfl | ⟨_, _, _, _, hall⟩
    · simp
    · exact hall
  have hsign : (sign negative).countP Char.isDigit = 0 := by cases negative <;> rfl
  rw [List.countP_append, hsign, List.countP_eq_length.mpr hall, Nat.zero_add]

theorem isShort_int (hds : IsWhole ds) (negative isPlain : Bool) (n : Int) :
    (Tree.leaf isPlain (String.ofList (sign negative ++ ds)) (.int n)).isShort =
      decide (ds.length ≤ Decimal.maxIntegerDigits) := by
  rw [Tree.isShort, String.toList_ofList, countP_isDigit_whole hds]

/-- A word is read up to where it ends. -/
theorem value_word {v : Scalar} (hw : Word v w) (hr : Ends r) (fuel depth : Nat) :
    value (fuel + 1) depth (w ++ r) =
      unlessLong (Tree.leaf true (String.ofList w) v).isShort (.scalar v, r) := by
  cases hw with
  | null => rfl
  | yes => rfl
  | no => rfl
  | @int negative ds hds =>
      have hpoint : r.head? ≠ some '.' := by
        intro hc
        rcases hr.head_cases hc with h | h | h | h | h | h <;> cases h
      have hletter : ∀ c, r.head? = some c → c ≠ 'e' ∧ c ≠ 'E' := by
        intro c hc
        rcases hr.head_cases hc with rfl | rfl | rfl | rfl | rfl | rfl <;> decide
      rw [value_number hds, magnitude_whole hds (stopsDigits_of_ends hr), fraction_of_head? hpoint]
      simp only [exponent_of_head? hletter, List.isEmpty_nil, Option.isNone_none, Bool.and_true,
        if_true]
      rw [isShort_int hds, unlessLong]
      by_cases hlong : Decimal.maxIntegerDigits < ds.length
      · rw [if_pos hlong, decide_eq_false (by omega)]
        rfl
      · rw [if_neg hlong, decide_eq_true (by omega)]
        rfl
  | @float negative ds places x e hds hplaces hx =>
      obtain ⟨e?, hexponent, he⟩ := exponent_append hx hr
      have htext : sign negative ++ ds ++ '.' :: places ++ x ++ r =
          sign negative ++ ds ++ '.' :: (places ++ (x ++ r)) := by simp
      rw [htext, value_number hds, magnitude_whole hds (stopsDigits_cons (by decide) _),
        fraction_digits hplaces (stopsDigits_exponent hx hr)]
      simp only [hexponent]
      rw [if_neg (by simp [hplaces.1]), he]
      rfl

-- ============================================================================
-- Strings
-- ============================================================================

/-- The inside of a string is read up to its closing quote. -/
theorem units_codes {us : List Nat} (h : Codes us s r) : units s = some (us, r) := by
  induction h with
  | close => rfl
  | @bare c us s r hc _ ih =>
      simp only [isBare, Bool.and_eq_true, decide_eq_true_eq] at hc
      rw [units.eq_def]
      split
      · next heq => cases heq
      · next heq => exact absurd (List.cons.inj heq).1 hc.1.1.1.1
      · next heq => exact absurd (List.cons.inj heq).1 hc.1.1.1.2
      · next heq => exact absurd (List.cons.inj heq).1 hc.1.1.1.2
      · next heq =>
        cases heq
        have hlow : ¬ c.toNat < 0x20 := by omega
        simp [hc.1.1.1.2, hlow, ih]
  | @escape c e us s r he _ ih =>
      rw [units.eq_def]
      split
      · next heq => cases heq
      · next heq => cases heq
      · next heq =>
        cases heq
        cases he
      · next heq =>
        cases heq
        simp [he, ih]
      · next h heq =>
        cases heq
        exact (h _ _ rfl rfl).elim
  | code hu _ _ ih =>
      rw [units, hu]
      simp [ih]

theorem string_codes {us : List Nat} (h : Codes us s r) : string s = some (textOf us, r) := by
  rw [string, units_codes h]
  rfl

-- ============================================================================
-- Trees
-- ============================================================================

theorem skipSpace_of_startsTree (hc : startsTree c = true) (s : List Char) :
    skipSpace (c :: s) = c :: s := by
  refine skipSpace_cons ?_ s
  by_contra hspace
  simp only [isSpace, Bool.not_eq_false, Bool.or_eq_true, decide_eq_true_eq] at hspace
  rcases hspace with ((rfl | rfl) | rfl) | rfl <;> cases hc

theorem items_congr (h : skipSpace s = skipSpace s') (fuel depth : Nat) (done : List Value) :
    items fuel depth done s = items fuel depth done s' := by
  cases fuel with
  | zero => rfl
  | succ fuel => rw [items, items, value_congr h]

theorem members_congr (h : skipSpace s = skipSpace s') (fuel depth : Nat) (done : Entries) :
    members fuel depth done s = members fuel depth done s' := by
  cases fuel with
  | zero => rfl
  | succ fuel => rw [members, members, h]

theorem skipSpace_skipSpace (s : List Char) : skipSpace (skipSpace s) = skipSpace s :=
  List.dropWhile_idempotent _ _

/-- A bracket opens a list with the items after it, if no bracket closes it at once. -/
theorem value_list (h : ∀ r, skipSpace s ≠ ']' :: r) (fuel depth : Nat) :
    value (fuel + 1) (depth + 1) ('[' :: s) = items fuel depth [] s := by
  rw [value, skipSpace_cons (by decide)]
  simp only
  exact items_congr (skipSpace_skipSpace s) _ _ _

theorem value_map (h : ∀ r, skipSpace s ≠ '}' :: r) (fuel depth : Nat) :
    value (fuel + 1) (depth + 1) ('{' :: s) = members fuel depth [] s := by
  rw [value, skipSpace_cons (by decide)]
  simp only
  exact members_congr (skipSpace_skipSpace s) _ _ _

/-- Where the items of a list begin, no bracket closes the list. -/
theorem skipSpace_ne_of_items {ts : List Tree} (h : Items ts s r) :
    ∀ r, skipSpace s ≠ ']' :: r := by
  have htree : ∀ {t : Tree} {s₁ s₂ : List Char}, Gap s s₁ → Begins t s₁ s₂ →
      ∀ r, skipSpace s ≠ ']' :: r := by
    intro t s₁ s₂ hgap hitem r heq
    obtain ⟨c, cs, rfl, hc⟩ := hitem.exists_cons
    rw [skipSpace_gap hgap, skipSpace_of_startsTree hc] at heq
    rw [(List.cons.inj heq).1] at hc
    cases hc
  cases h with
  | last hgap hitem _ => exact htree hgap hitem
  | cons hgap hitem _ _ => exact htree hgap hitem

/-- Where the members of an object begin, no brace closes the object. -/
theorem skipSpace_ne_of_members {ms : List (String × Tree)} (h : Members ms s r) :
    ∀ r, skipSpace s ≠ '}' :: r := by
  have hquote : ∀ {m : String × Tree} {s₁ s₂ : List Char}, Gap s s₁ → Member m s₁ s₂ →
      ∀ r, skipSpace s ≠ '}' :: r := by
    intro m s₁ s₂ hgap hmember r heq
    cases hmember
    rw [skipSpace_gap hgap, skipSpace_cons (by decide)] at heq
    cases heq
  cases h with
  | last hgap hmember _ => exact hquote hgap hmember
  | cons hgap hmember _ _ => exact hquote hgap hmember

mutual

/-- A tree is read up to where it ends. -/
theorem value_begins {t : Tree} {s r : List Char} (h : Begins t s r) {fuel depth : Nat}
    (hfuel : 2 * s.length ≤ fuel) (hdepth : t.depth ≤ depth) :
    value fuel depth s = unlessLong t.isShort (t.value, r) := by
  obtain ⟨fuel, rfl⟩ : ∃ n, fuel = n + 1 := by
    have hlt := h.length_lt
    exact ⟨fuel - 1, by omega⟩
  cases h with
  | word hw hr => exact value_word hw hr fuel depth
  | string hcodes =>
      rw [value, skipSpace_cons (by decide)]
      simp only [string_codes hcodes]
      rfl
  | emptyList hgap =>
      obtain ⟨depth, rfl⟩ : ∃ n, depth = n + 1 := ⟨depth - 1, by rw [Tree.depth] at hdepth; omega⟩
      rw [value, skipSpace_cons (by decide)]
      simp only [skipSpace_gap hgap, skipSpace_cons (show isSpace ']' = false by decide)]
      rfl
  | emptyMap hgap =>
      obtain ⟨depth, rfl⟩ : ∃ n, depth = n + 1 := ⟨depth - 1, by rw [Tree.depth] at hdepth; omega⟩
      rw [value, skipSpace_cons (by decide)]
      simp only [skipSpace_gap hgap, skipSpace_cons (show isSpace '}' = false by decide)]
      rfl
  | list hitems =>
      rw [Tree.depth] at hdepth
      rw [List.length_cons] at hfuel
      obtain ⟨depth, rfl⟩ : ∃ n, depth = n + 1 := ⟨depth - 1, by omega⟩
      rw [value_list (skipSpace_ne_of_items hitems), items_items hitems [] (by omega) (by omega)]
      rfl
  | map hmembers =>
      rw [Tree.depth] at hdepth
      rw [List.length_cons] at hfuel
      obtain ⟨depth, rfl⟩ : ∃ n, depth = n + 1 := ⟨depth - 1, by omega⟩
      rw [value_map (skipSpace_ne_of_members hmembers),
        members_members hmembers [] (by omega) (by omega)]
      rfl

/-- The items of a list are read up to the closing bracket. -/
theorem items_items {ts : List Tree} {s r : List Char} (h : Items ts s r) {fuel depth : Nat}
    (done : List Value) (hfuel : 2 * s.length + 1 ≤ fuel) (hdepth : Tree.depthItems ts ≤ depth) :
    items fuel depth done s =
      unlessLong (Tree.areShort ts) (.list (done.reverse ++ Tree.values ts), r) := by
  obtain ⟨fuel, rfl⟩ : ∃ n, fuel = n + 1 := ⟨fuel - 1, by omega⟩
  cases h with
  | @last t _ _ _ _ hgap hitem hend =>
      have hle := hgap.length_le
      rw [Tree.depthItems] at hdepth
      rw [items, value_gap hgap, value_begins hitem (by omega) (by omega), Tree.areShort]
      cases t.isShort with
      | false => rfl
      | true =>
        simp only [unlessLong, if_true, skipSpace_gap hend,
          skipSpace_cons (show isSpace ']' = false by decide)]
        simp [Tree.values, Tree.areShort]
  | @cons t _ _ _ _ _ _ hgap hitem hcomma hitems =>
      have hle := hgap.length_le
      have hlt := hitem.length_lt
      have hrest := hcomma.length_le
      rw [List.length_cons] at hrest
      rw [Tree.depthItems] at hdepth
      rw [items, value_gap hgap, value_begins hitem (by omega) (by omega), Tree.areShort]
      cases t.isShort with
      | false => rfl
      | true =>
        simp only [unlessLong, if_true, skipSpace_gap hcomma,
          skipSpace_cons (show isSpace ',' = false by decide)]
        rw [items_items hitems _ (by omega) (by omega)]
        simp [Tree.values, unlessLong]

/-- A member of an object is read: its key, its colon and its value. -/
theorem exists_member {m : String × Tree} {s r : List Char} (h : Member m s r) (fuel depth : Nat)
    (hfuel : 2 * s.length ≤ fuel) (hdepth : m.2.depth ≤ depth) :
    ∃ s₁ s₂ s₃, s = '"' :: s₁ ∧ string s₁ = some (m.1, s₂) ∧ skipSpace s₂ = ':' :: s₃ ∧
      value fuel depth s₃ = unlessLong m.2.isShort (m.2.value, r) := by
  cases h with
  | @mk us t s s₁ r spaces hcodes hspaces _ s₂ hgap hvalue =>
      have hkey := hcodes.length_lt
      have hle := hgap.length_le
      simp only [List.length_append, List.length_cons] at hkey hfuel
      have hcolon : skipSpace (spaces ++ ':' :: s₁) = ':' :: s₁ := by
        have hblank : Gap (spaces ++ ':' :: s₁) (':' :: s₁) :=
          ⟨spaces, rfl, fun c hc => by rw [hspaces c hc]; rfl⟩
        rw [skipSpace_gap hblank, skipSpace_cons (by decide)]
      refine ⟨s, _, s₁, rfl, string_codes hcodes, hcolon, ?_⟩
      rw [value_gap hgap, value_begins hvalue (by omega) hdepth]

/-- The members of an object are read up to the closing brace. -/
theorem members_members {ms : List (String × Tree)} {s r : List Char} (h : Members ms s r)
    {fuel depth : Nat} (done : Entries) (hfuel : 2 * s.length + 1 ≤ fuel)
    (hdepth : Tree.depthMembers ms ≤ depth) :
    members fuel depth done s =
      unlessLong (Tree.membersShort ms) (.map (Tree.entries done ms), r) := by
  obtain ⟨fuel, rfl⟩ : ∃ n, fuel = n + 1 := ⟨fuel - 1, by omega⟩
  cases h with
  | @last m _ s₁ s₂ r hgap hmember hend =>
      obtain ⟨k, t⟩ := m
      have hle := hgap.length_le
      rw [Tree.depthMembers] at hdepth
      obtain ⟨s₁, s₃, s₄, rfl, hkey, hcolon, hvalue⟩ :=
        exists_member hmember fuel depth (by omega) (by simp; omega)
      rw [members, skipSpace_gap hgap, skipSpace_cons (by decide)]
      simp only [hkey, hcolon, hvalue, Tree.membersShort]
      cases t.isShort with
      | false => rfl
      | true =>
        simp only [unlessLong, if_true, skipSpace_gap hend,
          skipSpace_cons (show isSpace '}' = false by decide)]
        rfl
  | @cons m ms _ s₁ s₂ s₃ r hgap hmember hcomma hmembers =>
      obtain ⟨k, t⟩ := m
      have hle := hgap.length_le
      have hlt := hmember.length_lt
      have hrest := hcomma.length_le
      rw [List.length_cons] at hrest
      rw [Tree.depthMembers] at hdepth
      obtain ⟨s₁, s₄, s₅, rfl, hkey, hcolon, hvalue⟩ :=
        exists_member hmember fuel depth (by omega) (by simp; omega)
      rw [members, skipSpace_gap hgap, skipSpace_cons (by decide)]
      simp only [hkey, hcolon, hvalue, Tree.membersShort]
      cases t.isShort with
      | false => rfl
      | true =>
        simp only [unlessLong, if_true, skipSpace_gap hcomma,
          skipSpace_cons (show isSpace ',' = false by decide)]
        rw [members_members hmembers _ (by omega) (by omega)]
        rfl

end

/-- A text that is a tree is read as the value of the tree, if it is not too deep and no integer in
it is too long. -/
theorem read_document {t : Tree} {s : List Char} (h : Document t s) (hdepth : t.depth ≤ maxDepth) :
    read s = unlessLong t.isShort t.value := by
  obtain ⟨s₁, s₂, hgap, htree, hend⟩ := h
  have hle := hgap.length_le
  rw [read, value_gap hgap, value_begins htree (by omega) hdepth]
  cases t.isShort with
  | false => rfl
  | true =>
    simp only [unlessLong, if_true, skipSpace_gap hend]
    rfl

end Flowscript.Json

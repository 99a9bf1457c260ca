/-
  Flowscript.Proofs.NumberLiterals

  Numbers that are not whole, as they are written.

  The shortest digits of a number other than zero do not begin with a zero, since the
  reals that round to it are positive (`shortest_cases`).  So its text is a whole part
  without surplus zeros, with a fraction, an exponent or both (`isFraction_magnitudeText`),
  and that is a decimal (`IsFraction.exists_read?`).
-/
import Flowscript.Proofs.ValueLiterals
import Flowscript.Proofs.WordScalars

namespace Flowscript

open Shared (Exponent IsDigits IsWhole)

variable {ds places x w : List Char} {m n d fuel : Nat} {p q e point : Int}

-- ============================================================================
-- Digits
-- ============================================================================

theorem isDigits_natDigits (n : Nat) : IsDigits (Text.natDigits n) :=
  ⟨Nat.toDigits_ne_nil, fun _ => Text.isDigit_of_mem_natDigits⟩

theorem isWhole_of_head? (hds : IsDigits ds) (hhead : ds.head? ≠ some '0') : IsWhole ds := by
  obtain ⟨hne, hall⟩ := hds
  obtain ⟨c, cs, rfl⟩ := List.exists_cons_of_ne_nil hne
  exact .inr ⟨c, cs, rfl, fun hc => hhead (congrArg some hc), hall⟩

namespace Double

variable {i : Interval}

theorem pos_of_contains (hlow : 0 < i.low) (h : i.contains n = true) : 0 < n := by
  by_contra hn
  obtain rfl : n = 0 := by omega
  rw [Interval.contains] at h
  split at h <;>
  · simp only [Nat.zero_mul, Bool.and_eq_true, decide_eq_true_eq] at h
    omega

theorem pos_of_nearest? (hlow : 0 < i.low) (h : i.nearest? = some n) : 0 < n := by
  unfold Interval.nearest? at h
  simp only at h
  split at h
  · next hfirst _ =>
    have hpos := pos_of_contains hlow hfirst
    split at h
    · cases h
      exact hpos
    · split at h
      · cases h
        exact Nat.succ_pos _
      · split at h
        · cases h
          exact hpos
        · cases h
          exact Nat.succ_pos _
  · next hfirst _ =>
    cases h
    exact pos_of_contains hlow hfirst
  · cases h
    exact Nat.succ_pos _
  · cases h

/-- The reals that round to a positive number are positive. -/
theorem low_of_pos (hm : 0 < m) (q : Int) : 0 < (Interval.of m q).low := by
  have hunit : 0 < Nat.pow 2 q.toNat := Nat.pow_pos (by decide)
  have hvalue : Nat.pow 2 q.toNat ≤ m * Nat.pow 2 q.toNat := Nat.le_mul_of_pos_left _ hm
  unfold Interval.of
  simp only [Nat.mul_assoc]
  split <;> omega

theorem low_inUnits (hlow : 0 < i.low) (p : Int) : 0 < (i.inUnits p).low := by
  unfold Interval.inUnits
  split
  · exact hlow
  · exact Nat.mul_pos hlow (Nat.pow_pos (by decide))

theorem dropZeros_pos (hd : 0 < d) : 0 < (dropZeros fuel d p).1 := by
  induction fuel generalizing d p with
  | zero => exact hd
  | succ fuel ih =>
      rw [dropZeros]
      split
      · next h =>
        rw [Bool.and_eq_true, decide_eq_true_eq] at h
        exact ih (by omega)
      · exact hd

/-- Digits were found, and they are not zero; or none were. -/
theorem shortest_cases (hm : 0 < m) (q : Int) : 0 < (shortest m q).1 ∨ shortest m q = (0, 0) := by
  unfold shortest
  simp only
  split
  · next digits place hhit =>
    obtain ⟨n, -, hn⟩ := List.exists_of_findSome?_eq_some hhit
    obtain ⟨found, hfound, heq⟩ := Option.map_eq_some_iff.mp hn
    cases heq
    exact .inl (dropZeros_pos (pos_of_nearest? (low_inUnits (low_of_pos hm q) _) hfound))
  · exact .inr rfl

end Double

-- ============================================================================
-- Texts
-- ============================================================================

/-- The text of a number, without its sign, with a fraction, an exponent or both. -/
inductive IsFraction : List Char → Prop
  | point {e : Int} {ds places x : List Char} : IsWhole ds → IsDigits places → Exponent e x →
      IsFraction (ds ++ '.' :: places ++ x)
  | exponent {e : Int} {ds x : List Char} : IsWhole ds → Exponent e x → x ≠ [] →
      IsFraction (ds ++ x)

namespace Double

theorem isDigit_of_mem_zeros {c : Char} (h : c ∈ List.replicate n '0') : c.isDigit = true := by
  rw [(List.mem_replicate.mp h).2]
  rfl

theorem isDigits_zeros_append (n : Nat) (hds : IsDigits ds) :
    IsDigits (List.replicate n '0' ++ ds) := by
  refine ⟨by simp [hds.1], fun c hc => ?_⟩
  rcases List.mem_append.mp hc with hc | hc
  · exact isDigit_of_mem_zeros hc
  · exact hds.2 c hc

theorem isDigits_append_zeros (hds : IsDigits ds) (n : Nat) :
    IsDigits (ds ++ List.replicate n '0') := by
  refine ⟨by simp [hds.1], fun c hc => ?_⟩
  rcases List.mem_append.mp hc with hc | hc
  · exact hds.2 c hc
  · exact isDigit_of_mem_zeros hc

theorem isFraction_positional (hds : IsDigits ds) (hhead : ds.head? ≠ some '0') (point : Int) :
    IsFraction (positional ds point) := by
  have hpoint : ∀ {ds places : List Char}, IsWhole ds → IsDigits places →
      IsFraction (ds ++ '.' :: places) := fun hwhole hplaces => by
    have hfraction := IsFraction.point hwhole hplaces .absent
    rwa [List.append_nil] at hfraction
  unfold positional
  split
  · exact hpoint (.inl rfl) (isDigits_zeros_append _ hds)
  · split
    · have hzeros := isDigits_append_zeros hds (point.toNat - ds.length)
      refine hpoint (isWhole_of_head? hzeros ?_) ⟨by simp, List.all_eq_true.mp (by decide)⟩
      rwa [List.head?_append_of_ne_nil _ hds.1]
    · -- both sides of the point have digits
      have htake : IsDigits (ds.take point.toNat) := by
        refine ⟨?_, fun c hc => hds.2 c (List.mem_of_mem_take hc)⟩
        rw [Ne, List.take_eq_nil_iff]
        rintro (h | h)
        · omega
        · exact hds.1 h
      refine hpoint (isWhole_of_head? htake ?_) ⟨?_, fun c hc => hds.2 c (List.mem_of_mem_drop hc)⟩
      · rwa [List.head?_take, if_neg (by omega)]
      · rw [Ne, List.drop_eq_nil_iff]
        omega

theorem isFraction_scientific (hds : IsDigits ds) (hhead : ds.head? ≠ some '0') (e : Int) :
    IsFraction (scientific ds e) := by
  have hpadded : IsDigits (if (Text.natDigits e.natAbs).length < 2 then
      '0' :: Text.natDigits e.natAbs else Text.natDigits e.natAbs) := by
    split
    · exact isDigits_zeros_append 1 (isDigits_natDigits _)
    · exact isDigits_natDigits _
  unfold scientific
  simp only
  generalize (if (Text.natDigits e.natAbs).length < 2 then
    '0' :: Text.natDigits e.natAbs else Text.natDigits e.natAbs) = padded at hpadded
  obtain ⟨e', hexponent⟩ : ∃ e', Exponent e' ('e' :: (if e < 0 then '-' else '+') :: padded) := by
    split
    · exact ⟨_, .minus (.inl rfl) hpadded⟩
    · exact ⟨_, .plus (.inl rfl) hpadded⟩
  obtain ⟨hne, hall⟩ := hds
  obtain ⟨c, cs, rfl⟩ := List.exists_cons_of_ne_nil hne
  have hfirst : IsWhole [c] := isWhole_of_head?
    ⟨by simp, fun d hd => hall d (by rw [List.mem_singleton.mp hd]; exact List.mem_cons_self)⟩ hhead
  cases cs with
  | nil => exact .exponent hfirst hexponent (by simp)
  | cons c' cs =>
      exact .point hfirst ⟨by simp, fun d hd => hall d (List.mem_cons_of_mem c hd)⟩ hexponent

/-- A number other than zero has a text with a fraction or an exponent. -/
theorem isFraction_magnitudeText (hm : 0 < m) (q : Int) : IsFraction (magnitudeText m q) := by
  rcases shortest_cases hm q with hpos | hnone
  · have hds := isDigits_natDigits (shortest m q).1
    have hhead := Script.head?_natDigits hpos
    unfold magnitudeText
    simp only
    split
    · exact isFraction_positional hds hhead _
    · exact isFraction_scientific hds hhead _
  · have hzero : magnitudeText m q = ['0'] ++ '.' :: ['0'] ++ [] := by
      rw [magnitudeText, hnone]
      rfl
    rw [hzero]
    exact .point (.inl rfl) ⟨by simp, List.all_eq_true.mp (by decide)⟩ .absent

/-- A finite number has a sign and a text with a fraction or an exponent. -/
theorem exists_chars_finite (negative : Bool) (m : Nat) (q : Int) :
    ∃ w, IsFraction w ∧ chars (.finite negative m q) = Shared.sign negative ++ w := by
  by_cases hm : m = 0
  · have hzero : IsDigits ['0'] := ⟨by simp, List.all_eq_true.mp (by decide)⟩
    refine ⟨['0'] ++ '.' :: ['0'] ++ [], .point (.inl rfl) hzero .absent, ?_⟩
    rw [chars, if_pos hm]
    rfl
  · refine ⟨magnitudeText m q, isFraction_magnitudeText (Nat.pos_of_ne_zero hm) q, ?_⟩
    rw [chars, if_neg hm]
    rfl

end Double

-- ============================================================================
-- Decimals
-- ============================================================================

theorem decimalRead?_exponent (hds : IsDigits ds) (hx : Exponent e x) :
    Decimal.read? (ds ++ x) = some { digits := digitsValue ds, exponent := e } := by
  have hempty : ds.isEmpty = false := by simpa using hds.1
  rw [Decimal.read?, Yaml.span_digits_exponent hx hds.2]
  cases hx with
  | absent => simp [hempty]
  | minus he hds' => rcases he with rfl | rfl <;> simp [hempty, Json.readExponent?_digits hds']
  | plus he hds' => rcases he with rfl | rfl <;> simp [hempty, Json.readExponent?_digits hds']

/-- A number with a fraction or an exponent is a decimal. -/
theorem IsFraction.exists_read? (h : IsFraction w) : ∃ d, Decimal.read? w = some d := by
  cases h with
  | point hds hplaces hx =>
      exact ⟨_, Yaml.decimalRead?_fraction (isDigits_of_isWhole hds) hplaces hx⟩
  | exponent hds hx _ => exact ⟨_, decimalRead?_exponent (isDigits_of_isWhole hds) hx⟩

end Flowscript

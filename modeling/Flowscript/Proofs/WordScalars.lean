/-
  Flowscript.Proofs.WordScalars

  The words of JSON as scalars of YAML.

  A word has the form of the type it belongs to, since a fraction stands before every
  exponent and the exponent has a sign, and no integer starts with a zero that would make
  it octal.  Its text has the value of that type which the word stands for:
    * digits are read one by one, in base ten;
    * a number with a fraction is read without its sign, which is put back at the end.
-/
import Flowscript.Proofs.JsonReading
import Flowscript.Proofs.Words
import Flowscript.Yaml.Scalar

namespace Flowscript

open Shared

variable {s r w ds places x : List Char} {c : Char}

-- ============================================================================
-- Characters of numbers
-- ============================================================================

/-- A character of a number in decimal. -/
def isNumeral (c : Char) : Bool :=
  c.isDigit || c = '-' || c = '+' || c = '.' || c = 'e' || c = 'E'

theorem toNat_of_isDigit (h : c.isDigit = true) : 48 ≤ c.toNat ∧ c.toNat ≤ 57 := by
  have h : (decide (48 ≤ c.val) && decide (c.val ≤ 57)) = true := h
  rw [Bool.and_eq_true, decide_eq_true_eq, decide_eq_true_eq] at h
  exact ⟨UInt32.le_iff_toNat_le.mp h.1, UInt32.le_iff_toNat_le.mp h.2⟩

theorem isNumeral_of_isDigit (h : c.isDigit = true) : isNumeral c = true := by simp [isNumeral, h]

/-- What holds for all digits and for the other characters of numbers holds for all of them. -/
theorem isNumeral_induction {p : Char → Prop} (hdigit : ∀ c, 48 ≤ c.toNat → c.toNat ≤ 57 → p c)
    (hminus : p '-') (hplus : p '+') (hpoint : p '.') (hsmall : p 'e') (hcapital : p 'E')
    (hc : isNumeral c = true) : p c := by
  simp only [isNumeral, Bool.or_eq_true, decide_eq_true_eq] at hc
  rcases hc with ((((hc | rfl) | rfl) | rfl) | rfl) | rfl
  · exact hdigit c (toNat_of_isDigit hc).1 (toNat_of_isDigit hc).2
  all_goals assumption

theorem ne_of_isNumeral {d : Char} (hd : isNumeral d = false) (hc : isNumeral c = true) :
    c ≠ d := by
  rintro rfl
  rw [hc] at hd
  cases hd

theorem toNat_lt_of_isNumeral (hc : isNumeral c = true) : c.toNat < 128 := by
  refine isNumeral_induction (p := fun c => c.toNat < 128) ?_ ?_ ?_ ?_ ?_ ?_ hc
  · intro c _ h
    omega
  all_goals decide

theorem isNumberBlank_of_isNumeral (hc : isNumeral c = true) : Double.isNumberBlank c = false := by
  refine isNumeral_induction (p := fun c => Double.isNumberBlank c = false) ?_ ?_ ?_ ?_ ?_ ?_ hc
  · intro c hlow hhigh
    have hblank : Text.isBlank c = false := by
      simp only [Text.isBlank, Bool.or_eq_false_iff, Bool.and_eq_false_iff, decide_eq_false_iff_not,
        beq_eq_false_iff_ne]
      omega
    simp [Double.isNumberBlank, hblank]
  all_goals decide

theorem asciiDigit_of_toNat_lt (hc : c.toNat < 128) : Double.asciiDigit c = c := by
  unfold Double.asciiDigit Text.digitValue?
  rw [if_pos hc]
  by_cases h : c.isDigit = true
  · have hrange := toNat_of_isDigit h
    simp only [h, if_true]
    rw [show 48 + (c.toNat - 48) = c.toNat by omega, Char.ofNat_toNat]
  · simp [h]

theorem toLower_of_isDigit (h : c.isDigit = true) : c.toLower = c := by
  refine dif_neg fun hupper => ?_
  have hlow : 65 ≤ c.toNat := UInt32.le_iff_toNat_le.mp hupper.1
  have hrange := toNat_of_isDigit h
  omega

-- ============================================================================
-- Texts of numbers
-- ============================================================================

/-- Every character belongs to a number. -/
def IsNumeric (s : List Char) : Prop := ∀ c ∈ s, isNumeral c = true

theorem IsNumeric.not_mem (h : IsNumeric s) {d : Char} (hd : isNumeral d = false) : d ∉ s := by
  intro hmem
  exact ne_of_isNumeral hd (h d hmem) rfl

theorem isNumeric_append (hs : IsNumeric s) (hr : IsNumeric r) : IsNumeric (s ++ r) := by
  intro c hc
  rcases List.mem_append.mp hc with hc | hc
  · exact hs c hc
  · exact hr c hc

theorem isNumeric_of_digits (h : ∀ d ∈ ds, d.isDigit = true) : IsNumeric ds := fun d hd =>
  isNumeral_of_isDigit (h d hd)

theorem isNumeric_sign (negative : Bool) : IsNumeric (sign negative) := by
  intro c hc
  cases negative with
  | true =>
      rw [List.eq_of_mem_singleton hc]
      decide
  | false => cases hc

theorem isDigits_of_isWhole (h : IsWhole ds) : IsDigits ds := by
  rcases h with rfl | ⟨d, ds, rfl, -, h⟩
  · exact ⟨List.cons_ne_nil _ _, fun d hd => by rw [List.eq_of_mem_singleton hd]; decide⟩
  · exact ⟨List.cons_ne_nil d ds, h⟩

theorem Shared.Exponent.isNumeric {e : Int} (h : Exponent e x) : IsNumeric x := by
  have hparts : ∀ {a b : Char} {ds : List Char}, isNumeral a = true → isNumeral b = true →
      IsDigits ds → IsNumeric (a :: b :: ds) := by
    intro a b ds ha hb hds c hc
    rcases List.mem_cons.mp hc with rfl | hc
    · exact ha
    rcases List.mem_cons.mp hc with rfl | hc
    · exact hb
    · exact isNumeric_of_digits hds.2 c hc
  cases h with
  | absent => exact fun _ h => absurd h List.not_mem_nil
  | minus he hds => rcases he with rfl | rfl <;> exact hparts (by decide) (by decide) hds
  | plus he hds => rcases he with rfl | rfl <;> exact hparts (by decide) (by decide) hds

/-- A number without underscores. -/
theorem dropUnderscores_of_isNumeric (h : IsNumeric s) : Yaml.dropUnderscores s = s :=
  List.filter_eq_self.mpr fun c hc => by
    simpa using ne_of_isNumeral (show isNumeral '_' = false by decide) (h c hc)

theorem dropWhile_of_isNumeric (h : IsNumeric s) : s.dropWhile Double.isNumberBlank = s := by
  cases s with
  | nil => rfl
  | cons c s => rw [List.dropWhile_cons, isNumberBlank_of_isNumeral (h c List.mem_cons_self),
      if_neg (by simp)]

/-- No white space is around a number, and its digits are those of ASCII. -/
theorem core_of_isNumeric (h : IsNumeric s) :
    (Text.dropEndWhile Double.isNumberBlank (s.dropWhile Double.isNumberBlank)).map
      Double.asciiDigit = s := by
  have hreverse : IsNumeric s.reverse := fun c hc => h c (List.mem_reverse.mp hc)
  rw [dropWhile_of_isNumeric h, Text.dropEndWhile, dropWhile_of_isNumeric hreverse,
    List.reverse_reverse]
  exact (List.map_congr_left fun c hc =>
    asciiDigit_of_toNat_lt (toNat_lt_of_isNumeral (h c hc))).trans (List.map_id s)

theorem joinDigits?_of_isNumeric (h : IsNumeric s) (afterDigit : Bool) :
    Double.joinDigits? afterDigit s = some s := by
  induction s generalizing afterDigit with
  | nil => rfl
  | cons c s ih =>
      have hne := ne_of_isNumeral (show isNumeral '_' = false by decide) (h c List.mem_cons_self)
      rw [Double.joinDigits?, if_neg hne, ih fun d hd => h d (List.mem_cons_of_mem c hd)]
      · rfl
      · rintro d rest rfl
        exact absurd rfl hne

/-- Lower case of a text in ASCII. -/
theorem lower_of_ascii (h : ∀ c ∈ s, c.toNat < 128) : Text.lower s = s.map Char.toLower := by
  have hfrom : ∀ before, Text.lowerFrom before s = s.map Char.toLower := by
    induction s with
    | nil => exact fun _ => rfl
    | cons c s ih =>
        intro before
        have hc := h c List.mem_cons_self
        rw [Text.lowerFrom, if_neg (by omega), Text.lowerChar, if_pos hc,
          ih fun d hd => h d (List.mem_cons_of_mem c hd)]
        rfl
  exact hfrom []

theorem map_toLower_digits (h : ∀ d ∈ ds, d.isDigit = true) : ds.map Char.toLower = ds :=
  (List.map_congr_left fun d hd => toLower_of_isDigit (h d hd)).trans (List.map_id ds)

/-- An exponent in lower case. -/
theorem Shared.Exponent.map_toLower {e : Int} (h : Exponent e x) :
    Exponent e (x.map Char.toLower) := by
  cases h with
  | absent => exact .absent
  | minus he hds =>
      rcases he with rfl | rfl <;>
        simpa [map_toLower_digits hds.2] using Exponent.minus (.inl rfl) hds
  | plus he hds =>
      rcases he with rfl | rfl <;>
        simpa [map_toLower_digits hds.2] using Exponent.plus (.inl rfl) hds

-- ============================================================================
-- Integers
-- ============================================================================

namespace Yaml

/-- Digits are read one by one, if they are not too many. -/
theorem natIn?_digits (hds : IsDigits ds) :
    natIn? 10 ds =
      if ds.length ≤ Decimal.maxIntegerDigits then some (digitsValue ds) else none := by
  have hfold : ∀ {ds : List Char} (n : Nat), (∀ d ∈ ds, d.isDigit = true) →
      ds.foldlM (fun n c => (digitIn? 10 c).map fun d => 10 * n + d) n =
        some (ds.foldl (fun n d => 10 * n + (d.toNat - 48)) n) := by
    intro ds
    induction ds with
    | nil => exact fun _ _ => rfl
    | cons d ds ih =>
        intro n h
        have hd := h d List.mem_cons_self
        have hrange := toNat_of_isDigit hd
        have hvalue : digitIn? 10 d = some (d.toNat - 48) := by
          rw [digitIn?]
          simp only [hd, if_true]
          rw [Option.filter_some, if_pos (by simpa using (by omega : d.toNat - 48 < 10))]
        rw [List.foldlM_cons, hvalue, List.foldl_cons]
        exact ih _ fun c hc => h c (List.mem_cons_of_mem d hc)
  have hempty : ds.isEmpty = false := by simpa using hds.1
  rw [natIn?]
  by_cases hlong : Decimal.maxIntegerDigits < ds.length
  · rw [if_pos (by simpa [hempty] using hlong), if_neg (by omega)]
  · rw [if_neg (by simpa [hempty] using Nat.le_of_not_lt hlong), if_pos (by omega)]
    exact hfold 0 hds.2

/-- Digits are read in base ten if no zero is in front of others. -/
theorem unsignedInt?_whole (hds : IsWhole ds) :
    unsignedInt? ds =
      if ds.length ≤ Decimal.maxIntegerDigits then some (digitsValue ds : Int) else none := by
  have hnumeric := isNumeric_of_digits (isDigits_of_isWhole hds).2
  rcases hds with rfl | ⟨d, cs, rfl, hd, hall⟩
  · rfl
  have hcolon : (d :: cs).contains ':' = false := by
    simpa using hnumeric.not_mem (show isNumeral ':' = false by decide)
  have hsign := Json.ne_sign_of_isDigit (hall d List.mem_cons_self)
  have hbase : dropBase 10 (d :: cs) = d :: cs := by
    unfold dropBase
    split
    · simp
    · rfl
  have hint : intIn? 10 (d :: cs) = (natIn? 10 (d :: cs)).map fun n => (n : Int) := by
    rw [intIn?]
    simp only [core_of_isNumeric hnumeric]
    split
    · next heq => exact absurd (List.cons.inj heq).1 hsign.1
    · next heq => exact absurd (List.cons.inj heq).1 hsign.2
    · rw [hbase]
  unfold unsignedInt?
  split
  · next heq => exact absurd (List.cons.inj heq).1 hd
  · next heq => exact absurd (List.cons.inj heq).1 hd
  · next heq => exact absurd (List.cons.inj heq).1 hd
  · rw [if_neg (by rw [hcolon]; exact Bool.false_ne_true), hint,
      natIn?_digits ⟨List.cons_ne_nil d cs, hall⟩]
    split <;> rfl

theorem unsigned_sign_append (hds : IsWhole ds) (negative : Bool) (s : List Char) :
    Tag.unsigned (sign negative ++ ds ++ s) = ds ++ s := by
  cases negative with
  | true => rfl
  | false =>
      obtain ⟨d, cs, rfl, hd⟩ := hds.exists_cons
      have hsign := Json.ne_sign_of_isDigit hd
      unfold Tag.unsigned
      split
      · next heq => exact absurd (List.cons.inj heq).1 hsign.1
      · next heq => exact absurd (List.cons.inj heq).1 hsign.2
      · rfl

theorem head?_sign_append (hds : IsWhole ds) (negative : Bool) (s : List Char) :
    ((sign negative ++ ds ++ s).head? = some '-') ↔ negative = true := by
  cases negative with
  | true => simp [sign]
  | false =>
      obtain ⟨d, cs, rfl, hd⟩ := hds.exists_cons
      simpa [sign] using (Json.ne_sign_of_isDigit hd).1

/-- The value of an integer without zeros in front. -/
theorem intValue_whole (hds : IsWhole ds) (negative : Bool) :
    intValue (String.ofList (sign negative ++ ds)) =
      if ds.length ≤ Decimal.maxIntegerDigits then
        .ok (if negative then -(digitsValue ds : Int) else digitsValue ds)
      else .error (.badNumber (String.ofList (sign negative ++ ds))) := by
  have hnumeric := isNumeric_append (isNumeric_sign negative)
    (isNumeric_of_digits (isDigits_of_isWhole hds).2)
  have hunsigned := unsigned_sign_append hds negative []
  have hhead := head?_sign_append hds negative []
  obtain ⟨d, cs, rfl, -⟩ := hds.exists_cons
  rw [List.append_nil, List.append_nil] at hunsigned
  rw [List.append_nil] at hhead
  rw [intValue, String.toList_ofList, dropUnderscores_of_isNumeric hnumeric]
  simp only [hunsigned, unsignedInt?_whole hds, hhead]
  by_cases hlong : (d :: cs).length ≤ Decimal.maxIntegerDigits
  · simp only [if_pos hlong]
  · simp only [if_neg hlong]

-- ============================================================================
-- Numbers with a fraction
-- ============================================================================

/-- The sign of a number is no matter for its nearest neighbour. -/
theorem neg_ofDecimal (digits : Nat) (e : Int) :
    (Double.ofDecimal false digits e).neg = Double.ofDecimal true digits e := by
  have hratio : ∀ num den, (Double.ofRatio false num den).neg = Double.ofRatio true num den := by
    intro num den
    unfold Double.ofRatio
    simp only [apply_ite Double.neg]
    rfl
  unfold Double.ofDecimal
  simp only [apply_ite Double.neg, hratio]
  rfl

theorem span_digits_exponent {e : Int} (hx : Exponent e x) (hds : ∀ d ∈ ds, d.isDigit = true) :
    (ds ++ x).span Char.isDigit = (ds, x) := by
  refine Json.span_digits hds ?_
  have hstop := Json.stopsDigits_exponent hx (show Ends [] from fun _ h => by cases h)
  rwa [List.append_nil] at hstop

/-- Digits with a point among them are read with the exponent after them. -/
theorem decimalRead?_fraction {e : Int} (hds : IsDigits ds) (hplaces : IsDigits places)
    (hx : Exponent e x) :
    Decimal.read? (ds ++ '.' :: places ++ x) =
      some { digits := digitsValue (ds ++ places), exponent := e - places.length } := by
  have hwhole : (ds ++ '.' :: (places ++ x)).span Char.isDigit = (ds, '.' :: (places ++ x)) :=
    Json.span_digits hds.2 (Json.stopsDigits_cons (by decide) _)
  have hempty : ds.isEmpty = false := by simpa using hds.1
  have hletter : ∀ {a : Char}, a = 'e' ∨ a = 'E' → (a = 'e' || a = 'E') = true := by
    intro a ha
    simpa using ha
  rw [List.append_assoc, List.cons_append, Decimal.read?, hwhole]
  simp only [span_digits_exponent hx hplaces.2, hempty, Bool.false_and, Bool.false_eq_true,
    if_false]
  cases hx with
  | absent => rfl
  | minus he hds =>
      simp only [hletter he, if_true, (Json.readExponent?_digits hds).2.1, Option.map_some]
  | plus he hds =>
      simp only [hletter he, if_true, (Json.readExponent?_digits hds).2.2, Option.map_some]

theorem isNumeric_fraction {e : Int} (hds : IsDigits ds) (hplaces : IsDigits places)
    (hx : Exponent e x) : IsNumeric (ds ++ '.' :: places ++ x) := by
  refine isNumeric_append (isNumeric_append (isNumeric_of_digits hds.2) ?_) hx.isNumeric
  intro c hc
  rcases List.mem_cons.mp hc with rfl | hc
  · decide
  · exact isNumeric_of_digits hplaces.2 c hc

/-- A text that starts with a digit is no word. -/
theorem ne_of_head?_isDigit (hs : s.head?.any Char.isDigit = true)
    (hw : w.head?.any Char.isDigit = false) : s ≠ w := by
  rintro rfl
  rw [hs] at hw
  cases hw

/-- A number with a fraction is no other kind of number. -/
theorem unsignedFloat?_fraction {e : Int} (hds : IsDigits ds) (hplaces : IsDigits places)
    (hx : Exponent e x) :
    unsignedFloat? (ds ++ '.' :: places ++ x) =
      some (.ofDecimal false (digitsValue (ds ++ places)) (e - places.length)) := by
  have hnumeric := isNumeric_fraction hds hplaces hx
  have hread := decimalRead?_fraction hds hplaces hx
  obtain ⟨d, cs, rfl⟩ := List.exists_cons_of_ne_nil hds.1
  have hd := hds.2 d List.mem_cons_self
  have hsign := Json.ne_sign_of_isDigit hd
  generalize htext : d :: cs ++ '.' :: places ++ x = text at hnumeric hread ⊢
  have hhead : text.head? = some d := by rw [← htext]; rfl
  have hdigit : text.head?.any Char.isDigit = true := by rw [hhead]; exact hd
  have hsmall : (text.map Char.toLower).head?.any Char.isDigit = true := by
    rw [List.head?_map, hhead, Option.map_some, toLower_of_isDigit hd]
    exact hd
  have hcolon : text.contains ':' = false := by
    simpa using hnumeric.not_mem (show isNumeral ':' = false by decide)
  have hmagnitude : Double.readMagnitude? false text =
      some (.ofDecimal false (digitsValue (d :: cs ++ places)) (e - places.length)) := by
    unfold Double.readMagnitude?
    simp only [ne_of_head?_isDigit hsmall (w := ['n', 'a', 'n']) (by decide),
      ne_of_head?_isDigit hsmall (w := ['i', 'n', 'f']) (by decide),
      ne_of_head?_isDigit hsmall (w := "infinity".toList) (by decide), if_false, decide_false,
      Bool.or_self, Bool.false_eq_true, hread, Option.map_some]
  rw [unsignedFloat?, if_neg (ne_of_head?_isDigit hdigit (by decide)),
    if_neg (ne_of_head?_isDigit hdigit (by decide)),
    if_neg (by rw [hcolon]; exact Bool.false_ne_true), Double.read?]
  simp only [core_of_isNumeric hnumeric, joinDigits?_of_isNumeric hnumeric]
  split
  · next heq =>
    rw [Option.some.inj heq] at hhead
    exact absurd (Option.some.inj hhead).symm hsign.1
  · next heq =>
    rw [Option.some.inj heq] at hhead
    exact absurd (Option.some.inj hhead).symm hsign.2
  · next heq =>
    rw [← Option.some.inj heq]
    exact hmagnitude
  · next heq => cases heq

/-- The value of a number with a fraction. -/
theorem floatValue_fraction {e : Int} (hds : IsWhole ds) (hplaces : IsDigits places)
    (hx : Exponent e x) (negative : Bool) :
    floatValue (String.ofList (sign negative ++ ds ++ '.' :: places ++ x)) =
      .ok (.ofDecimal negative (digitsValue (ds ++ places)) (e - places.length)) := by
  have hdigits := isDigits_of_isWhole hds
  have hnumeric : IsNumeric (sign negative ++ ds ++ '.' :: places ++ x) := by
    have hparts := isNumeric_append (isNumeric_sign negative)
      (isNumeric_fraction hdigits hplaces hx)
    simpa using hparts
  have hlower : Text.lower (sign negative ++ ds ++ '.' :: places ++ x) =
      sign negative ++ ds ++ ('.' :: places ++ x.map Char.toLower) := by
    rw [lower_of_ascii fun c hc => toNat_lt_of_isNumeral (hnumeric c hc)]
    have hsign : (sign negative).map Char.toLower = sign negative := by cases negative <;> rfl
    have hpoint : '.'.toLower = '.' := by decide
    simp [hsign, hpoint, map_toLower_digits hdigits.2, map_toLower_digits hplaces.2]
  have hvalue := unsignedFloat?_fraction hdigits hplaces hx.map_toLower
  rw [List.append_assoc] at hvalue
  rw [floatValue, String.toList_ofList, dropUnderscores_of_isNumeric hnumeric, hlower]
  obtain ⟨c, cs, htext⟩ : ∃ c cs,
      sign negative ++ ds ++ ('.' :: places ++ x.map Char.toLower) = c :: cs :=
    List.exists_cons_of_ne_nil (by simp)
  rw [htext]
  simp only
  rw [← htext, unsigned_sign_append hds, hvalue]
  simp only [head?_sign_append hds]
  cases negative with
  | true => rw [if_pos rfl, neg_ofDecimal]
  | false => rfl

-- ============================================================================
-- Types
-- ============================================================================

/-- The type of a scalar that is written without a tag. -/
def Tag.ofScalar : Scalar → Tag
  | .null => .null
  | .bool _ => .bool
  | .int _ => .int
  | .float _ => .float
  | _ => .str

namespace Tag

theorem isDigits_of_digits (hds : Shared.IsDigits ds) : isDigits ds = true := by
  obtain ⟨d, cs, rfl⟩ := List.exists_cons_of_ne_nil hds.1
  rw [isDigits, hds.2 d List.mem_cons_self, Bool.true_and]
  refine List.all_eq_true.mpr fun c hc => ?_
  rw [hds.2 c (List.mem_cons_of_mem d hc), Bool.true_or]

theorem isExponent_of_exponent {e : Int} (hx : Exponent e x) : isExponent x = true := by
  have hend : ∀ {ds : List Char}, Shared.IsDigits ds →
      ds.isEmpty = false ∧ ds.all Char.isDigit = true := fun hds =>
    ⟨List.isEmpty_eq_false_iff.mpr hds.1, List.all_eq_true.mpr hds.2⟩
  cases hx with
  | absent => rfl
  | minus he hds => simp [isExponent, he, hend hds]
  | plus he hds => simp [isExponent, he, hend hds]

/-- Digits before an exponent. -/
theorem isFraction_append {e : Int} (hplaces : ∀ d ∈ places, d.isDigit = true)
    (hx : Exponent e x) : isFraction (places ++ x) = true := by
  have hall : ∀ d ∈ places, (d.isDigit || d = '_') = true := fun d hd => by
    rw [hplaces d hd, Bool.true_or]
  have hstop : x.dropWhile (fun c => c.isDigit || c = '_') = x := by
    cases hx with
    | absent => rfl
    | minus he _ => rcases he with rfl | rfl <;> rfl
    | plus he _ => rcases he with rfl | rfl <;> rfl
  rw [isFraction, List.dropWhile_append_of_pos hall, hstop, isExponent_of_exponent hx]

/-- The words for true and false start with letters, which come after the digits. -/
theorem isBoolText_ofList (hs : s.head?.any (fun c => 57 < c.toNat) = false) :
    isBoolText (String.ofList s) = false := by
  rw [Bool.eq_false_iff]
  intro h
  have hmem := of_decide_eq_true h
  have hletter := List.all_eq_true (p := fun t : String => t.toList.head?.any fun c => 57 < c.toNat)
    |>.mp (by decide) _ hmem
  rw [String.toList_ofList, hs] at hletter
  cases hletter

theorem head?_number (hds : IsWhole ds) (negative : Bool) (s : List Char) :
    (sign negative ++ ds ++ s).head?.any (fun c => 57 < c.toNat) = false := by
  cases negative with
  | true => rfl
  | false =>
      obtain ⟨d, cs, rfl, hd⟩ := hds.exists_cons
      simpa [sign] using (toNat_of_isDigit hd).2

/-- A text without line feeds is taken as it is. -/
theorem ofPlain_ofList (hs : '\n' ∉ s) : ofPlain (String.ofList s) = ofForm (String.ofList s) := by
  have hne : String.ofList s ≠ "\n" := by
    intro h
    refine hs ?_
    rw [← String.toList_ofList (l := s), h]
    decide
  have hlast : s.getLast? ≠ some '\n' := fun h => hs (List.mem_of_getLast? h)
  rw [ofPlain, if_neg hne, String.toList_ofList, Text.dropFinalNewline, if_neg hlast]

/-- A whole number has the form of an integer. -/
theorem ofForm_whole (hds : IsWhole ds) (negative : Bool) :
    ofForm (String.ofList (sign negative ++ ds)) = .int := by
  have hhead := head?_number hds negative []
  have hunsigned := unsigned_sign_append hds negative []
  rw [List.append_nil] at hhead
  rw [List.append_nil, List.append_nil] at hunsigned
  have hpoint : '.' ∉ ds := by
    intro hmem
    cases (isDigits_of_isWhole hds).2 '.' hmem
  have hfloat : isFloatText (sign negative ++ ds) = false := by
    rw [isFloatText, hunsigned, Text.cutAt_of_not_mem hpoint]
  have hint : isIntText (sign negative ++ ds) = true := by
    rw [isIntText, hunsigned]
    rcases hds with rfl | ⟨d, cs, rfl, hd, hall⟩
    · rfl
    · split
      · rfl
      · next heq => exact absurd (List.cons.inj heq).1 hd
      · next heq => exact absurd (List.cons.inj heq).1 hd
      · next heq => exact absurd (List.cons.inj heq).1 hd
      · rw [isDigits_of_digits ⟨List.cons_ne_nil d cs, hall⟩, Bool.true_or]
  rw [ofForm, isBoolText_ofList hhead]
  simp only [String.toList_ofList, hfloat, hint, Bool.false_eq_true, if_false, if_true]

/-- A number with a fraction and an exponent that has a sign has the form of a float. -/
theorem ofForm_fraction {e : Int} (hds : IsWhole ds) (hplaces : Shared.IsDigits places)
    (hx : Exponent e x) (negative : Bool) :
    ofForm (String.ofList (sign negative ++ ds ++ '.' :: places ++ x)) = .float := by
  have hhead := head?_number hds negative ('.' :: places ++ x)
  have hunsigned := unsigned_sign_append hds negative ('.' :: places ++ x)
  rw [← List.append_assoc] at hhead hunsigned
  have hpoint : '.' ∉ ds := by
    intro hmem
    cases (isDigits_of_isWhole hds).2 '.' hmem
  have hdigits := isDigits_of_digits (isDigits_of_isWhole hds)
  have hfloat : isFloatText (sign negative ++ ds ++ '.' :: places ++ x) = true := by
    have hcut : Text.cutAt '.' (ds ++ ('.' :: places ++ x)) = (ds, some (places ++ x)) :=
      Text.cutAt_append hpoint (places ++ x)
    rw [isFloatText, hunsigned, hcut]
    simp only [hdigits, isFraction_append hplaces.2 hx, Bool.and_self, Bool.true_or]
  rw [ofForm, isBoolText_ofList hhead]
  simp only [String.toList_ofList, hfloat, Bool.false_eq_true, if_false, if_true]

end Tag

/-- A word that is written plain is read as what it stands for, if it is not too long. -/
theorem scalarValue_word {v : Scalar} (hw : Word v w) :
    Tag.ofPlain (String.ofList w) = Tag.ofScalar v ∧
      scalarValue (Tag.ofScalar v) (String.ofList w) =
        if (Tree.leaf true (String.ofList w) v).isShort then .ok v
        else .error (.badNumber (String.ofList w)) := by
  cases hw with
  | null => exact ⟨by decide, rfl⟩
  | yes => exact ⟨by decide, by decide⟩
  | no => exact ⟨by decide, by decide⟩
  | @int negative ds hds =>
      have hnumeric := isNumeric_append (isNumeric_sign negative)
        (isNumeric_of_digits (isDigits_of_isWhole hds).2)
      constructor
      · rw [Tag.ofPlain_ofList (hnumeric.not_mem (by decide)), Tag.ofForm_whole hds]
        rfl
      · rw [Tag.ofScalar, scalarValue, intValue_whole hds, Json.isShort_int hds]
        by_cases hlong : ds.length ≤ Decimal.maxIntegerDigits
        · rw [if_pos hlong, decide_eq_true hlong]
          rfl
        · rw [if_neg hlong, decide_eq_false hlong]
          rfl
  | @float negative ds places x e hds hplaces hx =>
      have hdigits := isDigits_of_isWhole hds
      have hnumeric : IsNumeric (sign negative ++ ds ++ '.' :: places ++ x) := by
        simpa using isNumeric_append (isNumeric_sign negative)
          (isNumeric_fraction hdigits hplaces hx)
      constructor
      · rw [Tag.ofPlain_ofList (hnumeric.not_mem (by decide)), Tag.ofForm_fraction hds hplaces hx]
        rfl
      · rw [Tag.ofScalar, scalarValue, floatValue_fraction hds hplaces hx]
        rfl

end Yaml

end Flowscript

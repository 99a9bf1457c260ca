/-
  Flowscript.Proofs.ValueLiterals

  Values read back from their literals.

  Every piece of a literal reads back in front of any text that does not continue it, so a
  list or an object reads back if its items or properties do (`ReadsBack`).  Quoting hides
  line feeds but no carriage return, and a key that is an identifier with a line feed after
  it is not quoted at all: the values in which neither occurs are those whose literals are
  on one line (`Value.Quotable`), and they read back.
-/
import Flowscript.Proofs.LiteralReading
import Flowscript.Proofs.Literals

namespace Flowscript

open Naming (isIdentifier isIdentifierPart)

namespace Script

variable {q c : Char} {s t w rest : List Char} {fuel : Nat} {v : Value} {xs : List Value}
  {es : Entries}

-- ============================================================================
-- Strings
-- ============================================================================

/-- The two characters that strings are written between. -/
def IsQuote (q : Char) : Prop := q = '\'' ∨ q = '"'

/-- Quoting is three replacements: backslashes first, then quotes, then line feeds. -/
theorem flatMap_quoteChar_eq_replaceChar (hq : IsQuote q) (s : List Char) :
    s.flatMap (quoteChar q) = Text.replaceChar '\n' ['\\', 'n']
      (Text.replaceChar q ['\\', q] (Text.replaceChar '\\' ['\\', '\\'] s)) := by
  induction s with
  | nil => rfl
  | cons c s ih =>
      have hchar : quoteChar q c = Text.replaceChar '\n' ['\\', 'n']
          (Text.replaceChar q ['\\', q] (if c = '\\' then ['\\', '\\'] else [c])) := by
        have hne : '\\' ≠ q ∧ q ≠ '\n' := by rcases hq with rfl | rfl <;> decide
        unfold quoteChar
        split
        · simp [hne.1]
        · split
          · next h => simp [h, hne.2]
          · next h => simp [h]
      rw [List.flatMap_cons, hchar, ih, Text.replaceChar_cons, Text.replaceChar_append,
        Text.replaceChar_append]

theorem readEscape_quote (hq : IsQuote q) (s : List Char) :
    readEscape (q :: s) = some ([q.toNat], s) := by
  rcases hq with rfl | rfl <;> rfl

/-- A character that is quoted reads as itself. -/
theorem readUnits_quoteChar (hq : IsQuote q) (hc : c ≠ '\r') (fuel : Nat) (s : List Char) :
    readUnits q (fuel + 1) (quoteChar q c ++ s) =
      (readUnits q fuel s).map fun (us, rest) => (c.toNat :: us, rest) := by
  have hbackslash : '\\' ≠ q := by rcases hq with rfl | rfl <;> decide
  unfold quoteChar
  split
  case isTrue h =>
    subst h
    simp only [List.cons_append, List.nil_append, readUnits, if_neg hbackslash]
    rfl
  case isFalse h =>
    split
    case isTrue hquote =>
      subst hquote
      simp only [List.cons_append, List.nil_append, readUnits, if_neg hbackslash]
      rw [readEscape_quote hq]
      rfl
    case isFalse hquote =>
      split
      case isTrue hnewline =>
        subst hnewline
        simp only [List.cons_append, List.nil_append, readUnits, if_neg hbackslash]
        rfl
      case isFalse hnewline =>
        simp [readUnits, h, hquote, hnewline, hc]

theorem readUnits_quoted (hq : IsQuote q) (hs : '\r' ∉ s) (hfuel : s.length < fuel)
    (rest : List Char) :
    readUnits q fuel (s.flatMap (quoteChar q) ++ q :: rest) = some (s.map Char.toNat, rest) := by
  induction s generalizing fuel with
  | nil =>
      obtain ⟨fuel, rfl⟩ := Nat.exists_eq_add_of_lt hfuel
      simp [readUnits]
  | cons c s ih =>
      rw [List.mem_cons, not_or] at hs
      obtain ⟨fuel, rfl⟩ : ∃ k, fuel = k + 1 := ⟨fuel - 1, by omega⟩
      rw [List.flatMap_cons, List.append_assoc, readUnits_quoteChar hq (Ne.symm hs.1),
        ih hs.2 (by simpa using hfuel)]
      rfl

theorem decode?_map_toNat (s : List Char) : decode? (s.map Char.toNat) = some s := by
  induction s with
  | nil => rfl
  | cons c s ih =>
      have hvalid : c.toNat.isValidChar := c.valid
      rw [List.map_cons, decode?.eq_def]
      simp only [if_pos hvalid, ih, Char.ofNat_toNat, Option.map_some]

theorem length_le_quoted (q : Char) (s : List Char) :
    s.length ≤ (s.flatMap (quoteChar q)).length := by
  induction s with
  | nil => rfl
  | cons c s ih =>
      have hchar : 1 ≤ (quoteChar q c).length := by
        unfold quoteChar
        split_ifs <;> simp
      rw [List.flatMap_cons, List.length_append, List.length_cons]
      omega

theorem readString_quoted (hq : IsQuote q) (hs : '\r' ∉ s) (rest : List Char) :
    readString q (s.flatMap (quoteChar q) ++ q :: rest) = some (s, rest) := by
  have hlong : s.length < (s.flatMap (quoteChar q) ++ q :: rest).length := by
    have hchars := length_le_quoted q s
    rw [List.length_append, List.length_cons]
    omega
  rw [readString, readUnits_quoted hq hs hlong, Option.bind_some]
  simp only [decode?_map_toNat, Option.map_some]

-- ============================================================================
-- Words and numbers
-- ============================================================================

theorem isIdentifierPart_of_isDigit (h : c.isDigit = true) : isIdentifierPart c = true := by
  simp [isIdentifierPart, Char.isAlphanum, h]

theorem natDigits_of_lt {n : Nat} (h : n < 10) : Text.natDigits n = [n.digitChar] :=
  Nat.toDigits_of_lt_base h

/-- Digits of a number that is not zero do not begin with a zero. -/
theorem head?_natDigits {n : Nat} (hn : 0 < n) : (Text.natDigits n).head? ≠ some '0' := by
  induction n using Nat.strongRecOn with
  | ind n ih =>
      by_cases hsmall : n < 10
      · have hdigit : ∀ m < 10, 0 < m → m.digitChar ≠ '0' := by decide
        rw [natDigits_of_lt hsmall, List.head?_singleton]
        exact fun h => hdigit n hsmall hn (Option.some.inj h)
      · have hmore : Text.natDigits n = Text.natDigits (n / 10) ++ [(n % 10).digitChar] :=
          Nat.toDigits_of_base_le (by decide) (by omega)
        have hfirst := ih (n / 10) (by omega) (by omega)
        have hne : Text.natDigits (n / 10) ≠ [] := Nat.toDigits_ne_nil
        rw [hmore, List.head?_append_of_ne_nil _ hne]
        exact hfirst

theorem numeral?_natDigits (n : Nat) : numeral? (Text.natDigits n) = some n := by
  have hne : Text.natDigits n ≠ [] := Nat.toDigits_ne_nil
  have hdigits : (Text.natDigits n).all Char.isDigit = true :=
    List.all_eq_true.mpr fun _ => Text.isDigit_of_mem_natDigits
  have hvalue : digitsValue (Text.natDigits n) = n :=
    Nat.ofDigitChars_toDigits (b := 10) (by decide) (by decide)
  have hzero : (decide ((Text.natDigits n).head? = some '0') &&
      decide (Text.natDigits n ≠ ['0'])) = false := by
    by_cases hn : n = 0
    · subst hn
      rfl
    · rw [decide_eq_false (head?_natDigits (Nat.pos_of_ne_zero hn)), Bool.false_and]
  rw [numeral?, hzero, hdigits, hvalue, List.isEmpty_eq_false_iff.mpr hne]
  rfl

/-- A negative number is read as one. -/
theorem readValue_negative (n : Nat) (hrest : EndsWord rest) (fuel : Nat) :
    readValue (fuel + 1) ('-' :: (Text.natDigits n ++ rest)) = some (.int (-n), rest) := by
  have hword : ∀ c ∈ Text.natDigits n, isIdentifierPart c = true := fun _ h =>
    isIdentifierPart_of_isDigit (Text.isDigit_of_mem_natDigits h)
  have hskip : skipGaps (Text.natDigits n ++ rest) = Text.natDigits n ++ rest := by
    cases hdigits : Text.natDigits n with
    | nil => exact absurd hdigits Nat.toDigits_ne_nil
    | cons c ds =>
        exact skipGaps_of_token (isGap_of_isIdentifierPart (hword c (by simp [hdigits]))) _
  have hminus : isGap '-' = false := by decide
  rw [readValue, skipGaps_of_token hminus]
  simp [hskip, cutWord_append hword hrest, numeral?_natDigits]

theorem word?_natDigits (n : Nat) : word? (Text.natDigits n) = some (.int n) := by
  have hne : ∀ w : List Char, ¬w.all Char.isDigit = true → Text.natDigits n ≠ w := by
    rintro w hw rfl
    exact hw (List.all_eq_true.mpr fun _ => Text.isDigit_of_mem_natDigits)
  rw [word?, if_neg (hne _ (by decide)), if_neg (hne _ (by decide)), if_neg (hne _ (by decide)),
    numeral?_natDigits, Option.map_some]

theorem readValue_int (i : Int) (hrest : EndsWord rest) (fuel : Nat) :
    readValue (fuel + 1) (Text.intDigits i ++ rest) = some (.int i, rest) := by
  cases i with
  | ofNat n =>
      exact readValue_word Nat.toDigits_ne_nil
        (fun _ h => isIdentifierPart_of_isDigit (Text.isDigit_of_mem_natDigits h))
        (word?_natDigits n) hrest fuel
  | negSucc n => exact readValue_negative (n + 1) hrest fuel

theorem readValue_quote (hq : IsQuote q) (hs : '\r' ∉ s) (rest : List Char) (fuel : Nat) :
    readValue (fuel + 1) (quote q s ++ rest) = some (.str (String.ofList s), rest) := by
  have hread := readString_quoted hq hs rest
  have htext : quote q s ++ rest = q :: (s.flatMap (quoteChar q) ++ q :: rest) := by simp [quote]
  rw [htext, readValue]
  rcases hq with rfl | rfl
  · rw [skipGaps_of_token (by decide)]
    simp [hread]
  · rw [skipGaps_of_token (by decide)]
    simp [hread]

-- ============================================================================
-- Keys
-- ============================================================================

/-- An identifier with a line feed after it. -/
def IsBroken (s : List Char) : Prop := ∃ name, isIdentifier name = true ∧ s = name ++ ['\n']

theorem isBroken_iff (s : List Char) :
    IsBroken s ↔ s.getLast? = some '\n' ∧ isIdentifier s.dropLast = true := by
  constructor
  · rintro ⟨name, hname, rfl⟩
    simp [hname]
  · rintro ⟨hlast, hname⟩
    obtain ⟨name, rfl⟩ := List.getLast?_eq_some_iff.mp hlast
    rw [List.dropLast_concat] at hname
    exact ⟨name, hname, rfl⟩

instance (s : List Char) : Decidable (IsBroken s) := decidable_of_iff _ (isBroken_iff s).symm

/-- A key reads as itself, unless it is taken for an identifier and is none. -/
theorem readName_key (hreturn : '\r' ∉ s) (hbroken : ¬IsBroken s) (hrest : EndsWord rest) :
    readName (skipGaps (key s ++ rest)) = some (s, rest) := by
  rcases key_cases s with ⟨hname, hkey⟩ | ⟨name, hname, hs, -⟩ | hkey
  · have hword : ∀ c ∈ s, isIdentifierPart c = true := fun _ hc =>
      Naming.isIdentifierPart_of_mem hname hc
    have hcut := cutWord_append hword hrest
    cases s with
    | nil => cases hname
    | cons c s =>
        rw [isIdentifier, Bool.and_eq_true] at hname
        have hsingle : c ≠ '\'' := by
          rintro rfl
          exact absurd hname.1 (by decide)
        have hdouble : c ≠ '"' := by
          rintro rfl
          exact absurd hname.1 (by decide)
        rw [hkey, List.cons_append, skipGaps_of_token
          (isGap_of_isIdentifierPart (hword c List.mem_cons_self)), readName, if_neg
          (by simp [hsingle, hdouble]), if_pos hname.1, ← List.cons_append, hcut]
  · exact absurd ⟨name, hname, hs⟩ hbroken
  · have hread := readString_quoted (.inl rfl) hreturn rest
    have htext : quote '\'' s ++ rest = '\'' :: (s.flatMap (quoteChar '\'') ++ '\'' :: rest) := by
      simp [quote]
    rw [hkey, htext, skipGaps_of_token (by decide), readName, if_pos (by decide), hread]

-- ============================================================================
-- Lists and objects
-- ============================================================================

/-- The literal of the value reads as the value, whatever comes after it that does not continue a
word. -/
def ReadsBack (q : Char) (v : Value) : Prop :=
  ∀ fuel rest, 2 * (value q v).length ≤ fuel → EndsWord rest →
    readValue fuel (value q v ++ rest) = some (v, rest)

theorem readsBack_of_token (hne : value q v ≠ [])
    (h : ∀ fuel rest, EndsWord rest → readValue (fuel + 1) (value q v ++ rest) = some (v, rest)) :
    ReadsBack q v := by
  intro fuel rest hfuel hrest
  have hlength := List.length_pos_iff.mpr hne
  obtain ⟨fuel, rfl⟩ : ∃ k, fuel = k + 1 := ⟨fuel - 1, by omega⟩
  exact h fuel rest hrest

theorem readsBack_of_word (hword : word? w = some v) (hw : value q v = w) (hne : w ≠ [])
    (hparts : w.all isIdentifierPart = true) : ReadsBack q v := by
  subst hw
  exact readsBack_of_token hne fun fuel rest hrest =>
    readValue_word hne (List.all_eq_true.mp hparts) hword hrest fuel

theorem readsBack_null (q : Char) : ReadsBack q .null := by
  have hword : word? undefined = some .null :=
    (if_neg (by decide)).trans ((if_neg (by decide)).trans (if_pos rfl))
  exact readsBack_of_word hword rfl (by decide) (by decide)

theorem readsBack_bool (q : Char) (b : Bool) : ReadsBack q (.bool b) := by
  cases b with
  | false =>
      have hword : word? "false".toList = some (.bool false) :=
        (if_neg (by decide)).trans (if_pos rfl)
      exact readsBack_of_word hword rfl (by decide) (by decide)
  | true =>
      have hword : word? "true".toList = some (.bool true) := if_pos rfl
      exact readsBack_of_word hword rfl (by decide) (by decide)

theorem values_eq_map (q : Char) (xs : List Value) : values q xs = xs.map (value q) := by
  induction xs with
  | nil => rfl
  | cons x xs ih => rw [values, ih, List.map_cons]

/-- A property as it stands in an object. -/
def property (q : Char) (e : Scalar × Value) : List Char :=
  key e.1.displayChars ++ ':' :: ' ' :: value q e.2

theorem properties_eq_map (q : Char) (es : Entries) : properties q es = es.map (property q) := by
  induction es with
  | nil => rfl
  | cons e es ih => rw [properties, ih, List.map_cons, property]

/-- The items of a list read back if each of them does. -/
theorem readItems_values (h : ∀ x ∈ xs, ReadsBack q x)
    (hfuel : 2 * (Text.joinWith [',', ' '] (xs.map (value q))).length < fuel) (rest : List Char) :
    readItems fuel (Text.joinWith [',', ' '] (xs.map (value q)) ++ ']' :: rest) =
      some (xs, rest) := by
  obtain ⟨fuel, rfl⟩ : ∃ k, fuel = k + 1 := ⟨fuel - 1, by omega⟩
  induction xs generalizing fuel with
  | nil => rfl
  | cons x xs ih =>
      cases xs with
      | nil =>
          have hread := h x List.mem_cons_self fuel (']' :: rest)
            (by simpa [Nat.lt_succ_iff] using hfuel) (endsWord_cons (by decide) _)
          rw [List.map_singleton, Text.joinWith_singleton, readItems_of_readValue hread]
          rfl
      | cons y ys =>
          simp only [List.map_cons, Text.joinWith_cons_cons, List.length_append,
            List.length_cons, List.length_nil] at hfuel ih ⊢
          have hread := fun rest hrest => h x List.mem_cons_self fuel rest (by omega) hrest
          obtain ⟨fuel, rfl⟩ : ∃ k, fuel = k + 1 := ⟨fuel - 1, by omega⟩
          have hitems := ih (fun z hz => h z (List.mem_cons_of_mem x hz)) fuel (by omega)
          rw [List.append_assoc, List.append_assoc, List.cons_append, List.cons_append,
            List.nil_append, readItems_of_readValue (hread _ (endsWord_cons (by decide) _)),
            skipGaps_of_token (by decide)]
          simp only
          rw [readItems_congr (skipGaps_of_gap (by decide) _), hitems, Option.map_some]

/-- The key of an entry is a text that reads as itself. -/
def HasPlainKey (e : Scalar × Value) : Prop :=
  ∃ k, e.1 = .str k ∧ '\r' ∉ k.toList ∧ ¬IsBroken k.toList

/-- A property is followed by the other ones, or by the end of the object. -/
theorem readProperties_property {e : Scalar × Value} (hkey : HasPlainKey e) (h : ReadsBack q e.2)
    (hfuel : 2 * (property q e).length ≤ fuel) (hrest : EndsWord rest) :
    readProperties (fuel + 1) (property q e ++ rest) = match skipGaps rest with
      | ',' :: rest => (readProperties fuel rest).map fun (es, rest) => (e :: es, rest)
      | '}' :: rest => some ([e], rest)
      | _ => none := by
  obtain ⟨k, v⟩ := e
  obtain ⟨k, rfl, hreturn, hbroken⟩ := hkey
  replace h : ReadsBack q v := h
  have hname := readName_key hreturn hbroken
    (endsWord_cons (c := ':') (by decide) (' ' :: (value q v ++ rest)))
  have hvalue : readValue fuel (' ' :: (value q v ++ rest)) = some (v, rest) := by
    rw [readValue_congr (skipGaps_of_gap (by decide) _)]
    refine h fuel rest ?_ hrest
    simp only [property, List.length_append, List.length_cons] at hfuel
    omega
  have htext : property q (.str k, v) ++ rest =
      key k.toList ++ ':' :: ' ' :: (value q v ++ rest) := by
    simp [property, Scalar.displayChars]
  have hread := readProperties_of_readValue hname hvalue
  rw [String.ofList_toList] at hread
  rw [htext]
  exact hread

/-- The properties of an object read back if each of their values does. -/
theorem readProperties_properties (hne : es ≠ []) (hkeys : ∀ e ∈ es, HasPlainKey e)
    (h : ∀ e ∈ es, ReadsBack q e.2)
    (hfuel : 2 * (Text.joinWith [',', ' '] (es.map (property q))).length < fuel)
    (rest : List Char) :
    readProperties fuel (Text.joinWith [',', ' '] (es.map (property q)) ++ ' ' :: '}' :: rest) =
      some (es, rest) := by
  obtain ⟨fuel, rfl⟩ : ∃ k, fuel = k + 1 := ⟨fuel - 1, by omega⟩
  have hspace : ∀ s, skipGaps (' ' :: s) = skipGaps s := skipGaps_of_gap (by decide)
  induction es generalizing fuel with
  | nil => exact absurd rfl hne
  | cons e es ih =>
      have hkey := hkeys e List.mem_cons_self
      have hvalue := h e List.mem_cons_self
      cases es with
      | nil =>
          rw [List.map_singleton, Text.joinWith_singleton] at hfuel ⊢
          rw [readProperties_property hkey hvalue (by omega) (endsWord_cons (by decide) _), hspace,
            skipGaps_of_token (by decide)]
          rfl
      | cons e' es =>
          simp only [List.map_cons, Text.joinWith_cons_cons, List.length_append,
            List.length_cons, List.length_nil] at hfuel ih ⊢
          obtain ⟨fuel, rfl⟩ : ∃ k, fuel = k + 1 := ⟨fuel - 1, by omega⟩
          have hothers := ih (by simp) (fun d hd => hkeys d (List.mem_cons_of_mem e hd))
            (fun d hd => h d (List.mem_cons_of_mem e hd)) fuel (by omega)
          rw [List.append_assoc, List.append_assoc, List.cons_append, List.cons_append,
            List.nil_append, readProperties_property hkey hvalue (by omega)
            (endsWord_cons (by decide) _), skipGaps_of_token (by decide)]
          simp only
          rw [readProperties_congr (hspace _), hothers, Option.map_some]

theorem readsBack_list (h : ∀ x ∈ xs, ReadsBack q x) : ReadsBack q (.list xs) := by
  intro fuel rest hfuel hrest
  rw [value, values_eq_map] at hfuel ⊢
  simp only [List.length_cons, List.length_append, List.length_nil] at hfuel
  obtain ⟨fuel, rfl⟩ : ∃ k, fuel = k + 1 := ⟨fuel - 1, by omega⟩
  have henough : 2 * (Text.joinWith [',', ' '] (xs.map (value q))).length < fuel := by omega
  have hitems := readItems_values h henough rest
  rw [List.append_assoc, List.singleton_append]
  exact readValue_list hitems

theorem readsBack_map (hkeys : ∀ e ∈ es, HasPlainKey e) (hdistinct : (es.map (·.1)).Nodup)
    (h : ∀ e ∈ es, ReadsBack q e.2) : ReadsBack q (.map es) := by
  intro fuel rest hfuel hrest
  cases es with
  | nil =>
      obtain ⟨fuel, rfl⟩ : ∃ k, fuel = k + 2 := ⟨fuel - 2, by simp [value] at hfuel; omega⟩
      rfl
  | cons e es =>
      rw [value, properties_eq_map] at hfuel ⊢
      simp only [List.length_cons, List.length_append, List.length_nil] at hfuel
      obtain ⟨fuel, rfl⟩ : ∃ k, fuel = k + 1 := ⟨fuel - 1, by omega⟩
      have henough : 2 * (Text.joinWith [',', ' '] ((e :: es).map (property q))).length < fuel := by
        omega
      have hproperties := readProperties_properties (by simp) hkeys h henough rest
      rw [← readProperties_congr (skipGaps_of_gap (c := ' ') (by decide) _)] at hproperties
      simp only [List.cons_append, List.append_assoc, List.nil_append]
      exact readValue_map hproperties hdistinct

-- ============================================================================
-- Lines
-- ============================================================================

/-- The text has no end of a line. -/
def OnOneLine (s : List Char) : Prop := '\n' ∉ s ∧ '\r' ∉ s

instance (s : List Char) : Decidable (OnOneLine s) :=
  inferInstanceAs (Decidable ('\n' ∉ s ∧ '\r' ∉ s))

theorem onOneLine_quote_iff (hq : IsQuote q) (s : List Char) :
    OnOneLine (quote q s) ↔ '\r' ∉ s := by
  have hnewline : '\n' ∉ quote q s :=
    newline_not_mem_quote (by rcases hq with rfl | rfl <;> decide) s
  have hreturn : '\r' ∈ quote q s ↔ '\r' ∈ s := by
    refine ⟨fun h => ?_, fun h => ?_⟩
    · rcases mem_quote h with h | h | h | ⟨h, -⟩
      · rcases hq with rfl | rfl <;> cases h
      · cases h
      · cases h
      · exact h
    · have hkept : '\r' ∈ quoteChar q '\r' := by rcases hq with rfl | rfl <;> decide
      exact List.mem_append_left _ (List.mem_cons_of_mem _ (List.mem_flatMap.mpr ⟨_, h, hkept⟩))
  rw [OnOneLine, hreturn]
  exact and_iff_right hnewline

theorem onOneLine_key_iff (s : List Char) : OnOneLine (key s) ↔ '\r' ∉ s ∧ ¬IsBroken s := by
  constructor
  · rintro ⟨hnewline, hreturn⟩
    refine ⟨fun h => hreturn (mem_key h), ?_⟩
    rintro ⟨name, hname, rfl⟩
    have hkey : key (name ++ ['\n']) = name ++ ['\n'] := by
      have hdrop : Text.dropFinalNewline (name ++ ['\n']) = name := by
        rw [Text.dropFinalNewline, if_pos (by simp), List.dropLast_concat]
      rw [key, hdrop, if_pos hname]
    rw [hkey] at hnewline
    exact hnewline (by simp)
  · rintro ⟨hreturn, hbroken⟩
    rcases key_cases s with ⟨hname, hkey⟩ | ⟨name, hname, hs, -⟩ | hkey
    · rw [hkey]
      exact ⟨Naming.not_mem_of_isIdentifier hname (by decide), hreturn⟩
    · exact absurd ⟨name, hname, hs⟩ hbroken
    · rw [hkey]
      exact (onOneLine_quote_iff (.inl rfl) s).mpr hreturn

theorem onOneLine_int (i : Int) : OnOneLine (Text.intDigits i) := by
  constructor <;>
  · intro h
    exact absurd (Text.isNumberChar_of_mem_intDigits h) (by decide)

theorem mem_list_iff (hc : c ∉ ['[', ',', ' ', ']']) (xs : List Value) :
    c ∈ value q (.list xs) ↔ ∃ x ∈ xs, c ∈ value q x := by
  simp only [List.mem_cons, List.not_mem_nil, or_false, not_or] at hc
  have hsep : c ∉ [',', ' '] := by simp [hc]
  have hjoin := Text.mem_joinWith_iff hsep (xs.map (value q))
  rw [value, values_eq_map]
  simp only [List.cons_append, List.mem_cons, List.mem_append, List.not_mem_nil, or_false, hc,
    false_or, hjoin, List.mem_map, exists_exists_and_eq_and]

theorem mem_map_iff (hc : c ∉ ['{', ',', ' ', ':', '}']) (es : Entries) :
    c ∈ value q (.map es) ↔ ∃ e ∈ es, c ∈ key e.1.displayChars ∨ c ∈ value q e.2 := by
  simp only [List.mem_cons, List.not_mem_nil, or_false, not_or] at hc
  have hproperty : ∀ e, c ∈ property q e ↔ c ∈ key e.1.displayChars ∨ c ∈ value q e.2 := by
    intro e
    simp [property, hc]
  have hsep : c ∉ [',', ' '] := by simp [hc]
  have hjoin := Text.mem_joinWith_iff hsep (es.map (property q))
  cases es with
  | nil => simp [value, hc]
  | cons e es =>
      rw [value, properties_eq_map]
      simp only [List.cons_append, List.mem_cons, List.mem_append, List.not_mem_nil, or_false, hc,
        false_or, hjoin, List.mem_map, exists_exists_and_eq_and, hproperty]

theorem onOneLine_list_iff (xs : List Value) :
    OnOneLine (value q (.list xs)) ↔ ∀ x ∈ xs, OnOneLine (value q x) := by
  simp only [OnOneLine, mem_list_iff (c := '\n') (by decide), mem_list_iff (c := '\r') (by decide)]
  push Not
  exact forall₂_and.symm

theorem onOneLine_map_iff (es : Entries) :
    OnOneLine (value q (.map es)) ↔
      ∀ e ∈ es, OnOneLine (key e.1.displayChars) ∧ OnOneLine (value q e.2) := by
  simp only [OnOneLine, mem_map_iff (c := '\n') (by decide), mem_map_iff (c := '\r') (by decide)]
  push Not
  rw [← forall₂_and]
  refine forall₂_congr fun e _ => ?_
  tauto

end Script

-- ============================================================================
-- Values
-- ============================================================================

open Script (IsBroken IsQuote OnOneLine ReadsBack)

/-- A value of the kind that JSON has, whose numbers are whole and whose mappings have each key
once. -/
inductive Value.IsJsonLike : Value → Prop
  | null : IsJsonLike .null
  | bool (b : Bool) : IsJsonLike (.bool b)
  | int (i : Int) : IsJsonLike (.int i)
  | str (s : String) : IsJsonLike (.str s)
  | list {xs : List Value} (items : ∀ x ∈ xs, IsJsonLike x) : IsJsonLike (.list xs)
  | map {es : Entries} (keys : ∀ e ∈ es, ∃ k, e.1 = .str k) (distinct : (es.map (·.1)).Nodup)
      (values : ∀ e ∈ es, IsJsonLike e.2) : IsJsonLike (.map es)

/-- No text and no key in the value has a carriage return, and no key is an identifier with a line
feed after it. -/
inductive Value.Quotable : Value → Prop
  | scalar (s : Scalar) (text : ∀ t, s = .str t → '\r' ∉ t.toList) : Quotable (.scalar s)
  | list {xs : List Value} (items : ∀ x ∈ xs, Quotable x) : Quotable (.list xs)
  | map {es : Entries}
      (keys : ∀ e ∈ es, '\r' ∉ e.1.displayChars ∧ ¬IsBroken e.1.displayChars)
      (values : ∀ e ∈ es, Quotable e.2) : Quotable (.map es)

namespace Value

variable {q : Char} {v : Value}

theorem IsJsonLike.readsBack (hq : IsQuote q) (h : v.IsJsonLike) (hquotable : v.Quotable) :
    ReadsBack q v := by
  induction h with
  | null => exact Script.readsBack_null q
  | bool b => exact Script.readsBack_bool q b
  | int i =>
      have hne : Text.intDigits i ≠ [] := by
        cases i with
        | ofNat n => exact Nat.toDigits_ne_nil
        | negSucc n => exact List.cons_ne_nil _ _
      exact Script.readsBack_of_token hne fun fuel rest hrest => Script.readValue_int i hrest fuel
  | str s =>
      cases hquotable with
      | scalar _ htext =>
          refine Script.readsBack_of_token (List.cons_ne_nil _ _) fun fuel rest _ => ?_
          have hread := Script.readValue_quote hq (htext s rfl) rest fuel
          rwa [String.ofList_toList] at hread
  | list items ih =>
      cases hquotable with
      | list hitems => exact Script.readsBack_list fun x hx => ih x hx (hitems x hx)
  | map keys distinct values ih =>
      cases hquotable with
      | map hkeys hvalues =>
          refine Script.readsBack_map (fun e he => ?_) distinct fun e he => ih e he (hvalues e he)
          obtain ⟨k, hk⟩ := keys e he
          have hkey := hkeys e he
          rw [hk] at hkey
          exact ⟨k, hk, hkey⟩

theorem IsJsonLike.onOneLine_iff (hq : IsQuote q) (h : v.IsJsonLike) :
    OnOneLine (Script.value q v) ↔ v.Quotable := by
  have hplain : ∀ {s : Scalar}, (∀ t, s ≠ .str t) → OnOneLine (Script.scalar q s) →
      (OnOneLine (Script.scalar q s) ↔ Quotable (.scalar s)) := fun hs hline =>
    ⟨fun _ => .scalar _ fun t ht => absurd ht (hs t), fun _ => hline⟩
  induction h with
  | null => exact hplain (by simp) (show OnOneLine Script.undefined by decide)
  | bool b =>
      cases b with
      | false => exact hplain (by simp) (show OnOneLine "false".toList by decide)
      | true => exact hplain (by simp) (show OnOneLine "true".toList by decide)
  | int i => exact hplain (by simp) (Script.onOneLine_int i)
  | str s =>
      refine (Script.onOneLine_quote_iff hq s.toList).trans ⟨fun h => .scalar _ ?_, ?_⟩
      · rintro t ⟨⟩
        exact h
      · rintro ⟨_, htext⟩
        exact htext s rfl
  | list items ih =>
      rw [Script.onOneLine_list_iff]
      constructor
      · exact fun h => .list fun x hx => (ih x hx).mp (h x hx)
      · rintro (_ | hitems) x hx
        exact (ih x hx).mpr (hitems x hx)
  | map keys distinct values ih =>
      rw [Script.onOneLine_map_iff]
      constructor
      · exact fun h => .map (fun e he => (Script.onOneLine_key_iff _).mp (h e he).1)
          fun e he => (ih e he).mp (h e he).2
      · rintro (_ | _ | ⟨hkeys, hvalues⟩) e he
        exact ⟨(Script.onOneLine_key_iff _).mpr (hkeys e he), (ih e he).mpr (hvalues e he)⟩

/-- The literal of a value like those of JSON is on one line exactly if no text and no key in it has
a carriage return, and no key is an identifier with a line feed after it.  Then the literal reads as
the value. -/
theorem literal_reads_back (q : Char) (hq : IsQuote q) (v : Value) (hv : v.IsJsonLike) :
    (OnOneLine (Script.value q v) ↔ v.Quotable) ∧
      (v.Quotable → Script.read? (Script.value q v) = some v) := by
  refine ⟨hv.onOneLine_iff hq, fun hquotable => ?_⟩
  have hread := hv.readsBack hq hquotable _ [] (Nat.le_refl _) Script.endsWord_nil
  rw [List.append_nil] at hread
  rw [Script.read?, hread]
  rfl

/-- A value with what a literal has to escape, in texts and in keys. -/
def awkward : Value :=
  .map [(.str "a", .list [.null, .bool true, .int (-120), .str "it's \"\\\"\n"]),
    (.str "b c\n", .map [(.str "\\'", .str ""), (.str "$", .list [])])]

theorem awkward_reads_back :
    String.ofList (Script.value '"' awkward) =
        "\x7b a: [undefined, true, -120, \"it's \\\"\\\\\\\"\\n\"], " ++
          "'b c\\n': \x7b '\\\\\\'': \"\", $: [] \x7d \x7d" ∧
      OnOneLine (Script.value '"' awkward) ∧
      Script.read? (Script.value '"' awkward) = some awkward := by
  have hjson : awkward.IsJsonLike := by
    refine .map (by simp) (by decide) (List.forall_mem_cons.mpr ⟨.list ?_, List.forall_mem_cons.mpr
      ⟨.map (by simp) (by decide) ?_, by simp⟩⟩)
    · simpa using ⟨IsJsonLike.null, .bool true, .int (-120), .str _⟩
    · simpa using ⟨IsJsonLike.str "", .list (by simp)⟩
  have hquotable : awkward.Quotable := by
    refine .map (by decide) (List.forall_mem_cons.mpr ⟨.list ?_, List.forall_mem_cons.mpr
      ⟨.map (by decide) ?_, by simp⟩⟩)
    · simpa using ⟨Quotable.scalar .null (by simp), .scalar (.bool true) (by simp),
        .scalar (.int (-120)) (by simp), .scalar (.str _) (by rintro t ⟨⟩; decide)⟩
    · simpa using ⟨Quotable.scalar (.str "") (by rintro t ⟨⟩; decide), .list (by simp)⟩
  obtain ⟨hline, hread⟩ := literal_reads_back '"' (.inr rfl) awkward hjson
  exact ⟨by decide, hline.mpr hquotable, hread hquotable⟩

/-- A carriage return is left as it is, and no string may have one. -/
example : ¬OnOneLine (Script.value '\'' (.str "\r")) ∧
    Script.read? (Script.value '\'' (.str "\r")) = none := by
  rw [← Option.isNone_iff_eq_none]
  decide

end Value

end Flowscript

/-
  Flowscript.Proofs.LaidOutObjects

  Objects that are laid out over lines.

  A literal with numbers of all kinds is read by one function for what stands between
  commas (`readEntries`), whose entries are items of a list or properties of an object.
  So it is no matter what white space a text has between its entries, and whether a comma
  follows the last one (`readEntries_joinWith`): an object that is laid out denotes what
  the object on one line does, without the properties that are null.  An object in which
  there are no other properties is laid out as a comma, which no entry is before.
-/
import Flowscript.Proofs.NumberLiterals
import Flowscript.Proofs.PlainValues

namespace Flowscript

namespace Script

open Naming (isIdentifier isIdentifierPart)

variable {c q close : Char} {s t w rest pad gap tail : List Char} {fuel : Nat} {v : Value}
  {es : Entries} {r : Option Value} {afterE : Bool}

-- ============================================================================
-- Numbers and words
-- ============================================================================

/-- The character goes on with a word or a number; a sign does so after an `e`. -/
def continuesAtom (afterE : Bool) (c : Char) : Bool :=
  isIdentifierPart c || c = '.' || (afterE && (c = '+' || c = '-'))

/-- The word or number that a text begins with, and the text after it. -/
def cutAtom (afterE : Bool) : List Char → List Char × List Char
  | [] => ([], [])
  | c :: rest =>
    if continuesAtom afterE c then
      let (w, rest) := cutAtom (c = 'e' || c = 'E') rest
      (c :: w, rest)
    else ([], c :: rest)

/-- A decimal that does not begin with a zero in front of another digit. -/
def fraction? (w : List Char) : Option Decimal :=
  if w.head? = some '0' && w.tail.head?.any Char.isDigit then none else Decimal.read? w

/-- The nearest double to a decimal. -/
def nearest (negative : Bool) (d : Decimal) : Value :=
  .float (Double.ofDecimal negative d.digits d.exponent)

/-- The value of a number without its sign: digits are an integer, and all else is a double. -/
def number? (negative : Bool) (w : List Char) : Option Value :=
  match numeral? w with
  | some n => some (.int (if negative then -n else n))
  | none => (fraction? w).map (nearest negative)

/-- The value of a word or a number. -/
def atom? (w : List Char) : Option Value :=
  match word? w with
  | some v => some v
  | none => (fraction? w).map (nearest false)

-- ============================================================================
-- Values
-- ============================================================================

/-- Reads entries up to the character that closes them, and the text after it; a comma may follow
the last one.  Every entry uses up one unit of fuel. -/
def readEntries {α : Type} (entry : List Char → Option (α × List Char)) (close : Char) :
    Nat → List Char → Option (List α × List Char)
  | 0, _ => none
  | fuel + 1, s =>
    if (skipGaps s).head? = some close then some ([], (skipGaps s).tail)
    else (entry s).bind fun (a, rest) => match skipGaps rest with
      | [] => none
      | c :: rest =>
        if c = ',' then (readEntries entry close fuel rest).map fun (as, rest) => (a :: as, rest)
        else if c = close then some ([a], rest)
        else none

/-- Reads a property, whose value is read by a function of its own. -/
def readProperty (value : List Char → Option (Value × List Char)) (s : List Char) :
    Option ((Scalar × Value) × List Char) :=
  (readName (skipGaps s)).bind fun (k, rest) => match skipGaps rest with
    | ':' :: rest => (value rest).map fun (v, rest) => ((.str (String.ofList k), v), rest)
    | _ => none

/-- Reads a literal, and the text after it.  Every level uses up one unit of fuel. -/
def readLiteral : Nat → List Char → Option (Value × List Char)
  | 0, _ => none
  | fuel + 1, s => match skipGaps s with
    | [] => none
    | c :: rest =>
      if c = '[' then
        (readEntries (readLiteral fuel) ']' fuel rest).map fun (xs, rest) => (.list xs, rest)
      else if c = '{' then
        ((readEntries (readProperty (readLiteral fuel)) '}' fuel rest).filter
          fun r => (r.1.map (·.1)).Nodup).map fun (es, rest) => (.map es, rest)
      else if c = '\'' || c = '"' then
        (readString c rest).map fun (t, rest) => (.str (String.ofList t), rest)
      else if c = '-' then
        let (w, rest) := cutAtom false (skipGaps rest)
        (number? true w).map fun v => (v, rest)
      else
        let (w, rest) := cutAtom false (c :: rest)
        (atom? w).map fun v => (v, rest)

/-- The value that a whole text is a literal of. -/
def denoted? (s : List Char) : Option Value :=
  (readLiteral s.length s).bind fun (v, rest) => if (skipGaps rest).isEmpty then some v else none

-- ============================================================================
-- Atoms
-- ============================================================================

/-- The characters go on with a word or a number, one after another. -/
def isAtom (afterE : Bool) : List Char → Bool
  | [] => true
  | c :: w => continuesAtom afterE c && isAtom (c = 'e' || c = 'E') w

/-- The text does not go on with a word or a number. -/
def EndsAtom (s : List Char) : Prop := ∀ c, s.head? = some c → continuesAtom true c = false

theorem endsAtom_nil : EndsAtom [] := by
  rintro c ⟨⟩

theorem endsAtom_cons (h : continuesAtom true c = false) (s : List Char) : EndsAtom (c :: s) := by
  rintro d ⟨⟩
  exact h

theorem cutAtom_append (hw : isAtom afterE w = true) (hrest : EndsAtom rest) :
    cutAtom afterE (w ++ rest) = (w, rest) := by
  induction w generalizing afterE with
  | nil =>
      cases rest with
      | nil => rfl
      | cons c rest =>
          have hc : continuesAtom afterE c = false := by
            have hstop := hrest c rfl
            cases afterE with
            | true => exact hstop
            | false =>
                rw [continuesAtom, Bool.or_eq_false_iff] at hstop ⊢
                exact ⟨hstop.1, rfl⟩
          rw [List.nil_append, cutAtom, hc]
          rfl
  | cons c w ih =>
      rw [isAtom, Bool.and_eq_true] at hw
      rw [List.cons_append, cutAtom, if_pos hw.1, ih hw.2]

theorem isAtom_of_parts (hw : ∀ c ∈ w, isIdentifierPart c = true) (afterE : Bool) :
    isAtom afterE w = true := by
  induction w generalizing afterE with
  | nil => rfl
  | cons c w ih =>
      rw [List.forall_mem_cons] at hw
      rw [isAtom, continuesAtom, hw.1, ih hw.2]
      rfl

theorem isAtom_append (hs : ∀ c ∈ s, isIdentifierPart c = true ∨ c = '.')
    (ht : ∀ afterE, isAtom afterE t = true) (afterE : Bool) : isAtom afterE (s ++ t) = true := by
  induction s generalizing afterE with
  | nil => exact ht afterE
  | cons c s ih =>
      rw [List.forall_mem_cons] at hs
      have hc : continuesAtom afterE c = true := by
        rw [continuesAtom, Bool.or_eq_true, Bool.or_eq_true, decide_eq_true_eq]
        exact .inl hs.1
      rw [List.cons_append, isAtom, hc, ih hs.2]
      rfl

open Shared (Exponent IsDigits IsWhole)

theorem isAtom_exponent {e : Int} (h : Exponent e s) (afterE : Bool) : isAtom afterE s = true := by
  have hdigits : ∀ {ds : List Char}, IsDigits ds → ∀ afterE, isAtom afterE ds = true :=
    fun hds => isAtom_of_parts fun c hc => isIdentifierPart_of_isDigit (hds.2 c hc)
  have hletter : ∀ {a : Char}, a = 'e' ∨ a = 'E' →
      continuesAtom afterE a = true ∧ (a = 'e' || a = 'E') = true := by
    rintro a (rfl | rfl) <;> cases afterE <;> decide
  cases h with
  | absent => rfl
  | minus he hds =>
      obtain ⟨hfirst, hafter⟩ := hletter he
      rw [isAtom, isAtom, hfirst, hafter, hdigits hds]
      decide
  | plus he hds =>
      obtain ⟨hfirst, hafter⟩ := hletter he
      rw [isAtom, isAtom, hfirst, hafter, hdigits hds]
      decide

/-- The text of a number that is not whole is one atom, and has a value. -/
theorem atom_of_isFraction (h : IsFraction w) :
    isAtom false w = true ∧ (∃ c w', w = c :: w' ∧ c.isDigit = true) ∧
      (fraction? w).isSome = true := by
  obtain ⟨d, hread⟩ := h.exists_read?
  have hpart : ∀ {ds : List Char}, IsDigits ds → ∀ c ∈ ds, isIdentifierPart c = true ∨ c = '.' :=
    fun hds c hc => .inl (isIdentifierPart_of_isDigit (hds.2 c hc))
  -- the whole part is a lone zero, or does not begin with one
  have hvalue : ∀ {ds rest : List Char}, IsWhole ds → w = ds ++ rest →
      (∀ c ∈ rest.head?, c.isDigit = false) →
      (∃ c w', w = c :: w' ∧ c.isDigit = true) ∧ (fraction? w).isSome = true := by
    intro ds rest hds hw hrest
    have hzero : (decide (w.head? = some '0') && w.tail.head?.any Char.isDigit) = false := by
      rw [hw]
      rcases hds with rfl | ⟨c, cs, rfl, hc, -⟩
      · rw [Bool.and_eq_false_iff]
        right
        rw [List.singleton_append, List.tail_cons, ← Bool.not_eq_true, Option.any_eq_true]
        rintro ⟨c, hc, hdigit⟩
        rw [hrest c hc] at hdigit
        cases hdigit
      · simp [hc]
    refine ⟨?_, by rw [fraction?, hzero, if_neg (by simp), hread]; rfl⟩
    obtain ⟨c, cs, rfl, hc⟩ := hds.exists_cons
    exact ⟨c, cs ++ rest, by rw [hw]; rfl, hc⟩
  cases h with
  | @point e ds places x hds hplaces hx =>
      have hdigits := isDigits_of_isWhole hds
      refine ⟨?_, hvalue hds (by rw [List.append_assoc]) (by simp)⟩
      rw [List.append_assoc]
      refine isAtom_append (hpart hdigits) (fun b => ?_) false
      rw [← List.append_nil ('.' :: places ++ x), List.append_assoc]
      refine isAtom_append (fun c hc => ?_) (fun b => ?_) b
      · rcases List.mem_cons.mp hc with rfl | hc
        · exact .inr rfl
        · exact hpart hplaces c hc
      · rw [List.append_nil]
        exact isAtom_exponent hx b
  | @exponent e ds x hds hx hne =>
      refine ⟨isAtom_append (hpart (isDigits_of_isWhole hds)) (isAtom_exponent hx) false,
        hvalue hds rfl ?_⟩
      cases hx with
      | absent => exact absurd rfl hne
      | minus he _ => rcases he with rfl | rfl <;> simp
      | plus he _ => rcases he with rfl | rfl <;> simp

-- ============================================================================
-- Literals
-- ============================================================================

/-- The text is read in the same way, whatever comes after it that does not go on with a number. -/
def Reads (s : List Char) (r : Option Value) : Prop :=
  s ≠ [] ∧ ∀ fuel rest, s.length ≤ fuel → EndsAtom rest →
    readLiteral fuel (s ++ rest) = r.map fun v => (v, rest)

theorem Reads.denoted?_eq (h : Reads s r) : denoted? s = r := by
  have hread := h.2 s.length [] (Nat.le_refl _) endsAtom_nil
  rw [List.append_nil] at hread
  rw [denoted?, hread]
  cases r <;> rfl

theorem reads_of_token (hne : s ≠ [])
    (h : ∀ fuel rest, EndsAtom rest → readLiteral (fuel + 1) (s ++ rest) = r.map (·, rest)) :
    Reads s r := by
  refine ⟨hne, fun fuel rest hfuel hrest => ?_⟩
  have hlength := List.length_pos_iff.mpr hne
  obtain ⟨fuel, rfl⟩ : ∃ k, fuel = k + 1 := ⟨fuel - 1, by omega⟩
  exact h fuel rest hrest

theorem readLiteral_congr (h : skipGaps s = skipGaps t) (fuel : Nat) :
    readLiteral fuel s = readLiteral fuel t := by
  cases fuel with
  | zero => rfl
  | succ fuel => rw [readLiteral, readLiteral, h]

/-- Words and numbers are read up to what does not go on with them. -/
theorem reads_atom (hw : isAtom false (c :: w) = true) (hc : isIdentifierPart c = true) :
    Reads (c :: w) (atom? (c :: w)) := by
  refine reads_of_token (List.cons_ne_nil _ _) fun fuel rest hrest => ?_
  have hcut := cutAtom_append hw hrest
  have hother : ∀ d, isIdentifierPart d = false → c ≠ d := by
    rintro d hd rfl
    rw [hc] at hd
    cases hd
  rw [List.cons_append] at hcut ⊢
  rw [readLiteral, skipGaps_of_token (isGap_of_isIdentifierPart hc)]
  simp only [hother '[' (by decide), hother '{' (by decide), hother '\'' (by decide),
    hother '"' (by decide), hother '-' (by decide), decide_false, Bool.or_self, if_false,
    Bool.false_eq_true, hcut]

theorem reads_negative (hw : isAtom false (c :: w) = true) (hc : isIdentifierPart c = true) :
    Reads ('-' :: c :: w) (number? true (c :: w)) := by
  refine reads_of_token (List.cons_ne_nil _ _) fun fuel rest hrest => ?_
  have hcut := cutAtom_append hw hrest
  have hskip := skipGaps_of_token (isGap_of_isIdentifierPart hc) (w ++ rest)
  have hminus : isGap '-' = false := by decide
  rw [List.cons_append] at hcut
  rw [List.cons_append, List.cons_append, readLiteral, skipGaps_of_token hminus]
  simp [hskip, hcut]

theorem reads_word (hv : word? w = some v) (hne : w ≠ [])
    (hw : ∀ c ∈ w, isIdentifierPart c = true) : Reads w (some v) := by
  obtain ⟨c, w, rfl⟩ := List.exists_cons_of_ne_nil hne
  have hread := reads_atom (isAtom_of_parts hw false) (hw c List.mem_cons_self)
  rwa [atom?, hv] at hread

theorem reads_int (i : Int) : Reads (Text.intDigits i) (some (.int i)) := by
  have hparts : ∀ n, ∀ c ∈ Text.natDigits n, isIdentifierPart c = true := fun n c hc =>
    isIdentifierPart_of_isDigit (Text.isDigit_of_mem_natDigits hc)
  cases i with
  | ofNat n => exact reads_word (word?_natDigits n) Nat.toDigits_ne_nil (hparts n)
  | negSucc n =>
      have hnumber : number? true (Text.natDigits (n + 1)) = some (.int (Int.negSucc n)) := by
        rw [number?, numeral?_natDigits]
        rfl
      have hdigits := hparts (n + 1)
      show Reads ('-' :: Text.natDigits (n + 1)) _
      obtain ⟨c, w, hw⟩ := List.exists_cons_of_ne_nil
        (show Text.natDigits (n + 1) ≠ [] from Nat.toDigits_ne_nil)
      rw [hw] at hnumber hdigits ⊢
      rw [← hnumber]
      exact reads_negative (isAtom_of_parts hdigits false) (hdigits c List.mem_cons_self)

theorem reads_undefined : Reads undefined (some .null) :=
  reads_word ((if_neg (by decide)).trans ((if_neg (by decide)).trans (if_pos rfl))) (by decide)
    (List.all_eq_true.mp (by decide))

theorem reads_bool (q : Char) (b : Bool) : Reads (scalar q (.bool b)) (some (.bool b)) := by
  have htrue : Reads "true".toList (some (.bool true)) :=
    reads_word (if_pos rfl) (by decide) (List.all_eq_true.mp (by decide))
  have hfalse : Reads "false".toList (some (.bool false)) :=
    reads_word ((if_neg (by decide)).trans (if_pos rfl)) (by decide)
      (List.all_eq_true.mp (by decide))
  cases b with
  | true => exact htrue
  | false => exact hfalse

theorem isSome_number? (h : (fraction? w).isSome = true) (negative : Bool) :
    (number? negative w).isSome = true := by
  unfold number?
  split
  · rfl
  · rwa [Option.isSome_map]

theorem isSome_atom? (h : (fraction? w).isSome = true) : (atom? w).isSome = true := by
  unfold atom?
  split
  · rfl
  · rwa [Option.isSome_map]

/-- Numbers that are not whole have literals, too. -/
theorem exists_reads_double (x : Double) : ∃ v, Reads (double x) (some v) := by
  cases x with
  | nan => exact ⟨_, reads_undefined⟩
  | infinite negative => exact ⟨_, reads_undefined⟩
  | finite negative m q =>
      rw [double]
      split
      · next i _ => exact ⟨_, reads_int i⟩
      · obtain ⟨w, hw, htext⟩ := Double.exists_chars_finite negative m q
        obtain ⟨hatom, ⟨c, w', rfl, hc⟩, hvalue⟩ := atom_of_isFraction hw
        have hpart := isIdentifierPart_of_isDigit hc
        rw [htext]
        cases negative with
        | true =>
            obtain ⟨v, hv⟩ := Option.isSome_iff_exists.mp (isSome_number? hvalue true)
            exact ⟨v, hv ▸ reads_negative hatom hpart⟩
        | false =>
            obtain ⟨v, hv⟩ := Option.isSome_iff_exists.mp (isSome_atom? hvalue)
            exact ⟨v, hv ▸ reads_atom hatom hpart⟩

theorem reads_quote (hq : IsQuote q) (hs : '\r' ∉ s) :
    Reads (quote q s) (some (.str (String.ofList s))) := by
  refine reads_of_token (List.cons_ne_nil _ _) fun fuel rest _ => ?_
  have hread := readString_quoted hq hs rest
  have htext : quote q s ++ rest = q :: (s.flatMap (quoteChar q) ++ q :: rest) := by simp [quote]
  rw [htext, readLiteral]
  rcases hq with rfl | rfl
  · rw [skipGaps_of_token (by decide)]
    simp [hread]
  · rw [skipGaps_of_token (by decide)]
    simp [hread]

-- ============================================================================
-- Entries
-- ============================================================================

theorem skipGaps_append (h : ∀ c ∈ gap, isGap c = true) (s : List Char) :
    skipGaps (gap ++ s) = skipGaps s := by
  induction gap with
  | nil => rfl
  | cons c gap ih =>
      rw [List.forall_mem_cons] at h
      rw [List.cons_append, skipGaps_of_gap h.1, ih h.2]

/-- What comes after the last entry: the character that closes the entries, or a comma before it. -/
structure Closes (close : Char) (tail rest : List Char) : Prop where
  ends : EndsAtom tail
  closed : skipGaps tail = close :: rest ∨
    ∃ s, skipGaps tail = ',' :: s ∧ skipGaps s = close :: rest

theorem mapM_cons {α β : Type} (f : α → Option β) (x : α) (xs : List α) :
    (x :: xs).mapM f = (f x).bind fun y => (xs.mapM f).map (y :: ·) := by
  rw [List.mapM_cons]
  cases f x with
  | none => rfl
  | some y =>
      cases xs.mapM f with
      | none => rfl
      | some ys => rfl

section Sequences

variable {α β : Type} {f g : α → Option β} {x : α} {xs : List α}

theorem isSome_mapM (h : ∀ x ∈ xs, (f x).isSome = true) : (xs.mapM f).isSome = true := by
  induction xs with
  | nil => rfl
  | cons x xs ih =>
      rw [List.forall_mem_cons] at h
      obtain ⟨y, hy⟩ := Option.isSome_iff_exists.mp h.1
      rw [mapM_cons, hy, Option.bind_some, Option.isSome_map]
      exact ih h.2

theorem mapM_eq_none (hx : x ∈ xs) (h : f x = none) : xs.mapM f = none := by
  induction xs with
  | nil => cases hx
  | cons y xs ih =>
      rw [mapM_cons]
      rcases List.mem_cons.mp hx with rfl | hx
      · rw [h, Option.bind_none]
      · rw [ih hx]
        cases f y <;> rfl

theorem mapM_eq_self {f : α → Option α} (h : ∀ x ∈ xs, f x = some x) : xs.mapM f = some xs := by
  induction xs with
  | nil => rfl
  | cons x xs ih =>
      rw [List.forall_mem_cons] at h
      rw [mapM_cons, h.1, ih h.2]
      rfl

theorem mapM_congr (h : ∀ x ∈ xs, f x = g x) : xs.mapM f = xs.mapM g := by
  induction xs with
  | nil => rfl
  | cons x xs ih =>
      rw [List.forall_mem_cons] at h
      rw [mapM_cons, mapM_cons, h.1, ih h.2]

end Sequences

section Entries

variable {α ι : Type} {entry : List Char → Option (α × List Char)} {text : ι → List Char}
  {result : ι → Option α} {xs : List ι}

theorem readEntries_congr (hentry : entry s = entry t) (h : skipGaps s = skipGaps t)
    (close : Char) (fuel : Nat) :
    readEntries entry close fuel s = readEntries entry close fuel t := by
  cases fuel with
  | zero => rfl
  | succ fuel => rw [readEntries, readEntries, h, hentry]

/-- Entries with commas between them are read one by one, whatever white space comes after the
commas, and whether or not a comma follows the last one. -/
theorem readEntries_joinWith (hne : xs ≠ []) (hclose : close ≠ ',')
    (hgap : ∀ c ∈ gap, isGap c = true)
    (hcongr : ∀ {s t}, skipGaps s = skipGaps t → entry s = entry t)
    (hentry : ∀ x ∈ xs, ∀ rest, EndsAtom rest →
      (skipGaps (text x ++ rest)).head? ≠ some close ∧
        entry (text x ++ rest) = (result x).map (·, rest))
    (htail : Closes close tail rest) (hfuel : xs.length < fuel) :
    readEntries entry close fuel (Text.joinWith (',' :: gap) (xs.map text) ++ tail) =
      (xs.mapM result).map (·, rest) := by
  induction xs generalizing fuel with
  | nil => exact absurd rfl hne
  | cons x xs ih =>
      rw [List.forall_mem_cons] at hentry
      obtain ⟨fuel, rfl⟩ : ∃ k, fuel = k + 1 := ⟨fuel - 1, by omega⟩
      rw [List.length_cons] at hfuel
      rw [mapM_cons]
      cases xs with
      | nil =>
          obtain ⟨hopen, hread⟩ := hentry.1 tail htail.ends
          rw [List.map_singleton, Text.joinWith_singleton, readEntries, if_neg hopen, hread]
          cases result x with
          | none => rfl
          | some a =>
              obtain ⟨fuel, rfl⟩ : ∃ k, fuel = k + 1 := ⟨fuel - 1, by omega⟩
              rcases htail.closed with hclosed | ⟨s, hcomma, hclosed⟩
              · simp [hclosed, hclose]
              · simp [hcomma, hclosed, readEntries]
      | cons y ys =>
          have hothers : readEntries entry close fuel _ = _ :=
            ih (List.cons_ne_nil y ys) hentry.2 (by omega)
          rw [List.map_cons, List.map_cons, Text.joinWith_cons_cons, List.append_assoc,
            List.append_assoc, List.cons_append]
          obtain ⟨hopen, hread⟩ := hentry.1 _ (endsAtom_cons (c := ',') (by decide)
            (gap ++ (Text.joinWith (',' :: gap) (text y :: ys.map text) ++ tail)))
          rw [readEntries, if_neg hopen, hread]
          cases result x with
          | none => rfl
          | some a =>
              have hskip := skipGaps_append hgap
                (Text.joinWith (',' :: gap) (text y :: ys.map text) ++ tail)
              have hgapped := readEntries_congr (hcongr hskip) hskip close fuel
              have hcomma : ∀ s, skipGaps (',' :: s) = ',' :: s := skipGaps_of_token (by decide)
              rw [List.map_cons] at hothers
              simp only [Option.map_some, Option.bind_some, hcomma, if_true, hgapped, hothers]
              cases (y :: ys).mapM result <;> rfl

end Entries

-- ============================================================================
-- Lists
-- ============================================================================

theorem length_le_joinWith (sep : List Char) {p : List Char} {ps : List (List Char)} (h : p ∈ ps) :
    p.length ≤ (Text.joinWith sep ps).length := by
  induction ps with
  | nil => cases h
  | cons p' ps ih =>
      cases ps with
      | nil =>
          rw [List.mem_singleton.mp h, Text.joinWith_singleton]
      | cons p'' ps =>
          simp only [Text.joinWith_cons_cons, List.length_append]
          rcases List.mem_cons.mp h with rfl | h
          · omega
          · have hrest := ih h
            omega

theorem count_le_joinWith (sep : List Char) {ps : List (List Char)} (h : ∀ p ∈ ps, p ≠ []) :
    ps.length ≤ (Text.joinWith sep ps).length := by
  induction ps with
  | nil => exact Nat.le_refl _
  | cons p ps ih =>
      rw [List.forall_mem_cons] at h
      have hp := List.length_pos_iff.mpr h.1
      cases ps with
      | nil => exact hp
      | cons p' ps =>
          have hrest := ih h.2
          simp only [Text.joinWith_cons_cons, List.length_append, List.length_cons] at hrest ⊢
          omega

theorem head?_of_readLiteral {x : Value × List Char} (h : readLiteral fuel s = some x) :
    (skipGaps s).head? ≠ some ']' := by
  intro hhead
  cases fuel with
  | zero => cases h
  | succ fuel =>
      rw [readLiteral] at h
      cases hs : skipGaps s with
      | nil =>
          rw [hs] at hhead
          cases hhead
      | cons c t =>
          rw [hs] at hhead h
          cases hhead
          cases h

/-- A list denotes the list of what its items denote. -/
theorem reads_list {xs : List Value} {result : Value → Option Value}
    (h : ∀ x ∈ xs, Reads (value q x) (result x) ∧ (result x).isSome = true) :
    Reads (value q (.list xs)) ((xs.mapM result).map .list) := by
  rw [value, values_eq_map]
  refine ⟨List.cons_ne_nil _ _, fun fuel rest hfuel _ => ?_⟩
  simp only [List.length_append, List.length_cons, List.length_nil] at hfuel
  obtain ⟨fuel, rfl⟩ : ∃ k, fuel = k + 1 := ⟨fuel - 1, by omega⟩
  have hbracket : isGap '[' = false := by decide
  have htail : Closes ']' (']' :: rest) rest :=
    ⟨endsAtom_cons (by decide) _, .inl (skipGaps_of_token (by decide) _)⟩
  have hitems : readEntries (readLiteral fuel) ']' fuel
      (Text.joinWith [',', ' '] (xs.map (value q)) ++ ']' :: rest) =
        (xs.mapM result).map (·, rest) := by
    cases xs with
    | nil =>
        obtain ⟨fuel, rfl⟩ : ∃ k, fuel = k + 1 := ⟨fuel - 1, by omega⟩
        rfl
    | cons x xs =>
        have hcount := count_le_joinWith [',', ' ']
          (List.forall_mem_map.mpr fun x hx => (h x hx).1.1)
        rw [List.length_map] at hcount
        refine readEntries_joinWith (List.cons_ne_nil x xs) (by decide)
          (List.all_eq_true.mp (by decide)) (fun hst => readLiteral_congr hst fuel)
          (fun y hy rest hrest => ?_) htail (by omega)
        have hlength := length_le_joinWith [',', ' '] (List.mem_map_of_mem (f := value q) hy)
        have hread := (h y hy).1.2 fuel rest (by omega) hrest
        refine ⟨?_, hread⟩
        obtain ⟨v, hv⟩ := Option.isSome_iff_exists.mp (h y hy).2
        rw [hv] at hread
        exact head?_of_readLiteral hread
  rw [List.cons_append, List.cons_append, List.append_assoc, List.singleton_append, readLiteral,
    skipGaps_of_token hbracket]
  simp only [if_true, hitems]
  cases xs.mapM result <;> rfl

-- ============================================================================
-- Objects
-- ============================================================================

/-- A property as it stands in an object, after white space. -/
def line (pad : List Char) (text : Value → List Char) (e : Scalar × Value) : List Char :=
  pad ++ (key e.1.displayChars ++ ':' :: ' ' :: text e.2)

theorem readProperty_congr (h : skipGaps s = skipGaps t)
    (value : List Char → Option (Value × List Char)) :
    readProperty value s = readProperty value t := by
  rw [readProperty, readProperty, h]

theorem readProperty_line {text : Value → List Char} {e : Scalar × Value} (hkey : HasPlainKey e)
    (hpad : ∀ c ∈ pad, isGap c = true) (h : Reads (text e.2) r)
    (hfuel : (text e.2).length ≤ fuel) (hrest : EndsAtom rest) :
    (skipGaps (line pad text e ++ rest)).head? ≠ some '}' ∧
      readProperty (readLiteral fuel) (line pad text e ++ rest) =
        (r.map (e.1, ·)).map (·, rest) := by
  obtain ⟨k, v⟩ := e
  obtain ⟨k, rfl, hreturn, hbroken⟩ := hkey
  have hname := readName_key hreturn hbroken
    (endsWord_cons (c := ':') (by decide) (' ' :: (text v ++ rest)))
  have hline : skipGaps (line pad text (.str k, v) ++ rest) =
      skipGaps (key k.toList ++ ':' :: ' ' :: (text v ++ rest)) := by
    rw [line, List.append_assoc, skipGaps_append hpad]
    simp [Scalar.displayChars]
  have hvalue : readLiteral fuel (' ' :: (text v ++ rest)) = r.map (·, rest) := by
    rw [readLiteral_congr (skipGaps_of_gap (by decide) _)]
    exact h.2 fuel rest hfuel hrest
  constructor
  · intro hhead
    rw [hline] at hhead
    cases hs : skipGaps (key k.toList ++ ':' :: ' ' :: (text v ++ rest)) with
    | nil =>
        rw [hs] at hhead
        cases hhead
    | cons c s =>
        rw [hs] at hhead hname
        cases hhead
        cases hname
  · have hcolon : ∀ s, skipGaps (':' :: s) = ':' :: s := skipGaps_of_token (by decide)
    rw [readProperty, hline, hname]
    simp only [Option.bind_some, hcolon, hvalue, String.ofList_toList]
    cases r <;> rfl

/-- Reading the values leaves the keys as they are. -/
theorem keys_of_mapM {result : Value → Option Value} {fs : Entries}
    (h : (es.mapM fun e => (result e.2).map (e.1, ·)) = some fs) :
    fs.map (·.1) = es.map (·.1) := by
  induction es generalizing fs with
  | nil =>
      cases h
      rfl
  | cons e es ih =>
      rw [mapM_cons, Option.bind_eq_some_iff] at h
      obtain ⟨f, hf, h⟩ := h
      obtain ⟨fs, hfs, rfl⟩ := Option.map_eq_some_iff.mp h
      obtain ⟨v, -, rfl⟩ := Option.map_eq_some_iff.mp hf
      rw [List.map_cons, List.map_cons, ih hfs]

/-- An object denotes the mapping of what its values denote, wherever it has white space and
whether or not a comma follows its last property. -/
theorem reads_object (gap pad tail : List Char) (text : Value → List Char)
    (result : Value → Option Value) (hne : es ≠ [])
    (hkeys : ∀ e ∈ es, HasPlainKey e) (hdistinct : (es.map (·.1)).Nodup)
    (hgap : ∀ c ∈ gap, isGap c = true) (hpad : ∀ c ∈ pad, isGap c = true)
    (htail : ∀ rest, Closes '}' (tail ++ rest) rest)
    (h : ∀ e ∈ es, Reads (text e.2) (result e.2)) :
    Reads ('{' :: (gap ++ (Text.joinWith (',' :: gap) (es.map (line pad text)) ++ tail)))
      ((es.mapM fun e => (result e.2).map (e.1, ·)).map .map) := by
  refine ⟨List.cons_ne_nil _ _, fun fuel rest hfuel _ => ?_⟩
  have htailLength : 0 < tail.length := by
    rw [List.length_pos_iff]
    rintro rfl
    rcases (htail []).closed with h | ⟨s, h, -⟩ <;> cases h
  simp only [List.length_append, List.length_cons] at hfuel
  obtain ⟨fuel, rfl⟩ : ∃ k, fuel = k + 1 := ⟨fuel - 1, by omega⟩
  have hline : ∀ e ∈ es, line pad text e ≠ [] := fun e _ => by simp [line]
  have hcount := count_le_joinWith (',' :: gap) (List.forall_mem_map.mpr hline)
  rw [List.length_map] at hcount
  have hproperties : readEntries (readProperty (readLiteral fuel)) '}' fuel
      (Text.joinWith (',' :: gap) (es.map (line pad text)) ++ (tail ++ rest)) =
        (es.mapM fun e => (result e.2).map (e.1, ·)).map (·, rest) := by
    refine readEntries_joinWith hne (by decide) hgap (fun hst => readProperty_congr hst _)
      (fun e he rest hrest => ?_) (htail rest) (by omega)
    have hlength := length_le_joinWith (',' :: gap)
      (List.mem_map_of_mem (f := line pad text) he)
    simp only [line, List.length_append, List.length_cons] at hlength
    exact readProperty_line (hkeys e he) hpad (h e he) (by omega) hrest
  have hgapped : readEntries (readProperty (readLiteral fuel)) '}' fuel
      (gap ++ (Text.joinWith (',' :: gap) (es.map (line pad text)) ++ (tail ++ rest))) =
        (es.mapM fun e => (result e.2).map (e.1, ·)).map (·, rest) := by
    rw [← hproperties]
    have hskip := skipGaps_append hgap
      (Text.joinWith (',' :: gap) (es.map (line pad text)) ++ (tail ++ rest))
    exact readEntries_congr (readProperty_congr hskip _) hskip '}' fuel
  have hbrace : isGap '{' = false := by decide
  rw [List.cons_append, List.append_assoc, List.append_assoc, readLiteral, skipGaps_of_token hbrace]
  simp only [hgapped]
  cases hfs : es.mapM fun e => (result e.2).map (e.1, ·) with
  | none => rfl
  | some fs =>
      have hnodup : (fs.map (·.1)).Nodup := keys_of_mapM hfs ▸ hdistinct
      simp [hnodup]

theorem closes_brace : Closes '}' (' ' :: '}' :: rest) rest :=
  ⟨endsAtom_cons (by decide) _, .inl rfl⟩

theorem closes_comma (hgap : ∀ c ∈ gap, isGap c = true) :
    Closes '}' (',' :: (gap ++ '}' :: rest)) rest := by
  refine ⟨endsAtom_cons (by decide) _, .inr ⟨gap ++ '}' :: rest, ?_, ?_⟩⟩
  · exact skipGaps_of_token (by decide) _
  · rw [skipGaps_append hgap]
    exact skipGaps_of_token (by decide) _

/-- An object without properties has no comma. -/
theorem reads_empty : Reads ['{', '}'] (some (.map [])) := by
  refine ⟨by simp, fun fuel rest hfuel _ => ?_⟩
  obtain ⟨fuel, rfl⟩ : ∃ k, fuel = k + 2 := ⟨fuel - 2, by simp at hfuel; omega⟩
  rfl

/-- A comma that no property is before is refused. -/
theorem reads_comma (hgap : ∀ c ∈ gap, isGap c = true) (s : List Char) :
    Reads ('{' :: (gap ++ ',' :: s)) none := by
  refine ⟨List.cons_ne_nil _ _, fun fuel rest hfuel _ => ?_⟩
  simp only [List.length_append, List.length_cons] at hfuel
  obtain ⟨fuel, rfl⟩ : ∃ k, fuel = k + 2 := ⟨fuel - 2, by omega⟩
  have hbrace : isGap '{' = false := by decide
  have hcomma : skipGaps (gap ++ ',' :: (s ++ rest)) = ',' :: (s ++ rest) := by
    rw [skipGaps_append hgap]
    exact skipGaps_of_token (by decide) _
  have hnone : readEntries (readProperty (readLiteral (fuel + 1))) '}' (fuel + 1)
      (gap ++ ',' :: (s ++ rest)) = none := by
    rw [readEntries, readProperty, hcomma]
    rfl
  rw [List.cons_append, List.append_assoc, List.cons_append, readLiteral, skipGaps_of_token hbrace]
  simp [hnone]

end Script

-- ============================================================================
-- Values
-- ============================================================================

open Script (HasPlainKey IsQuote Reads denoted?)

/-- A value of the kind that JSON has, whose mappings have each key once.  Its numbers may be
infinite, or no numbers. -/
inductive Value.IsJson : Value → Prop
  | scalar {s : Scalar} (plain : s.isPlain = true) : IsJson (.scalar s)
  | list {xs : List Value} (items : ∀ x ∈ xs, IsJson x) : IsJson (.list xs)
  | map {es : Entries} (keys : ∀ e ∈ es, ∃ k, e.1 = .str k) (distinct : (es.map (·.1)).Nodup)
      (values : ∀ e ∈ es, IsJson e.2) : IsJson (.map es)

namespace Value

variable {q : Char} {v : Value} {es : Entries}

mutual

/-- The value without entries that are null, in mappings that are reached through mappings. -/
def prune : Value → Value
  | .map es => .map (pruneEntries es)
  | v => v

/-- The entries that are not null, with pruned values. -/
def pruneEntries : List (Scalar × Value) → List (Scalar × Value)
  | [] => []
  | (k, v) :: es => if v.isNull then pruneEntries es else (k, prune v) :: pruneEntries es

end

mutual

/-- A mapping that is reached through mappings has entries, and all of them are null. -/
def hasHollow : Value → Bool
  | .map es => (!es.isEmpty && es.all (·.2.isNull)) || anyHollow es
  | _ => false

/-- A value of the entries has a hollow mapping. -/
def anyHollow : List (Scalar × Value) → Bool
  | [] => false
  | (_, v) :: es => hasHollow v || anyHollow es

end

/-- The entries that are not null. -/
def filled (es : Entries) : Entries := es.filter (!·.2.isNull)

theorem pruneEntries_eq (es : Entries) :
    pruneEntries es = (filled es).map fun e => (e.1, e.2.prune) := by
  induction es with
  | nil => rfl
  | cons e es ih =>
      obtain ⟨k, v⟩ := e
      rw [pruneEntries, filled, List.filter_cons]
      cases hnull : v.isNull with
      | true => exact ih
      | false => exact congrArg ((k, v.prune) :: ·) ih

theorem anyHollow_eq (es : Entries) : anyHollow es = (filled es).any (·.2.hasHollow) := by
  induction es with
  | nil => rfl
  | cons e es ih =>
      obtain ⟨k, v⟩ := e
      rw [anyHollow, filled, List.filter_cons]
      cases hnull : v.isNull with
      | true =>
          obtain rfl : v = .null := by
            unfold isNull at hnull
            split at hnull
            · rfl
            · cases hnull
          exact ih
      | false => exact congrArg (v.hasHollow || ·) ih

theorem laidOut_eq (q : Char) (width level : Int) (es : Entries) :
    Script.laidOut q width level es =
      (filled es).map
        (Script.line (Text.spaces (width * level)) (Script.layout q width level)) := by
  induction es with
  | nil => rfl
  | cons e es ih =>
      obtain ⟨k, v⟩ := e
      rw [Script.laidOut, filled, List.filter_cons]
      cases hnull : v.isNull with
      | true => exact ih
      | false =>
          show _ :: _ = _ :: _
          rw [← filled, ← ih, Script.line, List.append_assoc]

theorem value_map_eq (q : Char) (hne : es ≠ []) :
    Script.value q (.map es) = '{' :: ([' '] ++ (Text.joinWith (',' :: [' '])
      (es.map (Script.line [] (Script.value q))) ++ [' ', '}'])) := by
  obtain ⟨e, es, rfl⟩ := List.exists_cons_of_ne_nil hne
  rw [Script.value, Script.properties_eq_map]
  rfl

theorem reads_of_exists {s : List Char} {P : Prop}
    (h : ∃ x, Reads s (some x) ∧ (P → x = v)) :
    Reads s (denoted? s) ∧ (denoted? s).isSome = true ∧ (P → denoted? s = some v) := by
  obtain ⟨x, hread, hx⟩ := h
  rw [hread.denoted?_eq]
  exact ⟨hread, rfl, fun hP => congrArg some (hx hP)⟩

theorem hasPlainKeys (hkeys : ∀ e ∈ es, ∃ k, e.1 = .str k) (hquotable : (Value.map es).Quotable) :
    ∀ e ∈ es, HasPlainKey e := by
  cases hquotable with
  | map hplain _ =>
      intro e he
      obtain ⟨k, hk⟩ := hkeys e he
      have hkey := hplain e he
      rw [hk] at hkey
      exact ⟨k, hk, hkey⟩

/-- Every value has a literal on one line, and a value with whole numbers is what it denotes. -/
theorem IsJson.reads_value (hq : IsQuote q) (h : v.IsJson) (hquotable : v.Quotable) :
    Reads (Script.value q v) (denoted? (Script.value q v)) ∧
      (denoted? (Script.value q v)).isSome = true ∧
      (v.IsJsonLike → denoted? (Script.value q v) = some v) := by
  induction h with
  | @scalar s hplain =>
      refine reads_of_exists ?_
      cases s with
      | null => exact ⟨.null, Script.reads_undefined, fun _ => rfl⟩
      | bool b => exact ⟨.bool b, Script.reads_bool q b, fun _ => rfl⟩
      | int i => exact ⟨.int i, Script.reads_int i, fun _ => rfl⟩
      | float x =>
          obtain ⟨w, hread⟩ := Script.exists_reads_double x
          exact ⟨w, hread, nofun⟩
      | str s =>
          cases hquotable with
          | scalar _ htext =>
              have hread := Script.reads_quote hq (htext s rfl)
              rw [String.ofList_toList] at hread
              exact ⟨.str s, hread, fun _ => rfl⟩
      | _ => cases hplain
  | @list xs _ ih =>
      cases hquotable with
      | list hitems =>
          have hread := Script.reads_list (q := q) fun x hx =>
            ⟨(ih x hx (hitems x hx)).1, (ih x hx (hitems x hx)).2.1⟩
          rw [hread.denoted?_eq]
          refine ⟨hread, ?_, fun hlike => ?_⟩
          · rw [Option.isSome_map]
            exact Script.isSome_mapM fun x hx => (ih x hx (hitems x hx)).2.1
          · cases hlike with
            | list hlikes =>
                rw [Script.mapM_eq_self fun x hx => (ih x hx (hitems x hx)).2.2 (hlikes x hx)]
                rfl
  | @map es hkeys hdistinct _ ih =>
      have hplain := hasPlainKeys hkeys hquotable
      cases hquotable with
      | map _ hvalues =>
          by_cases hne : es = []
          · subst hne
            exact reads_of_exists ⟨.map [], Script.reads_empty, fun _ => rfl⟩
          rw [value_map_eq q hne]
          have hread := Script.reads_object [' '] [] [' ', '}'] (Script.value q)
            (fun v => denoted? (Script.value q v)) hne hplain hdistinct
            (List.all_eq_true.mp (by decide)) (by simp) (fun _ => Script.closes_brace)
            fun e he => (ih e he (hvalues e he)).1
          rw [hread.denoted?_eq]
          refine ⟨hread, ?_, fun hlike => ?_⟩
          · rw [Option.isSome_map]
            refine Script.isSome_mapM fun e he => ?_
            rw [Option.isSome_map]
            exact (ih e he (hvalues e he)).2.1
          · cases hlike with
            | map _ _ hlikes =>
                rw [Script.mapM_eq_self fun e he => ?_]
                · rfl
                · rw [(ih e he (hvalues e he)).2.2 (hlikes e he)]
                  rfl

-- ============================================================================
-- Laid out values
-- ============================================================================

theorem IsJson.prune (h : v.IsJson) : v.prune.IsJson := by
  induction h with
  | scalar hplain => exact .scalar hplain
  | list hitems _ => exact .list hitems
  | @map es hkeys hdistinct _ ih =>
      rw [Value.prune, pruneEntries_eq]
      have hfilled : ∀ {e}, e ∈ filled es → e ∈ es := List.mem_of_mem_filter
      refine .map (List.forall_mem_map.mpr fun e he => hkeys e (hfilled he)) ?_
        (List.forall_mem_map.mpr fun e he => ih e (hfilled he))
      rw [List.map_map]
      exact hdistinct.sublist (List.filter_sublist.map _)

theorem Quotable.prune (h : v.Quotable) : v.prune.Quotable := by
  induction h with
  | scalar s htext => exact .scalar s htext
  | list hitems _ => exact .list hitems
  | @map es hkeys _ ih =>
      rw [Value.prune, pruneEntries_eq]
      have hfilled : ∀ {e}, e ∈ filled es → e ∈ es := List.mem_of_mem_filter
      exact .map (List.forall_mem_map.mpr fun e he => hkeys e (hfilled he))
        (List.forall_mem_map.mpr fun e he => ih e (hfilled he))

theorem isGap_spaces (n : Int) : ∀ c ∈ Text.spaces n, Script.isGap c = true := by
  intro c hc
  rw [(List.mem_replicate.mp hc).2]
  decide

theorem layout_map_eq (q : Char) (width level : Int) (hne : es ≠ []) :
    Script.layout q width level (.map es) = '{' :: (['\n'] ++ (Text.joinWith (',' :: ['\n'])
      ((filled es).map (Script.line (Text.spaces (width * (level + 1)))
        (Script.layout q width (level + 1)))) ++
      ',' :: ('\n' :: Text.spaces (width * level) ++ ['}']))) := by
  obtain ⟨e, es, rfl⟩ := List.exists_cons_of_ne_nil hne
  rw [Script.layout, laidOut_eq]
  simp

theorem prune_map_eq (es : Entries) :
    (Value.map es).prune = .map ((filled es).map fun e => (e.1, e.2.prune)) := by
  rw [Value.prune, pruneEntries_eq]

theorem hasHollow_map_of_filled (hne : filled es ≠ []) :
    (Value.map es).hasHollow = (filled es).any (·.2.hasHollow) := by
  have hnull : es.all (·.2.isNull) = false := by
    rw [← Bool.not_eq_true, List.all_eq_true]
    intro hall
    refine hne (List.filter_eq_nil_iff.mpr fun e he => ?_)
    rw [hall e he]
    simp
  rw [hasHollow, hnull, anyHollow_eq, Bool.and_false, Bool.false_or]

/-- What the pruned mapping denotes is made of what the pruned values do. -/
theorem denoted?_prune_map (hfilled : filled es ≠ []) (hkeys : ∀ e ∈ filled es, HasPlainKey e)
    (hdistinct : ((filled es).map (·.1)).Nodup)
    (h : ∀ e ∈ filled es, Reads (Script.value q e.2.prune) (denoted? (Script.value q e.2.prune))) :
    denoted? (Script.value q (Value.map es).prune) =
      ((filled es).mapM fun e => (denoted? (Script.value q e.2.prune)).map (e.1, ·)).map .map := by
  have hread := Script.reads_object [' '] [] [' ', '}'] (fun v => Script.value q v.prune)
    (fun v => denoted? (Script.value q v.prune)) hfilled hkeys hdistinct
    (List.all_eq_true.mp (by decide)) (by simp) (fun _ => Script.closes_brace) h
  rw [prune_map_eq, value_map_eq q (by simpa using hfilled), List.map_map]
  exact hread.denoted?_eq

/-- Properties with lines of their own denote what they do by themselves. -/
theorem reads_layout_map (q : Char) (width level : Int) (result : Value → Option Value)
    (hfilled : filled es ≠ []) (hkeys : ∀ e ∈ filled es, HasPlainKey e)
    (hdistinct : ((filled es).map (·.1)).Nodup)
    (h : ∀ e ∈ filled es, Reads (Script.layout q width (level + 1) e.2) (result e.2)) :
    Reads (Script.layout q width level (.map es))
      (((filled es).mapM fun e => (result e.2).map (e.1, ·)).map .map) := by
  have hne : es ≠ [] := by
    rintro rfl
    exact hfilled rfl
  have hgap : ∀ c ∈ '\n' :: Text.spaces (width * level), Script.isGap c = true :=
    List.forall_mem_cons.mpr ⟨by decide, isGap_spaces _⟩
  rw [layout_map_eq q width level hne]
  refine Script.reads_object ['\n'] (Text.spaces (width * (level + 1))) _
    (Script.layout q width (level + 1)) result hfilled hkeys hdistinct
    (List.all_eq_true.mp (by decide)) (isGap_spaces _) (fun rest => ?_) h
  have hcloses : Script.Closes '}' _ rest := Script.closes_comma hgap
  simpa using hcloses

/-- A laid out value denotes what the pruned value on one line does, and nothing if there is a
hollow mapping in it. -/
theorem IsJson.reads_layout (hq : IsQuote q) (width : Int) (h : v.IsJson) (hquotable : v.Quotable)
    (level : Int) : Reads (Script.layout q width level v)
      (if v.hasHollow then none else denoted? (Script.value q v.prune)) := by
  induction h generalizing level with
  | scalar hplain => exact ((IsJson.scalar hplain).reads_value hq hquotable).1
  | list hitems _ => exact ((IsJson.list hitems).reads_value hq hquotable).1
  | @map es hkeys hdistinct hvalues ih =>
      by_cases hne : es = []
      · subst hne
        exact ((IsJson.map hkeys hdistinct hvalues).reads_value hq hquotable).1
      by_cases hfilled : filled es = []
      · -- nothing stands before the comma
        have hnull : es.all (·.2.isNull) = true := List.all_eq_true.mpr fun e he => by
          simpa using List.filter_eq_nil_iff.mp hfilled e he
        have hhollow : (Value.map es).hasHollow = true := by
          rw [hasHollow, hnull, List.isEmpty_eq_false_iff.mpr hne]
          rfl
        rw [hhollow, if_pos rfl, layout_map_eq q width level hne, hfilled]
        exact Script.reads_comma (List.all_eq_true.mp (by decide)) _
      have hmem : ∀ e ∈ filled es, e ∈ es := fun e => List.mem_of_mem_filter
      have hplain := fun e he => hasPlainKeys hkeys hquotable e (hmem e he)
      have hnodup : ((filled es).map (·.1)).Nodup := hdistinct.sublist (List.filter_sublist.map _)
      cases hquotable with
      | map _ hquotables =>
          have hread := reads_layout_map q width level
            (fun v => if v.hasHollow then none else denoted? (Script.value q v.prune))
            hfilled hplain hnodup fun e he =>
              ih e (hmem e he) (hquotables e (hmem e he)) (level + 1)
          rw [hasHollow_map_of_filled hfilled]
          cases hany : (filled es).any (·.2.hasHollow) with
          | true =>
              obtain ⟨e, he, hhollow⟩ := List.any_eq_true.mp hany
              rw [Script.mapM_eq_none he (by simp [hhollow])] at hread
              exact hread
          | false =>
              rw [List.any_eq_false] at hany
              have hpruned := denoted?_prune_map hfilled hplain hnodup fun e he =>
                ((hvalues e (hmem e he)).prune.reads_value hq (hquotables e (hmem e he)).prune).1
              rw [Script.mapM_congr fun e he => by rw [if_neg (hany e he)], ← hpruned] at hread
              exact hread

/-- A value of the kind that JSON has, laid out over lines, is a literal of what the value without
null entries is on one line, whatever the quote, the width and the level; and it is none at all if
a mapping in it has only null entries.  A value with whole numbers is what its literal denotes. -/
theorem layout_denotes_pruned (q : Char) (hq : IsQuote q) (width level : Int) (v : Value)
    (hv : v.IsJson) (hquotable : v.Quotable) :
    denoted? (Script.layout q width level v) =
        (if v.hasHollow then none else denoted? (Script.value q v.prune)) ∧
      (denoted? (Script.value q v.prune)).isSome = true ∧
      (v.prune.IsJsonLike → denoted? (Script.value q v.prune) = some v.prune) :=
  ⟨(hv.reads_layout hq width hquotable level).denoted?_eq,
    (hv.prune.reads_value hq hquotable.prune).2⟩

/-- A configuration with entries that are null at two levels, an empty mapping, and a mapping in a
list that keeps its null entry. -/
def configuration : Value := .map
  [(.str "app", .map [(.str "name", .str "it's"), (.str "port", .null), (.str "env", .map [])]),
    (.str "log-level", .null),
    (.str "rate", .float (.finite true 5629499534213120 (-51))),
    (.str "tags", .list [.int (-1), .map [(.str "a", .null)]])]

theorem configuration_denoted :
    String.ofList (Script.layout '\'' 2 0 configuration) =
        "\x7b\n  app: \x7b\n    name: 'it\\'s',\n    env: \x7b\x7d,\n  \x7d,\n  rate: -2.5,\n" ++
          "  tags: [-1, \x7b a: undefined \x7d],\n\x7d" ∧
      denoted? (Script.layout '\'' 2 0 configuration) =
        denoted? (Script.value '\'' configuration.prune) ∧
      (denoted? (Script.value '\'' configuration.prune)).isSome = true := by
  have hjson : configuration.IsJson := by
    refine .map (by simp) (by decide) (List.forall_mem_cons.mpr ⟨.map (by simp) (by decide) ?_,
      List.forall_mem_cons.mpr ⟨.scalar rfl, List.forall_mem_cons.mpr ⟨.scalar rfl,
        List.forall_mem_cons.mpr ⟨.list ?_, List.forall_mem_nil _⟩⟩⟩⟩)
    · simpa using ⟨IsJson.scalar rfl, .scalar rfl, .map (by simp) (by decide) (by simp)⟩
    · simpa using ⟨IsJson.scalar rfl, .map (by simp) (by decide) (by simpa using .scalar rfl)⟩
  have hquotable : configuration.Quotable := by
    refine .map (by decide) (List.forall_mem_cons.mpr ⟨.map (by decide) ?_,
      List.forall_mem_cons.mpr ⟨.scalar _ nofun, List.forall_mem_cons.mpr ⟨.scalar _ nofun,
        List.forall_mem_cons.mpr ⟨.list ?_, List.forall_mem_nil _⟩⟩⟩⟩)
    · simpa using ⟨Quotable.scalar _ (by rintro t ⟨⟩; decide), .scalar _ nofun,
        .map (by simp) (by simp)⟩
    · simpa using ⟨Quotable.scalar _ nofun, .map (by decide) (by simpa using .scalar _ nofun)⟩
  obtain ⟨hlayout, hsome, -⟩ :=
    layout_denotes_pruned '\'' (.inl rfl) 2 0 configuration hjson hquotable
  exact ⟨by decide +kernel, hlayout.trans (if_neg (by decide)), hsome⟩

-- All entries are null, and a comma is left of them.
example : Script.layout '\'' 2 0 (.map [(.str "a", .null)]) = "\x7b\n,\n\x7d".toList ∧
    denoted? "\x7b\n,\n\x7d".toList = none := ⟨by decide, rfl⟩

end Value

end Flowscript

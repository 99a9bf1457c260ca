/-
  Flowscript.Proofs.SharedText

  The JSON texts that are YAML texts of the same value.

  YAML 1.1 is close to a superset of JSON, but for tabs between tokens, keys that are long
  or apart from their colons, exponents without a fraction or a sign, and some characters.
  `Shared.Begins` is the grammar of JSON without these: a text begins with a tree and goes
  on with what is left.  A tree is what both readers make of a text: words, strings, lists
  and objects with all members in order, repeated ones too.
-/
import Flowscript.Json.Reader
import Flowscript.Yaml.Place
import Mathlib.Data.List.TakeDrop
import Mathlib.Tactic.Tauto

namespace Flowscript.Shared

-- ============================================================================
-- Gaps and words
-- ============================================================================

/-- White space between tokens: no tab. -/
def isGap (c : Char) : Bool := c = ' ' || c = '\n' || c = '\r'

/-- A text begins with white space, maybe none, and goes on with another one. -/
def Gap (s r : List Char) : Prop := ∃ g, s = g ++ r ∧ ∀ c ∈ g, isGap c = true

/-- What may follow a word: white space, the next token, or nothing. -/
def Ends (r : List Char) : Prop :=
  ∀ c, r.head? = some c → isGap c = true ∨ c = ',' ∨ c = ']' ∨ c = '}'

theorem Ends.head_cases {r : List Char} (h : Ends r) {c : Char} (hc : r.head? = some c) :
    c = ' ' ∨ c = '\n' ∨ c = '\r' ∨ c = ',' ∨ c = ']' ∨ c = '}' := by
  rcases h c hc with hgap | h
  · simp only [isGap, Bool.or_eq_true, decide_eq_true_eq] at hgap
    tauto
  · tauto

/-- The digits of an integer: no zero in front of others. -/
def IsWhole (ds : List Char) : Prop :=
  ds = ['0'] ∨ ∃ c cs, ds = c :: cs ∧ c ≠ '0' ∧ ∀ d ∈ ds, d.isDigit = true

/-- A run of digits, not empty. -/
def IsDigits (ds : List Char) : Prop := ds ≠ [] ∧ ∀ d ∈ ds, d.isDigit = true

/-- The sign of a negative number. -/
def sign (negative : Bool) : List Char := if negative then ['-'] else []

/-- An exponent, which has a sign, or none. -/
inductive Exponent : Int → List Char → Prop
  | absent : Exponent 0 []
  | minus {e : Char} {ds : List Char} : e = 'e' ∨ e = 'E' → IsDigits ds →
      Exponent (-(digitsValue ds : Int)) (e :: '-' :: ds)
  | plus {e : Char} {ds : List Char} : e = 'e' ∨ e = 'E' → IsDigits ds →
      Exponent (digitsValue ds) (e :: '+' :: ds)

/-- A word and the scalar it stands for. -/
inductive Word : Scalar → List Char → Prop
  | null : Word .null "null".toList
  | yes : Word (.bool true) "true".toList
  | no : Word (.bool false) "false".toList
  | int (negative : Bool) {ds : List Char} : IsWhole ds →
      Word (.int (if negative then -(digitsValue ds : Int) else digitsValue ds))
        (sign negative ++ ds)
  | float (negative : Bool) {ds places x : List Char} {e : Int} : IsWhole ds → IsDigits places →
      Exponent e x →
      Word (.float (Double.ofDecimal negative (digitsValue (ds ++ places)) (e - places.length)))
        (sign negative ++ ds ++ '.' :: places ++ x)

-- ============================================================================
-- Strings
-- ============================================================================

/-- A character that stands for itself in a string. -/
def isBare (c : Char) : Bool :=
  c ≠ '"' && c ≠ '\\' && 0x20 ≤ c.toNat && Yaml.isAllowed c && !Yaml.isBreak c

/-- Half of a character that is written as two code units. -/
def isSurrogate (u : Nat) : Bool := 0xD800 ≤ u && u < 0xE000

/-- The inside of a string, up to its closing quote. -/
inductive Codes : List Nat → List Char → List Char → Prop
  | close {r : List Char} : Codes [] ('"' :: r) r
  | bare {c : Char} {us : List Nat} {s r : List Char} : isBare c = true → Codes us s r →
      Codes (c.toNat :: us) (c :: s) r
  | escape {c e : Char} {us : List Nat} {s r : List Char} : Json.escaped? c = some e →
      Codes us s r → Codes (e.toNat :: us) ('\\' :: c :: s) r
  | code {a b c d : Char} {u : Nat} {us : List Nat} {s r : List Char} :
      Json.unit? a b c d = some u → isSurrogate u = false → Codes us s r →
      Codes (u :: us) ('\\' :: 'u' :: a :: b :: c :: d :: s) r

/-- The text of code points. -/
def textOf (us : List Nat) : String := String.ofList (Json.joinSurrogates us)

-- ============================================================================
-- Trees
-- ============================================================================

/-- What a text is made of.  A leaf is a scalar with the text it has without quotes. -/
inductive Tree where
  | leaf (isPlain : Bool) (text : String) (value : Scalar)
  | list (items : List Tree)
  | map (members : List (String × Tree))

namespace Tree

mutual

/-- The value of a tree. -/
def value : Tree → Value
  | .leaf _ _ v => .scalar v
  | .list ts => .list (values ts)
  | .map ms => .map (entries [] ms)

/-- The values of several trees. -/
def values : List Tree → List Value
  | [] => []
  | t :: ts => t.value :: values ts

/-- The entries of an object after those read before. -/
def entries (done : Entries) : List (String × Tree) → Entries
  | [] => done
  | (k, t) :: ms => entries (done.insert (.str k) t.value) ms

end

mutual

/-- No integer has more digits than can be read. -/
def isShort : Tree → Bool
  | .leaf _ text (.int _) => text.toList.countP Char.isDigit ≤ Decimal.maxIntegerDigits
  | .leaf .. => true
  | .list ts => areShort ts
  | .map ms => membersShort ms

def areShort : List Tree → Bool
  | [] => true
  | t :: ts => t.isShort && areShort ts

def membersShort : List (String × Tree) → Bool
  | [] => true
  | (_, t) :: ms => t.isShort && membersShort ms

end

mutual

/-- How many collections are inside each other. -/
def depth : Tree → Nat
  | .leaf .. => 0
  | .list ts => depthItems ts + 1
  | .map ms => depthMembers ms + 1

def depthItems : List Tree → Nat
  | [] => 0
  | t :: ts => max t.depth (depthItems ts)

def depthMembers : List (String × Tree) → Nat
  | [] => 0
  | (_, t) :: ms => max t.depth (depthMembers ms)

end

end Tree

-- ============================================================================
-- Texts
-- ============================================================================

/-- How far the colon can be from the start of its key. -/
def keyReach : Nat := 1024

mutual

/-- A text begins with a tree, and goes on with another text. -/
inductive Begins : Tree → List Char → List Char → Prop
  | word {v : Scalar} {w r : List Char} : Word v w → Ends r →
      Begins (.leaf true (String.ofList w) v) (w ++ r) r
  | string {us : List Nat} {s r : List Char} : Codes us s r →
      Begins (.leaf false (textOf us) (.str (textOf us))) ('"' :: s) r
  | emptyList {s r : List Char} : Gap s (']' :: r) → Begins (.list []) ('[' :: s) r
  | list {ts : List Tree} {s r : List Char} : Items ts s r → Begins (.list ts) ('[' :: s) r
  | emptyMap {s r : List Char} : Gap s ('}' :: r) → Begins (.map []) ('{' :: s) r
  | map {ms : List (String × Tree)} {s r : List Char} : Members ms s r →
      Begins (.map ms) ('{' :: s) r

/-- The items of a list, up to its closing bracket. -/
inductive Items : List Tree → List Char → List Char → Prop
  | last {t : Tree} {s s₁ s₂ r : List Char} : Gap s s₁ → Begins t s₁ s₂ → Gap s₂ (']' :: r) →
      Items [t] s r
  | cons {t : Tree} {ts : List Tree} {s s₁ s₂ s₃ r : List Char} : Gap s s₁ → Begins t s₁ s₂ →
      Gap s₂ (',' :: s₃) → Items ts s₃ r → Items (t :: ts) s r

/-- A member of an object.  Only spaces are between the key and its colon, and the colon is not
far from where the key starts. -/
inductive Member : String × Tree → List Char → List Char → Prop
  | mk {us : List Nat} {t : Tree} {s s₁ r spaces : List Char} :
      Codes us s (spaces ++ ':' :: s₁) → (∀ c ∈ spaces, c = ' ') →
      s.length ≤ s₁.length + keyReach → ∀ {s₂ : List Char}, Gap s₁ s₂ → Begins t s₂ r →
      Member (textOf us, t) ('"' :: s) r

/-- The members of an object, up to its closing brace. -/
inductive Members : List (String × Tree) → List Char → List Char → Prop
  | last {m : String × Tree} {s s₁ s₂ r : List Char} : Gap s s₁ → Member m s₁ s₂ →
      Gap s₂ ('}' :: r) → Members [m] s r
  | cons {m : String × Tree} {ms : List (String × Tree)} {s s₁ s₂ s₃ r : List Char} : Gap s s₁ →
      Member m s₁ s₂ → Gap s₂ (',' :: s₃) → Members ms s₃ r → Members (m :: ms) s r

end

-- ============================================================================
-- Lengths and first characters
-- ============================================================================

theorem Gap.length_le {s r : List Char} (h : Gap s r) : r.length ≤ s.length := by
  obtain ⟨g, rfl, -⟩ := h
  simp

theorem Codes.length_lt {us : List Nat} {s r : List Char} (h : Codes us s r) :
    r.length < s.length := by
  induction h with
  | close => simp
  | bare _ _ ih | escape _ _ ih | code _ _ _ ih =>
      simp only [List.length_cons]
      omega

/-- The first digit of an integer. -/
theorem IsWhole.exists_cons {ds : List Char} (h : IsWhole ds) :
    ∃ d cs, ds = d :: cs ∧ d.isDigit = true := by
  rcases h with rfl | ⟨d, cs, rfl, -, hall⟩
  · exact ⟨_, _, rfl, by decide⟩
  · exact ⟨d, cs, rfl, hall d List.mem_cons_self⟩

/-- A character that a tree begins with. -/
def startsTree (c : Char) : Bool :=
  c = '"' || c = '[' || c = '{' || c = '-' || c = 'n' || c = 't' || c = 'f' || c.isDigit

theorem Word.exists_cons {v : Scalar} {w : List Char} (h : Word v w) :
    ∃ c cs, w = c :: cs ∧ startsTree c = true := by
  have hnumber : ∀ (negative : Bool) {ds : List Char} (x : List Char), IsWhole ds →
      ∃ c cs, sign negative ++ ds ++ x = c :: cs ∧ startsTree c = true := by
    intro negative ds x hds
    obtain ⟨d, cs, rfl, hd⟩ := hds.exists_cons
    cases negative with
    | true => exact ⟨_, _, rfl, by decide⟩
    | false => exact ⟨_, _, rfl, by simp [startsTree, hd]⟩
  cases h with
  | null => exact ⟨_, _, rfl, by decide⟩
  | yes => exact ⟨_, _, rfl, by decide⟩
  | no => exact ⟨_, _, rfl, by decide⟩
  | int negative hds => simpa using hnumber negative [] hds
  | @float negative ds places x _ hds _ _ => simpa using hnumber negative ('.' :: places ++ x) hds

/-- A tree is not empty, and its first character says so. -/
theorem Begins.exists_cons {t : Tree} {s r : List Char} (h : Begins t s r) :
    ∃ c cs, s = c :: cs ∧ startsTree c = true := by
  cases h with
  | @word _ _ r hw _ =>
      obtain ⟨c, cs, rfl, hc⟩ := hw.exists_cons
      exact ⟨c, cs ++ r, rfl, hc⟩
  | _ => exact ⟨_, _, rfl, by decide⟩

mutual

theorem Begins.length_lt {t : Tree} {s r : List Char} (h : Begins t s r) :
    r.length < s.length := by
  cases h with
  | word hw _ =>
      obtain ⟨c, cs, rfl, -⟩ := hw.exists_cons
      simp only [List.length_append, List.length_cons]
      omega
  | string h =>
      have hlt := h.length_lt
      simp only [List.length_cons]
      omega
  | emptyList h | emptyMap h =>
      have hle := h.length_le
      simp only [List.length_cons] at hle ⊢
      omega
  | list h =>
      have hlt := h.length_lt
      simp only [List.length_cons]
      omega
  | map h =>
      have hlt := h.length_lt
      simp only [List.length_cons]
      omega

theorem Items.length_lt {ts : List Tree} {s r : List Char} (h : Items ts s r) :
    r.length < s.length := by
  cases h with
  | last hgap hitem hend =>
      have hstart := hgap.length_le
      have htree := hitem.length_lt
      have hle := hend.length_le
      rw [List.length_cons] at hle
      omega
  | cons hgap hitem hcomma hitems =>
      have hstart := hgap.length_le
      have htree := hitem.length_lt
      have hle := hcomma.length_le
      have hrest := hitems.length_lt
      rw [List.length_cons] at hle
      omega

theorem Member.length_lt {m : String × Tree} {s r : List Char} (h : Member m s r) :
    r.length < s.length := by
  cases h with
  | mk hkey _ _ hgap hvalue =>
      have hquote := hkey.length_lt
      have hstart := hgap.length_le
      have htree := hvalue.length_lt
      simp only [List.length_append, List.length_cons] at hquote ⊢
      omega

theorem Members.length_lt {ms : List (String × Tree)} {s r : List Char} (h : Members ms s r) :
    r.length < s.length := by
  cases h with
  | last hgap hmember hend =>
      have hstart := hgap.length_le
      have htree := hmember.length_lt
      have hle := hend.length_le
      rw [List.length_cons] at hle
      omega
  | cons hgap hmember hcomma hmembers =>
      have hstart := hgap.length_le
      have htree := hmember.length_lt
      have hle := hcomma.length_le
      have hrest := hmembers.length_lt
      rw [List.length_cons] at hle
      omega

end

/-- A whole text is a tree with white space around it. -/
def Document (t : Tree) (s : List Char) : Prop := ∃ s₁ s₂, Gap s s₁ ∧ Begins t s₁ s₂ ∧ Gap s₂ []

end Flowscript.Shared

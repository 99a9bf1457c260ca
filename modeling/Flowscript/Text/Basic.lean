/-
  Flowscript.Text.Basic

  Cutting and joining of texts.  A text is a list of characters; strings enter and
  leave through `toList` and `ofList`.  `splitOn` cuts at every occurrence of one
  character and `joinWith` puts the pieces together again.
-/

namespace Flowscript.Text

/-! ## Joining -/

/-- The pieces one after another with `sep` between neighbours. -/
def joinWith (sep : List Char) : List (List Char) → List Char
  | [] => []
  | [p] => p
  | p :: q :: rest => p ++ sep ++ joinWith sep (q :: rest)

@[simp] theorem joinWith_nil (sep : List Char) : joinWith sep [] = [] := rfl

@[simp] theorem joinWith_singleton (sep p : List Char) : joinWith sep [p] = p := rfl

@[simp] theorem joinWith_cons_cons (sep p q : List Char) (rest : List (List Char)) :
    joinWith sep (p :: q :: rest) = p ++ sep ++ joinWith sep (q :: rest) := rfl

/-- The strings one after another with `sep` between neighbours. -/
def join (sep : String) (parts : List String) : String :=
  String.ofList (joinWith sep.toList (parts.map String.toList))

/-! ## Splitting -/

/-- Cuts at every `c`; there is always at least one piece. -/
def splitOn (c : Char) : List Char → List (List Char)
  | [] => [[]]
  | d :: rest =>
    if d = c then [] :: splitOn c rest
    else match splitOn c rest with
      | [] => [[d]]
      | piece :: pieces => (d :: piece) :: pieces

@[simp] theorem splitOn_nil (c : Char) : splitOn c [] = [[]] := rfl

theorem splitOn_ne_nil (c : Char) (s : List Char) : splitOn c s ≠ [] := by
  cases s with
  | nil => simp
  | cons d rest =>
    simp only [splitOn]
    split
    · simp
    · split <;> simp

/-- Splitting loses nothing but the separators. -/
theorem joinWith_splitOn (c : Char) (s : List Char) : joinWith [c] (splitOn c s) = s := by
  induction s with
  | nil => rfl
  | cons d rest ih =>
    simp only [splitOn]
    cases h : splitOn c rest with
    | nil => exact absurd h (splitOn_ne_nil c rest)
    | cons piece pieces =>
      rw [h] at ih
      split
      · next hd => simp [hd, ih]
      · cases pieces with
        | nil => simpa using ih
        | cons q qs => simpa using ih

/-- The text before the first `c` and, if there is one, the text after it. -/
def cutAt (c : Char) : List Char → List Char × Option (List Char)
  | [] => ([], none)
  | d :: rest =>
    if d = c then ([], some rest)
    else let (head, tail) := cutAt c rest; (d :: head, tail)

/-! ## Prefixes and replacement -/

/-- What follows `p` in `s`, if `s` starts with `p`. -/
def after? : List Char → List Char → Option (List Char)
  | [], s => some s
  | _ :: _, [] => none
  | a :: p, b :: s => if a = b then after? p s else none

@[simp] theorem after?_nil (s : List Char) : after? [] s = some s := by
  cases s <;> rfl

theorem after?_append (p s : List Char) : after? p (p ++ s) = some s := by
  induction p with
  | nil => simp
  | cons a p ih => simp [after?, ih]

theorem eq_append_of_after? {p s r : List Char} (h : after? p s = some r) : s = p ++ r := by
  induction p generalizing s with
  | nil => simpa using h
  | cons a p ih =>
    cases s with
    | nil => simp [after?] at h
    | cons b s =>
      simp only [after?] at h
      split at h
      · next hab => simp [hab, ih h]
      · exact absurd h (by simp)

/-- `s` starts with `p`. -/
def startsWith (p s : List Char) : Bool := (after? p s).isSome

/-- `s` ends with `p`. -/
def endsWith (p s : List Char) : Bool := startsWith p.reverse s.reverse

/-- Replaces occurrences of `old`, which is not empty, from left to right; `skip` characters of
the last occurrence are still to be dropped. -/
def replaceFrom (old new : List Char) : Nat → List Char → List Char
  | _, [] => []
  | skip + 1, _ :: rest => replaceFrom old new skip rest
  | 0, c :: rest =>
    if startsWith old (c :: rest) then new ++ replaceFrom old new (old.length - 1) rest
    else c :: replaceFrom old new 0 rest

/-- Replaces every occurrence of `old` by `new`, from left to right. -/
def replace (old new s : List Char) : List Char :=
  if old.isEmpty then s else replaceFrom old new 0 s

/-- Replaces every occurrence of a character by a text. -/
def replaceChar (c : Char) (new s : List Char) : List Char :=
  s.flatMap fun d => if d = c then new else [d]

@[simp] theorem replaceChar_nil (c : Char) (new : List Char) : replaceChar c new [] = [] := rfl

@[simp] theorem replaceChar_cons (c d : Char) (new s : List Char) :
    replaceChar c new (d :: s) = (if d = c then new else [d]) ++ replaceChar c new s := by
  simp [replaceChar]

theorem replaceChar_append (c : Char) (new s t : List Char) :
    replaceChar c new (s ++ t) = replaceChar c new s ++ replaceChar c new t := by
  simp [replaceChar]

/-- Without one line feed at the end. -/
def dropFinalNewline (s : List Char) : List Char :=
  if s.getLast? = some '\n' then s.dropLast else s

/-! ## Order -/

/-- Texts in the order of their code points. -/
def le (a b : String) : Bool := !decide (b < a)

/-- Strings sorted by code points; equal strings keep their places. -/
def sort (xs : List String) : List String := xs.mergeSort le

/-- The strings without repetition, in the order of their first occurrence. -/
def distinct (xs : List String) : List String := xs.eraseDups

/-- `n` copies of a text. -/
def times (n : Nat) (s : List Char) : List Char := (List.replicate n s).flatten

/-- `n` spaces; a negative count gives none. -/
def spaces (n : Int) : List Char := List.replicate n.toNat ' '

/-! ## Plain numbers -/

/-- The decimal digits of a natural number. -/
def natDigits (n : Nat) : List Char := Nat.toDigits 10 n

/-- An integer in decimal, with a minus sign below zero. -/
def intDigits : Int → List Char
  | .ofNat n => natDigits n
  | .negSucc n => '-' :: natDigits (n + 1)

/-- A natural number in decimal. -/
def ofNat (n : Nat) : String := String.ofList (natDigits n)

end Flowscript.Text

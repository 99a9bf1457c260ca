/-
  Flowscript.Proofs.TypeReading

  How the generated language reads types.

  A type is a union of one or more types that bars stand between, and pairs of brackets
  after a type bind closer than bars do.  Among the types with arguments only the two of
  generated code are read, and no type is in parentheses.  The text of a shape is read as
  the type that the shape stands for (`Shape.typeOf?_text`), so shapes of one text stand for
  one type.
-/
import Flowscript.Script.Shape
import Flowscript.Proofs.LiteralReading

namespace Flowscript

theorem Text.toList_join (sep : String) (parts : List String) :
    (join sep parts).toList = joinWith sep.toList (parts.map String.toList) :=
  String.toList_ofList

namespace Script

open Naming (isIdentifierPart)

variable {c : Char} {s t : List Char}

-- ============================================================================
-- Tokens
-- ============================================================================

/-- A word, or a character that is in no word. -/
inductive Token where
  | word (w : List Char)
  | sign (c : Char)
deriving DecidableEq, Repr

/-- The tokens of a text. -/
def tokens : List Char → List Token
  | [] => []
  | c :: s =>
    if isGap c then tokens s
    else if isIdentifierPart c then
      if s.head?.any isIdentifierPart then
        match tokens s with
        | .word w :: ts => .word (c :: w) :: ts
        | ts => .word [c] :: ts
      else .word [c] :: tokens s
    else .sign c :: tokens s

/-- A character of a word is in the first token. -/
theorem exists_tokens_eq_word (hc : isIdentifierPart c = true) (s : List Char) :
    ∃ w ts, tokens (c :: s) = .word w :: ts := by
  rw [tokens, isGap_of_isIdentifierPart hc, if_neg Bool.false_ne_true, if_pos hc]
  split
  · split
    · exact ⟨_, _, rfl⟩
    · exact ⟨_, _, rfl⟩
  · exact ⟨_, _, rfl⟩

/-- Texts that no word goes across have their own tokens. -/
theorem tokens_append (h : (∃ c, s.getLast? = some c ∧ isIdentifierPart c = false) ∨ EndsWord t) :
    tokens (s ++ t) = tokens s ++ tokens t := by
  induction s with
  | nil => rfl
  | cons c s ih =>
      cases s with
      | nil =>
          rw [List.singleton_append]
          by_cases hc : isIdentifierPart c = true
          · have hends : EndsWord t := by
              rcases h with ⟨d, hd, hpart⟩ | h
              · obtain rfl : c = d := by simpa using hd
                rw [hc] at hpart
                cases hpart
              · exact h
            have hhead : t.head?.any isIdentifierPart = false := by
              cases t with
              | nil => rfl
              | cons d t => exact hends d rfl
            simp [tokens, isGap_of_isIdentifierPart hc, hc, hhead]
          · by_cases hgap : isGap c = true
            · simp [tokens, hgap]
            · simp [tokens, hgap, hc]
      | cons d s =>
          have hrest := ih (by simpa using h)
          have hhead : (d :: s ++ t).head? = (d :: s).head? := rfl
          rw [List.cons_append, tokens, hhead, hrest, tokens.eq_def (c :: d :: s)]
          dsimp only
          split
          · rfl
          · split
            · split
              · next hpart =>
                obtain ⟨w, ts, hw⟩ := exists_tokens_eq_word (by simpa using hpart) s
                rw [hw]
                rfl
              · rfl
            · rfl

-- ============================================================================
-- Types
-- ============================================================================

/-- A type of the generated language: of texts, numbers, truth values, everything, nothing, and
objects with text keys, of lists of a type, and of the values of two types. -/
inductive TypeExpr where
  | string
  | number
  | boolean
  | unknown
  | never
  | record
  | array (item : TypeExpr)
  | union (first second : TypeExpr)
deriving DecidableEq, Repr

namespace TypeExpr

/-- The value has the type. -/
def admits : TypeExpr → Value → Bool
  | .string, v => match v with
    | .str _ => true
    | _ => false
  | .number, v => match v with
    | .int _ | .float _ => true
    | _ => false
  | .boolean, v => match v with
    | .bool _ => true
    | _ => false
  | .unknown, _ => true
  | .never, _ => false
  | .record, v => match v with
    | .map _ => true
    | _ => false
  | .array t, v => match v with
    | .list xs => xs.all fun x => admits t x
    | _ => false
  | .union t u, v => admits t v || admits u v

/-- The types that a type is the union of. -/
def alternatives : TypeExpr → List TypeExpr
  | .union t u => alternatives t ++ alternatives u
  | t => [t]

/-- A value has a type if it has one of the alternatives. -/
theorem admits_iff_alternatives (t : TypeExpr) (v : Value) :
    t.admits v = true ↔ ∃ a ∈ t.alternatives, a.admits v = true := by
  induction t with
  | union t u iht ihu =>
      rw [admits, Bool.or_eq_true, iht, ihu, alternatives]
      simp only [List.mem_append, or_and_right, exists_or]
  | _ => simp [alternatives]

/-- The union of types. -/
def unionOf : List TypeExpr → TypeExpr
  | [] => .never
  | [t] => t
  | t :: u :: ts => .union t (unionOf (u :: ts))

end TypeExpr

/-- The type of a name. -/
def named? (w : List Char) : Option TypeExpr :=
  if w = "string".toList then some .string
  else if w = "number".toList then some .number
  else if w = "boolean".toList then some .boolean
  else if w = "unknown".toList then some .unknown
  else if w = "never".toList then some .never
  else none

/-- Reads brackets after a type. -/
def readBrackets (t : TypeExpr) : List Token → TypeExpr × List Token
  | .sign '[' :: .sign ']' :: ts => readBrackets (.array t) ts
  | ts => (t, ts)

/-- Reads a name, which may have arguments, and brackets after it; `inner` reads an argument. -/
def readNamed (inner : List Token → Option (TypeExpr × List Token)) :
    List Token → Option (TypeExpr × List Token)
  | .word w :: ts =>
    if w = "Array".toList then match ts with
      | .sign '<' :: ts => (inner ts).bind fun
        | (t, .sign '>' :: ts) => some (readBrackets (.array t) ts)
        | _ => none
      | _ => none
    else if w = "Record".toList then match ts with
      | .sign '<' :: .word k :: .sign ',' :: .word e :: .sign '>' :: ts =>
        if k = "string".toList ∧ e = "unknown".toList then some (readBrackets .record ts) else none
      | _ => none
    else (named? w).map fun t => readBrackets t ts
  | _ => none

/-- Reads a type, and the tokens after it; every call uses up one unit of fuel. -/
def readType : Nat → List Token → Option (TypeExpr × List Token)
  | 0, _ => none
  | fuel + 1, ts => (readNamed (readType fuel) ts).bind fun
    | (t, .sign '|' :: ts) => (readType fuel ts).map fun (u, ts) => (.union t u, ts)
    | r => some r

/-- The type that a text is read as. -/
def typeOf? (s : List Char) : Option TypeExpr :=
  match readType ((tokens s).length + 1) (tokens s) with
  | some (t, []) => some t
  | _ => none

/-- Brackets belong to the type right before them. -/
example : typeOf? "string | number[]".toList = some (.union .string (.array .number)) ∧
    typeOf? "Array<string | number>[]".toList =
      some (.array (.array (.union .string .number))) := ⟨rfl, rfl⟩

-- ============================================================================
-- The types of shapes
-- ============================================================================

namespace Shape

variable {ss : List Shape}

mutual

/-- The type that a shape stands for. -/
def toType : Shape → TypeExpr
  | .string => .string
  | .number => .number
  | .boolean => .boolean
  | .record => .record
  | .unknown => .unknown
  | .array item => .array (toType item)
  | .mixed items => .array (.unionOf (toTypes items))

def toTypes : List Shape → List TypeExpr
  | [] => []
  | s :: ss => toType s :: toTypes ss

end

theorem toTypes_eq_map (ss : List Shape) : toTypes ss = ss.map toType := by
  induction ss with
  | nil => rfl
  | cons s ss ih => rw [toTypes, ih, List.map_cons]

mutual

/-- The shape has items wherever it has a list of items. -/
def isFull : Shape → Bool
  | .array item => isFull item
  | .mixed items => !items.isEmpty && allFull items
  | _ => true

def allFull : List Shape → Bool
  | [] => true
  | s :: ss => isFull s && allFull ss

end

theorem allFull_iff : allFull ss = true ↔ ∀ s ∈ ss, s.isFull = true := by
  induction ss with
  | nil => simp [allFull]
  | cons s ss ih => simp [allFull, ih]

/-- The tokens of a shape. -/
def tokens (s : Shape) : List Token := Script.tokens s.text.toList

/-- The tokens of shapes with bars between them. -/
def barredTokens (ss : List Shape) : List Token :=
  Script.tokens (Text.join " | " (texts ss)).toList

/-- The signs around types are no parts of words. -/
theorem toList_signs : "[]".toList = '[' :: [']'] ∧ ">".toList = '>' :: [] ∧
    " | ".toList = ' ' :: ['|', ' '] ∧ "Array<".toList.getLast? = some '<' :=
  ⟨rfl, rfl, rfl, rfl⟩

theorem tokens_array (item : Shape) :
    (array item).tokens = item.tokens ++ [.sign '[', .sign ']'] := by
  rw [tokens, text, String.toList_append, toList_signs.1,
    tokens_append (.inr (endsWord_cons (by decide) _)), tokens]
  exact congrArg _ rfl

theorem tokens_mixed (items : List Shape) :
    (mixed items).tokens =
      .word "Array".toList :: .sign '<' :: (barredTokens items ++ [.sign '>']) := by
  have hopen : Script.tokens "Array<".toList = [.word "Array".toList, .sign '<'] := rfl
  have hclose : Script.tokens ['>'] = [.sign '>'] := rfl
  rw [tokens, text, String.toList_append, String.toList_append, toList_signs.2.1,
    tokens_append (.inr (endsWord_cons (by decide) _)),
    tokens_append (.inl ⟨'<', toList_signs.2.2.2, by decide⟩), hopen, hclose]
  rfl

theorem barredTokens_singleton (s : Shape) : barredTokens [s] = s.tokens := by
  rw [barredTokens, Text.toList_join]
  rfl

theorem barredTokens_cons_cons (s t : Shape) (ss : List Shape) :
    barredTokens (s :: t :: ss) = s.tokens ++ .sign '|' :: barredTokens (t :: ss) := by
  have hbar : Script.tokens [' ', '|', ' '] = [.sign '|'] := rfl
  have hjoin : (Text.join " | " (texts (s :: t :: ss))).toList =
      s.text.toList ++ ([' ', '|', ' '] ++ (Text.join " | " (texts (t :: ss))).toList) := by
    rw [Text.toList_join, Text.toList_join, toList_signs.2.2.1, ← List.append_assoc]
    rfl
  have hends : EndsWord ([' ', '|', ' '] ++ (Text.join " | " (texts (t :: ss))).toList) :=
    endsWord_cons (by decide) _
  rw [barredTokens, hjoin, tokens_append (.inr hends),
    tokens_append (.inl ⟨' ', by decide, by decide⟩), hbar]
  rfl

-- ============================================================================
-- Shapes are read
-- ============================================================================

/-- Tokens that go on with no type. -/
def EndsType (ts : List Token) : Prop :=
  ts.head? ≠ some (.sign '[') ∧ ts.head? ≠ some (.sign '|')

theorem readBrackets_of_endsType {ts : List Token} (h : EndsType ts) (t : TypeExpr) :
    readBrackets t ts = (t, ts) := by
  rw [readBrackets]
  rintro rest rfl
  exact h.1 rfl

variable {ts : List Token} {t u : TypeExpr} {fuel : Nat}
  {inner : List Token → Option (TypeExpr × List Token)}

/-- A name without arguments. -/
theorem readNamed_word {s : Shape} {w : List Char} (htokens : s.tokens = [.word w])
    (harray : w ≠ "Array".toList) (hrecord : w ≠ "Record".toList) (h : named? w = some s.toType)
    (rest : List Token) :
    readNamed inner (s.tokens ++ rest) = some (readBrackets s.toType rest) := by
  rw [htokens, List.singleton_append, readNamed.eq_def]
  simp only [if_neg harray, if_neg hrecord, h, Option.map_some]

/-- An array of what stands between its angle brackets. -/
theorem readNamed_array {rest : List Token} (h : inner ts = some (t, .sign '>' :: rest)) :
    readNamed inner (.word "Array".toList :: .sign '<' :: ts) =
      some (readBrackets (.array t) rest) := by
  rw [readNamed, if_pos rfl]
  simp only [h, Option.bind_some]

/-- A type that no bar follows. -/
theorem readType_succ_of_endsType (h : readNamed (readType fuel) ts = some (t, rest))
    (hrest : EndsType rest) : readType (fuel + 1) ts = some (t, rest) := by
  rw [readType, h, Option.bind_some]
  split
  · next heq =>
    cases heq
    exact absurd rfl hrest.2
  · rfl

/-- A type that a bar follows. -/
theorem readType_succ_of_bar {more : List Token}
    (h : readNamed (readType fuel) ts = some (t, .sign '|' :: more))
    (hmore : readType fuel more = some (u, rest)) :
    readType (fuel + 1) ts = some (.union t u, rest) := by
  rw [readType, h]
  simp only [Option.bind_some, hmore, Option.map_some]

mutual

/-- A shape is read, and then the brackets after it. -/
theorem readNamed_tokens (s : Shape) (hs : s.isFull = true) :
    ∀ fuel, s.tokens.length ≤ fuel → ∀ rest,
      readNamed (readType fuel) (s.tokens ++ rest) = some (readBrackets s.toType rest) := by
  -- the fuel comes after the cases, since its bound is about the tokens of the shape
  match s with
  | .string =>
    exact fun _ _ => readNamed_word (w := "string".toList) rfl (by decide)
      (by decide) (by decide)
  | .number =>
    exact fun _ _ => readNamed_word (w := "number".toList) rfl (by decide)
      (by decide) (by decide)
  | .boolean =>
    exact fun _ _ => readNamed_word (w := "boolean".toList) rfl (by decide)
      (by decide) (by decide)
  | .unknown =>
    exact fun _ _ => readNamed_word (w := "unknown".toList) rfl (by decide)
      (by decide) (by decide)
  | .record =>
    have htokens : Shape.record.tokens = [.word "Record".toList, .sign '<',
        .word "string".toList, .sign ',', .word "unknown".toList, .sign '>'] := rfl
    rw [htokens]
    exact fun _ _ _ => rfl
  | .array item =>
    -- the item is read with the brackets behind it, which then are read as its own
    intro fuel hfuel rest
    rw [tokens_array, List.length_append] at hfuel
    rw [tokens_array, List.append_assoc]
    exact readNamed_tokens item hs fuel (by omega) _
  | .mixed items =>
    rw [isFull, Bool.and_eq_true] at hs
    have hne : items ≠ [] := by simpa using hs.1
    intro fuel hfuel rest
    rw [tokens_mixed] at hfuel
    simp only [List.length_cons, List.length_append] at hfuel
    have hends : EndsType (.sign '>' :: rest) := ⟨by simp, by simp⟩
    obtain ⟨fuel, rfl⟩ : ∃ n, fuel = n + 1 := ⟨fuel - 1, by omega⟩
    have hitems := readType_barredTokens items hne hs.2 fuel (by omega) _ hends
    rw [tokens_mixed, List.cons_append, List.cons_append, List.append_assoc]
    exact readNamed_array hitems

theorem readType_barredTokens (ss : List Shape) (hne : ss ≠ []) (hss : allFull ss = true) :
    ∀ fuel, (barredTokens ss).length ≤ fuel → ∀ rest, EndsType rest →
      readType (fuel + 1) (barredTokens ss ++ rest) = some (.unionOf (toTypes ss), rest) := by
  match ss with
  | [] => exact absurd rfl hne
  | [s] =>
    intro fuel hfuel rest hrest
    rw [allFull, Bool.and_eq_true] at hss
    rw [barredTokens_singleton] at hfuel ⊢
    have hfirst := readNamed_tokens s hss.1 fuel (by omega) rest
    rw [readBrackets_of_endsType hrest] at hfirst
    exact readType_succ_of_endsType hfirst hrest
  | s :: t :: ss =>
    intro fuel hfuel rest hrest
    rw [allFull, Bool.and_eq_true] at hss
    rw [barredTokens_cons_cons] at hfuel ⊢
    simp only [List.length_append, List.length_cons] at hfuel
    obtain ⟨fuel, rfl⟩ : ∃ n, fuel = n + 1 := ⟨fuel - 1, by omega⟩
    have hfirst := readNamed_tokens s hss.1 (fuel + 1) (by omega)
      (.sign '|' :: (barredTokens (t :: ss) ++ rest))
    have hmore := readType_barredTokens (t :: ss) (by simp) hss.2 fuel (by omega) rest hrest
    rw [List.append_assoc]
    exact readType_succ_of_bar hfirst hmore

end

/-- The text of a shape is read as the type that the shape stands for. -/
theorem typeOf?_text (s : Shape) (hs : s.isFull = true) :
    typeOf? s.text.toList = some s.toType := by
  have hss : allFull [s] = true := by simp [allFull, hs]
  have hends : EndsType [] := ⟨by simp, by simp⟩
  have hread := readType_barredTokens [s] (by simp) hss s.tokens.length
    (Nat.le_of_eq (congrArg List.length (barredTokens_singleton s))) [] hends
  rw [barredTokens_singleton, List.append_nil, tokens] at hread
  rw [typeOf?, hread]
  rfl

/-- Shapes of one text stand for one type. -/
theorem toType_eq_of_text_eq {s t : Shape} (hs : s.isFull = true) (ht : t.isFull = true)
    (h : s.text = t.text) : s.toType = t.toType := by
  have hread := typeOf?_text s hs
  rw [h, typeOf?_text t ht] at hread
  exact (Option.some.inj hread).symm

end Shape

end Script

end Flowscript

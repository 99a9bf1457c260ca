/-
  Flowscript.Proofs.SettledParameters

  The values that parameters of exported nodes have.

  A connected input of an exported node has a reference in the place of its value.  By
  whatever way a value is given, it becomes that of a parameter only if it is neither a
  reference nor empty (`isSettled_of_declared`, `exportedParameters_giveSettled`), and a
  connected input that is not declared gives no parameter.  The values of documents are taken as
  their texts give them: no entry of a mapping is a pair, and what contains itself is a
  list or a mapping.
-/
import Flowscript.Proofs.GatheredParameters
import Flowscript.Proofs.LineStart
import Flowscript.Proofs.Literals
import Flowscript.Proofs.PlainForm
import Flowscript.Proofs.WordScalars
import Flowscript.Yaml.Reader

namespace Flowscript

-- ============================================================================
-- Values of documents
-- ============================================================================

namespace Value

/-- The value is a pair. -/
def isPair : Value → Bool
  | .pair .. => true
  | _ => false

/-- The value is a list or a mapping. -/
def isCollection : Value → Bool
  | .list _ | .map _ => true
  | _ => false

mutual

/-- As the values of documents are: no entry of a mapping is a pair, and what contains itself is a
list or a mapping. -/
def isRegular : Value → Bool
  | .scalar _ | .set _ | .again _ => true
  | .list xs => allRegular xs
  | .map es => allRegularEntry es
  | .pair a b => isRegular a && isRegular b
  | .knot _ body => body.isCollection && isRegular body

/-- All of the values are regular. -/
def allRegular : List Value → Bool
  | [] => true
  | x :: xs => isRegular x && allRegular xs

/-- All of the entries have regular values that are no pairs. -/
def allRegularEntry : List (Scalar × Value) → Bool
  | [] => true
  | (_, v) :: es => !v.isPair && isRegular v && allRegularEntry es

end

/-- An entry of a mapping can have the value in a document. -/
def FitsEntry (v : Value) : Prop := v.isPair = false ∧ v.isRegular = true

/-- A reference to another node: a text in double braces, white space around them apart, or a list
of references that is not empty.  A knot stands for its body. -/
inductive IsReference : Value → Prop
  | text {s : String} (opens : ['{', '{'] <+: Text.trim s.toList)
      (closes : ['}', '}'] <:+ Text.trim s.toList) : IsReference (.str s)
  | list {xs : List Value} (hne : xs ≠ []) (items : ∀ x ∈ xs, IsReference x) : IsReference (.list xs)
  | knot {body : Value} (name : Nat) (h : IsReference body) : IsReference (.knot name body)

variable {v k : Value} {xs : List Value} {es : Entries} {name : Nat} {b : Bool}

theorem allRegular_iff : allRegular xs = true ↔ ∀ x ∈ xs, x.isRegular = true := by
  induction xs with
  | nil => simp [allRegular]
  | cons x xs ih => simp [allRegular, ih]

theorem allRegularEntry_iff : allRegularEntry es = true ↔ ∀ e ∈ es, e.2.FitsEntry := by
  induction es with
  | nil => simp [allRegularEntry]
  | cons e es ih =>
      obtain ⟨k, v⟩ := e
      simp [allRegularEntry, ih, FitsEntry, and_assoc]

theorem isRegular_list : (Value.list xs).isRegular = true ↔ ∀ x ∈ xs, x.isRegular = true := by
  rw [isRegular, allRegular_iff]

theorem isRegular_map : (Value.map es).isRegular = true ↔ ∀ e ∈ es, e.2.FitsEntry := by
  rw [isRegular, allRegularEntry_iff]

theorem fitsEntry_of_get? {key : Scalar} (hes : (Value.map es).isRegular = true)
    (h : es.get? key = some v) : v.FitsEntry := by
  obtain ⟨e, he, rfl⟩ := Option.map_eq_some_iff.mp h
  exact isRegular_map.mp hes e (List.mem_of_find?_eq_some he)

-- ============================================================================
-- Knots
-- ============================================================================

theorem isPair_tie (hk : k.isPair = false) (h : v.isPair = false) :
    (tie name k v).isPair = false := by
  cases v with
  | pair _ _ => cases h
  | knot n body =>
      rw [tie]
      split <;> rfl
  | again n =>
      rw [tie]
      split
      · exact hk
      · rfl
  | _ => rfl

theorem isCollection_tie (h : v.isCollection = true) : (tie name k v).isCollection = true := by
  cases v with
  | list _ => rfl
  | map _ => rfl
  | _ => cases h

mutual

theorem isRegular_tie (hk : k.isRegular = true) (hpair : k.isPair = false) :
    (v : Value) → v.isRegular = true → (tie name k v).isRegular = true
  | .scalar _, _ => rfl
  | .set _, _ => rfl
  | .list xs, h => allRegular_tie hk hpair xs h
  | .map es, h => allRegularEntry_tie hk hpair es h
  | .pair a b, h => by
      rw [isRegular, Bool.and_eq_true] at h
      rw [tie, isRegular, isRegular_tie hk hpair a h.1, isRegular_tie hk hpair b h.2]
      rfl
  | .knot n body, h => by
      rw [tie]
      split
      · exact h
      · rw [isRegular, Bool.and_eq_true] at h
        rw [isRegular, isCollection_tie h.1, isRegular_tie hk hpair body h.2]
        rfl
  | .again n, _ => by
      rw [tie]
      split
      · exact hk
      · rfl

theorem allRegular_tie (hk : k.isRegular = true) (hpair : k.isPair = false) :
    (xs : List Value) → allRegular xs = true → allRegular (tieItems name k xs) = true
  | [], _ => rfl
  | x :: xs, h => by
      rw [allRegular, Bool.and_eq_true] at h
      rw [tieItems, allRegular, isRegular_tie hk hpair x h.1, allRegular_tie hk hpair xs h.2]
      rfl

theorem allRegularEntry_tie (hk : k.isRegular = true) (hpair : k.isPair = false) :
    (es : Entries) → allRegularEntry es = true → allRegularEntry (tieEntries name k es) = true
  | [], _ => rfl
  | (_, v) :: es, h => by
      rw [allRegularEntry, Bool.and_eq_true, Bool.and_eq_true, Bool.not_eq_true'] at h
      rw [tieEntries, allRegularEntry, isPair_tie hpair h.1.1, isRegular_tie hk hpair v h.1.2,
        allRegularEntry_tie hk hpair es h.2]
      rfl

end

/-- A regular value is regular from outside. -/
theorem isRegular_opened (h : v.isRegular = true) : v.opened.isRegular = true := by
  cases v with
  | knot n body =>
      have hbody := h
      rw [isRegular, Bool.and_eq_true] at hbody
      exact isRegular_tie h rfl body hbody.2
  | _ => exact h

-- ============================================================================
-- Texts
-- ============================================================================

theorem fitsEntry_knotted (i : Nat) (hcollection : v.isCollection = true)
    (hregular : v.isRegular = true) : (Yaml.knotted i v).FitsEntry := by
  rw [Yaml.knotted]
  split
  · refine ⟨?_, hregular⟩
    cases v with
    | pair _ _ => cases hcollection
    | _ => rfl
  · refine ⟨rfl, ?_⟩
    rw [isRegular, hcollection, hregular]
    rfl

/-- The value of a node of a text can be that of an entry. -/
theorem fitsEntry_objectValue (objects : Array (Option Yaml.Object)) (fuel : Nat)
    (outer : List Nat) (i : Nat) : (Yaml.objectValue objects fuel outer i).FitsEntry := by
  induction fuel generalizing outer i with
  | zero => exact ⟨rfl, rfl⟩
  | succ fuel ih =>
      rw [Yaml.objectValue]
      split
      · exact ⟨rfl, rfl⟩
      · exact ⟨rfl, rfl⟩
      · exact ⟨rfl, rfl⟩
      · split
        · exact ⟨rfl, rfl⟩
        · refine fitsEntry_knotted i rfl (isRegular_list.mpr fun x hx => ?_)
          obtain ⟨j, -, rfl⟩ := List.mem_map.mp hx
          exact (ih _ j).2
      · split
        · exact ⟨rfl, rfl⟩
        · refine fitsEntry_knotted i rfl (isRegular_map.mpr fun e he => ?_)
          obtain ⟨entry, -, rfl⟩ := List.mem_map.mp he
          exact ih _ entry.2
      · split
        · exact ⟨rfl, rfl⟩
        · refine fitsEntry_knotted i rfl (isRegular_list.mpr fun x hx => ?_)
          obtain ⟨p, -, rfl⟩ := List.mem_map.mp hx
          rw [isRegular, (ih _ p.1).2, (ih _ p.2).2]
          rfl

/-- What a text is read to is regular. -/
theorem isRegular_of_read {s : List Char} (h : Yaml.read s = .ok v) : v.isRegular = true := by
  unfold Yaml.read at h
  obtain ⟨ts, -, h⟩ := bind_eq_ok_iff.mp h
  obtain ⟨g?, -, h⟩ := bind_eq_ok_iff.mp h
  cases g? with
  | none =>
      cases h
      rfl
  | some g =>
      obtain ⟨objects, -, h⟩ := bind_eq_ok_iff.mp h
      cases h
      exact (fitsEntry_objectValue objects _ [] g.root).2

-- ============================================================================
-- References
-- ============================================================================

open Document (isReferenceText isReference? areReferences?)

theorem isReferenceText_iff (s : List Char) : isReferenceText s = true ↔
    ['{', '{'] <+: Text.trim s ∧ ['}', '}'] <:+ Text.trim s := by
  rw [isReferenceText, Bool.and_eq_true, Text.endsWith, Format.startsWith_iff,
    Format.startsWith_iff, List.reverse_prefix]

theorem areReferences?_of_forall (h : ∀ x ∈ xs, isReference? x = some true) :
    areReferences? xs = some true := by
  induction xs with
  | nil => rfl
  | cons x xs ih =>
      have hrest := ih fun y hy => h y (List.mem_cons_of_mem x hy)
      simp [areReferences?, h x List.mem_cons_self, hrest]

/-- A reference is found to be one. -/
theorem IsReference.isReference?_eq (h : v.IsReference) : isReference? v = some true := by
  induction h with
  | text opens closes =>
      rw [isReference?, (isReferenceText_iff _).mpr ⟨opens, closes⟩]
  | @list xs hne items ih =>
      cases xs with
      | nil => exact absurd rfl hne
      | cons x xs =>
          have hrest := areReferences?_of_forall fun y hy => ih y (List.mem_cons_of_mem x hy)
          simp [isReference?, ih x List.mem_cons_self, hrest]
  | knot name h ih => rwa [isReference?]

mutual

/-- A search for references that ends does not come to a place that stands for a knot. -/
theorem isReference?_tie : (v : Value) → {b : Bool} → isReference? v = some b →
    isReference? (tie name k v) = some b
  | .scalar _, _, h => h
  | .set _, _, h => h
  | .list [], _, h => h
  | .list (x :: xs), b, h => by
      simp only [isReference?, Option.bind_eq_bind, Option.bind_eq_some_iff] at h
      obtain ⟨found, hx, h⟩ := h
      rw [tie, tieItems, isReference?, isReference?_tie x hx]
      cases found with
      | true => exact areReferences?_tie xs h
      | false => exact h
  | .map _, _, h => h
  | .pair _ _, _, h => h
  | .knot n body, b, h => by
      rw [tie]
      split
      · exact h
      · rw [isReference?] at h ⊢
        exact isReference?_tie body h
  | .again _, _, h => by cases h

theorem areReferences?_tie : (xs : List Value) → {b : Bool} → areReferences? xs = some b →
    areReferences? (tieItems name k xs) = some b
  | [], _, h => h
  | x :: xs, b, h => by
      simp only [areReferences?, Option.bind_eq_bind, Option.bind_eq_some_iff] at h
      obtain ⟨found, hx, h⟩ := h
      rw [tieItems, areReferences?, isReference?_tie x hx]
      cases found with
      | true => exact areReferences?_tie xs h
      | false => exact h

end

end Value

-- ============================================================================
-- Settled values
-- ============================================================================

namespace ParameterValue

/-- The value is missing, or it is neither empty nor a reference. -/
def IsSettled (p : ParameterValue) : Prop :=
  p = .missing ∨ ∃ v, p.raw? = some v ∧ v ≠ .str "" ∧ ¬ v.IsReference

variable {v : Value} {s : String} {c : Char} {rest : List Char}

theorem isSettled_string (hs : s.toList = c :: rest) (hc : Text.isBlank c = false)
    (hbraces : c = '{' → rest.head? ≠ some '{') : (string s).IsSettled := by
  refine .inr ⟨.str s, rfl, ?_, ?_⟩
  · rintro h
    cases h
    cases hs
  · rintro ⟨opens, -⟩
    have hprefix := opens.trans (Text.prefix_of_trimEnd _)
    rw [hs, (Text.startsSolid_cons hc).trimStart_eq, List.cons_prefix_cons] at hprefix
    obtain ⟨rfl, t, ht⟩ := hprefix
    exact hbraces rfl (by rw [← ht]; rfl)

theorem head?_joinWith_ne {sep : List Char} {p : List Char} {ps : List (List Char)} {d : Char}
    (hsep : sep.head? ≠ some d) (hne : sep ≠ []) (hp : p.head? ≠ some d) :
    (Text.joinWith sep (p :: ps)).head? ≠ some d := by
  cases ps with
  | nil => exact hp
  | cons q ps =>
      rw [Text.joinWith_cons_cons]
      cases p with
      | nil =>
          rwa [List.nil_append, List.head?_append_of_ne_nil _ hne]
      | cons e p => exact hp

/-- No scalar begins with a brace where it is shown inside of a list or a set. -/
theorem head?_inspect_ne (s : Scalar) : s.inspect.head? ≠ some '{' := by
  have hnumber : ∀ {w : List Char}, (∀ c ∈ w, isNumberChar c = true) → w.head? ≠ some '{' := by
    intro w hw hhead
    exact absurd (hw '{' (List.mem_of_head? hhead)) (by decide)
  cases s with
  | null => simp [Scalar.inspect]
  | bool b => cases b <;> simp [Scalar.inspect]
  | int i =>
      rw [Scalar.inspect]
      exact hnumber fun c hc => Text.isNumberChar_of_mem_intDigits hc
  | float x =>
      rw [Scalar.inspect]
      exact hnumber fun c hc => Double.isNumberChar_of_mem_chars hc
  | str s =>
      simp only [Scalar.inspect, Text.inspect, List.cons_append, List.head?_cons, Text.quoteFor]
      split <;> simp
  | date d =>
      show some 'd' ≠ some '{'
      decide
  | time t =>
      show some 'd' ≠ some '{'
      decide
  | bytes b => simp [Scalar.inspect, Text.inspectBytes]

/-- A date begins with a digit. -/
theorem exists_display_date (d : Date) : ∃ c rest, d.display = c :: rest ∧ c.isDigit = true := by
  have hdigits : ∀ c ∈ Text.padded 4 d.year, c.isDigit = true := by
    intro c hc
    rcases List.mem_append.mp hc with hc | hc
    · rw [(List.mem_replicate.mp hc).2]
      rfl
    · exact Text.isDigit_of_mem_natDigits hc
  cases hyear : Text.padded 4 d.year with
  | nil => exact absurd (List.append_eq_nil_iff.mp hyear).2 (Value.natDigits_ne_nil d.year)
  | cons c rest =>
      rw [Date.display, hyear]
      exact ⟨c, _, rfl, hdigits c (by simp [hyear])⟩

theorem isBlank_eq_false_of_isDigit (h : c.isDigit = true) : Text.isBlank c = false := by
  have hrange := toNat_of_isDigit h
  simp only [Text.isBlank, Bool.or_eq_false_iff, Bool.and_eq_false_iff, decide_eq_false_iff_not,
    beq_eq_false_iff_ne]
  omega

theorem isSettled_date {d : Date} {w : List Char} (hs : s.toList = d.display ++ w) :
    (string s).IsSettled := by
  obtain ⟨c, rest, hdate, hc⟩ := exists_display_date d
  rw [hdate] at hs
  refine isSettled_string hs (isBlank_eq_false_of_isDigit hc) ?_
  rintro rfl
  cases hc

/-- The text of a set has one brace at its start, since no member of a set begins with one. -/
theorem isSettled_set (ms : List Scalar) : (ofValue (.set ms)).IsSettled := by
  cases ms with
  | nil => exact isSettled_string (c := 's') rfl (by decide) (by simp)
  | cons m ms =>
      have htext : (Value.set (m :: ms)).opened.display.toList =
          '{' :: (Text.joinWith [',', ' '] ((m :: ms).map Scalar.inspect) ++ ['}']) :=
        String.toList_ofList
      refine isSettled_string htext (by decide) fun _ => ?_
      have hhead : (Text.joinWith [',', ' '] (m.inspect :: ms.map Scalar.inspect)).head? ≠
          some '{' := head?_joinWith_ne (by decide) (by decide) (head?_inspect_ne m)
      rw [List.map_cons]
      cases hjoin : Text.joinWith [',', ' '] (m.inspect :: ms.map Scalar.inspect) with
      | nil => simp
      | cons d rest =>
          rw [hjoin] at hhead
          exact hhead

/-- The parameter has a settled value if its value is neither empty nor found to be a reference. -/
theorem isSettled_ofValue (hregular : v.isRegular = true) (hpair : v.isPair = false)
    (hempty : v.isEmptyText = false) (hreference : Document.isReference? v = some false) :
    (ofValue v).IsSettled := by
  have hnone : ∀ {x : Value}, Document.isReference? x = some false → ¬ x.IsReference := by
    intro x hx h
    rw [h.isReference?_eq] at hx
    cases hx
  cases v with
  | scalar s =>
      cases s with
      | null => exact .inl rfl
      | bool b => exact .inr ⟨.bool b, rfl, by simp, hnone hreference⟩
      | int i => exact .inr ⟨.int i, rfl, by simp, hnone hreference⟩
      | float x => exact .inr ⟨.float x, rfl, by simp, hnone hreference⟩
      | str s =>
          refine .inr ⟨.str s, rfl, ?_, hnone hreference⟩
          rintro h
          cases h
          cases hempty
      | date d =>
          exact isSettled_date (d := d) (w := []) (by simp [Scalar.display, Scalar.displayChars])
      | time t =>
          have htext : ∃ w, (Scalar.time t).display.toList = t.date.display ++ w := by
            simp only [Scalar.display, Scalar.displayChars, String.toList_ofList, DateTime.display,
              List.append_assoc]
            exact ⟨_, rfl⟩
          obtain ⟨w, htext⟩ := htext
          exact isSettled_date htext
      | bytes bs =>
          have htext : (Scalar.bytes bs).display.toList = 'b' :: _ := String.toList_ofList
          exact isSettled_string htext (by decide) (by simp)
  | list xs => exact .inr ⟨.list xs, rfl, by simp, hnone hreference⟩
  | map es => exact .inr ⟨.map es, rfl, by simp, hnone hreference⟩
  | set ms => exact isSettled_set ms
  | pair _ _ => cases hpair
  | knot name body =>
      rw [Value.isRegular, Bool.and_eq_true] at hregular
      cases body with
      | list xs =>
          have htied : Document.isReference? (Value.knot name (.list xs)).opened = some false :=
            Value.isReference?_tie (.list xs) hreference
          exact .inr ⟨.list _, rfl, by simp, hnone htied⟩
      | map es => exact .inr ⟨.map _, rfl, by simp, hnone hreference⟩
      | _ => cases hregular.1
  | again _ => cases hreference

end ParameterValue

-- ============================================================================
-- Parameters of a name
-- ============================================================================

namespace Parameters

variable {ps : Parameters} {k : Scalar} {p : Parameter}

/-- All parameters under a name have a property. -/
def Under (k : Scalar) (P : Parameter → Prop) (ps : Parameters) : Prop :=
  ∀ e ∈ ps, e.1.sameKey k = true → P e.2

variable {P : Parameter → Prop}

theorem Under.add (h : ps.Under k P) (hp : p.name.sameKey k = true → P p) :
    (ps.add p).Under k P := by
  intro e he hsame
  rcases mem_insert he with he | ⟨rfl, hkey⟩
  · exact h e he hsame
  · refine hp ?_
    rw [Scalar.sameKey, decide_eq_true_eq] at hsame hkey ⊢
    exact hkey.symm.trans hsame

theorem Under.of_get? (h : ps.Under k P) (hget : ps.get? k = some p) : P p := by
  obtain ⟨e, he, rfl⟩ := Option.map_eq_some_iff.mp hget
  exact h e (List.mem_of_find?_eq_some he) (by simpa using List.find?_some he)

end Parameters

-- ============================================================================
-- Reading
-- ============================================================================

namespace Document

open Entries (field?)
open ParameterValue (IsSettled isSettled_ofValue)

variable {raw v spec : Value} {v? : Option Value} {es fields data inputs : Entries}
  {ps : Parameters} {specs : List Value} {k name : Scalar} {type : String} {index : Nat} {n : Node}

theorem fitsEntry_getD (hv : v.FitsEntry) (h : ∀ x, v? = some x → x.FitsEntry) :
    (v?.getD v).FitsEntry := by
  cases v? with
  | none => exact hv
  | some x => exact h x rfl

theorem fitsEntry_null : Value.null.FitsEntry := ⟨rfl, rfl⟩

theorem isSettled_of_settled {v' : Value} (hv : v.FitsEntry) (h : settled v = .ok v') :
    (ParameterValue.ofValue v').IsSettled := by
  rcases settled_cases h with rfl | ⟨rfl, hempty, hreference⟩
  · exact .inl rfl
  · exact isSettled_ofValue hv.2 hv.1 hempty hreference

theorem fitsEntry_givenValue (hinputs : (Value.map inputs).isRegular = true)
    (hes : (Value.map es).isRegular = true) (name : Scalar) :
    (givenValue inputs es name).FitsEntry := by
  unfold givenValue
  simp only
  split
  · exact fitsEntry_getD fitsEntry_null fun _ h => Value.fitsEntry_of_get? hes h
  · exact fitsEntry_getD fitsEntry_null fun _ h => Value.fitsEntry_of_get? hinputs h

theorem declaredEntry_givesFitting (hdata : (Value.map data).isRegular = true) (hv : v.FitsEntry) :
    GivesOnly (fun e => e.2.FitsEntry) (declaredEntry data es type name v) := by
  have hcredential : ((field? data "credential").getD v).FitsEntry :=
    fitsEntry_getD hv fun _ h => Value.fitsEntry_of_get? hdata h
  unfold declaredEntry
  split
  · split
    · exact .ok hcredential
    · exact .map (P := fun _ => True) (fun _ _ => trivial) fun _ _ => hcredential
  · exact .ok hv

/-- What is declared gets a settled value. -/
theorem isSettled_of_declared {p : Parameter} (hdata : (Value.map data).isRegular = true)
    (hinputs : (Value.map inputs).isRegular = true) (hspec : spec.isRegular = true)
    (h : declared data (.ok inputs) spec = .ok (some p)) : p.value.IsSettled := by
  obtain ⟨es, name, entry, value, hes, -, hentry, hvalue, -, hp⟩ := declared_eq_some h
  have hopened := Value.isRegular_opened hspec
  rw [hes] at hopened
  have hgiven := fitsEntry_givenValue hinputs hopened name
  rw [hp]
  exact isSettled_of_settled (declaredEntry_givesFitting hdata hgiven entry hentry) hvalue

/-- A declaration gives the name of a parameter. -/
def Names (spec : Value) (k : Scalar) : Prop :=
  ∃ es name, spec.opened = .map es ∧ field? es "name" = some (.scalar name) ∧ name.sameKey k = true

/-- What is declared has the name that its declaration gives, unless it is a credential. -/
theorem names_of_declared {p : Parameter} (h : declared data (.ok inputs) spec = .ok (some p)) :
    p.type = "credential" ∨ Names spec p.name := by
  obtain ⟨es, name, entry, value, hes, hname, hentry, -, hp, -⟩ := declared_eq_some h
  by_cases hcredential : p.type = "credential"
  · exact .inl hcredential
  · rw [declaredEntry, if_neg hcredential] at hentry
    cases hentry
    exact .inr ⟨es, name, hes, hname, by rw [hp]; exact Scalar.sameKey_self name⟩

theorem declarations_giveRegular (hdata : (Value.map data).isRegular = true) :
    GivesOnly (fun specs => ∀ spec ∈ specs, spec.isRegular = true)
      (declarations (field? data "inputParams")) := by
  unfold declarations
  split
  · exact .ok (List.forall_mem_nil _)
  · next v hv =>
    have hopened := Value.isRegular_opened (Value.fitsEntry_of_get? hdata hv).2
    split
    · exact .ok (List.forall_mem_nil _)
    · split
      · next xs hxs =>
        rw [hxs] at hopened
        exact .ok (Value.isRegular_list.mp hopened)
      · refine .ok fun spec hspec => ?_
        obtain ⟨e, -, rfl⟩ := List.mem_map.mp hspec
        rfl
      · refine .ok fun spec hspec => ?_
        obtain ⟨m, -, rfl⟩ := List.mem_map.mp hspec
        rfl
      · next a b hpair =>
        rw [hpair, Value.isRegular, Bool.and_eq_true] at hopened
        refine .ok fun spec hspec => ?_
        rcases List.mem_pair.mp hspec with rfl | rfl
        · exact hopened.1
        · exact hopened.2
      · refine .ok fun spec hspec => ?_
        obtain ⟨c, -, rfl⟩ := List.mem_map.mp hspec
        rfl
      · refine .ok fun spec hspec => ?_
        obtain ⟨b, -, rfl⟩ := List.mem_map.mp hspec
        rfl
      · exact .error _

theorem inputEntries_giveRegular (hdata : (Value.map data).isRegular = true) :
    GivesOnly (fun inputs => (Value.map inputs).isRegular = true) (inputEntries data) := by
  unfold inputEntries
  split
  · exact .ok rfl
  · next es hes =>
    obtain ⟨v, hv, hopened⟩ := Option.map_eq_some_iff.mp hes
    have hfield := (Option.filter_eq_some_iff.mp hv).1
    refine .ok ?_
    rw [← hopened]
    exact Value.isRegular_opened (Value.fitsEntry_of_get? hdata hfield).2
  · exact .error _

-- ============================================================================
-- Parameters of exported nodes
-- ============================================================================

/-- The parameter is a credential that one of the declarations gives. -/
def IsDeclaredCredential (data inputs : Entries) (specs : List Value) (p : Parameter) : Prop :=
  p.type = "credential" ∧ ∃ spec ∈ specs, declared data (.ok inputs) spec = .ok (some p)

/-- All values of an exported node are settled. -/
theorem exportedParameters_giveSettled (hdata : (Value.map data).isRegular = true) :
    GivesOnly (fun ps => ∀ e ∈ ps, e.2.value.IsSettled) (exportedParameters data) := by
  refine exportedParameters_gives (List.forall_mem_nil _) ?_ ?_
  · intro specs inputs hspecs hinputs ps hps spec hspec p hp
    have hinputs' := inputEntries_giveRegular hdata inputs hinputs
    have hspec' := declarations_giveRegular hdata specs hspecs spec hspec
    exact Parameters.forall_mem_add (P := fun p => p.value.IsSettled) hps
      (isSettled_of_declared hdata hinputs' hspec' hp)
  · intro inputs hinputs ps hps e he hunset hreference
    have hinputs' := inputEntries_giveRegular hdata inputs hinputs
    obtain ⟨hpair, hregular⟩ := Value.isRegular_map.mp hinputs' e he
    exact Parameters.forall_mem_add (P := fun p => p.value.IsSettled) hps
      (isSettled_ofValue hregular hpair (Bool.or_eq_false_iff.mp hunset).2 hreference)

/-- What has the name of an input that is a reference and not declared is a credential. -/
theorem exportedParameters_giveUndeclared (hinputs : inputEntries data = .ok inputs)
    (hspecs : declarations (field? data "inputParams") = .ok specs)
    (hreference : ∀ e ∈ inputs, e.1.sameKey k = true → e.2.IsReference)
    (hundeclared : ∀ spec ∈ specs, ¬ Names spec k) :
    GivesOnly (Parameters.Under k (IsDeclaredCredential data inputs specs))
      (exportedParameters data) := by
  refine exportedParameters_gives (fun e he => nomatch he) ?_ ?_
  · intro specs' inputs' hspecs' hinputs' ps hps spec hspec p hp
    cases hspecs.symm.trans hspecs'
    cases hinputs.symm.trans hinputs'
    refine hps.add fun hsame => ?_
    rcases names_of_declared hp with hcredential | ⟨es, name, hes, hname, hkey⟩
    · exact ⟨hcredential, spec, hspec, hp⟩
    · refine absurd ⟨es, name, hes, hname, ?_⟩ (hundeclared spec hspec)
      rw [Scalar.sameKey, decide_eq_true_eq] at hkey hsame ⊢
      exact hkey.trans hsame
  · intro inputs' hinputs' ps hps e he _ hvalue
    cases hinputs.symm.trans hinputs'
    refine hps.add fun hsame => ?_
    rw [(hreference e he hsame).isReference?_eq] at hvalue
    cases hvalue

theorem exportedParameters_eq_ok {ps : Parameters} (h : exportedParameters data = .ok ps) :
    ∃ inputs specs, inputEntries data = .ok inputs ∧
      declarations (field? data "inputParams") = .ok specs := by
  unfold exportedParameters at h
  obtain ⟨specs, hspecs, h⟩ := bind_eq_ok_iff.mp h
  obtain ⟨ps', -, h⟩ := bind_eq_ok_iff.mp h
  obtain ⟨inputs, hinputs, -⟩ := bind_eq_ok_iff.mp h
  exact ⟨inputs, specs, hinputs, hspecs⟩

theorem exportedParameters_of_node (hraw : raw.opened = .map fields)
    (hdata : (field? fields "data").map Value.opened = some (.map data))
    (hnode : node index raw = .ok n) : exportedParameters data = .ok n.parameters := by
  rw [node_eq_of_data hraw hdata, nodeOf] at hnode
  obtain ⟨id, -, hnode⟩ := bind_eq_ok_iff.mp hnode
  split at hnode
  · cases hnode
  · simp only [bind_eq_ok_iff] at hnode
    obtain ⟨type, -, label, -, category, -, ps, hps, place, -, hnode⟩ := hnode
    cases hnode
    exact hps

/-- The parameters of an exported node have values that are neither empty nor references, or none.
An input that is a reference and not declared gives no parameter: what has its name is a credential
that goes by the name of its kind. -/
theorem exported_values_settled (index : Nat) (raw : Value) (hregular : raw.isRegular = true)
    (hraw : raw.opened = .map fields)
    (hdata : (field? fields "data").map Value.opened = some (.map data))
    (hnode : node index raw = .ok n) :
    (∀ e ∈ n.parameters, e.2.value = .missing ∨
      ∃ v, e.2.value.raw? = some v ∧ v ≠ .str "" ∧ ¬ v.IsReference) ∧
    ∃ inputs specs, inputEntries data = .ok inputs ∧
      declarations (field? data "inputParams") = .ok specs ∧
      ∀ k, (∀ e ∈ inputs, e.1.sameKey k = true → e.2.IsReference) →
        (∀ spec ∈ specs, ¬ Names spec k) →
        ∀ p, n.parameters.get? k = some p → p.type = "credential" ∧
          ∃ spec ∈ specs, declared data (.ok inputs) spec = .ok (some p) := by
  have hfields := Value.isRegular_opened hregular
  rw [hraw] at hfields
  obtain ⟨v, hv, hopened⟩ := Option.map_eq_some_iff.mp hdata
  have hdataRegular := Value.isRegular_opened (Value.fitsEntry_of_get? hfields hv).2
  rw [hopened] at hdataRegular
  have hps := exportedParameters_of_node hraw hdata hnode
  obtain ⟨inputs, specs, hinputs, hspecs⟩ := exportedParameters_eq_ok hps
  refine ⟨exportedParameters_giveSettled hdataRegular _ hps, inputs, specs, hinputs, hspecs,
    fun k hreference hundeclared p hp => ?_⟩
  exact (exportedParameters_giveUndeclared hinputs hspecs hreference hundeclared _ hps).of_get? hp

/-- An agent with connected inputs that are not declared: a list of lists of tools, a model and one
that has the name of its credential. -/
def connectedAgent : Value := .record
  [("id", .str "agent_0"),
    ("data", .record
      [("name", .str "toolAgent"),
        ("credential", .str "3f1c"),
        ("inputParams", .list
          [.record [("name", .str "prompt"),
              ("default", .str "\x7b\x7bprompt_0.data.instance\x7d\x7d")],
            .record [("name", .str "key"), ("type", .str "credential"),
              ("credentialNames", .list [.str "model"])]]),
        ("inputs", .record
          [("prompt", .str ""),
            ("tools", .list [.list [.str " \x7b\x7bsearch_0\x7d\x7d "],
              .str "\x7b\x7bcalculator_0\x7d\x7d"]),
            ("modelKey", .str "\x7b\x7bvault_0.data.instance\x7d\x7d"),
            ("verbose", .bool true)])])]

theorem connectedAgent_values_settled : ∃ n, node 0 connectedAgent = .ok n ∧
    (∀ e ∈ n.parameters, e.2.value = .missing ∨
      ∃ v, e.2.value.raw? = some v ∧ v ≠ .str "" ∧ ¬ v.IsReference) ∧
    n.parameters.map (·.1) = [.str "prompt", .str "modelKey", .str "verbose"] ∧
    ∀ p, n.parameters.get? (.str "modelKey") = some p → p.type = "credential" := by
  refine ⟨_, rfl, ?_⟩
  have h := exported_values_settled 0 connectedAgent rfl rfl rfl rfl
  obtain ⟨hsettled, inputs, specs, hinputs, hspecs, hundeclared⟩ := h
  cases hinputs
  cases hspecs
  -- what is left are the connected input of that name and the names of the two declarations
  have hreference : Value.IsReference (.str "\x7b\x7bvault_0.data.instance\x7d\x7d") :=
    .text (by decide) (by decide)
  have hnames : ∀ {es : Entries} {s : String}, field? es "name" = some (.str s) →
      Scalar.sameKey (.str s) (.str "modelKey") = false → ¬ Names (.map es) (.str "modelKey") := by
    rintro es s hname hdiffers ⟨es', name, hes, hname', hkey⟩
    cases hes
    rw [hname] at hname'
    cases hname'
    rw [hdiffers] at hkey
    cases hkey
  refine ⟨hsettled, rfl, fun p hp => (hundeclared (.str "modelKey") ?_ ?_ p hp).1⟩
  · exact List.forall_mem_cons.mpr ⟨nofun, List.forall_mem_cons.mpr ⟨nofun,
      List.forall_mem_cons.mpr ⟨fun _ => hreference, List.forall_mem_cons.mpr ⟨nofun,
        List.forall_mem_nil _⟩⟩⟩⟩
  · exact List.forall_mem_cons.mpr ⟨hnames rfl rfl, List.forall_mem_cons.mpr ⟨hnames rfl rfl,
      List.forall_mem_nil _⟩⟩

end Document

end Flowscript

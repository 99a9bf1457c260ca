/-
  Flowscript.Proofs.PlainValues

  Values with nothing in them but null, booleans, numbers, texts, lists and mappings.

  What is found in a plain value is plain, so reading one never meets a value that is
  inside of itself.  The text of a plain value is empty only if the value is.
-/
import Flowscript.Workflow.Document

namespace Flowscript

/-- Null, a boolean, a number or a text. -/
def Scalar.isPlain : Scalar → Bool
  | .null | .bool _ | .int _ | .float _ | .str _ => true
  | _ => false

namespace Value

mutual

/-- A plain scalar, or a list or a mapping of plain values. -/
def isPlain : Value → Bool
  | .scalar s => s.isPlain
  | .list xs => allPlain xs
  | .map es => allPlainEntry es
  | _ => false

/-- All of the values are plain. -/
def allPlain : List Value → Bool
  | [] => true
  | x :: xs => isPlain x && allPlain xs

/-- All of the entries have plain keys and values. -/
def allPlainEntry : List (Scalar × Value) → Bool
  | [] => true
  | (k, v) :: es => k.isPlain && isPlain v && allPlainEntry es

end

variable {v x : Value} {xs : List Value} {es : Entries} {name : String}

-- ============================================================================
-- Parts of plain values
-- ============================================================================

theorem allPlain_iff : allPlain xs = true ↔ ∀ x ∈ xs, x.isPlain = true := by
  induction xs with
  | nil => simp [allPlain]
  | cons x xs ih => simp [allPlain, ih]

theorem allPlainEntry_iff :
    allPlainEntry es = true ↔ ∀ e ∈ es, e.1.isPlain = true ∧ e.2.isPlain = true := by
  induction es with
  | nil => simp [allPlainEntry]
  | cons e es ih =>
      obtain ⟨k, v⟩ := e
      simp [allPlainEntry, ih, and_assoc]

theorem isPlain_list : (Value.list xs).isPlain = true ↔ ∀ x ∈ xs, x.isPlain = true := by
  rw [isPlain, allPlain_iff]

theorem isPlain_map :
    (Value.map es).isPlain = true ↔ ∀ e ∈ es, e.1.isPlain = true ∧ e.2.isPlain = true := by
  rw [isPlain, allPlainEntry_iff]

theorem isPlain_of_get? {k : Scalar} (hes : (Value.map es).isPlain = true)
    (h : es.get? k = some v) : v.isPlain = true := by
  obtain ⟨e, he, rfl⟩ := Option.map_eq_some_iff.mp h
  exact (isPlain_map.mp hes e (List.mem_of_find?_eq_some he)).2

theorem isPlain_of_field? (hes : (Value.map es).isPlain = true)
    (h : es.field? name = some v) : v.isPlain = true :=
  isPlain_of_get? hes h

/-- A plain value is its own outside. -/
theorem opened_of_isPlain (h : v.isPlain = true) : v.opened = v := by
  cases v with
  | knot _ _ => cases h
  | _ => rfl

theorem map_opened_of_isPlain {v? : Option Value} (hv : ∀ v, v? = some v → v.isPlain = true) :
    v?.map opened = v? := by
  cases v? with
  | none => rfl
  | some v => rw [Option.map_some, opened_of_isPlain (hv v rfl)]

theorem map_opened_field? (hes : (Value.map es).isPlain = true) :
    (es.field? name).map opened = es.field? name :=
  map_opened_of_isPlain fun _ h => isPlain_of_field? hes h

-- ============================================================================
-- References
-- ============================================================================

mutual

/-- The search for references in a plain value ends. -/
theorem exists_isReference? : (v : Value) → v.isPlain = true →
    ∃ b, Document.isReference? v = some b
  | .scalar s, _ => by
      cases s <;> exact ⟨_, rfl⟩
  | .list [], _ => ⟨false, rfl⟩
  | .list (x :: xs), h => by
      have hitems := isPlain_list.mp h
      obtain ⟨b, hb⟩ := exists_isReference? x (hitems x List.mem_cons_self)
      obtain ⟨b', hb'⟩ := exists_areReferences? xs fun x hx => hitems x (List.mem_cons_of_mem _ hx)
      cases b with
      | true => exact ⟨b', by simp [Document.isReference?, hb, hb']⟩
      | false => exact ⟨false, by simp [Document.isReference?, hb]⟩
  | .map es, _ => ⟨false, rfl⟩

theorem exists_areReferences? : (xs : List Value) → (∀ x ∈ xs, x.isPlain = true) →
    ∃ b, Document.areReferences? xs = some b
  | [], _ => ⟨true, rfl⟩
  | x :: xs, h => by
      obtain ⟨b, hb⟩ := exists_isReference? x (h x List.mem_cons_self)
      obtain ⟨b', hb'⟩ := exists_areReferences? xs fun x hx => h x (List.mem_cons_of_mem _ hx)
      cases b with
      | true => exact ⟨b', by simp [Document.areReferences?, hb, hb']⟩
      | false => exact ⟨false, by simp [Document.areReferences?, hb]⟩

end

theorem exists_isReference (h : v.isPlain = true) : ∃ b, Document.isReference v = .ok b := by
  obtain ⟨b, hb⟩ := exists_isReference? v h
  exact ⟨b, by rw [Document.isReference, hb]⟩

-- ============================================================================
-- Texts
-- ============================================================================

theorem natDigits_ne_nil (n : Nat) : Text.natDigits n ≠ [] := by
  have hlen : 0 < (Nat.toDigits 10 n).length := Nat.length_toDigits_pos
  exact List.ne_nil_of_length_pos hlen

theorem positional_ne_nil (ds : List Char) (point : Int) : Double.positional ds point ≠ [] := by
  unfold Double.positional
  split
  · simp
  · split <;> simp

theorem magnitudeText_ne_nil (m : Nat) (q : Int) : Double.magnitudeText m q ≠ [] := by
  unfold Double.magnitudeText
  simp only
  split
  · exact positional_ne_nil _ _
  · simp [Double.scientific]

theorem chars_ne_nil (x : Double) : x.chars ≠ [] := by
  cases x with
  | nan => simp [Double.chars]
  | infinite negative => simp [Double.chars]
  | finite negative m q =>
      have hmagnitude : (if m = 0 then ['0', '.', '0'] else Double.magnitudeText m q) ≠ [] := by
        split
        · simp
        · exact magnitudeText_ne_nil m q
      rw [Double.chars]
      exact fun h => hmagnitude (List.append_eq_nil_iff.mp h).2

theorem inspect_ne_nil {s : Scalar} (hs : s.isPlain = true) : s.inspect ≠ [] := by
  cases s with
  | null => simp [Scalar.inspect]
  | bool b => cases b <;> simp [Scalar.inspect]
  | int i =>
      cases i with
      | ofNat n => exact natDigits_ne_nil n
      | negSucc n => exact List.cons_ne_nil _ _
  | float x => exact chars_ne_nil x
  | str s => simp [Scalar.inspect, Text.inspect]
  | date _ => cases hs
  | time _ => cases hs
  | bytes _ => cases hs

/-- A plain value that is not empty has a text that is not empty. -/
theorem display_ne_empty (hv : v.isPlain = true) (h : v.isTruthy = true) : v.display ≠ "" := by
  rw [Ne, ← String.toList_eq_nil_iff]
  cases v with
  | scalar s =>
      have hinspect := inspect_ne_nil (s := s) hv
      cases s with
      | str s =>
          rw [String.toList_eq_nil_iff]
          simpa [isTruthy, Scalar.isTruthy] using h
      | date _ => cases hv
      | time _ => cases hv
      | _ => simpa [display, Scalar.display, Scalar.displayChars] using hinspect
  | list xs =>
      show (String.ofList ('[' :: _)).toList ≠ []
      rw [String.toList_ofList]
      exact List.cons_ne_nil _ _
  | map es =>
      show (String.ofList ('{' :: _)).toList ≠ []
      rw [String.toList_ofList]
      exact List.cons_ne_nil _ _
  | set _ => cases hv
  | pair _ _ => cases hv
  | knot _ _ => cases hv
  | again _ => cases hv

end Value

end Flowscript

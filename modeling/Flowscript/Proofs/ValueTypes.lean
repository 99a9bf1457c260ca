/-
  Flowscript.Proofs.ValueTypes

  Values have the types that are written for them.

  The items of a list give one alternative for each text of their types, and types of one
  text are one type to the reader.  So the alternatives of a list are the types of its
  items, no more and no less (`mem_alternatives_ofItems`), and a value has its type by
  induction over the value (`Shape.ofValue_admits`).
-/
import Flowscript.Proofs.PlainValues
import Flowscript.Proofs.TypeReading

namespace Flowscript.Script

namespace Shape

variable {ss : List Shape} {s t : Shape} {v : Value}

-- ============================================================================
-- Alternatives
-- ============================================================================

/-- An alternative of each text is kept, and no others. -/
theorem mem_eraseDupsBy_text (ss : List Shape) :
    (∀ s ∈ ss.eraseDupsBy fun a b => a.text == b.text, s ∈ ss) ∧
      ∀ s ∈ ss, ∃ t ∈ ss.eraseDupsBy fun a b => a.text == b.text, t.text = s.text := by
  -- what follows the first shape is filtered before it goes on, so the list is no tail
  induction hn : ss.length using Nat.strongRecOn generalizing ss with
  | ind n ih =>
    cases ss with
    | nil => simp
    | cons u ss =>
        have hlength := List.length_filter_le (fun b => (b.text == u.text) = false) ss
        obtain ⟨hsub, hkept⟩ := ih _ (by simp at hn; omega)
          (ss.filter fun b => (b.text == u.text) = false) rfl
        rw [List.eraseDupsBy_cons]
        constructor
        · intro s hs
          rcases List.mem_cons.mp hs with rfl | hs
          · exact List.mem_cons_self
          · exact List.mem_cons_of_mem _ (List.mem_of_mem_filter (hsub s hs))
        · intro s hs
          by_cases htext : u.text = s.text
          · exact ⟨u, List.mem_cons_self, htext⟩
          · have hs' := (List.mem_cons.mp hs).resolve_left (by rintro rfl; exact htext rfl)
            obtain ⟨t, ht, hts⟩ := hkept s (by simpa [hs'] using Ne.symm htext)
            exact ⟨t, List.mem_cons_of_mem _ ht, hts⟩

theorem mem_of_mem_alternatives (h : s ∈ alternatives ss) : s ∈ ss :=
  (mem_eraseDupsBy_text ss).1 s (List.mem_mergeSort.mp h)

theorem exists_mem_alternatives (h : s ∈ ss) : ∃ t ∈ alternatives ss, t.text = s.text := by
  obtain ⟨t, ht, htext⟩ := (mem_eraseDupsBy_text ss).2 s h
  exact ⟨t, List.mem_mergeSort.mpr ht, htext⟩

/-- The alternatives stand for the types of all that is given. -/
theorem mem_map_toType_alternatives (hss : ∀ s ∈ ss, s.isFull = true) {a : TypeExpr} :
    a ∈ (alternatives ss).map toType ↔ a ∈ ss.map toType := by
  constructor
  · intro h
    obtain ⟨s, hs, rfl⟩ := List.mem_map.mp h
    exact List.mem_map_of_mem (mem_of_mem_alternatives hs)
  · intro h
    obtain ⟨s, hs, rfl⟩ := List.mem_map.mp h
    obtain ⟨t, ht, htext⟩ := exists_mem_alternatives hs
    have htype := toType_eq_of_text_eq (hss t (mem_of_mem_alternatives ht)) (hss s hs) htext
    exact List.mem_map.mpr ⟨t, ht, htype⟩

/-- No shape stands for a union. -/
theorem alternatives_toType (s : Shape) : s.toType.alternatives = [s.toType] := by
  cases s <;> rfl

theorem alternatives_unionOf (hne : ss ≠ []) :
    (TypeExpr.unionOf (ss.map toType)).alternatives = ss.map toType := by
  induction ss with
  | nil => exact absurd rfl hne
  | cons s ss ih =>
      cases ss with
      | nil => exact alternatives_toType s
      | cons t ss =>
          show (TypeExpr.union s.toType (.unionOf ((t :: ss).map toType))).alternatives = _
          rw [TypeExpr.alternatives, alternatives_toType, ih (by simp)]
          rfl

theorem alternatives_ne_nil (h : ss ≠ []) : alternatives ss ≠ [] := by
  obtain ⟨s, hs⟩ := List.exists_mem_of_ne_nil ss h
  obtain ⟨t, ht, -⟩ := exists_mem_alternatives hs
  exact List.ne_nil_of_mem ht

/-- Items have an array type, whose alternatives are their types. -/
theorem exists_toType_ofItems (hne : ss ≠ []) (hss : ∀ s ∈ ss, s.isFull = true) :
    ∃ u, (ofItems ss).toType = .array u ∧
      ∀ a, a ∈ u.alternatives ↔ ∃ s ∈ ss, s.toType = a := by
  have htype : (ofItems ss).toType = .array (.unionOf ((alternatives ss).map toType)) := by
    unfold ofItems
    split
    · next s hs => rw [hs]; rfl
    · rw [toType, toTypes_eq_map]
  refine ⟨_, htype, fun a => ?_⟩
  rw [alternatives_unionOf (alternatives_ne_nil hne), mem_map_toType_alternatives hss,
    List.mem_map]

theorem isFull_ofItems (hne : ss ≠ []) (hss : ∀ s ∈ ss, s.isFull = true) :
    (ofItems ss).isFull = true := by
  have hall : ∀ s ∈ alternatives ss, s.isFull = true :=
    fun s hs => hss s (mem_of_mem_alternatives hs)
  unfold ofItems
  split
  · next s hs => exact hall s (by rw [hs]; exact List.mem_singleton_self s)
  · rw [isFull, Bool.and_eq_true]
    exact ⟨by simpa using alternatives_ne_nil hne, allFull_iff.mpr hall⟩

-- ============================================================================
-- Values
-- ============================================================================

theorem ofValues_eq_map (xs : List Value) : ofValues xs = xs.map ofValue := by
  induction xs with
  | nil => rfl
  | cons x xs ih => rw [ofValues, ih, List.map_cons]

theorem ofValue_list {xs : List Value} (hne : xs ≠ []) :
    ofValue (.list xs) = ofItems (xs.map ofValue) := by
  obtain ⟨x, xs, rfl⟩ := List.exists_cons_of_ne_nil hne
  rw [ofValue, ofValues_eq_map, List.map_cons]

mutual

/-- Lists of items come from lists that are not empty. -/
theorem isFull_ofValue (v : Value) : (ofValue v).isFull = true := by
  match v with
  | .scalar s => cases s <;> rfl
  | .list [] => rfl
  | .list (x :: xs) =>
    rw [ofValue]
    exact isFull_ofItems (by simp)
      (List.forall_mem_cons.mpr ⟨isFull_ofValue x, isFull_of_mem_ofValues xs⟩)
  | .map _ => rfl
  | .set _ => rfl
  | .pair a b =>
    rw [ofValue]
    exact isFull_ofItems (by simp) (by simp [isFull_ofValue a, isFull_ofValue b])
  | .knot _ body => exact isFull_ofValue body
  | .again _ => rfl

theorem isFull_of_mem_ofValues (xs : List Value) : ∀ s ∈ ofValues xs, s.isFull = true := by
  match xs with
  | [] => exact List.forall_mem_nil _
  | x :: xs =>
    exact List.forall_mem_cons.mpr ⟨isFull_ofValue x, isFull_of_mem_ofValues xs⟩

end

/-- The type of a list is an array type, whose alternatives are the types of the items. -/
theorem exists_toType_list {xs : List Value} (hne : xs ≠ []) :
    ∃ u, (ofValue (.list xs)).toType = .array u ∧
      ∀ a, a ∈ u.alternatives ↔ ∃ x ∈ xs, (ofValue x).toType = a := by
  have hfull : ∀ s ∈ xs.map ofValue, s.isFull = true :=
    List.forall_mem_map.mpr fun x _ => isFull_ofValue x
  obtain ⟨u, htype, hall⟩ := exists_toType_ofItems (by simpa using hne) hfull
  refine ⟨u, by rw [ofValue_list hne, htype], fun a => ?_⟩
  rw [hall]
  simp only [List.mem_map, exists_exists_and_eq_and]

mutual

/-- A plain value has the type that its shape stands for. -/
theorem admits_ofValue (v : Value) (h : v.isPlain = true) : (ofValue v).toType.admits v = true := by
  match v with
  | .scalar s => cases s <;> first | rfl | cases h
  | .list [] => rfl
  | .list (x :: xs) =>
    obtain ⟨u, htype, hall⟩ := exists_toType_list (List.cons_ne_nil x xs)
    have hitems := admits_of_mem (x :: xs) h
    rw [htype, TypeExpr.admits, List.all_eq_true]
    intro y hy
    rw [TypeExpr.admits_iff_alternatives]
    exact ⟨(ofValue y).toType, (hall _).mpr ⟨y, hy, rfl⟩, hitems y hy⟩
  | .map _ => rfl

theorem admits_of_mem (xs : List Value) (h : Value.allPlain xs = true) :
    ∀ x ∈ xs, (ofValue x).toType.admits x = true := by
  match xs with
  | [] => exact List.forall_mem_nil _
  | x :: xs =>
    rw [Value.allPlain, Bool.and_eq_true] at h
    exact List.forall_mem_cons.mpr ⟨admits_ofValue x h.1, admits_of_mem xs h.2⟩

end

/-- Only null has the type of everything. -/
theorem eq_null_of_toType (h : v.isPlain = true) (htype : (ofValue v).toType = .unknown) :
    v = .null := by
  cases v with
  | scalar s => cases s <;> first | rfl | cases htype
  | list xs =>
      cases xs with
      | nil => cases htype
      | cons x xs =>
          obtain ⟨u, harray, -⟩ := exists_toType_list (List.cons_ne_nil x xs)
          rw [harray] at htype
          cases htype
  | map es => cases htype
  | _ => cases h

/-- The text of the type of a value is read as a type that the value has.  Only null has the type
of everything, and the alternatives of a list that is not empty are the types of its items. -/
theorem ofValue_admits (v : Value) (h : v.isPlain = true) :
    ∃ t, typeOf? (ofValue v).text.toList = some t ∧ t.admits v = true ∧
      (t = .unknown → v = .null) ∧
      ∀ xs, v = .list xs → xs ≠ [] → ∃ u, t = .array u ∧
        ∀ a, a ∈ u.alternatives ↔ ∃ x ∈ xs, typeOf? (ofValue x).text.toList = some a := by
  have hread := fun v => typeOf?_text (ofValue v) (isFull_ofValue v)
  refine ⟨(ofValue v).toType, hread v, admits_ofValue v h, eq_null_of_toType h, ?_⟩
  rintro xs rfl hne
  obtain ⟨u, htype, hall⟩ := exists_toType_list hne
  refine ⟨u, htype, fun a => ?_⟩
  simp only [hall, hread, Option.some.injEq]

/-- A list in which an item is null, one is a list of different items, and two have one type. -/
def mixedList : Value :=
  .list [.int 1, .str "x", .list [.bool true, .int 2], .null, .map [(.str "a", .null)], .str "y"]

theorem mixedList_admits :
    ∃ u, typeOf? (ofValue mixedList).text.toList = some (.array u) ∧
      (TypeExpr.array u).admits mixedList = true ∧ .record ∈ u.alternatives := by
  obtain ⟨t, hread, hadmits, -, hitems⟩ := ofValue_admits mixedList (by decide)
  obtain ⟨u, rfl, hall⟩ := hitems _ rfl (by simp)
  have hrecord : typeOf? (ofValue (.map [(.str "a", .null)])).text.toList = some .record := rfl
  exact ⟨u, hread, hadmits, (hall _).mpr ⟨_, by simp, hrecord⟩⟩

end Shape

end Flowscript.Script

/-
  Flowscript.Assoc

  Tables from names to values that keep the order in which names were first put in.
-/

namespace Flowscript.Assoc

variable {α : Type}

/-- Puts a value under a name: in place if the name is present, at the end otherwise. -/
def put (k : String) (v : α) : List (String × α) → List (String × α)
  | [] => [(k, v)]
  | (k', v') :: rest => if k' = k then (k', v) :: rest else (k', v') :: put k v rest

/-- The value under a name. -/
def get? : List (String × α) → String → Option α
  | [], _ => none
  | (k', v) :: rest, k => if k' = k then some v else get? rest k

/-- Puts a value under a name that is not present yet. -/
def putNew (k : String) (v : α) (table : List (String × α)) : List (String × α) :=
  if (get? table k).isSome then table else table ++ [(k, v)]

@[simp] theorem put_nil (k : String) (v : α) : put k v [] = [(k, v)] := rfl

@[simp] theorem get?_nil (k : String) : get? ([] : List (String × α)) k = none := rfl

/-- The names after a value was put in: the old ones, and the name at the end if it was new. -/
theorem map_fst_put (k : String) (v : α) (table : List (String × α)) :
    (put k v table).map (·.1) =
      if k ∈ table.map (·.1) then table.map (·.1) else table.map (·.1) ++ [k] := by
  induction table with
  | nil => simp
  | cons e rest ih =>
    obtain ⟨k', v'⟩ := e
    by_cases h : k' = k
    · simp [put, h]
    · have h' : k ≠ k' := fun e => h e.symm
      simp only [put, h, if_false, List.map_cons, List.mem_cons, h', false_or, ih]
      split <;> simp

/-- A value that was put in is found; other names are untouched. -/
theorem get?_put (k j : String) (v : α) (table : List (String × α)) :
    get? (put k v table) j = if j = k then some v else get? table j := by
  induction table with
  | nil =>
    by_cases h : j = k
    · simp [get?, h]
    · simp [get?, h, Ne.symm h]
  | cons e rest ih =>
    obtain ⟨k', v'⟩ := e
    by_cases h : k' = k
    · by_cases hj : j = k
      · simp [put, get?, h, hj]
      · simp [put, get?, h, hj, Ne.symm hj]
    · by_cases hj : k' = j
      · have hjk : j ≠ k := fun e => h (hj.trans e)
        simp [put, get?, hj, hjk]
      · simpa [put, h, get?, hj] using ih

/-! ## Names that are present -/

variable {table : List (String × α)} {k : String} {v : α}

/-- What is found under a name stands in the table. -/
theorem mem_of_get? (h : get? table k = some v) : (k, v) ∈ table := by
  induction table with
  | nil => cases h
  | cons e rest ih =>
      obtain ⟨k', v'⟩ := e
      rw [get?] at h
      split at h
      · next hk =>
        cases h
        rw [hk]
        exact List.mem_cons_self
      · exact List.mem_cons_of_mem _ (ih h)

theorem get?_eq_none_iff : get? table k = none ↔ k ∉ table.map (·.1) := by
  induction table with
  | nil => simp
  | cons e rest ih =>
      obtain ⟨k', v'⟩ := e
      by_cases h : k' = k
      · simp [get?, h]
      · simp [get?, h, ih, Ne.symm h]

/-- In a table that has each name once, what stands under a name is what is found there. -/
theorem get?_eq_some_iff (hnodup : (table.map (·.1)).Nodup) :
    get? table k = some v ↔ (k, v) ∈ table := by
  refine ⟨mem_of_get?, fun hmem => ?_⟩
  induction table with
  | nil => cases hmem
  | cons e rest ih =>
      obtain ⟨k', v'⟩ := e
      rw [List.map_cons, List.nodup_cons] at hnodup
      rcases List.mem_cons.mp hmem with heq | hrest
      · cases heq
        simp [get?]
      · have hk : k' ≠ k := fun heq => hnodup.1 (List.mem_map.mpr ⟨(k, v), hrest, heq.symm⟩)
        rw [get?, if_neg hk]
        exact ih hnodup.2 hrest

/-- A value under a new name is put at the end. -/
theorem put_of_get?_eq_none (h : get? table k = none) : put k v table = table ++ [(k, v)] := by
  induction table with
  | nil => rfl
  | cons e rest ih =>
      obtain ⟨k', v'⟩ := e
      rw [get?] at h
      split at h
      · cases h
      · next hk => rw [put, if_neg hk, ih h, List.cons_append]

/-- An entry of a table after a value was put in is the new one, or an old one. -/
theorem eq_or_mem_of_mem_put {e : String × α} (h : e ∈ put k v table) : e = (k, v) ∨ e ∈ table := by
  induction table with
  | nil => exact .inl (List.mem_singleton.mp h)
  | cons e' rest ih =>
      obtain ⟨k', v'⟩ := e'
      rw [put] at h
      split at h
      · next hk =>
        rcases List.mem_cons.mp h with rfl | hrest
        · exact .inl (by rw [hk])
        · exact .inr (List.mem_cons_of_mem _ hrest)
      · rcases List.mem_cons.mp h with rfl | hrest
        · exact .inr List.mem_cons_self
        · exact (ih hrest).imp_right (List.mem_cons_of_mem _)

/-- Putting a value in keeps each name once. -/
theorem nodup_put (h : (table.map (·.1)).Nodup) : ((put k v table).map (·.1)).Nodup := by
  rw [map_fst_put]
  split
  · exact h
  · next hk =>
    rw [List.nodup_append]
    refine ⟨h, by simp, fun a ha b hb => ?_⟩
    rw [List.mem_singleton.mp hb]
    rintro rfl
    exact hk ha

end Flowscript.Assoc

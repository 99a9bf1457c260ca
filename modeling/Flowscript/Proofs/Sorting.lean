/-
  Flowscript.Proofs.Sorting

  The orders of texts, of names and of sources.

  Each of them compares keys of a linear order, so a sorted list depends on the entries
  alone as soon as no two of them share a key, and a sorted list sorts to itself.
-/
import Flowscript.Import.Block
import Flowscript.Proofs.Precedence
import Mathlib.Data.List.Perm.Basic
import Mathlib.Data.Prod.Lex
import Mathlib.Data.String.Basic

namespace Flowscript

-- ============================================================================
-- Sorting by a key
-- ============================================================================

section Keys

variable {α κ : Type} [LinearOrder κ] {key : α → κ} {le : α → α → Bool} {xs ys : List α}

theorem pairwise_mergeSort_key (hle : ∀ a b, le a b = decide (key a ≤ key b)) (xs : List α) :
    (xs.mergeSort le).Pairwise fun a b => key a ≤ key b := by
  have hsorted : (xs.mergeSort le).Pairwise fun a b => le a b = true := by
    refine List.pairwise_mergeSort (fun a b c => ?_) (fun a b => ?_) xs
    · simp only [hle, decide_eq_true_eq]
      exact le_trans
    · simpa only [hle, Bool.or_eq_true, decide_eq_true_eq] using le_total _ _
  exact hsorted.imp fun h => by simpa only [hle, decide_eq_true_eq] using h

/-- The order of arrival is lost where keys are different. -/
theorem mergeSort_eq_of_perm (hle : ∀ a b, le a b = decide (key a ≤ key b))
    (hkeys : ∀ a ∈ xs, ∀ b ∈ xs, key a = key b → a = b) (hperm : xs.Perm ys) :
    xs.mergeSort le = ys.mergeSort le := by
  have hsame : (xs.mergeSort le).Perm (ys.mergeSort le) :=
    (xs.mergeSort_perm le).trans (hperm.trans (ys.mergeSort_perm le).symm)
  refine hsame.eq_of_pairwise (fun a b ha hb hab hba => ?_) (pairwise_mergeSort_key hle xs)
    (pairwise_mergeSort_key hle ys)
  have ha := (xs.mergeSort_perm le).mem_iff.mp ha
  have hb := hperm.mem_iff.mpr ((ys.mergeSort_perm le).mem_iff.mp hb)
  exact hkeys a ha b hb (le_antisymm hab hba)

end Keys

-- ============================================================================
-- Texts
-- ============================================================================

namespace Text

theorem le_eq (a b : String) : le a b = decide (a ≤ b) := by
  rw [le, ← decide_not]
  exact decide_eq_decide.mpr not_lt

/-- Distinct strings in order rise from each to the next. -/
theorem pairwise_sort_distinct (xs : List String) : (sort (distinct xs)).Pairwise (· < ·) := by
  have hkey : ∀ a b : String, le a b = decide (id a ≤ id b) := le_eq
  have hsorted := pairwise_mergeSort_key hkey (distinct xs)
  have hnodup := ((distinct xs).mergeSort_perm le).nodup_iff.mpr (nodup_distinct xs)
  exact (hsorted.and hnodup).imp fun h => lt_of_le_of_ne h.1 h.2

/-- Distinct strings in order depend on the set of strings only. -/
theorem sort_distinct_congr {xs ys : List String} (h : ∀ x, x ∈ xs ↔ x ∈ ys) :
    sort (distinct xs) = sort (distinct ys) := by
  have hperm : (distinct xs).Perm (distinct ys) :=
    (List.perm_ext_iff_of_nodup (nodup_distinct xs) (nodup_distinct ys)).mpr fun x => by
      simp only [mem_distinct, h x]
  have hkey : ∀ a b : String, le a b = decide (id a ≤ id b) := le_eq
  exact mergeSort_eq_of_perm hkey (fun _ _ _ _ heq => heq) hperm

end Text

-- ============================================================================
-- Names and sources
-- ============================================================================

namespace Import

theorem nameLe_eq (a b : List Char) :
    nameLe a b = decide (toLex (sortKey a) ≤ toLex (sortKey b)) := by
  simp only [nameLe, Text.le_eq, Prod.Lex.toLex_le_toLex]
  split
  · next heq => simp [heq]
  · next hne => simp [hne, lt_iff_le_and_ne]

theorem sortKey_injective {a b : List Char} (h : sortKey a = sortKey b) : a = b :=
  String.ofList_injective (congrArg Prod.snd h)

/-- Sorted names depend on the names alone. -/
theorem sort_names_of_perm {xs ys : List (List Char)} (h : xs.Perm ys) :
    xs.mergeSort nameLe = ys.mergeSort nameLe :=
  mergeSort_eq_of_perm nameLe_eq
    (fun _ _ _ _ heq => sortKey_injective (toLex_inj.mp heq)) h

/-- What makes two specs the same source: the source, and whether types are imported. -/
def Spec.key (s : Spec) : List Char × Bool := (s.source, s.isType)

/-- The place of a source, then its name. -/
def Spec.rank (s : Spec) : Nat ×ₗ String := toLex (s.group, String.ofList s.source)

theorem specLe_eq (a b : Spec) : specLe a b = decide (a.rank ≤ b.rank) := by
  simp only [specLe, Text.le_eq, Spec.rank, Prod.Lex.toLex_le_toLex]
  split
  · next heq => simp [heq]
  · next hne => simp [hne]

theorem Spec.group_eq_three_iff {s : Spec} : s.group = 3 ↔ s.isType := by
  unfold Spec.group
  split
  · next h => simp [h]
  · next h =>
      simp only [h]
      split
      · simp
      · split <;> simp

/-- Types stand in a group of their own, so the rank of a spec says which source it is. -/
theorem Spec.key_eq_of_rank_eq {s s' : Spec} (h : s.rank = s'.rank) : s.key = s'.key := by
  obtain ⟨hgroup, hsource⟩ := Prod.mk.inj (toLex_inj.mp h)
  have htype : s.isType = s'.isType := by
    rw [Bool.eq_iff_iff, ← Spec.group_eq_three_iff, ← Spec.group_eq_three_iff, hgroup]
  exact Prod.ext (String.ofList_injective hsource) htype

theorem Spec.group_congr {s s' : Spec} (h : s.key = s'.key) : s.group = s'.group := by
  obtain ⟨hsource, htype⟩ := Prod.mk.inj h
  simp only [Spec.group, hsource, htype]

end Import

end Flowscript

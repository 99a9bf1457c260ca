/-
  Flowscript.Proofs.Groups

  What the groups of assembled fragments hold.

  A fragment's number says where it was: below zero in the preamble, and a thousand times
  the index of its node and its place there otherwise (`numbered_eq_inPlaces`).  So the
  group of a type is what the preamble and the nodes have of that type, one after another,
  and of exports the first of each text; repeated exports are left out before the sort,
  which finds the numbers in order and moves nothing.
-/
import Flowscript.Proofs.Assembly

namespace Flowscript

namespace Assembly

variable {fs preamble : List Fragment} {nodes : List (List Fragment)} {a : Assembled}
  {t : FragmentKind} {seen : List String}

-- ============================================================================
-- Fragments in their places
-- ============================================================================

/-- Fragments with the numbers of their places, the first of which is given. -/
def placed (start : Int) (fs : List Fragment) : List Fragment :=
  fs.mapIdx fun place f => { f with order := start + place }

/-- The fragments of the preamble and of all nodes, one after another, with the numbers of their
places. -/
def inPlaces (preamble : List Fragment) (nodes : List (List Fragment)) : List Fragment :=
  placed (-1000) preamble ++ (nodes.mapIdx fun i fs => placed (i * 1000) fs).flatten

theorem numberFrom_eq_placed (start : Int) (fs : List Fragment) :
    numberFrom start fs = placed start fs := by
  induction fs generalizing start with
  | nil => rfl
  | cons f fs ih =>
      have hnext : ∀ place : Nat, start + 1 + place = start + (place + 1 : Nat) := by omega
      rw [numberFrom, ih, placed, placed, List.mapIdx_cons]
      simp only [hnext, Int.natCast_zero, Int.add_zero]

theorem numbered_eq_flatten (slot : Int) (nodes : List (List Fragment)) :
    numbered slot nodes = (nodes.mapIdx fun i fs => placed ((slot + i) * 1000) fs).flatten := by
  induction nodes generalizing slot with
  | nil => rfl
  | cons fs rest ih =>
      have hnext : ∀ i : Nat, slot + 1 + i = slot + (i + 1 : Nat) := by omega
      rw [numbered, ih, numberFrom_eq_placed, List.mapIdx_cons, List.flatten_cons]
      simp only [hnext, Int.natCast_zero, Int.add_zero]
      rfl

theorem numbered_eq_inPlaces (preamble : List Fragment) (nodes : List (List Fragment)) :
    numbered (-1) (preamble :: nodes) = inPlaces preamble nodes := by
  rw [numbered, numbered_eq_flatten, numberFrom_eq_placed, inPlaces]
  simp only [Int.reduceNeg, Int.reduceAdd, Int.zero_add]
  rfl

/-- A slot that does not overflow keeps the preamble below zero. -/
theorem order_neg_of_mem_placed (hlen : preamble.length < slotSize) {f : Fragment}
    (hf : f ∈ placed (-1000) preamble) : f.order < 0 := by
  rw [← numberFrom_eq_placed] at hf
  have hslot : InSlot (-1) preamble f := mem_numberFrom_slot.mp hf
  exact (hslot.bounds hlen).2

-- ============================================================================
-- Repeated exports
-- ============================================================================

/-- The fragments with a text that is none of those seen, and that no fragment before them has. -/
def firstTexts (seen : List String) (fs : List Fragment) : List Fragment :=
  (fs.zipIdx.filter fun e => e.1.content ∉ seen ++ (fs.take e.2).map (·.content)).map (·.1)

theorem firstTexts_cons (seen : List String) (f : Fragment) (fs : List Fragment) :
    firstTexts seen (f :: fs) =
      if f.content ∈ seen then firstTexts seen fs else f :: firstTexts (f.content :: seen) fs := by
  have hrest : ∀ seen', (∀ x, x ∈ seen' ↔ x = f.content ∨ x ∈ seen) →
      ((fs.zipIdx.map (Prod.map id (· + 1))).filter fun e =>
        e.1.content ∉ seen ++ ((f :: fs).take e.2).map (·.content)).map (·.1) =
      firstTexts seen' fs := by
    intro seen' hseen'
    have hkeeps : ∀ e : Fragment × Nat,
        e.1.content ∉ seen ++ ((f :: fs).take (e.2 + 1)).map (·.content) ↔
          e.1.content ∉ seen' ++ (fs.take e.2).map (·.content) := by
      intro e
      simp only [List.take_succ_cons, List.map_cons, List.mem_append, List.mem_cons, hseen']
      exact not_congr (or_left_comm.trans or_assoc.symm)
    rw [List.filter_map, List.map_map, firstTexts]
    exact congrArg (List.map Prod.fst)
      (List.filter_congr fun e _ => decide_eq_decide.mpr (hkeeps e))
  unfold firstTexts at hrest ⊢
  rw [List.zipIdx_cons', List.filter_cons]
  split
  · next hfresh =>
    have hnew : f.content ∉ seen := by simpa using hfresh
    rw [if_neg hnew, List.map_cons, hrest (f.content :: seen) fun x => List.mem_cons]
  · next hold =>
    have hmem : f.content ∈ seen := by simpa using hold
    rw [if_pos hmem, hrest seen fun x => ⟨.inr, fun hx => hx.elim (· ▸ hmem) id⟩]

theorem filter_exports_dropRepeatedExports (seen : List String) (fs : List Fragment) :
    (dropRepeatedExports seen fs).filter (·.type = .exports) =
      firstTexts seen (fs.filter (·.type = .exports)) := by
  induction fs generalizing seen with
  | nil => rfl
  | cons f fs ih =>
      rw [dropRepeatedExports]
      by_cases hexport : f.type = .exports
      · rw [if_pos hexport, List.filter_cons_of_pos (by simpa using hexport), firstTexts_cons]
        split
        · exact ih seen
        · rw [List.filter_cons_of_pos (by simpa using hexport), ih]
      · simp [hexport, ih]

theorem filter_dropRepeatedExports (ht : t ≠ .exports) (seen : List String) (fs : List Fragment) :
    (dropRepeatedExports seen fs).filter (·.type = t) = fs.filter (·.type = t) := by
  induction fs generalizing seen with
  | nil => rfl
  | cons f fs ih =>
      rw [dropRepeatedExports]
      split
      · next hexport =>
        have hother : ¬ f.type = t := fun htype => ht (htype.symm.trans hexport)
        split <;> simp [hother, ih]
      · simp only [List.filter_cons, ih]

-- ============================================================================
-- Groups
-- ============================================================================

/-- What there is of a type before groups are sorted. -/
def unsorted (preamble : List Fragment) (nodes : List (List Fragment)) (t : FragmentKind) :
    List Fragment :=
  if t = .exports then firstTexts [] ((inPlaces preamble nodes).filter (·.type = .exports))
  else (inPlaces preamble nodes).filter (·.type = t)

theorem group_eq_unsorted (h : assemble nodes preamble = .ok a) (t : FragmentKind) :
    a.group t = unsorted preamble nodes t := by
  rw [group_of_assemble h, numbered_eq_inPlaces, unsorted]
  split
  · next ht => rw [ht, filter_exports_dropRepeatedExports]
  · next ht => exact filter_dropRepeatedExports ht [] _

theorem failsOnly_numberSlot (slot : Int) (fs : List Fragment) :
    FailsOnly (· = .tooManyFragments 999) (numberSlot slot fs) := by
  unfold numberSlot
  split
  · exact .error rfl
  · exact .ok _

theorem failsOnly_numberSlots (slot : Int) (nodes : List (List Fragment)) :
    FailsOnly (· = .tooManyFragments 999) (numberSlots slot nodes) := by
  induction nodes generalizing slot with
  | nil => exact .ok _
  | cons fs rest ih =>
      exact .bind (failsOnly_numberSlot slot fs) fun _ _ => .bind (ih _) fun _ _ => .ok _

theorem failsOnly_assemble (nodes : List (List Fragment)) (preamble : List Fragment) :
    FailsOnly (· = .tooManyFragments 999) (assemble nodes preamble) :=
  .bind (failsOnly_numberSlot _ _) fun _ _ => .bind (failsOnly_numberSlots _ _) fun _ _ => .ok _

/-- Assembly fails exactly if the preamble or a node has a thousand fragments or more.  Otherwise
the group of each type is what the preamble and the nodes have of that type, one after another, of
exports the first of each text; their numbers grow strictly, are below zero in the preamble, and a
thousand times the index of the node and the place in it otherwise, and the sort that comes last
leaves all of them where they are. -/
theorem groups_of_assembled (nodes : List (List Fragment)) (preamble : List Fragment) :
    ((∃ e, assemble nodes preamble = .error e) ↔ ∃ fs ∈ preamble :: nodes, 1000 ≤ fs.length) ∧
      (∀ e, assemble nodes preamble = .error e → e = .tooManyFragments 999) ∧
      ∀ a, assemble nodes preamble = .ok a →
        (∀ f ∈ placed (-1000) preamble, f.order < 0) ∧
        ∀ t, a.group t = unsorted preamble nodes t ∧
          (unsorted preamble nodes t).Pairwise (·.order < ·.order) ∧
          (unsorted preamble nodes t).mergeSort (fun a b => a.order ≤ b.order) =
            unsorted preamble nodes t := by
  refine ⟨?fails, failsOnly_assemble nodes preamble, fun a h => ⟨?below, fun t => ?group⟩⟩
  case fails =>
    have hok : (∃ a, assemble nodes preamble = .ok a) ↔
        ∀ fs ∈ preamble :: nodes, fs.length < 1000 :=
      ⟨fun ⟨_, h⟩ => (assemble_eq_ok_iff.mp h).1, fun h => ⟨_, assemble_eq_ok_iff.mpr ⟨h, rfl⟩⟩⟩
    have hfails : (∃ e, assemble nodes preamble = .error e) ↔
        ¬∃ a, assemble nodes preamble = .ok a := by
      cases assemble nodes preamble <;> simp
    rw [hfails, hok]
    simp only [Classical.not_forall, Nat.not_lt, exists_prop]
  case below =>
    exact fun f => order_neg_of_mem_placed ((assemble_eq_ok_iff.mp h).1 _ List.mem_cons_self)
  case group =>
    have hgroup := group_eq_unsorted h t
    have hgrows := pairwise_group h t
    rw [hgroup] at hgrows
    refine ⟨hgroup, hgrows, List.mergeSort_of_pairwise (hgrows.imp fun hab => ?_)⟩
    simpa using Int.le_of_lt hab

/-- Fragments that name exports twice: in the preamble, in the first node and in the third. -/
def twiceExported : List Fragment × List (List Fragment) :=
  let imported (name : String) : Fragment := { id := name, type := .imports, content := name }
  let exported (name : String) : Fragment := { id := name, type := .exports, content := name }
  ([imported "p", exported "x"],
    [[exported "x", imported "a", exported "y"], [], [exported "y", imported "b"]])

theorem twiceExported_groups :
    ∃ a, assemble twiceExported.2 twiceExported.1 = .ok a ∧
      (a.group .exports).map (fun f => (f.content, f.order)) = [("x", -999), ("y", 2)] ∧
      (a.group .imports).map (fun f => (f.content, f.order)) =
        [("p", -1000), ("a", 1), ("b", 2001)] := by
  obtain ⟨-, -, hgroups⟩ := groups_of_assembled twiceExported.2 twiceExported.1
  refine ⟨_, rfl, ?_, ?_⟩
  · rw [((hgroups _ rfl).2 .exports).1]
    decide
  · rw [((hgroups _ rfl).2 .imports).1]
    decide

end Assembly

end Flowscript

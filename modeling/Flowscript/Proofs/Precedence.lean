/-
  Flowscript.Proofs.Precedence

  Lists in which whatever has to come first does come first, and the relations on ids
  for which the orders of a graph are stated.

  A list is `Settled` for a relation `before` if, read from its end, each entry occurs
  once and everything that has to come before it has come already.  Searches keep the
  ids they are done with as such a list, latest first.  A settled list rules out cycles
  among its entries (`Settled.not_transGen`), and a list none of whose entries can be
  taken first contains one (`exists_transGen_of_forall_before`); these two facts are
  what ties every search to the absence of cycles.
-/
import Mathlib.Data.Fintype.Card
import Mathlib.Data.Set.Finite.Basic
import Mathlib.Logic.Relation
import Mathlib.Order.WellFounded
import Flowscript.Workflow.Cycle

namespace Flowscript

open Relation

-- ============================================================================
-- Settled lists
-- ============================================================================

section Settled

variable {α : Type} {before : α → α → Prop} {xs : List α} {x y : α}

/-- Every entry occurs once, and what has to come before it stands after it in the list. -/
def Settled (before : α → α → Prop) : List α → Prop
  | [] => True
  | x :: xs => x ∉ xs ∧ (∀ y, before y x → y ∈ xs) ∧ Settled before xs

@[simp] theorem settled_nil : Settled before [] := trivial

namespace Settled

theorem nodup (h : Settled before xs) : xs.Nodup := by
  induction xs with
  | nil => exact List.nodup_nil
  | cons x xs ih => exact List.nodup_cons.mpr ⟨h.1, ih h.2.2⟩

/-- Fewer entries have to come first. -/
theorem imp {before' : α → α → Prop} (h : Settled before xs)
    (himp : ∀ x y, before' x y → before x y) : Settled before' xs := by
  induction xs with
  | nil => exact settled_nil
  | cons x xs ih => exact ⟨h.1, fun y hy => h.2.1 y (himp y x hy), ih h.2.2⟩

/-- What has to come before an entry comes before it. -/
theorem sublist (h : Settled before xs) (hx : x ∈ xs) (hy : before y x) : [x, y].Sublist xs := by
  induction xs with
  | nil => exact absurd hx (by simp)
  | cons z zs ih =>
      obtain ⟨-, hz, hzs⟩ := h
      rcases List.mem_cons.mp hx with rfl | hx
      · exact List.Sublist.cons_cons _ (List.singleton_sublist.mpr (hz y hy))
      · exact List.Sublist.cons _ (ih hzs hx)

theorem mem_of_before (h : Settled before xs) (hx : x ∈ xs) (hy : before y x) : y ∈ xs :=
  (h.sublist hx hy).subset (by simp)

theorem mem_of_transGen (h : Settled before xs) (hx : x ∈ xs) (hy : TransGen before y x) :
    y ∈ xs := by
  induction hy with
  | single hyx => exact h.mem_of_before hx hyx
  | tail _ hzx ih => exact ih (h.mem_of_before hx hzx)

/-- No entry of a settled list comes before itself. -/
theorem not_transGen (h : Settled before xs) (hx : x ∈ xs) : ¬ TransGen before x x := by
  induction xs with
  | nil => exact absurd hx (by simp)
  | cons z zs ih =>
      obtain ⟨hnot, hz, hzs⟩ := h
      rcases List.mem_cons.mp hx with rfl | hx
      · -- a way back to the latest entry enters the rest of the list and cannot leave it
        intro hcycle
        obtain ⟨y, hxy, hyx⟩ := TransGen.tail'_iff.mp hcycle
        have hy : y ∈ zs := hz y hyx
        rcases reflTransGen_iff_eq_or_transGen.mp hxy with rfl | hxy
        · exact hnot hy
        · exact hnot (hzs.mem_of_transGen hy hxy)
      · exact ih hzs hx

end Settled

/-- If every entry of a list has another entry before it, then some entry comes before itself. -/
theorem exists_transGen_of_forall_before (hx : x ∈ xs)
    (h : ∀ x ∈ xs, ∃ y ∈ xs, before y x) : ∃ z, TransGen before z z := by
  by_contra hno
  -- without cycles the relation is well founded on the finitely many entries
  let below (a b : { a // a ∈ xs }) : Prop := TransGen before a.1 b.1
  have : Finite { a // a ∈ xs } := List.finite_toSet xs
  have : IsTrans { a // a ∈ xs } below := ⟨fun _ _ _ hab hbc => hab.trans hbc⟩
  have : Std.Irrefl below := ⟨fun a ha => hno ⟨a.1, ha⟩⟩
  have hwf : WellFounded below := Finite.wellFounded_of_trans_of_irrefl below
  obtain ⟨m, -, hmin⟩ := hwf.has_min Set.univ ⟨⟨x, hx⟩, trivial⟩
  obtain ⟨y, hy, hym⟩ := h m.1 m.2
  exact hmin ⟨y, hy⟩ trivial (TransGen.single hym)

end Settled

-- ============================================================================
-- Ids and connections of a graph
-- ============================================================================

/-- No text occurs twice among the distinct ones. -/
theorem Text.nodup_distinct (xs : List String) : (Text.distinct xs).Nodup := by
  have key : ∀ n (xs : List String), xs.length ≤ n → xs.eraseDups.Nodup := by
    intro n
    induction n with
    | zero =>
        intro xs hn
        rw [List.length_eq_zero_iff.mp (Nat.le_zero.mp hn)]
        exact List.nodup_nil
    | succ n ih =>
        intro xs hn
        cases xs with
        | nil => exact List.nodup_nil
        | cons x xs =>
            rw [List.eraseDups_cons]
            refine List.nodup_cons.mpr ⟨?_, ih _ ?_⟩
            · simp [List.mem_eraseDups]
            · have := List.length_filter_le (fun b => !b == x) xs
              simp only [List.length_cons] at hn
              omega
  exact key xs.length xs (Nat.le_refl _)

theorem Text.distinct_cons (x : String) (xs : List String) :
    Text.distinct (x :: xs) = x :: Text.distinct (xs.filter (· ≠ x)) := by
  rw [Text.distinct, List.eraseDups_cons, Text.distinct]
  congr 2
  exact List.filter_congr fun y _ => by rw [Bool.eq_iff_iff]; simp

/-- Of the texts that are not taken, the first one is kept, and it is taken from then on. -/
theorem Text.distinct_fresh_cons {x : String} {taken xs : List String} (h : x ∉ taken) :
    Text.distinct ((x :: xs).filter (· ∉ taken)) =
      x :: Text.distinct (xs.filter (· ∉ x :: taken)) := by
  have hrest : (xs.filter (· ∉ taken)).filter (· ≠ x) = xs.filter (· ∉ x :: taken) := by
    rw [List.filter_filter]
    refine List.filter_congr fun y _ => ?_
    simp [not_or]
  rw [List.filter_cons_of_pos (by simpa using h), Text.distinct_cons, hrest]

theorem Text.distinct_eq_self {xs : List String} (h : xs.Nodup) : Text.distinct xs = xs := by
  induction xs with
  | nil => rfl
  | cons x xs ih =>
      obtain ⟨hx, hxs⟩ := List.nodup_cons.mp h
      have hkeep : xs.filter (· ≠ x) = xs :=
        List.filter_eq_self.mpr fun y hy => by simpa using fun he : y = x => hx (he ▸ hy)
      rw [Text.distinct_cons, hkeep, ih hxs]

@[simp] theorem Text.mem_distinct {x : String} {xs : List String} :
    x ∈ Text.distinct xs ↔ x ∈ xs := List.mem_eraseDups

namespace Graph

variable {g : Graph} {a b id : String}

/-- A connection leads from one id to another. -/
def Leads (g : Graph) (a b : String) : Prop := ∃ c ∈ g.connections, c.source = a ∧ c.target = b

/-- No chain of connections leads from an id back to it. -/
def Acyclic (g : Graph) : Prop := ∀ id, ¬ TransGen g.Leads id id

/-- A connection between known nodes leads from one id to another. -/
def Joined (g : Graph) (a b : String) : Prop :=
  ∃ c ∈ g.connections, g.joins c = true ∧ c.source = a ∧ c.target = b

@[simp] theorem knows_iff : g.knows id = true ↔ id ∈ g.nodeIds := by
  simp [knows, nodeIds]

@[simp] theorem mem_distinctIds : id ∈ g.distinctIds ↔ id ∈ g.nodeIds := Text.mem_distinct

theorem nodup_distinctIds (g : Graph) : g.distinctIds.Nodup := Text.nodup_distinct _

theorem joins_iff {c : Connection} :
    g.joins c = true ↔ c.source ∈ g.nodeIds ∧ c.target ∈ g.nodeIds := by
  simp [joins]

theorem Joined.leads (h : g.Joined a b) : g.Leads a b := by
  obtain ⟨c, hc, -, ha, hb⟩ := h
  exact ⟨c, hc, ha, hb⟩

theorem Joined.source_mem (h : g.Joined a b) : a ∈ g.nodeIds := by
  obtain ⟨c, -, hj, rfl, -⟩ := h
  exact (joins_iff.mp hj).1

theorem Joined.target_mem (h : g.Joined a b) : b ∈ g.nodeIds := by
  obtain ⟨c, -, hj, -, rfl⟩ := h
  exact (joins_iff.mp hj).2

/-- Where the ends of all connections are nodes, every connection joins nodes. -/
theorem joined_eq_leads (h : ∀ c ∈ g.connections, g.joins c = true) : g.Joined = g.Leads := by
  funext a b
  refine propext ⟨Joined.leads, ?_⟩
  rintro ⟨c, hc, ha, hb⟩
  exact ⟨c, hc, h c hc, ha, hb⟩

/-- The targets of the connections from a node to known nodes. -/
theorem joined_iff_mem_successors : g.Joined a b ↔ b ∈ (g.successors a).map (·.target) := by
  simp only [Joined, successors, List.mem_map, List.mem_filter, Bool.and_eq_true,
    decide_eq_true_eq]
  constructor
  · rintro ⟨c, hc, hj, ha, hb⟩
    exact ⟨c, ⟨hc, ha, hj⟩, hb⟩
  · rintro ⟨c, ⟨hc, ha, hj⟩, hb⟩
    exact ⟨c, hc, hj, ha, hb⟩

/-! ## First nodes -/

theorem node?_eq_some {n : Node} (h : g.node? id = some n) : n ∈ g.nodes ∧ n.id = id := by
  refine ⟨List.mem_of_find?_eq_some h, ?_⟩
  simpa using List.find?_some h

theorem exists_node? (h : id ∈ g.nodeIds) : ∃ n, g.node? id = some n := by
  obtain ⟨n, hn, rfl⟩ := List.mem_map.mp h
  exact Option.isSome_iff_exists.mp (List.find?_isSome.mpr ⟨n, hn, by simp⟩)

theorem node?_eq_none (h : id ∉ g.nodeIds) : g.node? id = none := by
  refine List.find?_eq_none.mpr fun n hn he => h ?_
  exact List.mem_map.mpr ⟨n, hn, by simpa using he⟩

end Graph

end Flowscript

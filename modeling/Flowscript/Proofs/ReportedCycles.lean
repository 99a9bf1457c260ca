/-
  Flowscript.Proofs.ReportedCycles

  Every reported cycle is a ring of different nodes, each connected to the next one by the
  connection that stands at its place, and no two reported cycles go through the same
  nodes.

  A cycle is closed by a branch from the end of a stage's path back to a node on it
  (`Closed`).  Its members are that node and the path beyond it (`exists_close_eq`), so
  the trail with the closing branch added is the ring, read from the inside out.
-/
import Mathlib.Data.List.Chain
import Mathlib.Data.List.Rotate
import Flowscript.Proofs.CycleSearch

namespace Flowscript.Cycle

open Relation

variable {g : Graph} {s : Search} {path : Path} {b : String × String} {id t back : String}
  {done : List String} {c : Cycle}

-- ============================================================================
-- Closed cycles
-- ============================================================================

/-- A branch from the end of a stage's path back to a node of the path closes a cycle. -/
def Closed (g : Graph) (c : Cycle) : Prop :=
  ∃ path done s b, Reached g path done s ∧ b ∈ branches g path ∧ b.1 ∈ path.ids ∧
    c = close path b.1 b.2

theorem Reached.closed (h : Reached g path done s) : ∀ c ∈ s.found, Closed g c := by
  induction h with
  | start => simp
  | enter _ _ _ ih => exact ih
  | close h hb hpath ih =>
      intro c hc
      rcases mem_found_report hc with hc | rfl
      · exact ih c hc
      · exact ⟨_, _, _, _, h, hb, hpath, rfl⟩
  | leave _ _ ih => exact ih

/-- Every cycle of a graph was closed at some stage of the search. -/
theorem closed_of_mem_cycles (hc : c ∈ g.cycles) : Closed g c := by
  obtain ⟨done, s, hreached, hfound, -⟩ := exists_reached_cycles g
  exact hreached.closed c (hfound ▸ hc)

/-- The path splits at the node a cycle is closed at, and the cycle consists of that node and
what lies inside it. -/
theorem exists_close_eq (h : t ∈ path.ids) (back : String) :
    ∃ inner e outer, path = inner ++ (t, e) :: outer ∧
      close path t back =
        { members := t :: inner.reverse.map (·.1)
          connections := inner.reverse.map (·.2) ++ [back] } := by
  have hsplit : ∃ e outer, path = path.takeWhile (·.1 ≠ t) ++ (t, e) :: outer := by
    induction path with
    | nil => exact absurd h (by simp)
    | cons step rest ih =>
        by_cases hstep : step.1 = t
        · exact ⟨step.2, rest, by simp [← hstep]⟩
        · have hrest : t ∈ Path.ids rest := (List.mem_cons.mp h).resolve_left (Ne.symm hstep)
          obtain ⟨e, outer, he⟩ := ih hrest
          refine ⟨e, outer, ?_⟩
          rw [List.takeWhile_cons_of_pos (by simpa using hstep), List.cons_append, ← he]
  obtain ⟨e, outer, he⟩ := hsplit
  exact ⟨_, e, outer, he, rfl⟩

/-- From the outermost node on, the members of a closed cycle are the end of the path. -/
theorem members_close_suffix (h : t ∈ path.ids) (back : String) :
    (close path t back).members <:+ path.ids.reverse := by
  obtain ⟨inner, e, outer, rfl, he⟩ := exists_close_eq h back
  exact ⟨(Path.ids outer).reverse, by simp [he, Path.ids]⟩

theorem head?_members_close (h : t ∈ path.ids) (back : String) :
    (close path t back).members.head? = some t := by
  obtain ⟨inner, e, outer, -, he⟩ := exists_close_eq h back
  rw [he, List.head?_cons]

theorem members_close_ne_nil (h : t ∈ path.ids) (back : String) :
    (close path t back).members ≠ [] := by
  have hhead := head?_members_close h back
  rintro he
  simp [he] at hhead

/-- The last member of a closed cycle is the innermost node of the path. -/
theorem getLast?_members_close (h : t ∈ path.ids) (back : String) :
    (close path t back).members.getLast? = path.ids.head? := by
  obtain ⟨outer, houter⟩ := members_close_suffix h back
  rw [← List.getLast?_reverse, ← houter,
    List.getLast?_append_of_ne_nil _ (members_close_ne_nil h back)]

-- ============================================================================
-- Rings
-- ============================================================================

/-- The members are different nodes, and the connection at each place leads from the member there
to the next one, at the last place back to the first member. -/
structure IsRing (g : Graph) (c : Cycle) : Prop where
  ne_nil : c.members ≠ []
  nodup : c.members.Nodup
  known : ∀ id ∈ c.members, id ∈ g.nodeIds
  length_eq : c.connections.length = c.members.length
  joined : ∀ i < c.members.length, ∃ k ∈ g.connections, c.connections[i]? = some k.id ∧
    c.members[i]? = some k.source ∧ c.members[(i + 1) % c.members.length]? = some k.target

/-- A trail that comes back to its start, read from the start on. -/
theorem joined_of_trail {inner : Path} {e : String}
    (h : Trail g ((t, back) :: inner ++ [(t, e)])) (i : Nat)
    (hi : i < (t :: inner.reverse.map (·.1)).length) :
    ∃ k ∈ g.connections, (inner.reverse.map (·.2) ++ [back])[i]? = some k.id ∧
      (t :: inner.reverse.map (·.1))[i]? = some k.source ∧
      (t :: inner.reverse.map (·.1))[(i + 1) % (t :: inner.reverse.map (·.1)).length]? =
        some k.target := by
  have hchain : List.IsChain (fun outer inner : String × String =>
      ∃ k ∈ g.successors outer.1, k.target = inner.1 ∧ k.id = inner.2)
      ((t, e) :: inner.reverse ++ [(t, back)]) := by
    rw [← List.isChain_reverse]
    simpa [Trail] using h
  -- the step at each place leads to the step at the next one
  have hsteps := List.isChain_cons_append_singleton_iff_forall₂.mp hchain
  have hfrom : i < ((t, e) :: inner.reverse).length := by simpa using hi
  have hto : i < (inner.reverse ++ [(t, back)]).length := by simpa using hi
  obtain ⟨k, hk, htarget, hid⟩ := hsteps.get hfrom hto
  simp only [Graph.successors, List.mem_filter, Bool.and_eq_true, decide_eq_true_eq] at hk
  obtain ⟨hkg, hsource, -⟩ := hk
  refine ⟨k, hkg, ?_, ?_, ?_⟩
  · have hmap : inner.reverse.map (·.2) ++ [back] =
        (inner.reverse ++ [(t, back)]).map (·.2) := by simp
    rw [hmap, List.getElem?_map, List.getElem?_eq_getElem hto, hid]
    rfl
  · have hmap : t :: inner.reverse.map (·.1) = ((t, e) :: inner.reverse).map (·.1) := rfl
    rw [hmap, List.getElem?_map, List.getElem?_eq_getElem hfrom, hsource]
    rfl
  · have hmap : (t :: inner.reverse.map (·.1)).rotate 1 =
        (inner.reverse ++ [(t, back)]).map (·.1) := by simp
    rw [← List.getElem?_rotate hi, hmap, List.getElem?_map, List.getElem?_eq_getElem hto, htarget]
    rfl

theorem Reached.isRing_close (h : Reached g path done s) (hb : b ∈ branches g path)
    (hpath : b.1 ∈ path.ids) : IsRing g (Cycle.close path b.1 b.2) := by
  have htrail := h.onTrail
  have hsub := (members_close_suffix hpath b.2).sublist
  refine ⟨members_close_ne_nil hpath b.2, hsub.nodup (List.nodup_reverse.mpr htrail.nodup),
    fun id hid => htrail.known id (List.mem_reverse.mp (hsub.subset hid)), ?_, ?_⟩
  · obtain ⟨inner, e, outer, -, he⟩ := exists_close_eq hpath b.2
    simp [he]
  · obtain ⟨inner, e, outer, hsplit, he⟩ := exists_close_eq hpath b.2
    have hloop : Trail g (b :: inner ++ [(b.1, e)]) := by
      have hcons : Trail g ((b :: inner ++ [(b.1, e)]) ++ outer) := by
        have hstep := htrail.trail.cons hb
        rw [hsplit] at hstep
        simpa using hstep
      exact hcons.left_of_append
    rw [he]
    exact joined_of_trail hloop

theorem isRing_of_mem_cycles (hc : c ∈ g.cycles) : IsRing g c := by
  obtain ⟨path, done, s, b, hreached, hb, hpath, rfl⟩ := closed_of_mem_cycles hc
  exact hreached.isRing_close hb hpath

-- ============================================================================
-- No two cycles through the same nodes
-- ============================================================================

theorem Reached.pairwise_found (h : Reached g path done s) :
    s.found.Pairwise fun c d => ¬ SameMembers c d := by
  induction h with
  | start => exact List.Pairwise.nil
  | enter _ _ _ ih => exact ih
  | @close path _ s b _ _ _ ih =>
      rcases report_cases s (Cycle.close path b.1 b.2) with ⟨-, he⟩ | ⟨hnew, he⟩
      · rwa [he]
      · rw [he]
        refine List.pairwise_append.mpr ⟨ih, List.pairwise_singleton _ _, fun c hc d hd => ?_⟩
        rw [List.mem_singleton.mp hd]
        exact hnew c hc
  | leave _ _ ih => exact ih

/-- Every reported cycle is a ring of different nodes and of connections between them, and no two
reported cycles go through the same nodes. -/
theorem cycles_are_rings (g : Graph) :
    (∀ c ∈ g.cycles, IsRing g c) ∧ g.cycles.Pairwise fun c d => ¬ SameMembers c d := by
  refine ⟨fun c hc => isRing_of_mem_cycles hc, ?_⟩
  obtain ⟨done, s, hreached, hfound, -⟩ := exists_reached_cycles g
  exact hfound ▸ hreached.pairwise_found

end Flowscript.Cycle

namespace Flowscript

/-- Two nodes that wait for each other, connected twice in one direction, the first one also
waiting for itself and standing in the document twice. -/
def Graph.looped : Graph :=
  { nodes := [
      { id := "a", type := "llmChain" }, { id := "b", type := "llmChain" },
      { id := "a", type := "calculator" }]
    connections := [
      { id := "e1", source := "a", target := "b" }, { id := "e2", source := "a", target := "b" },
      { id := "e3", source := "b", target := "a" }, { id := "e4", source := "a", target := "a" }] }

theorem looped_cycles_are_rings :
    Graph.looped.cycles = [⟨["a", "b"], ["e1", "e3"]⟩, ⟨["a"], ["e4"]⟩] ∧
      Cycle.IsRing Graph.looped ⟨["a", "b"], ["e1", "e3"]⟩ ∧
      Cycle.IsRing Graph.looped ⟨["a"], ["e4"]⟩ ∧
      Graph.looped.cycles.Pairwise fun c d => ¬ Cycle.SameMembers c d := by
  have hcycles : Graph.looped.cycles = [⟨["a", "b"], ["e1", "e3"]⟩, ⟨["a"], ["e4"]⟩] := rfl
  obtain ⟨hrings, hapart⟩ := Cycle.cycles_are_rings Graph.looped
  rw [hcycles] at hrings
  exact ⟨hcycles, hrings _ (by simp), hrings _ (by simp), hapart⟩

end Flowscript

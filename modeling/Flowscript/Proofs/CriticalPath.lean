/-
  Flowscript.Proofs.CriticalPath

  The critical path is a longest chain of connections, along whatever order of the ids it is
  looked for.

  What is needed of a sorting is that its order puts sources before targets and that
  only cycles keep it from finding one (`Sorting.IsExact`); Kahn's order does both
  (`Kahn.isExact_sorting`).  Along such an order each id gets a chain that ends at it, and
  none that ends there is longer (`Charted`): the sources of an id have their chains
  by then, and a longest chain to the id is a longest one to some source, extended.
-/
import Flowscript.Workflow.Analysis
import Flowscript.Proofs.ExecutionOrder

namespace Flowscript

open Relation

variable {g : Graph} {ids done xs : List String} {edges : List (String × String)}
  {chains : List (String × List String)} {sorting : Sorting} {a b id : String}

-- ============================================================================
-- Sortings
-- ============================================================================

/-- One of the edges leads from one id to another. -/
def Linked (edges : List (String × String)) (a b : String) : Prop := (a, b) ∈ edges

/-- An order of the ids puts the source of each edge before its target, and there is one unless
the edges form a cycle. -/
structure Sorting.IsExact (sorting : Sorting) : Prop where
  sorted : ∀ {ids edges order}, ids.Nodup → (∀ e ∈ edges, e.1 ∈ ids ∧ e.2 ∈ ids) →
    sorting ids edges = some order →
    order.Perm ids ∧ ∀ e ∈ edges, StandsBefore order e.1 e.2
  cyclic : ∀ {ids edges}, ids.Nodup → (∀ e ∈ edges, e.1 ∈ ids ∧ e.2 ∈ ids) →
    sorting ids edges = none → ∃ id, TransGen (Linked edges) id id

/-- An order that puts what comes before an id before it is settled. -/
theorem settled_reverse_of_standsBefore {before : String → String → Prop} (hnodup : ids.Nodup)
    (h : ∀ a, ∀ b ∈ ids, before a b → StandsBefore ids a b) : Settled before ids.reverse := by
  induction ids using List.reverseRecOn with
  | nil => exact settled_nil
  | append_singleton xs x ih =>
      obtain ⟨hxs, -, hdisjoint⟩ := List.nodup_append'.mp hnodup
      have hx : x ∉ xs := fun hmem => hdisjoint hmem (by simp)
      -- what stands before an entry of `xs ++ [x]` stands in `xs`
      have hplace : ∀ {i j : Nat} {a b : String}, i < j → (xs ++ [x])[i]? = some a →
          (xs ++ [x])[j]? = some b → xs[i]? = some a := by
        intro i j a b hij hi hj
        have hj := (List.getElem?_eq_some_iff.mp hj).1
        rw [List.length_append, List.length_singleton] at hj
        rwa [List.getElem?_append_left (by omega)] at hi
      rw [List.reverse_concat]
      refine ⟨by simpa using hx, fun a ha => ?_, ih hxs fun a b hb hab => ?_⟩
      · obtain ⟨i, j, hij, hi, hj⟩ := h a x (by simp) ha
        exact List.mem_reverse.mpr (List.mem_of_getElem? (hplace hij hi hj))
      · obtain ⟨i, j, hij, hi, hj⟩ := h a b (List.mem_append_left _ hb) hab
        refine ⟨i, j, hij, hplace hij hi hj, ?_⟩
        have hjlen := (List.getElem?_eq_some_iff.mp hj).1
        rw [List.length_append, List.length_singleton] at hjlen
        by_cases hlast : j < xs.length
        · rwa [List.getElem?_append_left hlast] at hj
        · obtain rfl : j = xs.length := by omega
          rw [List.getElem?_concat_length] at hj
          exact absurd (Option.some.inj hj ▸ hb) hx

/-- Kahn's order finds an order unless there is none. -/
theorem Kahn.isExact_sorting : Kahn.sorting.IsExact := by
  have htarget : ∀ {edges : List (String × String)} {a b : String},
      b ∈ (edges.filter (·.1 = a)).map (·.2) ↔ Linked edges a b := by
    intro edges a b
    simp [Linked]
  have hclosed : ∀ {ids : List String} {edges : List (String × String)},
      (∀ e ∈ edges, e.1 ∈ ids ∧ e.2 ∈ ids) →
        ∀ a ∈ ids, ∀ b ∈ (edges.filter (·.1 = a)).map (·.2), b ∈ ids :=
    fun hends a _ b hb => (hends (a, b) (htarget.mp hb)).2
  constructor
  case sorted =>
    intro ids edges order hnodup hends h
    simp only [Kahn.sorting] at h
    split at h
    · cases h
    · next hlen =>
      cases h
      have hperm := Kahn.perm_sort hnodup (hclosed hends) (Nat.not_lt.mp hlen)
      have hsettled := (Kahn.settled_sort hnodup (hclosed hends)).1
      refine ⟨hperm, fun e he => ?_⟩
      obtain ⟨hsource, htargetIds⟩ := hends e he
      exact hsettled.standsBefore (hperm.mem_iff.mpr htargetIds) ⟨hsource, htarget.mpr he⟩
  case cyclic =>
    intro ids edges hnodup hends h
    simp only [Kahn.sorting] at h
    split at h
    · next hlen =>
      obtain ⟨id, hid⟩ := Kahn.exists_cycle_of_length_lt hnodup (hclosed hends) hlen
      exact ⟨id, TransGen.mono (fun _ _ hab => htarget.mp hab.2) id id hid⟩
    · cases h

-- ============================================================================
-- Longest lists
-- ============================================================================

namespace Graph

theorem longest_spec (c : List String) (cs : List (List String)) :
    longest (c :: cs) ∈ c :: cs ∧ ∀ d ∈ c :: cs, d.length ≤ (longest (c :: cs)).length := by
  simp only [longest]
  induction cs generalizing c with
  | nil => simp
  | cons d ds ih =>
      rw [List.foldl_cons]
      split
      · next hlt =>
        obtain ⟨hmem, hall⟩ := ih d
        refine ⟨List.mem_cons_of_mem _ hmem, fun e he => ?_⟩
        rcases List.mem_cons.mp he with rfl | he
        · exact Nat.le_trans (Nat.le_of_lt hlt) (hall d (by simp))
        · exact hall e he
      · next hle =>
        obtain ⟨hmem, hall⟩ := ih c
        refine ⟨List.cons_subset_cons _ (List.subset_cons_self _ _) hmem, fun e he => ?_⟩
        rcases List.mem_cons.mp he with rfl | he
        · exact hall e (by simp)
        · rcases List.mem_cons.mp he with rfl | he
          · exact Nat.le_trans (Nat.not_lt.mp hle) (hall c (by simp))
          · exact hall e (List.mem_cons_of_mem _ he)

/-- The longest of some lists is one of them, unless it is empty. -/
theorem longest_mem {cs : List (List String)} (h : longest cs ≠ []) : longest cs ∈ cs := by
  cases cs with
  | nil => exact absurd rfl h
  | cons c cs => exact (longest_spec c cs).1

theorem length_le_longest {c : List String} {cs : List (List String)} (h : c ∈ cs) :
    c.length ≤ (longest cs).length := by
  cases cs with
  | nil => cases h
  | cons d ds => exact (longest_spec d ds).2 c h

-- ============================================================================
-- Chains along an order
-- ============================================================================

/-- Each of the ids that are done has a chain, written from its end, that ends at it, and no chain
that ends there is longer. -/
structure Charted (edges : List (String × String)) (done : List String)
    (chains : List (String × List String)) : Prop where
  keys : chains.map (·.1) = done
  ends : ∀ e ∈ chains, e.2.head? = some e.1
  known : ∀ e ∈ chains, ∀ id ∈ e.2, id ∈ done
  chain : ∀ e ∈ chains, e.2.IsChain (Function.swap (Linked edges))
  maximal : ∀ e ∈ chains, ∀ xs, (e.1 :: xs).IsChain (Function.swap (Linked edges)) →
    xs.length < e.2.length

/-- The chains that the next id may extend: those of its sources. -/
theorem mem_before_iff {c : List String} :
    c ∈ (edges.filter (·.2 = id)).filterMap (fun e => Assoc.get? chains e.1) ↔
      ∃ a, Linked edges a id ∧ Assoc.get? chains a = some c := by
  simp only [List.mem_filterMap, List.mem_filter, decide_eq_true_eq, Linked]
  constructor
  · rintro ⟨⟨a, b⟩, ⟨hmem, rfl⟩, hc⟩
    exact ⟨a, hmem, hc⟩
  · rintro ⟨a, hmem, hc⟩
    exact ⟨(a, id), ⟨hmem, rfl⟩, hc⟩

/-- One more id, all of whose sources are done. -/
theorem Charted.step (h : Charted edges done chains)
    (hsources : ∀ a, Linked edges a id → a ∈ done) :
    Charted edges (done ++ [id]) (extend edges chains id) := by
  let best := longest ((edges.filter (·.2 = id)).filterMap fun e => Assoc.get? chains e.1)
  have hbest : best = [] ∨ ∃ a, Linked edges a id ∧ (a, best) ∈ chains := by
    by_cases hnil : best = []
    · exact .inl hnil
    · obtain ⟨a, ha, hget⟩ := mem_before_iff.mp (longest_mem hnil)
      exact .inr ⟨a, ha, Assoc.mem_of_get? hget⟩
  have hsource : ∀ a, Linked edges a id → ∃ c, (a, c) ∈ chains ∧ c.length ≤ best.length := by
    intro a ha
    cases hget : Assoc.get? chains a with
    | none => exact absurd (h.keys ▸ hsources a ha) (Assoc.get?_eq_none_iff.mp hget)
    | some c =>
        exact ⟨c, Assoc.mem_of_get? hget, length_le_longest (mem_before_iff.mpr ⟨a, ha, hget⟩)⟩
  have hmem : ∀ e ∈ Graph.extend edges chains id, e ∈ chains ∨ e = (id, id :: best) := by
    intro e he
    simpa [Graph.extend] using he
  constructor
  case keys => simp [Graph.extend, h.keys]
  case ends =>
    intro e he
    rcases hmem e he with he | rfl
    · exact h.ends e he
    · rfl
  case known =>
    intro e he
    rcases hmem e he with he | rfl
    · exact fun x hx => List.mem_append_left _ (h.known e he x hx)
    · intro x hx
      rcases List.mem_cons.mp hx with rfl | hx
      · simp
      · rcases hbest with hnil | ⟨a, -, hentry⟩
        · rw [hnil] at hx
          cases hx
        · exact List.mem_append_left _ (h.known _ hentry x hx)
  case chain =>
    intro e he
    rcases hmem e he with he | rfl
    · exact h.chain e he
    · rcases hbest with hnil | ⟨a, ha, hentry⟩
      · rw [hnil]
        exact List.isChain_singleton id
      · have hhead : best.head? = some a := h.ends _ hentry
        refine List.isChain_cons.mpr ⟨fun y hy => ?_, h.chain _ hentry⟩
        obtain rfl : a = y := Option.some.inj (hhead.symm.trans hy)
        exact ha
  case maximal =>
    intro e he
    rcases hmem e he with he | rfl
    · exact h.maximal e he
    · intro xs hxs
      cases xs with
      | nil => simp
      | cons a ys =>
          -- without its last link the chain is no longer than the one of its source
          obtain ⟨ha, hys⟩ := List.isChain_cons_cons.mp hxs
          obtain ⟨c, hc, hle⟩ := hsource a ha
          have hlt : ys.length < c.length := h.maximal _ hc ys hys
          simp only [List.length_cons]
          omega

theorem charted_foldl (h : Settled (Linked edges) ids.reverse) :
    Charted edges ids (ids.foldl (extend edges) []) := by
  induction ids using List.reverseRecOn with
  | nil => exact ⟨rfl, by simp, by simp, by simp, by simp⟩
  | append_singleton xs x ih =>
      rw [List.reverse_concat] at h
      obtain ⟨-, hsources, hrest⟩ := h
      rw [List.foldl_concat]
      exact (ih hrest).step fun a ha => List.mem_reverse.mp (hsources a ha)

-- ============================================================================
-- The critical path
-- ============================================================================

/-- Nodes each of which is connected to the next, and no such chain has more of them. -/
structure IsLongestChain (g : Graph) (path : List String) : Prop where
  known : ∀ id ∈ path, id ∈ g.nodeIds
  chain : path.IsChain g.Joined
  maximal : ∀ ids : List String, (∀ id ∈ ids, id ∈ g.nodeIds) → ids.IsChain g.Joined →
    ids.length ≤ path.length

theorem IsLongestChain.eq_nil_iff (h : g.IsLongestChain xs) : xs = [] ↔ g.nodes = [] := by
  constructor
  · rintro rfl
    by_contra hne
    obtain ⟨n, hn⟩ := List.exists_mem_of_ne_nil _ hne
    have hid : ∀ id ∈ [n.id], id ∈ g.nodeIds := by
      intro id hid
      rw [List.mem_singleton.mp hid]
      exact List.mem_map_of_mem hn
    exact absurd (h.maximal [n.id] hid (List.isChain_singleton _)) (by simp)
  · intro hnil
    refine List.eq_nil_iff_forall_not_mem.mpr fun id hid => ?_
    have hmem := h.known id hid
    rw [Graph.nodeIds, hnil] at hmem
    cases hmem

theorem linked_edges_eq_joined (g : Graph) : Linked g.edges = g.Joined := by
  funext a b
  refine propext ?_
  simp only [Linked, Graph.edges, List.mem_eraseDups, List.mem_map, List.mem_filter, Joined,
    Prod.mk.injEq, and_assoc]

theorem mem_distinctIds_of_mem_edges :
    ∀ e ∈ g.edges, e.1 ∈ g.distinctIds ∧ e.2 ∈ g.distinctIds := by
  rintro ⟨a, b⟩ he
  have hjoined : g.Joined a b := by
    rw [← linked_edges_eq_joined]
    exact he
  exact ⟨mem_distinctIds.mpr hjoined.source_mem, mem_distinctIds.mpr hjoined.target_mem⟩

/-- The longest of the chains that all ids have is a longest chain of the graph. -/
theorem Charted.isLongestChain (h : Charted g.edges ids chains) (hids : ids.Perm g.distinctIds) :
    g.IsLongestChain (longest (chains.map (·.2))).reverse := by
  have hid : ∀ id, id ∈ ids ↔ id ∈ g.nodeIds := fun id => hids.mem_iff.trans mem_distinctIds
  have hbest : longest (chains.map (·.2)) = [] ∨
      ∃ id, (id, longest (chains.map (·.2))) ∈ chains := by
    by_cases hnil : longest (chains.map (·.2)) = []
    · exact .inl hnil
    · obtain ⟨⟨id, c⟩, hmem, hc⟩ := List.mem_map.mp (longest_mem hnil)
      exact .inr ⟨id, hc ▸ hmem⟩
  refine ⟨fun id hmem => ?_, ?_, fun xs hknown hxs => ?_⟩
  · have hmem := List.mem_reverse.mp hmem
    rcases hbest with hnil | ⟨last, hentry⟩
    · rw [hnil] at hmem
      cases hmem
    · exact (hid id).mp (h.known _ hentry id hmem)
  · rw [← linked_edges_eq_joined, List.isChain_reverse]
    rcases hbest with hnil | ⟨last, hentry⟩
    · rw [hnil]
      exact List.IsChain.nil
    · exact h.chain _ hentry
  · cases xs using List.reverseRecOn with
    | nil => exact Nat.zero_le _
    | append_singleton xs x =>
        -- the chain is compared with the one that its last node has
        have hx : x ∈ chains.map (·.1) := by
          rw [h.keys]
          exact (hid x).mpr (hknown x (by simp))
        obtain ⟨⟨_, c⟩, hentry, rfl⟩ := List.mem_map.mp hx
        rw [← linked_edges_eq_joined, ← List.reverse_reverse (xs ++ [_]), List.isChain_reverse,
          List.reverse_concat] at hxs
        have hlt := h.maximal _ hentry _ hxs
        have hle : c.length ≤ (longest (chains.map (·.2))).length :=
          length_le_longest (List.mem_map_of_mem (f := (·.2)) hentry)
        simp only [List.length_reverse, List.length_append, List.length_singleton] at hlt ⊢
        omega

/-- Along any order that an exact sorting gives: the critical path is empty only if there are no
nodes or there is a cycle; otherwise it is a longest chain of connections between known nodes, and
the depth is the number of its connections. -/
theorem criticalPath_longest (g : Graph) (sorting : Sorting) (h : sorting.IsExact) :
    (g.criticalPathBy sorting = [] ↔ g.nodes = [] ∨ g.cycles ≠ []) ∧
      (g.criticalPathBy sorting ≠ [] →
        g.IsLongestChain (g.criticalPathBy sorting) ∧
          (g.analysisBy sorting).maxDepth + 1 = (g.criticalPathBy sorting).length) := by
  have hlength : g.criticalPathBy sorting ≠ [] →
      (g.analysisBy sorting).maxDepth + 1 = (g.criticalPathBy sorting).length := by
    intro hne
    exact Nat.sub_add_cancel (List.length_pos_iff.mpr hne)
  cases hsorted : sorting g.distinctIds g.edges with
  | none =>
      obtain ⟨id, hid⟩ := h.cyclic g.nodup_distinctIds mem_distinctIds_of_mem_edges hsorted
      rw [linked_edges_eq_joined] at hid
      have hcycles : g.cycles ≠ [] := fun hnil => (Cycle.cycles_eq_nil_iff g).mp hnil id hid
      have hpath : g.criticalPathBy sorting = [] := by
        simp only [criticalPathBy, hsorted]
      exact ⟨iff_of_true hpath (.inr hcycles), fun hne => absurd hpath hne⟩
  | some order =>
      obtain ⟨hperm, hbefore⟩ :=
        h.sorted g.nodup_distinctIds mem_distinctIds_of_mem_edges hsorted
      have hsettled : Settled (Linked g.edges) order.reverse :=
        settled_reverse_of_standsBefore (hperm.nodup_iff.mpr g.nodup_distinctIds)
          fun a b _ hab => hbefore (a, b) hab
      have hlongest : g.IsLongestChain (g.criticalPathBy sorting) := by
        simp only [criticalPathBy, hsorted]
        exact (charted_foldl hsettled).isLongestChain hperm
      have hcycles : g.cycles = [] := by
        refine (Cycle.cycles_eq_nil_iff g).mpr fun id hid => ?_
        obtain ⟨_, -, hlast⟩ := TransGen.tail'_iff.mp hid
        have hmem : id ∈ order.reverse :=
          List.mem_reverse.mpr (hperm.mem_iff.mpr (mem_distinctIds.mpr hlast.target_mem))
        rw [← linked_edges_eq_joined] at hid
        exact hsettled.not_transGen hmem hid
      refine ⟨?_, fun hne => ⟨hlongest, hlength hne⟩⟩
      simp [hlongest.eq_nil_iff, hcycles]

/-- A summary of what was read and of what was cleaned after it was read, one of the two ways
twice, and a connection from something that no node stands for. -/
def relayed : Graph :=
  { nodes := [
      { id := "sum", type := "calculator" }, { id := "read", type := "llmChain" },
      { id := "clean", type := "llmChain" }]
    connections := [
      { id := "e1", source := "read", target := "sum" },
      { id := "e2", source := "read", target := "sum" },
      { id := "e3", source := "clean", target := "sum" },
      { id := "e4", source := "read", target := "clean" },
      { id := "e5", source := "ghost", target := "read" }] }

theorem relayed_criticalPath :
    Kahn.sorting.IsExact ∧ relayed.criticalPath = ["read", "clean", "sum"] ∧
      (relayed.criticalPath = [] ↔ relayed.nodes = [] ∨ relayed.cycles ≠ []) ∧
      relayed.IsLongestChain relayed.criticalPath ∧
      relayed.analysis.maxDepth + 1 = relayed.criticalPath.length := by
  have hpath : relayed.criticalPath = ["read", "clean", "sum"] := by decide
  have hne : relayed.criticalPathBy Kahn.sorting ≠ [] := by
    rw [show relayed.criticalPathBy Kahn.sorting = _ from hpath]
    simp
  obtain ⟨hempty, hlongest⟩ := criticalPath_longest relayed Kahn.sorting Kahn.isExact_sorting
  exact ⟨Kahn.isExact_sorting, hpath, hempty, hlongest hne⟩

end Graph

end Flowscript

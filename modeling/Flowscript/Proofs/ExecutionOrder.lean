/-
  Flowscript.Proofs.ExecutionOrder

  What the two strategies give: an order of the nodes in which sources stand before
  targets, or the first cycle of the graph.

  `IsOrder` collects what is true of every order, whatever strategy it came from.  The
  results on when there is an order compare three searches, that for cycles and the two
  strategies, through cycles of connections.
-/
import Flowscript.Proofs.ClosingConnections
import Flowscript.Proofs.DepthFirst
import Flowscript.Proofs.Kahn

namespace Flowscript

open Relation

variable {g : Graph} {ns : List Node} {ids : List String} {a b id : String}

-- ============================================================================
-- Places in a list
-- ============================================================================

/-- One text stands at an earlier place of a list than another. -/
def StandsBefore (ids : List String) (a b : String) : Prop :=
  ∃ i j : Nat, i < j ∧ ids[i]? = some a ∧ ids[j]? = some b

theorem standsBefore_of_sublist (h : [a, b].Sublist ids) : StandsBefore ids a b := by
  induction ids with
  | nil => exact absurd h (by simp)
  | cons x xs ih =>
      cases h with
      | cons _ h =>
          obtain ⟨i, j, hij, hi, hj⟩ := ih h
          exact ⟨i + 1, j + 1, by omega, by simpa using hi, by simpa using hj⟩
      | cons_cons _ h =>
          obtain ⟨j, hj⟩ := List.mem_iff_getElem?.mp (List.singleton_sublist.mp h)
          exact ⟨0, j + 1, by omega, by simp, by simpa using hj⟩

/-- In a settled order what comes before an entry stands before it. -/
theorem Settled.standsBefore {before : String → String → Prop} (h : Settled before ids.reverse)
    (hb : b ∈ ids) (hab : before a b) : StandsBefore ids a b := by
  have hsub := List.reverse_sublist.mpr (h.sublist (List.mem_reverse.mpr hb) hab)
  rw [List.reverse_reverse] at hsub
  exact standsBefore_of_sublist hsub

-- ============================================================================
-- Orders of a graph
-- ============================================================================

/-- The nodes are the first ones of all ids, each once, sources first. -/
structure IsOrder (g : Graph) (ns : List Node) : Prop where
  settled : Settled g.Joined (ns.map (·.id)).reverse
  complete : ∀ id ∈ g.nodeIds, id ∈ ns.map (·.id)
  first : ∀ n ∈ ns, g.node? n.id = some n

theorem Graph.mem_firstNodes {n : Node} (h : n ∈ g.firstNodes ids) :
    g.node? n.id = some n ∧ n.id ∈ ids := by
  obtain ⟨id, hid, hn⟩ := List.mem_filterMap.mp h
  obtain ⟨-, rfl⟩ := Graph.node?_eq_some hn
  exact ⟨hn, hid⟩

@[simp] theorem Graph.firstNodes_nil (g : Graph) : g.firstNodes [] = [] := rfl

theorem Graph.firstNodes_cons (g : Graph) (id : String) (ids : List String) :
    g.firstNodes (id :: ids) = (g.node? id).toList ++ g.firstNodes ids := by
  cases h : g.node? id <;> simp [Graph.firstNodes, h]

/-- The first nodes have the ids that are known, in their order. -/
theorem Graph.map_id_firstNodes (g : Graph) (ids : List String) :
    (g.firstNodes ids).map (·.id) = ids.filter (· ∈ g.nodeIds) := by
  induction ids with
  | nil => rfl
  | cons id ids ih =>
      by_cases hid : id ∈ g.nodeIds
      · obtain ⟨n, hn⟩ := Graph.exists_node? hid
        obtain ⟨-, hnid⟩ := Graph.node?_eq_some hn
        simpa [Graph.firstNodes, hn, hid, hnid] using ih
      · simpa [Graph.firstNodes, Graph.node?_eq_none hid, hid] using ih

/-- Leaving out unknown ids keeps a list settled for the connections between known nodes. -/
theorem Settled.filter_known {before : String → String → Prop}
    (hsub : ∀ a b, g.Joined a b → before a b) (h : Settled before ids) :
    Settled g.Joined (ids.filter (· ∈ g.nodeIds)) := by
  induction ids with
  | nil => exact settled_nil
  | cons id ids ih =>
      obtain ⟨hnot, hbefore, hrest⟩ := h
      by_cases hid : id ∈ g.nodeIds
      · rw [List.filter_cons_of_pos (by simpa using hid)]
        refine ⟨fun hmem => hnot (List.mem_filter.mp hmem).1, fun a ha => ?_, ih hrest⟩
        exact List.mem_filter.mpr ⟨hbefore a (hsub a id ha), by simpa using ha.source_mem⟩
      · rw [List.filter_cons_of_neg (by simpa using hid)]
        exact ih hrest

/-- The first nodes of a settled list that has all ids of nodes are an order. -/
theorem isOrder_firstNodes {before : String → String → Prop}
    (hsub : ∀ a b, g.Joined a b → before a b) (h : Settled before ids.reverse)
    (hall : ∀ id ∈ g.nodeIds, id ∈ ids) : IsOrder g (g.firstNodes ids) := by
  refine ⟨?_, ?_, fun n hn => (Graph.mem_firstNodes hn).1⟩
  · rw [Graph.map_id_firstNodes, ← List.filter_reverse]
    exact h.filter_known hsub
  · intro id hid
    rw [Graph.map_id_firstNodes]
    exact List.mem_filter.mpr ⟨hall id hid, by simpa using hid⟩

namespace IsOrder

theorem nodup (h : IsOrder g ns) : (ns.map (·.id)).Nodup :=
  List.nodup_reverse.mp h.settled.nodup

theorem mem_iff (h : IsOrder g ns) : id ∈ ns.map (·.id) ↔ id ∈ g.nodeIds := by
  refine ⟨fun hid => ?_, h.complete id⟩
  obtain ⟨n, hn, rfl⟩ := List.mem_map.mp hid
  exact List.mem_map.mpr ⟨n, (Graph.node?_eq_some (h.first n hn)).1, rfl⟩

theorem perm (h : IsOrder g ns) : (ns.map (·.id)).Perm g.distinctIds := by
  rw [List.perm_ext_iff_of_nodup h.nodup g.nodup_distinctIds]
  intro id
  rw [h.mem_iff, Graph.mem_distinctIds]

/-- An id has one place in an order. -/
theorem place_unique {i j : Nat} (h : IsOrder g ns) (hi : (ns.map (·.id))[i]? = some id)
    (hj : (ns.map (·.id))[j]? = some id) : i = j := by
  have hlt := (List.getElem?_eq_some_iff.mp hi).1
  exact (List.getElem?_inj hlt h.nodup).mp (hi.trans hj.symm)

/-- The source of a connection between known nodes stands before its target. -/
theorem standsBefore (h : IsOrder g ns) (hab : g.Joined a b) :
    StandsBefore (ns.map (·.id)) a b :=
  h.settled.standsBefore (h.complete b hab.target_mem) hab

/-- A graph with an order has no cycle among its nodes. -/
theorem not_transGen (h : IsOrder g ns) (id : String) : ¬ TransGen g.Joined id id := by
  intro hcycle
  obtain ⟨_, -, hlast⟩ := TransGen.tail'_iff.mp hcycle
  have hid : id ∈ (ns.map (·.id)).reverse := List.mem_reverse.mpr (h.complete id hlast.target_mem)
  exact h.settled.not_transGen hid hcycle

end IsOrder

-- ============================================================================
-- Depth-first order
-- ============================================================================

theorem DepthFirst.isOrder (h : DepthFirst.order g = .ok ns) : IsOrder g ns := by
  simp only [DepthFirst.order] at h
  split at h
  · next ids hids =>
    cases h
    obtain ⟨hsettled, hall⟩ := DepthFirst.settled_of_ids? hids
    exact isOrder_firstNodes (fun _ _ hab => hab.leads) hsettled hall
  · exact absurd h (by simp)

theorem DepthFirst.not_acyclic {e : Refusal} (h : DepthFirst.order g = .error e) :
    e = g.orderRefusal ∧ ¬ g.Acyclic := by
  simp only [DepthFirst.order] at h
  split at h
  · exact absurd h (by simp)
  · next hids =>
    cases h
    obtain ⟨id, hid⟩ := DepthFirst.exists_cycle_of_ids?_eq_none hids
    exact ⟨rfl, fun hacyclic => hacyclic id hid⟩

-- ============================================================================
-- Kahn's order
-- ============================================================================

/-- The edges along which Kahn's order of a graph goes are those between known nodes. -/
theorem Kahn.edge_iff_joined :
    Kahn.Edge g.distinctIds (fun id => (g.successors id).map (·.target)) a b ↔ g.Joined a b := by
  rw [Kahn.Edge, ← Graph.joined_iff_mem_successors, Graph.mem_distinctIds]
  exact ⟨fun h => h.2, fun h => ⟨h.source_mem, h⟩⟩

theorem Kahn.edge_eq_joined (g : Graph) :
    Kahn.Edge g.distinctIds (fun id => (g.successors id).map (·.target)) = g.Joined := by
  funext a b
  exact propext Kahn.edge_iff_joined

/-- The edges along which Kahn's order of a graph goes lead to known nodes. -/
theorem Kahn.mem_distinctIds_of_mem_successors :
    ∀ a ∈ g.distinctIds, ∀ b ∈ (g.successors a).map (·.target), b ∈ g.distinctIds := by
  intro a _ b hb
  exact Graph.mem_distinctIds.mpr (Graph.joined_iff_mem_successors.mpr hb).target_mem

/-- The ids in Kahn's order are settled. -/
theorem Kahn.settled_ids (g : Graph) : Settled g.Joined (Kahn.ids g).reverse := by
  rw [← Kahn.edge_eq_joined]
  exact (Kahn.settled_sort g.nodup_distinctIds Kahn.mem_distinctIds_of_mem_successors).1

theorem Kahn.isOrder (h : Kahn.order g = .ok ns) : IsOrder g ns := by
  simp only [Kahn.order] at h
  split at h
  · exact absurd h (by simp)
  · next hlen =>
    cases h
    have hperm : (Kahn.ids g).Perm g.distinctIds :=
      Kahn.perm_sort g.nodup_distinctIds Kahn.mem_distinctIds_of_mem_successors (Nat.not_lt.mp hlen)
    refine isOrder_firstNodes (fun _ _ hab => hab) (Kahn.settled_ids g) fun id hid => ?_
    exact hperm.mem_iff.mpr (Graph.mem_distinctIds.mpr hid)

theorem Kahn.not_acyclic {e : Refusal} (h : Kahn.order g = .error e) :
    e = g.orderRefusal ∧ ¬ g.Acyclic := by
  simp only [Kahn.order] at h
  split at h
  · next hlen =>
    cases h
    refine ⟨rfl, fun hacyclic => ?_⟩
    obtain ⟨z, hz⟩ := Kahn.exists_cycle_of_length_lt g.nodup_distinctIds
      Kahn.mem_distinctIds_of_mem_successors hlen
    rw [Kahn.edge_eq_joined] at hz
    exact hacyclic z (TransGen.mono (fun _ _ => Graph.Joined.leads) z z hz)
  · exact absurd h (by simp)

-- ============================================================================
-- Either strategy
-- ============================================================================

theorem isOrder_of_order {s : Strategy} (h : s.order g = .ok ns) : IsOrder g ns := by
  cases s with
  | depthFirst => exact DepthFirst.isOrder h
  | kahn => exact Kahn.isOrder h

theorem not_acyclic_of_order {s : Strategy} {e : Refusal} (h : s.order g = .error e) :
    e = g.orderRefusal ∧ ¬ g.Acyclic := by
  cases s with
  | depthFirst => exact DepthFirst.not_acyclic h
  | kahn => exact Kahn.not_acyclic h

/-- Whenever there is an order, it has the first node of each id once and nothing else, and the
source of every connection between nodes stands strictly before its target. -/
theorem nodes_once_sources_first (s : Strategy) (g : Graph) (ns : List Node)
    (h : s.order g = .ok ns) :
    (ns.map (·.id)).Perm g.distinctIds ∧ (∀ n ∈ ns, g.node? n.id = some n) ∧
      ∀ c ∈ g.connections, c.source ∈ g.nodeIds → c.target ∈ g.nodeIds →
        StandsBefore (ns.map (·.id)) c.source c.target := by
  have horder := isOrder_of_order h
  refine ⟨horder.perm, horder.first, fun c hc hsource htarget => horder.standsBefore ?_⟩
  exact ⟨c, hc, Graph.joins_iff.mpr ⟨hsource, htarget⟩, rfl, rfl⟩

/-- A chain and its model, with the model connected twice, a second node under the chain's id,
and a connection from an id that no node has. -/
def Graph.tangled : Graph :=
  { nodes := [
      { id := "chain", type := "llmChain" }, { id := "model", type := "openAI" },
      { id := "chain", type := "calculator" }]
    connections := [
      { id := "e1", source := "model", target := "chain" },
      { id := "e2", source := "model", target := "chain" },
      { id := "e3", source := "ghost", target := "model" }] }

/-- The model and the first of the two nodes under the chain's id. -/
def Graph.untangled : List Node :=
  [{ id := "model", type := "openAI" }, { id := "chain", type := "llmChain" }]

theorem tangled_in_order :
    (∀ s : Strategy, s.order Graph.tangled = .ok Graph.untangled) ∧
      (Graph.untangled.map (·.id)).Perm Graph.tangled.distinctIds ∧
      (∀ n ∈ Graph.untangled, Graph.tangled.node? n.id = some n) ∧
      ∀ c ∈ Graph.tangled.connections, c.source ∈ Graph.tangled.nodeIds →
        c.target ∈ Graph.tangled.nodeIds →
        StandsBefore (Graph.untangled.map (·.id)) c.source c.target := by
  refine ⟨fun s => ?_, nodes_once_sources_first .kahn Graph.tangled Graph.untangled rfl⟩
  cases s with
  | depthFirst => rfl
  | kahn => rfl

-- ============================================================================
-- When there is an order
-- ============================================================================

/-- Where all connections end at nodes, cycles are reported exactly if there are any. -/
theorem acyclic_iff_cycles_eq_nil (hends : ∀ c ∈ g.connections, g.joins c = true) :
    g.Acyclic ↔ g.cycles = [] := by
  rw [Cycle.cycles_eq_nil_iff, Graph.joined_eq_leads hends]
  exact Iff.rfl

theorem exists_order_of_acyclic (h : g.Acyclic) (s : Strategy) : ∃ ns, s.order g = .ok ns := by
  cases horder : s.order g with
  | ok ns => exact ⟨ns, rfl⟩
  | error e => exact absurd h (not_acyclic_of_order horder).2

theorem acyclic_of_order (hends : ∀ c ∈ g.connections, g.joins c = true) {s : Strategy}
    (h : s.order g = .ok ns) : g.Acyclic := by
  intro id hcycle
  rw [← Graph.joined_eq_leads hends] at hcycle
  exact (isOrder_of_order h).not_transGen id hcycle

theorem order_eq_error_of_not_acyclic (hends : ∀ c ∈ g.connections, g.joins c = true)
    (h : ¬ g.Acyclic) (s : Strategy) : s.order g = .error g.orderRefusal := by
  cases horder : s.order g with
  | ok ns => exact absurd (acyclic_of_order hends horder) h
  | error e => rw [(not_acyclic_of_order horder).1]

theorem exists_orderRefusal (h : g.cycles ≠ []) :
    ∃ c cs, g.cycles = c :: cs ∧ g.orderRefusal = .cycle c.members c.connections := by
  cases hc : g.cycles with
  | nil => exact absurd hc h
  | cons c cs =>
      refine ⟨c, cs, rfl, ?_⟩
      simp only [Graph.orderRefusal, hc]

/-- Where all connections end at nodes, the search for cycles and both strategies agree on
whether there is a cycle, and both strategies refuse a graph with one by its first cycle. -/
theorem cycle_searches_agree (g : Graph) (hends : ∀ c ∈ g.connections, g.joins c = true) :
    (g.Acyclic ↔ g.cycles = []) ∧
      (g.Acyclic ↔ ∃ ns, Strategy.depthFirst.order g = .ok ns) ∧
      (g.Acyclic ↔ ∃ ns, Strategy.kahn.order g = .ok ns) ∧
      (¬ g.Acyclic → ∃ c cs, g.cycles = c :: cs ∧
        ∀ s : Strategy, s.order g = .error (.cycle c.members c.connections)) ∧
      ∀ s : Strategy, s.order g ≠ .error .unordered := by
  have horder : ∀ s : Strategy, g.Acyclic ↔ ∃ ns, s.order g = .ok ns := fun s =>
    ⟨fun h => exists_order_of_acyclic h s, fun ⟨_, h⟩ => acyclic_of_order hends h⟩
  have hrefused : ¬ g.Acyclic → ∃ c cs, g.cycles = c :: cs ∧
      ∀ s : Strategy, s.order g = .error (.cycle c.members c.connections) := by
    intro hcyclic
    have hne : g.cycles ≠ [] := fun h => hcyclic ((acyclic_iff_cycles_eq_nil hends).mpr h)
    obtain ⟨c, cs, hc, hrefusal⟩ := exists_orderRefusal hne
    refine ⟨c, cs, hc, fun s => ?_⟩
    rw [order_eq_error_of_not_acyclic hends hcyclic s, hrefusal]
  refine ⟨acyclic_iff_cycles_eq_nil hends, horder _, horder _, hrefused, fun s herror => ?_⟩
  obtain ⟨c, cs, -, hcycle⟩ := hrefused (not_acyclic_of_order herror).2
  rw [hcycle s] at herror
  cases herror

/-- Two chains that wait for each other, and a model beside them. -/
def Graph.deadlocked : Graph :=
  { nodes := [
      { id := "model", type := "openAI" }, { id := "a", type := "llmChain" },
      { id := "b", type := "llmChain" }]
    connections := [
      { id := "e1", source := "model", target := "a" },
      { id := "e2", source := "a", target := "b" },
      { id := "e3", source := "b", target := "a" }] }

theorem deadlocked_refused_by_its_cycle :
    (∀ c ∈ Graph.deadlocked.connections, Graph.deadlocked.joins c = true) ∧
      ¬ Graph.deadlocked.Acyclic ∧
      ∀ s : Strategy, s.order Graph.deadlocked = .error (.cycle ["a", "b"] ["e2", "e3"]) := by
  have hends : ∀ c ∈ Graph.deadlocked.connections, Graph.deadlocked.joins c = true := by decide
  have hcycles : Graph.deadlocked.cycles = [⟨["a", "b"], ["e2", "e3"]⟩] := rfl
  obtain ⟨hacyclic, -, -, hrefused, -⟩ := cycle_searches_agree Graph.deadlocked hends
  have hcyclic : ¬ Graph.deadlocked.Acyclic := by
    rw [hacyclic, hcycles]
    simp
  obtain ⟨c, cs, hc, horder⟩ := hrefused hcyclic
  rw [hcycles] at hc
  cases hc
  exact ⟨hends, hcyclic, horder⟩

end Flowscript

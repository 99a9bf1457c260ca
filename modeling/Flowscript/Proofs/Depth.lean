/-
  Flowscript.Proofs.Depth

  Kahn's order takes the nodes level by level.

  The depth of a node is the number of connections in the longest chain that ends at it
  (`Graph.IsDepth`).  Two facts about depths carry everything here (`Graded`): a
  connection leads to a greater depth, and a node that is not at depth 0 has a
  connection from the depth just below.  So an id becomes free when the last of its
  sources is taken, and then it lies one level above that source.  Since the queue is
  first in, first out, it never holds more than two neighbouring levels, the lower one
  first (`Kahn.Levelled`).
-/
import Mathlib.Order.Lattice.Nat
import Flowscript.Proofs.ExecutionOrder

namespace Flowscript

variable {g : Graph} {ns : List Node} {ids taken queue : List String} {a b id : String}

-- ============================================================================
-- Depths
-- ============================================================================

theorem isChain_concat_concat {α : Type} {R : α → α → Prop} {xs : List α} {x y : α} :
    (xs ++ [x] ++ [y]).IsChain R ↔ (xs ++ [x]).IsChain R ∧ R x y := by
  simp [List.append_assoc, List.isChain_append_cons_cons]

/-- A chain that ends at an entry of a settled list has fewer links than the list has entries. -/
theorem Settled.length_lt_of_isChain {before : String → String → Prop} {chain : List String}
    (h : Settled before ids) (hid : id ∈ ids) (hchain : (chain ++ [id]).IsChain before) :
    chain.length < ids.length := by
  induction ids generalizing id chain with
  | nil => exact absurd hid (by simp)
  | cons x xs ih =>
      obtain ⟨-, hbefore, hrest⟩ := h
      rcases List.mem_cons.mp hid with rfl | hid
      · cases chain using List.reverseRecOn with
        | nil => simp
        | append_singleton chain y =>
            obtain ⟨hchain, hy⟩ := isChain_concat_concat.mp hchain
            have hlt := ih hrest (hbefore y hy) hchain
            simpa using hlt
      · have hlt := ih hrest hid hchain
        exact Nat.lt_succ_of_lt hlt

namespace Graph

/-- The longest chain of connections between known nodes that ends at an id has `d` connections. -/
def IsDepth (g : Graph) (id : String) (d : Nat) : Prop :=
  IsGreatest {k | ∃ chain : List String, (chain ++ [id]).IsChain g.Joined ∧ chain.length = k} d

variable {d e : Nat}

/-- In a graph with an order every node has a depth. -/
theorem exists_isDepth (h : IsOrder g ns) (hid : id ∈ g.nodeIds) : ∃ d, g.IsDepth id d := by
  let lengths := {k | ∃ chain : List String, (chain ++ [id]).IsChain g.Joined ∧ chain.length = k}
  have hne : lengths.Nonempty := ⟨0, [], by simp, rfl⟩
  have hbound : BddAbove lengths := by
    refine ⟨(ns.map (·.id)).reverse.length, ?_⟩
    rintro k ⟨chain, hchain, rfl⟩
    have hmem : id ∈ (ns.map (·.id)).reverse := List.mem_reverse.mpr (h.complete id hid)
    exact Nat.le_of_lt (h.settled.length_lt_of_isChain hmem hchain)
  exact ⟨sSup lengths, Nat.sSup_mem hne hbound, fun k hk => le_csSup hbound hk⟩

/-- A connection leads to a greater depth. -/
theorem IsDepth.lt (ha : g.IsDepth a d) (hb : g.IsDepth b e) (hab : g.Joined a b) : d < e := by
  obtain ⟨chain, hchain, rfl⟩ := ha.1
  exact Nat.lt_of_succ_le (hb.2 ⟨chain ++ [a], isChain_concat_concat.mpr ⟨hchain, hab⟩, by simp⟩)

/-- The last connection of a longest chain comes from the depth just below. -/
theorem IsDepth.exists_joined (hb : g.IsDepth b (d + 1)) : ∃ a, g.Joined a b ∧ g.IsDepth a d := by
  obtain ⟨chain, hchain, hlen⟩ := hb.1
  cases chain using List.reverseRecOn with
  | nil => exact absurd hlen (by simp)
  | append_singleton chain a =>
      obtain ⟨hchain, hab⟩ := isChain_concat_concat.mp hchain
      refine ⟨a, hab, ⟨chain, hchain, by simpa using hlen⟩, ?_⟩
      rintro k ⟨longer, hlonger, rfl⟩
      -- a longer chain to the source would give a longer one to the target
      have hle : (longer ++ [a]).length ≤ d + 1 :=
        hb.2 ⟨longer ++ [a], isChain_concat_concat.mpr ⟨hlonger, hab⟩, rfl⟩
      simpa using hle

end Graph

/-- Levels of ids: what comes before an id lies on a lower level, and something comes before it
from the level just below, unless its level is the lowest one. -/
structure Graded (before : String → String → Prop) (ids : List String) (level : String → Nat) :
    Prop where
  lt : ∀ a, ∀ b ∈ ids, before a b → level a < level b
  pred : ∀ b ∈ ids, level b ≠ 0 → ∃ a, before a b ∧ level b = level a + 1

theorem Graph.exists_graded (h : IsOrder g ns) :
    ∃ depth : String → Nat, (∀ id ∈ g.nodeIds, g.IsDepth id (depth id)) ∧
      Graded g.Joined g.distinctIds depth := by
  have hall : ∀ id, ∃ d, id ∈ g.nodeIds → g.IsDepth id d := by
    intro id
    by_cases hid : id ∈ g.nodeIds
    · obtain ⟨d, hd⟩ := Graph.exists_isDepth h hid
      exact ⟨d, fun _ => hd⟩
    · exact ⟨0, fun hmem => absurd hmem hid⟩
  choose depth hdepth using hall
  refine ⟨depth, hdepth, ?_⟩
  constructor
  case lt =>
    intro a b _ hab
    exact (hdepth a hab.source_mem).lt (hdepth b hab.target_mem) hab
  case pred =>
    intro b hb hpos
    obtain ⟨d, hd⟩ := Nat.exists_eq_succ_of_ne_zero hpos
    have hdb := hdepth b (Graph.mem_distinctIds.mp hb)
    rw [hd] at hdb
    obtain ⟨a, hab, had⟩ := hdb.exists_joined
    exact ⟨a, hab, by rw [hd, (hdepth a hab.source_mem).unique had]⟩

-- ============================================================================
-- Levels in the queue
-- ============================================================================

namespace Kahn

variable {targets : String → List String} {ds : Degrees} {level : String → Nat} {t : String}

/-- The ids that were taken, latest first, and those in the queue: they lie level by level, and
the queue holds two neighbouring levels at most. -/
structure Levelled (level : String → Nat) (taken queue : List String) : Prop where
  falling : taken.Pairwise fun x y => level y ≤ level x
  rising : queue.Pairwise fun x y => level x ≤ level y
  below : ∀ t ∈ taken, ∀ q ∈ queue, level t ≤ level q
  within : ∀ q ∈ queue, ∀ r ∈ queue, level r ≤ level q + 1

/-- What becomes free lies one level above the id that is taken. -/
theorem Progress.level_free (hids : ids.Nodup) (hclosed : ∀ a ∈ ids, ∀ b ∈ targets a, b ∈ ids)
    (hgraded : Graded (Edge ids targets) ids level)
    (h : Progress ids targets taken (id :: queue) ds)
    (hlevel : Levelled level taken (id :: queue)) (ht : t ∈ (releaseAll (targets id) ds).2) :
    level t = level id + 1 := by
  have hnext := h.take hids hclosed
  obtain ⟨htids, -, hdeg⟩ := (hnext.ready t).mp (List.mem_append_right _ ht)
  have hid : id ∈ ids := ((h.ready id).mp (by simp)).1
  have hedge : Edge ids targets id t := by
    obtain ⟨hpos, hle⟩ := (mem_releaseAll _ _ _).mp ht
    exact ⟨hid, List.count_pos_iff.mp (by omega)⟩
  have hlt := hgraded.lt id t htids hedge
  obtain ⟨a, ha, hat⟩ := hgraded.pred t htids (by omega)
  -- all that comes before it has been taken, and nothing that was taken lies above `id`
  have hale : level a ≤ level id := by
    rcases List.mem_cons.mp ((hnext.degree_eq_zero_iff htids).mp hdeg a ha) with rfl | hmem
    · exact Nat.le_refl _
    · exact hlevel.below a hmem id (by simp)
  omega

/-- Taking the first id of the queue keeps the levels in order. -/
theorem Levelled.take {free : List String} (h : Levelled level taken (id :: queue))
    (hfree : ∀ t ∈ free, level t = level id + 1) :
    Levelled level (id :: taken) (queue ++ free) := by
  obtain ⟨hlow, hqueue⟩ := List.pairwise_cons.mp h.rising
  have hhigh : ∀ q ∈ queue, level q ≤ level id + 1 := fun q hq =>
    h.within id (by simp) q (List.mem_cons_of_mem _ hq)
  have hbounds : ∀ q ∈ queue ++ free, level id ≤ level q ∧ level q ≤ level id + 1 := by
    intro q hq
    rcases List.mem_append.mp hq with hq | hq
    · exact ⟨hlow q hq, hhigh q hq⟩
    · have heq := hfree q hq
      omega
  constructor
  case falling => exact List.pairwise_cons.mpr ⟨fun t ht => h.below t ht id (by simp), h.falling⟩
  case rising =>
    refine List.pairwise_append.mpr ⟨hqueue, ?_, fun q hq t ht => ?_⟩
    · refine List.pairwise_of_forall_mem_list fun s hs t ht => ?_
      rw [hfree s hs, hfree t ht]
    · rw [hfree t ht]
      exact hhigh q hq
  case below =>
    intro t ht q hq
    rcases List.mem_cons.mp ht with rfl | ht
    · exact (hbounds q hq).1
    · exact Nat.le_trans (h.below t ht id (by simp)) (hbounds q hq).1
  case within =>
    intro q hq r hr
    have hq := hbounds q hq
    have hr := hbounds r hr
    omega

/-- Draining the queue goes on taking ids level by level. -/
theorem Levelled.drain (fuel : Nat) (hids : ids.Nodup)
    (hclosed : ∀ a ∈ ids, ∀ b ∈ targets a, b ∈ ids)
    (hgraded : Graded (Edge ids targets) ids level) (h : Progress ids targets taken queue ds)
    (hlevel : Levelled level taken queue) :
    ((drain targets fuel queue ds).reverse ++ taken).Pairwise fun x y => level y ≤ level x := by
  induction fuel generalizing taken queue ds with
  | zero => exact hlevel.falling
  | succ fuel ih =>
      cases queue with
      | nil => exact hlevel.falling
      | cons id queue =>
          have hfree : ∀ t ∈ (releaseAll (targets id) ds).2, level t = level id + 1 := fun t ht =>
            h.level_free hids hclosed hgraded hlevel ht
          have hnext := ih (h.take hids hclosed) (hlevel.take hfree)
          simpa [Kahn.drain] using hnext

/-- The ids that are in the queue come out first, in their order. -/
theorem take_prefix_drain (targets : String → List String) (fuel : Nat) (queue : List String)
    (ds : Degrees) :
    queue.take fuel <+: drain targets fuel queue ds := by
  induction fuel generalizing queue ds with
  | zero => exact List.nil_prefix
  | succ fuel ih =>
      cases queue with
      | nil => exact List.nil_prefix
      | cons id queue =>
          rw [List.take_succ_cons, Kahn.drain, List.prefix_cons_inj]
          refine List.IsPrefix.trans ?_ (ih _ _)
          exact (List.prefix_append _ _).take fuel

/-- The ids come level by level, those of the lowest level first and in the order given. -/
theorem sort_by_level (hids : ids.Nodup) (hclosed : ∀ a ∈ ids, ∀ b ∈ targets a, b ∈ ids)
    (hgraded : Graded (Edge ids targets) ids level) :
    (sort ids targets).Pairwise (fun x y => level x ≤ level y) ∧
      ids.filter (level · = 0) <+: sort ids targets := by
  have hprogress : Progress ids targets [] _ _ := progress_initial hids
  -- an id is free at the start exactly if it lies on the lowest level
  have hlowest : ids.filter (fun id => (ids.flatMap targets).count id = 0) =
      ids.filter (level · = 0) := by
    refine List.filter_congr fun t ht => decide_eq_decide.mpr ?_
    rw [List.count_eq_zero, List.mem_flatMap]
    constructor
    · intro hno
      by_contra hpos
      obtain ⟨a, ⟨ha, hat⟩, -⟩ := hgraded.pred t ht hpos
      exact hno ⟨a, ha, hat⟩
    · rintro hzero ⟨a, ha, hat⟩
      have hlt := hgraded.lt a t ht ⟨ha, hat⟩
      omega
  rw [queue_initial, hlowest] at hprogress
  have hlevel : Levelled level [] (ids.filter (level · = 0)) := by
    have hzero : ∀ q ∈ ids.filter (level · = 0), level q = 0 := fun q hq =>
      of_decide_eq_true (List.mem_filter.mp hq).2
    refine ⟨List.Pairwise.nil, ?_, by simp, fun q _ r hr => by rw [hzero r hr]; omega⟩
    refine List.pairwise_of_forall_mem_list fun q hq r _ => ?_
    rw [hzero q hq]
    exact Nat.zero_le _
  simp only [sort, queue_initial, hlowest]
  constructor
  · have hpairwise := hlevel.drain ids.length hids hclosed hgraded hprogress
    rwa [List.append_nil, List.pairwise_reverse] at hpairwise
  · have hprefix := take_prefix_drain targets ids.length (ids.filter (level · = 0))
      (ids.map fun id => (id, (ids.flatMap targets).count id))
    rwa [List.take_of_length_le (List.length_filter_le _ _)] at hprefix

end Kahn

-- ============================================================================
-- Nodes by depth
-- ============================================================================

/-- The first nodes of all ids stand in the order of the document. -/
theorem Graph.firstNodes_distinctIds_sublist (g : Graph) :
    (g.firstNodes g.distinctIds).Sublist g.nodes := by
  have key : ∀ (k : Nat) (ns : List Node), ns.length ≤ k →
      ((Text.distinct (ns.map (·.id))).filterMap fun id => ns.find? (·.id = id)).Sublist ns := by
    intro k
    induction k with
    | zero =>
        intro ns hlen
        rw [List.length_eq_zero_iff.mp (Nat.le_zero.mp hlen)]
        exact List.Sublist.refl _
    | succ k ih =>
        intro ns hlen
        cases ns with
        | nil => exact List.Sublist.refl _
        | cons n ns =>
            have hids : (ns.map (·.id)).filter (· ≠ n.id) =
                (ns.filter (·.id ≠ n.id)).map (·.id) := by
              rw [List.filter_map]
              rfl
            have hlen' : (ns.filter (·.id ≠ n.id)).length ≤ k :=
              Nat.le_trans (List.length_filter_le _ _) (Nat.le_of_succ_le_succ hlen)
            have hhead : (n :: ns).find? (·.id = n.id) = some n := by simp
            -- the nodes of other ids are found behind the first node
            have htail : ∀ id ∈ Text.distinct ((ns.filter (·.id ≠ n.id)).map (·.id)),
                (n :: ns).find? (·.id = id) = (ns.filter (·.id ≠ n.id)).find? (·.id = id) := by
              intro id hid
              obtain ⟨m, hm, rfl⟩ := List.mem_map.mp (Text.mem_distinct.mp hid)
              have hne : m.id ≠ n.id := of_decide_eq_true (List.mem_filter.mp hm).2
              rw [List.find?_cons_of_neg (by simpa using Ne.symm hne), List.find?_filter]
              congr 1
              funext x
              by_cases hx : x.id = m.id
              · simp [hx, hne]
              · simp [hx]
            rw [List.map_cons, Text.distinct_cons, hids,
              List.filterMap_cons_some (f := fun id => (n :: ns).find? (·.id = id)) hhead,
              List.filterMap_congr htail]
            exact ((ih _ hlen').trans List.filter_sublist).cons_cons n
  exact key g.nodes.length g.nodes (Nat.le_refl _)

theorem Kahn.eq_firstNodes_of_order (h : Kahn.order g = .ok ns) :
    ns = g.firstNodes (Kahn.ids g) := by
  simp only [Kahn.order] at h
  split at h
  · cases h
  · exact (Except.ok.inj h).symm

/-- Whenever there is a Kahn's order, its nodes do not get less deep, and it starts with the nodes
at depth 0, the first one of each id, in the order of the document. -/
theorem kahn_by_depth (g : Graph) (ns : List Node) (h : Strategy.kahn.order g = .ok ns) :
    ∃ depth : String → Nat, (∀ n ∈ g.nodes, g.IsDepth n.id (depth n.id)) ∧
      ns.Pairwise (fun m n => depth m.id ≤ depth n.id) ∧
      ∃ first later, ns = first ++ later ∧ first.Sublist g.nodes ∧
        (∀ n ∈ first, depth n.id = 0) ∧ (∀ n ∈ later, 0 < depth n.id) ∧
        ∀ n ∈ g.nodes, depth n.id = 0 → ∃ m ∈ first, g.node? n.id = some m := by
  have horder := Kahn.isOrder h
  obtain ⟨depth, hdepth, hgraded⟩ := Graph.exists_graded horder
  rw [← Kahn.edge_eq_joined] at hgraded
  obtain ⟨hpairwise, rest, hsplit⟩ :=
    Kahn.sort_by_level g.nodup_distinctIds Kahn.mem_distinctIds_of_mem_successors hgraded
  have hns : ns = g.firstNodes (g.distinctIds.filter (depth · = 0)) ++ g.firstNodes rest := by
    rw [Kahn.eq_firstNodes_of_order h, Kahn.ids, ← hsplit, Graph.firstNodes, List.filterMap_append]
    rfl
  refine ⟨depth, fun n hn => hdepth _ (List.mem_map_of_mem hn), ?_, _, _, hns, ?_, ?_, ?_, ?_⟩
  · have hids := Graph.map_id_firstNodes g (Kahn.ids g)
    rw [← Kahn.eq_firstNodes_of_order h] at hids
    have hbyId : (ns.map (·.id)).Pairwise fun x y => depth x ≤ depth y := by
      rw [hids]
      exact hpairwise.filter _
    rwa [List.pairwise_map] at hbyId
  · exact (List.filter_sublist.filterMap _).trans g.firstNodes_distinctIds_sublist
  · intro n hn
    exact of_decide_eq_true (List.mem_filter.mp (Graph.mem_firstNodes hn).2).2
  · intro n hn
    by_contra hzero
    have hrest := (Graph.mem_firstNodes hn).2
    -- the ids of the lowest level all come before the rest
    have hnodup : (g.distinctIds.filter (depth · = 0) ++ rest).Nodup := by
      rw [hsplit]
      exact List.nodup_reverse.mp (Kahn.settled_ids g).nodup
    have hknown : n.id ∈ g.distinctIds := by
      refine Graph.mem_distinctIds.mpr (horder.mem_iff.mp (List.mem_map_of_mem ?_))
      rw [hns]
      exact List.mem_append_right _ hn
    have hlow : n.id ∈ g.distinctIds.filter (depth · = 0) :=
      List.mem_filter.mpr ⟨hknown, by simpa using hzero⟩
    exact (List.nodup_append'.mp hnodup).2.2 hlow hrest
  · intro n hn hzero
    have hid : n.id ∈ g.nodeIds := List.mem_map_of_mem hn
    obtain ⟨m, hm⟩ := Graph.exists_node? hid
    refine ⟨m, List.mem_filterMap.mpr ⟨n.id, List.mem_filter.mpr ⟨?_, ?_⟩, hm⟩, hm⟩
    · exact Graph.mem_distinctIds.mpr hid
    · simpa using hzero

/-- A summary of what was read and of what was cleaned after it was read twice, and a note. -/
def Graph.layered : Graph :=
  { nodes := [
      { id := "sum", type := "calculator" }, { id := "read", type := "llmChain" },
      { id := "clean", type := "llmChain" }, { id := "note", type := "calculator" }]
    connections := [
      { id := "e1", source := "read", target := "sum" },
      { id := "e2", source := "clean", target := "sum" },
      { id := "e3", source := "read", target := "clean" },
      { id := "e4", source := "read", target := "clean" }] }

/-- The summary waits for the cleaning, although one of its sources is taken at once. -/
def Graph.layers : List Node :=
  [{ id := "read", type := "llmChain" }, { id := "note", type := "calculator" },
    { id := "clean", type := "llmChain" }, { id := "sum", type := "calculator" }]

theorem layered_by_depth :
    Strategy.kahn.order Graph.layered = .ok Graph.layers ∧
    ∃ depth : String → Nat,
      (∀ n ∈ Graph.layered.nodes, Graph.layered.IsDepth n.id (depth n.id)) ∧
      Graph.layers.Pairwise (fun m n => depth m.id ≤ depth n.id) ∧
      ∃ first later, Graph.layers = first ++ later ∧ first.Sublist Graph.layered.nodes ∧
        (∀ n ∈ first, depth n.id = 0) ∧ (∀ n ∈ later, 0 < depth n.id) ∧
        ∀ n ∈ Graph.layered.nodes, depth n.id = 0 →
          ∃ m ∈ first, Graph.layered.node? n.id = some m :=
  ⟨rfl, kahn_by_depth Graph.layered Graph.layers rfl⟩

end Flowscript

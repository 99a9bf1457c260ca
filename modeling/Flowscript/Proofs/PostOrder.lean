/-
  Flowscript.Proofs.PostOrder

  The depth-first order is the order in which a recursive visit emits the nodes.

  `visit` is that recursion: mark an id, visit its sources in order, emit the node.  It ends
  because no connection is followed twice (`State.ahead`).  A path of the walk stands for
  the calls that are still open, innermost first, and `finish` carries them out; a step of
  the walk leaves what they lead to as it is (`finish_step`), so a whole run leads to the
  state that `visit` does (`stateOf_visit`).
-/
import Flowscript.Proofs.ExecutionOrder

namespace Flowscript.PostOrder

open DepthFirst (Frame Walk sourcesOf)

-- ============================================================================
-- The recursive visit
-- ============================================================================

/-- The ids visited, latest first, and the nodes emitted, in order. -/
structure State where
  visited : List String := []
  emitted : List Node := []
deriving Repr, Inhabited

variable {g : Graph} {σ : State} {w w' : Walk} {id : String} {ids : List String}

namespace State

def mark (σ : State) (id : String) : State := { σ with visited := id :: σ.visited }

/-- Emits the node of an id, if there is one. -/
def emit (g : Graph) (id : String) (σ : State) : State :=
  { σ with emitted := σ.emitted ++ (g.node? id).toList }

/-- The number of connections into ids that have not been visited. -/
def ahead (g : Graph) (σ : State) : Nat :=
  (g.connections.filter fun c => c.target ∉ σ.visited).length

/-- The connections into a new id are no longer ahead of the visit but in its hands. -/
theorem ahead_mark (h : id ∉ σ.visited) :
    (σ.mark id).ahead g + (sourcesOf g id).length = σ.ahead g :=
  Walk.length_unvisited_enter (w := { visited := σ.visited }) h

end State

/-- Visits ids in turn: an id that has not been visited is marked, its sources are visited, and
its node is emitted. -/
def visitAll (g : Graph) : (σ : State) → List String → { σ' : State // σ'.ahead g ≤ σ.ahead g }
  | σ, [] => ⟨σ, Nat.le_refl _⟩
  | σ, id :: ids =>
    if h : id ∈ σ.visited then visitAll g σ ids
    else
      have hmark : (σ.mark id).ahead g + (sourcesOf g id).length = σ.ahead g := State.ahead_mark h
      let ⟨σ₁, h₁⟩ := visitAll g (σ.mark id) (sourcesOf g id)
      have hemit : (σ₁.emit g id).ahead g ≤ (σ.mark id).ahead g := h₁
      let ⟨σ₂, h₂⟩ := visitAll g (σ₁.emit g id) ids
      ⟨σ₂, by omega⟩
termination_by σ ids => σ.ahead g + ids.length
decreasing_by
  all_goals simp only [List.length_cons]; omega

theorem visitAll_nil : (visitAll g σ []).1 = σ := by simp [visitAll]

theorem visitAll_of_mem (h : id ∈ σ.visited) :
    (visitAll g σ (id :: ids)).1 = (visitAll g σ ids).1 := by simp [visitAll, h]

theorem visitAll_of_notMem (h : id ∉ σ.visited) :
    (visitAll g σ (id :: ids)).1 =
      (visitAll g ((visitAll g (σ.mark id) (sourcesOf g id)).1.emit g id) ids).1 := by
  simp [visitAll, h]

/-- Visits one id. -/
def visit (g : Graph) (σ : State) (id : String) : State := (visitAll g σ [id]).1

theorem visitAll_eq_foldl : (visitAll g σ ids).1 = ids.foldl (visit g) σ := by
  induction ids generalizing σ with
  | nil => exact visitAll_nil
  | cons id ids ih =>
      by_cases hv : id ∈ σ.visited
      · have hskip : visit g σ id = σ := by rw [visit, visitAll_of_mem hv, visitAll_nil]
        rw [visitAll_of_mem hv, ih, List.foldl_cons, hskip]
      · have hopen : visit g σ id = (visitAll g (σ.mark id) (sourcesOf g id)).1.emit g id := by
          rw [visit, visitAll_of_notMem hv, visitAll_nil]
        rw [visitAll_of_notMem hv, ih, List.foldl_cons, hopen]

/-- A visit, as a recursion. -/
theorem visit_eq (g : Graph) (σ : State) (id : String) :
    visit g σ id =
      if id ∈ σ.visited then σ
      else ((sourcesOf g id).foldl (visit g) (σ.mark id)).emit g id := by
  split
  · next hv => rw [visit, visitAll_of_mem hv, visitAll_nil]
  · next hv => rw [visit, visitAll_of_notMem hv, visitAll_nil, visitAll_eq_foldl]

theorem visit_of_mem (h : id ∈ σ.visited) : visit g σ id = σ := by rw [visit_eq, if_pos h]

theorem visit_of_notMem (h : id ∉ σ.visited) :
    visit g σ id = ((sourcesOf g id).foldl (visit g) (σ.mark id)).emit g id := by
  rw [visit_eq, if_neg h]

-- ============================================================================
-- The walk carries the visit out
-- ============================================================================

/-- The state that a walk has reached. -/
def stateOf (g : Graph) (w : Walk) : State := ⟨w.visited, g.firstNodes w.done.reverse⟩

/-- Carries out the open calls of a path, innermost first: each visits the sources it has left
and emits its node. -/
def finish (g : Graph) : State → List Frame → State
  | σ, [] => σ
  | σ, f :: rest => finish g ((f.pending.foldl (visit g) σ).emit g f.id) rest

theorem stateOf_done (g : Graph) (w : Walk) (id : String) (rest : List Frame) :
    stateOf g { w with path := rest, done := id :: w.done } = (stateOf g w).emit g id := by
  have hlast : g.firstNodes [id] = (g.node? id).toList := by
    simp [Graph.firstNodes_cons]
  simp only [stateOf, State.emit, List.reverse_cons, ← hlast, Graph.firstNodes,
    List.filterMap_append]

/-- A step of the walk leaves what its open calls lead to as it is. -/
theorem finish_step (hne : w.path ≠ []) (h : w.step g = some w') :
    finish g (stateOf g w') w'.path = finish g (stateOf g w) w.path := by
  rcases Walk.step_cases hne h with
    ⟨id, rest, hp, rfl⟩ | ⟨id, s, pending, rest, hp, -, ⟨hv, rfl⟩ | ⟨hv, rfl⟩⟩
  · -- the innermost call has no source left, and returns
    rw [stateOf_done, hp]
    rfl
  · -- the call of a visited source returns at once
    have hskip : visit g (stateOf g w) s = stateOf g w := visit_of_mem hv
    rw [hp, finish, finish, List.foldl_cons, hskip]
    rfl
  · -- the call of a new source is opened
    have hopen : visit g (stateOf g w) s =
        ((sourcesOf g s).foldl (visit g) ((stateOf g w).mark s)).emit g s := visit_of_notMem hv
    rw [hp, finish, List.foldl_cons, hopen]
    rfl

/-- A run that ends has carried out the calls of its path. -/
theorem stateOf_run {fuel : Nat} (h : w.run g fuel = some w') :
    w'.path = [] ∧ stateOf g w' = finish g (stateOf g w) w.path := by
  have hstep : ∀ v v' : Walk, v.path ≠ [] → v.step g = some v' →
      finish g (stateOf g v) v.path = finish g (stateOf g w) w.path →
      finish g (stateOf g v') v'.path = finish g (stateOf g w) w.path :=
    fun v v' hne hv hstate => (finish_step hne hv).trans hstate
  obtain ⟨hstate, hnil⟩ := Walk.run_preserves hstep rfl h
  rw [hnil, finish] at hstate
  exact ⟨hnil, hstate⟩

/-- A walk that has nothing on its path visits an id as the recursion does. -/
theorem stateOf_visit (hp : w.path = []) (h : w.visit g id = some w') :
    w'.path = [] ∧ stateOf g w' = visit g (stateOf g w) id := by
  simp only [Walk.visit] at h
  split at h
  · next hv =>
    cases h
    exact ⟨hp, (visit_of_mem hv).symm⟩
  · next hv =>
    obtain ⟨hnil, hstate⟩ := stateOf_run h
    refine ⟨hnil, hstate.trans ?_⟩
    have hopen : visit g (stateOf g w) id =
        ((sourcesOf g id).foldl (visit g) ((stateOf g w).mark id)).emit g id := visit_of_notMem hv
    rw [hopen, Walk.enter, hp]
    rfl

theorem stateOf_visits (hp : w.path = []) (h : ids.foldlM (Walk.visit g) w = some w') :
    stateOf g w' = ids.foldl (visit g) (stateOf g w) := by
  induction ids generalizing w with
  | nil =>
      cases h
      rfl
  | cons id ids ih =>
      rw [List.foldlM_cons] at h
      obtain ⟨v, hv, hrest⟩ := Option.bind_eq_some_iff.mp h
      obtain ⟨hnil, hstate⟩ := stateOf_visit hp hv
      rw [ih hnil hrest, hstate, List.foldl_cons]

-- ============================================================================
-- What is emitted first
-- ============================================================================

/-- Visits take back nothing that was emitted. -/
theorem emitted_prefix_visits (g : Graph) (σ : State) (ids : List String) :
    σ.emitted <+: (ids.foldl (visit g) σ).emitted := by
  rw [← visitAll_eq_foldl]
  induction σ, ids using visitAll.induct g with
  | case1 σ => rw [visitAll_nil]
  | case2 σ id ids hv ih => rwa [visitAll_of_mem hv]
  | case3 σ id ids hv _ σ₁ _ hinner _ σ₂ _ hrest ih₁ ih₂ =>
      have h₁ : (visitAll g (σ.mark id) (sourcesOf g id)).1 = σ₁ := by rw [hinner]
      have h₂ : (visitAll g (σ₁.emit g id) ids).1 = σ₂ := by rw [hrest]
      rw [h₁] at ih₁
      rw [h₂] at ih₂
      have hemit : σ₁.emitted <+: (σ₁.emit g id).emitted := List.prefix_append ..
      rw [visitAll_of_notMem hv, h₁, h₂]
      exact ih₁.trans (hemit.trans ih₂)

/-- Ids that no connection leads to are emitted in turn, each the first time it occurs. -/
theorem emitted_visits_of_no_sources (hsrc : ∀ id ∈ ids, sourcesOf g id = []) :
    (ids.foldl (visit g) σ).emitted =
      σ.emitted ++ g.firstNodes (Text.distinct (ids.filter (· ∉ σ.visited))) := by
  induction ids generalizing σ with
  | nil => simp [Text.distinct, Graph.firstNodes]
  | cons id ids ih =>
      have hrest : ∀ t ∈ ids, sourcesOf g t = [] := fun t ht => hsrc t (List.mem_cons_of_mem _ ht)
      rw [List.foldl_cons, ih hrest]
      by_cases hv : id ∈ σ.visited
      · rw [visit_of_mem hv, List.filter_cons_of_neg (by simpa using hv)]
      · have hvisit : visit g σ id = (σ.mark id).emit g id := by
          rw [visit_of_notMem hv, hsrc id (by simp), List.foldl_nil]
        rw [hvisit, Text.distinct_fresh_cons hv, Graph.firstNodes_cons, ← List.append_assoc]
        rfl

-- ============================================================================
-- The depth-first order
-- ============================================================================

/-- The nodes that the recursion emits when it visits the entry nodes and then all nodes, in the
order of the document. -/
def order (g : Graph) : List Node :=
  (g.nodeIds.foldl (visit g) ((g.entryNodes.map (·.id)).foldl (visit g) {})).emitted

theorem order_eq_of_ok {ns : List Node} (h : DepthFirst.order g = .ok ns) : ns = order g := by
  simp only [DepthFirst.order] at h
  split at h
  · next ids hids =>
    cases h
    obtain ⟨w, hw, rfl⟩ := Option.map_eq_some_iff.mp hids
    have hstate := stateOf_visits rfl hw
    have hemitted : g.firstNodes w.done.reverse = (stateOf g w).emitted := rfl
    rw [hemitted, hstate, DepthFirst.roots, List.foldl_append, order]
    rfl
  · exact absurd h (by simp)

theorem sourcesOf_eq_nil_of_mem_entryNodes {n : Node} (h : n ∈ g.entryNodes) :
    sourcesOf g n.id = [] := by
  have hno := (List.mem_filter.mp h).2
  simp only [sourcesOf, Graph.incoming, List.map_eq_nil_iff, List.filter_eq_nil_iff]
  simpa using hno

/-- The first nodes of the entry nodes' ids come first. -/
theorem entryNodes_prefix_order (g : Graph) :
    g.firstNodes (Text.distinct (g.entryNodes.map (·.id))) <+: order g := by
  have hsrc : ∀ id ∈ g.entryNodes.map (·.id), sourcesOf g id = [] := by
    intro id hid
    obtain ⟨n, hn, rfl⟩ := List.mem_map.mp hid
    exact sourcesOf_eq_nil_of_mem_entryNodes hn
  have hfirst := emitted_visits_of_no_sources (σ := {}) hsrc
  simp only [List.not_mem_nil, not_false_eq_true, decide_true, List.filter_true, List.nil_append]
    at hfirst
  rw [← hfirst]
  exact emitted_prefix_visits g _ g.nodeIds

/-- Entry nodes with different ids are the first nodes of these ids. -/
theorem firstNodes_entryNodes (h : (g.entryNodes.map (·.id)).Nodup) :
    g.firstNodes (Text.distinct (g.entryNodes.map (·.id))) = g.entryNodes := by
  have hfirst : ∀ n ∈ g.entryNodes, g.node? n.id = some n := by
    intro n hn
    have hmem : n ∈ g.nodes := (List.mem_filter.mp hn).1
    obtain ⟨m, hm⟩ := Graph.exists_node? (List.mem_map_of_mem (f := (·.id)) hmem)
    obtain ⟨hmem', hid⟩ := Graph.node?_eq_some hm
    -- whether a node is an entry node depends on its id alone
    have hm' : m ∈ g.entryNodes := List.mem_filter.mpr ⟨hmem', by
      rw [hid]
      exact (List.mem_filter.mp hn).2⟩
    rwa [List.inj_on_of_nodup_map h hm' hn hid] at hm
  rw [Text.distinct_eq_self h, Graph.firstNodes, List.filterMap_map]
  exact (List.filterMap_congr hfirst).trans List.filterMap_some

/-- Whenever there is a depth-first order, it is the one of the recursion: in order, each node
after those of its sources that were not emitted before.  It starts with the first node of each
id that no connection leads to; these are all entry nodes unless two of them share an id. -/
theorem depthFirst_order_eq (g : Graph) (ns : List Node)
    (h : Strategy.depthFirst.order g = .ok ns) :
    ns = order g ∧ g.firstNodes (Text.distinct (g.entryNodes.map (·.id))) <+: ns ∧
      (g.entryNodes <+: ns ↔ (g.entryNodes.map (·.id)).Nodup) := by
  obtain rfl := order_eq_of_ok h
  refine ⟨rfl, entryNodes_prefix_order g, fun hpre => ?_, fun hnodup => ?_⟩
  · exact (isOrder_of_order h).nodup.sublist (hpre.sublist.map _)
  · rw [← firstNodes_entryNodes hnodup]
    exact entryNodes_prefix_order g

/-- Two nodes under one id. -/
def doubled : Graph :=
  { nodes := [{ id := "a", type := "calculator" }, { id := "a", type := "llmChain" }] }

/-- Both nodes are entry nodes, and the order has only the first of them. -/
theorem doubled_order :
    ∃ ns, Strategy.depthFirst.order doubled = .ok ns ∧ doubled.entryNodes.length = 2 ∧
      ns.length = 1 ∧ ¬ doubled.entryNodes <+: ns := by
  refine ⟨_, rfl, rfl, rfl, fun hpre => ?_⟩
  exact absurd hpre.length_le (by decide)

/-- A sum of what is cleaned after it was read, and of something that no node stands for. -/
def pulling : Graph :=
  { nodes := [
      { id := "sum", type := "calculator" }, { id := "read", type := "llmChain" },
      { id := "clean", type := "llmChain" }, { id := "note", type := "calculator" }]
    connections := [
      { id := "e1", source := "clean", target := "sum" },
      { id := "e2", source := "ghost", target := "sum" },
      { id := "e3", source := "read", target := "clean" }] }

/-- The entry nodes, and then the sum after the cleaning it pulls in. -/
def pulled : List Node :=
  [{ id := "read", type := "llmChain" }, { id := "note", type := "calculator" },
    { id := "clean", type := "llmChain" }, { id := "sum", type := "calculator" }]

theorem pulling_order :
    Strategy.depthFirst.order pulling = .ok pulled ∧ pulled = order pulling ∧
      pulling.firstNodes (Text.distinct (pulling.entryNodes.map (·.id))) <+: pulled ∧
      (pulling.entryNodes <+: pulled ↔ (pulling.entryNodes.map (·.id)).Nodup) ∧
      (pulling.entryNodes.map (·.id)).Nodup :=
  ⟨rfl, (depthFirst_order_eq pulling pulled rfl).1, (depthFirst_order_eq pulling pulled rfl).2.1,
    (depthFirst_order_eq pulling pulled rfl).2.2, by decide⟩

end Flowscript.PostOrder

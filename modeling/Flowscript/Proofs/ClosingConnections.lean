/-
  Flowscript.Proofs.ClosingConnections

  Every circuit of connections between known nodes runs through the closing connection of a
  reported cycle, from its last member to its first.

  The nodes that a search is done with are settled for the connections that close no found
  cycle (`Reached.settled`): a node is left when its other connections all lead to nodes
  that are done.  A cycle is not reported if one through the same nodes has been; such a
  cycle lies on the path, so it is the same cycle (`Reached.eq_close_of_sameMembers`), and
  nothing is lost.  At the end all nodes are done, and a settled list rules out circuits.
-/
import Flowscript.Proofs.ReportedCycles

namespace Flowscript

open Relation

variable {g : Graph} {ks : List Connection} {k : Connection} {a b id : String}

-- ============================================================================
-- Circuits
-- ============================================================================

namespace Graph

/-- Connections between known nodes, each of which starts where the one before it ends, the first
one where the last one ends. -/
structure Circuit (g : Graph) (ks : List Connection) : Prop where
  joins : ∀ k ∈ ks, k ∈ g.connections ∧ g.joins k = true
  chain : ks.IsChain fun k l => k.target = l.source
  closed : ∃ first last, ks.head? = some first ∧ ks.getLast? = some last ∧
    last.target = first.source

theorem transGen_of_chain {R : String → String → Prop} {last : Connection}
    (hchain : (k :: ks).IsChain fun k l => k.target = l.source)
    (hR : ∀ l ∈ k :: ks, R l.source l.target) (hlast : (k :: ks).getLast? = some last) :
    TransGen R k.source last.target := by
  induction ks generalizing k with
  | nil =>
      obtain rfl : k = last := by simpa using hlast
      exact TransGen.single (hR k (by simp))
  | cons l ks ih =>
      obtain ⟨hkl, hchain⟩ := List.isChain_cons_cons.mp hchain
      have hrest : TransGen R l.source last.target :=
        ih hchain (fun m hm => hR m (List.mem_cons_of_mem _ hm)) (by simpa using hlast)
      exact TransGen.head (hR k (by simp)) (hkl ▸ hrest)

/-- A relation that holds along a circuit leads from some node back to it. -/
theorem Circuit.exists_transGen {R : String → String → Prop} (h : g.Circuit ks)
    (hR : ∀ k ∈ ks, R k.source k.target) : ∃ id, TransGen R id id := by
  obtain ⟨first, last, hfirst, hlast, hclosed⟩ := h.closed
  cases ks with
  | nil => exact absurd hfirst (by simp)
  | cons k ks =>
      obtain rfl : k = first := by simpa using hfirst
      have hpath := transGen_of_chain h.chain hR hlast
      rw [hclosed] at hpath
      exact ⟨k.source, hpath⟩

end Graph

-- ============================================================================
-- Closing connections
-- ============================================================================

namespace Cycle

variable {s : Search} {path : Path} {step : String × String} {back t : String}
  {done : List String} {c : Cycle} {cs : List Cycle}

/-- One of the cycles ends with one id and starts with the other. -/
def Closes (cs : List Cycle) (a b : String) : Prop :=
  ∃ c ∈ cs, c.members.getLast? = some a ∧ c.members.head? = some b

instance (cs : List Cycle) (a b : String) : Decidable (Closes cs a b) :=
  inferInstanceAs (Decidable (∃ c ∈ cs, c.members.getLast? = some a ∧ c.members.head? = some b))

theorem Closes.mono {ds : List Cycle} (h : Closes cs a b) (hsub : ∀ c ∈ cs, c ∈ ds) :
    Closes ds a b := by
  obtain ⟨c, hc, hends⟩ := h
  exact ⟨c, hsub c hc, hends⟩

/-- A connection between known nodes leads from one id to another, and no cycle is closed by
one. -/
def Unclosed (g : Graph) (cs : List Cycle) (a b : String) : Prop := g.Joined a b ∧ ¬ Closes cs a b

namespace Reached

/-- A found cycle has a node that is done, unless it lies on the path. -/
theorem done_or_sublist (h : Reached g path done s) :
    ∀ c ∈ s.found, (∃ id ∈ c.members, id ∈ done) ∨ c.members.Sublist path.ids.reverse := by
  induction h with
  | start => simp
  | enter _ _ _ ih =>
      intro c hc
      refine (ih c hc).imp_right fun hsub => hsub.trans ?_
      rw [Path.ids_cons, List.reverse_cons]
      exact List.sublist_append_left _ _
  | @close path done s step h hb hpath ih =>
      intro c hc
      rcases mem_found_report hc with hc | rfl
      · exact ih c hc
      · exact Or.inr (members_close_suffix hpath step.2).sublist
  | @leave path done s step h hall ih =>
      intro c hc
      rcases ih c hc with ⟨id, hid, hdone⟩ | hsub
      · exact Or.inl ⟨id, hid, List.mem_cons_of_mem _ hdone⟩
      · rw [Path.ids_cons, List.reverse_cons] at hsub
        obtain ⟨outer, inner, hsplit, houter, hinner⟩ := List.sublist_append_iff.mp hsub
        rcases List.sublist_singleton.mp hinner with rfl | rfl
        · exact Or.inr (by simpa [hsplit] using houter)
        · exact Or.inl ⟨step.1, by simp [hsplit], by simp⟩

/-- A found cycle through the nodes of one that a branch closes is the same cycle. -/
theorem eq_close_of_sameMembers (h : Reached g path done s) (hc : c ∈ s.found)
    (ht : t ∈ path.ids) (hsame : SameMembers c (Cycle.close path t back)) :
    c.members = (Cycle.close path t back).members := by
  have htrail := h.onTrail
  have hsuffix := (members_close_suffix ht back).sublist
  have hsub : c.members.Sublist path.ids.reverse := by
    refine (h.done_or_sublist c hc).resolve_left ?_
    rintro ⟨id, hid, hdone⟩
    exact htrail.apart id (List.mem_reverse.mp (hsuffix.subset ((hsame id).mp hid))) hdone
  have hnodup : path.ids.reverse.Nodup := List.nodup_reverse.mpr htrail.nodup
  have hperm : c.members.Perm (Cycle.close path t back).members :=
    (List.perm_ext_iff_of_nodup (hsub.nodup hnodup) (hsuffix.nodup hnodup)).mpr hsame
  exact (hnodup.perm_iff_eq_of_sublist hsub hsuffix).mp hperm

/-- A branch that has been followed leads to a node that is done or closes a found cycle. -/
theorem closes_of_followed (h : Reached g ((id, e) :: path) done s)
    (hb : Followed ((id, e) :: path) done s step) : step.1 ∈ done ∨ Closes s.found id step.1 := by
  refine hb.imp_right ?_
  rintro ⟨hpath, c, hc, hsame⟩
  refine ⟨c, hc, ?_, ?_⟩
  · rw [h.eq_close_of_sameMembers hc hpath hsame, getLast?_members_close hpath]
    rfl
  · rw [h.eq_close_of_sameMembers hc hpath hsame, head?_members_close hpath]

/-- The nodes that are done are settled for the connections that close no found cycle. -/
theorem settled (h : Reached g path done s) :
    Settled (Function.swap (Unclosed g s.found)) done := by
  induction h with
  | start => exact settled_nil
  | enter _ _ _ ih => exact ih
  | close _ _ _ ih =>
      refine ih.imp fun a b hab => ⟨hab.1, fun hcloses => hab.2 ?_⟩
      exact hcloses.mono fun c hc => mem_report_of_mem hc
  | @leave path done s step h hall ih =>
      refine ⟨h.onTrail.apart step.1 (by simp), fun a ha => ?_, ih⟩
      obtain ⟨hjoined, hopen⟩ := ha
      obtain ⟨branch, hbranch, rfl⟩ := exists_branch hjoined
      exact (h.closes_of_followed (hall branch hbranch)).resolve_right hopen

end Reached

/-- Without the connections from the last to the first member of a reported cycle, no node is
connected back to itself. -/
theorem not_transGen_unclosed (g : Graph) (id : String) :
    ¬ TransGen (Unclosed g g.cycles) id id := by
  intro hcycle
  obtain ⟨done, s, hreached, hfound, hall⟩ := exists_reached_cycles g
  obtain ⟨_, -, hlast⟩ := TransGen.tail'_iff.mp hcycle
  have hid : id ∈ done := hall id hlast.1.target_mem
  have hsettled := hreached.settled
  rw [hfound] at hsettled
  exact hsettled.not_transGen hid (transGen_swap.mpr hcycle)

/-- The members of a ring are joined to one another in a circle. -/
theorem IsRing.exists_transGen (h : IsRing g c) : ∃ id, TransGen g.Joined id id := by
  have hnext : ∀ x ∈ c.members, ∃ y ∈ c.members, Function.swap g.Joined y x := by
    intro x hx
    obtain ⟨i, hi, rfl⟩ := List.mem_iff_getElem.mp hx
    obtain ⟨k, hk, -, hsource, htarget⟩ := h.joined i hi
    have hx : k.source = c.members[i] := by
      rw [List.getElem?_eq_getElem hi] at hsource
      exact (Option.some.inj hsource).symm
    have hmem : k.target ∈ c.members := List.mem_of_getElem? htarget
    refine ⟨k.target, hmem, k, hk, ?_, hx, rfl⟩
    exact Graph.joins_iff.mpr ⟨hx ▸ h.known _ (List.getElem_mem hi), h.known _ hmem⟩
  obtain ⟨x, hx⟩ := List.exists_mem_of_ne_nil _ h.ne_nil
  obtain ⟨z, hz⟩ := exists_transGen_of_forall_before hx hnext
  exact ⟨z, transGen_swap.mp hz⟩

/-- No cycle is reported exactly if connections between known nodes form none. -/
theorem cycles_eq_nil_iff (g : Graph) :
    g.cycles = [] ↔ ∀ id, ¬ TransGen g.Joined id id := by
  constructor
  · intro h id hcycle
    refine not_transGen_unclosed g id (TransGen.mono (fun a b hab => ⟨hab, ?_⟩) id id hcycle)
    rintro ⟨c, hc, -⟩
    rw [h] at hc
    exact absurd hc (by simp)
  · intro h
    by_contra hne
    obtain ⟨c, hc⟩ := List.exists_mem_of_ne_nil _ hne
    obtain ⟨id, hid⟩ := (isRing_of_mem_cycles hc).exists_transGen
    exact h id hid

end Cycle

-- ============================================================================
-- Cutting a graph open
-- ============================================================================

namespace Graph

theorem Circuit.exists_closes (h : g.Circuit ks) :
    ∃ k ∈ ks, Cycle.Closes g.cycles k.source k.target := by
  by_contra hnone
  have hopen : ∀ k ∈ ks, Cycle.Unclosed g g.cycles k.source k.target := by
    intro k hk
    obtain ⟨hkg, hj⟩ := h.joins k hk
    exact ⟨⟨k, hkg, hj, rfl, rfl⟩, fun hcloses => hnone ⟨k, hk, hcloses⟩⟩
  obtain ⟨id, hid⟩ := h.exists_transGen hopen
  exact Cycle.not_transGen_unclosed g id hid

/-- The graph without the connections from the last member of a reported cycle to the first. -/
def cut (g : Graph) : Graph :=
  { g with
    connections := g.connections.filter fun k => ¬ Cycle.Closes g.cycles k.source k.target }

theorem mem_connections_cut :
    k ∈ g.cut.connections ↔ k ∈ g.connections ∧ ¬ Cycle.Closes g.cycles k.source k.target := by
  simp [cut]

/-- Every circuit has a connection that leads from the last to the first member of a reported
cycle.  Without these connections there is no circuit, and if all connections join nodes, no
chain of connections at all leads back to where it starts. -/
theorem circuits_close_reported_cycles (g : Graph) :
    (∀ ks, g.Circuit ks → ∃ k ∈ ks, ∃ c ∈ g.cycles,
      c.members.getLast? = some k.source ∧ c.members.head? = some k.target) ∧
    (∀ ks, ¬ g.cut.Circuit ks) ∧
    ((∀ k ∈ g.connections, g.joins k = true) → g.cut.Acyclic) := by
  refine ⟨fun ks hks => hks.exists_closes, fun ks hks => ?_, fun hends id hcycle => ?_⟩
  · have hcircuit : g.Circuit ks :=
      ⟨fun k hk => ⟨(mem_connections_cut.mp (hks.joins k hk).1).1, (hks.joins k hk).2⟩,
        hks.chain, hks.closed⟩
    obtain ⟨k, hk, hcloses⟩ := hcircuit.exists_closes
    exact (mem_connections_cut.mp (hks.joins k hk).1).2 hcloses
  · refine Cycle.not_transGen_unclosed g id (TransGen.mono ?_ id id hcycle)
    rintro a b ⟨k, hk, rfl, rfl⟩
    obtain ⟨hkg, hopen⟩ := mem_connections_cut.mp hk
    exact ⟨⟨k, hkg, hends k hkg, rfl, rfl⟩, hopen⟩

end Graph

/-- Around the two nodes by the second of the two connections from the first. -/
def Graph.secondRound : List Connection :=
  [{ id := "e2", source := "a", target := "b" }, { id := "e3", source := "b", target := "a" }]

/-- The second round is closed where the reported cycle along the first connection is. -/
theorem looped_cut_open :
    Graph.looped.Circuit Graph.secondRound ∧
      (∃ k ∈ Graph.secondRound, ∃ c ∈ Graph.looped.cycles,
        c.members.getLast? = some k.source ∧ c.members.head? = some k.target) ∧
      (∀ ks, ¬ Graph.looped.cut.Circuit ks) ∧ Graph.looped.cut.Acyclic := by
  have hends : ∀ k ∈ Graph.looped.connections, Graph.looped.joins k = true := by decide
  have hround : Graph.looped.Circuit Graph.secondRound :=
    ⟨by decide, by decide, _, _, rfl, rfl, rfl⟩
  obtain ⟨hclose, hopen, hcut⟩ := Graph.circuits_close_reported_cycles Graph.looped
  exact ⟨hround, hclose _ hround, hopen, hcut hends⟩

end Flowscript

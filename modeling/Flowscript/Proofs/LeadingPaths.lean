/-
  Flowscript.Proofs.LeadingPaths

  Which circuits are reported.

  The path of a search is at any time the leading one to its innermost node: of all simple
  paths that end there, the one that takes the earliest choice where it parts from another
  (`Reached.leading`).  For when the search passed an earlier choice, it was done with
  everything that can be reached from there without coming back to the path
  (`Reached.earlier_done`).  As each node is left once, with all of its connections followed,
  the reported cycles are those that a connection closes with the end of a leading path
  (`exists_members_eq_iff`).  A circuit through other nodes is not reported, even though one
  of its connections closes a cycle that is.
-/
import Flowscript.Proofs.ClosingConnections

namespace Flowscript

open Relation

variable {g : Graph} {p q : List String} {a b w x y : String} {start : Option String}

-- ============================================================================
-- Leading paths
-- ============================================================================

namespace Graph

/-- Different nodes, each joined to the next one. -/
structure SimplePath (g : Graph) (p : List String) : Prop where
  nodup : p.Nodup
  known : ∀ id ∈ p, id ∈ g.nodeIds
  chain : p.IsChain g.Joined

/-- Where a path can go on: from a node along the connections that leave it, in their order, and
at the start to any node, in the order of the document. -/
def choices (g : Graph) : Option String → List String
  | none => g.distinctIds
  | some id => (g.successors id).map (·.target)

/-- Where two paths that go on from the same place part, the first one takes an earlier choice. -/
def Earlier (g : Graph) : Option String → List String → List String → Prop
  | start, x :: p, y :: q =>
    if x = y then g.Earlier (some x) p q
    else (g.choices start).idxOf x < (g.choices start).idxOf y
  | _, _, _ => False

/-- A simple path that is earlier than every other one with the same last node. -/
structure Leading (g : Graph) (p : List String) : Prop extends SimplePath g p where
  earlier : ∀ q, g.SimplePath q → q.getLast? = p.getLast? → q ≠ p → g.Earlier none p q

theorem Earlier.asymm (h : g.Earlier start p q) : ¬ g.Earlier start q p := by
  induction p generalizing start q with
  | nil => exact absurd h (by simp [Earlier])
  | cons x p ih =>
      cases q with
      | nil => exact absurd h (by simp [Earlier])
      | cons y q =>
          by_cases hxy : x = y
          · subst hxy
            simp only [Earlier, if_true] at h ⊢
            exact ih h
          · simp only [Earlier, if_neg hxy, if_neg (Ne.symm hxy)] at h ⊢
            omega

/-- There is one leading path to a node. -/
theorem Leading.unique (hp : g.Leading p) (hq : g.Leading q) (hlast : q.getLast? = p.getLast?) :
    q = p := by
  by_contra hne
  have hpq : g.Earlier none p q := hp.earlier q hq.toSimplePath hlast hne
  exact hpq.asymm (hq.earlier p hp.toSimplePath hlast.symm (Ne.symm hne))

/-- Two nodes are joined, and the second one is not among the given ones. -/
def JoinedOutside (g : Graph) (outer : List String) (a b : String) : Prop :=
  g.Joined a b ∧ b ∉ outer

theorem reach_of_chain {outer : List String} (hchain : (x :: p).IsChain g.Joined)
    (hout : ∀ y ∈ p, y ∉ outer) (hlast : (x :: p).getLast? = some w) :
    ReflTransGen (g.JoinedOutside outer) x w := by
  induction p generalizing x with
  | nil =>
      obtain rfl : x = w := by simpa using hlast
      exact ReflTransGen.refl
  | cons y p ih =>
      obtain ⟨hxy, hchain⟩ := List.isChain_cons_cons.mp hchain
      have hrest : ReflTransGen (g.JoinedOutside outer) y w :=
        ih hchain (fun z hz => hout z (List.mem_cons_of_mem _ hz)) (by simpa using hlast)
      exact ReflTransGen.head ⟨hxy, hout y (by simp)⟩ hrest

theorem mem_of_idxOf_lt (h : (p ++ x :: q).idxOf y < (p ++ x :: q).idxOf x) : y ∈ p := by
  by_contra hy
  rw [List.idxOf_append, List.idxOf_append, if_neg hy] at h
  split at h
  · next hx =>
    have hlt := List.idxOf_lt_length_of_mem hx
    omega
  · rw [List.idxOf_cons_self] at h
    omega

variable {outer : List String}

namespace SimplePath

/-- What comes after some nodes of a path, given from the inside out, was a choice there. -/
theorem mem_choices (h : g.SimplePath (outer.reverse ++ y :: q)) : y ∈ g.choices outer.head? := by
  cases outer with
  | nil => exact mem_distinctIds.mpr (h.known y (by simp))
  | cons o outer =>
      have hchain : (outer.reverse ++ o :: y :: q).IsChain g.Joined := by simpa using h.chain
      obtain ⟨-, hjoined, -⟩ := List.isChain_append_cons_cons.mp hchain
      exact joined_iff_mem_successors.mp hjoined

theorem notMem (h : g.SimplePath (outer.reverse ++ y :: q)) : ∀ z ∈ y :: q, z ∉ outer := by
  intro z hz hmem
  exact (List.disjoint_of_nodup_append h.nodup) (List.mem_reverse.mpr hmem) hz

/-- A path that goes on does not end where it was. -/
theorem getLast?_ne_head? (h : g.SimplePath (outer.reverse ++ y :: q)) :
    (outer.reverse ++ y :: q).getLast? ≠ outer.head? := by
  intro hlast
  rw [List.getLast?_append_of_ne_nil _ (List.cons_ne_nil y q),
    List.getLast?_eq_some_getLast (List.cons_ne_nil y q)] at hlast
  exact h.notMem _ (List.getLast_mem _) (List.mem_of_head? hlast.symm)

theorem reach (h : g.SimplePath (outer.reverse ++ y :: q)) (hlast : (y :: q).getLast? = some w) :
    ReflTransGen (g.JoinedOutside outer) y w :=
  reach_of_chain h.chain.right_of_append (fun z hz => h.notMem z (List.mem_cons_of_mem _ hz)) hlast

end SimplePath

end Graph

-- ============================================================================
-- The path of a search is a leading one
-- ============================================================================

namespace Cycle

variable {s : Search} {path : Path} {done outer : List String} {t back : String} {c : Cycle}

theorem map_branches (g : Graph) (path : Path) :
    (branches g path).map (·.1) = g.choices path.ids.head? := by
  cases path with
  | nil => simp [branches, Graph.choices, Function.comp_def]
  | cons step rest => simp [branches, Graph.choices]

namespace Reached

/-- The nodes joined to one that is done are done or on the path. -/
theorem done_or_mem_path (h : Reached g path done s) :
    ∀ a ∈ done, ∀ b, g.Joined a b → b ∈ done ∨ b ∈ path.ids := by
  induction h with
  | start => simp
  | enter _ _ _ ih =>
      intro a ha b hab
      exact (ih a ha b hab).imp_right (List.mem_cons_of_mem _)
  | close _ _ _ ih => exact ih
  | @leave path done s step h hall ih =>
      have hpath : ∀ b, b ∈ done ∨ b ∈ Path.ids (step :: path) →
          b ∈ step.1 :: done ∨ b ∈ path.ids := by
        intro b hb
        rw [Path.ids_cons, List.mem_cons] at hb
        rw [List.mem_cons]
        tauto
      intro a ha b hab
      rcases List.mem_cons.mp ha with rfl | ha
      · obtain ⟨branch, hbranch, rfl⟩ : ∃ c ∈ branches g (step :: path), c.1 = b :=
          exists_branch hab
        exact hpath _ ((hall branch hbranch).imp_right And.left)
      · exact hpath b (ih a ha b hab)

/-- What is done leads outside the path to nothing but what is done. -/
theorem mem_done_of_reach (h : Reached g path done s) (hy : y ∈ done)
    (hreach : ReflTransGen (g.JoinedOutside path.ids) y w) : w ∈ done := by
  induction hreach with
  | refl => exact hy
  | tail _ hbc ih => exact (h.done_or_mem_path _ ih _ hbc.1).resolve_right hbc.2

/-- Where the path took a choice, everything is done that can be reached from an earlier choice
without coming back to the nodes before. -/
theorem earlier_done (h : Reached g path done s) :
    ∀ inner x outer, path.ids = inner ++ x :: outer → ∀ y ∈ g.choices outer.head?,
      (g.choices outer.head?).idxOf y < (g.choices outer.head?).idxOf x → y ∉ outer →
      ∀ w, ReflTransGen (g.JoinedOutside outer) y w → w ∈ done := by
  induction h with
  | start => simp
  | @enter path done s step h hturn hv ih =>
      intro inner x outer hsplit y hy hyx hout w hw
      cases inner with
      | nil =>
        -- the newest choice: all branches before it have been followed
        obtain ⟨rfl, rfl⟩ : step.1 = x ∧ path.ids = outer := by simpa using hsplit
        obtain ⟨prior, later, hbranches, hprior⟩ := hturn
        have hchoices : g.choices path.ids.head? =
            prior.map (·.1) ++ step.1 :: later.map (·.1) := by
          rw [← map_branches, hbranches]
          simp
        rw [hchoices] at hyx
        obtain ⟨earlier, hearlier, rfl⟩ := List.mem_map.mp (Graph.mem_of_idxOf_lt hyx)
        have hdone : earlier.1 ∈ done := (hprior earlier hearlier).resolve_right fun h => hout h.1
        exact h.mem_done_of_reach hdone hw
      | cons z inner =>
        have hsplit' : path.ids = inner ++ x :: outer := (List.cons_eq_cons.mp hsplit).2
        exact ih inner x outer hsplit' y hy hyx hout w hw
  | close _ _ _ ih => exact ih
  | @leave path done s step h hall ih =>
      intro inner x outer hsplit y hy hyx hout w hw
      have hsplit' : Path.ids (step :: path) = (step.1 :: inner) ++ x :: outer := by simp [hsplit]
      exact List.mem_cons_of_mem _ (ih _ x outer hsplit' y hy hyx hout w hw)

theorem simplePath (h : Reached g path done s) : g.SimplePath path.ids.reverse where
  nodup := List.nodup_reverse.mpr h.onTrail.nodup
  known := fun id hid => h.onTrail.known id (List.mem_reverse.mp hid)
  chain := by
    rw [List.isChain_reverse, Path.ids, List.isChain_map]
    refine h.onTrail.trail.imp fun inner outer => ?_
    rintro ⟨c, hc, htarget, -⟩
    exact Graph.joined_iff_mem_successors.mpr (List.mem_map.mpr ⟨c, hc, htarget⟩)

/-- Beyond its outer nodes, the path goes on by earlier choices than any other one that ends at
its innermost node. -/
theorem earlier_rest (h : Reached g path done s) {rest : List String}
    (hsplit : path.ids.reverse = outer.reverse ++ rest) (hq : g.SimplePath (outer.reverse ++ q))
    (hlast : (outer.reverse ++ q).getLast? = path.ids.head?) (hne : q ≠ rest) :
    g.Earlier outer.head? rest q := by
  induction rest generalizing outer q with
  | nil =>
      cases q with
      | nil => exact absurd rfl hne
      | cons y q =>
          have hids : path.ids = outer := by simpa using hsplit
          exact absurd (hids ▸ hlast) hq.getLast?_ne_head?
  | cons x rest ih =>
      have hp : g.SimplePath (outer.reverse ++ x :: rest) := hsplit ▸ h.simplePath
      have hids : path.ids = rest.reverse ++ x :: outer := by
        rw [← List.reverse_reverse path.ids, hsplit]
        simp
      cases q with
      | nil =>
          have hhead : (outer.reverse ++ x :: rest).getLast? = outer.head? := by
            rw [← hsplit, List.getLast?_reverse, ← hlast]
            simp
          exact absurd hhead hp.getLast?_ne_head?
      | cons y q =>
          by_cases hxy : x = y
          · subst hxy
            simp only [Graph.Earlier, if_true]
            have hsplit' : path.ids.reverse = (x :: outer).reverse ++ rest := by simpa using hsplit
            have hq' : g.SimplePath ((x :: outer).reverse ++ q) := by simpa using hq
            exact ih hsplit' hq' (by simpa using hlast) (by simpa using hne)
          · -- the other path would have been followed to its end before
            simp only [Graph.Earlier, if_neg hxy]
            by_contra hlt
            have hyx : (g.choices outer.head?).idxOf y < (g.choices outer.head?).idxOf x := by
              have hapart : (g.choices outer.head?).idxOf y ≠ (g.choices outer.head?).idxOf x :=
                fun he => hxy ((List.idxOf_inj hq.mem_choices).mp he).symm
              omega
            obtain ⟨w, hw⟩ : ∃ w, (y :: q).getLast? = some w :=
              ⟨_, List.getLast?_eq_some_getLast (List.cons_ne_nil y q)⟩
            have hdone : w ∈ done := h.earlier_done _ x outer hids y hq.mem_choices hyx
              (hq.notMem y (by simp)) w (hq.reach hw)
            rw [List.getLast?_append_of_ne_nil _ (List.cons_ne_nil y q), hw] at hlast
            exact h.onTrail.apart w (List.mem_of_head? hlast.symm) hdone

/-- The path of a search leads to its innermost node. -/
theorem leading (h : Reached g path done s) : g.Leading path.ids.reverse where
  toSimplePath := h.simplePath
  earlier := fun q hq hlast hne => by
    have hsplit : path.ids.reverse = ([] : List String).reverse ++ path.ids.reverse := by simp
    exact h.earlier_rest hsplit hq (by simpa using hlast) hne

/-- A cycle closed at a node of the path has the members of the path from that node on. -/
theorem members_close (h : Reached g path done s) (ht : t ∈ path.ids) (back : String) :
    (Cycle.close path t back).members = path.ids.reverse.dropWhile (· ≠ t) := by
  obtain ⟨inner, e, outer, rfl, he⟩ := exists_close_eq ht back
  have hsplit : (Path.ids (inner ++ (t, e) :: outer)).reverse =
      (Path.ids outer).reverse ++ t :: inner.reverse.map (·.1) := by simp [Path.ids]
  have hnodup := h.simplePath.nodup
  rw [hsplit] at hnodup
  have hout : ∀ x ∈ (Path.ids outer).reverse, decide (x ≠ t) = true := by
    rintro x hx
    have hne : x ≠ t := by
      rintro rfl
      exact (List.disjoint_of_nodup_append hnodup) hx (by simp)
    simpa using hne
  rw [he, hsplit, List.dropWhile_append_of_pos hout, List.dropWhile_cons_of_neg (by simp)]

/-- For each node that is done, the search has found the cycles that connections close with the
end of the leading path to it. -/
theorem covered (h : Reached g path done s) :
    ∀ a ∈ done, ∃ p, g.Leading p ∧ p.getLast? = some a ∧ ∀ b, g.Joined a b → b ∈ p →
      ∃ c ∈ s.found, c.members = p.dropWhile (· ≠ b) := by
  induction h with
  | start => simp
  | enter _ _ _ ih => exact ih
  | close _ _ _ ih =>
      intro a ha
      obtain ⟨p, hp, hlast, hcovered⟩ := ih a ha
      refine ⟨p, hp, hlast, fun b hab hb => ?_⟩
      obtain ⟨c, hc, hmembers⟩ := hcovered b hab hb
      exact ⟨c, mem_report_of_mem hc, hmembers⟩
  | @leave path done s step h hall ih =>
      intro a ha
      rcases List.mem_cons.mp ha with rfl | ha
      · refine ⟨_, h.leading, by simp, fun b hab hb => ?_⟩
        have hpath : b ∈ Path.ids (step :: path) := List.mem_reverse.mp hb
        obtain ⟨branch, hbranch, rfl⟩ : ∃ c ∈ branches g (step :: path), c.1 = b :=
          exists_branch hab
        obtain ⟨-, c, hc, hsame⟩ := (hall branch hbranch).resolve_left (h.onTrail.apart _ hpath)
        exact ⟨c, hc, (h.eq_close_of_sameMembers hc hpath hsame).trans (h.members_close hpath _)⟩
      · exact ih a ha

end Reached

-- ============================================================================
-- What is reported
-- ============================================================================

/-- The reported cycles are the ends of leading paths that a connection closes. -/
theorem exists_members_eq_iff (g : Graph) (ms : List String) :
    (∃ c ∈ g.cycles, c.members = ms) ↔
      ∃ p a b, g.Leading p ∧ p.getLast? = some a ∧ g.Joined a b ∧ b ∈ p ∧
        p.dropWhile (· ≠ b) = ms := by
  constructor
  · rintro ⟨c, hc, rfl⟩
    obtain ⟨path, done, s, step, hreached, hstep, hpath, rfl⟩ := closed_of_mem_cycles hc
    cases path with
    | nil => exact absurd hpath (by simp)
    | cons inner rest =>
        exact ⟨_, inner.1, step.1, hreached.leading, by simp, branch_joined hstep,
          List.mem_reverse.mpr hpath, (hreached.members_close hpath step.2).symm⟩
  · rintro ⟨p, a, b, hp, hlast, hab, hb, rfl⟩
    obtain ⟨done, s, hreached, hfound, hall⟩ := exists_reached_cycles g
    obtain ⟨q, hq, hqlast, hcovered⟩ := hreached.covered a (hall a hab.source_mem)
    obtain rfl : q = p := hp.unique hq (hqlast.trans hlast.symm)
    rw [← hfound]
    exact hcovered b hab hb

end Cycle

namespace Graph

/-- A cycle through exactly the given nodes is reported. -/
def Reports (g : Graph) (ids : List String) : Prop :=
  ∃ c ∈ g.cycles, ∀ id, id ∈ c.members ↔ id ∈ ids

theorem reports_iff (g : Graph) (ids : List String) :
    g.Reports ids ↔ ∃ p a b, g.Leading p ∧ p.getLast? = some a ∧ g.Joined a b ∧ b ∈ p ∧
      ∀ id, id ∈ p.dropWhile (· ≠ b) ↔ id ∈ ids := by
  constructor
  · rintro ⟨c, hc, hsame⟩
    obtain ⟨p, a, b, hp, hlast, hab, hb, hmembers⟩ :=
      (Cycle.exists_members_eq_iff g c.members).mp ⟨c, hc, rfl⟩
    exact ⟨p, a, b, hp, hlast, hab, hb, hmembers ▸ hsame⟩
  · rintro ⟨p, a, b, hp, hlast, hab, hb, hsame⟩
    obtain ⟨c, hc, hmembers⟩ :=
      (Cycle.exists_members_eq_iff g (p.dropWhile (· ≠ b))).mpr ⟨p, a, b, hp, hlast, hab, hb, rfl⟩
    exact ⟨c, hc, hmembers ▸ hsame⟩

/-- A cycle through the nodes of a circuit is reported exactly if they are the nodes of a leading
path from one of them on, to which its last node is joined.  Otherwise a connection of the
circuit closes a reported cycle through other nodes. -/
theorem circuit_reported_iff (g : Graph) (ks : List Connection) (h : g.Circuit ks) :
    (g.Reports (ks.map (·.source)) ↔
      ∃ p a b, g.Leading p ∧ p.getLast? = some a ∧ g.Joined a b ∧ b ∈ p ∧
        ∀ id, id ∈ p.dropWhile (· ≠ b) ↔ id ∈ ks.map (·.source)) ∧
    (¬ g.Reports (ks.map (·.source)) → ∃ k ∈ ks, ∃ c ∈ g.cycles,
      c.members.getLast? = some k.source ∧ c.members.head? = some k.target ∧
        ¬ ∀ id, id ∈ c.members ↔ id ∈ ks.map (·.source)) := by
  refine ⟨g.reports_iff _, fun hmissed => ?_⟩
  obtain ⟨k, hk, c, hc, hlast, hhead⟩ := h.exists_closes
  exact ⟨k, hk, c, hc, hlast, hhead, fun hsame => hmissed ⟨c, hc, hsame⟩⟩

/-- Two ways from one node to another, and a connection back. -/
def twoWays : Graph :=
  { nodes := [
      { id := "a", type := "llmChain" }, { id := "b", type := "llmChain" },
      { id := "c", type := "llmChain" }, { id := "d", type := "llmChain" }]
    connections := [
      { id := "e1", source := "a", target := "b" }, { id := "e2", source := "a", target := "c" },
      { id := "e3", source := "b", target := "d" }, { id := "e4", source := "c", target := "d" },
      { id := "e5", source := "d", target := "a" }] }

/-- The second way and back. -/
def secondWay : List Connection :=
  [{ id := "e2", source := "a", target := "c" }, { id := "e4", source := "c", target := "d" },
    { id := "e5", source := "d", target := "a" }]

/-- The circuit along the second way is simple and not reported: the connection back closes the
cycle along the first way. -/
theorem secondWay_missed :
    twoWays.Circuit secondWay ∧ (secondWay.map (·.source)).Nodup ∧
      twoWays.cycles = [⟨["a", "b", "d"], ["e1", "e3", "e5"]⟩] ∧
      ¬ twoWays.Reports (secondWay.map (·.source)) ∧
      (¬ ∃ p a b, twoWays.Leading p ∧ p.getLast? = some a ∧ twoWays.Joined a b ∧ b ∈ p ∧
        ∀ id, id ∈ p.dropWhile (· ≠ b) ↔ id ∈ secondWay.map (·.source)) ∧
      ∃ k ∈ secondWay, ∃ c ∈ twoWays.cycles, c.members.getLast? = some k.source ∧
        c.members.head? = some k.target ∧
          ¬ ∀ id, id ∈ c.members ↔ id ∈ secondWay.map (·.source) := by
  have hcircuit : twoWays.Circuit secondWay := ⟨by decide, by decide, _, _, rfl, rfl, rfl⟩
  have hcycles : twoWays.cycles = [⟨["a", "b", "d"], ["e1", "e3", "e5"]⟩] := rfl
  have hmissed : ¬ twoWays.Reports (secondWay.map (·.source)) := by
    rintro ⟨c, hc, hsame⟩
    rw [hcycles, List.mem_singleton] at hc
    subst hc
    exact absurd ((hsame "b").mp (by decide)) (by decide)
  obtain ⟨hiff, hclosed⟩ := circuit_reported_iff twoWays secondWay hcircuit
  exact ⟨hcircuit, by decide, hcycles, hmissed, fun h => hmissed (hiff.mpr h), hclosed hmissed⟩

end Graph

end Flowscript

/-
  Flowscript.Proofs.CycleSearch

  The search for cycles as a sequence of steps.

  From the end of its path the search follows one branch after another.  A step goes on
  to a node that has not been visited, closes a cycle at a node of the path, or leaves a
  node all of whose branches have been followed (`Reached`).  What holds of every stage
  of a search is proved by induction on these steps, and `exists_reached_cycles` says
  that the cycles of a graph are those found at a stage where all nodes are done.
-/
import Flowscript.Proofs.Precedence

namespace Flowscript.Cycle

variable {g : Graph} {s s' : Search} {path : Path} {b : String × String} {a e id : String}
  {fuel : Nat} {done done' : List String}

-- ============================================================================
-- Branches
-- ============================================================================

/-- The nodes on a path. -/
def Path.ids (path : Path) : List String := path.map (·.1)

@[simp] theorem Path.ids_nil : Path.ids [] = [] := rfl

@[simp] theorem Path.ids_cons (step : String × String) (path : Path) :
    Path.ids (step :: path) = step.1 :: Path.ids path := rfl

/-- The steps that may extend a path: from its innermost node along the connections to known
nodes, and at the start, where no connection is followed, to any node. -/
def branches (g : Graph) : Path → List (String × String)
  | [] => g.distinctIds.map fun id => (id, "")
  | (id, _) :: _ => (g.successors id).map fun c => (c.target, c.id)

/-- Follows one branch from the end of a path. -/
def follow (g : Graph) (fuel : Nat) (path : Path) (s : Search) (b : String × String) : Search :=
  if b.1 ∉ s.visited then explore g fuel (b :: path) b.1 { s with visited := b.1 :: s.visited }
  else if path.any (·.1 = b.1) then s.report (close path b.1 b.2)
  else s

/-- What following a branch can do: go on to a node that has not been visited, report a cycle, or
nothing at a node that has been visited and is not on the path. -/
theorem follow_cases (g : Graph) (fuel : Nat) (path : Path) (s : Search) (b : String × String) :
    (b.1 ∉ s.visited ∧ follow g fuel path s b =
      explore g fuel (b :: path) b.1 { s with visited := b.1 :: s.visited }) ∨
    (b.1 ∈ s.visited ∧ b.1 ∈ path.ids ∧
      follow g fuel path s b = s.report (close path b.1 b.2)) ∨
    (b.1 ∈ s.visited ∧ b.1 ∉ path.ids ∧ follow g fuel path s b = s) := by
  have hany : path.any (·.1 = b.1) = true ↔ b.1 ∈ path.ids := by simp [Path.ids]
  by_cases hv : b.1 ∈ s.visited
  · by_cases hp : b.1 ∈ path.ids
    · refine Or.inr (Or.inl ⟨hv, hp, ?_⟩)
      rw [follow, if_neg (by simpa using hv), if_pos (hany.mpr hp)]
    · refine Or.inr (Or.inr ⟨hv, hp, ?_⟩)
      rw [follow, if_neg (by simpa using hv), if_neg (fun h => hp (hany.mp h))]
  · exact Or.inl ⟨hv, if_pos hv⟩

theorem explore_succ (g : Graph) (fuel : Nat) (path : Path) (b : String × String) (s : Search) :
    explore g (fuel + 1) (b :: path) b.1 s =
      (branches g (b :: path)).foldl (follow g fuel (b :: path)) s := by
  simp only [branches, List.foldl_map]
  rfl

/-- The starting points of a search are the branches of the empty path. -/
theorem cycles_eq_found_foldl (g : Graph) :
    g.cycles = ((branches g []).foldl (follow g g.nodes.length []) {}).found := by
  have hstart : exploreFrom g = fun s id => follow g g.nodes.length [] s (id, "") := by
    funext s id
    by_cases hid : id ∈ s.visited <;> simp [exploreFrom, follow, hid]
  simp only [Graph.cycles, branches, List.foldl_map, hstart]

theorem branch_joined (hb : b ∈ branches g ((id, e) :: path)) : g.Joined id b.1 := by
  obtain ⟨c, hc, rfl⟩ := List.mem_map.mp hb
  exact Graph.joined_iff_mem_successors.mpr (List.mem_map.mpr ⟨c, hc, rfl⟩)

theorem exists_branch (h : g.Joined id a) : ∃ b ∈ branches g ((id, e) :: path), b.1 = a := by
  obtain ⟨c, hc, rfl⟩ := List.mem_map.mp (Graph.joined_iff_mem_successors.mp h)
  exact ⟨(c.target, c.id), List.mem_map.mpr ⟨c, hc, rfl⟩, rfl⟩

theorem branch_known (hb : b ∈ branches g path) : b.1 ∈ g.nodeIds := by
  cases path with
  | nil =>
      obtain ⟨id, hid, rfl⟩ := List.mem_map.mp hb
      exact Graph.mem_distinctIds.mp hid
  | cons step rest => exact (branch_joined hb).target_mem

-- ============================================================================
-- Reports
-- ============================================================================

/-- The two cycles go through the same nodes. -/
def SameMembers (c d : Cycle) : Prop := ∀ id, id ∈ c.members ↔ id ∈ d.members

theorem sameMembers_iff {c d : Cycle} :
    sameMembers c.members d.members = true ↔ SameMembers c d := by
  simp only [sameMembers, SameMembers, Bool.and_eq_true, List.all_eq_true, decide_eq_true_eq]
  exact ⟨fun h id => ⟨h.1 id, h.2 id⟩, fun h => ⟨fun id => (h id).mp, fun id => (h id).mpr⟩⟩

/-- A cycle is reported if no cycle through the same nodes has been. -/
theorem report_cases (s : Search) (c : Cycle) :
    ((∃ d ∈ s.found, SameMembers d c) ∧ s.report c = s) ∨
    ((∀ d ∈ s.found, ¬ SameMembers d c) ∧ s.report c = { s with found := s.found ++ [c] }) := by
  have hany : (s.found.any fun d => sameMembers d.members c.members) = true ↔
      ∃ d ∈ s.found, SameMembers d c := by
    simp only [List.any_eq_true, sameMembers_iff]
  by_cases h : ∃ d ∈ s.found, SameMembers d c
  · exact Or.inl ⟨h, if_pos (hany.mpr h)⟩
  · refine Or.inr ⟨fun d hd hsame => h ⟨d, hd, hsame⟩, if_neg fun hc => h (hany.mp hc)⟩

@[simp] theorem visited_report (s : Search) (c : Cycle) : (s.report c).visited = s.visited := by
  rcases report_cases s c with ⟨-, he⟩ | ⟨-, he⟩ <;> rw [he]

theorem mem_found_report {c d : Cycle} (h : c ∈ (s.report d).found) : c ∈ s.found ∨ c = d := by
  rcases report_cases s d with ⟨-, he⟩ | ⟨-, he⟩
  · rw [he] at h
    exact Or.inl h
  · rw [he] at h
    simpa using h

theorem mem_report_of_mem {c d : Cycle} (h : c ∈ s.found) : c ∈ (s.report d).found := by
  rcases report_cases s d with ⟨-, he⟩ | ⟨-, he⟩
  · rwa [he]
  · rw [he]
    exact List.mem_append_left _ h

theorem exists_sameMembers_report (s : Search) (c : Cycle) :
    ∃ d ∈ (s.report c).found, SameMembers d c := by
  rcases report_cases s c with ⟨h, he⟩ | ⟨-, he⟩
  · rwa [he]
  · rw [he]
    exact ⟨c, by simp, fun _ => Iff.rfl⟩

-- ============================================================================
-- The stages of a search
-- ============================================================================

/-- A branch that has been followed from the end of a path: its node is done, or is on the path,
and the cycle that the branch closes has been found. -/
def Followed (path : Path) (done : List String) (s : Search) (b : String × String) : Prop :=
  b.1 ∈ done ∨ (b.1 ∈ path.ids ∧ ∃ c ∈ s.found, SameMembers c (close path b.1 b.2))

/-- It is a branch's turn when all branches before it have been followed. -/
def Turn (g : Graph) (path : Path) (done : List String) (s : Search) (b : String × String) :
    Prop :=
  ∃ prior later, branches g path = prior ++ b :: later ∧ ∀ p ∈ prior, Followed path done s p

/-- The stages of a search: the path, the nodes that are done, latest first, and what has been
visited and found. -/
inductive Reached (g : Graph) : Path → List String → Search → Prop
  | start : Reached g [] [] {}
  | enter {path : Path} {done : List String} {s : Search} {b : String × String}
      (h : Reached g path done s) (hturn : Turn g path done s b) (hb : b.1 ∉ s.visited) :
      Reached g (b :: path) done { s with visited := b.1 :: s.visited }
  | close {path : Path} {done : List String} {s : Search} {b : String × String}
      (h : Reached g path done s) (hb : b ∈ branches g path) (hpath : b.1 ∈ path.ids) :
      Reached g path done (s.report (close path b.1 b.2))
  | leave {path : Path} {done : List String} {s : Search} {b : String × String}
      (h : Reached g (b :: path) done s)
      (hall : ∀ c ∈ branches g (b :: path), Followed (b :: path) done s c) :
      Reached g path (b.1 :: done) s

theorem Turn.mem (h : Turn g path done s b) : b ∈ branches g path := by
  obtain ⟨prior, later, hsplit, -⟩ := h
  rw [hsplit]
  simp

/-- Each node of a path is reached from the next one by the connection that stands with it. -/
def Trail (g : Graph) (path : Path) : Prop :=
  List.IsChain (fun inner outer : String × String =>
    ∃ c ∈ g.successors outer.1, c.target = inner.1 ∧ c.id = inner.2) path

theorem Trail.cons (h : Trail g path) (hb : b ∈ branches g path) : Trail g (b :: path) := by
  cases path with
  | nil => exact List.IsChain.singleton _
  | cons step rest =>
      obtain ⟨c, hc, rfl⟩ := List.mem_map.mp hb
      exact List.IsChain.cons_cons ⟨c, hc, rfl, rfl⟩ h

/-- The path of a stage is a trail of different nodes, and the nodes on the path and those that
are done are the ones that have been visited. -/
structure OnTrail (g : Graph) (path : Path) (done : List String) (s : Search) : Prop where
  trail : Trail g path
  nodup : path.ids.Nodup
  known : ∀ id ∈ path.ids, id ∈ g.nodeIds
  apart : ∀ id ∈ path.ids, id ∉ done
  visited : ∀ id, id ∈ s.visited ↔ id ∈ done ∨ id ∈ path.ids

theorem OnTrail.enter (h : OnTrail g path done s) (hb : b ∈ branches g path)
    (hv : b.1 ∉ s.visited) :
    OnTrail g (b :: path) done { s with visited := b.1 :: s.visited } := by
  rw [h.visited, not_or] at hv
  refine ⟨h.trail.cons hb, List.nodup_cons.mpr ⟨hv.2, h.nodup⟩, ?_, ?_, fun id => ?_⟩
  · rintro id (- | ⟨-, hid⟩)
    · exact branch_known hb
    · exact h.known id hid
  · rintro id (- | ⟨-, hid⟩)
    · exact hv.1
    · exact h.apart id hid
  · rw [List.mem_cons, Path.ids_cons, List.mem_cons, h.visited id]
    tauto

theorem OnTrail.leave (h : OnTrail g (b :: path) done s) : OnTrail g path (b.1 :: done) s := by
  obtain ⟨htrail, hnodup, hknown, hapart, hvisited⟩ := h
  obtain ⟨hnot, hnodup⟩ := List.nodup_cons.mp hnodup
  refine ⟨List.isChain_of_isChain_cons htrail, hnodup,
    fun id hid => hknown id (List.mem_cons_of_mem _ hid), fun id hid hmem => ?_, fun id => ?_⟩
  · rcases List.mem_cons.mp hmem with rfl | hmem
    · exact hnot hid
    · exact hapart id (List.mem_cons_of_mem _ hid) hmem
  · rw [hvisited id, Path.ids_cons, List.mem_cons, List.mem_cons]
    tauto

namespace Reached

theorem onTrail (h : Reached g path done s) : OnTrail g path done s := by
  induction h with
  | start => exact ⟨List.IsChain.nil, List.nodup_nil, by simp, by simp, by simp⟩
  | enter _ hturn hb ih => exact ih.enter hturn.mem hb
  | close _ _ _ ih => exact ⟨ih.trail, ih.nodup, ih.known, ih.apart, by simpa using ih.visited⟩
  | leave _ _ ih => exact ih.leave

/-- A path is no longer than the graph has nodes. -/
theorem length_le (h : Reached g path done s) : path.length ≤ g.nodes.length := by
  have hsub : path.ids.Subperm g.nodeIds := h.onTrail.nodup.subperm h.onTrail.known
  simpa [Path.ids, Graph.nodeIds] using hsub.length_le

end Reached

-- ============================================================================
-- The search goes through stages
-- ============================================================================

/-- At a later stage more is done and more has been found. -/
structure Grows (done : List String) (s : Search) (done' : List String) (s' : Search) : Prop where
  done : ∀ id ∈ done, id ∈ done'
  found : ∀ c ∈ s.found, c ∈ s'.found

theorem Grows.refl (done : List String) (s : Search) : Grows done s done s :=
  ⟨fun _ h => h, fun _ h => h⟩

theorem Grows.trans {done'' : List String} {s'' : Search} (h : Grows done s done' s')
    (h' : Grows done' s' done'' s'') : Grows done s done'' s'' :=
  ⟨fun id hid => h'.done id (h.done id hid), fun c hc => h'.found c (h.found c hc)⟩

theorem Followed.mono (h : Followed path done s b) (hgrows : Grows done s done' s') :
    Followed path done' s' b := by
  rcases h with hb | ⟨hb, c, hc, hsame⟩
  · exact Or.inl (hgrows.done _ hb)
  · exact Or.inr ⟨hb, c, hgrows.found c hc, hsame⟩

/-- From a stage, `s'` is what the search has visited and found at a later stage with the same
path, where all of the given branches have been followed. -/
def Sweeps (g : Graph) (path : Path) (bs : List (String × String)) (done : List String)
    (s s' : Search) : Prop :=
  ∃ done', Reached g path done' s' ∧ (∀ b ∈ bs, Followed path done' s' b) ∧
    Grows done s done' s'

theorem Sweeps.of_followed (h : Reached g path done' s') (hb : Followed path done' s' b)
    (hgrows : Grows done s done' s') : Sweeps g path [b] done s s' :=
  ⟨done', h, by simpa using hb, hgrows⟩

/-- Following one branch, if the search from its node sweeps the branches of that node. -/
theorem Reached.follow (h : Reached g path done s) (hturn : Turn g path done s b)
    (hexplore : ∀ s, Reached g (b :: path) done s →
      Sweeps g (b :: path) (branches g (b :: path)) done s (explore g fuel (b :: path) b.1 s)) :
    Sweeps g path [b] done s (follow g fuel path s b) := by
  rcases follow_cases g fuel path s b with ⟨hv, he⟩ | ⟨-, hpath, he⟩ | ⟨hv, hpath, he⟩
  · rw [he]
    obtain ⟨done', hreached, hall, hgrows⟩ := hexplore _ (h.enter hturn hv)
    exact .of_followed (hreached.leave hall) (Or.inl (by simp))
      ⟨fun id hid => List.mem_cons_of_mem _ (hgrows.done id hid), hgrows.found⟩
  · rw [he]
    exact .of_followed (h.close hturn.mem hpath)
      (Or.inr ⟨hpath, exists_sameMembers_report s _⟩)
      ⟨fun _ hid => hid, fun _ hc => mem_report_of_mem hc⟩
  · rw [he]
    have hdone : b.1 ∈ done := ((h.onTrail.visited _).mp hv).resolve_right hpath
    exact .of_followed h (Or.inl hdone) (Grows.refl done s)

/-- Following the branches that are left, each in its turn. -/
theorem Reached.sweep {f : Search → String × String → Search} {prior todo : List (String × String)}
    (hf : ∀ done s b, Reached g path done s → Turn g path done s b →
      Sweeps g path [b] done s (f s b))
    (h : Reached g path done s) (hsplit : branches g path = prior ++ todo)
    (hprior : ∀ b ∈ prior, Followed path done s b) :
    Sweeps g path (branches g path) done s (todo.foldl f s) := by
  induction todo generalizing prior done s with
  | nil =>
      rw [List.append_nil] at hsplit
      exact ⟨done, h, hsplit ▸ hprior, Grows.refl done s⟩
  | cons b todo ih =>
      obtain ⟨mid, hmid, hb, hgrows⟩ := hf done s b h ⟨prior, todo, hsplit, hprior⟩
      have hsplit' : branches g path = (prior ++ [b]) ++ todo := by simpa using hsplit
      have hprior' : ∀ c ∈ prior ++ [b], Followed path mid (f s b) c := by
        intro c hc
        rcases List.mem_append.mp hc with hc | hc
        · exact (hprior c hc).mono hgrows
        · exact hb c hc
      obtain ⟨done', hdone', hall, hgrows'⟩ := ih hmid hsplit' hprior'
      exact ⟨done', hdone', hall, hgrows.trans hgrows'⟩

/-- With as much fuel as the path may still grow, a search follows all branches of the innermost
node. -/
theorem Reached.explore (h : Reached g (b :: path) done s)
    (hfuel : g.nodes.length ≤ fuel + path.length) :
    Sweeps g (b :: path) (branches g (b :: path)) done s (explore g fuel (b :: path) b.1 s) := by
  induction fuel generalizing path b done s with
  | zero =>
      -- the path would have more nodes than the graph
      have hlen := h.length_le
      simp only [List.length_cons] at hlen
      omega
  | succ fuel ih =>
      rw [explore_succ]
      refine Reached.sweep (fun done s c hs hturn => hs.follow hturn fun t ht => ih ht ?_) h
        (List.nil_append _).symm (by simp)
      simp only [List.length_cons]
      omega

/-- A search ends at a stage where all nodes are done, and has found the cycles of the graph. -/
theorem exists_reached_cycles (g : Graph) :
    ∃ done s, Reached g [] done s ∧ s.found = g.cycles ∧ ∀ id ∈ g.nodeIds, id ∈ done := by
  obtain ⟨done, hdone, hall, -⟩ := Reached.sweep (f := Cycle.follow g g.nodes.length [])
    (fun done s b hs hturn => hs.follow hturn fun t ht => ht.explore (by simp))
    (Reached.start (g := g)) (List.nil_append _).symm (by simp)
  refine ⟨done, _, hdone, (cycles_eq_found_foldl g).symm, fun id hid => ?_⟩
  have hbranch : (id, "") ∈ branches g [] :=
    List.mem_map.mpr ⟨id, Graph.mem_distinctIds.mpr hid, rfl⟩
  exact (hall _ hbranch).resolve_right (by simp)

end Flowscript.Cycle

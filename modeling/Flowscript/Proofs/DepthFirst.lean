/-
  Flowscript.Proofs.DepthFirst

  The depth-first walk finishes each id after all of its sources, and it is cut short
  only by a cycle.

  The invariant of a walk (`Walk.Sound`) says that the finished ids are settled, and of
  each frame of the path that the sources it has looked at are finished, apart from the
  one that the walk has gone on to.  `Walk.step_cases` lists what one step can do; the
  invariant is carried through steps, runs, visits and the visits of all roots.  That
  the number of steps is enough is a matter of `Walk.work`, which every step lowers.
-/
import Flowscript.Proofs.Precedence
import Flowscript.Workflow.Order

namespace Flowscript.DepthFirst

open Relation

variable {g : Graph} {w w' : Walk} {path rest : List Frame} {id s : String}
  {done done' inner pending : List String}

theorem mem_sourcesOf : s ∈ sourcesOf g id ↔ g.Leads s id := by
  simp only [sourcesOf, Graph.incoming, Graph.Leads, List.mem_map, List.mem_filter,
    decide_eq_true_eq]
  constructor
  · rintro ⟨c, ⟨hc, ht⟩, hs⟩
    exact ⟨c, hc, hs, ht⟩
  · rintro ⟨c, hc, hs, ht⟩
    exact ⟨c, ⟨hc, ht⟩, hs⟩

-- ============================================================================
-- Paths that wait for sources
-- ============================================================================

/-- Each id of a path, innermost first, has its sources pending or done, up to those of `inner`,
which are ids it is waiting for; an outer id waits for the id of the frame inside it. -/
def Waiting (g : Graph) (done : List String) : List String → List Frame → Prop
  | _, [] => True
  | inner, f :: rest =>
    (∀ s, g.Leads s f.id → s ∈ f.pending ∨ s ∈ done ∨ s ∈ inner) ∧
    (∀ s, s ∈ f.pending ∨ s ∈ inner → g.Leads s f.id) ∧
    Waiting g done [f.id] rest

namespace Waiting

/-- Finishing more ids keeps a path waiting. -/
theorem mono (hsub : ∀ id ∈ done, id ∈ done') (h : Waiting g done inner path) :
    Waiting g done' inner path := by
  induction path generalizing inner with
  | nil => trivial
  | cons f rest ih =>
      obtain ⟨hsrc, hlead, hrest⟩ := h
      refine ⟨fun s hs => ?_, hlead, ih hrest⟩
      rcases hsrc s hs with h | h | h
      · exact Or.inl h
      · exact Or.inr (Or.inl (hsub s h))
      · exact Or.inr (Or.inr h)

/-- The next pending source of the innermost id becomes one it is waiting for. -/
theorem advance (h : Waiting g done inner (⟨id, s :: pending⟩ :: rest)) :
    Waiting g done (s :: inner) (⟨id, pending⟩ :: rest) := by
  obtain ⟨hsrc, hlead, hrest⟩ := h
  refine ⟨fun t ht => ?_, fun t ht => hlead t ?_, hrest⟩
  · rcases hsrc t ht with h | h | h
    · rcases List.mem_cons.mp h with rfl | h
      · exact Or.inr (Or.inr (by simp))
      · exact Or.inl h
    · exact Or.inr (Or.inl h)
    · exact Or.inr (Or.inr (List.mem_cons_of_mem _ h))
  · rcases ht with h | h
    · exact Or.inl (List.mem_cons_of_mem _ h)
    · rcases List.mem_cons.mp h with rfl | h
      · exact Or.inl (by simp)
      · exact Or.inr h

/-- A source that is done is not waited for any more. -/
theorem settle (hs : s ∈ done) (h : Waiting g done (s :: inner) path) :
    Waiting g done inner path := by
  cases path with
  | nil => trivial
  | cons f rest =>
      obtain ⟨hsrc, hlead, hrest⟩ := h
      refine ⟨fun t ht => ?_, fun t ht => hlead t ?_, hrest⟩
      · rcases hsrc t ht with h | h | h
        · exact Or.inl h
        · exact Or.inr (Or.inl h)
        · rcases List.mem_cons.mp h with rfl | h
          · exact Or.inr (Or.inl hs)
          · exact Or.inr (Or.inr h)
      · rcases ht with h | h
        · exact Or.inl h
        · exact Or.inr (List.mem_cons_of_mem _ h)

/-- An id that the innermost one waits for comes before every id of the path. -/
theorem transGen (h : Waiting g done inner path) (hs : s ∈ inner) (hid : id ∈ path.map (·.id)) :
    TransGen g.Leads s id := by
  induction path generalizing inner s with
  | nil => exact absurd hid (by simp)
  | cons f rest ih =>
      obtain ⟨-, hlead, hrest⟩ := h
      have hsf : g.Leads s f.id := hlead s (Or.inr hs)
      rcases List.mem_cons.mp hid with rfl | hid
      · exact TransGen.single hsf
      · exact TransGen.head hsf (ih hrest (by simp) hid)

end Waiting

-- ============================================================================
-- The invariant and single steps
-- ============================================================================

namespace Walk

/-- What holds of a walk at any time. -/
structure Sound (g : Graph) (w : Walk) : Prop where
  settled : Settled g.Leads w.done
  waiting : Waiting g w.done [] w.path
  nodup : (w.path.map (·.id)).Nodup
  apart : ∀ id ∈ w.path.map (·.id), id ∉ w.done
  visited : ∀ id, id ∈ w.visited ↔ id ∈ w.done ∨ id ∈ w.path.map (·.id)

theorem sound_empty (g : Graph) : Sound g {} where
  settled := trivial
  waiting := trivial
  nodup := List.nodup_nil
  apart := by simp
  visited := by simp

theorem onPath_iff : w.onPath id = true ↔ id ∈ w.path.map (·.id) := by
  simp [onPath]

/-- What a step with an id on the path can do: finish the id, pass over a source that has been
visited, or go on to one that has not. -/
theorem step_cases (hne : w.path ≠ []) (h : w.step g = some w') :
    (∃ id rest, w.path = ⟨id, []⟩ :: rest ∧ w' = { w with path := rest, done := id :: w.done }) ∨
    (∃ id s pending rest, w.path = ⟨id, s :: pending⟩ :: rest ∧ s ∉ w.path.map (·.id) ∧
      ((s ∈ w.visited ∧ w' = { w with path := ⟨id, pending⟩ :: rest }) ∨
        (s ∉ w.visited ∧ w' = { w with path := ⟨id, pending⟩ :: rest }.enter g s))) := by
  cases hp : w.path with
  | nil => exact absurd hp hne
  | cons f rest =>
      obtain ⟨id, pending⟩ := f
      cases pending with
      | nil =>
          simp only [step, hp, Option.some.injEq] at h
          exact Or.inl ⟨id, rest, rfl, h.symm⟩
      | cons s pending =>
          simp only [step, hp] at h
          split at h
          · exact absurd h (by simp)
          · next hon =>
            refine Or.inr ⟨id, s, pending, rest, rfl, ?_, ?_⟩
            · rw [← hp]
              exact fun hs => hon (onPath_iff.mpr hs)
            · split at h
              · next hv => exact Or.inl ⟨hv, (Option.some.inj h).symm⟩
              · next hv => exact Or.inr ⟨hv, (Option.some.inj h).symm⟩

/-- A step that closes a cycle meets a pending source on the path. -/
theorem step_eq_none (h : w.step g = none) :
    ∃ id s pending rest, w.path = ⟨id, s :: pending⟩ :: rest ∧ s ∈ w.path.map (·.id) := by
  cases hp : w.path with
  | nil => simp [step, hp] at h
  | cons f rest =>
      obtain ⟨id, pending⟩ := f
      cases pending with
      | nil => simp [step, hp] at h
      | cons s pending =>
          simp only [step, hp] at h
          split at h
          · next hon =>
            rw [onPath_iff, hp] at hon
            exact ⟨id, s, pending, rest, rfl, hon⟩
          · split at h <;> exact absurd h (by simp)

/-- Going on to an id that has not been visited. -/
theorem Sound.enter (hs : s ∉ w.visited) (settled : Settled g.Leads w.done)
    (waiting : Waiting g w.done [s] w.path) (nodup : (w.path.map (·.id)).Nodup)
    (apart : ∀ id ∈ w.path.map (·.id), id ∉ w.done)
    (visited : ∀ id, id ∈ w.visited ↔ id ∈ w.done ∨ id ∈ w.path.map (·.id)) :
    Sound g (w.enter g s) := by
  have hnot : s ∉ w.done ∧ s ∉ w.path.map (·.id) := by
    rw [visited, not_or] at hs
    exact hs
  refine ⟨settled, ⟨fun t ht => ?_, fun t ht => ?_, waiting⟩, ?_, ?_, ?_⟩
  · exact Or.inl (mem_sourcesOf.mpr ht)
  · rcases ht with ht | ht
    · exact mem_sourcesOf.mp ht
    · exact absurd ht (by simp)
  · exact List.nodup_cons.mpr ⟨hnot.2, nodup⟩
  · intro id hid
    rcases List.mem_cons.mp hid with rfl | hid
    · exact hnot.1
    · exact apart id hid
  · intro id
    simp only [Walk.enter, List.mem_cons, List.map_cons, visited id]
    tauto

theorem Sound.step (hw : Sound g w) (hne : w.path ≠ []) (h : w.step g = some w') :
    Sound g w' := by
  obtain ⟨settled, waiting, nodup, apart, visited⟩ := hw
  rcases step_cases hne h with ⟨id, rest, hp, rfl⟩ | ⟨id, s, pending, rest, hp, hon, hstep⟩
  · -- the innermost id is finished: all of its sources are done
    rw [hp] at waiting nodup apart visited
    obtain ⟨hsrc, -, hrest⟩ := waiting
    rw [List.map_cons, List.nodup_cons] at nodup
    have hnot : id ∉ w.done := apart id (by simp)
    refine ⟨⟨hnot, fun s hs => ?_, settled⟩, ?_, nodup.2, ?_, ?_⟩
    · rcases hsrc s hs with h | h | h
      · exact absurd h (by simp)
      · exact h
      · exact absurd h (by simp)
    · have hmono : Waiting g (id :: w.done) [id] rest :=
        hrest.mono fun _ h => List.mem_cons_of_mem _ h
      exact hmono.settle (by simp)
    · intro t ht hdone
      rcases List.mem_cons.mp hdone with rfl | hdone
      · exact nodup.1 ht
      · exact apart t (List.mem_cons_of_mem _ ht) hdone
    · intro t
      rw [visited t, List.mem_cons, List.map_cons, List.mem_cons]
      tauto
  · rw [hp] at waiting nodup apart visited hon
    have hwait := waiting.advance
    rcases hstep with ⟨hv, rfl⟩ | ⟨hv, rfl⟩
    · -- a source that was visited and is not on the path is done
      have hdone : s ∈ w.done := ((visited s).mp hv).resolve_right hon
      exact ⟨settled, hwait.settle hdone, nodup, apart, visited⟩
    · exact Sound.enter hv settled hwait nodup apart visited

/-- A step that is cut short shows a cycle. -/
theorem Sound.exists_cycle_of_step (hw : Sound g w) (h : w.step g = none) :
    ∃ id, TransGen g.Leads id id := by
  obtain ⟨id, s, pending, rest, hp, hon⟩ := step_eq_none h
  have hwait := hw.waiting
  rw [hp] at hwait hon
  exact ⟨s, hwait.advance.transGen (by simp) hon⟩

-- ============================================================================
-- The work that is left
-- ============================================================================

/-- The steps a path still needs, not counting those inside ids that are yet to be visited. -/
def pathWork : List Frame → Nat
  | [] => 0
  | f :: rest => 2 * f.pending.length + 1 + pathWork rest

/-- The connections into ids that have not been visited. -/
def unvisited (g : Graph) (w : Walk) : List Connection :=
  g.connections.filter fun c => c.target ∉ w.visited

/-- A bound on the steps that are left. -/
def work (g : Graph) (w : Walk) : Nat := pathWork w.path + 2 * (unvisited g w).length

theorem length_unvisited_enter (hs : s ∉ w.visited) :
    (unvisited g (w.enter g s)).length + (sourcesOf g s).length = (unvisited g w).length := by
  simp only [unvisited, sourcesOf, Graph.incoming, Walk.enter, List.length_map, List.mem_cons]
  induction g.connections with
  | nil => rfl
  | cons c cs ih =>
      by_cases ht : c.target = s
      · simp only [List.filter_cons, ht, true_or, not_true_eq_false, decide_false,
          Bool.false_eq_true, if_false, decide_true, if_true, List.length_cons, hs,
          not_false_eq_true]
        omega
      · by_cases hv : c.target ∈ w.visited
        · simpa [List.filter_cons, ht, hv] using ih
        · simp only [List.filter_cons, ht, hv, or_self, not_false_eq_true, decide_true,
            if_true, decide_false, Bool.false_eq_true, if_false, List.length_cons]
          omega

theorem work_enter (hs : s ∉ w.visited) : (w.enter g s).work g = w.work g + 1 := by
  have hlen := length_unvisited_enter (g := g) hs
  simp only [work]
  have hpath : pathWork (w.enter g s).path = 2 * (sourcesOf g s).length + 1 + pathWork w.path :=
    rfl
  omega

/-- Every step lowers the work that is left. -/
theorem work_step (hne : w.path ≠ []) (h : w.step g = some w') : w'.work g < w.work g := by
  rcases step_cases hne h with ⟨id, rest, hp, rfl⟩ | ⟨id, s, pending, rest, hp, -, hstep⟩
  · simp only [work, hp, pathWork, unvisited, List.length_nil]
    omega
  · have hlook : ({ w with path := ⟨id, pending⟩ :: rest } : Walk).work g + 2 = w.work g := by
      simp only [work, hp, pathWork, unvisited, List.length_cons]
      omega
    rcases hstep with ⟨-, rfl⟩ | ⟨hv, rfl⟩
    · omega
    · have henter := work_enter (g := g) (w := { w with path := ⟨id, pending⟩ :: rest }) hv
      omega

-- ============================================================================
-- Runs, visits and all roots
-- ============================================================================

theorem visited_subset_of_step (hne : w.path ≠ []) (h : w.step g = some w') :
    ∀ id ∈ w.visited, id ∈ w'.visited := by
  intro id hid
  rcases step_cases hne h with ⟨_, _, -, rfl⟩ | ⟨_, _, _, _, -, -, ⟨-, rfl⟩ | ⟨-, rfl⟩⟩
  · exact hid
  · exact hid
  · exact List.mem_cons_of_mem _ hid

/-- A walk between two visits: nothing is on the path. -/
structure Rested (g : Graph) (w : Walk) : Prop extends Sound g w where
  path_nil : w.path = []

theorem Rested.visited_iff (h : Rested g w) : id ∈ w.visited ↔ id ∈ w.done := by
  rw [h.visited id, h.path_nil]
  simp

/-- A run that ends has left the path, and keeps what every step keeps. -/
theorem run_preserves {P : Walk → Prop} {fuel : Nat}
    (hstep : ∀ v v' : Walk, v.path ≠ [] → v.step g = some v' → P v → P v') (hw : P w)
    (h : w.run g fuel = some w') : P w' ∧ w'.path = [] := by
  induction fuel generalizing w with
  | zero =>
      simp only [Walk.run] at h
      split at h
      · next hp =>
        cases h
        exact ⟨hw, List.isEmpty_iff.mp hp⟩
      · exact absurd h (by simp)
  | succ fuel ih =>
      simp only [Walk.run] at h
      split at h
      · next hp =>
        cases h
        exact ⟨hw, List.isEmpty_iff.mp hp⟩
      · next hp =>
        have hne : w.path ≠ [] := fun he => hp (List.isEmpty_iff.mpr he)
        obtain ⟨v, hv, hrun⟩ := Option.bind_eq_some_iff.mp h
        exact ih (hstep w v hne hv hw) hrun

/-- A run that ends keeps the invariant and forgets no visit. -/
theorem Sound.run {fuel : Nat} (hw : Sound g w) (h : w.run g fuel = some w') :
    Rested g w' ∧ ∀ id ∈ w.visited, id ∈ w'.visited := by
  have hstep : ∀ v v' : Walk, v.path ≠ [] → v.step g = some v' →
      (Sound g v ∧ ∀ id ∈ w.visited, id ∈ v.visited) →
      Sound g v' ∧ ∀ id ∈ w.visited, id ∈ v'.visited := by
    rintro v v' hne hv ⟨hsound, hsub⟩
    exact ⟨hsound.step hne hv, fun id hid => visited_subset_of_step hne hv id (hsub id hid)⟩
  obtain ⟨⟨hsound, hsub⟩, hp⟩ := run_preserves hstep ⟨hw, fun _ hid => hid⟩ h
  exact ⟨⟨hsound, hp⟩, hsub⟩

/-- With as many steps as there is work, only a cycle cuts a run short. -/
theorem Sound.exists_cycle_of_run {fuel : Nat} (hw : Sound g w) (hfuel : w.work g ≤ fuel)
    (h : w.run g fuel = none) : ∃ id, TransGen g.Leads id id := by
  induction fuel generalizing w with
  | zero =>
      simp only [Walk.run] at h
      split at h
      · exact absurd h (by simp)
      · next hp =>
        -- a path that is not empty needs at least one step
        cases hpath : w.path with
        | nil => exact absurd (List.isEmpty_iff.mpr hpath) hp
        | cons f rest =>
            simp only [work, hpath, pathWork] at hfuel
            omega
  | succ fuel ih =>
      simp only [Walk.run] at h
      split at h
      · exact absurd h (by simp)
      · next hp =>
        have hne : w.path ≠ [] := fun he => hp (List.isEmpty_iff.mpr he)
        cases hstep : w.step g with
        | none => exact hw.exists_cycle_of_step hstep
        | some v =>
            rw [hstep, Option.bind_some] at h
            have hlt := work_step hne hstep
            exact ih (hw.step hne hstep) (by omega) h

theorem Rested.enter (hw : Rested g w) (hid : id ∉ w.visited) : Sound g (w.enter g id) := by
  obtain ⟨⟨settled, -, nodup, apart, visited⟩, hp⟩ := hw
  exact Sound.enter hid settled (by rw [hp]; trivial) nodup apart visited

theorem Rested.work_enter_le_bound (hw : Rested g w) (hid : id ∉ w.visited) :
    (w.enter g id).work g ≤ bound g := by
  have hlen : (unvisited g w).length ≤ g.connections.length := List.length_filter_le ..
  rw [work_enter hid]
  simp only [work, hw.path_nil, pathWork, bound]
  omega

theorem Rested.visit (hw : Rested g w) (h : w.visit g id = some w') :
    Rested g w' ∧ id ∈ w'.visited ∧ ∀ t ∈ w.visited, t ∈ w'.visited := by
  simp only [Walk.visit] at h
  split at h
  · next hid =>
    cases h
    exact ⟨hw, hid, fun _ ht => ht⟩
  · next hid =>
    obtain ⟨hrest, hsub⟩ := (hw.enter hid).run h
    exact ⟨hrest, hsub id (by simp [Walk.enter]),
      fun t ht => hsub t (List.mem_cons_of_mem _ ht)⟩

theorem Rested.exists_cycle_of_visit (hw : Rested g w) (h : w.visit g id = none) :
    ∃ t, TransGen g.Leads t t := by
  simp only [Walk.visit] at h
  split at h
  · exact absurd h (by simp)
  · next hid => exact (hw.enter hid).exists_cycle_of_run (hw.work_enter_le_bound hid) h

/-- After the visits of some roots, all of them are visited. -/
theorem Rested.visits {roots : List String} (hw : Rested g w)
    (h : roots.foldlM (Walk.visit g) w = some w') :
    Rested g w' ∧ (∀ id ∈ roots, id ∈ w'.visited) ∧ ∀ t ∈ w.visited, t ∈ w'.visited := by
  induction roots generalizing w with
  | nil =>
      cases h
      exact ⟨hw, by simp, fun _ ht => ht⟩
  | cons id roots ih =>
      rw [List.foldlM_cons] at h
      obtain ⟨v, hv, hrest⟩ := Option.bind_eq_some_iff.mp h
      obtain ⟨hv', hid, hsub⟩ := hw.visit hv
      obtain ⟨hw', hroots, hsub'⟩ := ih hv' hrest
      refine ⟨hw', fun t ht => ?_, fun t ht => hsub' t (hsub t ht)⟩
      rcases List.mem_cons.mp ht with rfl | ht
      · exact hsub' t hid
      · exact hroots t ht

theorem Rested.exists_cycle_of_visits {roots : List String} (hw : Rested g w)
    (h : roots.foldlM (Walk.visit g) w = none) : ∃ t, TransGen g.Leads t t := by
  induction roots generalizing w with
  | nil => exact absurd h (by simp)
  | cons id roots ih =>
      rw [List.foldlM_cons] at h
      cases hv : w.visit g id with
      | none => exact hw.exists_cycle_of_visit hv
      | some v =>
          rw [hv] at h
          exact ih (hw.visit hv).1 h

end Walk

-- ============================================================================
-- The order of a graph
-- ============================================================================

/-- The ids of a depth-first order are settled, latest first, and every node is among them. -/
theorem settled_of_ids? {ids : List String} (h : ids? g = some ids) :
    Settled g.Leads ids.reverse ∧ ∀ id ∈ g.nodeIds, id ∈ ids := by
  obtain ⟨w, hw, rfl⟩ := Option.map_eq_some_iff.mp h
  obtain ⟨hrest, hroots, -⟩ := Walk.Rested.visits ⟨Walk.sound_empty g, rfl⟩ hw
  refine ⟨by rw [List.reverse_reverse]; exact hrest.settled, fun id hid => ?_⟩
  have hroot : id ∈ roots g := List.mem_append_right _ hid
  exact List.mem_reverse.mpr (hrest.visited_iff.mp (hroots id hroot))

/-- A graph without a depth-first order has a cycle. -/
theorem exists_cycle_of_ids?_eq_none (h : ids? g = none) : ∃ id, TransGen g.Leads id id :=
  Walk.Rested.exists_cycle_of_visits ⟨Walk.sound_empty g, rfl⟩ (Option.map_eq_none_iff.mp h)

end Flowscript.DepthFirst

/-
  Flowscript.Proofs.Kahn

  Kahn's order takes each id after all ids with an edge to it, and leaves out only ids
  that wait for one another.

  The statements are about `Kahn.sort` on any ids and edges between them, so that they
  serve both the execution order and the longest chain.  While ids are taken, the number
  kept for an id is the number of edges from ids not yet taken, and the queue holds the
  ids not yet taken for which it is zero (`Progress`).
-/
import Flowscript.Proofs.Precedence
import Flowscript.Workflow.Order

namespace Flowscript.Kahn

variable {ids taken queue ts : List String} {targets : String → List String} {ds : Degrees}
  {id t : String}

-- ============================================================================
-- Numbers of edges
-- ============================================================================

/-- The number kept for an id. -/
def degree (ds : Degrees) (id : String) : Nat := (Assoc.get? ds id).getD 0

theorem degree_release (id t : String) (ds : Degrees) :
    degree (release id ds).1 t = if t = id then degree ds t - 1 else degree ds t := by
  induction ds with
  | nil => simp [release, degree]
  | cons e rest ih =>
      obtain ⟨k, d⟩ := e
      by_cases hk : k = id
      · by_cases ht : t = id
        · simp [release, degree, Assoc.get?, hk, ht]
        · simp [release, degree, Assoc.get?, hk, ht, Ne.symm ht]
      · by_cases hkt : k = t
        · have ht : t ≠ id := fun h => hk (hkt.trans h)
          simp [release, degree, Assoc.get?, hkt, ht]
        · simpa [release, degree, Assoc.get?, hk, hkt] using ih

theorem release_last (id : String) (ds : Degrees) :
    (release id ds).2 = true ↔ degree ds id = 1 := by
  induction ds with
  | nil => simp [release, degree]
  | cons e rest ih =>
      obtain ⟨k, d⟩ := e
      by_cases hk : k = id
      · simp [release, degree, Assoc.get?, hk]
      · simpa [release, degree, Assoc.get?, hk] using ih

theorem degree_releaseAll (ts : List String) (ds : Degrees) (t : String) :
    degree (releaseAll ts ds).1 t = degree ds t - ts.count t := by
  induction ts generalizing ds with
  | nil => simp [releaseAll]
  | cons u us ih =>
      simp only [releaseAll, ih, degree_release]
      by_cases hu : t = u
      · rw [if_pos hu, hu, List.count_cons_self]
        omega
      · rw [if_neg hu, List.count_cons_of_ne (Ne.symm hu)]

/-- The ids that become free are those whose edges are all taken away. -/
theorem mem_releaseAll (ts : List String) (ds : Degrees) (t : String) :
    t ∈ (releaseAll ts ds).2 ↔ 0 < degree ds t ∧ degree ds t ≤ ts.count t := by
  induction ts generalizing ds with
  | nil =>
      simp only [releaseAll, List.not_mem_nil, List.count_nil, false_iff]
      omega
  | cons u us ih =>
      have hlast := release_last u ds
      have hstep : t ∈ (releaseAll (u :: us) ds).2 ↔
          (t = u ∧ degree ds u = 1) ∨ t ∈ (releaseAll us (release u ds).1).2 := by
        simp only [releaseAll, ← hlast]
        split
        · next h => simp [h]
        · next h => simp [h]
      rw [hstep, ih, degree_release]
      by_cases hu : t = u
      · rw [if_pos hu, hu, List.count_cons_self]
        simp only [true_and]
        omega
      · rw [if_neg hu, List.count_cons_of_ne (Ne.symm hu)]
        simp [hu]

theorem nodup_releaseAll (ts : List String) (ds : Degrees) : (releaseAll ts ds).2.Nodup := by
  induction ts generalizing ds with
  | nil => exact List.nodup_nil
  | cons u us ih =>
      simp only [releaseAll]
      split
      · next hlast =>
        refine List.nodup_cons.mpr ⟨fun hu => ?_, ih _⟩
        -- the number of an id that became free is zero and stays so
        rw [mem_releaseAll, degree_release, if_pos rfl, (release_last u ds).mp hlast] at hu
        omega
      · exact ih _

/-- Taking an id takes the edges that leave it away from those that are left. -/
theorem count_remaining (hids : ids.Nodup) (hid : id ∈ ids) (hnot : id ∉ taken) (t : String) :
    ((ids.filter (· ∉ taken)).flatMap targets).count t =
      (targets id).count t + ((ids.filter (· ∉ id :: taken)).flatMap targets).count t := by
  induction ids with
  | nil => exact absurd hid (by simp)
  | cons x xs ih =>
      obtain ⟨hx, hxs⟩ := List.nodup_cons.mp hids
      by_cases hxid : x = id
      · have hrest : xs.filter (· ∉ id :: taken) = xs.filter (· ∉ taken) := by
          refine List.filter_congr fun y hy => ?_
          have hne : y ≠ id := fun h => hx (hxid ▸ h ▸ hy)
          simp [hne]
        have hfirst : (x :: xs).filter (· ∉ taken) = x :: xs.filter (· ∉ taken) := by
          simp [hxid, hnot]
        have hsecond : (x :: xs).filter (· ∉ id :: taken) = xs.filter (· ∉ id :: taken) := by
          simp [hxid]
        rw [hfirst, hsecond, hrest, List.flatMap_cons, List.count_append, hxid]
      · have hmem : id ∈ xs := (List.mem_cons.mp hid).resolve_left (Ne.symm hxid)
        have hih := ih hxs hmem
        by_cases hxt : x ∈ taken
        · simpa [List.filter_cons, hxt] using hih
        · simp only [List.filter_cons, hxt, hxid, List.mem_cons, or_self, not_false_eq_true,
            decide_true, if_true, List.flatMap_cons, List.count_append]
          simp only [List.mem_cons] at hih
          omega

-- ============================================================================
-- Taking ids from the queue
-- ============================================================================

/-- An edge leaves one of the ids for another. -/
def Edge (ids : List String) (targets : String → List String) (a b : String) : Prop :=
  a ∈ ids ∧ b ∈ targets a

/-- What holds whenever an id is about to be taken; `taken` has the latest id first. -/
structure Progress (ids : List String) (targets : String → List String)
    (taken queue : List String) (ds : Degrees) : Prop where
  settled : Settled (Edge ids targets) taken
  known : ∀ id ∈ taken, id ∈ ids
  degrees : ∀ t ∈ ids, degree ds t = ((ids.filter (· ∉ taken)).flatMap targets).count t
  nodup : queue.Nodup
  ready : ∀ t, t ∈ queue ↔ t ∈ ids ∧ t ∉ taken ∧ degree ds t = 0

theorem Progress.degree_eq_zero_iff (h : Progress ids targets taken queue ds) (ht : t ∈ ids) :
    degree ds t = 0 ↔ ∀ a, Edge ids targets a t → a ∈ taken := by
  rw [h.degrees t ht, List.count_eq_zero, List.mem_flatMap]
  constructor
  · rintro hno a ⟨ha, hat⟩
    by_contra hnot
    exact hno ⟨a, List.mem_filter.mpr ⟨ha, by simpa using hnot⟩, hat⟩
  · rintro hall ⟨a, ha, hat⟩
    obtain ⟨ha, hnot⟩ := List.mem_filter.mp ha
    exact (of_decide_eq_true hnot) (hall a ⟨ha, hat⟩)

/-- No edge into an id that was taken is left. -/
theorem Progress.degree_of_taken (h : Progress ids targets taken queue ds) (ht : t ∈ taken) :
    degree ds t = 0 :=
  (h.degree_eq_zero_iff (h.known t ht)).mpr fun _ ha => h.settled.mem_of_before ht ha

/-- Taking the first id of the queue. -/
theorem Progress.take (hids : ids.Nodup) (hclosed : ∀ a ∈ ids, ∀ b ∈ targets a, b ∈ ids)
    (h : Progress ids targets taken (id :: queue) ds) :
    Progress ids targets (id :: taken) (queue ++ (releaseAll (targets id) ds).2)
      (releaseAll (targets id) ds).1 := by
  obtain ⟨hid, hnot, hzero⟩ := (h.ready id).mp (by simp)
  obtain ⟨hfirst, hqueue⟩ := List.nodup_cons.mp h.nodup
  refine ⟨⟨hnot, (h.degree_eq_zero_iff hid).mp hzero, h.settled⟩, ?_, ?_, ?_, ?_⟩
  · intro t ht
    rcases List.mem_cons.mp ht with rfl | ht
    · exact hid
    · exact h.known t ht
  · intro t ht
    rw [degree_releaseAll, h.degrees t ht, count_remaining hids hid hnot]
    omega
  · refine List.nodup_append'.mpr ⟨hqueue, nodup_releaseAll _ _, ?_⟩
    intro t hq hf
    have hready := (h.ready t).mp (List.mem_cons_of_mem _ hq)
    have hfree := (mem_releaseAll _ _ _).mp hf
    omega
  · intro t
    rw [List.mem_append, mem_releaseAll, degree_releaseAll, List.mem_cons, not_or]
    constructor
    · rintro (hq | ⟨hpos, hle⟩)
      · obtain ⟨ht, htt, hdeg⟩ := (h.ready t).mp (List.mem_cons_of_mem _ hq)
        have hne : t ≠ id := fun he => hfirst (he ▸ hq)
        exact ⟨ht, ⟨hne, htt⟩, by omega⟩
      · -- an id that becomes free had an edge left, so it was neither taken nor in the queue
        have hcount : 0 < (targets id).count t := by omega
        have ht : t ∈ ids := hclosed id hid t (List.count_pos_iff.mp hcount)
        have hne : t ≠ id := by
          rintro rfl
          omega
        have htt : t ∉ taken := by
          intro hmem
          have hdeg := h.degree_of_taken hmem
          omega
        exact ⟨ht, ⟨hne, htt⟩, by omega⟩
    · rintro ⟨ht, ⟨hne, htt⟩, hdeg⟩
      by_cases hz : degree ds t = 0
      · have hq := (h.ready t).mpr ⟨ht, htt, hz⟩
        exact Or.inl ((List.mem_cons.mp hq).resolve_left hne)
      · exact Or.inr ⟨by omega, by omega⟩

/-- What is left out when the queue is empty. -/
theorem Progress.waiting (h : Progress ids targets taken [] ds) (ht : t ∈ ids)
    (hnot : t ∉ taken) : ∃ a ∈ ids, a ∉ taken ∧ t ∈ targets a := by
  have hdeg : degree ds t ≠ 0 := by
    intro hz
    have hq := (h.ready t).mpr ⟨ht, hnot, hz⟩
    exact absurd hq (by simp)
  by_contra hno
  refine hdeg ((h.degree_eq_zero_iff ht).mpr fun a ha => ?_)
  by_contra hat
  exact hno ⟨a, ha.1, hat, ha.2⟩

/-- All ids have been taken once as many have been taken as there are. -/
theorem Progress.mem_taken (h : Progress ids targets taken queue ds)
    (hlen : taken.length = ids.length) (ht : t ∈ ids) : t ∈ taken := by
  have hsub : taken.Subperm ids := h.settled.nodup.subperm h.known
  exact (hsub.perm_of_length_le (Nat.le_of_eq hlen.symm)).mem_iff.mpr ht

/-- Draining the queue takes every id that does not wait for one that is left out. -/
theorem Progress.drain {fuel : Nat} (hids : ids.Nodup)
    (hclosed : ∀ a ∈ ids, ∀ b ∈ targets a, b ∈ ids)
    (h : Progress ids targets taken queue ds) (hfuel : fuel + taken.length = ids.length) :
    let out := (drain targets fuel queue ds).reverse ++ taken
    Settled (Edge ids targets) out ∧ (∀ t ∈ out, t ∈ ids) ∧
      ∀ t ∈ ids, t ∉ out → ∃ a ∈ ids, a ∉ out ∧ t ∈ targets a := by
  induction fuel generalizing taken queue ds with
  | zero =>
      refine ⟨h.settled, h.known, fun t ht hnot => ?_⟩
      exact absurd (h.mem_taken (by omega) ht) hnot
  | succ fuel ih =>
      cases queue with
      | nil => exact ⟨h.settled, h.known, fun t ht hnot => h.waiting ht hnot⟩
      | cons id queue =>
          have hnext := ih (h.take hids hclosed) (by simp only [List.length_cons]; omega)
          simpa [Kahn.drain] using hnext

-- ============================================================================
-- The order of ids
-- ============================================================================

theorem degree_initial (f : String → Nat) (ht : t ∈ ids) :
    degree (ids.map fun id => (id, f id)) t = f t := by
  induction ids with
  | nil => exact absurd ht (by simp)
  | cons x xs ih =>
      by_cases hx : x = t
      · simp [degree, Assoc.get?, hx]
      · have hxs : t ∈ xs := (List.mem_cons.mp ht).resolve_left (Ne.symm hx)
        simpa [degree, Assoc.get?, hx] using ih hxs

/-- The queue starts with the ids into which no edge leads. -/
theorem queue_initial (ids : List String) (f : String → Nat) :
    ((ids.map fun id => (id, f id)).filter (·.2 = 0)).map (·.1) =
      ids.filter fun id => f id = 0 := by
  rw [List.filter_map, List.map_map]
  simp [Function.comp_def]

theorem progress_initial (hids : ids.Nodup) :
    Progress ids targets []
      (((ids.map fun id => (id, (ids.flatMap targets).count id)).filter (·.2 = 0)).map (·.1))
      (ids.map fun id => (id, (ids.flatMap targets).count id)) := by
  rw [queue_initial]
  refine ⟨settled_nil, by simp, ?_, hids.filter _, ?_⟩
  · intro t ht
    rw [degree_initial _ ht]
    simp
  · intro t
    rw [List.mem_filter]
    constructor
    · rintro ⟨ht, hz⟩
      exact ⟨ht, by simp, by rw [degree_initial _ ht]; exact of_decide_eq_true hz⟩
    · rintro ⟨ht, -, hz⟩
      rw [degree_initial _ ht] at hz
      exact ⟨ht, decide_eq_true hz⟩

/-- The ids that are sorted are settled, latest first, and each id that is left out waits for
another one that is. -/
theorem settled_sort (hids : ids.Nodup) (hclosed : ∀ a ∈ ids, ∀ b ∈ targets a, b ∈ ids) :
    Settled (Edge ids targets) (sort ids targets).reverse ∧
      (∀ t ∈ sort ids targets, t ∈ ids) ∧
      ∀ t ∈ ids, t ∉ sort ids targets → ∃ a ∈ ids, a ∉ sort ids targets ∧ t ∈ targets a := by
  have hfuel : ids.length + ([] : List String).length = ids.length := by simp
  have h := Progress.drain hids hclosed (progress_initial hids) hfuel
  simpa [sort] using h

/-- Nothing is left out if as many ids are sorted as there are. -/
theorem perm_sort (hids : ids.Nodup) (hclosed : ∀ a ∈ ids, ∀ b ∈ targets a, b ∈ ids)
    (hlen : ids.length ≤ (sort ids targets).length) : (sort ids targets).Perm ids := by
  obtain ⟨hsettled, hknown, -⟩ := settled_sort hids hclosed
  have hsub : (sort ids targets).Subperm ids :=
    (List.nodup_reverse.mp hsettled.nodup).subperm hknown
  exact hsub.perm_of_length_le hlen

/-- If something is left out, there is a cycle among what is left out. -/
theorem exists_cycle_of_length_lt (hids : ids.Nodup)
    (hclosed : ∀ a ∈ ids, ∀ b ∈ targets a, b ∈ ids)
    (hlen : (sort ids targets).length < ids.length) :
    ∃ id, Relation.TransGen (Edge ids targets) id id := by
  obtain ⟨-, -, hleft⟩ := settled_sort hids hclosed
  obtain ⟨t, ht, hnot⟩ : ∃ t ∈ ids, t ∉ sort ids targets := by
    by_contra hall
    push Not at hall
    exact absurd (hids.subperm hall).length_le (by omega)
  -- the ids that are left out wait for one another
  have hwait : ∀ u ∈ ids.filter (· ∉ sort ids targets),
      ∃ a ∈ ids.filter (· ∉ sort ids targets), Edge ids targets a u := by
    intro u hu
    obtain ⟨hu, hnotu⟩ := List.mem_filter.mp hu
    obtain ⟨a, ha, hnota, hau⟩ := hleft u hu (of_decide_eq_true hnotu)
    exact ⟨a, List.mem_filter.mpr ⟨ha, by simpa using hnota⟩, ha, hau⟩
  exact exists_transGen_of_forall_before
    (List.mem_filter.mpr ⟨ht, by simpa using hnot⟩) hwait

end Flowscript.Kahn

/-
  Flowscript.Proofs.Validity

  What makes a graph valid, and what the refusal of an invalid one points at.

  Each check is exact: that of the nodes (`nodeErrors_eq_nil_iff`), that of the ends of
  connections (`danglingErrors_eq_nil_iff`), and the search for cycles.  So no error is
  found exactly if the graph is valid.  The one refusal that stands for the errors points
  at all that they point at, however many there are, and folding several of them into one
  drops repetitions and nothing else.
-/
import Flowscript.Conversion.Report
import Flowscript.Proofs.ClosingConnections

namespace Flowscript

open Relation

variable {g : Graph} {k : Connection} {id : String}

/-- There are nodes, their ids differ, all connections end at them, and no connections between
them form a cycle. -/
structure Graph.IsValid (g : Graph) : Prop where
  nonempty : g.nodes ≠ []
  nodup : g.nodeIds.Nodup
  ends : ∀ k ∈ g.connections, k.source ∈ g.nodeIds ∧ k.target ∈ g.nodeIds
  acyclic : ∀ id, ¬ TransGen g.Joined id id

-- ============================================================================
-- Each check
-- ============================================================================

namespace Graph

theorem mem_duplicateIds : id ∈ g.duplicateIds ↔ 1 < g.nodeIds.count id := by
  rw [duplicateIds, List.mem_filter, mem_distinctIds, decide_eq_true_eq, and_iff_right_iff_imp]
  intro hcount
  exact List.count_pos_iff.mp (by omega)

theorem duplicateIds_eq_nil_iff : g.duplicateIds = [] ↔ g.nodeIds.Nodup := by
  rw [List.nodup_iff_count_le_one, List.eq_nil_iff_forall_not_mem]
  simp only [mem_duplicateIds, not_lt]

theorem nodeErrors_eq_nil_iff : g.nodeErrors = [] ↔ g.nodes ≠ [] ∧ g.nodeIds.Nodup := by
  rw [nodeErrors, ← duplicateIds_eq_nil_iff]
  cases hnodes : g.nodes with
  | nil => simp
  | cons n ns => simp

theorem mem_unknownEnds :
    id ∈ g.unknownEnds k ↔ (id = k.source ∨ id = k.target) ∧ id ∉ g.nodeIds := by
  simp [unknownEnds, ← knows_iff]

theorem unknownEnds_eq_nil_iff : g.unknownEnds k = [] ↔ g.joins k = true := by
  rw [joins_iff, List.eq_nil_iff_forall_not_mem]
  simp only [mem_unknownEnds]
  constructor
  · intro h
    refine ⟨?_, ?_⟩
    · by_contra hsource
      exact h k.source ⟨.inl rfl, hsource⟩
    · by_contra htarget
      exact h k.target ⟨.inr rfl, htarget⟩
  · rintro ⟨hsource, htarget⟩ id ⟨rfl | rfl, hid⟩
    · exact hid hsource
    · exact hid htarget

theorem mem_danglingErrors {e : Refusal} :
    e ∈ g.danglingErrors ↔
      ∃ k ∈ g.connections, g.joins k = false ∧ e = .dangling k.id (g.unknownEnds k) := by
  have hdangling (k : Connection) : (!(g.unknownEnds k).isEmpty) = true ↔ g.joins k = false := by
    rw [Bool.not_eq_true', Bool.eq_false_iff, Ne, List.isEmpty_iff, unknownEnds_eq_nil_iff,
      Bool.not_eq_true]
  simp only [danglingErrors, List.mem_map, List.mem_filter, hdangling, and_assoc, eq_comm]

theorem danglingErrors_eq_nil_iff :
    g.danglingErrors = [] ↔ ∀ k ∈ g.connections, g.joins k = true := by
  rw [List.eq_nil_iff_forall_not_mem]
  constructor
  · intro h k hk
    by_contra hjoins
    exact h _ (mem_danglingErrors.mpr ⟨k, hk, by simpa using hjoins, rfl⟩)
  · intro h e he
    obtain ⟨k, hk, hjoins, -⟩ := mem_danglingErrors.mp he
    rw [h k hk] at hjoins
    cases hjoins

/-- No structural error is found exactly in valid graphs. -/
theorem structureErrors_eq_nil_iff : g.structureErrors = [] ↔ g.IsValid := by
  rw [structureErrors, List.append_eq_nil_iff, List.append_eq_nil_iff, List.map_eq_nil_iff,
    nodeErrors_eq_nil_iff, danglingErrors_eq_nil_iff, Cycle.cycles_eq_nil_iff]
  constructor
  · rintro ⟨⟨⟨hnonempty, hnodup⟩, hjoins⟩, hacyclic⟩
    exact ⟨hnonempty, hnodup, fun k hk => joins_iff.mp (hjoins k hk), hacyclic⟩
  · rintro ⟨hnonempty, hnodup, hends, hacyclic⟩
    exact ⟨⟨⟨hnonempty, hnodup⟩, fun k hk => joins_iff.mpr (hends k hk)⟩, hacyclic⟩

end Graph

-- ============================================================================
-- One refusal for several errors
-- ============================================================================

namespace Refusal

variable {es : List Refusal}

theorem mem_allNodeIds : id ∈ allNodeIds es ↔ ∃ e ∈ es, id ∈ e.nodeIds := by
  induction es with
  | nil => simp [allNodeIds]
  | cons e es ih => simp [allNodeIds, ih]

theorem mem_allConnectionIds : id ∈ allConnectionIds es ↔ ∃ e ∈ es, id ∈ e.connectionIds := by
  induction es with
  | nil => simp [allConnectionIds]
  | cons e es ih => simp [allConnectionIds, ih]

end Refusal

namespace Report

variable {report : Report} {refusal : Refusal}

/-- The refusal of a report is its only error, or all of its errors folded into one. -/
theorem refusal?_eq_some_iff :
    report.refusal? = some refusal ↔ report.errors = [refusal] ∨
      1 < report.errors.length ∧ refusal = .aggregate report.errors := by
  unfold refusal?
  split
  · next h => simp [h]
  · next e h => simp [h]
  · next hnil hone =>
    have hlen : 1 < report.errors.length := by
      match herrors : report.errors with
      | [] => exact absurd herrors hnil
      | [e] => exact absurd herrors (hone e)
      | e :: e' :: es => simp
    have hmany : report.errors ≠ [refusal] := hone refusal
    simp [hmany, hlen, eq_comm]

theorem refusal?_eq_none_iff : report.refusal? = none ↔ report.errors = [] := by
  unfold refusal?
  split
  · next h => simp [h]
  · next h => simp [h]
  · next hnil _ => simp [show report.errors ≠ [] from hnil]

theorem refusal?_eq_none_of_isValid (h : report.isValid = true) : report.refusal? = none :=
  refusal?_eq_none_iff.mpr (List.isEmpty_iff.mp h)

theorem exists_refusal? (h : report.isValid = false) :
    ∃ refusal, report.refusal? = some refusal := by
  cases hrefusal : report.refusal? with
  | some refusal => exact ⟨refusal, rfl⟩
  | none =>
      rw [isValid, refusal?_eq_none_iff.mp hrefusal] at h
      cases h

theorem mem_nodeIds_of_refusal? (h : report.refusal? = some refusal) :
    id ∈ refusal.nodeIds ↔ ∃ e ∈ report.errors, id ∈ e.nodeIds := by
  rcases refusal?_eq_some_iff.mp h with hone | ⟨-, rfl⟩
  · simp [hone]
  · rw [Refusal.nodeIds, Text.mem_distinct, Refusal.mem_allNodeIds]

theorem mem_connectionIds_of_refusal? (h : report.refusal? = some refusal) :
    id ∈ refusal.connectionIds ↔ ∃ e ∈ report.errors, id ∈ e.connectionIds := by
  rcases refusal?_eq_some_iff.mp h with hone | ⟨-, rfl⟩
  · simp [hone]
  · rw [Refusal.connectionIds, Text.mem_distinct, Refusal.mem_allConnectionIds]

/-- Several errors point at each node and at each connection once. -/
theorem nodup_of_refusal? (h : report.refusal? = some refusal) (hlen : 1 < report.errors.length) :
    refusal.nodeIds.Nodup ∧ refusal.connectionIds.Nodup := by
  rcases refusal?_eq_some_iff.mp h with hone | ⟨-, rfl⟩
  · rw [hone] at hlen
    exact absurd hlen (by simp)
  · rw [Refusal.nodeIds, Refusal.connectionIds]
    exact ⟨Text.nodup_distinct _, Text.nodup_distinct _⟩

end Report

-- ============================================================================
-- What errors point at
-- ============================================================================

/-- The nodes a refusal points at are the ids that several nodes have, the unknown ends of
connections and the members of the reported cycles; the connections it points at are those with
unknown ends and those of the reported cycles. -/
structure Refusal.PointsAt (refusal : Refusal) (g : Graph) : Prop where
  nodes : ∀ id, id ∈ refusal.nodeIds ↔
    1 < g.nodeIds.count id ∨
      (∃ k ∈ g.connections, (id = k.source ∨ id = k.target) ∧ id ∉ g.nodeIds) ∨
      ∃ c ∈ g.cycles, id ∈ c.members
  connections : ∀ id, id ∈ refusal.connectionIds ↔
    (∃ k ∈ g.connections, k.id = id ∧ (k.source ∉ g.nodeIds ∨ k.target ∉ g.nodeIds)) ∨
      ∃ c ∈ g.cycles, id ∈ c.connections

namespace Graph

theorem exists_nodeIds_nodeErrors :
    (∃ e ∈ g.nodeErrors, id ∈ e.nodeIds) ↔ 1 < g.nodeIds.count id := by
  rw [← mem_duplicateIds, nodeErrors]
  split
  · next hnodes =>
    have hnone : g.duplicateIds = [] := by
      rw [duplicateIds_eq_nil_iff, nodeIds, List.isEmpty_iff.mp hnodes]
      exact List.nodup_nil
    simp [hnone, Refusal.nodeIds]
  · split
    · next hduplicates => simp [List.isEmpty_iff.mp hduplicates]
    · simp [Refusal.nodeIds]

theorem connectionIds_of_mem_nodeErrors {e : Refusal} (he : e ∈ g.nodeErrors) :
    e.connectionIds = [] := by
  unfold nodeErrors at he
  split at he
  · rw [List.mem_singleton.mp he, Refusal.connectionIds]
    all_goals simp
  · split at he
    · cases he
    · rw [List.mem_singleton.mp he, Refusal.connectionIds]
      all_goals simp

theorem exists_nodeIds_danglingErrors :
    (∃ e ∈ g.danglingErrors, id ∈ e.nodeIds) ↔
      ∃ k ∈ g.connections, (id = k.source ∨ id = k.target) ∧ id ∉ g.nodeIds := by
  constructor
  · rintro ⟨e, he, hid⟩
    obtain ⟨k, hk, -, rfl⟩ := mem_danglingErrors.mp he
    rw [Refusal.nodeIds] at hid
    exact ⟨k, hk, mem_unknownEnds.mp hid⟩
  · rintro ⟨k, hk, hid⟩
    have hmem : id ∈ g.unknownEnds k := mem_unknownEnds.mpr hid
    have hjoins : g.joins k = false := by
      rw [Bool.eq_false_iff, Ne, ← unknownEnds_eq_nil_iff]
      exact List.ne_nil_of_mem hmem
    refine ⟨_, mem_danglingErrors.mpr ⟨k, hk, hjoins, rfl⟩, ?_⟩
    rw [Refusal.nodeIds]
    exact hmem

theorem exists_connectionIds_danglingErrors :
    (∃ e ∈ g.danglingErrors, id ∈ e.connectionIds) ↔
      ∃ k ∈ g.connections, k.id = id ∧ (k.source ∉ g.nodeIds ∨ k.target ∉ g.nodeIds) := by
  have hjoins (k : Connection) :
      g.joins k = false ↔ k.source ∉ g.nodeIds ∨ k.target ∉ g.nodeIds := by
    rw [Bool.eq_false_iff, Ne, joins_iff, not_and_or]
  constructor
  · rintro ⟨e, he, hid⟩
    obtain ⟨k, hk, hdangling, rfl⟩ := mem_danglingErrors.mp he
    rw [Refusal.connectionIds, List.mem_singleton] at hid
    exact ⟨k, hk, hid.symm, (hjoins k).mp hdangling⟩
  · rintro ⟨k, hk, rfl, hends⟩
    refine ⟨_, mem_danglingErrors.mpr ⟨k, hk, (hjoins k).mpr hends, rfl⟩, ?_⟩
    rw [Refusal.connectionIds]
    exact List.mem_singleton_self _

/-- The refusal of a graph with errors points at the causes of all of them. -/
theorem pointsAt_of_refusal? {r : Registry} {refusal : Refusal}
    (h : (r.check g).refusal? = some refusal) : refusal.PointsAt g := by
  have herrors : (r.check g).errors = g.structureErrors := rfl
  constructor
  case nodes =>
    intro id
    rw [Report.mem_nodeIds_of_refusal? h, herrors, ← exists_nodeIds_nodeErrors,
      ← exists_nodeIds_danglingErrors]
    simp only [structureErrors, List.mem_append, List.mem_map, or_and_right, exists_or, or_assoc,
      exists_exists_and_eq_and, Refusal.nodeIds]
  case connections =>
    intro id
    rw [Report.mem_connectionIds_of_refusal? h, herrors, ← exists_connectionIds_danglingErrors]
    have hnodes : ¬ ∃ e ∈ g.nodeErrors, id ∈ e.connectionIds := by
      rintro ⟨e, he, hid⟩
      rw [connectionIds_of_mem_nodeErrors he] at hid
      cases hid
    simp only [structureErrors, List.mem_append, List.mem_map, or_and_right, exists_or, or_assoc,
      exists_exists_and_eq_and, Refusal.connectionIds, hnodes, false_or]

end Graph

-- ============================================================================
-- Valid or refused
-- ============================================================================

/-- A graph is found valid exactly if it is; otherwise there is one refusal, which points at every
repeated id, every unknown end and every member of a reported cycle, and at every connection with
an unknown end, and at nothing twice if it stands for several errors. -/
theorem valid_or_refused (r : Registry) (g : Graph) :
    ((r.check g).isValid = true ↔ g.IsValid) ∧
      ((r.check g).isValid = false → ∃ refusal, (r.check g).refusal? = some refusal ∧
        refusal.PointsAt g ∧ (1 < (r.check g).errors.length →
          refusal.nodeIds.Nodup ∧ refusal.connectionIds.Nodup)) := by
  constructor
  · rw [← Graph.structureErrors_eq_nil_iff]
    exact List.isEmpty_iff
  · intro hinvalid
    obtain ⟨refusal, hrefusal⟩ := Report.exists_refusal? hinvalid
    exact ⟨refusal, hrefusal, Graph.pointsAt_of_refusal? hrefusal, Report.nodup_of_refusal? hrefusal⟩

/-- Two chains under one id, which wait for a model that waits for them, and a connection from
nowhere to nowhere. -/
def Graph.wrecked : Graph :=
  { nodes := [
      { id := "chain", type := "llmChain" }, { id := "model", type := "openAI" },
      { id := "chain", type := "llmChain" }]
    connections := [
      { id := "e1", source := "model", target := "chain" },
      { id := "e2", source := "chain", target := "model" },
      { id := "e3", source := "ghost", target := "ghost" }] }

/-- Each of its three errors is found in the one refusal. -/
theorem wrecked_refused :
    ¬ Graph.wrecked.IsValid ∧
      ∃ refusal, (Registry.standard.check Graph.wrecked).refusal? = some refusal ∧
        "chain" ∈ refusal.nodeIds ∧ "model" ∈ refusal.nodeIds ∧ "ghost" ∈ refusal.nodeIds ∧
        "e3" ∈ refusal.connectionIds ∧ refusal.nodeIds.Nodup ∧ refusal.connectionIds.Nodup := by
  obtain ⟨hvalid, hrefused⟩ := valid_or_refused Registry.standard Graph.wrecked
  have hinvalid : (Registry.standard.check Graph.wrecked).isValid = false := rfl
  have hcycles : Graph.wrecked.cycles = [⟨["chain", "model"], ["e2", "e1"]⟩] := rfl
  obtain ⟨refusal, hrefusal, hpoints, hnodup⟩ := hrefused hinvalid
  refine ⟨fun h => ?_, refusal, hrefusal, ?_, ?_, ?_, ?_, hnodup (by decide)⟩
  · rw [hvalid.mpr h] at hinvalid
    cases hinvalid
  · exact (hpoints.nodes "chain").mpr (.inl (by decide))
  · exact (hpoints.nodes "model").mpr (.inr (.inr
      ⟨⟨["chain", "model"], ["e2", "e1"]⟩, by rw [hcycles]; simp, by simp⟩))
  · exact (hpoints.nodes "ghost").mpr (.inr (.inl
      ⟨{ id := "e3", source := "ghost", target := "ghost" }, by decide, by decide⟩))
  · exact (hpoints.connections "e3").mpr (.inl
      ⟨{ id := "e3", source := "ghost", target := "ghost" }, by decide, by decide⟩)

end Flowscript

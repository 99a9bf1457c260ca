/-
  Flowscript.Proofs.UniqueNames

  The variables of a graph's nodes are different and well formed, and nodes that are added
  at the end rename none of the others.

  Names are handed out in the order of the nodes and depend on the names before them only,
  so the names of the first nodes are settled before the others are looked at
  (`assignNames_append`).
-/
import Flowscript.Proofs.Precedence
import Flowscript.Proofs.VariableNames

namespace Flowscript

namespace Graph

open Naming (IsVariable)

variable {names : List (String × String)} {taken : List String} {ns xs ys : List Node}
  {a base : String}

theorem isVariable_assignNames (h : ∀ e ∈ names, IsVariable e.2.toList) :
    ∀ e ∈ assignNames names taken ns, IsVariable e.2.toList := by
  induction ns generalizing names taken with
  | nil => exact h
  | cons n ns ih =>
      refine ih fun e he => ?_
      rcases Assoc.eq_or_mem_of_mem_put he with rfl | he
      · exact isVariable_freshName taken (Naming.isVariable_identifier n.caption)
      · exact h e he

/-- Names are given to the ids that have none, each once, in the order of the nodes. -/
theorem map_fst_assignNames (ns : List Node) (names : List (String × String))
    (taken : List String) :
    (assignNames names taken ns).map (·.1) =
      names.map (·.1) ++ Text.distinct ((ns.map (·.id)).filter (· ∉ names.map (·.1))) := by
  induction ns generalizing names taken with
  | nil => simp [assignNames, Text.distinct]
  | cons n ns ih =>
      rw [assignNames, ih, Assoc.map_fst_put]
      by_cases hid : n.id ∈ names.map (·.1)
      · rw [if_pos hid, List.map_cons, List.filter_cons_of_neg (by simpa using hid)]
      · rw [if_neg hid, List.map_cons, Text.distinct_fresh_cons hid, List.append_assoc]
        have htaken : ∀ id ∈ ns.map (·.id),
            decide (id ∉ names.map (·.1) ++ [n.id]) = decide (id ∉ n.id :: names.map (·.1)) := by
          intro id _
          refine decide_eq_decide.mpr (not_congr ?_)
          rw [List.mem_append, List.mem_singleton, List.mem_cons, or_comm]
        rw [List.filter_congr htaken]
        rfl

theorem map_fst_varNames (g : Graph) : g.varNames.map (·.1) = g.distinctIds := by
  rw [varNames, map_fst_assignNames]
  simp [distinctIds, nodeIds]

theorem nodup_map_fst_varNames (g : Graph) : (g.varNames.map (·.1)).Nodup := by
  rw [map_fst_varNames]
  exact g.nodup_distinctIds

/-- Different ids have different names. -/
theorem nodup_map_snd_varNames (g : Graph) : (g.varNames.map (·.2)).Nodup := by
  obtain ⟨taken, hnames⟩ := namesOf_varNames g
  have hkeys := g.nodup_map_fst_varNames
  refine (List.Nodup.of_map _ hkeys).map_on ?_
  rintro ⟨a, v⟩ ha ⟨b, w⟩ hb rfl
  have hget : ∀ {k}, (k, v) ∈ g.varNames → Assoc.get? g.varNames k = some v := fun hk =>
    (Assoc.get?_eq_some_iff hkeys).mpr hk
  rw [hnames.injective (hget ha) (hget hb)]

/-- The names of the first nodes are given before the other nodes are looked at. -/
theorem assignNames_append (xs ys : List Node) (names : List (String × String))
    (taken : List String) :
    ∃ taken', assignNames names taken (xs ++ ys) =
      assignNames (assignNames names taken xs) taken' ys := by
  induction xs generalizing names taken with
  | nil => exact ⟨taken, rfl⟩
  | cons n xs ih => exact ih _ _

/-- Naming nodes leaves the names of other ids as they are. -/
theorem get?_assignNames_of_not_mem (h : a ∉ ns.map (·.id)) :
    Assoc.get? (assignNames names taken ns) a = Assoc.get? names a := by
  induction ns generalizing names taken with
  | nil => rfl
  | cons n ns ih =>
      rw [List.map_cons, List.mem_cons, not_or] at h
      rw [assignNames, ih h.2, Assoc.get?_put, if_neg h.1]

/-- The names of a graph are one for each id, all different, each a variable that no generated
module forbids; and an id keeps its name when nodes of other ids are added at the end. -/
theorem varNames_unique (g : Graph) :
    g.varNames.map (·.1) = g.distinctIds ∧ (g.varNames.map (·.2)).Nodup ∧
      (∀ v ∈ g.varNames.map (·.2), IsVariable v.toList ∧ v ∉ Naming.forbiddenNames) ∧
      ∀ xs ys, g.nodes = xs ++ ys → ∀ id ∈ xs.map (·.id), id ∉ ys.map (·.id) →
        ∃ v, Assoc.get? ({ g with nodes := xs } : Graph).varNames id = some v ∧
          Assoc.get? g.varNames id = some v := by
  refine ⟨map_fst_varNames g, nodup_map_snd_varNames g, fun v hv => ?_, ?_⟩
  · obtain ⟨⟨id, v⟩, hentry, rfl⟩ := List.mem_map.mp hv
    obtain ⟨taken, hnames⟩ := namesOf_varNames g
    have hget := (Assoc.get?_eq_some_iff g.nodup_map_fst_varNames).mpr hentry
    exact ⟨isVariable_assignNames (by simp) _ hentry, hnames.free hget⟩
  · intro xs ys hsplit id hid hnot
    obtain ⟨v, hv⟩ : ∃ v, Assoc.get? ({ g with nodes := xs } : Graph).varNames id = some v :=
      exists_varName hid
    obtain ⟨taken, happend⟩ := assignNames_append xs ys [] Naming.forbiddenNames
    refine ⟨v, hv, ?_⟩
    rw [varNames, hsplit, happend, get?_assignNames_of_not_mem hnot]
    exact hv

/-- A reserved label twice, one that is its candidate, one that starts with a digit and one that
is not of ASCII; and an id that is used twice. -/
def crowded : Graph :=
  { nodes := [
      { id := "a", type := "llm", label := "Main" },
      { id := "b", type := "llm", label := "main 2" },
      { id := "c", type := "llm", label := "3 Étapes" },
      { id := "d", type := "llm", label := "İ" },
      { id := "c", type := "llm", label := "MAIN" }] }

/-- The id that is used twice is renamed, the others are not. -/
theorem crowded_varNames :
    crowded.varNames = [("a", "main_2"), ("b", "main_2_2"), ("c", "main_3"), ("d", "i")] ∧
    (crowded.varNames.map (·.2)).Nodup ∧
    (∀ v ∈ crowded.varNames.map (·.2), IsVariable v.toList ∧ v ∉ Naming.forbiddenNames) ∧
    ∀ id ∈ ["a", "b"], ∃ v,
      Assoc.get? ({ crowded with nodes := crowded.nodes.take 3 } : Graph).varNames id = some v ∧
        Assoc.get? crowded.varNames id = some v := by
  obtain ⟨-, hnodup, hshape, hkept⟩ := varNames_unique crowded
  refine ⟨by decide +kernel, hnodup, hshape, fun id hid => ?_⟩
  have hfirst : ∀ id ∈ ["a", "b"], id ∈ (crowded.nodes.take 3).map (·.id) ∧
      id ∉ (crowded.nodes.drop 3).map (·.id) := by decide
  have hsplit := (List.take_append_drop 3 crowded.nodes).symm
  exact hkept _ _ hsplit id (hfirst id hid).1 (hfirst id hid).2

end Graph

end Flowscript

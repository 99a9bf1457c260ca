/-
  Flowscript.Proofs.VariableNames

  The variables of nodes, and the inputs they are wired to.

  Names are handed out one after another, each of them new: `NamesOf` is what holds of
  the names given so far, one more name keeps it, and so it holds of the names of a
  graph.  A node's inputs hold the variables of the sources of its connections and
  nothing else.
-/
import Flowscript.Proofs.Identifiers
import Flowscript.Workflow.Graph
import Mathlib.Data.List.Nodup
import Mathlib.Data.List.Perm.Subperm
import Mathlib.Data.List.Range

namespace Flowscript

-- ============================================================================
-- New names
-- ============================================================================

namespace Graph

open Naming (IsName IsVariable)

variable {names : List (String × String)} {taken : List String} {a b v base : String}

theorem numbered_injective (base : String) : Function.Injective (numbered base) := by
  intro i j h
  have hdigits : Nat.toDigits 10 i = Nat.toDigits 10 j := by
    have hchars := congrArg String.toList h
    simpa [numbered, Text.ofNat, Text.natDigits] using hchars
  have hvalue := congrArg (fun ds => Nat.ofDigitChars 10 ds 0) hdigits
  simpa using hvalue

/-- The candidates are more than the names that are taken, so one of them is free. -/
theorem freshName_not_mem (taken : List String) (base : String) : freshName taken base ∉ taken := by
  unfold freshName
  split
  · next hfree => exact hfree
  · split
    · next n hn => simpa using List.find?_some hn
    · next hnone =>
      exfalso
      have hall : (List.range (taken.length + 1)).map (fun n => numbered base (n + 2)) ⊆ taken := by
        intro x hx
        obtain ⟨n, hn, rfl⟩ := List.mem_map.mp hx
        simpa using List.find?_eq_none.mp hnone n hn
      have hnodup : ((List.range (taken.length + 1)).map fun n => numbered base (n + 2)).Nodup :=
        List.nodup_range.map fun i j h => by simpa using numbered_injective base h
      have hlen := (List.Nodup.subperm hnodup hall).length_le
      rw [List.length_map, List.length_range] at hlen
      omega

/-- A new name is the wished one or one of its candidates. -/
theorem freshName_cases (taken : List String) (base : String) :
    freshName taken base = base ∨ ∃ n, freshName taken base = numbered base n := by
  unfold freshName
  split
  · exact .inl rfl
  · split
    · next n _ => exact .inr ⟨n + 2, rfl⟩
    · exact .inl rfl

theorem toList_numbered (base : String) (n : Nat) :
    (numbered base n).toList = base.toList ++ '_' :: Nat.toDigits 10 n := by
  simp [numbered, Text.ofNat, Text.natDigits]

theorem isVariable_freshName (taken : List String) (h : IsVariable base.toList) :
    IsVariable (freshName taken base).toList := by
  rcases freshName_cases taken base with hbase | ⟨n, hn⟩
  · rwa [hbase]
  · rw [hn, toList_numbered]
    refine h.append fun c hc => ?_
    rcases List.mem_cons.mp hc with rfl | hc
    · rfl
    · have hdigit := Nat.isDigit_of_mem_toDigits (b := 10) (by decide) (by decide) hc
      simp [Naming.isVariablePart, hdigit]

/-- The names given so far: well formed, not forbidden, one for each id, and all of them taken. -/
structure NamesOf (names : List (String × String)) (taken : List String) : Prop where
  forbidden : ∀ x ∈ Naming.forbiddenNames, x ∈ taken
  taken : ∀ {id v}, Assoc.get? names id = some v → v ∈ taken
  free : ∀ {id v}, Assoc.get? names id = some v → v ∉ Naming.forbiddenNames
  isName : ∀ {id v}, Assoc.get? names id = some v → IsName v.toList
  injective : ∀ {a b v}, Assoc.get? names a = some v → Assoc.get? names b = some v → a = b

/-- One more name, which is not taken. -/
theorem NamesOf.put (h : NamesOf names taken) (hv : v ∉ taken) (hname : IsName v.toList)
    (id : String) : NamesOf (Assoc.put id v names) (v :: taken) := by
  have hget : ∀ {a w}, Assoc.get? (Assoc.put id v names) a = some w →
      (a = id ∧ w = v) ∨ (a ≠ id ∧ Assoc.get? names a = some w) := by
    intro a w hw
    rw [Assoc.get?_put] at hw
    split at hw
    · next ha => exact .inl ⟨ha, (Option.some.inj hw).symm⟩
    · next ha => exact .inr ⟨ha, hw⟩
  constructor
  case forbidden => exact fun x hx => List.mem_cons_of_mem _ (h.forbidden x hx)
  case taken =>
    intro a w hw
    rcases hget hw with ⟨-, rfl⟩ | ⟨-, hw⟩
    · exact List.mem_cons_self
    · exact List.mem_cons_of_mem _ (h.taken hw)
  case free =>
    intro a w hw
    rcases hget hw with ⟨-, rfl⟩ | ⟨-, hw⟩
    · exact fun hforbidden => hv (h.forbidden _ hforbidden)
    · exact h.free hw
  case isName =>
    intro a w hw
    rcases hget hw with ⟨-, rfl⟩ | ⟨-, hw⟩
    · exact hname
    · exact h.isName hw
  case injective =>
    intro a b w ha hb
    rcases hget ha with ⟨rfl, rfl⟩ | ⟨-, hold⟩
    · rcases hget hb with ⟨rfl, -⟩ | ⟨-, hold⟩
      · rfl
      · exact absurd (h.taken hold) hv
    · rcases hget hb with ⟨-, rfl⟩ | ⟨-, hold'⟩
      · exact absurd (h.taken hold) hv
      · exact h.injective hold hold'

theorem NamesOf.assignNames (h : NamesOf names taken) (ns : List Node) :
    ∃ taken', NamesOf (assignNames names taken ns) taken' := by
  induction ns generalizing names taken with
  | nil => exact ⟨taken, h⟩
  | cons n ns ih =>
      have hname := isVariable_freshName taken (Naming.isVariable_identifier n.caption)
      exact ih (h.put (freshName_not_mem _ _) hname.isName n.id)

theorem namesOf_varNames (g : Graph) : ∃ taken, NamesOf g.varNames taken := by
  refine NamesOf.assignNames ?_ g.nodes
  exact ⟨fun _ hx => hx, by simp, by simp, by simp, by simp⟩

/-- Nodes that are named later leave no id without a name. -/
theorem isSome_get?_assignNames (ns : List Node)
    (h : (Assoc.get? names a).isSome ∨ a ∈ ns.map (·.id)) :
    (Assoc.get? (assignNames names taken ns) a).isSome := by
  induction ns generalizing names taken with
  | nil => simpa [assignNames] using h
  | cons n ns ih =>
      rw [assignNames]
      refine ih ?_
      rw [Assoc.get?_put]
      split
      · exact .inl rfl
      · next ha =>
        rcases h with h | h
        · exact .inl h
        · exact .inr ((List.mem_cons.mp h).resolve_left ha)

theorem exists_varName {g : Graph} (h : a ∈ g.nodeIds) : ∃ v, Assoc.get? g.varNames a = some v :=
  Option.isSome_iff_exists.mp (isSome_get?_assignNames g.nodes (.inr h))

-- ============================================================================
-- Wiring
-- ============================================================================

/-- The variables of an input. -/
def wiredTo (inputs : List (String × List String)) (input : String) : List String :=
  (Assoc.get? inputs input).getD []

theorem wiredTo_wire {input var i : String} {inputs : List (String × List String)} :
    wiredTo (wire input var inputs) i =
      if i = input then
        if var ∈ wiredTo inputs i then wiredTo inputs i else wiredTo inputs i ++ [var]
      else wiredTo inputs i := by
  rw [wire, wiredTo, Assoc.get?_put]
  by_cases hi : i = input
  · rw [if_pos hi, if_pos hi, ← hi]
    rfl
  · rw [if_neg hi, if_neg hi]
    rfl

theorem mem_wiredTo_wire {input var i : String} {inputs : List (String × List String)} :
    v ∈ wiredTo (wire input var inputs) i ↔ (i = input ∧ v = var) ∨ v ∈ wiredTo inputs i := by
  rw [wiredTo_wire]
  split
  · next hi =>
    split
    · next hmem =>
      refine ⟨.inr, ?_⟩
      rintro (⟨-, rfl⟩ | hv)
      · exact hmem
      · exact hv
    · simp [hi, or_comm]
  · next hi => simp [hi]

/-- The last connection is wired to what the ones before it made. -/
theorem wireAll_concat (names : List (String × String)) (cs : List Connection) (k : Connection) :
    wireAll names (cs ++ [k]) =
      match Assoc.get? names k.source with
      | some v => wire k.inputName v (wireAll names cs)
      | none => wireAll names cs := by
  rw [wireAll, List.foldl_append]
  rfl

/-- An input holds the variables of the sources of its connections. -/
theorem mem_wiredTo_wireAll {cs : List Connection} {i : String} :
    v ∈ wiredTo (wireAll names cs) i ↔
      ∃ k ∈ cs, k.inputName = i ∧ Assoc.get? names k.source = some v := by
  induction cs using List.reverseRecOn with
  | nil => simp [wireAll, wiredTo]
  | append_singleton cs k ih =>
      rw [wireAll_concat]
      cases hk : Assoc.get? names k.source with
      | none => simp [ih, hk, or_and_right, exists_or]
      | some w =>
          simp only [mem_wiredTo_wire, ih, List.mem_append, List.mem_singleton, or_and_right,
            exists_or, exists_eq_left, hk, Option.some.injEq]
          rw [or_comm, eq_comm (a := i), eq_comm (a := v)]

/-- The first variable of an input of a bound node is that of the source of a connection. -/
theorem exists_connection_of_input? {g : Graph} {n : Node} {i : String}
    (h : (g.bind n names).input? i = some v) :
    ∃ k ∈ g.connections, k.target = n.id ∧ k.inputName = i ∧
      Assoc.get? names k.source = some v := by
  obtain ⟨vs, hvs, hv⟩ := Option.bind_eq_some_iff.mp h
  have hmem : v ∈ wiredTo (wireAll names (g.incoming n.id)) i := by
    rw [wiredTo, show Assoc.get? (wireAll names (g.incoming n.id)) i = some vs from hvs]
    exact List.mem_of_head? hv
  obtain ⟨k, hk, hinput, hsource⟩ := mem_wiredTo_wireAll.mp hmem
  obtain ⟨hk, htarget⟩ := List.mem_filter.mp hk
  exact ⟨k, hk, by simpa using htarget, hinput, hsource⟩

end Graph

end Flowscript

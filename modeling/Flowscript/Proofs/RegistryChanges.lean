/-
  Flowscript.Proofs.RegistryChanges

  What calls do to a registry, whether they are carried out or refused.

  The changes that write in place come to the same end as `Registry.add`,
  `Registry.addAlias` and `Registry.remove`, so a refused one has written nothing.  Every
  registry that calls lead to is `Consistent`: its tables hold each name once, and its
  aliases stand for registered types.  Hence taking a type out undoes adding its
  converter, since no alias stood for the type before.
-/
import Flowscript.Converter.Change

namespace Flowscript

variable {r r' : Registry} {c : Converter} {name target type : String}

-- ============================================================================
-- Registered types and free names
-- ============================================================================

namespace Registry

theorem hasType_iff : r.hasType type = true ↔ type ∈ r.converters.map (·.1) := by
  simp [hasType]

theorem hasType_eq_isSome (r : Registry) (type : String) :
    r.hasType type = (Assoc.get? r.converters type).isSome := by
  rw [Bool.eq_iff_iff, hasType_iff, Option.isSome_iff_ne_none, ne_eq, Assoc.get?_eq_none_iff,
    Decidable.not_not]

theorem hasType_eq_false_iff : r.hasType type = false ↔ Assoc.get? r.converters type = none := by
  rw [hasType_eq_isSome, Option.isSome_eq_false_iff, Option.isNone_iff_eq_none]

/-- A name that is neither a type nor an alias. -/
def IsFree (r : Registry) (name : String) : Prop :=
  r.hasType name = false ∧ Assoc.get? r.aliases name = none

theorem isFree_iff :
    r.IsFree name ↔ ¬(r.hasType name || (Assoc.get? r.aliases name).isSome) = true := by
  simp [IsFree]

theorem addAliases_cons_of_isFree (h : r.IsFree name) (type : String) (names : List String) :
    r.addAliases type (name :: names) =
      { r with aliases := r.aliases ++ [(name, type)] }.addAliases type names := by
  rw [addAliases, List.foldl_cons, if_neg (isFree_iff.mp h)]
  rfl

theorem addAliases_cons_of_not_isFree (h : ¬r.IsFree name) (type : String) (names : List String) :
    r.addAliases type (name :: names) = r.addAliases type names := by
  rw [isFree_iff, Decidable.not_not] at h
  rw [addAliases, List.foldl_cons, if_pos h]
  rfl

/-- Each of the names offered as aliases that is free becomes one, once. -/
theorem exists_fresh (r : Registry) (type : String) (names : List String) :
    ∃ fresh : List String,
      r.addAliases type names = { r with aliases := r.aliases ++ fresh.map fun n => (n, type) } ∧
      fresh.Nodup ∧ ∀ n ∈ fresh, r.IsFree n := by
  induction names generalizing r with
  | nil => exact ⟨[], by simp [addAliases], List.nodup_nil, by simp⟩
  | cons n names ih =>
      by_cases hfree : r.IsFree n
      · -- what is free once the name is an alias was free before, and is another name
        obtain ⟨fresh, heq, hnodup, hfresh⟩ := ih { r with aliases := r.aliases ++ [(n, type)] }
        have hother : ∀ m ∈ fresh, m ≠ n ∧ r.IsFree m := by
          intro m hm
          obtain ⟨htype, hname⟩ := hfresh m hm
          rw [Assoc.get?_eq_none_iff, List.map_append, List.mem_append, not_or] at hname
          exact ⟨by simpa using hname.2, htype, Assoc.get?_eq_none_iff.mpr hname.1⟩
        refine ⟨n :: fresh, ?_, ?_, ?_⟩
        · rw [addAliases_cons_of_isFree hfree, heq]
          simp
        · exact List.nodup_cons.mpr ⟨fun hn => (hother n hn).1 rfl, hnodup⟩
        · intro m hm
          rcases List.mem_cons.mp hm with rfl | hm
          · exact hfree
          · exact (hother m hm).2
      · rw [addAliases_cons_of_not_isFree hfree]
        exact ih r

-- ============================================================================
-- What each change comes to
-- ============================================================================

/-- A converter is added if it has a type that is new; free names become aliases of the type. -/
theorem exists_of_add (h : r.add c = .ok r') :
    c.nodeType ≠ "" ∧ r.hasType c.nodeType = false ∧ ∃ fresh : List String, fresh.Nodup ∧
      (∀ n ∈ fresh, r.IsFree n ∧ n ≠ c.nodeType) ∧
      r' = { converters := r.converters ++ [(c.nodeType, c)]
             aliases := r.aliases ++ fresh.map fun n => (n, c.nodeType) } := by
  unfold add at h
  split at h
  · cases h
  · next htyped =>
    split at h
    · cases h
    · next hnew =>
      obtain ⟨fresh, heq, hnodup, hfresh⟩ :=
        exists_fresh { r with converters := r.converters ++ [(c.nodeType, c)] } c.nodeType c.aliases
      refine ⟨htyped, by simpa using hnew, fresh, hnodup, fun n hn => ?_, ?_⟩
      · obtain ⟨htype, hname⟩ := hfresh n hn
        have hne : r.hasType n = false ∧ c.nodeType ≠ n := by simpa [hasType] using htype
        exact ⟨⟨hne.1, hname⟩, hne.2.symm⟩
      · rw [heq] at h
        exact (Except.ok.inj h).symm

theorem addAlias_eq_ok_iff : r.addAlias name target = .ok r' ↔
    r.hasType target = true ∧ r.hasType name = false ∧
      r' = { r with aliases := Assoc.put name target r.aliases } := by
  unfold addAlias
  cases r.hasType target <;> cases r.hasType name <;> simp [eq_comm]

theorem remove_of_hasType (h : r.hasType type = true) : r.remove type =
    ({ converters := r.converters.filter (·.1 ≠ type)
       aliases := r.aliases.filter (·.2 ≠ type) }, true) := by
  rw [remove, if_pos h]

theorem remove_of_not_hasType (h : r.hasType type = false) : r.remove type = (r, false) := by
  rw [remove, if_neg (by simp [h])]

end Registry

-- ============================================================================
-- Changes in place
-- ============================================================================

namespace RegistryChange

open Registry

/-- How a change ends that comes to a new registry, or is refused before it has written anything. -/
def ending (r : Registry) : Except Refusal Registry → EStateM.Result Refusal Registry Unit
  | .ok r' => .ok () r'
  | .error e => .error e r

theorem ending_eq_ok_iff {o : Except Refusal Registry} : ending r o = .ok () r' ↔ o = .ok r' := by
  cases o <;> simp [ending]

theorem eq_of_ending_eq_error {o : Except Refusal Registry} {e : Refusal}
    (h : ending r o = .error e r') : r' = r := by
  cases o with
  | ok r'' => cases h
  | error e' =>
      cases h
      rfl

theorem run_offers (type : String) (names : List String) (r : Registry) :
    (forM names (offer type)).run r = .ok () (r.addAliases type names) := by
  induction names generalizing r with
  | nil => rfl
  | cons n names ih =>
      rw [List.forM_cons, EStateM.run_bind]
      by_cases hfree : r.IsFree n
      · have hwrite : (offer type n).run r =
            .ok () { r with aliases := r.aliases ++ [(n, type)] } := by
          simp [offer, hfree.1, hfree.2, Assoc.put_of_get?_eq_none hfree.2]
        rw [hwrite, addAliases_cons_of_isFree hfree]
        exact ih _
      · have hskip : (offer type n).run r = .ok () r := by
          rw [isFree_iff, Decidable.not_not] at hfree
          rw [offer, EStateM.run_bind, EStateM.run_get]
          simp only [hfree, if_true]
          rfl
        rw [hskip, addAliases_cons_of_not_isFree hfree]
        exact ih r

/-- Adding a converter in place ends in the registry that `Registry.add` gives; a refusal leaves
the registry as it was. -/
theorem run_add (c : Converter) (r : Registry) : (add c).run r = ending r (r.add c) := by
  unfold RegistryChange.add Registry.add
  rw [EStateM.run_bind, EStateM.run_get]
  by_cases htyped : c.nodeType = ""
  · simp [htyped, ending]
  · cases hnew : r.hasType c.nodeType with
    | true => simp [htyped, hnew, ending]
    | false =>
        have hput : Assoc.put c.nodeType c r.converters = r.converters ++ [(c.nodeType, c)] :=
          Assoc.put_of_get?_eq_none (hasType_eq_false_iff.mp hnew)
        simp [htyped, hnew, run_offers, hput, ending]

theorem run_addAlias (name target : String) (r : Registry) :
    (addAlias name target).run r = ending r (r.addAlias name target) := by
  unfold RegistryChange.addAlias Registry.addAlias
  rw [EStateM.run_bind, EStateM.run_get]
  cases htarget : r.hasType target with
  | false => simp [htarget, ending]
  | true => cases hname : r.hasType name <;> simp [htarget, hname, ending]

theorem run_remove (type : String) (r : Registry) :
    (remove type).run r = .ok (r.remove type).2 (r.remove type).1 := by
  unfold RegistryChange.remove Registry.remove
  rw [EStateM.run_bind, EStateM.run_get]
  cases h : r.hasType type with
  | false => simp [h]
  | true =>
      simp only [h, if_true, EStateM.run_bind, EStateM.run_modify]
      rfl

end RegistryChange

namespace Registry

theorem afterCall_add (r : Registry) (c : Converter) : r.afterCall (.add c) =
    match r.add c with
    | .ok r' => r'
    | .error _ => r := by
  unfold afterCall
  rw [RegistryCall.change, RegistryChange.run_add]
  cases r.add c <;> rfl

theorem afterCall_addAlias (r : Registry) (name target : String) :
    r.afterCall (.addAlias name target) =
      match r.addAlias name target with
      | .ok r' => r'
      | .error _ => r := by
  unfold afterCall
  rw [RegistryCall.change, RegistryChange.run_addAlias]
  cases r.addAlias name target <;> rfl

theorem afterCall_remove (r : Registry) (type : String) :
    r.afterCall (.remove type) = (r.remove type).1 := by
  unfold afterCall
  rw [RegistryCall.change, EStateM.run_bind, RegistryChange.run_remove]
  rfl

-- ============================================================================
-- Consistent registries
-- ============================================================================

/-- Both tables hold each name once, converters stand under their own types, and aliases stand for
registered types other than themselves. -/
structure Consistent (r : Registry) : Prop where
  types_nodup : (r.converters.map (·.1)).Nodup
  names_nodup : (r.aliases.map (·.1)).Nodup
  own_type : ∀ e ∈ r.converters, e.2.nodeType = e.1
  typed : ∀ e ∈ r.converters, e.1 ≠ ""
  target_registered : ∀ e ∈ r.aliases, r.hasType e.2 = true
  name_ne_target : ∀ e ∈ r.aliases, e.1 ≠ e.2

theorem consistent_empty : empty.Consistent where
  types_nodup := List.nodup_nil
  names_nodup := List.nodup_nil
  own_type := fun _ he => nomatch he
  typed := fun _ he => nomatch he
  target_registered := fun _ he => nomatch he
  name_ne_target := fun _ he => nomatch he

theorem Consistent.add (h : r.Consistent) (hadd : r.add c = .ok r') : r'.Consistent := by
  obtain ⟨htyped, hnew, fresh, hnodup, hfresh, rfl⟩ := exists_of_add hadd
  have hnotMem : c.nodeType ∉ r.converters.map (·.1) := by
    rw [← hasType_iff, hnew]
    exact Bool.false_ne_true
  have hnames : ∀ n ∈ fresh, n ∉ r.aliases.map (·.1) := fun n hn =>
    Assoc.get?_eq_none_iff.mp (hfresh n hn).1.2
  refine ⟨?types, ?names, ?own, ?typed, ?registered, ?other⟩
  case types =>
    rw [List.map_append, List.nodup_append]
    refine ⟨h.types_nodup, by simp, fun a ha b hb => ?_⟩
    rw [List.mem_singleton.mp hb]
    rintro rfl
    exact hnotMem ha
  case names =>
    have hfst : (fresh.map fun n => (n, c.nodeType)).map (·.1) = fresh := by
      rw [List.map_map]
      exact List.map_id fresh
    rw [List.map_append, hfst, List.nodup_append]
    refine ⟨h.names_nodup, hnodup, fun a ha b hb => ?_⟩
    rintro rfl
    exact hnames a hb ha
  case own =>
    intro e he
    rcases List.mem_append.mp he with he | he
    · exact h.own_type e he
    · rw [List.mem_singleton.mp he]
  case typed =>
    intro e he
    rcases List.mem_append.mp he with he | he
    · exact h.typed e he
    · rw [List.mem_singleton.mp he]
      exact htyped
  case registered =>
    intro e he
    rw [hasType_iff, List.map_append, List.mem_append]
    rcases List.mem_append.mp he with he | he
    · exact .inl (hasType_iff.mp (h.target_registered e he))
    · obtain ⟨n, -, rfl⟩ := List.mem_map.mp he
      exact .inr List.mem_cons_self
  case other =>
    intro e he
    rcases List.mem_append.mp he with he | he
    · exact h.name_ne_target e he
    · obtain ⟨n, hn, rfl⟩ := List.mem_map.mp he
      exact (hfresh n hn).2

theorem Consistent.addAlias (h : r.Consistent) (hadd : r.addAlias name target = .ok r') :
    r'.Consistent := by
  obtain ⟨htarget, hname, rfl⟩ := addAlias_eq_ok_iff.mp hadd
  refine ⟨h.types_nodup, Assoc.nodup_put h.names_nodup, h.own_type, h.typed, ?registered, ?other⟩
  case registered =>
    intro e he
    rcases Assoc.eq_or_mem_of_mem_put he with rfl | he
    · exact htarget
    · exact h.target_registered e he
  case other =>
    intro e he
    rcases Assoc.eq_or_mem_of_mem_put he with rfl | he
    · intro heq
      rw [show name = target from heq, htarget] at hname
      cases hname
    · exact h.name_ne_target e he

theorem Consistent.remove (h : r.Consistent) (type : String) : (r.remove type).1.Consistent := by
  cases htype : r.hasType type with
  | false =>
      rw [remove_of_not_hasType htype]
      exact h
  | true =>
      rw [remove_of_hasType htype]
      refine ⟨?types, ?names, ?own, ?typed, ?registered, ?other⟩
      case types => exact h.types_nodup.sublist (List.filter_sublist.map _)
      case names => exact h.names_nodup.sublist (List.filter_sublist.map _)
      case own => exact fun e he => h.own_type e (List.mem_filter.mp he).1
      case typed => exact fun e he => h.typed e (List.mem_filter.mp he).1
      case registered =>
        intro e he
        -- an alias that is kept stands for another type, whose converter is kept as well
        obtain ⟨hmem, hother⟩ := List.mem_filter.mp he
        obtain ⟨entry, hentry, heq⟩ := List.mem_map.mp (hasType_iff.mp (h.target_registered e hmem))
        rw [hasType_iff]
        refine List.mem_map.mpr ⟨entry, List.mem_filter.mpr ⟨hentry, ?_⟩, heq⟩
        rw [heq]
        exact hother
      case other => exact fun e he => h.name_ne_target e (List.mem_filter.mp he).1

theorem Consistent.afterCall (h : r.Consistent) (k : RegistryCall) :
    (r.afterCall k).Consistent := by
  cases k with
  | add c =>
      rw [afterCall_add]
      split
      · next hadd => exact h.add hadd
      · exact h
  | addAlias name target =>
      rw [afterCall_addAlias]
      split
      · next hadd => exact h.addAlias hadd
      · exact h
  | remove type =>
      rw [afterCall_remove]
      exact h.remove type

theorem Consistent.after (h : r.Consistent) (ks : List RegistryCall) : (r.after ks).Consistent := by
  induction ks generalizing r with
  | nil => exact h
  | cons k ks ih => exact ih (h.afterCall k)

theorem Reachable.consistent (h : r.Reachable) : r.Consistent := by
  obtain ⟨ks, rfl⟩ := h
  exact consistent_empty.after ks

theorem Reachable.afterCall (h : r.Reachable) (k : RegistryCall) : (r.afterCall k).Reachable := by
  obtain ⟨ks, rfl⟩ := h
  refine ⟨ks ++ [k], ?_⟩
  rw [Registry.after, List.foldl_append]
  rfl

/-- Adding converters one after another is a row of calls, those that are refused included. -/
theorem after_map_add (r : Registry) (cs : List Converter) : r.after (cs.map .add) = r.addAll cs := by
  induction cs generalizing r with
  | nil => rfl
  | cons c cs ih =>
      have hstep : r.after ((c :: cs).map .add) = (r.afterCall (.add c)).after (cs.map .add) := rfl
      rw [hstep, ih, afterCall_add]
      rfl

theorem reachable_standard : standard.Reachable :=
  ⟨standardConverters.map .add, after_map_add empty standardConverters⟩

-- ============================================================================
-- Undoing an addition
-- ============================================================================

/-- Taking out a type that was just added gives the registry back, since no alias stood for the type
before. -/
theorem Consistent.remove_add (h : r.Consistent) (hadd : r.add c = .ok r') :
    r'.remove c.nodeType = (r, true) := by
  obtain ⟨-, hnew, fresh, -, -, rfl⟩ := exists_of_add hadd
  have hconverters : r.converters.filter (·.1 ≠ c.nodeType) = r.converters := by
    refine List.filter_eq_self.mpr fun e he => decide_eq_true fun heq => ?_
    have htype : r.hasType c.nodeType = true := hasType_iff.mpr (List.mem_map.mpr ⟨e, he, heq⟩)
    rw [hnew] at htype
    cases htype
  have haliases : r.aliases.filter (·.2 ≠ c.nodeType) = r.aliases := by
    refine List.filter_eq_self.mpr fun e he => decide_eq_true fun heq => ?_
    have htype := h.target_registered e he
    rw [heq, hnew] at htype
    cases htype
  have hfresh : (fresh.map fun n => (n, c.nodeType)).filter (·.2 ≠ c.nodeType) = [] := by
    simp [List.filter_eq_nil_iff]
  rw [remove_of_hasType (by simp [hasType])]
  simp only [List.filter_append, hconverters, haliases, hfresh, List.append_nil]
  simp

end Registry

namespace RegistryChange

/-- In a registry that calls lead to, taking out the type of a converter that was just added gives
the registry back; and a change that is refused, or that finds nothing to take out, leaves the
registry as it was. -/
theorem undone_or_unchanged (h : r.Reachable) :
    (∀ c r', (add c).run r = .ok () r' → (remove c.nodeType).run r' = .ok true r) ∧
      (∀ c e r', (add c).run r = .error e r' → r' = r) ∧
      (∀ name target e r', (addAlias name target).run r = .error e r' → r' = r) ∧
      ∀ type r', (remove type).run r = .ok false r' → r' = r := by
  refine ⟨fun c r' hrun => ?undone, fun c e r' hrun => ?add, fun name target e r' hrun => ?naming,
    fun type r' hrun => ?remove⟩
  case undone =>
    rw [run_add, ending_eq_ok_iff] at hrun
    rw [run_remove, h.consistent.remove_add hrun]
  case add =>
    rw [run_add] at hrun
    exact eq_of_ending_eq_error hrun
  case naming =>
    rw [run_addAlias] at hrun
    exact eq_of_ending_eq_error hrun
  case remove =>
    rw [run_remove] at hrun
    cases htype : r.hasType type with
    | false =>
        rw [Registry.remove_of_not_hasType htype] at hrun
        cases hrun
        rfl
    | true =>
        rw [Registry.remove_of_hasType htype] at hrun
        cases hrun

end RegistryChange

/-- A converter that makes no code. -/
def Converter.silent (nodeType : String) (aliases : List String) : Converter :=
  { nodeType, aliases, convert := fun _ _ => .ok [] }

/-- Calls about names that are wanted twice; the second and the fourth are refused, and the last one
finds nothing to take out. -/
def RegistryCall.crowding : List RegistryCall :=
  [.add (.silent "a" ["b", "c", "a"]), .add (.silent "a" []), .add (.silent "b" ["c", "d"]),
    .addAlias "b" "a", .addAlias "e" "b", .remove "x"]

/-- The registry they lead to: `b` is a type and an alias of `a`. -/
def Registry.crowded : Registry := empty.after RegistryCall.crowding

/-- The name `c`, an alias there, can become a type for a while. -/
theorem RegistryChange.undone_or_unchanged_crowded :
    Registry.crowded.Reachable ∧
      (∃ r', (add (.silent "c" ["b", "f", "c"])).run Registry.crowded = .ok () r' ∧
        (remove "c").run r' = .ok true Registry.crowded) ∧
      (∃ e r', (add (.silent "b" ["g"])).run Registry.crowded = .error e r' ∧
        r' = Registry.crowded) ∧
      (∃ e r', (addAlias "b" "a").run Registry.crowded = .error e r' ∧ r' = Registry.crowded) ∧
      ∃ r', (remove "d").run Registry.crowded = .ok false r' ∧ r' = Registry.crowded := by
  have hreachable : Registry.crowded.Reachable := ⟨RegistryCall.crowding, rfl⟩
  obtain ⟨hundone, hadd, halias, hremove⟩ := undone_or_unchanged hreachable
  exact ⟨hreachable, ⟨_, rfl, hundone (.silent "c" ["b", "f", "c"]) _ rfl⟩,
    ⟨_, _, rfl, hadd (.silent "b" ["g"]) _ _ rfl⟩, ⟨_, _, rfl, halias "b" "a" _ _ rfl⟩,
    ⟨_, rfl, hremove "d" _ rfl⟩⟩

end Flowscript

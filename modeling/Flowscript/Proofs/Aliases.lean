/-
  Flowscript.Proofs.Aliases

  What types and aliases stand for in registries that calls lead to.

  Looking a name up and resolving it to a type are two walks through the same two tables;
  they agree in every consistent registry.  So a node of an alias fares as one of the type
  the alias stands for.  What a registry does not keep apart are its types and its aliases:
  an alias can become a type of its own, and is then looked up as that.
-/
import Mathlib.Data.List.Induction
import Flowscript.Conversion.Outcome
import Flowscript.Proofs.RegistryChanges

namespace Flowscript

variable {r : Registry} {report : Option Report} {context : Context} {n m : Node}
  {name target type : String}

namespace Registry

-- ============================================================================
-- Resolving and looking up
-- ============================================================================

theorem Consistent.hasType_of_get? (h : r.Consistent)
    (halias : Assoc.get? r.aliases name = some target) : r.hasType target = true :=
  h.target_registered _ (Assoc.mem_of_get? halias)

/-- The converter of a registered type stands under it. -/
theorem Consistent.exists_converter (h : r.Consistent) (htype : r.hasType type = true) :
    ∃ c, Assoc.get? r.converters type = some c ∧ c.nodeType = type := by
  rw [hasType_eq_isSome] at htype
  obtain ⟨c, hc⟩ := Option.isSome_iff_exists.mp htype
  exact ⟨c, hc, h.own_type _ (Assoc.mem_of_get? hc)⟩

theorem Consistent.ne_empty (h : r.Consistent) (htype : r.hasType type = true) : type ≠ "" := by
  obtain ⟨e, he, rfl⟩ := List.mem_map.mp (hasType_iff.mp htype)
  exact h.typed e he

/-- Types resolve to themselves, other names to what they are an alias of. -/
theorem Consistent.resolvedType?_eq_some_iff (h : r.Consistent) :
    r.resolvedType? name = some type ↔
      r.hasType name = true ∧ type = name ∨
        r.hasType name = false ∧ Assoc.get? r.aliases name = some type := by
  unfold resolvedType?
  cases hname : r.hasType name with
  | true => simp [eq_comm]
  | false =>
      rw [if_neg Bool.false_ne_true, Option.filter_eq_some_iff]
      simp only [Bool.false_eq_true, false_and, true_and, false_or, and_iff_left_iff_imp]
      exact h.hasType_of_get?

theorem Consistent.hasType_of_resolvedType? (h : r.Consistent)
    (hresolved : r.resolvedType? name = some type) : r.hasType type = true := by
  rcases h.resolvedType?_eq_some_iff.mp hresolved with ⟨hname, rfl⟩ | ⟨-, halias⟩
  · exact hname
  · exact h.hasType_of_get? halias

theorem Consistent.resolvedType?_resolvedType? (h : r.Consistent)
    (hresolved : r.resolvedType? name = some type) : r.resolvedType? type = some type :=
  h.resolvedType?_eq_some_iff.mpr (.inl ⟨h.hasType_of_resolvedType? hresolved, rfl⟩)

theorem get?_of_hasType (htype : r.hasType type = true) :
    r.get? type = Assoc.get? r.converters type := by
  rw [hasType_eq_isSome] at htype
  obtain ⟨c, hc⟩ := Option.isSome_iff_exists.mp htype
  rw [get?, hc]

theorem get?_of_not_hasType (htype : r.hasType name = false) :
    r.get? name =
      ((Assoc.get? r.aliases name).filter (· ≠ "")).bind (Assoc.get? r.converters) := by
  rw [get?, hasType_eq_false_iff.mp htype]

/-- A name is looked up as the converter that stands under the type it resolves to. -/
theorem Consistent.get?_of_resolvedType? (h : r.Consistent)
    (hresolved : r.resolvedType? name = some type) :
    r.get? name = Assoc.get? r.converters type := by
  rcases h.resolvedType?_eq_some_iff.mp hresolved with ⟨hname, rfl⟩ | ⟨hname, halias⟩
  · exact get?_of_hasType hname
  · have htype : type ≠ "" := h.ne_empty (h.hasType_of_get? halias)
    rw [get?_of_not_hasType hname, halias, Option.filter_some, if_pos (decide_eq_true htype),
      Option.bind_some]

/-- A name that resolves to no type has no converter. -/
theorem Consistent.get?_eq_none (h : r.Consistent) (hresolved : r.resolvedType? name = none) :
    r.get? name = none := by
  have hname : r.hasType name = false := by
    rw [Bool.eq_false_iff]
    intro hname
    rw [h.resolvedType?_eq_some_iff.mpr (.inl ⟨hname, rfl⟩)] at hresolved
    cases hresolved
  have halias : Assoc.get? r.aliases name = none := by
    rw [Option.eq_none_iff_forall_ne_some]
    intro target halias
    rw [h.resolvedType?_eq_some_iff.mpr (.inr ⟨hname, halias⟩)] at hresolved
    cases hresolved
  rw [get?_of_not_hasType hname, halias]
  rfl

/-- In a registry that calls lead to, aliases stand for registered types, converters stand under
their own types, and a name has a converter exactly if it resolves to a type: the one that stands
under that type, which resolves to itself. -/
theorem lookups_agree (h : r.Reachable) :
    (∀ e ∈ r.aliases, r.hasType e.2 = true) ∧
      (∀ e ∈ r.converters, e.2.nodeType = e.1) ∧
      ∀ name, (r.has name = true ↔ r.resolvedType? name ≠ none) ∧
        ∀ type, r.resolvedType? name = some type →
          (∃ c, Assoc.get? r.converters type = some c ∧ r.get? name = some c) ∧
            r.resolvedType? type = some type := by
  have hc := h.consistent
  have hfound : ∀ name type, r.resolvedType? name = some type →
      ∃ c, Assoc.get? r.converters type = some c ∧ r.get? name = some c := by
    intro name type hresolved
    obtain ⟨c, hconv, -⟩ := hc.exists_converter (hc.hasType_of_resolvedType? hresolved)
    exact ⟨c, hconv, (hc.get?_of_resolvedType? hresolved).trans hconv⟩
  refine ⟨hc.target_registered, hc.own_type, fun name => ⟨?has, fun type hresolved =>
    ⟨hfound name type hresolved, hc.resolvedType?_resolvedType? hresolved⟩⟩⟩
  case has =>
    rw [has]
    cases hresolved : r.resolvedType? name with
    | none => simp [hc.get?_eq_none hresolved]
    | some type =>
        obtain ⟨c, -, hget⟩ := hfound name type hresolved
        simp [hget]

/-- The alias `d` of a type that is an alias itself, and that type. -/
theorem lookups_agree_crowded :
    crowded.Reachable ∧ ("d", "b") ∈ crowded.aliases ∧ crowded.hasType "b" = true ∧
      crowded.resolvedType? "d" = some "b" ∧ crowded.has "d" = true ∧
      (∃ c, Assoc.get? crowded.converters "b" = some c ∧ crowded.get? "d" = some c ∧
        c.nodeType = "b") ∧ crowded.resolvedType? "b" = some "b" := by
  have hreachable : crowded.Reachable := ⟨RegistryCall.crowding, rfl⟩
  have halias : ("d", "b") ∈ crowded.aliases := by decide
  have hresolved : crowded.resolvedType? "d" = some "b" := rfl
  obtain ⟨htargets, htypes, hnames⟩ := lookups_agree hreachable
  obtain ⟨hhas, hlookup⟩ := hnames "d"
  obtain ⟨⟨c, hconv, hget⟩, hself⟩ := hlookup "b" hresolved
  refine ⟨hreachable, halias, htargets _ halias, hresolved, hhas.mpr ?_, ⟨c, hconv, hget, ?_⟩, hself⟩
  · rw [hresolved]
    exact Option.some_ne_none "b"
  · exact htypes _ (Assoc.mem_of_get? hconv)

-- ============================================================================
-- Aliases that are types too
-- ============================================================================

theorem mem_types : type ∈ r.types ↔ r.hasType type = true := by
  rw [types, Text.sort, List.mem_mergeSort, hasType_iff]

theorem mem_sortedAliases {e : String × String} : e ∈ r.sortedAliases ↔ e ∈ r.aliases := by
  rw [sortedAliases, List.mem_mergeSort]

/-- A name is an alias of a type, and a type of its own. -/
def Shadowed (r : Registry) (name target : String) : Prop :=
  (name, target) ∈ r.aliases ∧ r.hasType name = true

theorem shadowed_add_iff {c : Converter} {r' : Registry} (hadd : r.add c = .ok r') :
    r'.Shadowed name target ↔
      (name, target) ∈ r.aliases ∧ (r.hasType name = true ∨ c.nodeType = name) := by
  obtain ⟨-, -, fresh, -, hfresh, rfl⟩ := exists_of_add hadd
  have htype : ({ converters := r.converters ++ [(c.nodeType, c)]
                  aliases := r.aliases ++ fresh.map fun n => (n, c.nodeType) } : Registry).hasType name
      = true ↔ r.hasType name = true ∨ c.nodeType = name := by
    simp [hasType]
  rw [Shadowed, htype, List.mem_append, or_and_right]
  refine or_iff_left ?_
  -- a name that has just become an alias was free, so it is no type
  rintro ⟨hmem, hshadow⟩
  obtain ⟨n, hn, heq⟩ := List.mem_map.mp hmem
  cases heq
  obtain ⟨⟨hother, -⟩, hne⟩ := hfresh name hn
  rcases hshadow with hshadow | hshadow
  · rw [hother] at hshadow
    cases hshadow
  · exact hne hshadow.symm

theorem Consistent.shadowed_addAlias_iff (h : r.Consistent) {new : String} {r' : Registry}
    (hadd : r.addAlias new type = .ok r') : r'.Shadowed name target ↔ r.Shadowed name target := by
  have hnodup := (h.addAlias hadd).names_nodup
  obtain ⟨-, hnew, rfl⟩ := addAlias_eq_ok_iff.mp hadd
  refine and_congr_left fun hname => ?_
  -- the new alias is no type, so it is not the name in question
  have hne : name ≠ new := by
    rintro rfl
    rw [show r.hasType name = true from hname] at hnew
    cases hnew
  rw [← Assoc.get?_eq_some_iff hnodup, Assoc.get?_put, if_neg hne,
    Assoc.get?_eq_some_iff h.names_nodup]

theorem Consistent.shadowed_remove_iff (h : r.Consistent) : (r.remove type).1.Shadowed name target ↔
    r.Shadowed name target ∧ type ≠ name ∧ type ≠ target := by
  cases htype : r.hasType type with
  | false =>
      rw [remove_of_not_hasType htype]
      refine (and_iff_left_of_imp fun hshadowed => ⟨?_, ?_⟩).symm
      · rintro rfl
        rw [hshadowed.2] at htype
        cases htype
      · rintro rfl
        rw [h.target_registered _ hshadowed.1] at htype
        cases htype
  | true =>
      rw [remove_of_hasType htype]
      have hname : ({ converters := r.converters.filter (·.1 ≠ type)
                      aliases := r.aliases.filter (·.2 ≠ type) } : Registry).hasType name = true ↔
          r.hasType name = true ∧ type ≠ name := by
        simp only [hasType_iff, List.mem_map, List.mem_filter]
        constructor
        · rintro ⟨e, ⟨he, hne⟩, rfl⟩
          exact ⟨⟨e, he, rfl⟩, Ne.symm (of_decide_eq_true hne)⟩
        · rintro ⟨⟨e, he, rfl⟩, hne⟩
          exact ⟨e, ⟨he, decide_eq_true hne.symm⟩, rfl⟩
      rw [Shadowed, Shadowed, hname, List.mem_filter]
      simp only [decide_eq_true_eq]
      constructor
      · rintro ⟨⟨hmem, htarget⟩, hshadow, hne⟩
        exact ⟨⟨hmem, hshadow⟩, hne, Ne.symm htarget⟩
      · rintro ⟨⟨hmem, hshadow⟩, hne, htarget⟩
        exact ⟨⟨hmem, Ne.symm htarget⟩, hshadow, hne⟩

/-- After a call, an alias is a type too if it was before and neither type was taken out, or if it
is the type of the converter that was added. -/
theorem Consistent.shadowed_afterCall_iff (h : r.Consistent) (k : RegistryCall) :
    (r.afterCall k).Shadowed name target ↔
      (r.Shadowed name target ∧ k ≠ .remove name ∧ k ≠ .remove target) ∨
        ∃ c, k = .add c ∧ c.nodeType = name ∧ (name, target) ∈ r.aliases ∧
          ∃ r', r.add c = .ok r' := by
  cases k with
  | add c =>
      rw [afterCall_add]
      cases hadd : r.add c with
      | error e =>
          have hrefused : ∀ r', r.add c ≠ .ok r' := fun r' hok => by
            rw [hadd] at hok
            cases hok
          simp [hrefused]
      | ok r' =>
          show r'.Shadowed name target ↔ _
          rw [shadowed_add_iff hadd, and_or_left]
          refine or_congr ?_ ?_
          · simp [Shadowed]
          · constructor
            · rintro ⟨hmem, htype⟩
              exact ⟨c, rfl, htype, hmem, r', hadd⟩
            · rintro ⟨_, hcall, htype, hmem, -⟩
              cases hcall
              exact ⟨hmem, htype⟩
  | addAlias new type =>
      rw [afterCall_addAlias]
      cases hadd : r.addAlias new type with
      | error e => simp
      | ok r' => simp [h.shadowed_addAlias_iff hadd]
  | remove type =>
      rw [afterCall_remove, h.shadowed_remove_iff]
      simp

/-- An alias is a type too after calls if a converter of that type was added while the name was an
alias already, and neither the type nor what the alias stands for has been taken out since. -/
theorem shadowed_after_iff (ks : List RegistryCall) :
    (empty.after ks).Shadowed name target ↔
      ∃ before c later, ks = before ++ .add c :: later ∧ c.nodeType = name ∧
        (name, target) ∈ (empty.after before).aliases ∧
        (∃ r', (empty.after before).add c = .ok r') ∧
        ∀ k ∈ later, k ≠ .remove name ∧ k ≠ .remove target := by
  -- from the last call backwards, since a call tells what was so before it from what is new
  induction ks using List.reverseRecOn with
  | nil =>
      constructor
      · rintro ⟨hmem, -⟩
        cases hmem
      · rintro ⟨before, c, later, hks, -⟩
        simp at hks
  | append_singleton ks k ih =>
      have hafter : empty.after (ks ++ [k]) = (empty.after ks).afterCall k := by
        rw [after, List.foldl_append]
        rfl
      rw [hafter, (consistent_empty.after ks).shadowed_afterCall_iff, ih]
      constructor
      · rintro (⟨⟨before, c, later, rfl, hc⟩, hk⟩ | ⟨c, rfl, hc⟩)
        · obtain ⟨htype, hmem, hadd, hlater⟩ := hc
          refine ⟨before, c, later ++ [k], by simp, htype, hmem, hadd, fun k' hk' => ?_⟩
          rcases List.mem_append.mp hk' with hk' | hk'
          · exact hlater k' hk'
          · rw [List.mem_singleton.mp hk']
            exact hk
        · obtain ⟨htype, hmem, hadd⟩ := hc
          exact ⟨ks, c, [], rfl, htype, hmem, hadd, by simp⟩
      · rintro ⟨before, c, later, hks, htype, hmem, hadd, hlater⟩
        rcases List.eq_nil_or_concat later with rfl | ⟨later, k', rfl⟩
        · obtain ⟨rfl, hk⟩ := List.append_inj' hks rfl
          exact .inr ⟨c, by simpa using hk, htype, hmem, hadd⟩
        · rw [List.concat_eq_append, ← List.cons_append, ← List.append_assoc] at hks
          obtain ⟨rfl, hk⟩ := List.append_inj' hks rfl
          obtain rfl := List.singleton_inj.mp hk
          refine .inl ⟨⟨before, c, later, rfl, htype, hmem, hadd, fun k' hk' => ?_⟩, ?_⟩
          · exact hlater k' (by simp [hk'])
          · exact hlater k (by simp)

/-- Two names with one converter are of one type, so an alias that is a type is looked up apart from
what it stands for. -/
theorem Consistent.get?_eq_iff (h : r.Consistent) (halias : (name, target) ∈ r.aliases) :
    r.get? name = r.get? target ↔ r.hasType name = false := by
  obtain ⟨d, hd, hdtype⟩ := h.exists_converter (h.target_registered _ halias)
  rw [get?_of_hasType (h.target_registered _ halias)]
  constructor
  · intro heq
    rw [Bool.eq_false_iff]
    intro hname
    obtain ⟨c, hconv, hctype⟩ := h.exists_converter hname
    rw [get?_of_hasType hname, hconv, hd] at heq
    obtain rfl := Option.some.inj heq
    exact h.name_ne_target _ halias (hctype.symm.trans hdtype)
  · intro hname
    refine h.get?_of_resolvedType? (h.resolvedType?_eq_some_iff.mpr (.inr ⟨hname, ?_⟩))
    exact (Assoc.get?_eq_some_iff h.names_nodup).mpr halias

/-- After any calls, a listed alias is a registered type too if and only if a converter of that type
was added while the name was listed already, and neither the type nor what the alias stands for has
been taken out since; and a listed alias has the converter of what it stands for if and only if it
is no registered type. -/
theorem listed_alias_mem_types_iff (ks : List RegistryCall) (name target : String) :
    ((name, target) ∈ (empty.after ks).sortedAliases ∧ name ∈ (empty.after ks).types ↔
      ∃ before c later, ks = before ++ .add c :: later ∧ c.nodeType = name ∧
        (name, target) ∈ (empty.after before).sortedAliases ∧
        (∃ r', (empty.after before).add c = .ok r') ∧
        ∀ k ∈ later, k ≠ .remove name ∧ k ≠ .remove target) ∧
    ((name, target) ∈ (empty.after ks).sortedAliases →
      ((empty.after ks).get? name = (empty.after ks).get? target ↔
        name ∉ (empty.after ks).types)) := by
  simp only [mem_sortedAliases, mem_types]
  refine ⟨shadowed_after_iff ks, fun halias => ?_⟩
  rw [(consistent_empty.after ks).get?_eq_iff halias, Bool.not_eq_true]

/-- The name `b` is listed as an alias of `a`, and looked up as a type of its own. -/
theorem crowded_alias_is_type :
    ("b", "a") ∈ (empty.after RegistryCall.crowding).sortedAliases ∧
      "b" ∈ (empty.after RegistryCall.crowding).types ∧
      (empty.after RegistryCall.crowding).get? "b" ≠ (empty.after RegistryCall.crowding).get? "a" := by
  obtain ⟨hiff, hget⟩ := listed_alias_mem_types_iff RegistryCall.crowding "b" "a"
  obtain ⟨hlisted, htype⟩ := hiff.mpr ⟨[.add (.silent "a" ["b", "c", "a"]), .add (.silent "a" [])],
    .silent "b" ["c", "d"], [.addAlias "b" "a", .addAlias "e" "b", .remove "x"], rfl, rfl,
    mem_sortedAliases.mpr (by decide), ⟨_, rfl⟩, by simp⟩
  exact ⟨hlisted, htype, fun heq => (hget hlisted).mp heq htype⟩

-- ============================================================================
-- Nodes of aliases
-- ============================================================================

/-- A node fares as one of the type that its own type resolves to. -/
theorem Consistent.outcome_resolved (h : r.Consistent) (hresolved : r.resolvedType? n.type = some type)
    (report : Option Report) (context : Context) :
    r.outcome report context n = r.outcome report context { n with type := type } := by
  have hself := h.resolvedType?_resolvedType? hresolved
  have htype := h.hasType_of_resolvedType? hresolved
  obtain ⟨c, hconv, -⟩ := h.exists_converter htype
  have hget : r.get? n.type = some c := (h.get?_of_resolvedType? hresolved).trans hconv
  have hgetSelf : r.get? type = some c := (get?_of_hasType htype).trans hconv
  simp only [outcome, hget, hgetSelf, hresolved, hself, Option.getD_some,
    if_pos (h.ne_empty htype)]

/-- A node in a row of nodes can be replaced by one with the same id and outcome. -/
theorem outcomesAfter_congr (hid : n.id = m.id)
    (houtcome : r.outcome report context n = r.outcome report context m) (done : Outcomes)
    (before later : List Node) :
    r.outcomesAfter report context done (before ++ n :: later) =
      r.outcomesAfter report context done (before ++ m :: later) := by
  induction before generalizing done with
  | nil => simp only [List.nil_append, outcomesAfter, houtcome, hid]
  | cons first before ih => simp only [List.cons_append, outcomesAfter, ih]

/-- In a registry that calls lead to, nothing about a node depends on whether its type is an alias or
the type the alias stands for: not what becomes of it among other nodes, nor which of its parameters
are wrong. -/
theorem alias_transparent (h : r.Reachable) (hresolved : r.resolvedType? n.type = some type) :
    (∀ report context before later,
      r.outcomes report context (before ++ n :: later) =
        r.outcomes report context (before ++ { n with type := type } :: later)) ∧
      n.parameterErrors (r.rulesOf n) =
        { n with type := type }.parameterErrors (r.rulesOf { n with type := type }) := by
  have hc := h.consistent
  refine ⟨fun report context before later => ?outcomes, ?errors⟩
  case outcomes =>
    have houtcome := hc.outcome_resolved hresolved report context
    refine outcomesAfter_congr ?_ houtcome {} before later
    rfl
  case errors =>
    have hrules : r.rulesOf n = r.rulesOf { n with type := type } := by
      have hself := hc.get?_of_resolvedType? (hc.resolvedType?_resolvedType? hresolved)
      rw [rulesOf, rulesOf, hc.get?_of_resolvedType? hresolved, hself]
    rw [hrules]
    rfl

/-- The standard registry, with a further name for prompts. -/
def prompting : Registry := standard.afterCall (.addAlias "prompt" "promptTemplate")

/-- A prompt under that name, without the text it needs. -/
def textlessPrompt : Node := { id := "p", type := "prompt" }

/-- It is reported, and commented out, as a prompt under its own name is. -/
theorem textlessPrompt_transparent :
    prompting.Reachable ∧ prompting.resolvedType? textlessPrompt.type = some "promptTemplate" ∧
      textlessPrompt.parameterErrors (prompting.rulesOf textlessPrompt) =
        [⟨"p", .str "template", .required⟩] ∧
      prompting.outcomes (some (prompting.check { nodes := [textlessPrompt] })) {} [textlessPrompt] =
        prompting.outcomes (some (prompting.check { nodes := [textlessPrompt] })) {}
          [{ textlessPrompt with type := "promptTemplate" }] := by
  have hreachable : prompting.Reachable := reachable_standard.afterCall _
  have hresolved : prompting.resolvedType? textlessPrompt.type = some "promptTemplate" := rfl
  obtain ⟨houtcomes, herrors⟩ := alias_transparent hreachable hresolved
  refine ⟨hreachable, hresolved, ?_, houtcomes _ {} [] []⟩
  rw [herrors]
  rfl

end Registry

end Flowscript

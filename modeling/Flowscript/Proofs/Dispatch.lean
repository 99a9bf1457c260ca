/-
  Flowscript.Proofs.Dispatch

  What becomes of nodes in the hands of their converters.

  Each id gets the fragments of its own node.  Where parameters are named by texts, every
  node has an outcome, and where no converter makes more fragments than a slot holds, nor
  does any node.
-/
import Mathlib.Data.List.Nodup
import Flowscript.Conversion.Outcome
import Flowscript.Fragment.Assembly
import Flowscript.Proofs.Failure
import Flowscript.Proofs.RegistryChanges

namespace Flowscript

variable {r : Registry} {g : Graph} {c : Context} {report : Option Report}
  {done all : Outcomes} {ns : List Node} {n : Node} {id : String}

-- ============================================================================
-- Fragments by id
-- ============================================================================

theorem Outcomes.fragmentsOf_add (done : Outcomes) (id : String) (o : NodeOutcome) (id' : String) :
    (done.add id o).fragmentsOf id' = if id' = id then o.fragments else done.fragmentsOf id' := by
  have htable : (done.add id o).fragments = Assoc.put id o.fragments done.fragments := by
    cases o with
    | commented type warning f => rfl
    | converted type fs ws => rfl
  rw [Outcomes.fragmentsOf, htable, Assoc.get?_put]
  split
  · rfl
  · rfl

/-- Nodes leave the fragments of other ids as they are. -/
theorem Registry.fragmentsOf_outcomesAfter (h : r.outcomesAfter report c done ns = .ok all)
    (hid : id ∉ ns.map (·.id)) : all.fragmentsOf id = done.fragmentsOf id := by
  induction ns generalizing done with
  | nil =>
      cases h
      rfl
  | cons n ns ih =>
      obtain ⟨o, -, hrest⟩ := bind_eq_ok_iff.mp h
      rw [List.map_cons, List.mem_cons, not_or] at hid
      rw [ih hrest hid.2, Outcomes.fragmentsOf_add, if_neg hid.1]

/-- Each node has the fragments of its own outcome, as long as ids differ. -/
theorem Registry.exists_outcome (hnodup : (ns.map (·.id)).Nodup)
    (h : r.outcomesAfter report c done ns = .ok all) (hn : n ∈ ns) :
    ∃ o, r.outcome report c n = .ok o ∧ all.fragmentsOf n.id = o.fragments := by
  induction ns generalizing done with
  | nil => cases hn
  | cons m ns ih =>
      obtain ⟨o, ho, hrest⟩ := bind_eq_ok_iff.mp h
      rw [List.map_cons, List.nodup_cons] at hnodup
      rcases List.mem_cons.mp hn with rfl | hn
      · refine ⟨o, ho, ?_⟩
        rw [Registry.fragmentsOf_outcomesAfter hrest hnodup.1, Outcomes.fragmentsOf_add, if_pos rfl]
      · exact ih hnodup.2 hrest hn

-- ============================================================================
-- Names of parameters
-- ============================================================================

/-- All parameters are named by texts. -/
def Graph.TextNames (g : Graph) : Prop :=
  ∀ n ∈ g.nodes, ∀ p ∈ n.parameters, ∃ t, p.2.name = .str t

/-- The parameter has to be given and is not; secrets never have to be. -/
def Parameter.isLacking (p : Parameter) : Bool :=
  !p.isCredential && (p.required && p.value.isMissing)

/-- The required parameters that a report misses in a node. -/
def Report.missingOf (report : Option Report) (id : String) : List Scalar :=
  match report with
  | some r => r.missing id
  | none => []

/-- What nodes of known types lack is named by texts. -/
def Graph.TextsLacking (r : Registry) (g : Graph) : Prop :=
  ∀ n ∈ g.nodes, (r.get? n.type).isSome = true → ∀ p ∈ n.parameters,
    p.2.isLacking = true → ∃ t, p.2.name = .str t

theorem Graph.TextNames.textsLacking (h : g.TextNames) (r : Registry) : g.TextsLacking r :=
  fun n hn _ p hp _ => h n hn p hp

theorem exists_textsOf {names : List Scalar} (h : ∀ s ∈ names, ∃ t, s = .str t) :
    ∃ ts, Converter.textsOf names = .ok ts := by
  unfold Converter.textsOf
  induction names with
  | nil => exact ⟨[], rfl⟩
  | cons s names ih =>
      obtain ⟨t, rfl⟩ := h s List.mem_cons_self
      obtain ⟨ts, hts⟩ := ih fun s hs => h s (List.mem_cons_of_mem _ hs)
      refine ⟨t :: ts, ?_⟩
      rw [List.mapM_cons, hts]
      rfl

/-- Errors of parameters are about a node's own, and have the names that converters ask for or
those of what the node lacks. -/
theorem Node.of_mem_parameterErrors {rules : List ParameterRule} {e : ParameterError}
    (he : e ∈ n.parameterErrors rules) :
    e.node = n.id ∧ ((∃ rule ∈ rules, e.name = .str rule.name) ∨
      ∃ p ∈ n.parameters, p.2.isLacking = true ∧ e.name = p.2.name) := by
  rcases List.mem_append.mp he with he | he
  · obtain ⟨rule, hmem, hrule⟩ := List.mem_filterMap.mp he
    obtain ⟨complaint, -, rfl⟩ := Option.map_eq_some_iff.mp hrule
    exact ⟨rfl, .inl ⟨rule, hmem, rfl⟩⟩
  · obtain ⟨p, hp, hcomplaint⟩ := List.mem_filterMap.mp he
    obtain ⟨entry, hentry, rfl⟩ := List.mem_map.mp hp
    split at hcomplaint
    · cases hcomplaint
    · next hasked =>
      split at hcomplaint
      · next hlacking =>
        cases hcomplaint
        rw [Bool.or_eq_true, not_or, Bool.not_eq_true, Bool.not_eq_true] at hasked
        exact ⟨rfl, .inr ⟨entry, hentry, by rw [Parameter.isLacking, hasked.2, hlacking]; rfl, rfl⟩⟩
      · cases hcomplaint

theorem Registry.exists_of_mem_missing {name : Scalar} (h : name ∈ (r.check g).missing id) :
    ∃ n ∈ g.nodes, n.id = id ∧ ((∃ rule ∈ r.rulesOf n, name = .str rule.name) ∨
      ∃ p ∈ n.parameters, p.2.isLacking = true ∧ name = p.2.name) := by
  obtain ⟨e, he, rfl⟩ := List.mem_map.mp h
  obtain ⟨herror, hnode⟩ := List.mem_filter.mp (List.mem_filter.mp he).1
  obtain ⟨n, hn, hen⟩ := List.mem_flatMap.mp herror
  obtain ⟨hid, hname⟩ := Node.of_mem_parameterErrors hen
  exact ⟨n, hn, hid.symm.trans (of_decide_eq_true hnode), hname⟩

/-- In a graph of different ids, what a node of a known type lacks can be listed. -/
theorem Graph.TextsLacking.exists_missing (h : g.TextsLacking r) (hnodup : g.nodeIds.Nodup)
    (hn : n ∈ g.nodes) (hknown : (r.get? n.type).isSome = true) :
    ∃ ts, Converter.textsOf ((r.check g).missing n.id) = .ok ts := by
  refine exists_textsOf fun s hs => ?_
  obtain ⟨m, hm, hid, hname⟩ := Registry.exists_of_mem_missing hs
  obtain rfl : m = n := List.inj_on_of_nodup_map hnodup hm hn hid
  rcases hname with ⟨rule, -, rfl⟩ | ⟨p, hp, hlacking, rfl⟩
  · exact ⟨rule.name, rfl⟩
  · exact h m hm hknown p hp hlacking

/-- No errors are about a parameter without a text, if all parameters are named by texts. -/
theorem Graph.TextNames.hasLongParameter (h : g.TextNames) (r : Registry) :
    (r.check g).hasLongParameter = false := by
  rw [Report.hasLongParameter, List.any_eq_false]
  intro e he
  obtain ⟨n, hn, hen⟩ := List.mem_flatMap.mp he
  have htext : ∃ t, e.name = .str t := by
    rcases (Node.of_mem_parameterErrors hen).2 with ⟨rule, -, hname⟩ | ⟨p, hp, -, hname⟩
    · exact ⟨_, hname⟩
    · obtain ⟨t, ht⟩ := h n hn p hp
      exact ⟨t, hname.trans ht⟩
  obtain ⟨t, ht⟩ := htext
  rw [ht]
  exact Bool.false_ne_true

-- ============================================================================
-- Outcomes that fit into a slot
-- ============================================================================

/-- No node makes more fragments than a slot holds. -/
def Converter.Fits (c : Converter) : Prop :=
  ∀ n context fs, c.convert n context = .ok fs → fs.length < slotSize

/-- All converters of a registry fit their fragments into a slot. -/
def Registry.Fits (r : Registry) : Prop := ∀ type c, r.get? type = some c → c.Fits

theorem NodeOutcome.length_fragments_comment (n : Node) (reason warning : String) :
    (NodeOutcome.comment n reason warning).fragments.length < slotSize := by
  show 1 < slotSize
  decide

theorem Converter.exists_outcome_fits {conv : Converter} (h : conv.Fits) (c : Context)
    {report : Report} (hmissing : ∃ ts, textsOf (report.missing n.id) = .ok ts) :
    ∃ o, conv.outcome (some report) c n = .ok o ∧ o.fragments.length < slotSize := by
  unfold Converter.outcome
  split
  · exact ⟨_, rfl, NodeOutcome.length_fragments_comment _ _ _⟩
  · obtain ⟨ts, hts⟩ := hmissing
    simp only [hts, bind, Except.bind]
    split
    · exact ⟨_, rfl, NodeOutcome.length_fragments_comment _ _ _⟩
    · split
      · exact ⟨_, rfl, NodeOutcome.length_fragments_comment _ _ _⟩
      · next hfs => exact ⟨_, rfl, h n c [] hfs⟩
      · next fs _ hfs => exact ⟨_, rfl, h n c fs hfs⟩

/-- A bound node has an outcome that fits into a slot, if what its graph lacks is named by texts. -/
theorem Registry.exists_outcome_fits (h : r.Fits) (hlacking : g.TextsLacking r)
    (hnodup : g.nodeIds.Nodup) (c : Context) (hn : n ∈ g.nodes) :
    ∃ o, r.outcome (some (r.check g)) c (g.bind n g.varNames) = .ok o ∧
      o.fragments.length < slotSize := by
  unfold Registry.outcome
  split
  · exact ⟨_, rfl, NodeOutcome.length_fragments_comment _ _ _⟩
  · next conv hconv =>
    have hknown : (r.get? n.type).isSome = true := by
      rw [show r.get? n.type = some conv from hconv]
      rfl
    have hmissing := hlacking.exists_missing hnodup hn hknown
    exact Converter.exists_outcome_fits (h n.type conv hconv) c hmissing

theorem Registry.exists_outcomesAfter_fits (c : Context) {ns : List Node}
    (hns : ∀ n ∈ ns, ∃ o, r.outcome report c n = .ok o ∧ o.fragments.length < slotSize)
    (hdone : ∀ id, (done.fragmentsOf id).length < slotSize) :
    ∃ all, r.outcomesAfter report c done ns = .ok all ∧
      ∀ id, (all.fragmentsOf id).length < slotSize := by
  induction ns generalizing done with
  | nil => exact ⟨done, rfl, hdone⟩
  | cons n ns ih =>
      obtain ⟨o, ho, hlen⟩ := hns n List.mem_cons_self
      have hadd : ∀ id, ((done.add n.id o).fragmentsOf id).length < slotSize := by
        intro id
        rw [Outcomes.fragmentsOf_add]
        split
        · exact hlen
        · exact hdone id
      obtain ⟨all, hall, hfits⟩ := ih (fun n hn => hns n (List.mem_cons_of_mem _ hn)) hadd
      exact ⟨all, bind_eq_ok_iff.mpr ⟨o, ho, hall⟩, hfits⟩

-- ============================================================================
-- The standard registry
-- ============================================================================

namespace Registry

theorem mem_converters_of_get? {type : String} {conv : Converter} (h : r.get? type = some conv) :
    conv ∈ r.converters.map (·.2) := by
  unfold Registry.get? at h
  split at h
  · next hconv =>
    cases h
    exact List.mem_map_of_mem (Assoc.mem_of_get? hconv)
  · obtain ⟨target, -, htarget⟩ := Option.bind_eq_some_iff.mp h
    exact List.mem_map_of_mem (Assoc.mem_of_get? htarget)

theorem mem_of_mem_addAll {conv : Converter} {cs : List Converter}
    (h : conv ∈ (r.addAll cs).converters.map (·.2)) :
    conv ∈ r.converters.map (·.2) ∨ conv ∈ cs := by
  unfold Registry.addAll at h
  induction cs generalizing r with
  | nil => exact .inl h
  | cons new cs ih =>
      rw [List.foldl_cons] at h
      rcases ih h with h | h
      · split at h
        · next r' hadd =>
          obtain ⟨-, -, fresh, -, -, rfl⟩ := exists_of_add hadd
          rw [List.map_append, List.mem_append] at h
          rcases h with h | h
          · exact .inl h
          · cases List.mem_singleton.mp h
            exact .inr List.mem_cons_self
        · exact .inl h
      · exact .inr (List.mem_cons_of_mem _ h)

theorem mem_standardConverters_of_get? {type : String} {conv : Converter}
    (h : standard.get? type = some conv) : conv ∈ standardConverters := by
  rcases mem_of_mem_addAll (mem_converters_of_get? h) with h | h
  · cases h
  · exact h

/-- What holds of each built-in converter holds of all of them. -/
theorem forall_mem_standardConverters {P : Converter → Prop}
    (model : ∀ m ∈ Converter.models, P m.converter)
    (promptTemplate : P Converter.promptTemplate)
    (chatPromptTemplate : P Converter.chatPromptTemplate)
    (llmChain : P Converter.llmChain)
    (conversationChain : P Converter.conversationChain)
    (bufferMemory : P Converter.bufferMemory)
    (bufferWindowMemory : P Converter.bufferWindowMemory)
    (calculator : P Converter.calculator)
    (serpAPI : P Converter.serpAPI) :
    ∀ conv ∈ standardConverters, P conv := by
  intro conv h
  rcases List.mem_append.mp h with hmodel | hother
  · obtain ⟨m, hm, rfl⟩ := List.mem_map.mp hmodel
    exact model m hm
  · simp only [List.mem_cons, List.not_mem_nil, or_false] at hother
    rcases hother with rfl | rfl | rfl | rfl | rfl | rfl | rfl | rfl <;> assumption

/-- What holds of each family of converters holds of the built-in ones. -/
theorem forall_mem_of_families {P : Converter → Prop}
    (model : ∀ m : Converter.Model, P m.converter)
    (prompt : ∀ nodeType className rules expression,
      P (Converter.promptConverter (Converter.promptProfile nodeType className rules) expression))
    (chain : ∀ nodeType className options, P (Converter.chainConverter nodeType className options))
    (memory : ∀ nodeType className rules extras,
      P (Converter.memoryConverter nodeType className rules extras))
    (tool : ∀ nodeType package className arguments,
      P (Converter.toolConverter nodeType package className arguments)) :
    ∀ conv ∈ standardConverters, P conv :=
  forall_mem_standardConverters (fun m _ => model m) (prompt _ _ _ _) (prompt _ _ _ _)
    (chain _ _ _) (chain _ _ _) (memory _ _ _ _) (memory _ _ _ _) (tool _ _ _ _) (tool _ _ _ _)

end Registry

/-- A declaration that can be written is that of options which all can be. -/
theorem ConverterProfile.declare_eq_ok_iff {p : ConverterProfile} {n : Node}
    {options : Except Fault Options} {declaration : String} :
    p.declare n options = .ok declaration ↔
      ∃ os, options = .ok os ∧ os.hasLong = false ∧ declaration = p.construct n os := by
  rw [declare, bind_eq_ok_iff]
  refine exists_congr fun os => and_congr_right fun _ => ?_
  cases os.hasLong with
  | true => exact ⟨fun h => (by cases h), fun h => absurd h.1 (by decide)⟩
  | false => exact ⟨fun h => ⟨rfl, (Except.ok.inj h).symm⟩, fun h => by rw [h.2]; rfl⟩

namespace Converter

/-- A converter that fails or makes a short list from what it computed first. -/
theorem fits_of_bind {α : Type} {conv : Converter} {options : Node → Except Fault α}
    {fragments : Node → α → List Fragment}
    (hconvert : ∀ n c, conv.convert n c = options n >>= fun os => .ok (fragments n os))
    (hlen : ∀ n os, (fragments n os).length < slotSize) : conv.Fits := by
  intro n c fs h
  rw [hconvert] at h
  obtain ⟨os, -, hfs⟩ := bind_eq_ok_iff.mp h
  cases hfs
  exact hlen n os

theorem fits_model (m : Model) : m.converter.Fits :=
  fits_of_bind (fun _ _ => rfl) fun _ _ => by simp [slotSize]

theorem fits_chain (nodeType className : String) (options : Node → Except Fault Options) :
    (chainConverter nodeType className options).Fits :=
  fits_of_bind (fun _ _ => rfl) fun _ _ => by simp [slotSize]

theorem fits_tool (nodeType package className : String)
    (arguments : Node → Except Fault (List String)) :
    (toolConverter nodeType package className arguments).Fits :=
  fits_of_bind (fun _ _ => rfl) fun _ _ => by simp [slotSize]

theorem fits_prompt (p : ConverterProfile) (expression : Node → Except Fault String) :
    (promptConverter p expression).Fits :=
  fits_of_bind (fun _ _ => rfl) fun _ _ => by simp [slotSize]

theorem fits_memory (nodeType className : String) (rules : List ParameterRule)
    (extras : Node → Options) : (memoryConverter nodeType className rules extras).Fits :=
  fits_of_bind (fun _ _ => rfl) fun _ _ => by simp [slotSize]

end Converter

theorem Registry.fits_standard : standard.Fits := by
  intro type conv h
  refine forall_mem_of_families Converter.fits_model ?_ Converter.fits_chain Converter.fits_memory
    Converter.fits_tool conv (mem_standardConverters_of_get? h)
  exact fun _ _ _ _ => Converter.fits_prompt _ _

end Flowscript

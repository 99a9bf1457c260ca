/-
  Flowscript.Proofs.Draft

  From a graph to fragments in their places.

  `Drafted` says what each stage of a draft did.  Binding keeps ids and places, handing
  nodes to their converters gives each id the fragments of its own node, and assembly
  numbers them by the execution order, so fragments stand as the order has it.
-/
import Flowscript.Conversion.Convert
import Flowscript.Proofs.Assembly
import Flowscript.Proofs.Dispatch
import Flowscript.Proofs.ExecutionOrder
import Flowscript.Proofs.Validity

namespace Flowscript

open Assembly (InSlot AllBefore)

variable {r : Registry} {s : Strategy} {g : Graph} {c : Context} {d : Draft}
  {ns : List Node} {n : Node} {id : String}

-- ============================================================================
-- The stages of a draft
-- ============================================================================

/-- The fragments of the nodes in execution order. -/
def Draft.slots (d : Draft) (g : Graph) : List (List Fragment) :=
  (g.bound.inOrder d.ordered).map fun n => d.outcomes.fragmentsOf n.id

/-- A draft is what the stages give, one after another. -/
structure Drafted (r : Registry) (s : Strategy) (g : Graph) (c : Context) (d : Draft) : Prop where
  named : g.hasLongName = false
  shortNames : (r.check g).hasLongParameter = false
  valid : (r.check g).refusal? = none
  checked : d.report = r.check g
  ordered : s.order g = .ok d.ordered
  dispatched : r.outcomes (some (r.check g)) c (g.bound.inOrder d.ordered) = .ok d.outcomes
  assembled : Assembly.assemble (d.slots g) (Tracing.fragments c) = .ok d.assembled

theorem refuse_eq_ok_iff {e : Option Refusal} {u : Unit} : refuse e = .ok u ↔ e = none := by
  cases e with
  | none => simp [refuse]
  | some e => simp [refuse]

/-- A name without a text ends a draft before the graph is refused for anything else. -/
theorem draft_eq_malformed (h : g.hasLongName = true ∨ (r.check g).hasLongParameter = true)
    (s : Strategy) (c : Context) : r.draft s g c = .error .malformed := by
  unfold Registry.draft
  cases hname : g.hasLongName with
  | true => rfl
  | false =>
      have hparameter : (r.check g).hasLongParameter = true := by simpa [hname] using h
      simp only [hparameter]
      rfl

/-- The stages of a draft of a graph whose names have texts. -/
theorem draft_eq_stages (hname : g.hasLongName = false)
    (hshort : (r.check g).hasLongParameter = false) :
    r.draft s g c = (do
      refuse (r.check g).refusal?
      let ordered ← (s.order g).mapError Fault.refused
      let outcomes ← r.outcomes (some (r.check g)) c (g.bound.inOrder ordered)
      let assembled ← Assembly.assemble
        ((g.bound.inOrder ordered).map fun n => outcomes.fragmentsOf n.id) (Tracing.fragments c)
      pure { report := r.check g, ordered, outcomes, assembled }) := by
  unfold Registry.draft
  simp only [hname, hshort]
  rfl

theorem draft_eq_ok_iff : r.draft s g c = .ok d ↔ Drafted r s g c d := by
  by_cases hlong : g.hasLongName = true ∨ (r.check g).hasLongParameter = true
  · rw [draft_eq_malformed hlong]
    refine ⟨fun h => ?_, fun h => ?_⟩
    · cases h
    · simp [h.named, h.shortNames] at hlong
  · rw [not_or, Bool.not_eq_true, Bool.not_eq_true] at hlong
    simp only [draft_eq_stages hlong.1 hlong.2, bind_eq_ok_iff, pure_eq_ok_iff, refuse_eq_ok_iff,
      mapError_eq_ok_iff]
    constructor
    · rintro ⟨-, hvalid, ordered, hordered, outcomes, houtcomes, assembled, hassembled, rfl⟩
      exact ⟨hlong.1, hlong.2, hvalid, rfl, hordered, houtcomes, hassembled⟩
    · rintro ⟨-, -, hvalid, hreport, hordered, houtcomes, hassembled⟩
      refine ⟨(), hvalid, _, hordered, _, houtcomes, _, hassembled, ?_⟩
      rw [← hreport]

-- ============================================================================
-- Binding
-- ============================================================================

theorem Graph.node?_bound (g : Graph) (id : String) :
    g.bound.node? id = (g.node? id).map fun n => g.bind n g.varNames := by
  rw [Graph.node?, Graph.bound, List.find?_map]
  rfl

/-- An order keeps its nodes and their places when they are bound. -/
theorem IsOrder.inOrder_bound (h : IsOrder g ns) :
    g.bound.inOrder ns = ns.map fun n => g.bind n g.varNames := by
  have hfound : ∀ n ∈ ns, g.bound.node? n.id = some (g.bind n g.varNames) := by
    intro n hn
    rw [Graph.node?_bound, h.first n hn]
    rfl
  clear h
  induction ns with
  | nil => rfl
  | cons n ns ih =>
      have hhead := hfound n List.mem_cons_self
      have htail := ih fun m hm => hfound m (List.mem_cons_of_mem _ hm)
      simpa [Graph.inOrder, hhead] using htail

-- ============================================================================
-- Valid graphs
-- ============================================================================

theorem isValid_of_refusal?_eq_none (h : (r.check g).refusal? = none) : g.IsValid :=
  Graph.structureErrors_eq_nil_iff.mp (Report.refusal?_eq_none_iff.mp h)

/-- All connections of a valid graph end at nodes. -/
theorem joins_of_valid (h : (r.check g).refusal? = none) :
    ∀ k ∈ g.connections, g.joins k = true :=
  fun k hk => Graph.joins_iff.mpr ((isValid_of_refusal?_eq_none h).ends k hk)

/-- A valid graph has no cycle. -/
theorem cycles_eq_nil_of_valid (h : (r.check g).refusal? = none) : g.cycles = [] :=
  (Cycle.cycles_eq_nil_iff g).mpr (isValid_of_refusal?_eq_none h).acyclic

/-- The nodes of a valid graph have different ids. -/
theorem nodup_nodeIds_of_valid (h : (r.check g).refusal? = none) : g.nodeIds.Nodup :=
  (isValid_of_refusal?_eq_none h).nodup

theorem node?_of_valid (h : (r.check g).refusal? = none) (hn : n ∈ g.nodes) :
    g.node? n.id = some n := by
  obtain ⟨m, hm⟩ := Graph.exists_node? (List.mem_map_of_mem (f := (·.id)) hn)
  obtain ⟨hmem, hid⟩ := Graph.node?_eq_some hm
  obtain rfl := List.inj_on_of_nodup_map (nodup_nodeIds_of_valid h) hmem hn hid
  exact hm

-- ============================================================================
-- Fragments in execution order
-- ============================================================================

/-- A fragment was emitted for the node of an id: it is one of those that became of the bound
node, numbered in the slot of the node's place in the execution order. -/
def EmittedFor (r : Registry) (g : Graph) (c : Context) (ordered : List Node) (id : String)
    (f : Fragment) : Prop :=
  ∃ (i : Nat) (n : Node) (o : NodeOutcome), ordered[i]? = some n ∧ n.id = id ∧
    r.outcome (some (r.check g)) c (g.bind n g.varNames) = .ok o ∧ InSlot i o.fragments f

namespace Drafted

variable {e f : Fragment} {a b : String}

theorem isOrder (h : Drafted r s g c d) : IsOrder g d.ordered := isOrder_of_order h.ordered

theorem slots_eq (h : Drafted r s g c d) :
    d.slots g = d.ordered.map fun n => d.outcomes.fragmentsOf n.id := by
  rw [Draft.slots, h.isOrder.inOrder_bound, List.map_map]
  rfl

theorem exists_outcome (h : Drafted r s g c d) (hn : n ∈ d.ordered) :
    ∃ o, r.outcome (some (r.check g)) c (g.bind n g.varNames) = .ok o ∧
      d.outcomes.fragmentsOf n.id = o.fragments := by
  have hdispatched := h.dispatched
  rw [h.isOrder.inOrder_bound] at hdispatched
  have hids : (d.ordered.map fun n => g.bind n g.varNames).map (·.id) = d.ordered.map (·.id) := by
    rw [List.map_map]
    rfl
  have hnodup : ((d.ordered.map fun n => g.bind n g.varNames).map (·.id)).Nodup := by
    rw [hids]
    exact h.isOrder.nodup
  exact Registry.exists_outcome hnodup hdispatched (List.mem_map_of_mem hn)

/-- What was emitted for a node is in the slot of its place. -/
theorem exists_slot (h : Drafted r s g c d) (hf : EmittedFor r g c d.ordered id f) :
    ∃ (i : Nat) (fs : List Fragment), (d.ordered.map (·.id))[i]? = some id ∧
      (d.slots g)[i]? = some fs ∧ InSlot i fs f := by
  obtain ⟨i, n, o, hi, rfl, ho, hf⟩ := hf
  obtain ⟨o', ho', hfragments⟩ := h.exists_outcome (List.mem_of_getElem? hi)
  rw [ho] at ho'
  cases ho'
  refine ⟨i, o.fragments, by simp [hi], ?_, hf⟩
  rw [h.slots_eq, List.getElem?_map, hi, ← hfragments]
  rfl

/-- What is in a slot was emitted for a node. -/
theorem exists_emittedFor (h : Drafted r s g c d) {i : Nat} {fs : List Fragment}
    (hi : (d.slots g)[i]? = some fs) (hf : InSlot i fs f) :
    ∃ id ∈ g.nodeIds, EmittedFor r g c d.ordered id f := by
  rw [h.slots_eq, List.getElem?_map, Option.map_eq_some_iff] at hi
  obtain ⟨n, hi, rfl⟩ := hi
  have hn := List.mem_of_getElem? hi
  obtain ⟨o, ho, hfragments⟩ := h.exists_outcome hn
  rw [hfragments] at hf
  refine ⟨n.id, h.isOrder.mem_iff.mp (List.mem_map_of_mem hn), i, n, o, hi, rfl, ho, hf⟩

theorem length_slot (h : Drafted r s g c d) {i : Nat} {fs : List Fragment}
    (hi : (d.slots g)[i]? = some fs) : fs.length < slotSize :=
  (Assembly.assemble_eq_ok_iff.mp h.assembled).1 fs
    (List.mem_cons_of_mem _ (List.mem_of_getElem? hi))

/-- The source of a connection has the smaller order numbers. -/
theorem order_lt_of_joined (h : Drafted r s g c d) (hab : g.Joined a b)
    (he : EmittedFor r g c d.ordered a e) (hf : EmittedFor r g c d.ordered b f) :
    e.order < f.order := by
  obtain ⟨i, fs, hia, hi, he⟩ := h.exists_slot he
  obtain ⟨j, fs', hjb, hj, hf⟩ := h.exists_slot hf
  obtain ⟨i', j', hlt, hi', hj'⟩ := h.isOrder.standsBefore hab
  -- ids occur once, so the two places are those of the slots
  have hii' : i = i' := h.isOrder.place_unique hia hi'
  have hjj' : j = j' := h.isOrder.place_unique hjb hj'
  exact InSlot.order_lt (h.length_slot hi) (h.length_slot hj) (by omega) he hf

/-- The preamble has smaller order numbers than all nodes. -/
theorem order_lt_of_preamble (h : Drafted r s g c d) (he : InSlot (-1) (Tracing.fragments c) e)
    (hf : EmittedFor r g c d.ordered b f) : e.order < f.order := by
  obtain ⟨j, fs, -, hj, hf⟩ := h.exists_slot hf
  have hlen := (Assembly.assemble_eq_ok_iff.mp h.assembled).1 _ List.mem_cons_self
  exact InSlot.order_lt hlen (h.length_slot hj) (by omega) he hf

end Drafted

/-- The group of a type has what was emitted and nothing else, the preamble first and sources
before targets; it misses nothing but exports of a text that it has. -/
structure InExecutionOrder (r : Registry) (g : Graph) (c : Context) (d : Draft) (t : FragmentKind) :
    Prop where
  emitted : ∀ f ∈ d.assembled.group t, InSlot (-1) (Tracing.fragments c) f ∨
    ∃ id ∈ g.nodeIds, EmittedFor r g c d.ordered id f
  complete : ∀ f, f.type = t →
    (InSlot (-1) (Tracing.fragments c) f ∨ ∃ id, EmittedFor r g c d.ordered id f) →
    ∃ e ∈ d.assembled.group t, e.content = f.content ∧ (t ≠ .exports → e = f)
  sources_first : ∀ k ∈ g.connections, AllBefore (d.assembled.group t)
    (EmittedFor r g c d.ordered k.source) (EmittedFor r g c d.ordered k.target)
  preamble_first : ∀ k ∈ g.connections, AllBefore (d.assembled.group t)
    (InSlot (-1) (Tracing.fragments c))
    fun f => EmittedFor r g c d.ordered k.source f ∨ EmittedFor r g c d.ordered k.target f

/-- Whenever fragments are assembled, what was emitted for the source of a connection stands, in
the group of every type, before what was emitted for its target, and the preamble before both. -/
theorem fragments_in_execution_order (r : Registry) (s : Strategy) (g : Graph) (c : Context)
    (d : Draft) (h : r.draft s g c = .ok d) (t : FragmentKind) : InExecutionOrder r g c d t := by
  have hd := draft_eq_ok_iff.mp h
  constructor
  case emitted =>
    intro f hf
    rcases Assembly.inAnySlot_of_mem_group hd.assembled hf with hf | ⟨i, fs, hi, hf⟩
    · exact .inl hf
    · exact .inr (hd.exists_emittedFor hi hf)
  case complete =>
    rintro f rfl hf
    refine Assembly.exists_mem_group hd.assembled ?_
    rcases hf with hf | ⟨id, hf⟩
    · exact .inl hf
    · obtain ⟨i, fs, -, hi, hf⟩ := hd.exists_slot hf
      exact .inr ⟨i, fs, hi, hf⟩
  case sources_first =>
    intro k hk
    have hjoined : g.Joined k.source k.target := ⟨k, hk, joins_of_valid hd.valid k hk, rfl, rfl⟩
    exact Assembly.allBefore_group hd.assembled t fun e f he hf =>
      hd.order_lt_of_joined hjoined he hf
  case preamble_first =>
    intro k hk
    refine Assembly.allBefore_group hd.assembled t fun e f he hf => ?_
    rcases hf with hf | hf
    · exact hd.order_lt_of_preamble he hf
    · exact hd.order_lt_of_preamble he hf

/-- A chain, and after it the model that it needs. -/
def Graph.conversation : Graph :=
  { nodes := [{ id := "chain", type := "conversationChain" }, { id := "model", type := "openAI" }]
    connections := [{ id := "e1", source := "model", target := "chain", targetHandle := "model" }] }

theorem conversation_in_execution_order :
    ∃ d, Registry.standard.draft .kahn Graph.conversation { includeLangfuse := true } = .ok d ∧
      d.ordered.map (·.id) = ["model", "chain"] ∧
      ∀ t, InExecutionOrder Registry.standard Graph.conversation { includeLangfuse := true } d t := by
  cases h : Registry.standard.draft .kahn Graph.conversation { includeLangfuse := true } with
  | ok d =>
      have horder : Strategy.kahn.order Graph.conversation = .ok Graph.conversation.nodes.reverse :=
        rfl
      have hnodes := Except.ok.inj (horder.symm.trans (draft_eq_ok_iff.mp h).ordered)
      refine ⟨d, rfl, ?_, fragments_in_execution_order _ _ _ _ d h⟩
      rw [← hnodes]
      rfl
  | error e =>
      have hok : (Registry.standard.draft .kahn Graph.conversation
        { includeLangfuse := true }).toBool = true := rfl
      rw [h] at hok
      cases hok

end Flowscript

/-
  Flowscript.Proofs.ChainInputs

  Where the variables come from that chains mention.

  A chain mentions the variables of nodes that are wired to it.  They are declared before
  the chain as long as those nodes were converted and are no tools: a node that cannot be
  converted leaves a comment, and tools are made inside the main function.
-/
import Flowscript.Proofs.Conversion
import Flowscript.Proofs.DeclaredVariables

namespace Flowscript

open Assembly (InSlot)
open Converter (DeclaresAt)
open Naming (IsName)

variable {r : Registry} {s : Strategy} {g : Graph} {c : Context} {d : Draft}
  {report : Option Report} {n : Node} {o : NodeOutcome} {e f : Fragment} {id v : String}
  {t : FragmentKind} {j : Nat}

-- ============================================================================
-- What became of a node
-- ============================================================================

/-- What is said about a node that becomes a comment. -/
inductive IsReason (report : Option Report) (n : Node) : String → Prop
  | unsupported : IsReason report n ("Unsupported node type '" ++ n.type ++ "'")
  | rejected : IsReason report n ("Converter for '" ++ n.type ++ "' cannot convert this node")
  | missing {names : List String}
      (h : Converter.textsOf (Report.missingOf report n.id) = .ok names) :
      IsReason report n ("Missing required parameters (" ++ Text.join ", " names ++ ")")
  | failed : IsReason report n ("Conversion failed for '" ++ n.type ++ "'")

theorem Converter.outcome_cases {conv : Converter} (h : conv.outcome report c n = .ok o) :
    (∃ reason warning, IsReason report n reason ∧ o = .comment n reason warning) ∨
      ∃ fs ws, conv.convert n c = .ok fs ∧ o = .converted n.type fs ws := by
  unfold Converter.outcome at h
  split at h
  · cases h
    exact .inl ⟨_, _, .rejected, rfl⟩
  · obtain ⟨missing, hmissing, h⟩ := bind_eq_ok_iff.mp h
    split at h
    · cases h
      exact .inl ⟨_, _, .missing hmissing, rfl⟩
    · split at h
      · cases h
        exact .inl ⟨_, _, .failed, rfl⟩
      · next hconvert =>
        cases h
        exact .inr ⟨[], _, hconvert, rfl⟩
      · next fs _ hconvert =>
        cases h
        exact .inr ⟨fs, _, hconvert, rfl⟩

/-- The node that a converter is given for a node: its type may be the one that an alias stands
for. -/
structure HandedOver (r : Registry) (n m : Node) : Prop where
  id : m.id = n.id
  label : m.label = n.label
  type : m.type = n.type ∨ r.resolvedType? n.type = some m.type

theorem HandedOver.of_resolved (r : Registry) (n : Node) :
    let type := (r.resolvedType? n.type).getD n.type
    HandedOver r n { n with type := if type ≠ "" then type else n.type } := by
  refine ⟨rfl, rfl, ?_⟩
  simp only
  split
  · cases h : r.resolvedType? n.type with
    | none => exact .inl rfl
    | some type => exact .inr rfl
  · exact .inl rfl

/-- A node becomes a comment, or what its converter makes of it under the converter's type. -/
theorem Registry.outcome_cases (h : r.outcome report c n = .ok o) :
    (∃ m reason warning, HandedOver r n m ∧ IsReason report m reason ∧
        o = .comment m reason warning) ∨
      ∃ conv type fs ws, r.get? n.type = some conv ∧
        conv.convert { n with type := type } c = .ok fs ∧ o = .converted type fs ws := by
  unfold Registry.outcome at h
  split at h
  · cases h
    exact .inl ⟨n, _, _, ⟨rfl, rfl, .inl rfl⟩, .unsupported, rfl⟩
  · next conv hconv =>
    rcases Converter.outcome_cases h with ⟨reason, warning, hreason, rfl⟩ | ⟨fs, ws, hfs, rfl⟩
    · exact .inl ⟨_, reason, warning, .of_resolved r n, hreason, rfl⟩
    · exact .inr ⟨conv, _, fs, ws, hconv, hfs, rfl⟩

/-- The type of the fragment that declares the variable of a node; that of a node which is not
converted is declared nowhere. -/
def Graph.declaredAt? (g : Graph) (c : Context) (id : String) : Option FragmentKind :=
  match g.node? id with
  | none => none
  | some n =>
    match Registry.standard.get? n.type,
      Registry.standard.outcome (some (Registry.standard.check g)) c (g.bind n g.varNames) with
    | some conv, .ok (.converted ..) => some conv.declaringKind
    | _, _ => none

theorem Graph.declaredAt?_ne_exports (h : g.declaredAt? c id = some t) : t ≠ .exports := by
  rintro rfl
  unfold Graph.declaredAt? at h
  split at h
  · cases h
  · split at h
    · next conv _ _ _ _ _ =>
      unfold Converter.declaringKind at h
      split at h
      · cases h
      · cases h
    · cases h

theorem Graph.get?_varNames (h : n.id ∈ g.nodeIds) :
    Assoc.get? g.varNames n.id = some (g.bind n g.varNames).varName := by
  obtain ⟨v, hv⟩ := Graph.exists_varName h
  rw [Graph.bind, hv, Option.getD_some]

theorem Graph.isName_varName (h : n.id ∈ g.nodeIds) :
    IsName (g.bind n g.varNames).varName.toList := by
  obtain ⟨taken, hnames⟩ := g.namesOf_varNames
  exact hnames.isName (Graph.get?_varNames h)

/-- A node becomes a comment, or fragments that declare its variable. -/
theorem Graph.outcome_bound_cases (hn : g.node? id = some n)
    (ho : Registry.standard.outcome (some (Registry.standard.check g)) c (g.bind n g.varNames) =
      .ok o) :
    (g.declaredAt? c id = none ∧ ∃ m reason warning, o = .comment m reason warning) ∨
      ∃ t, g.declaredAt? c id = some t ∧ DeclaresAt t (g.bind n g.varNames) o.fragments := by
  obtain ⟨hmem, rfl⟩ := Graph.node?_eq_some hn
  rcases Registry.outcome_cases ho with
    ⟨m, reason, warning, -, -, rfl⟩ | ⟨conv, type, fs, ws, hconv, hfs, rfl⟩
  · exact .inl ⟨by simp [Graph.declaredAt?, hn, ho, NodeOutcome.comment], m, reason, warning, rfl⟩
  · have hget : Registry.standard.get? n.type = some conv := hconv
    have hdeclares := Converter.declaresVariable_of_mem
      (Registry.mem_standardConverters_of_get? hget) { g.bind n g.varNames with type := type } c fs
      (Graph.isName_varName (List.mem_map_of_mem hmem)) hfs
    refine .inr ⟨conv.declaringKind, by simp [Graph.declaredAt?, hn, hget, ho], ?_⟩
    exact ⟨hdeclares.declared, hdeclares.only⟩

-- ============================================================================
-- Declarations in a draft
-- ============================================================================

namespace Drafted

/-- A declaration that was emitted for a node declares the node's variable. -/
theorem declaredAt?_of_emittedFor (h : Drafted Registry.standard s g c d)
    (he : EmittedFor Registry.standard g c d.ordered id e) (htype : e.type = .declaration)
    (hv : e.declared? = some v) :
    g.declaredAt? c id = some .declaration ∧ Assoc.get? g.varNames id = some v := by
  obtain ⟨i, n, o, hi, rfl, ho, place, e, hplace, rfl⟩ := he
  have hn := h.isOrder.first n (List.mem_of_getElem? hi)
  have hid : n.id ∈ g.nodeIds := List.mem_map_of_mem (Graph.node?_eq_some hn).1
  have hmem := List.mem_of_getElem? hplace
  rcases Graph.outcome_bound_cases hn ho with ⟨-, m, reason, warning, rfl⟩ | ⟨t, ht, hdeclares⟩
  · rw [List.mem_singleton.mp hmem, declared?_placeholder] at hv
    cases hv
  · obtain ⟨rfl, hcontent⟩ := hdeclares.only e hmem htype
    have hname : e.declared? = some _ := Declares.declared? hcontent (Graph.isName_varName hid)
    rw [Graph.get?_varNames hid, ← hname]
    exact ⟨ht, hv⟩

/-- All that became of a node was emitted for it. -/
theorem exists_emittedFor_of_mem (h : Drafted r s g c d) (hn : g.node? id = some n) :
    ∃ o, r.outcome (some (r.check g)) c (g.bind n g.varNames) = .ok o ∧
      ∀ e ∈ o.fragments, ∃ order, EmittedFor r g c d.ordered id { e with order := order } := by
  obtain ⟨hmem, rfl⟩ := Graph.node?_eq_some hn
  obtain ⟨m, hm, hid⟩ := List.mem_map.mp (h.isOrder.complete n.id (List.mem_map_of_mem hmem))
  have hfirst := h.isOrder.first m hm
  rw [hid, hn] at hfirst
  cases hfirst
  obtain ⟨o, ho, -⟩ := h.exists_outcome hm
  refine ⟨o, ho, fun e he => ?_⟩
  obtain ⟨i, hi⟩ := List.mem_iff_getElem?.mp hm
  obtain ⟨place, hplace⟩ := List.mem_iff_getElem?.mp he
  exact ⟨_, i, n, o, hi, rfl, ho, place, e, hplace, rfl⟩

/-- The variable of a node is declared where the node's converter declares it. -/
theorem exists_declared (h : Drafted Registry.standard s g c d) (ht : g.declaredAt? c id = some t)
    (hv : Assoc.get? g.varNames id = some v) :
    ∃ e, EmittedFor Registry.standard g c d.ordered id e ∧ e.type = t ∧ e.declared? = some v := by
  cases hn : g.node? id with
  | none => simp [Graph.declaredAt?, hn] at ht
  | some n =>
      obtain ⟨o, ho, hemitted⟩ := h.exists_emittedFor_of_mem hn
      rcases Graph.outcome_bound_cases hn ho with ⟨hnone, -⟩ | ⟨t', ht', hdeclares⟩
      · rw [hnone] at ht
        cases ht
      · obtain rfl : t' = t := Option.some.inj (ht'.symm.trans ht)
        obtain ⟨hmem, rfl⟩ := Graph.node?_eq_some hn
        have hid : n.id ∈ g.nodeIds := List.mem_map_of_mem hmem
        obtain rfl := Option.some.inj ((Graph.get?_varNames hid).symm.trans hv)
        obtain ⟨e, he, htype, hcontent⟩ := hdeclares.declared
        obtain ⟨order, he⟩ := hemitted e he
        exact ⟨_, he, htype, Declares.declared? hcontent (Graph.isName_varName hid)⟩

theorem mem_group (h : Drafted r s g c d) (he : EmittedFor r g c d.ordered id e)
    (htype : e.type = t) (ht : t ≠ .exports) : e ∈ d.assembled.group t := by
  subst htype
  obtain ⟨i, fs, -, hi, he⟩ := h.exists_slot he
  obtain ⟨e', hmem, -, heq⟩ := Assembly.exists_mem_group h.assembled (.inr ⟨i, fs, hi, he⟩)
  rwa [heq ht] at hmem

end Drafted

/-- One of the first fragments of a list declares a variable. -/
def DeclaredBefore (fs : List Fragment) (j : Nat) (v : String) : Prop :=
  ∃ (i : Nat) (e : Fragment), i < j ∧ fs[i]? = some e ∧ e.declared? = some v

theorem type_of_mem_group (h : Drafted r s g c d) (hf : f ∈ d.assembled.group t) : f.type = t := by
  rw [Assembly.group_of_assemble h.assembled] at hf
  simpa using (List.mem_filter.mp hf).2

/-- The tracing client has a name that no node has. -/
theorem declared?_of_preamble (he : InSlot (-1) (Tracing.fragments c) e)
    (htype : e.type = .declaration) : e.declared? = some "langfuse" := by
  obtain ⟨place, e, hplace, rfl⟩ := he
  have hmem := List.mem_of_getElem? hplace
  unfold Tracing.fragments at hmem
  split at hmem
  · cases hmem
  · simp only [List.mem_cons, List.not_mem_nil, or_false] at hmem
    rcases hmem with rfl | rfl
    · cases htype
    · simp [Fragment.declared?, Text.after?, Text.cutAt]

/-- The variable of a source is declared before a target's fragment if the source declares it at
all, for no other fragment has the name. -/
theorem Drafted.declaredBefore_iff (h : Drafted Registry.standard s g c d)
    (hf : (d.assembled.group .declaration)[j]? = some f) {k : Connection} (hk : k ∈ g.connections)
    (htarget : EmittedFor Registry.standard g c d.ordered k.target f)
    (hv : Assoc.get? g.varNames k.source = some v) :
    DeclaredBefore (d.assembled.group .declaration) j v ↔
      g.declaredAt? c k.source = some .declaration := by
  obtain ⟨taken, hnames⟩ := g.namesOf_varNames
  constructor
  · rintro ⟨i, e, -, hi, hdeclared⟩
    have hmem := List.mem_of_getElem? hi
    have htype := type_of_mem_group h hmem
    rcases Assembly.inAnySlot_of_mem_group h.assembled hmem with he | ⟨slot, fs, hslot, he⟩
    · rw [declared?_of_preamble he htype] at hdeclared
      cases hdeclared
      exact absurd (by decide) (hnames.free hv)
    · obtain ⟨id, -, he⟩ := h.exists_emittedFor hslot he
      obtain ⟨hat, hname⟩ := h.declaredAt?_of_emittedFor he htype hdeclared
      rwa [hnames.injective hname hv] at hat
  · intro hat
    obtain ⟨e, he, htype, hdeclared⟩ := h.exists_declared hat hv
    have hmem := h.mem_group he htype (by simp)
    obtain ⟨i, hi⟩ := List.mem_iff_getElem?.mp hmem
    have hjoined : g.Joined k.source k.target := ⟨k, hk, joins_of_valid h.valid k hk, rfl, rfl⟩
    have hlt := Assembly.allBefore_group h.assembled .declaration
      (fun e f he hf => h.order_lt_of_joined hjoined he hf) i j e f hi hf he htarget
    exact ⟨i, e, hlt, hi, hdeclared⟩

-- ============================================================================
-- Chains
-- ============================================================================

/-- The node of an id is a chain. -/
def Graph.isChain (g : Graph) (id : String) : Bool :=
  (g.node? id).any fun n => (Registry.standard.get? n.type).any (·.category = "chain")

/-- What a chain mentions is wired to it by a connection. -/
theorem Drafted.exists_connection_of_mentioned (h : Drafted Registry.standard s g c d)
    (hchain : g.isChain id = true) (hf : EmittedFor Registry.standard g c d.ordered id f)
    (htype : f.type = .declaration) {key : String} (hkey : key ∈ Converter.wiredKeys)
    (hv : v ∈ f.mentioned key) :
    ∃ k ∈ g.connections, k.target = id ∧ k.inputName ∈ Converter.inputsOf key ∧
      Assoc.get? g.varNames k.source = some v := by
  obtain ⟨i, n, o, hi, rfl, ho, place, e, hplace, rfl⟩ := hf
  have hn := h.isOrder.first n (List.mem_of_getElem? hi)
  have hid : n.id ∈ g.nodeIds := List.mem_map_of_mem (Graph.node?_eq_some hn).1
  have hmem := List.mem_of_getElem? hplace
  obtain ⟨taken, hnames⟩ := g.namesOf_varNames
  have hinputs : ∀ i x, (g.bind n g.varNames).input? i = some x → IsName x.toList := by
    intro i x hx
    obtain ⟨k, -, -, -, hsource⟩ := Graph.exists_connection_of_input? hx
    exact hnames.isName hsource
  rcases Registry.outcome_cases ho with
    ⟨m, reason, warning, -, -, rfl⟩ | ⟨conv, type, fs, ws, hconv, hfs, rfl⟩
  · rw [List.mem_singleton.mp hmem, Fragment.mentioned, declared?_placeholder] at hv
    cases hv
  · have hget : Registry.standard.get? n.type = some conv := hconv
    have hcategory : conv.category = "chain" := by
      simpa [Graph.isChain, hn, hget] using hchain
    have hdeclaration := Converter.isChainDeclaration_of_mem
      (Registry.mem_standardConverters_of_get? hget) hcategory hfs hmem htype
    obtain ⟨input, hinput, hx⟩ :=
      hdeclaration.exists_input? (f := { e with order := _ }) (Graph.isName_varName hid) hinputs
        hkey hv
    obtain ⟨k, hk, htarget, hname, hsource⟩ := Graph.exists_connection_of_input? hx
    exact ⟨k, hk, htarget, by rwa [hname], hsource⟩

/-- A chain that keeps up a conversation. -/
def Node.talk : Node := { id := "talk", type := "conversationChain" }

/-- A tool in place of a chain's memory. -/
def Connection.ofTool : Connection :=
  { id := "e2", source := "sums", target := "talk", targetHandle := "memory" }

/-- A node without a converter in place of a chain's prompt. -/
def Connection.ofUnsupported : Connection :=
  { id := "e3", source := "store", target := "talk", targetHandle := "prompt" }

/-- A chain with a model, a tool and a node that has no converter. -/
def Graph.mixedInputs : Graph :=
  { nodes := [
      .talk, { id := "model", type := "openAI" }, { id := "sums", type := "calculator" },
      { id := "store", type := "pinecone", label := "Vectors" }]
    connections := [
      { id := "e1", source := "model", target := "talk", targetHandle := "llm" },
      .ofTool, .ofUnsupported] }

/-- The chain's declaration mentions all three variables. -/
theorem Graph.exists_mixedInputs_declaration (s : Strategy) :
    ∃ (d : Draft) (j : Nat) (f : Fragment), Registry.standard.draft s mixedInputs {} = .ok d ∧
      (d.assembled.group .declaration)[j]? = some f ∧
      EmittedFor Registry.standard mixedInputs {} d.ordered "talk" f ∧
      f.mentioned "llm" = ["openai"] ∧ f.mentioned "memory" = ["calculator"] ∧
      f.mentioned "prompt" = ["vectors"] := by
  have hnames : mixedInputs.TextNames := by
    intro n hn p hp
    simp only [mixedInputs, List.mem_cons, List.not_mem_nil, or_false] at hn
    rcases hn with rfl | rfl | rfl | rfl <;> cases hp
  obtain ⟨d, hdraft⟩ := exists_draft Registry.fits_standard hnames rfl rfl s {}
  have hd := draft_eq_ok_iff.mp hdraft
  have htalk : mixedInputs.node? "talk" = some .talk := rfl
  obtain ⟨o, ho, hemitted⟩ := hd.exists_emittedFor_of_mem htalk
  have hmentioned : ∃ e ∈ (match Registry.standard.outcome
        (some (Registry.standard.check mixedInputs)) {}
        (mixedInputs.bind .talk mixedInputs.varNames) with
      | .ok o => o.fragments
      | .error _ => []), e.type = .declaration ∧ e.mentioned "llm" = ["openai"] ∧
        e.mentioned "memory" = ["calculator"] ∧ e.mentioned "prompt" = ["vectors"] := by
    decide +kernel
  rw [ho] at hmentioned
  obtain ⟨e, he, htype, hllm, hmemory, hprompt⟩ := hmentioned
  obtain ⟨order, hemitted⟩ := hemitted e he
  have hmem := hd.mem_group hemitted htype (by simp)
  obtain ⟨j, hj⟩ := List.mem_iff_getElem?.mp hmem
  exact ⟨d, j, _, hdraft, hj, hemitted, hllm, hmemory, hprompt⟩

/-- A variable that is mentioned at a place of a draft's declarations is that of a connection's
source.  It is declared at an earlier place if and only if the source has a declaration, and
otherwise at a fragment of another type, or nowhere, as became of the source. -/
structure SuppliedBy (g : Graph) (c : Context) (d : Draft) (j : Nat) (v : String)
    (k : Connection) : Prop where
  named : Assoc.get? g.varNames k.source = some v
  declaredBefore_iff : DeclaredBefore (d.assembled.group .declaration) j v ↔
    g.declaredAt? c k.source = some .declaration
  declared : ∀ t, g.declaredAt? c k.source = some t →
    ∃ e ∈ d.assembled.group t, EmittedFor Registry.standard g c d.ordered k.source e ∧
      e.declared? = some v

/-- Whatever the declaration of a chain mentions as model, prompt or memory is the variable of a
node wired to that input, and it is declared before the chain if and only if that node was
converted to a declaration. -/
theorem chain_inputs_supplied (s : Strategy) (g : Graph) (c : Context) (d : Draft)
    (h : Registry.standard.draft s g c = .ok d) (id : String) (hchain : g.isChain id = true)
    (j : Nat) (f : Fragment) (hf : (d.assembled.group .declaration)[j]? = some f)
    (hemitted : EmittedFor Registry.standard g c d.ordered id f)
    (key v : String) (hkey : key ∈ Converter.wiredKeys) (hv : v ∈ f.mentioned key) :
    ∃ k ∈ g.connections, k.target = id ∧ k.inputName ∈ Converter.inputsOf key ∧
      SuppliedBy g c d j v k := by
  have hd := draft_eq_ok_iff.mp h
  have htype := type_of_mem_group hd (List.mem_of_getElem? hf)
  obtain ⟨k, hk, rfl, hinput, hsource⟩ :=
    hd.exists_connection_of_mentioned hchain hemitted htype hkey hv
  refine ⟨k, hk, rfl, hinput, hsource, hd.declaredBefore_iff hf hk hemitted hsource, ?_⟩
  intro t ht
  obtain ⟨e, he, htype, hdeclared⟩ := hd.exists_declared ht hsource
  exact ⟨e, hd.mem_group he htype (Graph.declaredAt?_ne_exports ht), he, hdeclared⟩

/-- The model is declared before the chain that mentions it. -/
theorem mixedInputs_supplied :
    ∃ (d : Draft) (j : Nat), Registry.standard.draft .kahn Graph.mixedInputs {} = .ok d ∧
      DeclaredBefore (d.assembled.group .declaration) j "openai" ∧
      ∃ k ∈ Graph.mixedInputs.connections, k.target = "talk" ∧ k.inputName ∈ Converter.modelInputs ∧
        SuppliedBy Graph.mixedInputs {} d j "openai" k := by
  obtain ⟨d, j, f, hdraft, hj, hemitted, hllm, -, -⟩ := Graph.exists_mixedInputs_declaration .kahn
  obtain ⟨k, hk, htarget, hinput, hsupplied⟩ := chain_inputs_supplied .kahn Graph.mixedInputs {} d
    hdraft "talk" rfl j f hj hemitted "llm" "openai" (by decide) (by simp [hllm])
  have hmodel : ∀ k ∈ Graph.mixedInputs.connections, k.inputName ∈ Converter.modelInputs →
      Graph.mixedInputs.declaredAt? {} k.source = some .declaration := by
    decide +kernel
  have hbefore := hsupplied.declaredBefore_iff.mpr (hmodel k hk hinput)
  exact ⟨d, j, hdraft, hbefore, k, hk, htarget, hinput, hsupplied⟩

/-- The tool and the node without a converter are mentioned, and no declaration before the chain
declares their variables. -/
theorem mixedInputs_undeclared :
    ∃ (d : Draft) (j : Nat) (f : Fragment),
      Registry.standard.draft .depthFirst Graph.mixedInputs {} = .ok d ∧
      Graph.mixedInputs.isChain "talk" = true ∧
      (d.assembled.group .declaration)[j]? = some f ∧
      EmittedFor Registry.standard Graph.mixedInputs {} d.ordered "talk" f ∧
      "calculator" ∈ f.mentioned "memory" ∧ "vectors" ∈ f.mentioned "prompt" ∧
      ¬ DeclaredBefore (d.assembled.group .declaration) j "calculator" ∧
      ¬ DeclaredBefore (d.assembled.group .declaration) j "vectors" := by
  obtain ⟨d, j, f, hdraft, hj, hemitted, -, hmemory, hprompt⟩ :=
    Graph.exists_mixedInputs_declaration .depthFirst
  have hd := draft_eq_ok_iff.mp hdraft
  refine ⟨d, j, f, hdraft, rfl, hj, hemitted, by simp [hmemory], by simp [hprompt], ?_, ?_⟩
  · rw [hd.declaredBefore_iff (k := .ofTool) hj (by decide) hemitted (by decide +kernel)]
    decide +kernel
  · rw [hd.declaredBefore_iff (k := .ofUnsupported) hj (by decide) hemitted (by decide +kernel)]
    decide +kernel

end Flowscript

/-
  Flowscript.Proofs.Secrets

  The texts of secrets do not show in programs.

  Checks, converters and the files of a program make the same of a concealed graph as of
  the graph itself: a parameter is read by a name that is looked up, which is then not
  hidden, or its value is an object, or only its name and description are asked for.  So
  graphs that differ in the texts of hidden parameters have one outcome, whether that is
  a program or a refusal.
-/
import Flowscript.Proofs.Concealment
import Flowscript.Proofs.Conversion

namespace Flowscript

variable {r : Registry} {g g' : Graph} {c : Context}

-- ============================================================================
-- Checks
-- ============================================================================

/-- The names of the parameters that the rules ask for are looked up. -/
def RulesLookUp (rules : List ParameterRule) : Prop := ∀ rule ∈ rules, rule.name ∈ lookedUpNames

/-- The errors of a node's parameters are those of the concealed node: a rule asks for a name that
is looked up, and no error of the node's own is about a secret. -/
theorem Node.parameterErrors_concealed (n : Node) {rules : List ParameterRule}
    (hrules : RulesLookUp rules) :
    n.concealed.parameterErrors rules = n.parameterErrors rules := by
  have hasked : ∀ rule ∈ rules,
      (rule.complaint? (n.concealed.param rule.name)).map
        (fun complaint => ParameterError.mk n.concealed.id (.str rule.name) complaint) =
      (rule.complaint? (n.param rule.name)).map
        (fun complaint => ParameterError.mk n.id (.str rule.name) complaint) := by
    intro rule hrule
    rw [n.param_concealed (hrules rule hrule), concealed_id]
  unfold parameterErrors
  congr 1
  · exact List.filterMap_congr hasked
  · simp only [concealed, List.map_map, List.filterMap_map]
    apply List.filterMap_congr
    intro e _
    -- a secret raises no error of the node's own, and what is no secret is not concealed
    cases hsecret : e.2.isCredential with
    | false => simp [Parameter.concealed_of_not_isCredential hsecret]
    | true => simp [hsecret]

namespace Graph

theorem nodeErrors_concealed (g : Graph) : g.concealed.nodeErrors = g.nodeErrors := by
  simp [nodeErrors, duplicateIds]

theorem danglingErrors_concealed (g : Graph) : g.concealed.danglingErrors = g.danglingErrors := by
  simp [danglingErrors, unknownEnds]

theorem structureErrors_concealed (g : Graph) :
    g.concealed.structureErrors = g.structureErrors := by
  rw [structureErrors, structureErrors, nodeErrors_concealed, danglingErrors_concealed,
    cycles_concealed]

theorem isolationWarnings_concealed (g : Graph) :
    g.concealed.isolationWarnings = g.isolationWarnings := by
  have hisolated : g.concealed.isolatedNodes = g.isolatedNodes.map Node.concealed := List.filter_map
  simp only [isolationWarnings, nodes_concealed, List.length_map, hisolated, List.map_map]
  rfl

end Graph

-- ============================================================================
-- Converters
-- ============================================================================

/-- What a converter makes of a concealed node is what it makes of the node, and the names it
gives rules for are looked up. -/
structure Converter.Blind (conv : Converter) : Prop where
  accepts : ∀ n, conv.accepts n.concealed = conv.accepts n
  convert : ∀ n c, conv.convert n.concealed c = conv.convert n c
  rules : RulesLookUp conv.rules

/-- A comment says nothing of parameters, and which ones are missing is read off the report. -/
theorem Converter.Blind.outcome_concealed {conv : Converter} (hconv : conv.Blind)
    (report : Option Report) (n : Node) :
    conv.outcome report c n.concealed = conv.outcome report c n := by
  unfold outcome
  rw [hconv.accepts, hconv.convert]
  rfl

/-- The converters that are found are blind. -/
def Registry.Blind (r : Registry) : Prop := ∀ type conv, r.get? type = some conv → conv.Blind

/-- A secret is read by the name of its parameter. -/
theorem Node.secretExpression_concealed (n : Node) :
    n.concealed.secretExpression = n.secretExpression := by
  have hnames : n.concealed.credentials.map Parameter.envName = n.credentials.map Parameter.envName :=
    n.map_credentials_concealed fun e => by
      rw [Parameter.envName, Parameter.envName, Parameter.concealed_name]
  have hfirst : ∀ m : Node, m.secretExpression = match m.credentials.map Parameter.envName with
      | [] => .ok none
      | e :: _ => e.map fun e => some ("process.env." ++ e) := by
    intro m
    unfold secretExpression
    cases m.credentials <;> rfl
  rw [hfirst, hfirst, hnames]

namespace Converter

theorem numberOption_concealed (n : Node) {name : String} (h : name ∈ lookedUpNames) :
    numberOption n.concealed name = numberOption n name := by
  rw [numberOption, numberOption, n.param_concealed h]

theorem textOptions_concealed (n : Node) {names : List String}
    (h : ∀ name ∈ names, name ∈ lookedUpNames) :
    textOptions n.concealed names = textOptions n names := by
  induction names with
  | nil => rfl
  | cons name names ih =>
      rw [List.forall_mem_cons] at h
      have hrest := ih h.2
      simp only [textOptions, List.mapM_cons, n.param_concealed h.1] at hrest ⊢
      rw [hrest]

theorem firstText?_concealed (n : Node) {names : List String}
    (h : ∀ name ∈ names, name ∈ lookedUpNames) :
    firstText? n.concealed names = firstText? n names := by
  induction names with
  | nil => rfl
  | cons name names ih =>
      rw [List.forall_mem_cons] at h
      simp only [firstText?, n.param_concealed h.1, ih h.2]

theorem boolOption_concealed (n : Node) {name : String} (h : name ∈ lookedUpNames) :
    boolOption n.concealed name = boolOption n name := by
  rw [boolOption, boolOption, n.param_concealed h]

theorem blind_model {m : Model} (hextras : ∀ n, m.extras n.concealed = m.extras n) :
    m.converter.Blind where
  accepts _ := rfl
  rules := by simp [RulesLookUp, Model.converter, Model.profile, lookedUpNames]
  convert n c := by
    have hoptions : m.options n.concealed = m.options n := by
      simp only [Model.options, n.secretExpression_concealed, hextras,
        n.param_concealed (show "modelName" ∈ lookedUpNames by decide),
        n.param_concealed (show "temperature" ∈ lookedUpNames by decide),
        n.param_concealed (show "maxTokens" ∈ lookedUpNames by decide)]
    simp only [Model.converter, hoptions]
    rfl

theorem blind_chain {nodeType className : String} {options : Node → Except Fault Options}
    (hoptions : ∀ n, options n.concealed = options n) :
    (chainConverter nodeType className options).Blind where
  accepts _ := rfl
  rules := by simp [RulesLookUp, chainConverter]
  convert n c := by
    simp only [chainConverter, hoptions]
    rfl

theorem blind_tool {nodeType package className : String}
    {arguments : Node → Except Fault (List String)}
    (harguments : ∀ n, arguments n.concealed = arguments n) :
    (toolConverter nodeType package className arguments).Blind where
  accepts _ := rfl
  rules := by simp [RulesLookUp, toolConverter]
  convert n c := by
    simp only [toolConverter, harguments]
    rfl

theorem blind_prompt {p : ConverterProfile} {expression : Node → Except Fault String}
    (hrules : RulesLookUp p.rules) (hexpression : ∀ n, expression n.concealed = expression n) :
    (promptConverter p expression).Blind where
  accepts _ := rfl
  rules := hrules
  convert n c := by
    simp only [promptConverter, hexpression]
    rfl

theorem blind_memory {nodeType className : String} {rules : List ParameterRule}
    {extras : Node → Options} (hrules : RulesLookUp rules)
    (hextras : ∀ n, extras n.concealed = extras n) :
    (memoryConverter nodeType className rules extras).Blind where
  accepts _ := rfl
  rules := hrules
  convert n c := by
    have hoptions : memoryOptions n.concealed (extras n) = memoryOptions n (extras n) := by
      simp (disch := decide) only [memoryOptions, textOptions_concealed, boolOption_concealed]
    simp only [memoryConverter, hextras, hoptions]
    rfl

/-- The options of a kind's own have the names they are looked up by. -/
theorem blind_of_mem_models {m : Model} (hm : m ∈ models) : m.converter.Blind := by
  apply blind_model
  intro n
  simp only [models, List.mem_cons, List.not_mem_nil, or_false] at hm
  rcases hm with rfl | rfl | rfl | rfl | rfl | rfl | rfl
  · rfl
  · simp (disch := decide) only [chatOpenAI, numberOption_concealed, boolOption_concealed]
  · simp (disch := decide) only [anthropic, numberOption_concealed, boolOption_concealed]
  · simp (disch := decide) only [azureOpenAI, textOptions_concealed]
  · simp (disch := decide) only [ollama, numberOption_concealed, Node.param_concealed]
  · rfl
  · rfl

theorem blind_promptTemplate : promptTemplate.Blind :=
  blind_prompt (by simp [RulesLookUp, promptProfile, lookedUpNames]) fun n => by
    simp (disch := decide) only [Node.param_concealed]

theorem blind_chatPromptTemplate : chatPromptTemplate.Blind :=
  blind_prompt (by simp [RulesLookUp, promptProfile, lookedUpNames]) fun n => by
    simp (disch := decide) only [firstText?_concealed]

theorem blind_llmChain : llmChain.Blind :=
  blind_chain fun n => by
    simp (disch := decide) only [Node.param_concealed]
    rfl

theorem blind_conversationChain : conversationChain.Blind :=
  blind_chain fun n => by
    simp (disch := decide) only [Node.param_concealed]
    rfl

theorem blind_calculator : calculator.Blind := blind_tool fun _ => rfl

theorem blind_serpAPI : serpAPI.Blind :=
  blind_tool fun n => by
    simp (disch := decide) only [textOptions_concealed, n.secretExpression_concealed]

theorem blind_bufferMemory : bufferMemory.Blind :=
  blind_memory (by simp [RulesLookUp]) fun _ => rfl

theorem blind_bufferWindowMemory : bufferWindowMemory.Blind :=
  blind_memory (by simp [RulesLookUp, lookedUpNames]) fun n => by
    simp (disch := decide) only [Node.param_concealed]

end Converter

theorem Registry.blind_standard : standard.Blind := by
  intro type conv h
  exact forall_mem_standardConverters (fun _ hm => Converter.blind_of_mem_models hm)
    Converter.blind_promptTemplate Converter.blind_chatPromptTemplate Converter.blind_llmChain
    Converter.blind_conversationChain Converter.blind_bufferMemory
    Converter.blind_bufferWindowMemory Converter.blind_calculator Converter.blind_serpAPI conv
    (mem_standardConverters_of_get? h)

-- ============================================================================
-- Drafts
-- ============================================================================

namespace Registry

theorem check_concealed (hr : r.Blind) (g : Graph) : r.check g.concealed = r.check g := by
  have hrules : ∀ n : Node, RulesLookUp (r.rulesOf n) := by
    intro n
    unfold rulesOf
    split
    · next conv hconv => exact (hr _ _ hconv).rules
    · intro rule hrule
      cases hrule
  have hparameters : ∀ n ∈ g.nodes, n.concealed.parameterErrors (r.rulesOf n.concealed) =
      n.parameterErrors (r.rulesOf n) := fun n _ => n.parameterErrors_concealed (hrules n)
  simp only [check, Graph.structureErrors_concealed, Graph.isolationWarnings_concealed,
    Graph.nodes_concealed, List.flatMap_map, List.flatMap_congr hparameters]

theorem outcome_concealed (hr : r.Blind) (report : Option Report) (n : Node) :
    r.outcome report c n.concealed = r.outcome report c n := by
  unfold outcome
  simp only [Node.concealed_type]
  cases hconv : r.get? n.type with
  | none => rfl
  | some conv => exact (hr _ _ hconv).outcome_concealed report { n with type := _ }

theorem outcomes_concealed (hr : r.Blind) (report : Option Report) (ns : List Node) :
    r.outcomes report c (ns.map Node.concealed) = r.outcomes report c ns := by
  suffices ∀ done, r.outcomesAfter report c done (ns.map Node.concealed) =
      r.outcomesAfter report c done ns from this {}
  induction ns with
  | nil => exact fun _ => rfl
  | cons n ns ih =>
      intro done
      simp only [List.map_cons, outcomesAfter, outcome_concealed hr, ih, Node.concealed_id]

end Registry

/-- The draft of a graph without the texts of the hidden parameters of its nodes. -/
def Draft.concealed (d : Draft) : Draft := { d with ordered := d.ordered.map Node.concealed }

/-- A concealed graph is refused as the graph is, or has its draft. -/
theorem Registry.draft_concealed (hr : r.Blind) (s : Strategy) (g : Graph) :
    r.draft s g.concealed c = (r.draft s g c).map Draft.concealed := by
  have hnodes : ∀ ordered, g.concealed.bound.inOrder (ordered.map Node.concealed) =
      (g.bound.inOrder ordered).map Node.concealed := by
    intro ordered
    rw [g.bound_concealed, Graph.inOrder_concealed]
  have hslots : ∀ (outcomes : Outcomes) (ns : List Node),
      (ns.map Node.concealed).map (fun n => outcomes.fragmentsOf n.id) =
        ns.map fun n => outcomes.fragmentsOf n.id := by
    intro outcomes ns
    rw [List.map_map]
    rfl
  -- the graphs have one report, so they pass the same checks
  by_cases hlong : g.hasLongName = true ∨ (r.check g).hasLongParameter = true
  · have hlong' : g.concealed.hasLongName = true ∨ (r.check g.concealed).hasLongParameter = true := by
      rw [check_concealed hr]
      exact hlong
    rw [draft_eq_malformed hlong, draft_eq_malformed hlong']
    rfl
  · rw [not_or, Bool.not_eq_true, Bool.not_eq_true] at hlong
    have hname : g.concealed.hasLongName = false := hlong.1
    have hshort : (r.check g.concealed).hasLongParameter = false := by
      rw [check_concealed hr]
      exact hlong.2
    rw [draft_eq_stages hlong.1 hlong.2, draft_eq_stages hname hshort, check_concealed hr,
      s.order_concealed]
    cases refuse (r.check g).refusal? with
    | error e => rfl
    | ok _ =>
    cases s.order g with
    | error e => rfl
    | ok ordered =>
    show (r.outcomes _ c (g.concealed.bound.inOrder (ordered.map Node.concealed)) >>= _) =
      Except.map Draft.concealed (r.outcomes _ c (g.bound.inOrder ordered) >>= _)
    simp only [hnodes, hslots, outcomes_concealed hr]
    cases r.outcomes (some (r.check g)) c (g.bound.inOrder ordered) with
    | error e => rfl
    | ok outcomes =>
    show (Assembly.assemble _ _ >>= _) = Except.map Draft.concealed (Assembly.assemble _ _ >>= _)
    cases Assembly.assemble
      ((g.bound.inOrder ordered).map fun n => outcomes.fragmentsOf n.id) (Tracing.fragments c) <;> rfl

-- ============================================================================
-- Files
-- ============================================================================

@[simp] theorem Parameter.entries_concealed (e : Scalar × Parameter) :
    (concealed e).2.value.entries = e.2.value.entries := by
  unfold concealed
  split
  · cases hvalue : e.2.value <;> simp [ParameterValue.withoutText, ParameterValue.entries]
  · rfl

/-- An object is no text, so it is not concealed. -/
theorem Parameter.concealed_of_entries {e : Scalar × Parameter} (h : e.2.value.entries ≠ []) :
    concealed e = e := by
  have hvalue : e.2.value.withoutText = e.2.value := by
    cases hvalue : e.2.value with
    | string t => exact absurd (by rw [hvalue]; rfl) h
    | _ => rfl
  simp only [concealed, hvalue, ite_self]

namespace Graph

theorem objectParameters_concealed (g : Graph) :
    g.concealed.objectParameters = g.objectParameters.map fun p => (p.1.concealed, p.2) := by
  have hown : ∀ (n : Node) (es : List (Scalar × Parameter)),
      (((es.map Parameter.concealed).map fun p => (n.concealed, p.2)).filter
        fun p => !p.2.value.entries.isEmpty) =
      ((es.map fun p => (n, p.2)).filter fun p => !p.2.value.entries.isEmpty).map
        fun p => (p.1.concealed, p.2) := by
    intro n es
    induction es with
    | nil => rfl
    | cons e es ih =>
        by_cases hentries : e.2.value.entries = []
        · simp only [List.map_cons, List.filter_cons, Parameter.entries_concealed, hentries, ih]
          rfl
        · have hkept : (!e.2.value.entries.isEmpty) = true := by simpa using hentries
          simp only [List.map_cons, List.filter_cons, Parameter.concealed_of_entries hentries, hkept,
            if_true, ih]
  simp only [objectParameters, nodes_concealed, List.flatMap_map, List.map_flatMap]
  exact List.flatMap_congr fun n _ => hown n n.parameters

theorem interfaces_concealed (g : Graph) : g.concealed.interfaces = g.interfaces := by
  have hnamed : g.concealed.namedObjects = g.namedObjects.map fun p => (p.1.concealed, p.2) := by
    rw [namedObjects, namedObjects, objectParameters_concealed, List.takeWhile_map]
    rfl
  rw [interfaces, interfaces, hnamed, List.map_map]
  rfl

theorem untyped?_concealed (g : Graph) : g.concealed.untyped? = g.untyped? := by
  rw [untyped?, untyped?, interfaces_concealed, objectParameters_concealed, List.any_map]
  rfl

theorem firstOf?_concealed (g : Graph) (category : String) :
    g.concealed.firstOf? category = (g.firstOf? category).map Node.concealed := by
  rw [firstOf?, firstOf?, nodes_concealed, List.find?_map]
  rfl

theorem configuration_concealed (g : Graph) : g.concealed.configuration c = g.configuration c := by
  have hmodel : ∀ n : Node, Configuration.ofModel n.concealed = Configuration.ofModel n := by
    intro n
    simp (disch := decide) only [Configuration.ofModel, Node.param_concealed]
  have hmemory : ∀ n : Node, Configuration.ofMemory n.concealed = Configuration.ofMemory n := by
    intro n
    simp (disch := decide) only [Configuration.ofMemory, Node.param_concealed, Node.concealed_type]
  unfold configuration
  rw [firstOf?_concealed, firstOf?_concealed, meta?_concealed]
  cases g.firstOf? "llm" <;> cases g.firstOf? "memory" <;>
    simp only [Option.map_none, Option.map_some, hmodel, hmemory]

theorem hasLongSetting_concealed (g : Graph) : g.concealed.hasLongSetting = g.hasLongSetting := by
  have hmodel : ∀ n : Node,
      Configuration.hasLongModelName n.concealed = Configuration.hasLongModelName n := by
    intro n
    simp (disch := decide) only [Configuration.hasLongModelName, Node.param_concealed]
  have hmemory : ∀ n : Node,
      (n.concealed.param "memoryKey").isLong = (n.param "memoryKey").isLong := by
    intro n
    rw [n.param_concealed (by decide)]
  simp only [hasLongSetting, firstOf?_concealed, meta?_concealed, Option.any_map, hmodel, hmemory]

theorem complexity_concealed (g : Graph) : g.concealed.complexity = g.complexity := by
  simp [complexity]

/-- The environment tells of secrets by the names and descriptions of their parameters. -/
theorem envVariables_concealed (g : Graph) : g.concealed.envVariables c = g.envVariables c := by
  have hsecrets : ∀ n : Node, n.concealed.credentials.map (EnvVariable.ofCredential n) =
      n.credentials.map (EnvVariable.ofCredential n) := fun n =>
    n.map_credentials_concealed fun e => by
      simp only [EnvVariable.ofCredential, Parameter.concealed_name, Parameter.concealed_description]
  have hcaption : ∀ n : Node, EnvVariable.ofCredential n.concealed = EnvVariable.ofCredential n :=
    fun _ => rfl
  unfold envVariables
  congr 1
  apply mapM_eq_of_map_eq
  simp only [nodes_concealed, List.flatMap_map, List.map_flatMap, List.map_map, Function.comp_def,
    hsecrets, hcaption]

end Graph

namespace ProjectFile

variable {a : Assembled}

theorem about_concealed (g : Graph) (ending : String) : about g.concealed ending = about g ending := by
  rw [about, about, g.meta?_concealed, g.name_concealed]

theorem nameText_concealed (g : Graph) : nameText g.concealed = nameText g := rfl

theorem main_concealed (g : Graph) : main g.concealed c a = main g c a := by
  rw [main, main, mainSource, mainSource, mainFunction, mainFunction, nameText_concealed,
    about_concealed]

theorem test_concealed (g : Graph) : test g.concealed c a = test g c a := by
  rw [test, test, testSource, testSource, nameText_concealed]

theorem manifest_concealed (g : Graph) (dependencies : List (String × String)) :
    manifest g.concealed c dependencies = manifest g c dependencies := by
  rw [manifest, manifest, Manifest.ofGraph, Manifest.ofGraph, g.meta?_concealed]

theorem types_concealed (g : Graph) : types g.concealed c = types g c := by
  simp only [types, typesSource, Graph.interfaces_concealed, Graph.untyped?_concealed]

theorem config_concealed (g : Graph) : config g.concealed c = config g c := by
  rw [config, config, configSource, configSource, g.configuration_concealed,
    g.hasLongSetting_concealed]

theorem environment_concealed (g : Graph) : environment g.concealed c = environment g c := by
  rw [environment, environment, g.envVariables_concealed]

theorem readme_concealed (g : Graph) (warnings : List String) :
    readme g.concealed c warnings = readme g c warnings := by
  have hnodes : g.concealed.nodes.map nodeValue = g.nodes.map nodeValue := by
    rw [Graph.nodes_concealed, List.map_map]
    rfl
  rw [readme, readme, g.meta?_concealed, g.envVariables_concealed, hnodes, g.complexity_concealed,
    about_concealed]
  rfl

end ProjectFile

theorem Project.build_concealed (g : Graph) (a : Assembled)
    (warnings converted unsupported : List String) :
    build g.concealed c a warnings converted unsupported =
      build g c a warnings converted unsupported := by
  have hbuilds : ∀ dependencies, builds g.concealed c a dependencies warnings =
      builds g c a dependencies warnings := by
    intro dependencies
    rw [builds, builds, ProjectFile.main_concealed, ProjectFile.types_concealed,
      ProjectFile.config_concealed, ProjectFile.manifest_concealed,
      ProjectFile.environment_concealed, ProjectFile.test_concealed, ProjectFile.readme_concealed]
  simp only [build, hbuilds, Graph.complexity_concealed, Graph.nodes_concealed, List.length_map,
    Graph.connections_concealed]

-- ============================================================================
-- Programs
-- ============================================================================

/-- A concealed graph is converted as the graph is. -/
theorem Registry.convert_concealed (hr : r.Blind) (s : Strategy) (g : Graph) :
    r.convert s g.concealed c = r.convert s g c := by
  unfold convert
  rw [draft_concealed hr, g.bound_concealed]
  -- what is written of the order is its ids, which concealing keeps
  cases r.draft s g c with
  | error e => simp only [Except.map, bind, Except.bind]
  | ok d =>
      have hids : (d.ordered.map Node.concealed).map (·.id) = d.ordered.map (·.id) := by
        simp
      simp only [Except.map, Project.build_concealed, Draft.concealed, bind, Except.bind, hids,
        Graph.name_concealed]

/-- With the built-in converters, whatever the strategy and the options, graphs that differ in the
texts of secrets that are not looked up are refused for the same reason or have the same program. -/
theorem convert_eq_of_sameButSecrets (s : Strategy) (g g' : Graph) (c : Context)
    (h : g.SameButSecrets g') :
    Registry.standard.convert s g c = Registry.standard.convert s g' c := by
  rw [← Registry.convert_concealed Registry.blind_standard s g, h.concealed_eq,
    Registry.convert_concealed Registry.blind_standard s g']

/-- A model with a key, and a chain that it answers in. -/
def Graph.keyed (key : String) : Graph :=
  { nodes := [
      { id := "model"
        type := "openAI"
        category := "llm"
        parameters := [
          (.str "modelName", { name := .str "modelName", value := .string "gpt-4" }),
          (.str "openAIApiKey",
            { name := .str "openAIApiKey", value := .string key, type := "password" })] },
      { id := "chain", type := "conversationChain" }]
    connections := [{ id := "e1", source := "model", target := "chain", targetHandle := "model" }] }

theorem keyed_same_program :
    (Graph.keyed "sk-first").SameButSecrets (Graph.keyed "sk-second") ∧
      ∃ p, Registry.standard.convert .kahn (Graph.keyed "sk-first") { includeDocs := true } = .ok p ∧
        Registry.standard.convert .kahn (Graph.keyed "sk-second") { includeDocs := true } = .ok p := by
  have hsame : (Graph.keyed "sk-first").SameButSecrets (Graph.keyed "sk-second") := by
    refine ⟨.cons ⟨rfl, ?_⟩ (.cons ⟨rfl, .nil⟩ .nil), rfl, rfl⟩
    exact .cons (.inl rfl) (.cons (.inr ⟨by decide, "sk-first", "sk-second", rfl, rfl⟩) .nil)
  have hnames : (Graph.keyed "sk-first").TextNames := by
    intro n hn p hp
    simp only [Graph.keyed, List.mem_cons, List.not_mem_nil, or_false] at hn
    rcases hn with rfl | rfl
    · simp only [List.mem_cons, List.not_mem_nil, or_false] at hp
      rcases hp with rfl | rfl <;> exact ⟨_, rfl⟩
    · cases hp
  have hvalid : (Registry.standard.check (Graph.keyed "sk-first")).refusal? = none := rfl
  have htyped : (Graph.keyed "sk-first").bound.untyped? = none := rfl
  obtain ⟨d, hd⟩ := exists_draft Registry.fits_standard hnames rfl hvalid .kahn { includeDocs := true }
  obtain ⟨p, hp, -⟩ := exists_convert hd (by simp [htyped])
  refine ⟨hsame, p, hp, ?_⟩
  rw [← convert_eq_of_sameButSecrets .kahn _ _ { includeDocs := true } hsame]
  exact hp

end Flowscript

/-
  Flowscript.Proofs.DeclaredVariables

  The variables that fragments declare and mention.

  Both are read off the text of a fragment.  Every built-in converter declares the
  variable of its node, tools at an initialization and all others at a declaration, and
  what the declaration of a chain mentions as model, prompt or memory is wired to one of
  the chain's inputs.
-/
import Flowscript.Proofs.Dispatch
import Flowscript.Proofs.Literals
import Flowscript.Proofs.VariableNames
import Flowscript.Proofs.Words

namespace Flowscript

open Naming (IsName)

-- ============================================================================
-- Reading declarations
-- ============================================================================

/-- The variable a fragment declares, if its text starts with a declaration. -/
def Fragment.declared? (f : Fragment) : Option String :=
  (Text.after? "const ".toList f.content.toList).map fun rest =>
    String.ofList (Text.cutAt ' ' rest).1

/-- Without one comma at the end. -/
def Text.dropComma (s : List Char) : List Char := if s.getLast? = some ',' then s.dropLast else s

/-- The value of an option that has a line of its own. -/
def Text.optionValue? (key : String) (line : List Char) : Option String :=
  (after? (' ' :: ' ' :: key.toList ++ [':', ' ']) line).map fun rest =>
    String.ofList (dropComma rest)

/-- What a declaration mentions as its option of a name. -/
def Fragment.mentioned (f : Fragment) (key : String) : List String :=
  if f.declared?.isSome then
    (Text.splitOn '\n' f.content.toList).filterMap (Text.optionValue? key)
  else []

/-- A text that declares a variable. -/
def Declares (content v : String) : Prop :=
  ∃ rest, content.toList = "const ".toList ++ (v.toList ++ ' ' :: rest)

theorem Declares.declared? {f : Fragment} {v : String} (h : Declares f.content v)
    (hv : IsName v.toList) : f.declared? = some v := by
  obtain ⟨rest, hcontent⟩ := h
  rw [Fragment.declared?, hcontent, Text.after?_append, Option.map_some,
    Text.cutAt_append (hv.not_mem (by decide)), String.ofList_toList]

/-- A comment declares nothing. -/
theorem declared?_placeholder (n : Node) (reason : String) (order : Int) :
    ({ placeholder n reason with order := order } : Fragment).declared? = none := by
  simp [Fragment.declared?, placeholder, Text.after?]

-- ============================================================================
-- What converters declare
-- ============================================================================

namespace Converter

variable {conv : Converter} {p : ConverterProfile} {n : Node} {fs : List Fragment}

/-- The type of the fragments at which a converter declares the variables of its nodes. -/
def declaringKind (conv : Converter) : FragmentKind :=
  if conv.category = "tool" then .initialization else .declaration

/-- Fragments that declare the variable of a node once, at a fragment of a type. -/
structure DeclaresAt (t : FragmentKind) (n : Node) (fs : List Fragment) : Prop where
  declared : ∃ e ∈ fs, e.type = t ∧ Declares e.content n.varName
  only : ∀ e ∈ fs, e.type = .declaration → t = .declaration ∧ Declares e.content n.varName

theorem nameFor_eq (p : ConverterProfile) (hname : IsName n.varName.toList) :
    p.nameFor n = n.varName := by
  have hne : n.varName ≠ "" := by
    intro hempty
    rw [hempty] at hname
    exact hname.1 rfl
  rw [ConverterProfile.nameFor, if_pos hne]

theorem declares_declare {options : Except Fault Options} {declaration : String}
    (hname : IsName n.varName.toList) (h : p.declare n options = .ok declaration) :
    Declares declaration n.varName := by
  obtain ⟨os, -, -, rfl⟩ := ConverterProfile.declare_eq_ok_iff.mp h
  rw [ConverterProfile.construct, nameFor_eq p hname]
  simp [Declares]

/-- An import, a fragment that declares the node's variable, and fragments of other types. -/
theorem DeclaresAt.of_fragments {t : FragmentKind} {content : String} {deps exports : List String}
    {others : List Fragment} (hcontent : Declares content n.varName) (isAsync : Bool)
    (hothers : ∀ e ∈ others, e.type ≠ .declaration) :
    DeclaresAt t n (p.importing n [] :: p.fragment n t content deps exports isAsync :: others) := by
  constructor
  · exact ⟨p.fragment n t content deps exports isAsync, by simp, rfl, hcontent⟩
  · intro e he htype
    rcases List.mem_cons.mp he with rfl | he
    · cases htype
    · rcases List.mem_cons.mp he with rfl | he
      · exact ⟨htype, hcontent⟩
      · exact absurd htype (hothers e he)

/-- Whatever a converter makes of a node declares the node's variable. -/
def DeclaresVariable (conv : Converter) : Prop :=
  ∀ n c fs, IsName n.varName.toList → conv.convert n c = .ok fs → DeclaresAt conv.declaringKind n fs

theorem declaresVariable_model (m : Model) : m.converter.DeclaresVariable := by
  intro n c fs hname h
  obtain ⟨declaration, hdeclaration, hfs⟩ := bind_eq_ok_iff.mp h
  cases hfs
  exact .of_fragments (declares_declare hname hdeclaration) _ (by simp)

theorem declaresVariable_chain (nodeType className : String)
    (options : Node → Except Fault Options) :
    (chainConverter nodeType className options).DeclaresVariable := by
  intro n c fs hname h
  obtain ⟨declaration, hdeclaration, hfs⟩ := bind_eq_ok_iff.mp h
  cases hfs
  refine .of_fragments (declares_declare hname hdeclaration) _ ?_
  simp [ConverterProfile.fragment]

theorem declaresVariable_tool (nodeType package className : String)
    (arguments : Node → Except Fault (List String)) :
    (toolConverter nodeType package className arguments).DeclaresVariable := by
  intro n c fs hname h
  obtain ⟨args, -, hfs⟩ := bind_eq_ok_iff.mp h
  cases hfs
  refine .of_fragments ?_ _ (by simp)
  rw [nameFor_eq _ hname]
  simp [Declares]

theorem declaresVariable_prompt {p : ConverterProfile} (hp : p.category ≠ "tool")
    (expression : Node → Except Fault String) :
    (promptConverter p expression).DeclaresVariable := by
  intro n c fs hname h
  obtain ⟨value, -, hfs⟩ := bind_eq_ok_iff.mp h
  cases hfs
  have hkind : (promptConverter p expression).declaringKind = .declaration := if_neg hp
  rw [hkind]
  refine .of_fragments ?_ _ (by simp)
  rw [nameFor_eq _ hname]
  simp [Declares]

theorem declaresVariable_memory (nodeType className : String) (rules : List ParameterRule)
    (extras : Node → Options) :
    (memoryConverter nodeType className rules extras).DeclaresVariable := by
  intro n c fs hname h
  obtain ⟨declaration, hdeclaration, hfs⟩ := bind_eq_ok_iff.mp h
  cases hfs
  exact .of_fragments (declares_declare hname hdeclaration) _ (by simp)

theorem declaresVariable_of_mem (h : conv ∈ Registry.standardConverters) :
    conv.DeclaresVariable := by
  refine Registry.forall_mem_of_families declaresVariable_model ?_ declaresVariable_chain
    declaresVariable_memory declaresVariable_tool conv h
  exact fun _ _ _ _ => declaresVariable_prompt (show "prompt" ≠ "tool" by decide) _

end Converter

-- ============================================================================
-- Lines of options
-- ============================================================================

theorem Text.dropComma_of_ne {s : List Char} (h : s.getLast? ≠ some ',') : dropComma s = s :=
  if_neg h

@[simp] theorem Text.dropComma_concat (s : List Char) : dropComma (s ++ [',']) = s := by
  simp [dropComma]

/-- A value on one line that is not mistaken for one with a comma after it. -/
structure OptionValue.Plain (v : OptionValue) : Prop where
  oneLine : '\n' ∉ v.render
  noComma : v.render.getLast? ≠ some ','

/-- The text of an option on its line. -/
def Options.line (key : String) (v : OptionValue) : List Char :=
  ' ' :: ' ' :: Script.key key.toList ++ ':' :: ' ' :: v.render

theorem Options.mem_lines {os : Options} {l : List Char} :
    l ∈ os.lines ↔ ∃ key v, (key, some v) ∈ os ∧ l = Options.line key v := by
  simp only [Options.lines, List.mem_filterMap, Option.map_eq_some_iff, Prod.exists]
  constructor
  · rintro ⟨key, _, hmem, v, rfl, rfl⟩
    exact ⟨key, v, hmem, rfl⟩
  · rintro ⟨key, v, hmem, rfl⟩
    exact ⟨key, some v, hmem, v, rfl, rfl⟩

/-- Options whose names are identifiers, and whose values are plain. -/
structure Options.Plain (os : Options) : Prop where
  keys : ∀ {key v}, (key, some v) ∈ os → Naming.isIdentifier key.toList = true
  values : ∀ {key v}, (key, some v) ∈ os → v.Plain

namespace Options

variable {os : Options} {key : String} {v : OptionValue} {l : List Char}

theorem Plain.newline_not_mem (h : os.Plain) (hl : l ∈ os.lines) : '\n' ∉ l := by
  obtain ⟨key, v, hmem, rfl⟩ := mem_lines.mp hl
  have hkey : '\n' ∉ key.toList := Naming.not_mem_of_isIdentifier (h.keys hmem) (by decide)
  simp [line, Script.key_of_isIdentifier (h.keys hmem), hkey, (h.values hmem).oneLine]

/-- The line of an option has a value for its own name only. -/
theorem Plain.optionValue?_line (h : os.Plain) (hmem : (key, some v) ∈ os) {name x : String}
    (hname : ':' ∉ name.toList) (hl : l = line key v ∨ l = line key v ++ [','])
    (hx : Text.optionValue? name l = some x) : name = key ∧ x = String.ofList v.render := by
  have hkey : ':' ∉ key.toList := Naming.not_mem_of_isIdentifier (h.keys hmem) (by decide)
  obtain ⟨rest, hafter, rfl⟩ := Option.map_eq_some_iff.mp hx
  have happend := Text.eq_append_of_after? hafter
  -- the line is cut at its first colon, before which the name stands
  have hcut : ∀ value, l = ' ' :: ' ' :: key.toList ++ ':' :: ' ' :: value →
      name = key ∧ rest = value := by
    intro value hvalue
    have hlines : key.toList ++ ':' :: ' ' :: value = name.toList ++ ':' :: ' ' :: rest := by
      simpa using hvalue.symm.trans happend
    have hpairs := congrArg (Text.cutAt ':') hlines
    rw [Text.cutAt_append hkey, Text.cutAt_append hname] at hpairs
    simp only [Prod.mk.injEq, Option.some.injEq, List.cons.injEq, true_and] at hpairs
    exact ⟨String.toList_injective hpairs.1.symm, hpairs.2.symm⟩
  simp only [line, Script.key_of_isIdentifier (h.keys hmem)] at hl
  rcases hl with hl | hl
  · obtain ⟨rfl, rfl⟩ := hcut v.render hl
    rw [Text.dropComma_of_ne (h.values hmem).noComma]
    exact ⟨rfl, rfl⟩
  · obtain ⟨rfl, rfl⟩ := hcut (v.render ++ [',']) (by simpa using hl)
    rw [Text.dropComma_concat]
    exact ⟨rfl, rfl⟩

end Options

theorem Text.mem_splitOn_joinWith {ls : List (List Char)} {line tail : List Char} (hne : ls ≠ [])
    (hls : ∀ l ∈ ls, '\n' ∉ l)
    (h : line ∈ splitOn '\n' (joinWith [',', '\n'] ls ++ '\n' :: tail)) :
    (∃ l ∈ ls, line = l ∨ line = l ++ [',']) ∨ line ∈ splitOn '\n' tail := by
  induction ls with
  | nil => exact absurd rfl hne
  | cons l ls ih =>
      have hl := hls l List.mem_cons_self
      cases ls with
      | nil =>
          rw [joinWith_singleton, splitOn_append_of_not_mem hl (splitOn_cons_self _ _)] at h
          rcases List.mem_cons.mp h with rfl | h
          · exact .inl ⟨l, List.mem_cons_self, .inl (List.append_nil l)⟩
          · exact .inr h
      | cons m ls =>
          have hcomma : '\n' ∉ l ++ [','] := by simp [hl]
          have htext : joinWith [',', '\n'] (l :: m :: ls) ++ '\n' :: tail =
              (l ++ [',']) ++ '\n' :: (joinWith [',', '\n'] (m :: ls) ++ '\n' :: tail) := by
            simp
          rw [htext, splitOn_append_of_not_mem hcomma (splitOn_cons_self _ _)] at h
          rcases List.mem_cons.mp h with rfl | h
          · exact .inl ⟨l, List.mem_cons_self, .inr (List.append_nil _)⟩
          · rcases ih (by simp) (fun l hl => hls l (List.mem_cons_of_mem _ hl)) h with h | h
            · obtain ⟨l', hl', h⟩ := h
              exact .inl ⟨l', List.mem_cons_of_mem _ hl', h⟩
            · exact .inr h

theorem Text.optionValue?_of_head {key : String} {line : List Char} (h : line.head? ≠ some ' ') :
    optionValue? key line = none := by
  cases line with
  | nil => rfl
  | cons c line =>
      have hc : ' ' ≠ c := by
        rintro rfl
        exact h rfl
      simp [optionValue?, after?, hc]

namespace Converter

variable {p : ConverterProfile} {n : Node} {os : Options} {name x : String}

/-- The text of a declaration before its arguments. -/
def opening (p : ConverterProfile) (n : Node) : String :=
  "const " ++ n.varName ++ " = new " ++ p.className ++ "("

theorem construct_of_nil (hvar : IsName n.varName.toList) (hlines : os.lines = []) :
    (p.construct n os).toList = (opening p n).toList ++ [')', ';'] := by
  simp [ConverterProfile.construct, nameFor_eq p hvar, Options.object, hlines, opening]

theorem construct_of_ne_nil (hvar : IsName n.varName.toList) (hlines : os.lines ≠ []) :
    (p.construct n os).toList = ((opening p n).toList ++ ['{']) ++ '\n' ::
      (Text.joinWith [',', '\n'] os.lines ++ '\n' :: ['}', ')', ';']) := by
  simp [ConverterProfile.construct, nameFor_eq p hvar, Options.object, hlines, opening]

/-- Between its first and its last line a declaration has the lines of its options. -/
theorem mem_options_of_optionValue? (hvar : IsName n.varName.toList)
    (hclass : '\n' ∉ p.className.toList) (hos : os.Plain) (hname : ':' ∉ name.toList)
    (hx : x ∈ (Text.splitOn '\n' (p.construct n os).toList).filterMap (Text.optionValue? name)) :
    ∃ v, (name, some v) ∈ os ∧ x = String.ofList v.render := by
  obtain ⟨line, hline, hx⟩ := List.mem_filterMap.mp hx
  have hopening : '\n' ∉ (opening p n).toList := by
    simp [opening, hclass, hvar.not_mem (show Naming.isNamePart '\n' = false by decide)]
  -- the first line and the last one start with no blank
  have hnone : ∀ l : List Char, l.head? ≠ some ' ' → line ≠ l := by
    rintro l hhead rfl
    rw [Text.optionValue?_of_head hhead] at hx
    cases hx
  by_cases hlines : os.lines = []
  · rw [construct_of_nil hvar hlines, Text.splitOn_of_not_mem (by simp [hopening]),
      List.mem_singleton] at hline
    exact absurd hline (hnone _ (by simp [opening]))
  · rw [construct_of_ne_nil hvar hlines, Text.splitOn_append_of_not_mem (by simp [hopening])
      (Text.splitOn_cons_self _ _), List.mem_cons] at hline
    rcases hline with hline | hline
    · exact absurd hline (hnone _ (by simp [opening]))
    · rcases Text.mem_splitOn_joinWith hlines (fun _ => hos.newline_not_mem) hline with
        ⟨l, hl, hline⟩ | hline
      · obtain ⟨key, v, hmem, rfl⟩ := Options.mem_lines.mp hl
        obtain ⟨rfl, rfl⟩ := hos.optionValue?_line hmem hname hline hx
        exact ⟨v, hmem, rfl⟩
      · rw [Text.splitOn_of_not_mem (by decide), List.mem_singleton] at hline
        exact absurd hline (hnone _ (by decide))

-- ============================================================================
-- Options of chains
-- ============================================================================

/-- The inputs whose variables a chain takes for an option. -/
def inputsOf (key : String) : List String :=
  if key = "llm" then modelInputs
  else if key = "prompt" then ["chatPromptTemplate", "prompt"]
  else if key = "memory" then ["memory"]
  else []

/-- An option of a chain: the variable of an input, a text of the node, or a truth value. -/
inductive IsChainOption (n : Node) : String → OptionValue → Prop
  | wired {key i v : String} (hi : i ∈ inputsOf key) (hv : n.input? i = some v) :
      IsChainOption n key (.code v)
  | outputKey {s : String} (hs : (n.param "outputKey").text? = some s) :
      IsChainOption n "outputKey" (.literal (.str s))
  | verbose (b : Bool) : IsChainOption n "verbose" (.literal (.bool b))

theorem exists_input?_of_firstInput? {names : List String} {v : String}
    (h : firstInput? n names = some v) : ∃ i ∈ names, n.input? i = some v := by
  obtain ⟨i, hi, hv⟩ := List.exists_of_findSome?_eq_some h
  exact ⟨i, hi, (Option.filter_eq_some_iff.mp hv).1⟩

theorem exists_input?_of_boundModel {className v : String} (h : boundModel className n = .ok v) :
    ∃ i ∈ modelInputs, n.input? i = some v := by
  unfold boundModel at h
  split at h
  · next hfirst =>
    cases h
    exact exists_input?_of_firstInput? hfirst
  · cases h

theorem isChainOption_of_mem_wired {names : List String} {option : String}
    (hnames : ∀ i ∈ names, i ∈ inputsOf option) {key : String} {v : OptionValue}
    (h : (key, some v) ∈ wired option (firstInput? n names)) : IsChainOption n key v := by
  unfold wired at h
  split at h
  · next x hx =>
    obtain ⟨i, hi, hinput⟩ := exists_input?_of_firstInput? hx
    cases List.mem_singleton.mp h
    exact .wired (hnames i hi) hinput
  · cases h

/-- All options that have a value are options of a chain. -/
def ChainOptions (n : Node) (os : Options) : Prop :=
  ∀ key v, (key, some v) ∈ os → IsChainOption n key v

theorem IsChainOption.isIdentifier {key : String} {v : OptionValue} (h : IsChainOption n key v) :
    Naming.isIdentifier key.toList = true := by
  cases h with
  | outputKey hs => decide
  | verbose b => decide
  | wired hi hx =>
      unfold inputsOf at hi
      split at hi
      · next hkey => subst hkey; decide
      · split at hi
        · next hkey => subst hkey; decide
        · split at hi
          · next hkey => subst hkey; decide
          · cases hi

theorem IsChainOption.plain {key : String} {v : OptionValue}
    (hinputs : ∀ i v, n.input? i = some v → IsName v.toList) (h : IsChainOption n key v) :
    v.Plain := by
  cases h with
  | @outputKey s hs =>
      have hrender : (OptionValue.literal (.str s)).render = Script.quote '\'' s.toList := rfl
      constructor
      · rw [hrender]
        exact Script.newline_not_mem_quote (by decide) _
      · rw [hrender, Script.quote, List.getLast?_concat]
        decide
  | verbose b =>
      cases b with
      | false => exact ⟨by decide, by decide⟩
      | true => exact ⟨by decide, by decide⟩
  | wired hi hx =>
      have hname := hinputs _ _ hx
      refine ⟨hname.not_mem (by decide), fun hlast => ?_⟩
      exact hname.not_mem (c := ',') (by decide) (List.mem_of_getLast? hlast)

/-- The keys of a chain's wired options. -/
def wiredKeys : List String := ["llm", "prompt", "memory"]

theorem IsChainOption.exists_input? {key : String} {v : OptionValue} (h : IsChainOption n key v)
    (hkey : key ∈ wiredKeys) : ∃ i ∈ inputsOf key, ∃ x, n.input? i = some x ∧ v = .code x := by
  cases h with
  | outputKey hs => exact absurd hkey (by decide)
  | verbose b => exact absurd hkey (by decide)
  | wired hi hx => exact ⟨_, hi, _, hx, rfl⟩

theorem ChainOptions.plain (h : ChainOptions n os)
    (hinputs : ∀ i v, n.input? i = some v → IsName v.toList) : os.Plain :=
  ⟨fun hmem => (h _ _ hmem).isIdentifier, fun hmem => (h _ _ hmem).plain hinputs⟩

/-- The declaration of a chain. -/
def IsChainDeclaration (n : Node) (content : String) : Prop :=
  ∃ (p : ConverterProfile) (os : Options), Naming.isIdentifier p.className.toList = true ∧
    ChainOptions n os ∧ content = p.construct n os

variable {c : Context} {fs : List Fragment} {e : Fragment}

theorem isChainDeclaration_of_convert {nodeType className : String}
    {options : Node → Except Fault Options} (hclass : Naming.isIdentifier className.toList = true)
    (hoptions : ∀ os, options n = .ok os → ChainOptions n os)
    (h : (chainConverter nodeType className options).convert n c = .ok fs) (he : e ∈ fs)
    (htype : e.type = .declaration) : IsChainDeclaration n e.content := by
  obtain ⟨declaration, hdeclaration, hfs⟩ := bind_eq_ok_iff.mp h
  obtain ⟨os, hos, -, rfl⟩ := ConverterProfile.declare_eq_ok_iff.mp hdeclaration
  cases hfs
  simp only [List.mem_cons, List.not_mem_nil, or_false] at he
  rcases he with rfl | rfl | rfl | rfl
  · cases htype
  · exact ⟨_, os, hclass, hoptions os hos, rfl⟩
  · cases htype
  · cases htype

theorem isChainDeclaration_llmChain (h : llmChain.convert n c = .ok fs) (he : e ∈ fs)
    (htype : e.type = .declaration) : IsChainDeclaration n e.content := by
  refine isChainDeclaration_of_convert (by decide) (fun os hos => ?_) h he htype
  split at hos
  · cases hos
  · next prompt hprompt =>
    obtain ⟨model, hmodel, hos⟩ := bind_eq_ok_iff.mp hos
    obtain ⟨outputKey, hkey, hos⟩ := bind_eq_ok_iff.mp hos
    cases hos
    obtain ⟨i, hi, hinput⟩ := exists_input?_of_boundModel hmodel
    intro key v hmem
    simp only [List.cons_append, List.nil_append, List.mem_cons, List.mem_append,
      List.not_mem_nil, or_false, Prod.mk.injEq, Option.some.injEq] at hmem
    rcases hmem with ⟨rfl, rfl⟩ | ⟨rfl, rfl⟩ | hmem | ⟨rfl, hv⟩ | ⟨rfl, hv⟩
    · exact .wired hi hinput
    · exact .wired (by decide) hprompt
    · exact isChainOption_of_mem_wired (by decide) hmem
    · obtain ⟨s, hs, rfl⟩ := Option.map_eq_some_iff.mp hv.symm
      exact .outputKey ((ParameterValue.asText_eq_ok hkey).trans hs)
    · obtain ⟨b, -, rfl⟩ := Option.map_eq_some_iff.mp hv.symm
      exact .verbose b

theorem isChainDeclaration_conversationChain (h : conversationChain.convert n c = .ok fs)
    (he : e ∈ fs) (htype : e.type = .declaration) : IsChainDeclaration n e.content := by
  refine isChainDeclaration_of_convert (by decide) (fun os hos => ?_) h he htype
  obtain ⟨model, hmodel, hos⟩ := bind_eq_ok_iff.mp hos
  cases hos
  obtain ⟨i, hi, hinput⟩ := exists_input?_of_boundModel hmodel
  intro key v hmem
  simp only [List.cons_append, List.nil_append, List.mem_cons, List.mem_append,
    List.not_mem_nil, or_false, Prod.mk.injEq, Option.some.injEq] at hmem
  rcases hmem with ⟨rfl, rfl⟩ | (hmem | hmem) | ⟨rfl, hv⟩
  · exact .wired hi hinput
  · exact isChainOption_of_mem_wired (by decide) hmem
  · exact isChainOption_of_mem_wired (by decide) hmem
  · obtain ⟨b, -, rfl⟩ := Option.map_eq_some_iff.mp hv.symm
    exact .verbose b

/-- What the built-in converters of chains declare. -/
theorem isChainDeclaration_of_mem {conv : Converter} (hconv : conv ∈ Registry.standardConverters)
    (hchain : conv.category = "chain") (h : conv.convert n c = .ok fs) (he : e ∈ fs)
    (htype : e.type = .declaration) : IsChainDeclaration n e.content := by
  have hnot : ∀ {conv : Converter}, conv.category ≠ "chain" → conv.category = "chain" →
      conv.convert n c = .ok fs → IsChainDeclaration n e.content :=
    fun hne hchain _ => absurd hchain hne
  refine Registry.forall_mem_standardConverters
    (P := fun conv => conv.category = "chain" → conv.convert n c = .ok fs →
      IsChainDeclaration n e.content)
    ?model ?promptTemplate ?chatPromptTemplate ?llmChain ?conversationChain ?bufferMemory
    ?bufferWindowMemory ?calculator ?serpAPI conv hconv hchain h
  case model => exact fun m _ => hnot (show "llm" ≠ "chain" by decide)
  case llmChain => exact fun _ h => isChainDeclaration_llmChain h he htype
  case conversationChain => exact fun _ h => isChainDeclaration_conversationChain h he htype
  all_goals exact hnot (by decide)

/-- What the declaration of a chain mentions is wired to one of the inputs for the option. -/
theorem IsChainDeclaration.exists_input? {f : Fragment} {key v : String}
    (h : IsChainDeclaration n f.content) (hvar : IsName n.varName.toList)
    (hinputs : ∀ i v, n.input? i = some v → IsName v.toList) (hkey : key ∈ wiredKeys)
    (hv : v ∈ f.mentioned key) : ∃ i ∈ inputsOf key, n.input? i = some v := by
  obtain ⟨p, os, hclass, hos, hcontent⟩ := h
  unfold Fragment.mentioned at hv
  split at hv
  · rw [hcontent] at hv
    have hnewline : '\n' ∉ p.className.toList := Naming.not_mem_of_isIdentifier hclass (by decide)
    have hcolon : ∀ key ∈ wiredKeys, ':' ∉ key.toList := by decide
    obtain ⟨value, hmem, rfl⟩ :=
      mem_options_of_optionValue? hvar hnewline (hos.plain hinputs) (hcolon key hkey) hv
    obtain ⟨i, hi, x, hx, rfl⟩ := (hos key value hmem).exists_input? hkey
    rw [OptionValue.render, String.ofList_toList]
    exact ⟨i, hi, hx⟩
  · cases hv

end Converter

end Flowscript

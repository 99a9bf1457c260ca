/-
  Flowscript.Proofs.DeclarationText

  The declarations of generated programs lead from code to code.

  What a node says reaches a declaration inside of string literals and template literals
  only; names and numbers are code.  A comment in place of a node is one line as long as the
  ids, types, labels and parameter names of the nodes are.  So whatever the nodes say, each
  declaration is sealed (`Drafted.sealed_declaration`).
-/
import Flowscript.Proofs.PlainImports

namespace Flowscript

open Format (Sealed isCodeChar isCodeChar_of_sort)
open Naming (IsName isNamePart isIdentifier)

variable {r : Registry} {s : Strategy} {g : Graph} {c : Context} {d : Draft} {n m : Node}
  {report : Option Report} {o : NodeOutcome} {name key : String}

-- ============================================================================
-- Names and numbers
-- ============================================================================

theorem Naming.IsName.sealed {w : List Char} (h : IsName w) : Sealed w :=
  .code fun c hc => isCodeChar_of_sort (by decide) (h.2 c hc)

theorem Format.Sealed.number {w : List Char} (h : ∀ c ∈ w, isNumberChar c = true) : Sealed w :=
  .code fun c hc => isCodeChar_of_sort (by decide) (h c hc)

/-- Letters and digits in upper case are letters and digits. -/
theorem Naming.isNamePart_toUpper_toLower {c : Char} (h : c.isAlphanum = true) :
    isNamePart c.toLower.toUpper = true := by
  have hascii : c.toNat < 128 := by
    have hpart : isIdentifierPart c = true := by simp [isIdentifierPart, h]
    have hbound := (Naming.toNat_of_isIdentifierPart hpart).2
    omega
  have hall : ∀ k < 128, (Char.ofNat k).isAlphanum = true →
      isNamePart (Char.ofNat k).toLower.toUpper = true := by
    decide +kernel
  have hchar := hall c.toNat hascii
  rw [Char.ofNat_toNat] at hchar
  exact hchar h

theorem Naming.isNamePart_of_mem_envName {w : List Char} {c : Char} (h : c ∈ envName w) :
    isNamePart c = true := by
  obtain ⟨d, hd, rfl⟩ := List.mem_map.mp h
  rcases Text.mem_joinWith hd with hd | ⟨word, hword, hd⟩
  · rw [List.mem_singleton.mp hd]
    decide
  · obtain ⟨run, hrun, rfl⟩ := List.mem_map.mp hword
    obtain ⟨e, he, rfl⟩ := List.mem_map.mp hd
    exact isNamePart_toUpper_toLower (isAlphanum_of_mem_alnumRuns hrun he)

theorem Naming.sealed_envName (w : List Char) : Sealed (envName w) :=
  .code fun c hc => isCodeChar_of_sort (by decide) (isNamePart_of_mem_envName hc)

-- ============================================================================
-- What nodes say
-- ============================================================================

/-- A node from which declarations can be written: its variable and its inputs are names, and no
text among its parameters has a carriage return. -/
structure Node.IsReady (n : Node) : Prop where
  varName : IsName n.varName.toList
  inputs : ∀ i v, n.input? i = some v → IsName v.toList
  strings : ∀ name t, n.param name = .string t → '\r' ∉ t.toList

theorem Number.isNumberChar_of_mem_display {x : Number} {c : Char}
    (h : c ∈ x.toScalar.display.toList) : isNumberChar c = true := by
  cases x with
  | int i =>
      have htext : (int i).toScalar.display = String.ofList (Text.intDigits i) := rfl
      rw [htext, String.toList_ofList] at h
      exact Text.isNumberChar_of_mem_intDigits h
  | float x =>
      have htext : (float x).toScalar.display = String.ofList x.chars := rfl
      rw [htext, String.toList_ofList] at h
      exact Double.isNumberChar_of_mem_chars h

theorem Node.IsReady.return_not_mem (h : n.IsReady) {t : String}
    (ht : (n.param name).text? = some t) : '\r' ∉ t.toList := by
  cases hparam : n.param name with
  | string s =>
      rw [hparam] at ht
      cases ht
      exact h.strings name t hparam
  | number x =>
      rw [hparam] at ht
      cases ht
      exact fun hmem => absurd (Number.isNumberChar_of_mem_display hmem) (by decide)
  | boolean b =>
      rw [hparam] at ht
      cases b with
      | true => cases ht; decide
      | false => cases ht; decide
  | missing => rw [hparam] at ht; cases ht
  | object es => rw [hparam] at ht; cases ht
  | array xs => rw [hparam] at ht; cases ht

theorem Node.sealed_secret {e : String} (h : n.secretExpression = .ok (some e)) :
    Sealed e.toList := by
  unfold Node.secretExpression at h
  split at h
  · cases h
  · next p _ _ =>
    unfold Parameter.envName at h
    split at h
    · next name _ =>
      cases h
      have hprefix : Sealed "process.env.".toList := .of_all (by decide)
      have hname : Sealed (String.ofList (Naming.envName name.toList)).toList := by
        rw [String.toList_ofList]
        exact Naming.sealed_envName _
      rw [String.toList_append]
      exact hprefix.append hname
    · cases h

-- ============================================================================
-- Options
-- ============================================================================

/-- An option that, if it has a value, has an identifier for its name and a sealed value. -/
def SealedOption (o : String × Option OptionValue) : Prop :=
  ∀ v, o.2 = some v → isIdentifier o.1.toList = true ∧ Sealed v.render

namespace SealedOption

variable (hkey : isIdentifier key.toList = true)

include hkey

theorem code {text : String} (h : Sealed text.toList) : SealedOption (key, some (.code text)) := by
  rintro v ⟨⟩
  exact ⟨hkey, h⟩

theorem text {t? : Option String} (h : ∀ t, t? = some t → '\r' ∉ t.toList) :
    SealedOption (key, OptionValue.ofText? t?) := by
  intro v hv
  obtain ⟨t, ht, rfl⟩ := Option.map_eq_some_iff.mp hv
  exact ⟨hkey, .quote (by decide) (h t ht)⟩

theorem number (x? : Option Number) : SealedOption (key, OptionValue.ofNumber? x?) := by
  intro v hv
  obtain ⟨x, -, rfl⟩ := Option.map_eq_some_iff.mp hv
  refine ⟨hkey, ?_⟩
  cases x with
  | int i => exact .number fun _ => Text.isNumberChar_of_mem_intDigits
  | float x =>
      show Sealed (Script.double x)
      unfold Script.double
      split
      · exact .of_all (by decide)
      · exact .of_all (by decide)
      · split
        · exact .number fun _ => Text.isNumberChar_of_mem_intDigits
        · exact .number fun _ => Double.isNumberChar_of_mem_chars

theorem bool (b? : Option Bool) : SealedOption (key, OptionValue.ofBool? b?) := by
  intro v hv
  obtain ⟨b, -, rfl⟩ := Option.map_eq_some_iff.mp hv
  refine ⟨hkey, ?_⟩
  cases b with
  | true => exact .of_all (by decide)
  | false => exact .of_all (by decide)

end SealedOption

/-- A declaration is sealed if its options are. -/
theorem ConverterProfile.sealed_construct {p : ConverterProfile} {os : Options}
    (hclass : isIdentifier p.className.toList = true) (hvar : IsName n.varName.toList)
    (hos : ∀ o ∈ os, SealedOption o) : Sealed (p.construct n os).toList := by
  have hopening : Sealed (Converter.opening p n).toList := by
    simp only [Converter.opening, String.toList_append]
    have hconst : Sealed "const ".toList := .of_all (by decide)
    have hnew : Sealed " = new ".toList := .of_all (by decide)
    have hname := (hconst.append hvar.sealed).append hnew
    exact (hname.append (Import.sealed_identifier hclass)).append (.of_all (by decide))
  by_cases hlines : os.lines = []
  · rw [Converter.construct_of_nil hvar hlines]
    exact hopening.append (.of_all (by decide))
  · have hsealed : ∀ l ∈ os.lines, Sealed l := by
      intro l hl
      obtain ⟨key, v, hmem, rfl⟩ := Options.mem_lines.mp hl
      obtain ⟨hname, hvalue⟩ := hos _ hmem v rfl
      have hkey : Sealed key.toList := Import.sealed_identifier hname
      have hmargin : Sealed [' ', ' '] := .of_all (by decide)
      have hcolon : Sealed [':', ' '] := .of_all (by decide)
      have hline := ((hmargin.append hkey).append hcolon).append hvalue
      simpa [Options.line, Script.key_of_isIdentifier hname] using hline
    have hoptions := Sealed.joinWith (.of_all (s := [',', '\n']) (by decide)) hsealed
    have hbrace : Sealed ['{', '\n'] := .of_all (by decide)
    have hall := ((hopening.append hbrace).append hoptions).append
      (.of_all (s := ['\n', '}', ')', ';']) (by decide))
    rw [Converter.construct_of_ne_nil hvar hlines]
    simpa using hall

-- ============================================================================
-- Converters
-- ============================================================================

namespace Converter

variable {conv : Converter} {p : ConverterProfile} {os : Options} {names : List String}

/-- Texts among the options are those of the parameters of the same names. -/
theorem textOptions_eq_ok (h : textOptions n names = .ok os) :
    os = names.map fun name => (name, OptionValue.ofText? (n.param name).text?) := by
  induction names generalizing os with
  | nil =>
      cases h
      rfl
  | cons name names ih =>
      rw [textOptions, List.mapM_cons] at h
      obtain ⟨first, hfirst, h⟩ := bind_eq_ok_iff.mp h
      obtain ⟨rest, hrest, h⟩ := bind_eq_ok_iff.mp h
      obtain ⟨t, ht, hfirst⟩ := bind_eq_ok_iff.mp hfirst
      cases hfirst
      cases h
      rw [List.map_cons, ih hrest, ParameterValue.asText_eq_ok ht]

theorem sealedOption_of_mem_textOptions (hn : n.IsReady)
    (hnames : ∀ name ∈ names, isIdentifier name.toList = true) :
    GivesOnly (fun os => ∀ o ∈ os, SealedOption o) (textOptions n names) := by
  intro os hos
  rw [textOptions_eq_ok hos, List.forall_mem_map]
  exact fun name hname => .text (hnames name hname) fun _ => hn.return_not_mem

theorem sealedOption_numberOption (n : Node) (hname : isIdentifier name.toList = true) :
    SealedOption (numberOption n name) :=
  .number hname _

theorem sealedOption_boolOption (n : Node) (hname : isIdentifier name.toList = true) :
    SealedOption (boolOption n name) :=
  .bool hname _

/-- The options that models have of their own. -/
theorem sealedOption_of_mem_extras (hn : n.IsReady) {m : Model} (hm : m ∈ models) :
    GivesOnly (fun os => ∀ o ∈ os, SealedOption o) (m.extras n) := by
  have hnumber : ∀ name, isIdentifier name.toList = true → SealedOption (numberOption n name) :=
    fun _ => sealedOption_numberOption n
  have hbool : ∀ name, isIdentifier name.toList = true → SealedOption (boolOption n name) :=
    fun _ => sealedOption_boolOption n
  simp only [models, List.mem_cons, List.not_mem_nil, or_false] at hm
  rcases hm with rfl | rfl | rfl | rfl | rfl | rfl | rfl
  case inl => exact .ok (List.forall_mem_nil _)
  case inr.inl =>
    refine .ok ?_
    simp only [List.forall_mem_cons]
    refine ⟨hbool _ (by decide), hnumber _ (by decide), hnumber _ (by decide),
      hnumber _ (by decide), hnumber _ (by decide), List.forall_mem_nil _⟩
  case inr.inr.inl =>
    refine .ok ?_
    simp only [List.forall_mem_cons]
    exact ⟨hnumber _ (by decide), hnumber _ (by decide), hbool _ (by decide),
      List.forall_mem_nil _⟩
  case inr.inr.inr.inl => exact sealedOption_of_mem_textOptions hn (by decide)
  case inr.inr.inr.inr.inl =>
    have hlocal : '\r' ∉ "http://localhost:11434".toList := by decide
    refine .bind fun baseUrl hurl => .ok ?_
    simp only [List.forall_mem_cons]
    refine ⟨.text (by decide) fun t ht => ?_, hnumber _ (by decide), List.forall_mem_nil _⟩
    cases baseUrl with
    | some url =>
        cases ht
        exact hn.return_not_mem (ParameterValue.asText_eq_ok hurl)
    | none =>
        cases ht
        exact hlocal
  case inr.inr.inr.inr.inr.inl => exact .ok (List.forall_mem_nil _)
  case inr.inr.inr.inr.inr.inr => exact .ok (List.forall_mem_nil _)

theorem sealedOption_of_mem_options (hn : n.IsReady) {m : Model} (hm : m ∈ models) :
    GivesOnly (fun os => ∀ o ∈ os, SealedOption o) (m.options n) := by
  have hkeys : ∀ m ∈ models, isIdentifier m.nameKey.toList = true ∧
      isIdentifier m.secretKey.toList = true := by
    decide +kernel
  obtain ⟨hnameKey, hsecretKey⟩ := hkeys m hm
  refine .bind fun name hname => .bind fun extras hextras => .bind fun secret hsecret => .ok ?_
  simp only [List.forall_mem_append, List.forall_mem_cons]
  refine ⟨⟨⟨?_, ?_, ?_, by simp⟩, sealedOption_of_mem_extras hn hm extras hextras⟩, ?_⟩
  · exact .text hnameKey fun t ht =>
      hn.return_not_mem ((ParameterValue.asText_eq_ok hname).trans ht)
  · exact .number (by decide) _
  · exact .number (by decide) _
  · cases secret with
    | none => simp
    | some e => simpa using .code hsecretKey (Node.sealed_secret hsecret)

theorem sealedOption_of_mem_memoryOptions (hn : n.IsReady) {extras : Options}
    (hextras : ∀ o ∈ extras, SealedOption o) :
    GivesOnly (fun os => ∀ o ∈ os, SealedOption o) (memoryOptions n extras) := by
  refine .bind fun texts htexts => .ok ?_
  have hsealed := sealedOption_of_mem_textOptions hn (by decide) texts htexts
  simp only [List.forall_mem_append, List.forall_mem_singleton]
  exact ⟨⟨hsealed, sealedOption_boolOption n (by decide)⟩, hextras⟩

theorem IsChainOption.sealedOption {v : OptionValue} (hn : n.IsReady) (h : IsChainOption n key v) :
    SealedOption (key, some v) := by
  have hkey := h.isIdentifier
  cases h with
  | wired hi hx => exact .code hkey (hn.inputs _ _ hx).sealed
  | @outputKey t ht =>
      have hplain : ∀ t' ∈ some t, '\r' ∉ t'.toList := by
        rintro t' ⟨⟩
        exact hn.return_not_mem ht
      exact .text hkey hplain
  | verbose b => exact .bool hkey (some b)

/-- The declaration of a chain is sealed. -/
theorem IsChainDeclaration.sealed {content : String} (hn : n.IsReady)
    (h : IsChainDeclaration n content) : Sealed content.toList := by
  obtain ⟨p, os, hclass, hos, rfl⟩ := h
  refine ConverterProfile.sealed_construct hclass hn.varName ?_
  rintro ⟨key, value?⟩ hmem v ⟨⟩
  exact (hos key v hmem).sealedOption hn v rfl

-- ============================================================================
-- Prompts
-- ============================================================================

theorem sealed_templateString {t : String} (h : '\r' ∉ t.toList) :
    Sealed (Script.templateString t).toList := by
  rw [Script.templateString, String.toList_ofList]
  exact .template h

/-- In place of a text that is missing stands the input. -/
theorem return_not_mem_getD {t? : Option String} (h : ∀ t, t? = some t → '\r' ∉ t.toList) :
    '\r' ∉ (t?.getD "\x7binput\x7d").toList := by
  cases ht : t? with
  | some t => exact h t ht
  | none =>
      rw [Option.getD_none]
      decide

theorem return_not_mem_firstText? (hn : n.IsReady) (names : List String) :
    GivesOnly (fun t? => ∀ t, t? = some t → '\r' ∉ t.toList) (firstText? n names) := by
  induction names with
  | nil => exact .ok nofun
  | cons name names ih =>
      refine .bind fun text? htext => ?_
      split
      · next t ht =>
        refine .ok fun t' ht' => ?_
        cases ht'
        have hsome := (Option.filter_eq_some_iff.mp ht).1
        exact hn.return_not_mem ((ParameterValue.asText_eq_ok htext).trans hsome)
      · exact ih

/-- A message is sealed, whatever its text. -/
theorem sealed_message {role t : String} (hrole : Import.IsPlainSource role.toList)
    (hreturn : '\r' ∉ role.toList) (ht : '\r' ∉ t.toList) : Sealed (message role t).toList := by
  have hquoted : Sealed ('\'' :: (role.toList ++ ['\''])) := by
    have hquote : Sealed (Script.quote '\'' role.toList) := .quote (by decide) hreturn
    rwa [Import.quote_eq_quotedText hrole (by decide)] at hquote
  have hopen : Sealed [' ', ' ', '['] := .of_all (by decide)
  have hcomma : Sealed [',', ' '] := .of_all (by decide)
  have hall := (((hopen.append hquoted).append hcomma).append (sealed_templateString ht)).append
    (.of_all (s := [']']) (by decide))
  simpa [message] using hall

/-- Whatever a converter declares for a node is sealed. -/
def SealsDeclarations (conv : Converter) : Prop :=
  ∀ n c fs, n.IsReady → conv.convert n c = .ok fs →
    ∀ e ∈ fs, e.type = .declaration → Sealed e.content.toList

/-- What is declared from sealed options is sealed. -/
theorem sealed_declare {options : Except Fault Options} {declaration : String} (hn : n.IsReady)
    (hclass : isIdentifier p.className.toList = true)
    (hoptions : GivesOnly (fun os => ∀ o ∈ os, SealedOption o) options)
    (h : p.declare n options = .ok declaration) : Sealed declaration.toList := by
  obtain ⟨os, hos, -, rfl⟩ := ConverterProfile.declare_eq_ok_iff.mp h
  exact ConverterProfile.sealed_construct hclass hn.varName (hoptions os hos)

/-- An import, a fragment that is sealed, and fragments of other types. -/
theorem sealed_of_mem_fragments {t : FragmentKind} {content : String} {deps exports : List String}
    {isAsync : Bool} (hcontent : Sealed content.toList) :
    ∀ e ∈ [p.importing n [], p.fragment n t content deps exports isAsync],
      e.type = .declaration → Sealed e.content.toList := by
  intro e he htype
  simp only [List.mem_cons, List.not_mem_nil, or_false] at he
  rcases he with rfl | rfl
  · cases htype
  · exact hcontent

theorem sealsDeclarations_model {m : Model} (hm : m ∈ models)
    (h : ImportsName m.profile) : m.converter.SealsDeclarations := by
  intro n c fs hn hfs
  obtain ⟨declaration, hdeclaration, hfs⟩ := bind_eq_ok_iff.mp hfs
  cases hfs
  have hoptions := sealedOption_of_mem_options hn hm
  exact sealed_of_mem_fragments (sealed_declare hn h.className hoptions hdeclaration)

theorem sealsDeclarations_memory (nodeType className : String) (rules : List ParameterRule)
    {extras : Node → Options} (hextras : ∀ n, ∀ o ∈ extras n, SealedOption o)
    (h : ImportsName (memoryConverter nodeType className rules extras).toConverterProfile) :
    (memoryConverter nodeType className rules extras).SealsDeclarations := by
  intro n c fs hn hfs
  obtain ⟨declaration, hdeclaration, hfs⟩ := bind_eq_ok_iff.mp hfs
  cases hfs
  have hoptions := sealedOption_of_mem_memoryOptions hn (hextras n)
  exact sealed_of_mem_fragments (sealed_declare hn h.className hoptions hdeclaration)

theorem sealsDeclarations_tool (nodeType package className : String)
    (arguments : Node → Except Fault (List String)) :
    (toolConverter nodeType package className arguments).SealsDeclarations := by
  intro n c fs hn hfs e he htype
  obtain ⟨args, -, hfs⟩ := bind_eq_ok_iff.mp hfs
  cases hfs
  simp only [List.mem_cons, List.not_mem_nil, or_false] at he
  rcases he with rfl | rfl
  · cases htype
  · cases htype

theorem sealsDeclarations_prompt (p : ConverterProfile) {expression : Node → Except Fault String}
    (hexpression : ∀ n : Node, n.IsReady → GivesOnly (fun t => Sealed t.toList) (expression n)) :
    (promptConverter p expression).SealsDeclarations := by
  intro n c fs hn hfs
  obtain ⟨value, hvalue, hfs⟩ := bind_eq_ok_iff.mp hfs
  cases hfs
  refine sealed_of_mem_fragments ?_
  rw [nameFor_eq p hn.varName]
  simp only [String.toList_append]
  have hconst : Sealed "const ".toList := .of_all (by decide)
  have hequals : Sealed " = ".toList := .of_all (by decide)
  have hname := (hconst.append hn.varName.sealed).append hequals
  exact (hname.append (hexpression n hn value hvalue)).append (.of_all (by decide))

theorem sealsDeclarations_promptTemplate : promptTemplate.SealsDeclarations := by
  refine sealsDeclarations_prompt _ fun n hn => .bind fun template htext => .ok ?_
  have hopen : Sealed "PromptTemplate.fromTemplate(".toList := .of_all (by decide)
  have hreturn : ∀ t, template = some t → '\r' ∉ t.toList := fun t ht =>
    hn.return_not_mem ((ParameterValue.asText_eq_ok htext).trans ht)
  have htemplate := sealed_templateString (return_not_mem_getD hreturn)
  simp only [String.toList_append]
  exact (hopen.append htemplate).append (.of_all (by decide))

theorem sealsDeclarations_chatPromptTemplate : chatPromptTemplate.SealsDeclarations := by
  refine sealsDeclarations_prompt _ fun n hn =>
    .bind fun system hsystem => .bind fun human hhuman => .ok ?_
  replace hsystem := return_not_mem_firstText? hn _ system hsystem
  replace hhuman := return_not_mem_firstText? hn _ human hhuman
  have hlast : Sealed (message "human" _).toList :=
    sealed_message (.of_all (by decide) (by decide)) (by decide) (return_not_mem_getD hhuman)
  have hopen : Sealed "ChatPromptTemplate.fromMessages([\n".toList := .of_all (by decide)
  have hclose : Sealed "\n])".toList := .of_all (by decide)
  simp only [String.toList_append, Text.join, String.toList_ofList]
  refine (hopen.append (.joinWith (.of_all (by decide)) ?_)).append hclose
  simp only [List.map_append, List.forall_mem_append, List.map_singleton, List.forall_mem_singleton]
  refine ⟨?_, hlast⟩
  cases system with
  | none => simp
  | some t =>
      simp only [List.map_singleton, List.forall_mem_singleton]
      exact sealed_message (.of_all (by decide) (by decide)) (by decide) (hsystem t rfl)

theorem sealsDeclarations_of_mem (h : conv ∈ Registry.standardConverters) :
    conv.SealsDeclarations := by
  have hchain : ∀ conv ∈ Registry.standardConverters, conv.category = "chain" →
      conv.SealsDeclarations := fun _ h hcategory n c fs hn hfs e he htype =>
    (isChainDeclaration_of_mem h hcategory hfs he htype).sealed hn
  refine Registry.forall_mem_standardConverters
    (P := fun conv => conv ∈ Registry.standardConverters → conv.SealsDeclarations) ?model
    (fun _ => sealsDeclarations_promptTemplate) (fun _ => sealsDeclarations_chatPromptTemplate)
    (fun h => hchain _ h rfl) (fun h => hchain _ h rfl) ?bufferMemory ?bufferWindowMemory
    (fun _ => sealsDeclarations_tool _ _ _ _) (fun _ => sealsDeclarations_tool _ _ _ _) conv h h
  case model => exact fun m hm h => sealsDeclarations_model hm (importsName_of_mem _ h)
  case bufferMemory =>
    exact fun h => sealsDeclarations_memory _ _ _ (by simp) (importsName_of_mem _ h)
  case bufferWindowMemory =>
    refine fun h => sealsDeclarations_memory _ _ _ (fun n => ?_) (importsName_of_mem _ h)
    exact List.forall_mem_singleton.mpr (.number (by decide) _)

end Converter

-- ============================================================================
-- Comments in place of nodes
-- ============================================================================

/-- A text without a line break. -/
structure OneLine (t : String) : Prop where
  newline : '\n' ∉ t.toList
  noReturn : '\r' ∉ t.toList

instance (t : String) : Decidable (OneLine t) :=
  decidable_of_iff ('\n' ∉ t.toList ∧ '\r' ∉ t.toList) ⟨fun h => ⟨h.1, h.2⟩, fun h => ⟨h.1, h.2⟩⟩

theorem OneLine.append {t u : String} (ht : OneLine t) (hu : OneLine u) : OneLine (t ++ u) :=
  ⟨by simp [ht.newline, hu.newline], by simp [ht.noReturn, hu.noReturn]⟩

theorem OneLine.join {sep : String} {ts : List String} (hsep : OneLine sep)
    (h : ∀ t ∈ ts, OneLine t) : OneLine (Text.join sep ts) := by
  have hmem : ∀ {c : Char}, c ∉ sep.toList → (∀ t ∈ ts, c ∉ t.toList) →
      c ∉ (Text.join sep ts).toList := by
    intro c hsep hts hc
    rw [Text.join, String.toList_ofList] at hc
    rcases Text.mem_joinWith hc with hc | ⟨w, hw, hc⟩
    · exact hsep hc
    · obtain ⟨t, ht, rfl⟩ := List.mem_map.mp hw
      exact hts t ht hc
  exact ⟨hmem hsep.newline fun t ht => (h t ht).newline,
    hmem hsep.noReturn fun t ht => (h t ht).noReturn⟩

/-- A node with no line break in its id, type, label and the names of its parameters, and no
carriage return in their texts. -/
structure Node.IsPlain (n : Node) : Prop where
  id : OneLine n.id
  type : OneLine n.type
  label : OneLine n.label
  names : ∀ p ∈ n.parameters, ∀ t, p.2.name = .str t → OneLine t
  strings : ∀ p ∈ n.parameters, ∀ t, p.2.value = .string t → '\r' ∉ t.toList

theorem Node.oneLine_caption (hid : OneLine n.id) (htype : OneLine n.type)
    (hlabel : OneLine n.label) : OneLine n.caption := by
  unfold Node.caption
  split
  · exact hlabel
  · split
    · exact htype
    · exact hid

/-- The comment in place of a node is one line, whatever the reason. -/
theorem sealed_placeholder {reason : String} (hid : OneLine n.id) (htype : OneLine n.type)
    (hlabel : OneLine n.label) (hreason : OneLine reason) :
    Sealed ((placeholder n reason).content.toList ++ ['\n']) := by
  have hcaption := Node.oneLine_caption hid htype hlabel
  have htodo : OneLine " TODO: " := by decide
  have hfor : OneLine " for node '" := by decide
  have hparen : OneLine "' (" := by decide
  have hopen := ((htodo.append hreason).append hfor).append hcaption
  have hrest :
      OneLine (" TODO: " ++ reason ++ " for node '" ++ n.caption ++ "' (" ++ n.id ++ ")") :=
    ((hopen.append hparen).append hid).append (by decide)
  have hcomment := Sealed.lineComment hrest.newline hrest.noReturn
  have hslashes : "// TODO: ".toList = '/' :: '/' :: " TODO: ".toList := by decide
  simp only [placeholder, String.toList_append, hslashes]
  simpa only [String.toList_append, List.cons_append] using hcomment

theorem Registry.oneLine_handed (hm : HandedOver standard n m) (htype : OneLine n.type) :
    OneLine m.type := by
  have hall : ∀ e ∈ standard.converters, OneLine e.1 := by decide +kernel
  have hregistered : ∀ {type}, standard.hasType type = true → OneLine type := by
    intro type h
    obtain ⟨e, he, heq⟩ := List.any_eq_true.mp h
    rw [← of_decide_eq_true heq]
    exact hall e he
  rcases hm.type with heq | hresolved
  · rwa [heq]
  · unfold Registry.resolvedType? at hresolved
    split at hresolved
    · rwa [← Option.some.inj hresolved]
    · exact hregistered (Option.filter_eq_some_iff.mp hresolved).2

theorem Registry.oneLine_rule :
    ∀ conv ∈ standardConverters, ∀ rule ∈ conv.rules, OneLine rule.name := by
  decide +kernel

theorem Converter.mem_of_textsOf {names : List Scalar} {ts : List String}
    (h : textsOf names = .ok ts) : ∀ t ∈ ts, .str t ∈ names := by
  unfold textsOf at h
  induction names generalizing ts with
  | nil =>
      cases h
      simp
  | cons s names ih =>
      rw [List.mapM_cons] at h
      obtain ⟨t, ht, h⟩ := bind_eq_ok_iff.mp h
      obtain ⟨ts', hts, h⟩ := bind_eq_ok_iff.mp h
      cases h
      split at ht
      · cases ht
        intro t ht
        rcases List.mem_cons.mp ht with rfl | ht
        · exact List.mem_cons_self
        · exact List.mem_cons_of_mem _ (ih hts t ht)
      · cases ht

/-- What is said about a node that was handed over is one line. -/
theorem IsReason.oneLine {reason : String} (hplain : ∀ n ∈ g.nodes, n.IsPlain)
    (htype : OneLine m.type) (h : IsReason (some (Registry.standard.check g)) m reason) :
    OneLine reason := by
  have hquote : OneLine "'" := by decide
  cases h with
  | unsupported =>
      have hword : OneLine "Unsupported node type '" := by decide
      exact (hword.append htype).append hquote
  | rejected =>
      have hword : OneLine "Converter for '" := by decide
      exact (hword.append htype).append (by decide)
  | missing hnames =>
      have hword : OneLine "Missing required parameters (" := by decide
      refine (hword.append (.join (by decide) fun t ht => ?_)).append (by decide)
      have hmissing := Converter.mem_of_textsOf hnames t ht
      rcases Registry.exists_of_mem_missing hmissing with
        ⟨n, hn, -, ⟨rule, hrule, heq⟩ | ⟨p, hp, -, heq⟩⟩
      · cases heq
        unfold Registry.rulesOf at hrule
        split at hrule
        · next conv hconv =>
          have hmem := Registry.mem_standardConverters_of_get? hconv
          exact Registry.oneLine_rule conv hmem rule hrule
        · cases hrule
      · exact (hplain n hn).names p hp t heq.symm
  | failed =>
      have hword : OneLine "Conversion failed for '" := by decide
      exact (hword.append htype).append hquote

-- ============================================================================
-- Declarations of a draft
-- ============================================================================

/-- Bound nodes are ready to be written. -/
theorem Graph.isReady_bind (hn : n ∈ g.nodes) (hplain : n.IsPlain) :
    (g.bind n g.varNames).IsReady := by
  obtain ⟨taken, hnames⟩ := g.namesOf_varNames
  refine ⟨Graph.isName_varName (List.mem_map_of_mem hn), ?_, ?_⟩
  · intro i v hv
    obtain ⟨k, -, -, -, hsource⟩ := Graph.exists_connection_of_input? hv
    exact hnames.isName hsource
  · intro name t ht
    have hparam : n.param name = .string t := ht
    unfold Node.param at hparam
    split at hparam
    · next p hp =>
      obtain ⟨e, he, rfl⟩ := Option.map_eq_some_iff.mp hp
      exact hplain.strings e (List.mem_of_find?_eq_some he) t hparam
    · cases hparam

/-- Whatever becomes of a node, its declarations are sealed. -/
theorem Registry.sealed_outcome (hplain : ∀ n ∈ g.nodes, n.IsPlain) (hn : n ∈ g.nodes)
    (ho : standard.outcome (some (standard.check g)) c (g.bind n g.varNames) = .ok o) :
    ∀ e ∈ o.fragments, e.type = .declaration → Sealed (e.content.toList ++ ['\n']) := by
  intro e he htype
  have hnode := hplain n hn
  rcases Registry.outcome_cases ho with
    ⟨m, reason, warning, hm, hreason, rfl⟩ | ⟨conv, type, fs, ws, hconv, hfs, rfl⟩
  · have hid : OneLine m.id := by
      rw [hm.id]
      exact hnode.id
    have hlabel : OneLine m.label := by
      rw [hm.label]
      exact hnode.label
    have hhanded : OneLine m.type := Registry.oneLine_handed hm hnode.type
    rw [List.mem_singleton.mp he]
    exact sealed_placeholder hid hhanded hlabel (hreason.oneLine hplain hhanded)
  · have hready := Graph.isReady_bind hn hnode
    have hgiven : Node.IsReady { g.bind n g.varNames with type := type } :=
      ⟨hready.varName, hready.inputs, hready.strings⟩
    have hmem := Registry.mem_standardConverters_of_get? hconv
    have hsealed := Converter.sealsDeclarations_of_mem hmem _ c fs hgiven hfs e he htype
    exact hsealed.append (.of_all (by decide))

theorem Tracing.sealed_of_mem_fragments : ∀ f ∈ fragments c, f.type = .declaration →
    Sealed (f.content.toList ++ ['\n']) := by
  intro f hf htype
  unfold fragments at hf
  split at hf
  · cases hf
  · simp only [List.mem_cons, List.not_mem_nil, or_false] at hf
    rcases hf with rfl | rfl
    · cases htype
    · exact .of_all (by decide)

/-- Each declaration of a program, on lines of its own, leads from code to code. -/
theorem Drafted.sealed_declaration (h : Drafted Registry.standard s g c d)
    (hplain : ∀ n ∈ g.nodes, n.IsPlain) :
    ∀ x ∈ d.assembled.contents .declaration, Sealed (x.toList ++ ['\n']) := by
  intro x hx
  obtain ⟨f, hf, rfl⟩ := Assembled.mem_contents.mp hx
  have htype := type_of_mem_group h hf
  obtain ⟨e, he, order, rfl⟩ := Assembly.exists_of_mem_group h.assembled hf
  rw [List.flatten_cons, List.mem_append] at he
  rcases he with he | he
  · exact Tracing.sealed_of_mem_fragments e he htype
  · obtain ⟨fs, hfs, he⟩ := List.mem_flatten.mp he
    rw [h.slots_eq] at hfs
    obtain ⟨n, hn, rfl⟩ := List.mem_map.mp hfs
    obtain ⟨o, ho, hfragments⟩ := h.exists_outcome hn
    rw [hfragments] at he
    have hmem := (Graph.node?_eq_some (h.isOrder.first n hn)).1
    exact Registry.sealed_outcome hplain hmem ho e he htype

end Flowscript

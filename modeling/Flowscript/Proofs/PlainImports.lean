/-
  Flowscript.Proofs.PlainImports

  The imports of generated programs.

  All converters import plain names from plain sources, so nothing in the import block
  depends on the order in which the imports arrive (`blockOf_congr_of_namesOnly`), and the
  block leads from code to code (`sealed_blockOf`).
-/
import Flowscript.Proofs.ChainInputs
import Flowscript.Proofs.ImportBlock
import Flowscript.Proofs.SealedText

namespace Flowscript

variable {s : Strategy} {g : Graph} {c : Context} {d : Draft}

-- ============================================================================
-- Imports of names
-- ============================================================================

namespace Import

open Format (Sealed)

variable {texts texts' : List (List Char)} {q : Char} {format : ModuleFormat}

/-- An import of names, which are not renamed, from a source of one line. -/
structure Statement.BindsNames (st : Statement) : Prop where
  defaults : st.bound.defaults = []
  namespaces : st.bound.namespaces = []
  named : ∀ name ∈ st.bound.named, Naming.isIdentifier name = true
  source : '\r' ∉ st.key.1

/-- A text of imports of names, and of nothing else. -/
structure NamesOnly (text : List Char) : Prop where
  unparsed : (parse [text]).unparsed = []
  bound : ∀ st ∈ statementsIn [text], st.BindsNames

/-- Statements of valid forms, one on each line, are read as they are. -/
theorem statementsIn_lines {lines : List (Form × List Char)} (hq : isQuote q = true)
    (hvalid : ∀ line ∈ lines, line.1.IsValid ∧ IsPlainSource line.2) :
    statementsIn [Text.joinWith ['\n'] (lines.map (lineText q))] =
        lines.map (fun line => line.1.statement line.2) ∧
      (parse [Text.joinWith ['\n'] (lines.map (lineText q))]).unparsed = [] := by
  have hread : ∀ line ∈ lines, lineText q line ≠ [] ∧
      ∀ r, statement? (lineText q line ++ r) = some (line.1.statement line.2, r) :=
    fun line hline => read_lineText (hvalid line hline).1 (hvalid line hline).2 hq
  have hbreak : Text.isBlankText ['\n'] = true := by decide
  have hspelled := Spelled.joinWith hbreak hread (.blank (b := []) rfl)
  rw [List.append_nil, List.append_nil] at hspelled
  exact hspelled.parse

/-- Statements of forms that bind names, one on each line. -/
theorem namesOnly_lines {lines : List (Form × List Char)} (hq : isQuote q = true)
    (hvalid : ∀ line ∈ lines, line.1.IsValid ∧ IsPlainSource line.2)
    (hbound : ∀ line ∈ lines, (line.1.statement line.2).BindsNames) :
    NamesOnly (Text.joinWith ['\n'] (lines.map (lineText q))) := by
  obtain ⟨hstatements, hunparsed⟩ := statementsIn_lines hq hvalid
  refine ⟨hunparsed, fun st hst => ?_⟩
  rw [hstatements] at hst
  obtain ⟨line, hline, rfl⟩ := List.mem_map.mp hst
  exact hbound line hline

/-- The import of one name. -/
def nameForm (name : List Char) : Form :=
  .declared false (.names ⟨[' '], [' '], [' ']⟩ [.same name])

theorem isValid_nameForm {name : List Char} (h : Naming.isIdentifier name = true) :
    (nameForm name).IsValid := by
  refine ⟨⟨by decide, by decide, by decide⟩, by simp, ?_⟩
  simpa [Item.IsValid] using h

theorem bindsNames_nameForm {name source : List Char} (h : Naming.isIdentifier name = true)
    (hsource : '\r' ∉ source) : ((nameForm name).statement source).BindsNames := by
  have hbound : ((nameForm name).statement source).bound = { named := [name] } :=
    Form.bound_statement (isValid_nameForm h) source
  have hkey := Form.key_statement (nameForm name) source
  refine ⟨by rw [hbound], by rw [hbound], ?_, by rwa [hkey]⟩
  rw [hbound]
  simpa using h

theorem bindsNames_effect {source : List Char} (hsource : '\r' ∉ source) :
    (Form.effect.statement source).BindsNames :=
  ⟨rfl, rfl, by simp [Form.statement, Statement.bound], hsource⟩

theorem lineText_nameForm (q : Char) (name source : List Char) :
    lineText q (nameForm name, source) = importWord ++ ' ' :: '\x7b' :: ' ' ::
      (name ++ ' ' :: '\x7d' :: ' ' :: (fromWord ++ ' ' :: q :: (source ++ [q, ';']))) := by
  simp [lineText, nameForm, Form.text, regionText, Clause.text, inBraces, Layout.body,
    Item.inClause, Item.spelled, quotedText]

theorem effect_eq_lines {source : List Char} (hq : isQuote q = true) (h : IsPlainSource source) :
    "import ".toList ++ Script.quote q source ++ [';'] =
      Text.joinWith ['\n'] ([(Form.effect, source)].map (lineText q)) := by
  rw [quote_eq_quotedText h hq, effect_text]
  rfl

/-- The import of a source for what it does. -/
theorem namesOnly_effect {source : List Char} (hq : isQuote q = true) (h : IsPlainSource source)
    (hreturn : '\r' ∉ source) : NamesOnly ("import ".toList ++ Script.quote q source ++ [';']) := by
  rw [effect_eq_lines hq h]
  refine namesOnly_lines hq ?_ ?_
  · simpa using ⟨trivial, h⟩
  · simpa using bindsNames_effect hreturn

theorem unparsed_of_namesOnly (h : ∀ t ∈ texts, NamesOnly t) : (parse texts).unparsed = [] := by
  rw [unparsed_parse]
  simp only [List.flatMap_eq_nil_iff, List.mem_flatMap]
  rintro piece ⟨t, ht, hpiece⟩
  have hline := (h t ht).unparsed
  rw [unparsed_parse] at hline
  simp only [List.flatMap_eq_nil_iff, List.mem_flatMap, List.mem_singleton] at hline
  exact hline piece ⟨t, rfl, hpiece⟩

theorem bound_of_namesOnly (h : ∀ t ∈ texts, NamesOnly t) :
    ∀ st ∈ statementsIn texts, st.BindsNames := by
  intro st hst
  obtain ⟨piece, hpiece, hread⟩ := List.mem_filterMap.mp hst
  obtain ⟨t, ht, hpiece⟩ := List.mem_flatMap.mp hpiece
  refine (h t ht).bound st (List.mem_filterMap.mpr ⟨piece, ?_, hread⟩)
  exact List.mem_flatMap.mpr ⟨t, List.mem_singleton_self t, hpiece⟩

/-- A spec of names that are not renamed, from a source of one line. -/
structure Spec.BindsNames (s : Spec) : Prop where
  defaults : s.defaults = []
  namespaces : s.namespaces = []
  named : ∀ name ∈ s.named, Naming.isIdentifier name = true
  source : '\r' ∉ s.source

theorem Spec.bindsNames_of_statements {sts : List Statement} (h : ∀ st ∈ sts, st.BindsNames)
    {specs : List Spec} (hspecs : Gathered sts specs) : ∀ s ∈ specs, s.BindsNames := by
  intro s hs
  obtain ⟨⟨st, hst, hkey⟩, hspec⟩ := hspecs.mem_iff.mp hs
  refine ⟨?_, ?_, fun name hname => ?_, ?_⟩
  · refine List.eq_nil_iff_forall_not_mem.mpr fun x hx => ?_
    rw [hspec] at hx
    obtain ⟨st, hst, -, hx⟩ := mem_defaults_specOf.mp hx
    simp [(h st hst).defaults] at hx
  · refine List.eq_nil_iff_forall_not_mem.mpr fun x hx => ?_
    rw [hspec] at hx
    obtain ⟨st, hst, -, hx⟩ := mem_namespaces_specOf.mp hx
    simp [(h st hst).namespaces] at hx
  · rw [hspec] at hname
    obtain ⟨st, hst, -, hname, -⟩ := mem_named_specOf.mp hname
    exact (h st hst).named name hname
  · have hsource := (h st hst).source
    rwa [hkey] at hsource

/-- Imports of names have one block, in whatever order they arrive. -/
theorem blockOf_congr_of_namesOnly (h : ∀ t ∈ texts, NamesOnly t) (hperm : texts.Perm texts') :
    blockOf format q texts = blockOf format q texts' := by
  have h' : ∀ t ∈ texts', NamesOnly t := fun t ht => h t (hperm.mem_iff.mpr ht)
  refine blockOf_congr (fun st => (statementsIn_perm hperm).mem_iff)
    ((unparsed_of_namesOnly h).trans (unparsed_of_namesOnly h').symm) fun spec hspec => ?_
  -- nothing is there that could stand in the order of its arrival
  have hbinds :=
    Spec.bindsNames_of_statements (bound_of_namesOnly h) (gathered_parse texts) spec hspec
  simp [hbinds.defaults, hbinds.namespaces]

-- ============================================================================
-- What is rendered for names
-- ============================================================================

theorem isCodeChar_of_isIdentifierPart {c : Char} (h : Naming.isIdentifierPart c = true) :
    Format.isCodeChar c = true :=
  Format.isCodeChar_of_sort (by decide) h

theorem sealed_identifier {name : List Char} (h : Naming.isIdentifier name = true) : Sealed name :=
  .code fun _ hc => isCodeChar_of_isIdentifierPart (Naming.isIdentifierPart_of_mem h hc)

theorem sealed_braces {names : List (List Char)} (h : ∀ name ∈ names, Sealed name) :
    Sealed (braces names) := by
  unfold braces
  simp only
  split
  · have hlines : ∀ line ∈ names.map fun name => ' ' :: ' ' :: name, Sealed line := by
      simp only [List.forall_mem_map]
      exact fun name hname => .append (.of_all (s := [' ', ' ']) (by decide)) (h name hname)
    have hlist := Sealed.joinWith (.of_all (s := [',', '\n']) (by decide)) hlines
    exact (Sealed.append (.of_all (s := ['\x7b', '\n']) (by decide)) hlist).append
      (.of_all (by decide))
  · have hlist := Sealed.joinWith (.of_all (s := [',', ' ']) (by decide)) h
    exact (Sealed.append (.of_all (s := ['\x7b', ' ']) (by decide)) hlist).append
      (.of_all (by decide))

/-- The statements of a source of names are sealed. -/
theorem sealed_render (hq : isQuote q = true) {spec : Spec} (h : spec.BindsNames) :
    ∀ line ∈ render format q spec, Sealed line := by
  have hsource : Sealed (Script.quote q spec.source) := .quote hq h.source
  have hnames : ∀ name ∈ spec.named.mergeSort nameLe, Naming.isIdentifier name = true :=
    fun name hname => h.named name (List.mem_mergeSort.mp hname)
  have hbraces := sealed_braces fun name hname => sealed_identifier (hnames name hname)
  have hbindings : (spec.named.mergeSort nameLe).map bindingItem = spec.named.mergeSort nameLe := by
    refine (List.map_congr_left fun name hname => ?_).trans (List.map_id _)
    exact Item.IsValid.bindingItem_inClause (i := .same name) (hnames name hname)
  have hend : Sealed [';'] := .of_all (by decide)
  have hkeyword : Sealed (if spec.isType then "import type ".toList else "import ".toList) := by
    cases spec.isType <;> exact .of_all (by decide)
  have himport : Sealed "import ".toList := .of_all (by decide)
  have hfrom : Sealed " from ".toList := .of_all (by decide)
  have hconst : Sealed "const ".toList := .of_all (by decide)
  have hequals : Sealed " = ".toList := .of_all (by decide)
  have hrequire : Sealed "require(".toList := .of_all (by decide)
  have hcall : Sealed ("require(".toList ++ Script.quote q spec.source ++ [')', ';']) :=
    (hrequire.append hsource).append (.of_all (by decide))
  intro line hline
  unfold render at hline
  simp only at hline
  split at hline
  · simp only [declarations, h.defaults, h.namespaces, List.map_nil, List.append_nil] at hline
    rcases List.mem_append.mp hline with hline | hline
    · cases hempty : (spec.named.mergeSort nameLe).isEmpty with
      | true => simp [hempty] at hline
      | false =>
          simp only [hempty, Bool.false_eq_true, if_false, Text.joinWith_singleton,
            List.mem_singleton] at hline
          rw [hline]
          exact (((hkeyword.append hbraces).append hfrom).append hsource).append hend
    · split at hline
      · rw [List.mem_singleton.mp hline]
        exact (himport.append hsource).append hend
      · cases hline
  · simp only [calls, h.defaults, h.namespaces, hbindings, List.map_nil, List.nil_append,
      List.append_nil] at hline
    rcases List.mem_append.mp hline with hline | hline
    · split at hline
      · cases hline
      · rw [List.mem_singleton.mp hline]
        exact ((hconst.append hbraces).append hequals).append hcall
    · split at hline
      · rw [List.mem_singleton.mp hline]
        exact hcall
      · cases hline

/-- A block of sealed statements is sealed. -/
theorem sealed_block {p : Parsed} (hunparsed : p.unparsed = [])
    (h : ∀ s ∈ p.specs, ∀ line ∈ render format q s, Sealed line) : Sealed (block format q p) := by
  refine .joinWith (.of_all (by decide)) ?_
  simp only [List.forall_mem_map, List.mem_filter]
  rintro lines ⟨hlines, -⟩
  refine .joinWith (.of_all (by decide)) fun line hline => ?_
  rcases List.mem_append.mp hlines with hgroup | hrest
  · obtain ⟨n, -, rfl⟩ := List.mem_map.mp hgroup
    obtain ⟨s, hs, hline⟩ := List.mem_flatMap.mp hline
    exact h s (List.mem_mergeSort.mp (List.mem_filter.mp hs).1) line hline
  · rw [List.mem_singleton.mp hrest, hunparsed] at hline
    cases hline

/-- The block of imports of names leads from code to code. -/
theorem sealed_blockOf (hq : isQuote q = true) (h : ∀ t ∈ texts, NamesOnly t) :
    Sealed (blockOf format q texts) :=
  sealed_block (unparsed_of_namesOnly h) fun s hs =>
    sealed_render hq
      (Spec.bindsNames_of_statements (bound_of_namesOnly h) (gathered_parse texts) s hs)

end Import

-- ============================================================================
-- What converters make
-- ============================================================================

/-- A fragment whose place does not show in what is collected from all of them. -/
structure Fragment.IsPlain (f : Fragment) : Prop where
  imports : f.type = .imports → Import.NamesOnly f.content.toList
  exports : f.type = .exports → f.dependencies = []

theorem isPlain_placeholder (n : Node) (reason : String) : (placeholder n reason).IsPlain :=
  ⟨nofun, nofun⟩

namespace Tracing

/-- The imports of the tracing client: the client, and how it is set up. -/
def importLines (format : ModuleFormat) : List (Import.Form × List Char) :=
  [(Import.nameForm "Langfuse".toList, "langfuse".toList),
    (Import.nameForm "langfuseConfig".toList, (format.siblingPath "config").toList)]

theorem isValid_importLines (format : ModuleFormat) :
    ∀ line ∈ importLines format, line.1.IsValid ∧ Import.IsPlainSource line.2 := by
  simp only [importLines, List.forall_mem_cons]
  refine ⟨⟨Import.isValid_nameForm (by decide), .of_all (by decide) (by decide)⟩,
    ⟨Import.isValid_nameForm (by decide), ?_⟩, by simp⟩
  cases format <;> exact .of_all (by decide) (by decide)

theorem import_eq_lines (q : Char) (format : ModuleFormat) :
    ("import \x7b Langfuse \x7d from " ++ String.singleton q ++ "langfuse" ++
        String.singleton q ++ ";\n" ++ "import \x7b langfuseConfig \x7d from " ++
        String.singleton q ++ format.siblingPath "config" ++ String.singleton q ++ ";").toList =
      Text.joinWith ['\n'] ((importLines format).map (Import.lineText q)) := by
  have hclient : "import \x7b Langfuse \x7d from ".toList = Import.importWord ++ ' ' :: '\x7b' ::
      ' ' :: ("Langfuse".toList ++ ' ' :: '\x7d' :: ' ' :: (Import.fromWord ++ [' '])) := by decide
  have hconfig : "import \x7b langfuseConfig \x7d from ".toList = Import.importWord ++ ' ' ::
      '\x7b' :: ' ' :: ("langfuseConfig".toList ++ ' ' :: '\x7d' :: ' ' ::
        (Import.fromWord ++ [' '])) := by decide
  have hend : ";\n".toList = [';', '\n'] := by decide
  simp only [importLines, String.toList_append, hclient, hconfig, hend]
  -- what the two names and the source are made of does not matter
  generalize "Langfuse".toList = client
  generalize "langfuseConfig".toList = config
  generalize "langfuse".toList = source
  simp [Import.lineText_nameForm]

/-- The imports of the tracing client bind two names. -/
theorem namesOnly_import {q : Char} (hq : Import.isQuote q = true) (format : ModuleFormat) :
    Import.NamesOnly (Text.joinWith ['\n'] ((importLines format).map (Import.lineText q))) := by
  refine Import.namesOnly_lines hq (isValid_importLines format) ?_
  simp only [importLines, List.forall_mem_cons]
  refine ⟨Import.bindsNames_nameForm (by decide) (by decide),
    Import.bindsNames_nameForm (by decide) ?_, by simp⟩
  cases format <;> decide

end Tracing

theorem CodeStyle.isQuote_quote (style : CodeStyle) : Import.isQuote style.quote = true := by
  unfold CodeStyle.quote
  split <;> decide

theorem Tracing.isPlain_of_mem_fragments : ∀ f ∈ fragments c, f.IsPlain := by
  intro f hf
  unfold fragments at hf
  split at hf
  · cases hf
  · simp only [List.mem_cons, List.not_mem_nil, or_false] at hf
    rcases hf with rfl | rfl
    · refine ⟨fun _ => ?_, nofun⟩
      rw [import_eq_lines]
      exact namesOnly_import c.style.isQuote_quote _
    · exact ⟨nofun, nofun⟩

namespace Converter

variable {conv : Converter} {p : ConverterProfile} {n : Node}

/-- The class of a converter and its package can be written in an import as they are. -/
structure ImportsName (p : ConverterProfile) : Prop where
  package : Import.IsPlainSource p.package.toList
  noReturn : '\r' ∉ p.package.toList
  className : Naming.isIdentifier p.className.toList = true

theorem importsName_of_mem : ∀ conv ∈ Registry.standardConverters,
    ImportsName conv.toConverterProfile := by
  have hnames : ∀ conv ∈ Registry.standardConverters, conv.package ≠ "" ∧
      conv.package.toList.all Import.isPlainSourceChar = true ∧ '\r' ∉ conv.package.toList ∧
      Naming.isIdentifier conv.className.toList = true := by
    decide +kernel
  intro conv hconv
  obtain ⟨hne, hplain, hreturn, hclass⟩ := hnames conv hconv
  refine ⟨.of_all ?_ hplain, hreturn, hclass⟩
  rwa [Ne, String.toList_eq_nil_iff]

/-- The import of the class of a converter. -/
def classLine (p : ConverterProfile) : Import.Form × List Char :=
  (Import.nameForm p.className.toList, p.package.toList)

theorem ImportsName.isValid_classLine (h : ImportsName p) :
    (classLine p).1.IsValid ∧ Import.IsPlainSource (classLine p).2 :=
  ⟨Import.isValid_nameForm h.className, h.package⟩

theorem ImportsName.import_eq_lines (h : ImportsName p) :
    (ConverterProfile.importNames p.package [p.className]).toList =
      Text.joinWith ['\n'] ([classLine p].map (Import.lineText '\'')) := by
  have hopen : "import \x7b ".toList = Import.importWord ++ [' ', '\x7b', ' '] := by decide
  have hclose : " \x7d from ".toList = ' ' :: '\x7d' :: ' ' :: (Import.fromWord ++ [' ']) := by
    decide
  have hquoted := Import.quote_eq_quotedText h.package (by decide : Import.isQuote '\'' = true)
  simp only [List.map_cons, List.map_nil, Text.joinWith_singleton, Import.lineText_nameForm,
    classLine, ConverterProfile.importNames, String.toList_append, hopen, hclose,
    Script.quoteString, hquoted, Text.join, String.toList_ofList, Import.quotedText]
  simp

/-- The import of the class binds that name only. -/
theorem ImportsName.namesOnly (h : ImportsName p) :
    Import.NamesOnly (ConverterProfile.importNames p.package [p.className]).toList := by
  rw [h.import_eq_lines]
  refine Import.namesOnly_lines (by decide) ?_ ?_
  · simpa using h.isValid_classLine
  · simpa [classLine] using Import.bindsNames_nameForm h.className h.noReturn

/-- What is made of a node is the import of the class, and fragments that need no package. -/
def ImportsFirst (conv : Converter) : Prop :=
  ∀ n c fs, conv.convert n c = .ok fs → ∃ others, fs = conv.importing n [] :: others ∧
    ∀ f ∈ others, f.type ≠ .imports ∧ f.dependencies = []

theorem importsFirst_model (m : Model) : m.converter.ImportsFirst := by
  intro n c fs hfs
  obtain ⟨os, -, hfs⟩ := bind_eq_ok_iff.mp hfs
  cases hfs
  exact ⟨_, rfl, by simp [ConverterProfile.fragment]⟩

theorem importsFirst_chain (nodeType className : String) (options : Node → Except Fault Options) :
    (chainConverter nodeType className options).ImportsFirst := by
  intro n c fs hfs
  obtain ⟨os, -, hfs⟩ := bind_eq_ok_iff.mp hfs
  cases hfs
  exact ⟨_, rfl, by simp [ConverterProfile.fragment]⟩

theorem importsFirst_tool (nodeType package className : String)
    (arguments : Node → Except Fault (List String)) :
    (toolConverter nodeType package className arguments).ImportsFirst := by
  intro n c fs hfs
  obtain ⟨args, -, hfs⟩ := bind_eq_ok_iff.mp hfs
  cases hfs
  exact ⟨_, rfl, by simp [ConverterProfile.fragment]⟩

theorem importsFirst_prompt (p : ConverterProfile) (expression : Node → Except Fault String) :
    (promptConverter p expression).ImportsFirst := by
  intro n c fs hfs
  obtain ⟨value, -, hfs⟩ := bind_eq_ok_iff.mp hfs
  cases hfs
  exact ⟨_, rfl, by simp [ConverterProfile.fragment]⟩

theorem importsFirst_memory (nodeType className : String) (rules : List ParameterRule)
    (extras : Node → Options) :
    (memoryConverter nodeType className rules extras).ImportsFirst := by
  intro n c fs hfs
  obtain ⟨declaration, -, hfs⟩ := bind_eq_ok_iff.mp hfs
  cases hfs
  exact ⟨_, rfl, by simp [ConverterProfile.fragment]⟩

theorem importsFirst_of_mem (h : conv ∈ Registry.standardConverters) : conv.ImportsFirst := by
  refine Registry.forall_mem_of_families importsFirst_model ?_ importsFirst_chain
    importsFirst_memory importsFirst_tool conv h
  exact fun _ _ _ _ => importsFirst_prompt _ _

/-- Whatever a converter makes of a node is plain. -/
theorem isPlain_of_convert {fs : List Fragment} (h : conv ∈ Registry.standardConverters)
    (hfs : conv.convert n c = .ok fs) : ∀ f ∈ fs, f.IsPlain := by
  obtain ⟨others, rfl, hothers⟩ := importsFirst_of_mem h n c fs hfs
  intro f hf
  rcases List.mem_cons.mp hf with rfl | hf
  · exact ⟨fun _ => (importsName_of_mem conv h).namesOnly, nofun⟩
  · exact ⟨fun hkind => absurd hkind (hothers f hf).1, fun _ => (hothers f hf).2⟩

end Converter

-- ============================================================================
-- Imports of a draft
-- ============================================================================

/-- The texts from which the imports of the main module are collected. -/
def ProjectFile.importTexts (c : Context) (a : Assembled) : List (List Char) :=
  ("import ".toList ++ Script.quote c.style.quote "dotenv/config".toList ++ [';']) ::
    (a.contents .imports).map String.toList

theorem ProjectFile.importBlock_eq (c : Context) (a : Assembled) :
    importBlock c a =
      String.ofList (Import.blockOf c.moduleFormat c.style.quote (importTexts c a)) := rfl

theorem Assembled.mem_contents {a : Assembled} {t : FragmentKind} {x : String} :
    x ∈ a.contents t ↔ ∃ f ∈ a.group t, f.content = x := List.mem_map

namespace Drafted

variable (h : Drafted Registry.standard s g c d)

include h

/-- What holds of the fragments of tracing, of placeholders and of all that the built-in converters
make holds of every fragment of a draft. -/
theorem forall_fragments {P : Fragment → Prop} (tracing : ∀ f ∈ Tracing.fragments c, P f)
    (leftOut : ∀ n reason, P (placeholder n reason))
    (made : ∀ conv ∈ Registry.standardConverters, ∀ n fs, conv.convert n c = .ok fs →
      ∀ f ∈ fs, P f) :
    ∀ f ∈ (Tracing.fragments c :: d.slots g).flatten, P f := by
  intro f hf
  rw [List.flatten_cons, List.mem_append] at hf
  rcases hf with hf | hf
  · exact tracing f hf
  · obtain ⟨fs, hfs, hf⟩ := List.mem_flatten.mp hf
    rw [h.slots_eq] at hfs
    obtain ⟨n, hn, rfl⟩ := List.mem_map.mp hfs
    obtain ⟨o, ho, hfragments⟩ := h.exists_outcome hn
    rw [hfragments] at hf
    rcases Registry.outcome_cases ho with
      ⟨m, reason, warning, -, -, rfl⟩ | ⟨conv, type, fs, ws, hconv, hfs, rfl⟩
    · rw [List.mem_singleton.mp hf]
      exact leftOut m reason
    · exact made conv (Registry.mem_standardConverters_of_get? hconv) _ fs hfs f hf

theorem isPlain : ∀ f ∈ (Tracing.fragments c :: d.slots g).flatten, f.IsPlain :=
  h.forall_fragments Tracing.isPlain_of_mem_fragments isPlain_placeholder
    fun _ hconv _ _ => Converter.isPlain_of_convert hconv

/-- What is imported binds names only. -/
theorem namesOnly_imports :
    ∀ t ∈ ProjectFile.importTexts c d.assembled, Import.NamesOnly t := by
  intro t ht
  rcases List.mem_cons.mp ht with rfl | ht
  · exact Import.namesOnly_effect c.style.isQuote_quote (.of_all (by decide) (by decide))
      (by decide)
  · obtain ⟨x, hx, rfl⟩ := List.mem_map.mp ht
    obtain ⟨f, hf, rfl⟩ := Assembled.mem_contents.mp hx
    obtain ⟨e, he, order, rfl⟩ := Assembly.exists_of_mem_group h.assembled hf
    rw [Assembly.group_of_assemble h.assembled, List.mem_filter] at hf
    exact (h.isPlain e he).imports (by simpa using hf.2)

/-- The imports of the main module lead from code to code. -/
theorem sealed_importBlock : Format.Sealed (ProjectFile.importBlock c d.assembled).toList := by
  rw [ProjectFile.importBlock_eq, String.toList_ofList]
  exact Import.sealed_blockOf c.style.isQuote_quote h.namesOnly_imports

end Drafted

end Flowscript

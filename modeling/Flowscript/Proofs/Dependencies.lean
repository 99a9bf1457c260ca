/-
  Flowscript.Proofs.Dependencies

  The packages of generated programs.

  A program depends on the packages its fragments name, and imports from the sources in
  their texts.  That the first cover the second is shown from the statements up:

    * texts whose statements all come from sources of one kind (`Import.ImportsFrom`) have a
      block with sources of that kind only, as readers of the block see it;
    * an import fragment carries the packages of its sources, if they are not among those of
      every program (`Fragment.CarriesPackages`); all built-in converters make such fragments;
    * the packages of a program are those of all its fragments, sorted (`Dependency.mem_all`).

  `dependencies_cover_imports` puts them together.
-/
import Flowscript.Proofs.Conversion
import Flowscript.Proofs.MainModule
import Flowscript.Proofs.PlainImports
import Flowscript.Proofs.Sorting

namespace Flowscript

variable {s : Strategy} {g : Graph} {c : Context} {d : Draft} {p : Project}

-- ============================================================================
-- Sources of imports
-- ============================================================================

namespace Import

variable {P Q : List Char → Prop} {texts texts' : List (List Char)} {q : Char}

/-- The source is a file of the program itself. -/
def isRelative (source : List Char) : Bool := Text.startsWith ['.'] source

/-- The package of a source: its first segment, or its first two if the name has a scope. -/
def packageOf (source : List Char) : List Char :=
  let segments := Text.splitOn '/' source
  Text.joinWith ['/'] (segments.take (if Text.startsWith ['@'] source then 2 else 1))

/-- The texts are read as well-formed statements, from sources that satisfy `P`. -/
def ImportsFrom (P : List Char → Prop) (texts : List (List Char)) : Prop :=
  ∃ ts : List ImportText, (∀ t ∈ ts, t.IsWellFormed ∧ P t.source) ∧
    statementsIn texts = ts.map fun t => t.form.statement t.source

theorem statementsIn_append (texts texts' : List (List Char)) :
    statementsIn (texts ++ texts') = statementsIn texts ++ statementsIn texts' := by
  rw [statementsIn, List.flatMap_append, List.filterMap_append]
  rfl

namespace ImportsFrom

theorem mono (h : ImportsFrom P texts) (hPQ : ∀ source, P source → Q source) :
    ImportsFrom Q texts := by
  obtain ⟨ts, hts, hstatements⟩ := h
  exact ⟨ts, fun t ht => ⟨(hts t ht).1, hPQ _ (hts t ht).2⟩, hstatements⟩

theorem append (h : ImportsFrom P texts) (h' : ImportsFrom P texts') :
    ImportsFrom P (texts ++ texts') := by
  obtain ⟨ts, hts, hstatements⟩ := h
  obtain ⟨ts', hts', hstatements'⟩ := h'
  refine ⟨ts ++ ts', fun t ht => ?_, ?_⟩
  · exact (List.mem_append.mp ht).elim (hts t) (hts' t)
  · rw [statementsIn_append, hstatements, hstatements', List.map_append]

theorem of_forall (h : ∀ t ∈ texts, ImportsFrom P [t]) : ImportsFrom P texts := by
  induction texts with
  | nil => exact ⟨[], by simp, rfl⟩
  | cons t texts ih =>
      have hfirst : ImportsFrom P [t] := h t List.mem_cons_self
      exact hfirst.append (ih fun t' ht' => h t' (List.mem_cons_of_mem t ht'))

/-- Statements of valid forms, one on each line. -/
theorem lines {lines : List (Form × List Char)} (hq : isQuote q = true)
    (hvalid : ∀ line ∈ lines, line.1.IsValid ∧ IsPlainSource line.2)
    (hsources : ∀ line ∈ lines, P line.2) :
    ImportsFrom P [Text.joinWith ['\n'] (lines.map (lineText q))] := by
  refine ⟨lines.map fun line => ⟨line.1, line.2, q, true⟩, ?_, ?_⟩
  · simp only [List.forall_mem_map]
    intro line hline
    exact ⟨⟨(hvalid line hline).1, (hvalid line hline).2, hq⟩, hsources line hline⟩
  · rw [(statementsIn_lines hq hvalid).1, List.map_map]
    rfl

end ImportsFrom

/-- The block of imports of names is read without a line left over, and its sources are those of
the texts. -/
theorem sources_blockOf (format : ModuleFormat) (hq : isQuote q = true)
    (hnames : ∀ t ∈ texts, NamesOnly t) (h : ImportsFrom P texts) :
    (parse [blockOf format q texts]).unparsed = [] ∧
      ∀ spec ∈ (parse [blockOf format q texts]).specs, P spec.source := by
  obtain ⟨ts, hts, hstatements⟩ := h
  have hgathered := gathered_parse texts
  have hbinds := Spec.bindsNames_of_statements (bound_of_namesOnly hnames) hgathered
  rw [hstatements] at hgathered
  have hwell : ∀ spec ∈ (parse texts).specs, spec.IsWellFormed := by
    intro spec hspec
    obtain ⟨hstatement, heq⟩ := hgathered.mem_iff.mp hspec
    rw [heq]
    exact isWellFormed_specOf (fun t ht => (hts t ht).1) hstatement
  have hbound : ∀ spec ∈ (parse texts).specs, (spec.defaults ++ spec.namespaces).Nodup := by
    intro spec hspec
    rw [(hbinds spec hspec).defaults, (hbinds spec hspec).namespaces]
    exact List.nodup_nil
  obtain ⟨hunparsed, hkeys, -⟩ := readsBack_block hgathered hwell hbound
    (unparsed_of_namesOnly hnames) hq format
  refine ⟨hunparsed, fun spec hspec => ?_⟩
  -- what is read from the block has the key of a statement
  obtain ⟨spec', hspec', hkey⟩ := List.mem_map.mp (hkeys.mem_iff.mpr (List.mem_map_of_mem hspec))
  obtain ⟨⟨st, hst, hstatement⟩, -⟩ := hgathered.mem_iff.mp hspec'
  obtain ⟨t, ht, rfl⟩ := List.mem_map.mp hst
  rw [Form.key_statement] at hstatement
  have hsource : spec.source = t.source := congrArg Prod.fst (hkey.symm.trans hstatement.symm)
  rw [hsource]
  exact (hts t ht).2

/-- A source within the program, or of one of these packages. -/
def Within (packages : List String) (source : List Char) : Prop :=
  isRelative source = true ∨ String.ofList (packageOf source) ∈ packages

theorem Within.of_mem {packages : List String} {source : List Char}
    (h : packageOf source ∈ packages.map String.toList) : Within packages source := by
  obtain ⟨package, hpackage, hsource⟩ := List.mem_map.mp h
  refine .inr ?_
  rwa [← hsource, String.ofList_toList]

end Import

-- ============================================================================
-- Packages of fragments
-- ============================================================================

/-- The names of the packages of every program. -/
def Dependency.common : List String := defaults.map (·.1)

/-- An import fragment is from files of the program, or from packages it needs or all programs
have. -/
def Fragment.CarriesPackages (f : Fragment) : Prop :=
  f.type = .imports →
    Import.ImportsFrom (Import.Within (Dependency.common ++ f.dependencies)) [f.content.toList]

theorem Tracing.carriesPackages_of_mem : ∀ f ∈ fragments c, f.CarriesPackages := by
  intro f hf
  unfold fragments at hf
  split at hf
  · cases hf
  · simp only [List.mem_cons, List.not_mem_nil, or_false] at hf
    rcases hf with rfl | rfl
    · intro _
      rw [import_eq_lines]
      refine .lines c.style.isQuote_quote (isValid_importLines _) ?_
      simp only [importLines, List.forall_mem_cons]
      refine ⟨.of_mem (by decide), .inl ?_, by simp⟩
      cases c.moduleFormat <;> decide
    · exact nofun

namespace Converter

variable {conv : Converter} {n : Node} {fs : List Fragment}

/-- The package of a built-in converter's class is one that it names. -/
theorem within_package (h : conv ∈ Registry.standardConverters) :
    Import.Within (Dependency.common ++ conv.dependencies) conv.package.toList := by
  have hall : ∀ conv ∈ Registry.standardConverters, Import.packageOf conv.package.toList ∈
      (Dependency.common ++ conv.dependencies).map String.toList := by
    decide +kernel
  exact .of_mem (hall conv h)

theorem carriesPackages_of_convert (h : conv ∈ Registry.standardConverters)
    (hfs : conv.convert n c = .ok fs) : ∀ f ∈ fs, f.CarriesPackages := by
  obtain ⟨others, rfl, hothers⟩ := importsFirst_of_mem h n c fs hfs
  have hname := importsName_of_mem conv h
  intro f hf htype
  rcases List.mem_cons.mp hf with rfl | hf
  · have htext : (conv.importing n []).content.toList = _ := hname.import_eq_lines
    have hsource : Import.Within (Dependency.common ++ (conv.importing n []).dependencies)
        (classLine conv.toConverterProfile).2 := within_package h
    rw [htext]
    refine .lines (by decide) ?_ ?_
    · simpa using hname.isValid_classLine
    · simpa using hsource
  · exact absurd htype (hothers f hf).1

end Converter

-- ============================================================================
-- Packages of programs
-- ============================================================================

namespace Dependency

variable {a : Assembled} {name : String} {entry : String × String}

theorem mem_names_all : name ∈ (all a c).map (·.1) ↔ name ∈ common ∨ name ∈ a.dependencies ∨
    (c.includeLangfuse = true ∧ name = Tracing.package) := by
  rw [all, List.map_map]
  have hfst : ((fun e : String × String => e.1) ∘ fun name => (name, version name)) = id := rfl
  rw [hfst, List.map_id, Text.sort, List.mem_mergeSort, Text.mem_distinct]
  cases c.includeLangfuse <;> simp [common]

/-- The packages of a program stand in the order of their names, each of them once. -/
theorem pairwise_all (a : Assembled) (c : Context) :
    ((all a c).map (·.1)).Pairwise (· < ·) := by
  rw [all, List.map_map]
  exact (List.map_id _).symm ▸ Text.pairwise_sort_distinct _

theorem defaults_subset_all (h : entry ∈ defaults) : entry ∈ all a c := by
  have hversion : ∀ e ∈ defaults, e = (e.1, version e.1) := by decide
  rw [hversion entry h]
  have hname : entry.1 ∈ (all a c).map (·.1) := mem_names_all.mpr (.inl (List.mem_map_of_mem h))
  obtain ⟨e, he, hfst⟩ := List.mem_map.mp hname
  obtain ⟨name, -, rfl⟩ := List.mem_map.mp he
  rw [← hfst]
  exact he

end Dependency

theorem Assembled.dependencies_of_mem_group {a : Assembled} {t : FragmentKind} {f : Fragment}
    (hf : f ∈ a.group t) : ∀ package ∈ f.dependencies, package ∈ a.dependencies := by
  intro package hpackage
  rw [dependencies, Text.sort, List.mem_mergeSort, Text.mem_distinct, all]
  exact List.mem_flatMap.mpr ⟨f, List.mem_flatMap.mpr ⟨t, FragmentKind.mem_all t, hf⟩, hpackage⟩

namespace Drafted

variable (h : Drafted Registry.standard s g c d)

include h

theorem carriesPackages : ∀ f ∈ (Tracing.fragments c :: d.slots g).flatten, f.CarriesPackages :=
  h.forall_fragments Tracing.carriesPackages_of_mem (fun _ _ => nofun)
    fun _ hconv _ _ => Converter.carriesPackages_of_convert hconv

/-- What is imported is within the program or from its packages. -/
theorem importsFrom_packages : Import.ImportsFrom
    (Import.Within ((Dependency.all d.assembled c).map (·.1)))
    (ProjectFile.importTexts c d.assembled) := by
  refine .of_forall fun t ht => ?_
  rcases List.mem_cons.mp ht with rfl | ht
  · rw [Import.effect_eq_lines c.style.isQuote_quote (.of_all (by decide) (by decide))]
    refine .lines c.style.isQuote_quote ?_ ?_
    · simpa using ⟨trivial, .of_all (by decide) (by decide)⟩
    · have hdotenv : "dotenv" ∈ (Dependency.all d.assembled c).map (·.1) :=
        Dependency.mem_names_all.mpr (.inl (by decide))
      have hpackage : Import.packageOf "dotenv/config".toList = "dotenv".toList := by decide
      have hwithin : Import.Within ((Dependency.all d.assembled c).map (·.1))
          "dotenv/config".toList := .of_mem (hpackage ▸ List.mem_map_of_mem hdotenv)
      simpa using hwithin
  · obtain ⟨x, hx, rfl⟩ := List.mem_map.mp ht
    obtain ⟨f, hf, rfl⟩ := Assembled.mem_contents.mp hx
    have hdependencies := Assembled.dependencies_of_mem_group hf
    obtain ⟨e, he, order, rfl⟩ := Assembly.exists_of_mem_group h.assembled hf
    rw [Assembly.group_of_assemble h.assembled, List.mem_filter] at hf
    refine (h.carriesPackages e he (by simpa using hf.2)).mono fun source hsource => ?_
    refine hsource.imp_right fun hpackage => Dependency.mem_names_all.mpr ?_
    exact (List.mem_append.mp hpackage).imp_right fun hmem => .inl (hdependencies _ hmem)

/-- The import block is read without a line left over, from sources within the program or of its
packages. -/
theorem sources_importBlock :
    (Import.parse [(ProjectFile.importBlock c d.assembled).toList]).unparsed = [] ∧
      ∀ spec ∈ (Import.parse [(ProjectFile.importBlock c d.assembled).toList]).specs,
        Import.Within ((Dependency.all d.assembled c).map (·.1)) spec.source := by
  rw [ProjectFile.importBlock_eq, String.toList_ofList]
  exact Import.sources_blockOf c.moduleFormat c.style.isQuote_quote h.namesOnly_imports
    h.importsFrom_packages

end Drafted

-- ============================================================================
-- The manifest
-- ============================================================================

/-- The file is the JSON text of an object with these packages as its dependencies. -/
def OutputFile.ListsPackages (f : OutputFile) (packages : List (String × String)) : Prop :=
  ∃ fields text, Json.write .readable (.record fields) = .ok text ∧ f.content = text ++ "\n" ∧
    fields.lookup "dependencies" = some (Manifest.table packages)

theorem ProjectFile.jsonContent_eq_ok {l : Json.Layout} {v : Value} {content : String}
    (h : jsonContent l v = .ok content) :
    ∃ text, Json.write l v = .ok text ∧ content = text ++ "\n" := by
  unfold jsonContent at h
  split at h
  · next text htext =>
    cases h
    exact ⟨text, htext, rfl⟩
  · cases h

theorem ProjectFile.manifest_listsPackages {packages : List (String × String)} {f : OutputFile}
    (h : manifest g c packages = .ok f) : f.ListsPackages packages := by
  obtain ⟨content, hcontent, hf⟩ := bind_eq_ok_iff.mp h
  cases hf
  obtain ⟨text, htext, rfl⟩ := jsonContent_eq_ok hcontent
  exact ⟨_, text, htext, rfl, rfl⟩

-- ============================================================================
-- Imports and packages
-- ============================================================================

/-- With the built-in converters, every graph without an obstacle has a program.  In every program
there is, all that the import block of the main module takes from elsewhere is in packages the
program depends on; the main module is there exactly if the description of the workflow can be
written.  The packages are sorted, those of every program among them, and the manifest lists
them. -/
theorem dependencies_cover_imports (s : Strategy) (g : Graph) (c : Context) :
    (g.TextNames → (∀ e, ¬ g.Obstacle Registry.standard e) →
      ∃ p, Registry.standard.convert s g c = .ok p) ∧
    ∀ p, Registry.standard.convert s g c = .ok p →
      (∃ d, Registry.standard.draft s g c = .ok d ∧
        ((p.file? "src/index.ts").isSome ↔ g.hasLongDescription = false) ∧
        (∀ f, p.file? "src/index.ts" = some f → ∃ before after,
          f.content.toList = Format.format c.style
            (before ++ (ProjectFile.importBlock c d.assembled).toList ++ after)) ∧
        (Import.parse [(ProjectFile.importBlock c d.assembled).toList]).unparsed = [] ∧
        ∀ spec ∈ (Import.parse [(ProjectFile.importBlock c d.assembled).toList]).specs,
          Import.isRelative spec.source = true ∨
            String.ofList (Import.packageOf spec.source) ∈ p.dependencies.map (·.1)) ∧
      (p.dependencies.map (·.1)).Pairwise (· < ·) ∧
      (∀ e ∈ Dependency.defaults, e ∈ p.dependencies) ∧
      p.file? "package.json" = (ProjectFile.manifest g.bound c p.dependencies).toOption ∧
      ∀ f, p.file? "package.json" = some f → f.ListsPackages p.dependencies := by
  refine ⟨fun hnames hfree => ?_, fun p hp => ?_⟩
  · obtain ⟨p, hp, -⟩ :=
      exists_convert_of_no_obstacle Registry.fits_standard hnames s c hfree
    exact ⟨p, hp⟩
  obtain ⟨d, hd, hdependencies, hfile⟩ := exists_builds_of_convert hp
  have h := draft_eq_ok_iff.mp hd
  have hmanifest : p.file? "package.json" =
      (ProjectFile.manifest g.bound c p.dependencies).toOption := hfile "package.json"
  refine ⟨⟨d, hd, ?there, fun f hf => ?imports, ?block⟩, ?sorted, ?defaults, hmanifest,
    fun f hf => ?manifest⟩
  case there => exact ProjectFile.isSome_mainFile_iff hp
  case imports =>
    obtain ⟨rest, hcontent⟩ := ProjectFile.content_of_mainFile hp hd hf
    exact ⟨_, _, by
      rw [hcontent, ProjectFile.opening, List.append_assoc, List.append_assoc]⟩
  case block =>
    rw [hdependencies]
    exact h.sources_importBlock
  case sorted =>
    rw [hdependencies]
    exact Dependency.pairwise_all d.assembled c
  case defaults =>
    rw [hdependencies]
    exact fun e he => Dependency.defaults_subset_all he
  case manifest =>
    rw [hmanifest] at hf
    cases hbuild : ProjectFile.manifest g.bound c p.dependencies with
    | error e =>
        rw [hbuild] at hf
        cases hf
    | ok m =>
        rw [hbuild] at hf
        cases hf
        exact ProjectFile.manifest_listsPackages hbuild

/-- A conversation with tracing depends on packages that cover its imports. -/
theorem conversation_imports_covered :
    ∃ p d, Registry.standard.convert .kahn Graph.conversation { includeLangfuse := true } = .ok p ∧
      Registry.standard.draft .kahn Graph.conversation { includeLangfuse := true } = .ok d ∧
      (∀ spec ∈ (Import.parse [(ProjectFile.importBlock { includeLangfuse := true }
          d.assembled).toList]).specs, Import.Within (p.dependencies.map (·.1)) spec.source) ∧
      (p.dependencies.map (·.1)).Pairwise (· < ·) := by
  have hnames : Graph.conversation.TextNames := by
    intro n hn p hp
    rcases List.mem_cons.mp hn with rfl | hn
    · cases hp
    · cases List.mem_singleton.mp hn
      cases hp
  have htyped : Graph.conversation.bound.untyped? = none := rfl
  have hfree := Graph.no_obstacle (r := .standard) (g := .conversation) rfl rfl (by simp [htyped])
  have hall := dependencies_cover_imports .kahn Graph.conversation { includeLangfuse := true }
  obtain ⟨p, hp⟩ := hall.1 hnames hfree
  obtain ⟨⟨d, hd, -, -, -, hsources⟩, hsorted, -⟩ := hall.2 p hp
  exact ⟨p, d, hp, hd, hsources, hsorted⟩

end Flowscript

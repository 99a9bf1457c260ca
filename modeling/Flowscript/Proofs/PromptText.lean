/-
  Flowscript.Proofs.PromptText

  Prompts keep their texts.

  The declaration of a prompt begins a line of the main module, and before it the module is
  made of texts that lead from code to code: its comment, the imports and other
  declarations.  So the formatter is in code there, and leaves the declaration as it is up
  to the semicolon (`prompt_text_in_program`).
-/
import Flowscript.Proofs.DeclarationText
import Flowscript.Proofs.MainModule
import Flowscript.Proofs.TemplateStatement

namespace Flowscript

open Format (Sealed isCodeChar)
open Naming (IsName)

variable {s : Strategy} {g : Graph} {c : Context} {d : Draft} {n : Node} {fs : List Fragment}
  {t : String}

-- ============================================================================
-- Declarations of prompts
-- ============================================================================

/-- What a prompt is declared with, before its text. -/
def promptStart (n : Node) : String := "const " ++ n.varName ++ " = PromptTemplate.fromTemplate("

theorem Converter.exists_prompt_declaration (hname : IsName n.varName.toList)
    (ht : n.param "template" = .string t) (h : promptTemplate.convert n c = .ok fs) :
    ∃ e ∈ fs, e.type = .declaration ∧
      e.content = promptStart n ++ Script.templateString t ++ ")" ++ ";" := by
  obtain ⟨value, hvalue, hfs⟩ := bind_eq_ok_iff.mp h
  cases hfs
  simp only [ht, ParameterValue.asText_string, ok_bind, Option.getD_some] at hvalue
  cases hvalue
  have hcall : " = PromptTemplate.fromTemplate(" = " = " ++ "PromptTemplate.fromTemplate(" := by
    decide
  refine ⟨_, List.mem_cons_of_mem _ List.mem_cons_self, rfl, ?_⟩
  simp only [ConverterProfile.fragment]
  rw [nameFor_eq _ hname, promptStart, hcall]
  simp only [String.append_assoc]

theorem isStatementStart_promptStart (hname : IsName n.varName.toList) :
    Format.IsStatementStart (promptStart n).toList := by
  have hfirst : "const ".toList = 'c' :: "onst ".toList := by decide
  have hconst : Format.IsPlainCode "const ".toList := .of_all (by decide)
  have hcall : Format.IsPlainCode " = PromptTemplate.fromTemplate(".toList := .of_all (by decide)
  have hvar : Format.IsPlainCode n.varName.toList := by
    intro x hx
    have hpart := hname.2 x hx
    refine ⟨Format.isCodeChar_of_sort (by decide) hpart, ?_⟩
    rintro rfl
    cases hpart
  simp only [promptStart, String.toList_append]
  refine ⟨?_, (hconst.append hvar).append hcall, ?_⟩
  · simp [hfirst]
  · rw [hfirst, List.cons_append, List.cons_append]
    exact Text.startsSolid_cons (by decide)

/-- A node becomes fragments, not a comment. -/
def Graph.converts (g : Graph) (c : Context) (n : Node) : Bool :=
  match Registry.standard.outcome (some (Registry.standard.check g)) c (g.bind n g.varNames) with
  | .ok (.converted ..) => true
  | _ => false

/-- The declaration of a prompt is among the declarations of the program. -/
theorem Drafted.exists_prompt_declaration (h : Drafted Registry.standard s g c d) (hn : n ∈ g.nodes)
    (htype : n.type = "promptTemplate") (hconverted : g.converts c n = true)
    (ht : n.param "template" = .string t) :
    promptStart (g.bind n g.varNames) ++ Script.templateString t ++ ")" ++ ";" ∈
      d.assembled.contents .declaration := by
  obtain ⟨o, ho, hemitted⟩ := h.exists_emittedFor_of_mem (node?_of_valid h.valid hn)
  rw [Graph.converts, ho] at hconverted
  rcases Registry.outcome_cases ho with
    ⟨m, reason, warning, -, -, rfl⟩ | ⟨conv, type, fs, ws, hconv, hfs, rfl⟩
  · cases hconverted
  · have hget : Registry.standard.get? n.type = some conv := hconv
    have hprompt : Registry.standard.get? "promptTemplate" = some Converter.promptTemplate := rfl
    rw [htype] at hget
    obtain rfl := Option.some.inj (hprompt.symm.trans hget)
    have hname := Graph.isName_varName (List.mem_map_of_mem (f := (·.id)) hn)
    obtain ⟨e, he, hkind, hcontent⟩ := Converter.exists_prompt_declaration
      (n := { g.bind n g.varNames with type := type }) hname ht hfs
    obtain ⟨order, hemitted⟩ := hemitted e he
    exact Assembled.mem_contents.mpr ⟨_, h.mem_group hemitted hkind (by simp), hcontent⟩

-- ============================================================================
-- Prompts of a program
-- ============================================================================

/-- Declarations have line breaks between them. -/
theorem exists_newline_before (front : List Char) (xs : List String) :
    ∃ before, front ++ ['\n', '\n'] ++ xs.flatMap (fun x => x.toList ++ ['\n', '\n']) =
      before ++ ['\n'] := by
  rcases List.eq_nil_or_concat xs with rfl | ⟨ys, y, rfl⟩
  · exact ⟨front ++ ['\n'], by simp⟩
  · exact ⟨front ++ ['\n', '\n'] ++ ys.flatMap (fun x => x.toList ++ ['\n', '\n']) ++
      (y.toList ++ ['\n']), by simp⟩

/-- A declaration begins a line of the main module, which is in code there. -/
theorem Drafted.exists_before_declaration (h : Drafted Registry.standard s g c d)
    (hplain : ∀ n ∈ g.nodes, n.IsPlain) {x : String} (hx : x ∈ d.assembled.contents .declaration) :
    ∃ before after, Sealed (before ++ ['\n']) ∧
      ProjectFile.opening g.bound c d.assembled =
        before ++ '\n' :: (x.toList ++ '\n' :: '\n' :: after) := by
  obtain ⟨xs, ys, hxs⟩ := List.append_of_mem hx
  let front := ProjectFile.header c.includeComments
    (Naming.commentText (ProjectFile.about g.bound "").display.toList) ++
      (ProjectFile.importBlock c d.assembled).toList
  obtain ⟨before, hbefore⟩ := exists_newline_before front xs
  refine ⟨before, ys.flatMap fun x => x.toList ++ ['\n', '\n'], ?_, ?_⟩
  · have hbreak : Sealed ['\n', '\n'] := .of_all (by decide)
    rw [← hbefore]
    refine (((ProjectFile.sealed_header _ _).append h.sealed_importBlock).append hbreak).append ?_
    refine .flatten (List.forall_mem_map.mpr fun y hy => ?_)
    have hdeclaration := h.sealed_declaration hplain y (by simp [hxs, hy])
    simpa using hdeclaration.append (.of_all (s := ['\n']) (by decide))
  · have hall : ProjectFile.opening g.bound c d.assembled =
        front ++ ['\n', '\n'] ++ xs.flatMap (fun x => x.toList ++ ['\n', '\n']) ++
          (x :: ys).flatMap fun x => x.toList ++ ['\n', '\n'] := by
      rw [ProjectFile.opening, hxs, List.flatMap_append, ← List.append_assoc]
    rw [hall, hbefore]
    simp

theorem Drafted.prompt_text_infix (h : Drafted Registry.standard s g c d)
    (hplain : ∀ n ∈ g.nodes, n.IsPlain) (hn : n ∈ g.nodes) (htype : n.type = "promptTemplate")
    (hconverted : g.converts c n = true) (ht : n.param "template" = .string t) (rest : List Char) :
    (promptStart (g.bind n g.varNames) ++ Script.templateString t ++ ")").toList <:+:
      Format.format c.style (ProjectFile.opening g.bound c d.assembled ++ rest) := by
  have hname := Graph.isName_varName (List.mem_map_of_mem (f := (·.id)) hn)
  have hmem := h.exists_prompt_declaration hn htype hconverted ht
  obtain ⟨before, after, hbefore, hopening⟩ := h.exists_before_declaration hplain hmem
  have hreturn : '\r' ∉ t.toList := (Graph.isReady_bind hn (hplain n hn)).strings "template" t ht
  have htext : (promptStart (g.bind n g.varNames) ++ Script.templateString t ++ ")").toList =
      (promptStart (g.bind n g.varNames)).toList ++ Script.template t.toList ++ [')'] := by
    rw [String.toList_append, String.toList_append, Script.templateString, String.toList_ofList]
    rfl
  rw [String.toList_append, htext] at hopening
  have hkept := Format.template_statement_kept c.style ('\n' :: after ++ rest) hbefore
    (isStatementStart_promptStart hname) (.of_all (w := [')']) (by decide)) hreturn
  rw [htext, hopening]
  simpa using hkept

/-- With the built-in converters, every prompt that is converted has its text in the formatted main
module, as the template literal that the prompt's variable is declared with, whatever the nodes say
and however the code is formatted.  The main module is there if the description of the workflow can
be written, and an error if it cannot; only an obstacle leaves the graph without a program, if its
parameters are named by texts. -/
theorem prompt_text_in_program (s : Strategy) (g : Graph) (c : Context)
    (hplain : ∀ n ∈ g.nodes, n.IsPlain) (n : Node) (hn : n ∈ g.nodes)
    (htype : n.type = "promptTemplate") (hconverted : g.converts c n = true) (t : String)
    (ht : n.param "template" = .string t) :
    (∃ e, Registry.standard.convert s g c = .error e ∧
      (g.TextNames → g.Obstacle Registry.standard e)) ∨
    ∃ p, Registry.standard.convert s g c = .ok p ∧
      ((p.file? "src/index.ts").isSome ↔ g.hasLongDescription = false) ∧
      (g.hasLongDescription = true →
        "Failed to generate src/index.ts: " ++ Decimal.tooLong ∈ p.errors) ∧
      ∀ f, p.file? "src/index.ts" = some f →
        ("const " ++ (g.bind n g.varNames).varName ++ " = PromptTemplate.fromTemplate(" ++
          Script.templateString t ++ ")").toList <:+: f.content.toList := by
  cases h : Registry.standard.convert s g c with
  | error e => exact .inl ⟨e, rfl, fun hnames =>
      obstacle_of_convert_eq_error Registry.fits_standard hnames h⟩
  | ok p =>
      refine .inr ⟨p, rfl, ProjectFile.isSome_mainFile_iff h,
        ProjectFile.mem_errors_of_hasLongDescription h, fun f hf => ?_⟩
      obtain ⟨d, hd, -⟩ := exists_builds_of_convert h
      obtain ⟨rest, hcontent⟩ := ProjectFile.content_of_mainFile h hd hf
      have hdrafted := draft_eq_ok_iff.mp hd
      rw [hcontent]
      exact hdrafted.prompt_text_infix hplain hn htype hconverted ht rest

/-- A prompt whose text has everything that is special in code. -/
def Node.ask : Node :=
  { id := "ask", type := "promptTemplate", label := "Ask"
    parameters := [(.str "template",
      { name := .str "template", value := .string "Say `$\x7bx\x7d`\n  // it's \\  " })] }

/-- The prompt, and before it a node of an unknown type that a comment is left for. -/
def Graph.quotedPrompt : Graph :=
  { nodes := [{ id := "note", type := "sticky`Note", label := "it's /* open" }, .ask] }

theorem quotedPrompt_kept :
    ∃ p f, Registry.standard.convert .kahn Graph.quotedPrompt {} = .ok p ∧
      p.file? "src/index.ts" = some f ∧
      "const ask = PromptTemplate.fromTemplate(`Say \\`\\$\x7bx\x7d\\`\n  // it's \\\\  `)".toList
        <:+: f.content.toList := by
  have hplain : ∀ n ∈ Graph.quotedPrompt.nodes, n.IsPlain := by
    intro n hn
    simp only [Graph.quotedPrompt, List.mem_cons, List.not_mem_nil, or_false] at hn
    rcases hn with rfl | rfl
    · exact ⟨by decide, by decide, by decide, by simp, by simp⟩
    · refine ⟨by decide, by decide, by decide, ?_, ?_⟩
      · rintro p hp t ht
        cases List.mem_singleton.mp hp
        cases ht
        decide
      · rintro p hp t ht
        cases List.mem_singleton.mp hp
        cases ht
        decide
  have hnames : Graph.quotedPrompt.TextNames := by
    intro n hn p hp
    simp only [Graph.quotedPrompt, List.mem_cons, List.not_mem_nil, or_false] at hn
    rcases hn with rfl | rfl
    · cases hp
    · cases List.mem_singleton.mp hp
      exact ⟨_, rfl⟩
  have hconverted : Graph.quotedPrompt.converts {} .ask = true := by decide +kernel
  have htyped : Graph.quotedPrompt.bound.untyped? = none := rfl
  have htext :
      "const ask = PromptTemplate.fromTemplate(`Say \\`\\$\x7bx\x7d\\`\n  // it's \\\\  `)" =
        "const " ++ (Graph.quotedPrompt.bind .ask Graph.quotedPrompt.varNames).varName ++
          " = PromptTemplate.fromTemplate(" ++
            Script.templateString "Say `$\x7bx\x7d`\n  // it's \\  " ++ ")" := by
    decide +kernel
  rw [htext]
  rcases prompt_text_in_program .kahn Graph.quotedPrompt {} hplain .ask
      (by simp [Graph.quotedPrompt]) rfl hconverted _ rfl with
    ⟨e, -, hobstacle⟩ | ⟨p, hp, hmain, -, hkept⟩
  · rcases hobstacle hnames with ⟨hname, -⟩ | ⟨-, hvalid, -⟩ | ⟨-, -, hendless, -⟩
    · cases hname
    · cases hvalid
    · rw [htyped] at hendless
      cases hendless
  · obtain ⟨f, hf⟩ := Option.isSome_iff_exists.mp (hmain.mpr rfl)
    exact ⟨p, f, hp, hf, hkept f hf⟩

/-- A prompt of a workflow whose description is an integer of 4301 digits. -/
def Graph.countedPrompt : Graph :=
  { nodes := [
      { id := "greeting", type := "promptTemplate"
        parameters := [(.str "template", { name := .str "template", value := .string "Hello" })] }]
    metadata := [(.str "description", .int (10 ^ Decimal.maxIntegerDigits))] }

/-- The prompt of a valid graph is converted, and its text is in no main module. -/
theorem countedPrompt_without_mainFile :
    (∀ n ∈ Graph.countedPrompt.nodes, n.IsPlain) ∧
      (Registry.standard.check Graph.countedPrompt).isValid = true ∧
      (∀ n ∈ Graph.countedPrompt.nodes, n.type = "promptTemplate" ∧
        Graph.countedPrompt.converts {} n = true ∧ n.param "template" = .string "Hello") ∧
      ∃ p, Registry.standard.convert .kahn Graph.countedPrompt {} = .ok p ∧
        p.file? "src/index.ts" = none := by
  have hplain : ∀ n ∈ Graph.countedPrompt.nodes, n.IsPlain := by
    intro n hn
    cases List.mem_singleton.mp hn
    refine ⟨by decide, by decide, by decide, ?_, ?_⟩
    · intro p hp t ht
      cases List.mem_singleton.mp hp
      cases ht
      decide
    · intro p hp t ht
      cases List.mem_singleton.mp hp
      cases ht
      decide
  have hnames : Graph.countedPrompt.TextNames := by
    intro n hn p hp
    cases List.mem_singleton.mp hn
    cases List.mem_singleton.mp hp
    exact ⟨_, rfl⟩
  have hlong : Graph.countedPrompt.hasLongDescription = true := by decide +kernel
  have hvalid : (Registry.standard.check Graph.countedPrompt).isValid = true := rfl
  have htyped : Graph.countedPrompt.bound.untyped? = none := rfl
  obtain ⟨p, hp, -⟩ := exists_convert_of_no_obstacle Registry.fits_standard hnames .kahn {}
    (Graph.no_obstacle rfl hvalid (by simp [htyped]))
  refine ⟨hplain, hvalid, fun n hn => ?_, p, hp, ProjectFile.mainFile_eq_none hp hlong⟩
  cases List.mem_singleton.mp hn
  exact ⟨rfl, by decide +kernel, rfl⟩

end Flowscript

/-
  Flowscript.Proofs.EnvironmentKeys

  The variables that the keys of an environment name.

  A key is written in upper snake case, and the variable of that name is read by the
  configuration and listed in the sample of the environment.  A key that is in upper snake
  case already is cut once more at its digits, so it names the variable it spells exactly if
  no digit of it stands right before a letter (`Naming.envName_kept`).
-/
import Flowscript.Proofs.EnvironmentVariables
import Flowscript.Proofs.NameBoundaries

namespace Flowscript

open Template (Scope renderPart renderParts)
open Naming (IsUpperSnake Apart cutDigits envName)

variable {g : Graph} {c : Context}

-- ============================================================================
-- The sample of the environment
-- ============================================================================

/-- The lines of a variable: what it is for, and a sample of its value. -/
def EnvVariable.lines (v : EnvVariable) : List Char :=
  ["# ".toList, v.description.toList, if v.required then " (required)".toList else [], ['\n'],
    v.name.toList, ['='], v.sample.toList, ['\n']].flatten

namespace Template

variable {s : Scope} {name : String} {v : EnvVariable} {vs : List EnvVariable}

/-- A walk through a list that writes something between the items. -/
theorem renderPart_walk_between {α : Type} {items : Expr} {body : List Part} {value : α → Value}
    {text : α → List Char} {sep : List Char} {xs : List α}
    (h : items.eval s = .ok (.ok (.list (xs.map value))))
    (hbody : ∀ last x, renderParts { s.bind name (value x) with last } body =
      .ok (text x ++ if last then [] else sep)) :
    renderPart s (.each name items body) = .ok (Text.joinWith sep (xs.map text)) := by
  rw [renderPart, Expr.value, h]
  show concatEach _ (xs.map value) = _
  clear h
  induction xs with
  | nil => rfl
  | cons x xs ih =>
      rw [List.map_cons, concatEach, hbody, ih]
      show Except.ok _ = _
      cases xs <;> simp

/-- The parts of the lines of a variable. -/
def variableParts : List Part := [
  .text "# ",
  .put (.field (.var "variable") "description"),
  .put (.choose (.field (.var "variable") "required") " (required)" ""),
  .text "\n",
  .put (.field (.var "variable") "name"),
  .text "=",
  .put (.field (.var "variable") "example"),
  .text "\n",
  .when .notLast [.text "\n"] []]

theorem renderParts_variable (h : s.vars.lookup "variable" = some (ProjectFile.variableValue v)) :
    renderParts s variableParts = .ok (v.lines ++ if s.last then [] else ['\n']) := by
  have hfield : ∀ {field : String} {x : Value},
      fieldOf (ProjectFile.variableValue v) field = .ok x →
      (Expr.field (.var "variable") field).eval s = .ok (.ok x) :=
    fun hx => eval_field (eval_var h) hx
  have hdescription : renderPart s (.put (.field (.var "variable") "description")) = .ok _ :=
    renderPart_of_eval (hfield rfl)
  have hname : renderPart s (.put (.field (.var "variable") "name")) = .ok _ :=
    renderPart_of_eval (hfield rfl)
  have hsample : renderPart s (.put (.field (.var "variable") "example")) = .ok _ :=
    renderPart_of_eval (hfield rfl)
  have hrequired : (Expr.field (.var "variable") "required").eval s =
      .ok (.ok (.bool v.required)) := hfield rfl
  have hnote := renderPart_of_eval (eval_choose hrequired " (required)" "")
  have hmark : (if (Value.bool v.required).isTruthy then " (required)" else "").toList =
      if v.required then " (required)".toList else [] := by
    cases v.required <;> decide
  have hend : renderPart s (.when .notLast [.text "\n"] []) =
      .ok (if s.last then [] else ['\n']) := by
    have hcond : renderPart s (.when .notLast [.text "\n"] []) =
        if !s.last then renderParts s [.text "\n"] else renderParts s [] := by
      rw [renderPart]
      rfl
    rw [hcond, renderParts_nil, renderParts_cons (renderPart_text s "\n") (renderParts_nil s)]
    cases s.last <;> rfl
  rw [hmark] at hnote
  have htext := renderPart_text s
  have hlines : renderParts s (variableParts.take 8) = .ok v.lines :=
    renderParts_flatten <| .cons (htext "# ") <| .cons hdescription <| .cons hnote <|
      .cons (htext "\n") <| .cons hname <| .cons (htext "=") <| .cons hsample <|
      .cons (htext "\n") .nil
  have hparts := renderParts_append hlines (renderParts_cons hend (renderParts_nil s))
  rwa [List.append_nil] at hparts

end Template

/-- The sample of the environment lists the variables, with an empty line between them. -/
theorem ProjectFile.environment_eq {vs : List EnvVariable} (h : g.envVariables c = .ok vs) :
    environment g c = .ok
      { path := ".env.example", kind := .env
        content := String.ofList (Text.joinWith ['\n'] (vs.map EnvVariable.lines)) } := by
  let values : List (String × Value) := [("variables", .list (vs.map variableValue))]
  let s : Scope :=
    { vars := values ++ [("comments", .bool c.includeComments)], quote := c.style.quote }
  have heach : renderPart s (.each "variable" (.var "variables") Template.variableParts) =
      .ok (Text.joinWith ['\n'] (vs.map EnvVariable.lines)) :=
    Template.renderPart_walk_between (Template.eval_var rfl) fun last v =>
      Template.renderParts_variable List.lookup_cons_self
  have hparts := Template.renderParts_cons heach (Template.renderParts_nil s)
  rw [List.append_nil] at hparts
  have hlibrary : Template.library.lookup "env_file" = some Template.envFile := rfl
  have hrender : render c "env_file" values = _ :=
    Template.render_eq_ok (r := ⟨c.style.quote, c.includeComments⟩) hlibrary hparts
  rw [environment, h]
  show (render c "env_file" values >>= _) = _
  rw [hrender]
  rfl

/-- Each entry of the environment has a variable that is listed. -/
theorem Graph.exists_settingVariable {vs : List EnvVariable} (h : g.envVariables c = .ok vs) :
    ∀ e ∈ c.environment, ∃ v ∈ vs, v.name = String.ofList (envName e.1.toList) := by
  obtain ⟨secrets, hsecrets, hvs⟩ := bind_eq_ok_iff.mp h
  cases hvs
  intro e he
  have hmem : EnvVariable.ofSetting e ∈
      (c.environment.mergeSort fun a b => Text.le a.1 b.1).map EnvVariable.ofSetting :=
    List.mem_map_of_mem (List.mem_mergeSort.mpr he)
  have hlisted := List.mem_append_left [EnvVariable.runtime] (List.mem_append_right
    (secrets ++ if c.includeLangfuse then Tracing.envVariables else []) hmem)
  exact EnvVariable.exists_mem_keepFirst hlisted List.not_mem_nil

-- ============================================================================
-- Keys that are kept
-- ============================================================================

/-- The variable is named as the key, with an underscore between each digit and the letter right
after it: so it has the name of the key exactly if no digit stands there. -/
def EnvVariable.NamedBy (v : EnvVariable) (key : String) : Prop :=
  v.name = String.ofList (cutDigits key.toList) ∧
    (v.name = key ↔ Apart Char.isDigit Char.isUpper key.toList)

theorem EnvVariable.namedBy {v : EnvVariable} {key : String}
    (h : v.name = String.ofList (envName key.toList)) (hkey : IsUpperSnake key.toList) :
    v.NamedBy key := by
  have hname : v.name = String.ofList (cutDigits key.toList) := by
    rw [h, Naming.envName_of_isUpperSnake hkey]
  have hkept : v.name = key ↔ cutDigits key.toList = key.toList := by
    rw [hname, ← String.toList_inj, String.toList_ofList]
  exact ⟨hname, hkept.trans Naming.cutDigits_eq_self_iff⟩

namespace Naming

/-- A name in upper snake case that is written in it once more gets an underscore between each
digit and the letter right after it, and from then on it stays as it is.  So writing a name twice
is writing it once exactly if no small letter follows a digit of it.  A key in upper snake case
names the variable of its row in the configuration, and one in the sample of the environment, in
the same way; the configuration is there if all of its settings can be written. -/
theorem envName_kept (g : Graph) (c : Context) :
    (∀ s, envName (envName s) = cutDigits (envName s) ∧
      (envName (envName s) = envName s ↔ Apart Char.isDigit Char.isLower s) ∧
      envName (envName (envName s)) = envName (envName s)) ∧
    ((∃ f, ProjectFile.config g c = .ok f) ↔ g.hasLongConfiguration c = false) ∧
    (∀ f, ProjectFile.config g c = .ok f → ∃ header rows,
      f.content = Format.formatString c.style
        (String.ofList (header ++ Configuration.environmentTable c.style.quote rows)) ∧
      (rows.map (·.1)).Perm c.environment ∧
      ∀ row ∈ rows, IsUpperSnake row.1.1.toList → row.2.NamedBy row.1.1) ∧
    (g.TextNames → ∃ f, ProjectFile.environment g c = .ok f) ∧
    ∀ f, ProjectFile.environment g c = .ok f →
      ∃ vs : List EnvVariable, f.content =
        String.ofList (Text.joinWith ['\n'] (vs.map EnvVariable.lines)) ∧
        ∀ e ∈ c.environment, IsUpperSnake e.1.toList → ∃ v ∈ vs, v.NamedBy e.1 := by
  have hsetting : ∀ e ∈ c.environment, Template.IsRow (e, EnvVariable.ofSetting e) :=
    fun _ _ => rfl
  obtain ⟨hthere, hends⟩ := ProjectFile.config_ends (g := g) hsetting
  refine ⟨fun s => ?names, hthere, fun f hf => ?config, ?listed, fun f hf => ?sample⟩
  case names =>
    -- what is written once is in upper snake case, and stays in it when it is cut
    have htwice := envName_of_isUpperSnake (isUpperSnake_envName s)
    have hthrice := envName_of_isUpperSnake (isUpperSnake_envName s).cutDigits
    refine ⟨htwice, ?_, ?_⟩
    · rw [htwice, cutDigits_eq_self_iff, apart_envName]
    · rw [htwice, hthrice, cutDigits_eq_self_iff]
      exact apart_cutDigits _
  case config =>
    obtain ⟨header, rows, hcontent, hperm, hread⟩ := hends f hf
    refine ⟨header, rows, hcontent, hperm, fun row hrow hkey => ?_⟩
    rw [hread row hrow]
    exact EnvVariable.namedBy rfl hkey
  case listed =>
    intro hnames
    obtain ⟨secrets, hsecrets, -⟩ := hnames.exists_secrets
    have hvs : ∃ vs, g.envVariables c = .ok vs := by
      rw [Graph.envVariables, hsecrets]
      exact ⟨_, rfl⟩
    obtain ⟨vs, hvs⟩ := hvs
    exact ⟨_, ProjectFile.environment_eq hvs⟩
  case sample =>
    obtain ⟨vs, hvs, -⟩ := bind_eq_ok_iff.mp hf
    rw [ProjectFile.environment_eq hvs] at hf
    cases hf
    refine ⟨vs, rfl, fun e he hkey => ?_⟩
    obtain ⟨v, hv, hname⟩ := Graph.exists_settingVariable hvs e he
    exact ⟨v, hv, EnvVariable.namedBy hname hkey⟩

/-- A digit that a small letter follows is in the middle of a word, but a word ends between it and
a capital. -/
theorem envName_not_idempotent :
    envName (envName "a1b".toList) ≠ envName "a1b".toList := by decide

/-- An environment with keys in upper snake case. -/
def upperKeys : Context where
  environment := [("API_KEY2", "a"), ("S3BUCKET", "b")]

theorem upperKeys_kept :
    ∃ f, ProjectFile.environment { nodes := [keyedModel] } upperKeys = .ok f ∧
      ∃ vs : List EnvVariable, f.content =
        String.ofList (Text.joinWith ['\n'] (vs.map EnvVariable.lines)) ∧
        (∃ v ∈ vs, v.name = "API_KEY2") ∧ ∃ v ∈ vs, v.name = "S3_BUCKET" := by
  have htext : Graph.TextNames { nodes := [keyedModel] } := by
    simp [Graph.TextNames, keyedModel]
  obtain ⟨-, -, -, hok, hall⟩ := envName_kept { nodes := [keyedModel] } upperKeys
  obtain ⟨f, hf⟩ := hok htext
  obtain ⟨vs, hcontent, hkeys⟩ := hall f hf
  have hfirst : IsUpperSnake "API_KEY2".toList :=
    ⟨["API".toList, "KEY2".toList], by simp [Naming.isBig], rfl⟩
  have hsecond : IsUpperSnake "S3BUCKET".toList :=
    ⟨["S3BUCKET".toList], by simp [Naming.isBig], rfl⟩
  obtain ⟨v, hv, hname, -⟩ := hkeys ("API_KEY2", "a") (by simp [upperKeys]) hfirst
  obtain ⟨w, hw, hname', -⟩ := hkeys ("S3BUCKET", "b") (by simp [upperKeys]) hsecond
  exact ⟨f, hf, vs, hcontent, ⟨v, hv, hname⟩, w, hw, hname'⟩

end Naming

end Flowscript

/-
  Flowscript.Proofs.EnvironmentVariables

  The environment variables of a generated program.

  Their names are made in three places: a declaration reads the first secret of its node, the
  environment table of the configuration reads a variable for each entry of the context's
  environment, and the sample file lists variables.  Different names may become the same one
  on the way, and the list keeps the first variable of each name.  So
    * no name is listed twice, and none is lost (`EnvVariable.exists_mem_keepFirst`);
    * what a declaration reads is listed, since every secret of a node is;
    * the rows of the environment table are the entries of the environment, in another order,
      and each row reads a variable of the list.
-/
import Flowscript.Proofs.Dispatch
import Flowscript.Proofs.HeaderComments

namespace Flowscript

open Template (Scope renderPart renderParts)

variable {g : Graph} {c : Context} {n : Node}

-- ============================================================================
-- Variables by their names
-- ============================================================================

namespace EnvVariable

variable {seen : List String} {vs : List EnvVariable} {v : EnvVariable}

theorem nodup_keepFirst (seen : List String) (vs : List EnvVariable) :
    ((keepFirst seen vs).map (·.name)).Nodup := by
  induction vs generalizing seen with
  | nil => exact List.nodup_nil
  | cons v vs ih =>
      rw [keepFirst]
      split
      · exact ih seen
      · rw [List.map_cons, List.nodup_cons]
        refine ⟨fun hmem => ?_, ih (v.name :: seen)⟩
        obtain ⟨w, hw, hname⟩ := List.mem_map.mp hmem
        exact name_not_mem_of_mem_keepFirst hw (hname ▸ List.mem_cons_self)

/-- Each variable whose name was not seen is kept, or another one of its name is. -/
theorem exists_mem_keepFirst (hv : v ∈ vs) (hseen : v.name ∉ seen) :
    ∃ w ∈ keepFirst seen vs, w.name = v.name := by
  induction vs generalizing seen with
  | nil => cases hv
  | cons u vs ih =>
      rw [keepFirst]
      split
      · next hu =>
        rcases List.mem_cons.mp hv with rfl | hv
        · exact absurd hu hseen
        · exact ih hv hseen
      · by_cases hname : u.name = v.name
        · exact ⟨u, List.mem_cons_self, hname⟩
        · have hne : v ≠ u := fun h => hname (by rw [h])
          have hunseen : v.name ∉ u.name :: seen := by
            rw [List.mem_cons, not_or]
            exact ⟨Ne.symm hname, hseen⟩
          obtain ⟨w, hw, hwv⟩ := ih ((List.mem_cons.mp hv).resolve_left hne) hunseen
          exact ⟨w, List.mem_cons_of_mem u hw, hwv⟩

end EnvVariable

-- ============================================================================
-- Secrets
-- ============================================================================

theorem Graph.TextNames.exists_name (h : g.TextNames) (hn : n ∈ g.nodes) {p : Parameter}
    (hp : p ∈ n.credentials) : ∃ t, p.name = .str t := by
  obtain ⟨entry, hentry, rfl⟩ := List.mem_map.mp (List.mem_filter.mp hp).1
  exact h n hn entry hentry

/-- Every secret has a variable, which is named as the declarations of its node name it. -/
theorem Graph.TextNames.exists_secrets (h : g.TextNames) :
    ∃ secrets, (g.nodes.flatMap fun n => n.credentials.map fun p => (n, p)).mapM
        (fun (n, p) => EnvVariable.ofCredential n p) = .ok secrets ∧
      ∀ n ∈ g.nodes, ∀ p ∈ n.credentials, ∃ v ∈ secrets, p.envName = .ok v.name := by
  have hok : ∀ x ∈ g.nodes.flatMap fun n => n.credentials.map fun p => (n, p),
      ∃ v, EnvVariable.ofCredential x.1 x.2 = .ok v ∧ x.2.envName = .ok v.name := by
    intro x hx
    obtain ⟨n, hn, hx⟩ := List.mem_flatMap.mp hx
    obtain ⟨p, hp, rfl⟩ := List.mem_map.mp hx
    obtain ⟨t, ht⟩ := h.exists_name hn hp
    refine ⟨_, by rw [EnvVariable.ofCredential, ht], by rw [Parameter.envName, ht]⟩
  obtain ⟨secrets, hsecrets, hall⟩ := exists_mapM_eq_ok hok
  refine ⟨secrets, hsecrets, fun n hn p hp => ?_⟩
  exact hall (n, p) (List.mem_flatMap.mpr ⟨n, hn, List.mem_map_of_mem hp⟩)

-- ============================================================================
-- The environment table
-- ============================================================================

namespace Configuration

/-- The row of the environment table for an entry of the environment, which reads a variable. -/
def environmentRow (quote : Char) (row : (String × String) × EnvVariable) : List Char :=
  ["  ".toList, Naming.camelCase row.1.1.toList, ": process.env.".toList, row.2.name.toList,
    " || ".toList, Script.quote quote row.1.2.toList, ",\n".toList].flatten

/-- The environment table: the environment and the log level of the program, and then rows. -/
def environmentTable (quote : Char) (rows : List ((String × String) × EnvVariable)) : List Char :=
  ["\nexport const environment = \x7b\n".toList,
    "  nodeEnv: process.env.NODE_ENV || 'development',\n".toList,
    "  logLevel: process.env.LOG_LEVEL || 'info',\n".toList,
    rows.flatMap (environmentRow quote), "\x7d;\n".toList].flatten

end Configuration

namespace Template

open Flowscript.Configuration (environmentRow environmentTable)

variable {s : Scope} {row : (String × String) × EnvVariable}
  {rows : List ((String × String) × EnvVariable)}

/-- The row reads the variable of its entry. -/
def IsRow (row : (String × String) × EnvVariable) : Prop :=
  row.2.name = String.ofList (Naming.envName row.1.1.toList)

/-- The text of parts is that of each part, one after another. -/
theorem renderParts_flatten {ps : List Part} {ts : List (List Char)}
    (h : List.Forall₂ (fun p t => renderPart s p = .ok t) ps ts) :
    renderParts s ps = .ok ts.flatten := by
  induction h with
  | nil => exact renderParts_nil s
  | cons hfirst _ ih => exact renderParts_cons hfirst ih

theorem renderParts_environmentRow (hrow : IsRow row)
    (hkey : s.vars.lookup "key" = some (.str row.1.1))
    (hvalue : s.vars.lookup "value" = some (.str row.1.2)) :
    renderParts s Headed.variableLine = .ok (environmentRow s.quote row) := by
  have hput : ∀ {name t : String} {filter : Filter} {f : List Char → List Char},
      s.vars.lookup name = some (.str t) →
      filter.apply s.quote (.ok (.str t)) = .ok (.str (String.ofList (f t.toList))) →
      renderPart s (.put (.filter (.var name) filter)) = .ok (f t.toList) := by
    intro name t filter f hname happly
    rw [renderPart_of_eval (eval_filter (eval_var hname) happly), String.toList_ofList]
  have hcamel : renderPart s (.put (.filter (.var "key") .camelCase)) = .ok _ := hput hkey rfl
  have hname : renderPart s (.put (.filter (.var "key") .envName)) = .ok row.2.name.toList := by
    rw [hrow, String.toList_ofList]
    exact hput hkey rfl
  have hquote : renderPart s (.put (.filter (.var "value") .quote)) = .ok _ := hput hvalue rfl
  have htext := renderPart_text s
  exact renderParts_flatten <| .cons (htext _) <| .cons hcamel <| .cons (htext _) <|
    .cons hname <| .cons (htext _) <| .cons hquote <| .cons (htext _) .nil

/-- The entries of a table of texts, sorted by their keys. -/
theorem exists_sortedEntries (es : List (String × String)) :
    ∃ sorted : List (String × String), sorted.Perm es ∧
      sortedEntries (Manifest.table es) = .ok (sorted.map fun e => (.str e.1, .str e.2)) := by
  let entry : String × String → Scalar × Value := fun e => (.str e.1, .str e.2)
  let back : Scalar × Value → String × String := fun x => (x.1.display, x.2.display)
  have hback : ∀ e, back (entry e) = e := fun _ => rfl
  have hopened : (Manifest.table es).opened = .map (es.map entry) := by
    rw [Manifest.table, Value.record, List.map_map, Value.opened_map]
    rfl
  obtain ⟨entries, hentries, hperm⟩ : ∃ entries,
      sortedEntries (Manifest.table es) = .ok entries ∧ entries.Perm (es.map entry) := by
    rw [sortedEntries, hopened]
    exact ⟨_, rfl, List.mergeSort_perm _ _⟩
  refine ⟨entries.map back, ?_, ?_⟩
  · have hsorted := hperm.map back
    rw [List.map_map] at hsorted
    rwa [show back ∘ entry = id from funext hback, List.map_id] at hsorted
  · rw [hentries, List.map_map]
    have hself : ∀ x ∈ entries, entry (back x) = x := by
      intro x hx
      obtain ⟨e, -, rfl⟩ := List.mem_map.mp (hperm.subset hx)
      rw [hback]
    exact congrArg Except.ok ((List.map_congr_left hself).trans (List.map_id entries)).symm

/-- A walk through a table whose entries have known texts, in the order of their keys. -/
theorem renderPart_table {name key value : String} {body : List Part} {es : List (String × String)}
    {text : String × String → List Char} (h : s.vars.lookup name = some (Manifest.table es))
    (hbody : ∀ last, ∀ e ∈ es,
      renderParts { (s.bind key (.str e.1)).bind value (.str e.2) with last } body = .ok (text e)) :
    ∃ sorted : List (String × String), sorted.Perm es ∧
      renderPart s (.eachEntry key value (.var name) body) = .ok (sorted.flatMap text) := by
  obtain ⟨sorted, hsorted, hentries⟩ := exists_sortedEntries es
  refine ⟨sorted, hsorted, ?_⟩
  rw [renderPart, Expr.value, eval_var h]
  show (sortedEntries (Manifest.table es) >>= _) = _
  rw [hentries]
  exact concatEach_map fun last e he => hbody last e (hsorted.subset he)

/-- The parts of the environment table. -/
def environmentParts : List Part := [
  .text "\nexport const environment = \x7b\n",
  .text "  nodeEnv: process.env.NODE_ENV || 'development',\n",
  .text "  logLevel: process.env.LOG_LEVEL || 'info',\n",
  .eachEntry "key" "value" (.var "environment") Headed.variableLine,
  .text "\x7d;\n"]

theorem drop_configFile : configFile.drop 7 = environmentParts := rfl

/-- The last parts of the settings are the environment table, the rows of which read variables. -/
theorem renderParts_environmentTable {es : List (String × String)}
    {read : String × String → EnvVariable} (hread : ∀ e ∈ es, IsRow (e, read e))
    (h : s.vars.lookup "environment" = some (Manifest.table es)) :
    ∃ sorted : List (String × String), sorted.Perm es ∧
      renderParts s (configFile.drop 7) =
        .ok (environmentTable s.quote (sorted.map fun e => (e, read e))) := by
  have hrow : ∀ last, ∀ e ∈ es,
      renderParts { (s.bind "key" (.str e.1)).bind "value" (.str e.2) with last }
        Headed.variableLine = .ok (environmentRow s.quote (e, read e)) :=
    fun last e he => renderParts_environmentRow (hread e he) rfl rfl
  obtain ⟨sorted, hsorted, htable⟩ := renderPart_table h hrow
  have hrows : (sorted.map fun e => (e, read e)).flatMap (environmentRow s.quote) =
      sorted.flatMap fun e => environmentRow s.quote (e, read e) := List.flatMap_map ..
  rw [← hrows] at htable
  have htext := renderPart_text s
  refine ⟨sorted, hsorted, ?_⟩
  rw [drop_configFile]
  exact renderParts_flatten <| .cons (htext _) <| .cons (htext _) <| .cons (htext _) <|
    .cons htable <| .cons (htext _) .nil

/-- The parts before the environment table can be written. -/
theorem exists_configFront {project path : String} {v : Value} {tracing comments : Bool}
    (hproject : s.vars.lookup "project_name" = some (.str project))
    (hpath : s.vars.lookup "types_import" = some (.str path))
    (hconfig : s.vars.lookup "config" = some v) (hshort : Script.hasLongPart v = false)
    (htracing : s.vars.lookup "langfuse" = some (.bool tracing))
    (hcomments : s.vars.lookup "comments" = some (.bool comments)) :
    ∃ t, renderParts s (configFile.take 7) = .ok t := by
  have hsupplies : s.Supplies ["project_name", "types_import", "langfuse", "comments"] [] := by
    constructor
    · simp [hproject, hpath, htracing, hcomments]
    · simp
  have hplain := fun p hp => exists_renderPart s _ _ hsupplies p hp
  have hobject : ∃ t, renderPart s (.put (.filter (.var "config") .object)) = .ok t :=
    ⟨_, Headed.renderPart_object hconfig hshort⟩
  refine Headed.exists_renderParts_of_forall ?_
  simp only [configFile, List.take_succ_cons, List.take_zero, List.forall_mem_cons]
  exact ⟨hplain _ rfl, hplain _ rfl, hplain _ rfl, hplain _ rfl, hobject, hplain _ rfl,
    hplain _ rfl, List.forall_mem_nil _⟩

end Template

theorem ProjectFile.config_eq_error (h : g.hasLongConfiguration c = true) :
    config g c = .error .longInteger := by
  rw [config, configSource_eq_error h, error_bind]

/-- The module of settings ends with the environment table, whose rows are the entries of the
environment with variables of their names. -/
theorem ProjectFile.exists_config (hshort : g.hasLongConfiguration c = false)
    {read : String × String → EnvVariable}
    (h : ∀ e ∈ c.environment, Template.IsRow (e, read e)) :
    ∃ f header rows, config g c = .ok f ∧
      f.content = Format.formatString c.style
        (String.ofList (header ++ Configuration.environmentTable c.style.quote rows)) ∧
      (rows.map (·.1)).Perm c.environment ∧ ∀ row ∈ rows, row.2 = read row.1 := by
  rw [Graph.hasLongConfiguration, Bool.or_eq_false_iff] at hshort
  let s : Scope :=
    { vars := configValues g c ++ [("comments", .bool c.includeComments)], quote := c.style.quote }
  obtain ⟨header, hheader⟩ : ∃ t, renderParts s (Template.configFile.take 7) = .ok t :=
    Template.exists_configFront rfl rfl rfl hshort.2 rfl rfl
  obtain ⟨sorted, hsorted, htable⟩ : ∃ sorted : List (String × String),
      sorted.Perm c.environment ∧ renderParts s (Template.configFile.drop 7) =
        .ok (Configuration.environmentTable s.quote (sorted.map fun e => (e, read e))) :=
    Template.renderParts_environmentTable h rfl
  have hparts := Template.renderParts_append hheader htable
  rw [List.take_append_drop] at hparts
  have hlibrary : Template.library.lookup "config_file" = some Template.configFile := rfl
  have hrender := Template.render_eq_ok (r := ⟨c.style.quote, c.includeComments⟩) hlibrary hparts
  have hsource : configSource g c = _ := (configSource_eq hshort.1).trans hrender
  refine ⟨_, header, sorted.map fun e => (e, read e), bind_eq_ok_iff.mpr ⟨_, hsource, rfl⟩, rfl,
    ?_, ?_⟩
  · rw [List.map_map]
    exact (List.map_id sorted).symm ▸ hsorted
  · intro row hrow
    obtain ⟨e, -, rfl⟩ := List.mem_map.mp hrow
    rfl

/-- The module of settings is there exactly if all of them can be written, and then it ends with
the environment table. -/
theorem ProjectFile.config_ends {read : String × String → EnvVariable}
    (h : ∀ e ∈ c.environment, Template.IsRow (e, read e)) :
    ((∃ f, config g c = .ok f) ↔ g.hasLongConfiguration c = false) ∧
      ∀ f, config g c = .ok f → ∃ header rows,
        f.content = Format.formatString c.style
          (String.ofList (header ++ Configuration.environmentTable c.style.quote rows)) ∧
        (rows.map (·.1)).Perm c.environment ∧ ∀ row ∈ rows, row.2 = read row.1 := by
  cases hlong : g.hasLongConfiguration c with
  | true => simp [config_eq_error hlong]
  | false =>
      obtain ⟨f, header, rows, hf, hrows⟩ := exists_config hlong h
      rw [hf]
      refine ⟨by simp, ?_⟩
      rintro f' ⟨⟩
      exact ⟨header, rows, hrows⟩

-- ============================================================================
-- The variables of a program
-- ============================================================================

/-- The variables of a program have different names.  They include what the declarations of its
nodes read, what the rows of the environment table read, those of tracing, if it is wanted, and
the one of the runtime.  The module with the table is there if all settings can be written. -/
theorem Graph.TextNames.variables_listed (h : g.TextNames) (c : Context) :
    ∃ vs, g.envVariables c = .ok vs ∧ (vs.map (·.name)).Nodup ∧
      (∀ n ∈ g.nodes, ∃ e?, n.secretExpression = .ok e? ∧
        ∀ e ∈ e?, ∃ v ∈ vs, e = "process.env." ++ v.name) ∧
      ((∃ f, ProjectFile.config g c = .ok f) ↔ g.hasLongConfiguration c = false) ∧
      (∀ f, ProjectFile.config g c = .ok f → ∃ header rows,
        f.content = Format.formatString c.style
          (String.ofList (header ++ Configuration.environmentTable c.style.quote rows)) ∧
        (rows.map (·.1)).Perm c.environment ∧ ∀ row ∈ rows, row.2 ∈ vs) ∧
      (c.includeLangfuse = true → ∀ v ∈ Tracing.envVariables, v.name ∈ vs.map (·.name)) ∧
      "NODE_ENV" ∈ vs.map (·.name) := by
  obtain ⟨secrets, hsecrets, hall⟩ := h.exists_secrets
  let settings := (c.environment.mergeSort fun a b => Text.le a.1 b.1).map EnvVariable.ofSetting
  let tracing := if c.includeLangfuse then Tracing.envVariables else []
  let listed := secrets ++ tracing ++ settings ++ [EnvVariable.runtime]
  have hvariables : g.envVariables c = .ok (EnvVariable.keepFirst [] listed) := by
    rw [Graph.envVariables, hsecrets]
    rfl
  have hkept : ∀ v ∈ listed, ∃ w ∈ EnvVariable.keepFirst [] listed, w.name = v.name :=
    fun v hv => EnvVariable.exists_mem_keepFirst hv List.not_mem_nil
  have hsetting : ∀ e ∈ c.environment, ∃ w ∈ EnvVariable.keepFirst [] listed,
      w.name = String.ofList (Naming.envName e.1.toList) := by
    intro e he
    have hmem : EnvVariable.ofSetting e ∈ settings :=
      List.mem_map_of_mem (List.mem_mergeSort.mpr he)
    exact hkept (EnvVariable.ofSetting e) (by simp [listed, hmem])
  choose! read hmem hname using hsetting
  obtain ⟨hthere, hends⟩ := ProjectFile.config_ends (g := g) hname
  refine ⟨_, hvariables, EnvVariable.nodup_keepFirst _ _, ?secrets, hthere, fun f hf => ?settings,
    ?tracing, ?runtime⟩
  case secrets =>
    intro n hn
    cases hcredentials : n.credentials with
    | nil => exact ⟨none, by rw [Node.secretExpression, hcredentials], by simp⟩
    | cons p ps =>
        obtain ⟨v, hv, hname⟩ := hall n hn p (by rw [hcredentials]; exact List.mem_cons_self)
        obtain ⟨w, hw, hwv⟩ := hkept v (by simp [listed, hv])
        refine ⟨some ("process.env." ++ v.name), ?_, ?_⟩
        · rw [Node.secretExpression, hcredentials]
          show p.envName.map _ = _
          rw [hname]
          rfl
        · rintro e ⟨⟩
          exact ⟨w, hw, by rw [hwv]⟩
  case settings =>
    obtain ⟨header, rows, hcontent, hperm, hread⟩ := hends f hf
    refine ⟨header, rows, hcontent, hperm, fun row hrow => ?_⟩
    rw [hread row hrow]
    exact hmem row.1 (hperm.subset (List.mem_map_of_mem hrow))
  case tracing =>
    intro htracing v hv
    have hlisted : v ∈ tracing := by simpa [tracing, htracing] using hv
    obtain ⟨w, hw, hwv⟩ := hkept v (by simp [listed, hlisted])
    exact hwv ▸ List.mem_map_of_mem hw
  case runtime =>
    obtain ⟨w, hw, hwv⟩ := hkept EnvVariable.runtime (by simp [listed])
    have hname : w.name = "NODE_ENV" := hwv
    exact hname ▸ List.mem_map_of_mem hw

/-- A model with a secret. -/
def keyedModel : Node where
  id := "model"
  type := "chatOpenAI"
  parameters := [(.str "openAIApiKey", { name := .str "openAIApiKey", type := "credential" })]

/-- An environment that gives other names to what a program reads anyway. -/
def sharedEnvironment : Context where
  includeLangfuse := true
  environment := [("open-ai apiKey", "a"), ("langfuse public key", "b"), ("node-env", "c")]

theorem keyedModel_variables :
    ∃ vs, Graph.envVariables { nodes := [keyedModel] } sharedEnvironment = .ok vs ∧
      (vs.map (·.name)).Nodup ∧
      ∃ v ∈ vs, "process.env.OPEN_AI_API_KEY" = "process.env." ++ v.name := by
  have htext : Graph.TextNames { nodes := [keyedModel] } := by
    simp [Graph.TextNames, keyedModel]
  obtain ⟨vs, hvs, hnodup, hsecrets, -⟩ := htext.variables_listed sharedEnvironment
  obtain ⟨e?, he?, hread⟩ := hsecrets keyedModel (List.mem_singleton.mpr rfl)
  have hsecret : keyedModel.secretExpression.toOption =
      some (some "process.env.OPEN_AI_API_KEY") := by
    decide +kernel
  rw [he?] at hsecret
  cases hsecret
  exact ⟨vs, hvs, hnodup, hread _ rfl⟩

end Flowscript

/-
  Flowscript.Proofs.HeaderComments

  Comments at the start of generated files.

  A generated file begins with a comment that says what it is, and part of that is a text of
  the workflow or the name of the project.  The comment is to stay open until its own last
  line.  `Format.HoldsComment` says so of the text before that line, by the scan of the
  formatter, line by line.

    * A line is held in a comment if it has no terminator (`heldLine_iff`), and all lines of
      a text are if the text has none (`heldLines_iff`), whatever its line breaks.
    * The description of the main module is written without terminators, so its comment
      always holds.  The other names are written as they are.
    * A file is left out if a text in it has an integer that is too long to be written, and a
      file that is there begins with its comment (`header_held_iff`).
-/
import Flowscript.Proofs.TypesModule

namespace Flowscript.Format

open Text

variable {s t x next line : List Char} {c : Char}

-- ============================================================================
-- Lines in a comment
-- ============================================================================

/-- A line that starts in a comment is part of the comment, and leaves it open. -/
def HeldLine (line : List Char) : Prop :=
  scan .comment line = ⟨if line = [] then [] else [⟨.comment, line⟩], .comment⟩

/-- A text opens a comment in its first line, and all lines after it are part of the comment. -/
def HoldsComment (text : List Char) : Prop :=
  ∃ first lines, splitOn '\n' (unifyNewlines text) = first :: lines ∧
    scan .code first = ⟨[⟨.comment, first⟩], .comment⟩ ∧ ∀ line ∈ lines, HeldLine line

/-- A line is held if it does not end a comment. -/
theorem heldLine_iff : HeldLine line ↔ Without leavesComment [] line := by
  unfold HeldLine
  by_cases hline : line = []
  · simp [hline]
  · rw [if_neg hline, scan_eq_iff]
    constructor
    · rintro ⟨hreads, -⟩
      cases hreads with
      | closed hclosed hrest => cases hrest
      | opened hopened =>
          cases hopened with
          | restOfComment _ hwithout => exact hwithout
    · intro hwithout
      exact ⟨.opened (.restOfComment hline hwithout), by simp⟩

theorem leavesComment_cons_iff : leavesComment (c :: s) = true ↔ c = '*' ∧ s.head? = some '/' := by
  cases s with
  | nil => simp [leavesComment]
  | cons d s =>
      rw [shortSighted_leavesComment.pair, List.head?_cons, Option.some.injEq]
      constructor
      · intro h
        unfold leavesComment at h
        split at h
        · next heq =>
          cases heq
          exact ⟨rfl, rfl⟩
        · cases h
      · rintro ⟨rfl, rfl⟩
        rfl

theorem leavesComment_cons_eq_false_iff :
    leavesComment (c :: s) = false ↔ ¬ (c = '*' ∧ s.head? = some '/') := by
  rw [← leavesComment_cons_iff, Bool.not_eq_true]

/-- What ends a comment is never split by a line break. -/
theorem leavesComment_of_splitOn {lines : List (List Char)} (h : splitOn '\n' s = line :: lines) :
    leavesComment (c :: s) = false ↔ leavesComment (c :: line) = false := by
  rw [leavesComment_cons_eq_false_iff, leavesComment_cons_eq_false_iff]
  cases s with
  | nil =>
      cases h
      rfl
  | cons d s =>
      by_cases hd : d = '\n'
      · subst hd
        rw [splitOn_cons_self] at h
        cases h
        simp
      · obtain ⟨line', lines', hsplit⟩ := List.exists_cons_of_ne_nil (splitOn_ne_nil '\n' s)
        rw [splitOn_cons_of_ne hd hsplit] at h
        cases h
        simp

/-- The lines of a text are held if the text has nothing that ends a comment. -/
theorem heldLines_iff (s : List Char) :
    (∀ line ∈ splitOn '\n' s, HeldLine line) ↔ Without leavesComment [] s := by
  simp only [heldLine_iff]
  induction s with
  | nil => simp
  | cons c s ih =>
      obtain ⟨line, lines, hsplit⟩ := List.exists_cons_of_ne_nil (splitOn_ne_nil '\n' s)
      rw [without_cons, List.append_nil, ← ih]
      by_cases hc : c = '\n'
      · have hstay : leavesComment (c :: s) = false := by simp [hc, leavesComment]
        subst hc
        rw [splitOn_cons_self, List.forall_mem_cons]
        simp [hstay]
      · rw [splitOn_cons_of_ne hc hsplit, hsplit, List.forall_mem_cons, List.forall_mem_cons,
          without_cons, List.append_nil, leavesComment_of_splitOn hsplit, and_assoc]

theorem head?_unifyNewlines (hfeed : c ≠ '\n') (hreturn : c ≠ '\r') (s : List Char) :
    (unifyNewlines s).head? = some c ↔ s.head? = some c := by
  fun_induction unifyNewlines s with
  | case1 => rfl
  | case2 rest => simp [Ne.symm hfeed, Ne.symm hreturn]
  | case3 d rest _ =>
      rw [List.head?_cons, List.head?_cons, Option.some.injEq, Option.some.injEq]
      split
      · next hd => simp [hd, Ne.symm hfeed, Ne.symm hreturn]
      · rfl

/-- Line breaks do not end a comment, however they are written. -/
theorem without_unifyNewlines (s : List Char) :
    Without leavesComment [] (unifyNewlines s) ↔ Without leavesComment [] s := by
  fun_induction unifyNewlines s with
  | case1 => rfl
  | case2 rest ih => simp [ih, leavesComment]
  | case3 c rest _ ih =>
      rw [without_cons, without_cons, List.append_nil, List.append_nil, ih,
        leavesComment_cons_eq_false_iff, leavesComment_cons_eq_false_iff,
        head?_unifyNewlines (by decide) (by decide)]
      split
      · next hc => simp [hc]
      · rfl

/-- A text is without what ends a comment if there is no terminator in it. -/
theorem without_iff (s : List Char) :
    Without leavesComment [] s ↔ ¬ ['*', '/'] <:+: s := by
  induction s with
  | nil => simp
  | cons c s ih =>
      have hprefix : ['*', '/'] <+: c :: s ↔ c = '*' ∧ s.head? = some '/' := by
        rw [List.cons_prefix_cons]
        cases s with
        | nil => simp
        | cons d s => simp [List.cons_prefix_cons, eq_comm]
      rw [without_cons, List.append_nil, ih, List.infix_cons_iff, not_or, hprefix,
        leavesComment_cons_eq_false_iff]

/-- A text without slashes that ends with no star does not end a comment, whatever follows. -/
theorem without_of_not_mem (hs : '/' ∉ s) (hlast : s.getLast? ≠ some '*') :
    Without leavesComment next s := by
  induction s with
  | nil => trivial
  | cons c s ih =>
      rw [List.mem_cons, not_or] at hs
      cases s with
      | nil =>
          refine ⟨leavesComment_cons_eq_false_iff.mpr fun h => hlast (by rw [h.1]; rfl), trivial⟩
      | cons d s =>
          refine ⟨leavesComment_cons_eq_false_iff.mpr fun h => ?_, ih hs.2 ?_⟩
          · exact hs.2 (List.mem_of_mem_head? h.2)
          · rwa [List.getLast?_cons_cons] at hlast

/-- A comment whose first line is its opening holds if what follows has no terminator. -/
theorem holdsComment_opening (s : List Char) :
    HoldsComment ('/' :: '*' :: '*' :: '\n' :: s) ↔ ¬ ['*', '/'] <:+: s := by
  have hlines : splitOn '\n' (unifyNewlines ('/' :: '*' :: '*' :: '\n' :: s)) =
      ['/', '*', '*'] :: splitOn '\n' (unifyNewlines s) := by
    have hunify : unifyNewlines ('/' :: '*' :: '*' :: '\n' :: s) =
        ['/', '*', '*'] ++ '\n' :: unifyNewlines s := rfl
    have hline : '\n' ∉ ['/', '*', '*'] := by decide
    have hsplit := splitOn_append_of_not_mem hline (splitOn_cons_self '\n' (unifyNewlines s))
    rw [hunify, hsplit, List.append_nil]
  unfold HoldsComment
  rw [hlines, ← without_iff, ← without_unifyNewlines, ← heldLines_iff]
  constructor
  · rintro ⟨first, lines, hcons, -, hheld⟩
    cases hcons
    exact hheld
  · intro hheld
    exact ⟨_, _, rfl, rfl, hheld⟩

theorem without_newline_iff (s t : List Char) :
    Without leavesComment ('\n' :: t) s ↔ Without leavesComment [] s := by
  refine ⟨fun h => h.of_append shortSighted_leavesComment, fun h => ?_⟩
  refine h.congr shortSighted_leavesComment fun c d _ hd _ hstop => ?_
  cases hd
  simp [leavesComment] at hstop

/-- Of a name between two texts without terminators, only the name can end a comment. -/
theorem infix_between_iff (hs : '/' ∉ s) (hlast : s.getLast? ≠ some '*') (ht : '/' ∉ t)
    (x : List Char) : ['*', '/'] <:+: s ++ x ++ '\n' :: t ↔ ['*', '/'] <:+: x := by
  rw [← not_iff_not, ← without_iff, ← without_iff, without_append,
    without_append, List.append_nil, without_newline_iff]
  have hstart : Without leavesComment (x ++ '\n' :: t) s := without_of_not_mem hs hlast
  have hend : Without leavesComment [] ('\n' :: t) :=
    without_of_slash_not_mem (by simpa using ht) (by simp)
  simp [hstart, hend]

end Flowscript.Format

namespace Flowscript

open Template (Scope renderPart renderParts)
open ProjectFile (render)

variable {g : Graph} {c : Context} {a : Assembled}

-- ============================================================================
-- Templates with a header
-- ============================================================================

/-- A setting of a graph's program is or has an integer that is too long to be written. -/
def Graph.hasLongConfiguration (g : Graph) (c : Context) : Bool :=
  g.hasLongSetting || Script.hasLongPart (g.configuration c)

/-- The templates that begin with a comment. -/
inductive Headed where
  | mainFile
  | mainFunction
  | typesFile
  | configFile
  | mainTest
deriving DecidableEq, Repr

namespace Headed

/-- The text of a template with the values of a program, as it is before it is formatted. -/
def rendered (g : Graph) (c : Context) (a : Assembled) : Headed → Except Fault String
  | .mainFile => ProjectFile.mainSource g c a
  | .mainFunction => ProjectFile.mainFunction g c a
  | .typesFile => ProjectFile.typesSource g c
  | .configFile => ProjectFile.configSource g c
  | .mainTest => ProjectFile.testSource g c a

/-- The values that a template takes from a graph can be written. -/
def isWritable (g : Graph) (c : Context) : Headed → Bool
  | .mainFile => !g.hasLongName && !g.hasLongDescription
  | .mainFunction | .mainTest => !g.hasLongName
  | .typesFile => g.untyped?.isNone
  | .configFile => !g.hasLongConfiguration c

/-- The name that a header has in it. -/
def subject (g : Graph) (c : Context) : Headed → List Char
  | .mainFile => Naming.commentText (ProjectFile.about g "").display.toList
  | .mainFunction => g.name.toList
  | _ => c.projectName.toList

/-- What a header says before the name. -/
def before : Headed → List Char
  | .mainFile => " * ".toList
  | .mainFunction => " * Main function for ".toList
  | .typesFile => " * Type definitions for ".toList
  | .configFile => " * Configuration for ".toList
  | .mainTest => " * Tests for ".toList

/-- What a header says after the name. -/
def after : Headed → List Char
  | .mainFunction => []
  | _ => " * Generated by flowgen\n".toList

/-- A header up to its last line. -/
def opening (g : Graph) (c : Context) (t : Headed) : List Char :=
  "/**\n".toList ++ (t.before ++ t.subject g c ++ '\n' :: t.after)

-- ============================================================================
-- The rest of a template
-- ============================================================================

section Rest

variable {s : Scope}

theorem exists_renderParts_of_forall {ps : List Template.Part}
    (h : ∀ p ∈ ps, ∃ t, renderPart s p = .ok t) : ∃ t, renderParts s ps = .ok t := by
  induction ps with
  | nil => exact ⟨[], Template.renderParts_nil s⟩
  | cons p ps ih =>
      obtain ⟨first, hfirst⟩ := h p List.mem_cons_self
      obtain ⟨rest, hrest⟩ := ih fun p hp => h p (List.mem_cons_of_mem _ hp)
      exact ⟨first ++ rest, Template.renderParts_cons hfirst hrest⟩

/-- The parts of one variable of the environment. -/
def variableLine : List Template.Part := [
  .text "  ",
  .put (.filter (.var "key") .camelCase),
  .text ": process.env.",
  .put (.filter (.var "key") .envName),
  .text " || ",
  .put (.filter (.var "value") .quote),
  .text ",\n"]

theorem exists_variableLine {key value : String} (hkey : s.vars.lookup "key" = some (.str key))
    (hvalue : s.vars.lookup "value" = some (.str value)) :
    ∃ t, renderParts s variableLine = .ok t := by
  have hput {e : Template.Expr} {filter : Template.Filter} {t x : String}
      (he : e.eval s = .ok (.ok (.str t)))
      (hx : filter.apply s.quote (.ok (.str t)) = .ok (.str x)) :
      ∃ t, renderPart s (.put (.filter e filter)) = .ok t :=
    ⟨_, Template.renderPart_of_eval (Template.eval_filter he hx)⟩
  refine exists_renderParts_of_forall ?_
  simp only [variableLine, List.forall_mem_cons]
  exact ⟨⟨_, Template.renderPart_text s _⟩, hput (Template.eval_var hkey) rfl,
    ⟨_, Template.renderPart_text s _⟩, hput (Template.eval_var hkey) rfl,
    ⟨_, Template.renderPart_text s _⟩, hput (Template.eval_var hvalue) rfl,
    ⟨_, Template.renderPart_text s _⟩, List.forall_mem_nil _⟩

/-- All variables of an environment can be written. -/
theorem exists_environment {es : List (String × String)}
    (h : s.vars.lookup "environment" = some (Manifest.table es)) :
    ∃ t, renderPart s (.eachEntry "key" "value" (.var "environment") variableLine) = .ok t := by
  rw [renderPart, Template.Expr.value, Template.eval_var h]
  refine Template.exists_concatEach fun last e he => ?_
  obtain ⟨f, hf, rfl⟩ := List.mem_map.mp (List.mem_mergeSort.mp he)
  obtain ⟨entry, -, rfl⟩ := List.mem_map.mp hf
  exact exists_variableLine rfl rfl

theorem renderPart_object {v : Value} (hconfig : s.vars.lookup "config" = some v)
    (hshort : Script.hasLongPart v = false) :
    renderPart s (.put (.filter (.var "config") .object)) =
      .ok (Script.layout s.quote 2 0 v) := by
  have happly : Template.Filter.object.apply s.quote (.ok v) =
      .ok (.str (String.ofList (Script.layout s.quote 2 0 v))) := by
    show Template.literal (Script.layout? s.quote 2 0 v) = _
    rw [Script.layout?, hshort]
    rfl
  rw [Template.renderPart_of_eval (Template.eval_filter (Template.eval_var hconfig) happly),
    String.toList_ofList]

theorem renderPart_object_eq_error {v : Value} (hconfig : s.vars.lookup "config" = some v)
    (hlong : Script.hasLongPart v = true) :
    renderPart s (.put (.filter (.var "config") .object)) = .error (.unfit .longInteger) := by
  have happly : Template.Filter.object.apply s.quote (.ok v) = .error (.unfit .longInteger) := by
    show Template.literal (Script.layout? s.quote 2 0 v) = _
    rw [Script.layout?, hlong]
    rfl
  rw [renderPart, Template.Expr.value, Template.Expr.eval, Template.eval_var hconfig, ok_bind,
    happly]
  rfl

/-- The configuration after its header. -/
theorem exists_configRest {path : String} {v : Value} {tracing : Bool} {es : List (String × String)}
    (hpath : s.vars.lookup "types_import" = some (.str path))
    (hconfig : s.vars.lookup "config" = some v) (hshort : Script.hasLongPart v = false)
    (htracing : s.vars.lookup "langfuse" = some (.bool tracing))
    (henvironment : s.vars.lookup "environment" = some (Manifest.table es)) :
    ∃ t, renderParts s (Template.configFile.drop 1) = .ok t := by
  have hsupplies : s.Supplies ["types_import", "langfuse"] [] := by
    constructor
    · simp [hpath, htracing]
    · simp
  have hplain := fun p hp => Template.exists_renderPart s _ _ hsupplies p hp
  have hobject : ∃ t, renderPart s (.put (.filter (.var "config") .object)) = .ok t :=
    ⟨_, renderPart_object hconfig hshort⟩
  refine exists_renderParts_of_forall ?_
  simp only [Template.configFile, List.drop_succ_cons, List.drop_zero, List.forall_mem_cons]
  exact ⟨hplain _ rfl, hplain _ rfl, hplain _ rfl, hobject, hplain _ rfl, hplain _ rfl,
    hplain _ rfl, hplain _ rfl, hplain _ rfl, exists_environment henvironment, hplain _ rfl,
    List.forall_mem_nil _⟩

/-- The configuration is not written if something in it cannot be. -/
theorem renderParts_configFile_eq_error {project path : String} {v : Value} {comments : Bool}
    (hproject : s.vars.lookup "project_name" = some (.str project))
    (hpath : s.vars.lookup "types_import" = some (.str path))
    (hconfig : s.vars.lookup "config" = some v) (hlong : Script.hasLongPart v = true)
    (hcomments : s.vars.lookup "comments" = some (.bool comments)) :
    renderParts s Template.configFile = .error (.unfit .longInteger) := by
  have hsupplies : s.Supplies ["project_name", "types_import", "comments"] [] := by
    constructor
    · simp [hproject, hpath, hcomments]
    · simp
  obtain ⟨t, ht⟩ := Template.exists_renderParts s _ _ hsupplies (Template.configFile.take 4) rfl
  exact Template.renderParts_eq_error ht (renderPart_object_eq_error hconfig hlong)

end Rest

end Headed

namespace ProjectFile

/-- What the module of settings is made from. -/
def configValues (g : Graph) (c : Context) : List (String × Value) := [
  ("project_name", .str c.projectName),
  ("types_import", .str (c.moduleFormat.siblingPath "types")),
  ("config", g.configuration c),
  ("langfuse", .bool c.includeLangfuse),
  ("environment", Manifest.table c.environment)]

theorem configSource_eq (h : g.hasLongSetting = false) :
    configSource g c = render c "config_file" (configValues g c) := by
  rw [configSource, h]
  rfl

theorem configSource_eq_error (h : g.hasLongConfiguration c = true) :
    configSource g c = .error .longInteger := by
  cases hsetting : g.hasLongSetting with
  | true => rw [configSource, hsetting, if_pos rfl]
  | false =>
      have hlong : Script.hasLongPart (g.configuration c) = true := by
        simpa [Graph.hasLongConfiguration, hsetting] using h
      let s : Scope :=
        { vars := configValues g c ++ [("comments", .bool c.includeComments)]
          quote := c.style.quote }
      have hparts : renderParts s Template.configFile = .error (.unfit .longInteger) :=
        Headed.renderParts_configFile_eq_error rfl rfl rfl hlong rfl
      have hlibrary : Template.library.lookup "config_file" = some Template.configFile := rfl
      rw [configSource_eq hsetting]
      exact Template.render_eq_error hlibrary hparts

end ProjectFile

namespace Headed

-- ============================================================================
-- Rendered templates
-- ============================================================================

/-- The last line of a header. -/
def closing : List Char := " */\n".toList

/-- A template that begins with a header, if the rest of it can be written. -/
theorem exists_render_headed (t : Headed) (first last : String) (blank : List Char)
    {template key name : String} {values : List (String × Value)} {parts : List Template.Part}
    (hcomments : c.includeComments = true)
    (hlibrary : Template.library.lookup template = some
      (.when (.holds (.var "comments")) [.text first, .put (.var key), .text last] [] :: parts))
    (hfirst : first.toList = "/**\n".toList ++ t.before)
    (hlast : last.toList = '\n' :: (t.after ++ closing ++ blank))
    (hname : t.subject g c = name.toList) (hvalue : values.lookup key = some (.str name))
    (hfree : values.lookup "comments" = none)
    (hrest : ∃ u, renderParts
      { vars := values ++ [("comments", .bool c.includeComments)], quote := c.style.quote } parts =
        .ok u) :
    ∃ rest, render c template values = .ok (String.ofList (t.opening g c ++ closing ++ rest)) := by
  obtain ⟨u, hu⟩ := hrest
  let s : Scope :=
    { vars := values ++ [("comments", .bool c.includeComments)], quote := c.style.quote }
  have hvar : s.vars.lookup key = some (.str name) := by
    rw [List.lookup_append, hvalue]
    rfl
  have hflag : s.vars.lookup "comments" = some (.bool true) := by
    rw [List.lookup_append, hfree, hcomments]
    rfl
  have hheader :
      first.toList ++ name.toList ++ last.toList = t.opening g c ++ closing ++ blank := by
    rw [hfirst, hlast, opening, hname]
    simp only [List.append_assoc, List.cons_append]
  have hparts := Template.renderParts_cons (Template.renderPart_comment hflag hvar first last) hu
  rw [if_pos rfl, hheader, List.append_assoc] at hparts
  exact ⟨blank ++ u, Template.render_eq_ok hlibrary hparts⟩

/-- Every template with a header is rendered if what it takes from the graph can be written, and
begins with the header. -/
theorem exists_rendered (t : Headed) (a : Assembled) (hcomments : c.includeComments = true)
    (hwritable : t.isWritable g c = true) :
    ∃ rest, t.rendered g c a = .ok (String.ofList (t.opening g c ++ closing ++ rest)) := by
  cases t with
  | mainFile =>
      rw [isWritable, Bool.and_eq_true, Bool.not_eq_true', Bool.not_eq_true'] at hwritable
      obtain ⟨mainFunction, hmain⟩ := ProjectFile.exists_mainFunction hwritable.1 c a
      have habout : (ProjectFile.about g "").text = .ok (ProjectFile.about g "").display :=
        Value.text_of_not_hasLongInteger
          ((ProjectFile.hasLongInteger_about g "").trans hwritable.2)
      rw [rendered, ProjectFile.mainSource, hmain, ok_bind, habout, ok_bind]
      refine exists_render_headed .mainFile "/**\n * " "\n * Generated by flowgen\n */\n\n" ['\n']
        hcomments rfl (by decide) (by decide) String.toList_ofList.symm rfl rfl ?_
      exact Template.exists_renderParts _ ["imports", "main_function", "module_format", "comments"]
        ["declarations", "exports"] ⟨by simp [List.lookup_cons],
          by simp [List.lookup_cons, Value.strings]⟩ (Template.mainFile.drop 1) (by decide)
  | mainFunction =>
      have hname : g.hasLongName = false := by simpa [isWritable] using hwritable
      rw [rendered, ProjectFile.mainFunction, ProjectFile.nameText_eq_ok hname, ok_bind]
      refine exists_render_headed .mainFunction "/**\n * Main function for " "\n */\n" []
        hcomments rfl (by decide) (by decide) rfl rfl rfl ?_
      exact Template.exists_renderParts _ ["graph_name", "langfuse", "comments"]
        ["initializations", "executions"] ⟨by simp [List.lookup_cons],
          by simp [List.lookup_cons, Value.strings]⟩ (Template.mainFunction.drop 1) (by decide)
  | typesFile =>
      have huntyped : g.untyped? = none := by simpa [isWritable] using hwritable
      rw [rendered, ProjectFile.typesSource, huntyped]
      refine exists_render_headed .typesFile "/**\n * Type definitions for "
        "\n * Generated by flowgen\n */\n\n" ['\n'] hcomments rfl (by decide) (by decide)
        rfl rfl rfl ?_
      exact ⟨_, Template.renderParts_interfaces rfl⟩
  | configFile =>
      have hshort : g.hasLongConfiguration c = false := by simpa [isWritable] using hwritable
      rw [Graph.hasLongConfiguration, Bool.or_eq_false_iff] at hshort
      rw [rendered, ProjectFile.configSource, hshort.1]
      refine exists_render_headed .configFile "/**\n * Configuration for "
        "\n * Generated by flowgen\n */\n\n" ['\n'] hcomments rfl (by decide) (by decide)
        rfl rfl rfl ?_
      exact exists_configRest rfl rfl hshort.2 rfl rfl
  | mainTest =>
      have hname : g.hasLongName = false := by simpa [isWritable] using hwritable
      rw [rendered, ProjectFile.testSource, ProjectFile.nameText_eq_ok hname, ok_bind]
      refine exists_render_headed .mainTest "/**\n * Tests for "
        "\n * Generated by flowgen\n */\n\n" ['\n'] hcomments rfl (by decide) (by decide)
        rfl rfl rfl ?_
      exact Template.exists_renderParts _
        ["index_import", "graph_name", "langfuse", "has_execution", "comments"] []
        ⟨by simp [List.lookup_cons], by simp⟩ (Template.mainTest.drop 1) (by decide)

theorem rendered_eq_error (t : Headed) (a : Assembled) (h : t.isWritable g c = false) :
    ∃ e, t.rendered g c a = .error e := by
  cases t with
  | mainFile =>
      rw [isWritable, Bool.and_eq_false_iff, Bool.not_eq_false', Bool.not_eq_false'] at h
      rw [rendered, ProjectFile.mainSource]
      cases hname : g.hasLongName with
      | true =>
          rw [ProjectFile.mainFunction, ProjectFile.nameText_eq_error hname, error_bind, error_bind]
          exact ⟨_, rfl⟩
      | false =>
          obtain ⟨mainFunction, hmain⟩ := ProjectFile.exists_mainFunction hname c a
          have hdescription : g.hasLongDescription = true := h.resolve_left (by simp [hname])
          have habout : (ProjectFile.about g "").text = .error .longInteger :=
            Value.text_of_hasLongInteger
              ((ProjectFile.hasLongInteger_about g "").trans hdescription)
          rw [hmain, ok_bind, habout, error_bind]
          exact ⟨_, rfl⟩
  | mainFunction =>
      have hname : g.hasLongName = true := by simpa [isWritable] using h
      rw [rendered, ProjectFile.mainFunction, ProjectFile.nameText_eq_error hname, error_bind]
      exact ⟨_, rfl⟩
  | typesFile =>
      obtain ⟨obstacle, huntyped⟩ : ∃ obstacle, g.untyped? = some obstacle :=
        Option.isSome_iff_exists.mp (by simpa [isWritable] using h)
      exact ⟨_, ProjectFile.typesSource_eq_error huntyped c⟩
  | configFile =>
      have hlong : g.hasLongConfiguration c = true := by simpa [isWritable] using h
      exact ⟨_, ProjectFile.configSource_eq_error hlong⟩
  | mainTest =>
      have hname : g.hasLongName = true := by simpa [isWritable] using h
      rw [rendered, ProjectFile.testSource, ProjectFile.nameText_eq_error hname, error_bind]
      exact ⟨_, rfl⟩

/-- The name that a header takes as it is has no terminator of comments in it. -/
def IsContained (g : Graph) (c : Context) : Headed → Prop
  | .mainFile => True
  | .mainFunction => ¬ ['*', '/'] <:+: g.name.toList
  | _ => ¬ ['*', '/'] <:+: c.projectName.toList

theorem not_infix_commentText (s : List Char) : ¬ ['*', '/'] <:+: Naming.commentText s :=
  (Format.without_iff _).mp (Naming.without_commentText (by simp) s)

theorem isContained_iff (g : Graph) (c : Context) (t : Headed) :
    t.IsContained g c ↔ ¬ ['*', '/'] <:+: t.subject g c := by
  cases t with
  | mainFile => exact iff_of_true trivial (not_infix_commentText _)
  | _ => exact Iff.rfl

/-- The header of a template holds until its last line exactly if its name is contained. -/
theorem holdsComment_iff (g : Graph) (c : Context) (t : Headed) :
    Format.HoldsComment (t.opening g c) ↔ t.IsContained g c := by
  have hopening : t.opening g c =
      '/' :: '*' :: '*' :: '\n' :: (t.before ++ t.subject g c ++ '\n' :: t.after) := rfl
  have hbefore : '/' ∉ t.before ∧ t.before.getLast? ≠ some '*' := by
    cases t <;> decide
  have hafter : '/' ∉ t.after := by
    cases t <;> decide
  rw [hopening, Format.holdsComment_opening, isContained_iff, not_iff_not,
    Format.infix_between_iff hbefore.1 hbefore.2 hafter]

end Headed

/-- With comments, a template with a header is rendered exactly if what it takes from the graph can
be written, and then it begins with the header.  This stays open until its own last line for any
description, and for the names of workflow and project exactly if they have no terminator of
comments in them. -/
theorem header_held_iff (g : Graph) (c : Context) (a : Assembled)
    (hcomments : c.includeComments = true) (t : Headed) :
    ((∃ text, t.rendered g c a = .ok text) ↔ t.isWritable g c = true) ∧
      (∀ text, t.rendered g c a = .ok text →
        ∃ rest, text = String.ofList (t.opening g c ++ Headed.closing ++ rest)) ∧
      (Format.HoldsComment (t.opening g c) ↔ t.IsContained g c) := by
  cases hwritable : t.isWritable g c with
  | false =>
      obtain ⟨e, he⟩ := t.rendered_eq_error a hwritable
      simp [he, t.holdsComment_iff g c]
  | true =>
      obtain ⟨rest, hrest⟩ := t.exists_rendered a hcomments hwritable
      rw [hrest]
      refine ⟨by simp, ?_, t.holdsComment_iff g c⟩
      rintro text ⟨⟩
      exact ⟨rest, rfl⟩

/-- Of a project whose name ends comments, the main module is held and the module of interfaces
is not. -/
theorem endingName_header_not_held :
    let c : Context := { projectName := "x */ y" }
    let a : Assembled := { group := fun _ => [] }
    (∃ rest, Headed.mainFile.rendered {} c a = .ok (String.ofList
      (Headed.mainFile.opening {} c ++ Headed.closing ++ rest))) ∧
      Format.HoldsComment (Headed.mainFile.opening {} c) ∧
      ¬ Format.HoldsComment (Headed.typesFile.opening {} c) := by
  intro c a
  obtain ⟨hrendered, hopening, hmain⟩ := header_held_iff {} c a rfl .mainFile
  obtain ⟨-, -, htypes⟩ := header_held_iff {} c a rfl .typesFile
  obtain ⟨text, htext⟩ := hrendered.mpr rfl
  obtain ⟨rest, rfl⟩ := hopening text htext
  refine ⟨⟨rest, htext⟩, hmain.mpr trivial, fun hheld => htypes.mp hheld ?_⟩
  exact ⟨"x ".toList, " y".toList, by decide⟩

end Flowscript

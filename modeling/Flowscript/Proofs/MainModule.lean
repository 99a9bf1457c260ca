/-
  Flowscript.Proofs.MainModule

  The text of the main module.

  The main module is rendered whatever the workflow, if its name and its description can be
  written: the template needs names that are bound to values with a text, and lists of them
  where it walks through items.  It begins with a comment and the imports,
  after which the declarations stand, each with an empty line after it, and then the main
  function and what else there is (`ProjectFile.exists_main`).
-/
import Flowscript.Proofs.Conversion
import Flowscript.Proofs.Rendering
import Flowscript.Proofs.SealedText
import Flowscript.Proofs.VariableNames
import Flowscript.Proofs.Words
import Flowscript.Project.File

namespace Flowscript.Template

variable {names lists : List String} {s : Scope} {e : Expr}

-- ============================================================================
-- Templates with all they need
-- ============================================================================

/-- Names are bound to values that can be written, those of lists to lists of them. -/
structure Scope.Supplies (names lists : List String) (s : Scope) : Prop where
  bound : ∀ name ∈ names, ∃ v, s.vars.lookup name = some v ∧ v.hasLongInteger = false
  listed : ∀ name ∈ lists, ∃ xs, s.vars.lookup name = some (.list xs) ∧
    ∀ x ∈ xs, x.hasLongInteger = false

/-- The expression is the value of one of the names, or its literal. -/
def Expr.isSupplied (names : List String) : Expr → Bool
  | .var name => name ∈ names
  | .filter e .quote => e.isSupplied names
  | _ => false

def Test.isSupplied (names : List String) : Test → Bool
  | .holds e => e.isSupplied names
  | .equals e _ => e.isSupplied names
  | .notLast => true

mutual

/-- The part writes and tests the values of the names only, and walks through lists only. -/
def Part.isSupplied (names lists : List String) : Part → Bool
  | .text _ => true
  | .put e => e.isSupplied names
  | .when test yes no =>
    test.isSupplied names && areSupplied names lists yes && areSupplied names lists no
  | .each name (.var items) body =>
    items ∈ lists && name ∉ lists && areSupplied (name :: names) lists body
  | _ => false

def areSupplied (names lists : List String) : List Part → Bool
  | [] => true
  | p :: ps => p.isSupplied names lists && areSupplied names lists ps

end

theorem Scope.Supplies.bind {name : String} {v : Value} (h : s.Supplies names lists)
    (hname : name ∉ lists) (hv : v.hasLongInteger = false) (last : Bool) :
    Scope.Supplies (name :: names) lists { s.bind name v with last } := by
  have hother : ∀ {x}, x ≠ name → (s.bind name v).vars.lookup x = s.vars.lookup x := by
    intro x hx
    rw [Scope.bind, List.lookup_cons, beq_false_of_ne hx]
  constructor
  · intro x hx
    by_cases hsame : x = name
    · exact ⟨v, by rw [hsame]; exact List.lookup_cons_self, hv⟩
    · obtain ⟨w, hw, hshort⟩ := h.bound x ((List.mem_cons.mp hx).resolve_left hsame)
      exact ⟨w, (hother hsame).trans hw, hshort⟩
  · intro x hx
    obtain ⟨xs, hxs, hshort⟩ := h.listed x hx
    have hne : x ≠ name := fun hsame => hname (hsame ▸ hx)
    exact ⟨xs, (hother hne).trans hxs, hshort⟩

theorem textOf_eq_ok {v : Value} (h : v.hasLongInteger = false) : textOf v = .ok v.display := by
  rw [textOf, Value.text_of_not_hasLongInteger h]
  rfl

theorem Expr.exists_eval (hs : s.Supplies names lists) (he : e.isSupplied names = true) :
    ∃ v, e.eval s = .ok (.ok v) ∧ v.hasLongInteger = false := by
  fun_induction Expr.isSupplied names e with
  | case1 name =>
      obtain ⟨v, hv, hshort⟩ := hs.bound name (of_decide_eq_true he)
      exact ⟨v, by rw [Expr.eval, hv], hshort⟩
  | case2 e ih =>
      obtain ⟨v, hv, hshort⟩ := ih he
      have hquote : Filter.quote.apply s.quote (.ok v) =
          .ok (.str (Script.quoteString s.quote v.display)) := by
        show (textOf v >>= _) = _
        rw [textOf_eq_ok hshort]
        rfl
      refine ⟨.str (Script.quoteString s.quote v.display), ?_, rfl⟩
      rw [Expr.eval, hv]
      show (Filter.quote.apply s.quote (.ok v) >>= _) = _
      rw [hquote]
      rfl
  | case3 => cases he

theorem Expr.exists_value (hs : s.Supplies names lists) (he : e.isSupplied names = true) :
    ∃ v, e.value s = .ok v ∧ v.hasLongInteger = false := by
  obtain ⟨v, hv, hshort⟩ := Expr.exists_eval hs he
  exact ⟨v, by rw [Expr.value, hv]; rfl, hshort⟩

theorem Test.exists_eval {test : Test} (hs : s.Supplies names lists)
    (ht : test.isSupplied names = true) : ∃ b, test.eval s = .ok b := by
  cases test with
  | holds e =>
      obtain ⟨v, hv, -⟩ := Expr.exists_value hs ht
      exact ⟨v.isTruthy, by rw [Test.eval, hv]; rfl⟩
  | equals e text =>
      obtain ⟨v, hv, -⟩ := Expr.exists_value hs ht
      simp only [Test.eval, hv, bind, Except.bind]
      split
      · exact ⟨_, rfl⟩
      · exact ⟨false, rfl⟩
  | notLast => exact ⟨!s.last, rfl⟩

theorem exists_concatEach {α : Type} {f : Bool → α → Except RenderFault (List Char)} {xs : List α}
    (hf : ∀ last, ∀ x ∈ xs, ∃ t, f last x = .ok t) : ∃ t, concatEach f xs = .ok t := by
  induction xs with
  | nil => exact ⟨[], rfl⟩
  | cons x xs ih =>
      obtain ⟨first, hfirst⟩ := hf xs.isEmpty x List.mem_cons_self
      obtain ⟨rest, hrest⟩ := ih fun last x hx => hf last x (List.mem_cons_of_mem _ hx)
      exact ⟨first ++ rest, by rw [concatEach, hfirst, hrest]; rfl⟩

/-- Items with known texts are written one after the other. -/
theorem concatEach_map {α β : Type} {f : Bool → β → Except RenderFault (List Char)} {value : α → β}
    {text : α → List Char} {xs : List α}
    (hf : ∀ last, ∀ x ∈ xs, f last (value x) = .ok (text x)) :
    concatEach f (xs.map value) = .ok (xs.flatMap text) := by
  induction xs with
  | nil => rfl
  | cons x xs ih =>
      have hrest := ih fun last x hx => hf last x (List.mem_cons_of_mem _ hx)
      rw [List.map_cons, concatEach, hf _ x List.mem_cons_self, hrest]
      rfl

mutual

theorem exists_renderPart (s : Scope) (names lists : List String) (hs : s.Supplies names lists)
    (p : Part) (hp : p.isSupplied names lists = true) : ∃ t, renderPart s p = .ok t := by
  match p with
  | .text t => exact ⟨t.toList, by rw [renderPart]⟩
  | .put e =>
      obtain ⟨v, hv, hshort⟩ := Expr.exists_value hs hp
      refine ⟨v.display.toList, ?_⟩
      rw [renderPart, hv]
      show (textOf v >>= _) = _
      rw [textOf_eq_ok hshort]
      rfl
  | .when test yes no =>
      simp only [Part.isSupplied, Bool.and_eq_true] at hp
      obtain ⟨b, hb⟩ := Test.exists_eval hs hp.1.1
      rw [renderPart, hb]
      cases b with
      | true => exact exists_renderParts s names lists hs yes hp.1.2
      | false => exact exists_renderParts s names lists hs no hp.2
  | .each name (.var items) body =>
      simp only [Part.isSupplied, Bool.and_eq_true, decide_eq_true_eq] at hp
      obtain ⟨xs, hxs, hshort⟩ := hs.listed items hp.1.1
      rw [renderPart, Expr.value, Expr.eval, hxs]
      refine exists_concatEach fun last x hx => ?_
      exact exists_renderParts _ (name :: names) lists (hs.bind hp.1.2 (hshort x hx) last) body hp.2
  | .each _ (.field _ _) _ => cases hp
  | .each _ (.filter _ _) _ => cases hp
  | .each _ (.orElse _ _) _ => cases hp
  | .each _ (.choose _ _ _) _ => cases hp
  | .eachEntry _ _ _ _ => cases hp

theorem exists_renderParts (s : Scope) (names lists : List String) (hs : s.Supplies names lists)
    (ps : List Part) (hps : areSupplied names lists ps = true) :
    ∃ t, renderParts s ps = .ok t := by
  match ps with
  | [] => exact ⟨[], by rw [renderParts]⟩
  | p :: ps =>
      simp only [areSupplied, Bool.and_eq_true] at hps
      obtain ⟨first, hfirst⟩ := exists_renderPart s names lists hs p hps.1
      obtain ⟨rest, hrest⟩ := exists_renderParts s names lists hs ps hps.2
      exact ⟨first ++ rest, by rw [renderParts, hfirst, hrest]; rfl⟩

end

/-- The text of a template whose first parts have a known text. -/
theorem renderParts_append {ps qs : List Part} {a b : List Char} (ha : renderParts s ps = .ok a)
    (hb : renderParts s qs = .ok b) : renderParts s (ps ++ qs) = .ok (a ++ b) := by
  induction ps generalizing a with
  | nil =>
      rw [renderParts] at ha
      cases ha
      exact hb
  | cons p ps ih =>
      rw [renderParts] at ha
      obtain ⟨first, hfirst, ha⟩ := bind_eq_ok_iff.mp ha
      obtain ⟨rest, hrest, ha⟩ := bind_eq_ok_iff.mp ha
      cases ha
      rw [List.cons_append, renderParts, hfirst, ih hrest, List.append_assoc]
      rfl

/-- The text of a template in which a part fails after parts that do not. -/
theorem renderParts_eq_error {ps qs : List Part} {p : Part} {a : List Char} {e : RenderFault}
    (hps : renderParts s ps = .ok a) (hp : renderPart s p = .error e) :
    renderParts s (ps ++ p :: qs) = .error e := by
  induction ps generalizing a with
  | nil => rw [List.nil_append, renderParts, hp, error_bind]
  | cons q ps ih =>
      rw [renderParts] at hps
      obtain ⟨first, hfirst, hps⟩ := bind_eq_ok_iff.mp hps
      obtain ⟨rest, hrest, -⟩ := bind_eq_ok_iff.mp hps
      rw [List.cons_append, renderParts, hfirst, ok_bind, ih hrest, error_bind]

theorem renderPart_text (s : Scope) (t : String) : renderPart s (.text t) = .ok t.toList := by
  rw [renderPart]

theorem renderParts_nil (s : Scope) : renderParts s [] = .ok [] := by
  rw [renderParts]

theorem renderPart_put {name t : String} (h : s.vars.lookup name = some (.str t)) :
    renderPart s (.put (.var name)) = .ok t.toList := by
  rw [renderPart, Expr.value, Expr.eval, h]
  rfl

theorem renderParts_cons {p : Part} {ps : List Part} {a b : List Char} (ha : renderPart s p = .ok a)
    (hb : renderParts s ps = .ok b) : renderParts s (p :: ps) = .ok (a ++ b) := by
  rw [renderParts, ha, hb]
  rfl

/-- A value between two texts, which are there only if comments are. -/
theorem renderPart_comment {comments : Bool} {key t : String}
    (hcomments : s.vars.lookup "comments" = some (.bool comments))
    (h : s.vars.lookup key = some (.str t)) (before after : String) :
    renderPart s (.when (.holds (.var "comments")) [.text before, .put (.var key), .text after] []) =
      .ok (if comments then before.toList ++ t.toList ++ after.toList else []) := by
  have htest : (Test.holds (.var "comments")).eval s = .ok comments := by
    rw [Test.eval, Expr.value, Expr.eval, hcomments]
    cases comments <;> rfl
  rw [renderPart, htest]
  show (if comments then _ else _) = _
  split
  · have hparts := renderParts_cons (renderPart_text s before)
      (renderParts_cons (renderPart_put h)
        (renderParts_cons (renderPart_text s after) (renderParts_nil s)))
    simpa only [List.append_assoc, List.append_nil] using hparts
  · exact renderParts_nil s

/-- Texts, each with the same text after it. -/
theorem renderPart_each {name items sep : String} {xs : List String}
    (h : s.vars.lookup items = some (.strings xs)) :
    renderPart s (.each name (.var items) [.put (.var name), .text sep]) =
      .ok (xs.flatMap fun x => x.toList ++ sep.toList) := by
  rw [renderPart, Expr.value, Expr.eval, h]
  show concatEach _ (xs.map Value.str) = _
  refine concatEach_map fun last x _ => ?_
  have hx : ({ s.bind name (.str x) with last } : Scope).vars.lookup name = some (.str x) :=
    List.lookup_cons_self
  have hsep : renderParts { s.bind name (.str x) with last } [.text sep] = .ok sep.toList := by
    have hnone := renderParts_nil { s.bind name (.str x) with last }
    simpa using renderParts_cons (renderPart_text _ sep) hnone
  exact renderParts_cons (renderPart_put hx) hsep

theorem render_eq_ok {r : Renderer} {name : String} {values : List (String × Value)}
    {parts : List Part} {t : List Char} (hparts : library.lookup name = some parts)
    (ht : renderParts { vars := values ++ [("comments", .bool r.comments)], quote := r.quote }
      parts = .ok t) : r.render name values = .ok (String.ofList t) := by
  simp only [Renderer.render, hparts, ht]

theorem render_eq_error {r : Renderer} {name : String} {values : List (String × Value)}
    {parts : List Part} {f : Fault} (hparts : library.lookup name = some parts)
    (hf : renderParts { vars := values ++ [("comments", .bool r.comments)], quote := r.quote }
      parts = .error (.unfit f)) : r.render name values = .error f := by
  simp only [Renderer.render, hparts, hf]

end Flowscript.Template

namespace Flowscript

open Template (Scope renderPart renderParts)
open Format (Sealed)

variable {c : Context} {a : Assembled} {g : Graph}

-- ============================================================================
-- Descriptions in comments
-- ============================================================================

theorem Text.mem_replaceFrom {old new s : List Char} {skip : Nat} {x : Char}
    (h : x ∈ replaceFrom old new skip s) : x ∈ new ∨ x ∈ s := by
  fun_induction replaceFrom old new skip s with
  | case1 => cases h
  | case2 skip d rest ih => exact (ih h).imp_right (List.mem_cons_of_mem d)
  | case3 d rest _ ih =>
      rcases List.mem_append.mp h with h | h
      · exact .inl h
      · exact (ih h).imp_right (List.mem_cons_of_mem d)
  | case4 d rest _ ih =>
      rcases List.mem_cons.mp h with rfl | h
      · exact .inr List.mem_cons_self
      · exact (ih h).imp_right (List.mem_cons_of_mem d)

/-- The only white space in a comment's text is the blanks between words. -/
theorem Naming.not_mem_commentText {x : Char} (hblank : Text.isBlank x = true) (hx : x ≠ ' ')
    (s : List Char) : x ∉ commentText s := by
  intro h
  rcases Text.mem_replaceFrom h with h | h
  · simp only [List.mem_cons, List.not_mem_nil, or_false] at h
    rcases h with rfl | rfl | rfl <;> cases hblank
  · rcases Text.mem_joinWith h with h | ⟨w, hw, h⟩
    · exact hx (List.mem_singleton.mp h)
    · rw [Text.isBlank_of_mem_words hw h] at hblank
      cases hblank

/-- Nothing in a comment's text ends the comment. -/
theorem Naming.without_commentText {next : List Char} (hnext : next.head? ≠ some '/')
    (s : List Char) : Format.Without Format.leavesComment next (commentText s) := by
  have hall : ∀ skip t, Format.Without Format.leavesComment next
      (Text.replaceFrom ['*', '/'] ['*', '\\', '/'] skip t) := by
    intro skip t
    fun_induction Text.replaceFrom ['*', '/'] ['*', '\\', '/'] skip t with
    | case1 => trivial
    | case2 skip d rest ih => exact ih
    | case3 d rest _ ih =>
        exact ⟨rfl, rfl, by simp [Format.leavesComment], ih⟩
    | case4 d rest hd ih =>
        refine ⟨?_, ih⟩
        by_cases hstar : d = '*'
        · subst hstar
          refine Format.leavesComment_of_head? ?_ _
          cases rest with
          | nil => exact hnext
          | cons e rest =>
              rw [Text.replaceFrom]
              split
              · simp
              · rintro ⟨⟩
                exact hd rfl
        · simp [Format.leavesComment, hstar]
  exact hall 0 _

-- ============================================================================
-- The main module
-- ============================================================================

namespace ProjectFile

/-- The main function can be written if the name of the workflow can be. -/
theorem exists_mainFunction (hname : g.hasLongName = false) (c : Context) (a : Assembled) :
    ∃ t, mainFunction g c a = .ok t := by
  obtain ⟨t, ht⟩ := Template.exists_renderParts
    { vars := [
        ("graph_name", .str g.name),
        ("langfuse", .bool c.includeLangfuse),
        ("initializations", .strings (a.contents .initialization)),
        ("executions", .strings (a.contents .execution))] ++
          [("comments", .bool c.includeComments)]
      quote := c.style.quote }
    ["graph_name", "langfuse", "comments"] ["initializations", "executions"]
    ⟨by simp [List.lookup_cons], by simp [List.lookup_cons, Value.strings]⟩ Template.mainFunction (by decide)
  rw [mainFunction, nameText_eq_ok hname, ok_bind]
  exact ⟨_, Template.render_eq_ok rfl ht⟩

/-- The comment at the start of the main module. -/
def header (comments : Bool) (description : List Char) : List Char :=
  if comments then "/**\n * ".toList ++ description ++ "\n * Generated by flowgen\n */\n\n".toList
  else []

/-- What the main module holds before its functions. -/
def opening (g : Graph) (c : Context) (a : Assembled) : List Char :=
  header c.includeComments (Naming.commentText (about g "").display.toList) ++
    (importBlock c a).toList ++ ['\n', '\n'] ++
    (a.contents .declaration).flatMap fun x => x.toList ++ ['\n', '\n']

section Front

variable {s : Scope} {comments : Bool} {description imports : String} {declarations : List String}
  (hcomments : s.vars.lookup "comments" = some (.bool comments))
  (hdescription : s.vars.lookup "description" = some (.str description))

include hcomments hdescription

theorem renderPart_header :
    renderPart s (.when (.holds (.var "comments")) [
      .text "/**\n * ", .put (.var "description"), .text "\n * Generated by flowgen\n */\n\n"] []) =
        .ok (header comments description.toList) :=
  Template.renderPart_comment hcomments hdescription _ _

/-- The main module begins with its comment, the imports and the declarations. -/
theorem renderParts_front (himports : s.vars.lookup "imports" = some (.str imports))
    (hdeclarations : s.vars.lookup "declarations" = some (.strings declarations)) :
    renderParts s (Template.mainFile.take 4) =
      .ok (header comments description.toList ++ imports.toList ++ ['\n', '\n'] ++
        declarations.flatMap fun x => x.toList ++ ['\n', '\n']) := by
  have hbreak : "\n\n".toList = ['\n', '\n'] := by decide
  have heach : renderPart s (.each "declaration" (.var "declarations")
      [.put (.var "declaration"), .text "\n\n"]) = _ := Template.renderPart_each hdeclarations
  have hparts := Template.renderParts_cons (renderPart_header hcomments hdescription)
    (Template.renderParts_cons (Template.renderPart_put himports)
      (Template.renderParts_cons (Template.renderPart_text s "\n\n")
        (Template.renderParts_cons heach (Template.renderParts_nil s))))
  rw [hbreak] at hparts
  simp only [List.append_assoc, List.append_nil] at hparts ⊢
  exact hparts

end Front

/-- The main module can be written if the name and the description of the workflow can be. -/
theorem exists_mainSource (hname : g.hasLongName = false)
    (hdescription : g.hasLongDescription = false) (c : Context) (a : Assembled) :
    ∃ rest, mainSource g c a = .ok (String.ofList (opening g c a ++ rest)) := by
  obtain ⟨function, hfunction⟩ := exists_mainFunction hname c a
  have habout : (about g "").text = .ok (about g "").display :=
    Value.text_of_not_hasLongInteger ((hasLongInteger_about g "").trans hdescription)
  generalize htext : String.ofList (Naming.commentText (about g "").display.toList) = text
  let s : Scope :=
    { vars := [
        ("description", .str text),
        ("imports", .str (importBlock c a)),
        ("declarations", .strings (a.contents .declaration)),
        ("main_function", .str function),
        ("module_format", .str c.moduleFormat.name),
        ("exports", .strings (a.contents .exports))] ++ [("comments", .bool c.includeComments)]
      quote := c.style.quote }
  have hfront : renderParts s (Template.mainFile.take 4) = .ok (opening g c a) := by
    rw [opening, ← String.toList_ofList (l := Naming.commentText _), htext]
    exact renderParts_front (by simp [s, List.lookup_cons]) (by simp [s]) (by simp [s, List.lookup_cons])
      (by simp [s, List.lookup_cons])
  obtain ⟨rest, hrest⟩ := Template.exists_renderParts s
    ["main_function", "module_format", "comments"] ["exports"]
    ⟨by simp [s, List.lookup_cons], by simp [s, List.lookup_cons, Value.strings]⟩
    (Template.mainFile.drop 4) (by decide)
  have hall := Template.renderParts_append hfront hrest
  rw [List.take_append_drop] at hall
  refine ⟨rest, ?_⟩
  rw [mainSource, hfunction, ok_bind, habout, ok_bind, htext]
  exact Template.render_eq_ok rfl hall

theorem exists_main (hname : g.hasLongName = false) (hdescription : g.hasLongDescription = false)
    (c : Context) (a : Assembled) :
    ∃ f rest, main g c a = .ok f ∧
      f.content.toList = Format.format c.style (opening g c a ++ rest) := by
  obtain ⟨rest, hsource⟩ := exists_mainSource hname hdescription c a
  refine ⟨_, rest, bind_eq_ok_iff.mpr ⟨_, hsource, rfl⟩, ?_⟩
  simp [Format.formatString]

/-- A description that cannot be written leaves out the main module. -/
theorem main_eq_error (hname : g.hasLongName = false) (hdescription : g.hasLongDescription = true)
    (c : Context) (a : Assembled) : main g c a = .error .longInteger := by
  obtain ⟨function, hfunction⟩ := exists_mainFunction hname c a
  have habout : (about g "").text = .error .longInteger :=
    Value.text_of_hasLongInteger ((hasLongInteger_about g "").trans hdescription)
  rw [main, mainSource, hfunction, ok_bind, habout, error_bind, error_bind]

variable {r : Registry} {s : Strategy} {p : Project}

/-- The main module of a program is built from the fragments of its draft, if the description of
the workflow can be written. -/
theorem exists_mainFile (h : r.convert s g c = .ok p) (hdescription : g.hasLongDescription = false) :
    ∃ d f rest, r.draft s g c = .ok d ∧ p.file? "src/index.ts" = some f ∧
      f.content.toList = Format.format c.style (opening g.bound c d.assembled ++ rest) := by
  obtain ⟨d, hd, -, hfile⟩ := exists_builds_of_convert h
  have hname : g.bound.hasLongName = false := (draft_eq_ok_iff.mp hd).named
  obtain ⟨f, rest, hmain, hcontent⟩ := exists_main (g := g.bound) hname hdescription c d.assembled
  refine ⟨d, f, rest, hd, ?_, hcontent⟩
  rw [hfile, Project.builds, hmain]
  rfl

/-- The main module of a program is left out if the description of the workflow cannot be
written. -/
theorem mainFile_eq_none (h : r.convert s g c = .ok p) (hdescription : g.hasLongDescription = true) :
    p.file? "src/index.ts" = none := by
  obtain ⟨d, hd, -, hfile⟩ := exists_builds_of_convert h
  have hname : g.bound.hasLongName = false := (draft_eq_ok_iff.mp hd).named
  rw [hfile, Project.builds, main_eq_error (g := g.bound) hname hdescription]
  rfl

/-- What is said about a main module that is left out. -/
theorem mem_errors_of_hasLongDescription (h : r.convert s g c = .ok p)
    (hdescription : g.hasLongDescription = true) :
    "Failed to generate src/index.ts: " ++ Decimal.tooLong ∈ p.errors := by
  obtain ⟨d, hd, -⟩ := exists_builds_of_convert h
  have hname : g.bound.hasLongName = false := (draft_eq_ok_iff.mp hd).named
  have hmain : main g.bound c d.assembled = .error .longInteger :=
    main_eq_error hname hdescription c d.assembled
  have hbuild : ("src/index.ts", .error .longInteger) ∈ Project.builds g.bound c d.assembled
      (Dependency.all d.assembled c) (d.report.warnings ++ d.outcomes.warnings) := by
    refine List.mem_append_left _ (List.mem_append_left _ ?_)
    rw [hmain]
    exact List.mem_cons_self
  exact mem_errors_of_convert h hd hbuild

theorem isSome_mainFile_iff (h : r.convert s g c = .ok p) :
    (p.file? "src/index.ts").isSome ↔ g.hasLongDescription = false := by
  cases hdescription : g.hasLongDescription with
  | false =>
      obtain ⟨d, f, rest, -, hf, -⟩ := exists_mainFile h hdescription
      simp [hf]
  | true => simp [mainFile_eq_none h hdescription]

/-- Every main module is built from the fragments of the draft. -/
theorem content_of_mainFile {d : Draft} {f : OutputFile} (h : r.convert s g c = .ok p)
    (hd : r.draft s g c = .ok d) (hf : p.file? "src/index.ts" = some f) :
    ∃ rest, f.content.toList = Format.format c.style (opening g.bound c d.assembled ++ rest) := by
  have hdescription : g.hasLongDescription = false :=
    (isSome_mainFile_iff h).mp (Option.isSome_of_eq_some hf)
  obtain ⟨d', f', rest, hd', hf', hcontent⟩ := exists_mainFile h hdescription
  cases hd.symm.trans hd'
  cases hf.symm.trans hf'
  exact ⟨rest, hcontent⟩

/-- The comment at the start is closed, whatever the workflow is about. -/
theorem sealed_header (comments : Bool) (s : List Char) :
    Sealed (header comments (Naming.commentText s)) := by
  unfold header
  split
  · have hopen : "/**\n * ".toList = '/' :: '*' :: ['*', '\n', ' ', '*', ' '] := by decide
    have hclose : "\n * Generated by flowgen\n */\n\n".toList =
        "\n * Generated by flowgen\n ".toList ++ ['*', '/'] ++ ['\n', '\n'] := by decide
    have hend : Format.Without Format.leavesComment ['*', '/']
        "\n * Generated by flowgen\n ".toList :=
      Format.without_of_slash_not_mem (by decide) (by decide)
    have hbody : Format.Without Format.leavesComment ['*', '/'] (['*', '\n', ' ', '*', ' '] ++
        Naming.commentText s ++ "\n * Generated by flowgen\n ".toList) := by
      rw [Format.without_append, Format.without_append]
      have hstart :
          ∀ next, Format.Without Format.leavesComment next ['*', '\n', ' ', '*', ' '] := by
        simp [Format.leavesComment]
      exact ⟨⟨hstart _, Naming.without_commentText (by decide) s⟩, hend⟩
    have hreturn : '\r' ∉ ['*', '\n', ' ', '*', ' '] ++ Naming.commentText s ++
        "\n * Generated by flowgen\n ".toList := by
      have htext : '\r' ∉ Naming.commentText s :=
        Naming.not_mem_commentText (by decide) (by decide) s
      have hlast : '\r' ∉ "\n * Generated by flowgen\n ".toList := by decide
      simp only [List.mem_append, not_or]
      exact ⟨⟨by decide, htext⟩, hlast⟩
    have hcomment := (Sealed.blockComment hbody hreturn).append
      (.of_all (s := ['\n', '\n']) (by decide))
    rw [hopen, hclose]
    simpa using hcomment
  · exact .nil

end ProjectFile

end Flowscript

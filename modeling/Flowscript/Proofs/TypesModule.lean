/-
  Flowscript.Proofs.TypesModule

  The text of the module of interfaces.

  The module is rendered whatever the workflow: a comment that names the project, if
  comments are written, and the declarations of the interfaces one after another, each
  under its name in the case of types (`ProjectFile.render_types`).
-/
import Flowscript.Proofs.MainModule

namespace Flowscript

open Template (Scope renderPart renderParts)

-- ============================================================================
-- Declarations
-- ============================================================================

/-- The line of a field. -/
def InterfaceField.text (f : InterfaceField) : List Char :=
  "  ".toList ++ f.name.toList ++ (if f.optional then ['?'] else []) ++ ": ".toList ++
    f.type.toList ++ ";\n".toList

/-- The declaration of an interface, with an empty line after it. -/
def Interface.text (i : Interface) : List Char :=
  "export interface ".toList ++ Naming.pascalCase i.name.toList ++ " \x7b\n".toList ++
    i.fields.flatMap InterfaceField.text ++ "\x7d\n\n".toList

namespace Template

variable {s : Scope} {e : Expr} {v x : Value} {name : String} {i : Interface}
  {f : InterfaceField}

theorem eval_var (h : s.vars.lookup name = some v) : (Expr.var name).eval s = .ok (.ok v) := by
  rw [Expr.eval, h]

theorem eval_field (h : e.eval s = .ok (.ok v)) (hx : fieldOf v name = .ok x) :
    (Expr.field e name).eval s = .ok (.ok x) := by
  rw [← hx, Expr.eval, h]
  rfl

theorem eval_choose (h : e.eval s = .ok (.ok v)) (yes no : String) :
    (Expr.choose e yes no).eval s = .ok (.ok (.str (if v.isTruthy then yes else no))) := by
  rw [Expr.eval, h]
  rfl

theorem eval_filter {filter : Filter} (h : e.eval s = .ok (.ok v))
    (hx : filter.apply s.quote (.ok v) = .ok x) : (Expr.filter e filter).eval s = .ok (.ok x) := by
  rw [Expr.eval, h]
  show (filter.apply s.quote (.ok v) >>= _) = _
  rw [hx]
  rfl

theorem renderPart_of_eval {t : String} (h : e.eval s = .ok (.ok (.str t))) :
    renderPart s (.put e) = .ok t.toList := by
  rw [renderPart, Expr.value, h]
  rfl

/-- A walk through a list whose items have known texts. -/
theorem renderPart_walk {α : Type} {items : Expr} {body : List Part} {value : α → Value}
    {text : α → List Char} {xs : List α} (h : items.eval s = .ok (.ok (.list (xs.map value))))
    (hbody : ∀ last x, renderParts { s.bind name (value x) with last } body = .ok (text x)) :
    renderPart s (.each name items body) = .ok (xs.flatMap text) := by
  rw [renderPart, Expr.value, h]
  exact concatEach_map fun last x _ => hbody last x

-- ============================================================================
-- The parts of the module
-- ============================================================================

/-- The value of a field of an interface. -/
def fieldValue (f : InterfaceField) : Value :=
  .record [("name", .str f.name), ("optional", .bool f.optional), ("type", .str f.type)]

/-- The parts of the line of a field. -/
def fieldLine : List Part := [
  .text "  ",
  .put (.field (.var "field") "name"),
  .put (.choose (.field (.var "field") "optional") "?" ""),
  .text ": ",
  .put (.field (.var "field") "type"),
  .text ";\n"]

theorem renderParts_fieldLine (h : s.vars.lookup "field" = some (fieldValue f)) :
    renderParts s fieldLine = .ok f.text := by
  have hname : (Expr.field (.var "field") "name").eval s = .ok (.ok (.str f.name)) :=
    eval_field (eval_var h) rfl
  have hoptional : (Expr.field (.var "field") "optional").eval s = .ok (.ok (.bool f.optional)) :=
    eval_field (eval_var h) rfl
  have htype : (Expr.field (.var "field") "type").eval s = .ok (.ok (.str f.type)) :=
    eval_field (eval_var h) rfl
  have hmark : (if (Value.bool f.optional).isTruthy then "?" else "").toList =
      if f.optional then ['?'] else [] := by
    cases f.optional <;> decide
  have hparts := renderParts_cons (renderPart_text s "  ") <|
    renderParts_cons (renderPart_of_eval hname) <|
    renderParts_cons (renderPart_of_eval (eval_choose hoptional "?" "")) <|
    renderParts_cons (renderPart_text s ": ") <| renderParts_cons (renderPart_of_eval htype) <|
    renderParts_cons (renderPart_text s ";\n") (renderParts_nil s)
  rw [hmark] at hparts
  unfold InterfaceField.text fieldLine
  simpa only [List.append_assoc, List.append_nil] using hparts

/-- The parts of the declaration of an interface. -/
def interfaceParts : List Part := [
  .text "export interface ",
  .put (.filter (.field (.var "interface") "name") .pascalCase),
  .text " \x7b\n",
  .each "field" (.field (.var "interface") "fields") fieldLine,
  .text "\x7d\n\n"]

theorem renderParts_interface
    (h : s.vars.lookup "interface" = some (ProjectFile.interfaceValue i)) :
    renderParts s interfaceParts = .ok i.text := by
  have hname : (Expr.field (.var "interface") "name").eval s = .ok (.ok (.str i.name)) :=
    eval_field (eval_var h) rfl
  have hcase : renderPart s (.put (.filter (.field (.var "interface") "name") .pascalCase)) =
      .ok (Naming.pascalCase i.name.toList) := by
    rw [renderPart_of_eval (eval_filter hname rfl), String.toList_ofList]
  have hlist : (Expr.field (.var "interface") "fields").eval s =
      .ok (.ok (.list (i.fields.map fieldValue))) := eval_field (eval_var h) rfl
  have hfields : renderPart s (.each "field" (.field (.var "interface") "fields") fieldLine) =
      .ok (i.fields.flatMap InterfaceField.text) :=
    renderPart_walk hlist fun last f => renderParts_fieldLine List.lookup_cons_self
  have hparts := renderParts_cons (renderPart_text s "export interface ") <|
    renderParts_cons hcase <| renderParts_cons (renderPart_text s " \x7b\n") <|
    renderParts_cons hfields <| renderParts_cons (renderPart_text s "\x7d\n\n") (renderParts_nil s)
  unfold Interface.text interfaceParts
  simpa only [List.append_assoc, List.append_nil] using hparts

/-- All declarations, one after another. -/
theorem renderParts_interfaces {is : List Interface}
    (h : s.vars.lookup "interfaces" = some (.list (is.map ProjectFile.interfaceValue))) :
    renderParts s (typesFile.drop 1) = .ok (is.flatMap Interface.text) := by
  have heach : renderPart s (.each "interface" (.var "interfaces") interfaceParts) =
      .ok (is.flatMap Interface.text) :=
    renderPart_walk (eval_var h) fun last i => renderParts_interface List.lookup_cons_self
  have hparts := renderParts_cons heach (renderParts_nil s)
  rwa [List.append_nil] at hparts

end Template

-- ============================================================================
-- The module
-- ============================================================================

namespace ProjectFile

/-- The comment at the start of the module of interfaces. -/
def typesHeader (c : Context) : List Char :=
  if c.includeComments then
    "/**\n * Type definitions for ".toList ++ c.projectName.toList ++
      "\n * Generated by flowgen\n */\n\n".toList
  else []

/-- The module of interfaces can be written, whatever they are. -/
theorem render_types (c : Context) (is : List Interface) :
    render c "types_file" [
      ("project_name", .str c.projectName), ("interfaces", .list (is.map interfaceValue))] =
        .ok (String.ofList (typesHeader c ++ is.flatMap Interface.text)) := by
  let s : Scope :=
    { vars := [
        ("project_name", .str c.projectName), ("interfaces", .list (is.map interfaceValue))] ++
          [("comments", .bool c.includeComments)]
      quote := c.style.quote }
  have hheader : renderPart s (.when (.holds (.var "comments")) [
      .text "/**\n * Type definitions for ", .put (.var "project_name"),
      .text "\n * Generated by flowgen\n */\n\n"] []) = .ok (typesHeader c) :=
    Template.renderPart_comment (by simp [s, List.lookup_cons]) (by simp [s]) _ _
  have hlist : s.vars.lookup "interfaces" = some (.list (is.map interfaceValue)) := by
    simp [s, List.lookup_cons]
  have hparts := Template.renderParts_cons hheader (Template.renderParts_interfaces hlist)
  exact Template.render_eq_ok rfl hparts

/-- What the module of interfaces is formatted from. -/
def typesText (g : Graph) (c : Context) : List Char :=
  typesHeader c ++ g.interfaces.flatMap Interface.text

theorem typesSource_eq_ok {g : Graph} (h : g.untyped? = none) (c : Context) :
    typesSource g c = .ok (String.ofList (typesText g c)) := by
  rw [typesSource, h]
  exact render_types c g.interfaces

/-- The module of interfaces is there if nothing keeps them from being written. -/
theorem types_eq_ok {g : Graph} (h : g.untyped? = none) (c : Context) :
    types g c = .ok
      { path := "src/types.ts"
        kind := .types
        content := Format.formatString c.style (String.ofList (typesText g c))
        exports := g.interfaces.map (·.name) } := by
  rw [types, typesSource_eq_ok h]
  rfl

theorem typesSource_eq_error {g : Graph} {obstacle : Script.Obstacle}
    (h : g.untyped? = some obstacle) (c : Context) :
    typesSource g c = .error obstacle.fault := by
  rw [typesSource, h]

end ProjectFile

end Flowscript

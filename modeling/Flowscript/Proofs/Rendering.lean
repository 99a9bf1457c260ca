/-
  Flowscript.Proofs.Rendering

  The errors with which templates can end.

  A template fails beyond its own file only where it indents what is no text or walks
  through the entries of what is no table.  `Part.plain` rules both out by the look of a
  template, for names that are bound to tables, and all templates of the library are plain.
-/
import Flowscript.Proofs.Failure
import Flowscript.Template.Library

namespace Flowscript.Template

variable {tables : List String} {s : Scope} {name : String}

/-- An error that keeps no other file from being built. -/
def Mild : RenderFault → Prop
  | .missing _ => True
  | .unfit f => f.isFatal = false

-- ============================================================================
-- Plain templates
-- ============================================================================

/-- The expression indents nothing. -/
def Expr.plain : Expr → Bool
  | .var _ => true
  | .field e _ => e.plain
  | .filter e f => f ≠ .indent && e.plain
  | .orElse e _ => e.plain
  | .choose e _ _ => e.plain

def Test.plain : Test → Bool
  | .holds e => e.plain
  | .equals e _ => e.plain
  | .notLast => true

/-- The expression is one of the names of tables. -/
def Expr.isTable (tables : List String) : Expr → Bool
  | .var name => name ∈ tables
  | _ => false

mutual

/-- The part indents nothing, walks through the entries of tables only, and binds none of their
names. -/
def Part.plain (tables : List String) : Part → Bool
  | .text _ => true
  | .put e => e.plain
  | .when test yes no => test.plain && plainParts tables yes && plainParts tables no
  | .each name items body => name ∉ tables && items.plain && plainParts tables body
  | .eachEntry key value table body =>
    key ∉ tables && value ∉ tables && table.isTable tables && plainParts tables body

def plainParts (tables : List String) : List Part → Bool
  | [] => true
  | p :: ps => p.plain tables && plainParts tables ps

end

/-- The names of tables are bound to tables, if they are bound. -/
def Scope.Tabled (tables : List String) (s : Scope) : Prop :=
  ∀ name ∈ tables, ∀ v, s.vars.lookup name = some v → ∃ es, v.opened = .map es

theorem Scope.Tabled.bind {v : Value} (h : s.Tabled tables) (hname : name ∉ tables) :
    (s.bind name v).Tabled tables := by
  intro t ht w hw
  have hne : (t == name) = false := beq_false_of_ne fun e => hname (e ▸ ht)
  rw [Scope.bind, List.lookup_cons, hne] at hw
  exact h t ht w hw

-- ============================================================================
-- Expressions
-- ============================================================================

theorem failsOnly_need (v : Except Missing Value) : FailsOnly Mild (need v) := by
  cases v with
  | ok v => exact .ok v
  | error m => exact .error trivial

theorem failsOnly_onText (f : List Char → List Char) (v : Except Missing Value) :
    FailsOnly Mild (onText f v) := by
  unfold onText
  split
  · exact .ok _
  · exact .error rfl
  · exact .error rfl

theorem failsOnly_lengthOf (v : Value) : FailsOnly Mild (lengthOf v) := by
  unfold lengthOf
  split
  case h_7 => exact .error rfl
  all_goals exact .ok _

theorem failsOnly_itemsOf (v : Value) : FailsOnly Mild (itemsOf v) := by
  unfold itemsOf
  split
  case h_7 => exact .error rfl
  all_goals exact .ok _

theorem failsOnly_textOf (v : Value) : FailsOnly Mild (textOf v) := by
  unfold textOf Value.text
  split
  · exact .error rfl
  · exact .ok _

theorem failsOnly_literal (text : Option (List Char)) : FailsOnly Mild (literal text) := by
  cases text with
  | none => exact .error rfl
  | some text => exact .ok _

theorem failsOnly_apply {f : Filter} (hf : f ≠ .indent) (q : Char) (v : Except Missing Value) :
    FailsOnly Mild (f.apply q v) := by
  cases f with
  | indent => exact absurd rfl hf
  | snakeCase => exact failsOnly_onText _ v
  | camelCase => exact failsOnly_onText _ v
  | pascalCase => exact failsOnly_onText _ v
  | kebabCase => exact failsOnly_onText _ v
  | envName => exact failsOnly_onText _ v
  | quote => exact (failsOnly_need v).bind fun v _ => (failsOnly_textOf v).bind fun _ _ => .ok _
  | value => exact (failsOnly_need v).bind fun _ _ => failsOnly_literal _
  | object => exact (failsOnly_need v).bind fun _ _ => failsOnly_literal _
  | length => exact (failsOnly_need v).bind fun v _ => failsOnly_lengthOf v

theorem failsOnly_eval (s : Scope) {e : Expr} (he : e.plain = true) :
    FailsOnly Mild (e.eval s) := by
  induction e with
  | var name =>
      rw [Expr.eval]
      split
      · exact .ok _
      · exact .ok _
  | field e name ih =>
      refine (ih he).bind fun v _ => ?_
      cases v with
      | ok v => exact .ok _
      | error m => exact .error trivial
  | filter e f ih =>
      simp only [Expr.plain, Bool.and_eq_true, decide_eq_true_eq] at he
      refine (ih he.2).bind fun v _ => ?_
      exact (failsOnly_apply he.1 s.quote v).bind fun _ _ => .ok _
  | orElse e default ih =>
      exact (ih he).bind fun v _ => (failsOnly_need v).bind fun _ _ => .ok _
  | choose test yes no ih =>
      exact (ih he).bind fun v _ => (failsOnly_need v).bind fun _ _ => .ok _

theorem failsOnly_value (s : Scope) {e : Expr} (he : e.plain = true) :
    FailsOnly Mild (e.value s) :=
  (failsOnly_eval s he).bind fun v _ => failsOnly_need v

theorem failsOnly_test (s : Scope) {test : Test} (ht : test.plain = true) :
    FailsOnly Mild (test.eval s) := by
  cases test with
  | holds e => exact (failsOnly_value s ht).bind fun _ _ => .ok _
  | equals e text =>
      refine (failsOnly_value s ht).bind fun v _ => ?_
      split
      · exact .ok _
      · exact .ok _
  | notLast => exact .ok _

/-- The entries of a table can be walked through. -/
theorem failsOnly_entries {table : Expr} (hs : s.Tabled tables) (ht : table.isTable tables = true) :
    FailsOnly Mild (table.value s >>= sortedEntries) := by
  cases table with
  | var name =>
      simp only [Expr.isTable, decide_eq_true_eq] at ht
      simp only [Expr.value, Expr.eval]
      cases hv : s.vars.lookup name with
      | none => exact .error trivial
      | some v =>
          obtain ⟨es, hes⟩ := hs name ht v hv
          refine FailsOnly.bind (failsOnly_need (.ok v)) fun w hw => ?_
          cases hw
          rw [sortedEntries, hes]
          exact .ok _
  | field e name => cases ht
  | filter e f => cases ht
  | orElse e default => cases ht
  | choose test yes no => cases ht

-- ============================================================================
-- Parts
-- ============================================================================

theorem failsOnly_concatEach {α : Type} {f : Bool → α → Except RenderFault (List Char)}
    (hf : ∀ last x, FailsOnly Mild (f last x)) (xs : List α) :
    FailsOnly Mild (concatEach f xs) := by
  induction xs with
  | nil => exact .ok []
  | cons x xs ih => exact (hf xs.isEmpty x).bind fun _ _ => ih.bind fun _ _ => .ok _

mutual

theorem failsOnly_renderPart (s : Scope) (hs : s.Tabled tables) (p : Part)
    (hp : p.plain tables = true) : FailsOnly Mild (renderPart s p) := by
  match p with
  | .text t =>
      rw [renderPart]
      exact .ok _
  | .put e =>
      rw [renderPart]
      exact (failsOnly_value s hp).bind fun v _ => (failsOnly_textOf v).bind fun _ _ => .ok _
  | .when test yes no =>
      simp only [Part.plain, Bool.and_eq_true] at hp
      rw [renderPart]
      refine (failsOnly_test s hp.1.1).bind fun b _ => ?_
      cases b with
      | true => exact failsOnly_renderParts s hs yes hp.1.2
      | false => exact failsOnly_renderParts s hs no hp.2
  | .each name items body =>
      simp only [Part.plain, Bool.and_eq_true, decide_eq_true_eq] at hp
      rw [renderPart]
      refine (failsOnly_value s hp.1.2).bind fun v _ => ?_
      refine (failsOnly_itemsOf v).bind fun xs _ => ?_
      refine failsOnly_concatEach (fun last x => ?_) xs
      refine failsOnly_renderParts _ ?_ body hp.2
      exact hs.bind (v := x) hp.1.1
  | .eachEntry key value table body =>
      simp only [Part.plain, Bool.and_eq_true, decide_eq_true_eq] at hp
      rw [renderPart, ← bind_assoc]
      refine (failsOnly_entries hs hp.1.2).bind fun es _ => ?_
      refine failsOnly_concatEach (fun last e => ?_) es
      refine failsOnly_renderParts _ ?_ body hp.2
      exact (hs.bind (v := .scalar e.1) hp.1.1.1).bind (v := e.2) hp.1.1.2

theorem failsOnly_renderParts (s : Scope) (hs : s.Tabled tables) (ps : List Part)
    (hps : plainParts tables ps = true) : FailsOnly Mild (renderParts s ps) := by
  match ps with
  | [] =>
      rw [renderParts]
      exact .ok []
  | p :: ps =>
      simp only [plainParts, Bool.and_eq_true] at hps
      rw [renderParts]
      refine (failsOnly_renderPart s hs p hps.1).bind fun _ _ => ?_
      exact (failsOnly_renderParts s hs ps hps.2).bind fun _ _ => .ok _

end

-- ============================================================================
-- The library
-- ============================================================================

/-- All templates are plain, with the environment as their only table. -/
theorem plain_of_mem_library :
    ∀ t ∈ library, plainParts ["environment"] t.2 = true := by
  decide

/-- No template of the library keeps other files from being built, whatever the values of its
names, as long as the environment is a table. -/
theorem failsOnly_render (r : Renderer) (name : String) {values : List (String × Value)}
    (henv : ∀ v, values.lookup "environment" = some v → ∃ es, v.opened = .map es) :
    FailsOnly (fun e : Fault => e.isFatal = false) (r.render name values) := by
  unfold Renderer.render
  split
  · exact .error rfl
  · next parts hparts =>
    obtain ⟨l, l', hlibrary, -⟩ := List.lookup_eq_some_iff.mp hparts
    have hplain := plain_of_mem_library (name, parts) (by simp [hlibrary])
    have hscope : Scope.Tabled ["environment"]
        { vars := values ++ [("comments", .bool r.comments)], quote := r.quote } := by
      intro t ht v hv
      rw [List.mem_singleton] at ht
      subst ht
      rw [List.lookup_append] at hv
      exact henv v (by simpa [List.lookup_cons] using hv)
    have hmild := failsOnly_renderParts _ hscope parts hplain
    simp only
    split
    · exact .ok _
    · exact .error rfl
    · next f hf => exact .error (hmild _ hf)

end Flowscript.Template

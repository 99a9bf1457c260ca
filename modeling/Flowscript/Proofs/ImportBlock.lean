/-
  Flowscript.Proofs.ImportBlock

  A block of imports is read back as what it was made from.

  Statements with white space between them are read one by one (`Spelled`).  What is
  rendered for a source are statements of known forms (`Renders`), so the statements of a
  block are those of its sources, and gathering them gives back the spec of each source
  (`ReadsBack`).  A block of the specs read back is the same block again.
-/
import Flowscript.Proofs.ImportOrder
import Flowscript.Proofs.ImportStatements
import Mathlib.Tactic.IntervalCases
import Mathlib.Tactic.Choose

namespace Flowscript.Import

open Naming (isIdentifier)
open Text (isBlank isBlankText)

variable {format : ModuleFormat} {q : Char} {s t b acc source : List Char}
  {texts : List (List Char)} {st : Statement} {sts sts' : List Statement} {spec : Spec}
  {k : List Char × Bool}

-- ============================================================================
-- Statements one after another
-- ============================================================================

theorem leftOverLines_of_isBlankText (hb : isBlankText b = true) : leftOverLines b = [] := by
  rw [leftOverLines, Text.trim_eq_nil_iff.mpr hb]
  rfl

/-- White space starts no statement. -/
theorem statement?_of_isBlank {c : Char} (hc : isBlank c = true) (s : List Char) :
    statement? (c :: s) = none := by
  unfold statement?
  -- none of the five letters is white space
  split <;> first | rfl | (next heq => cases heq; cases hc)

theorem piecesFrom_blank (hb : isBlankText b = true) (acc s : List Char) :
    piecesFrom 0 acc (b ++ s) = piecesFrom 0 (b.reverse ++ acc) s := by
  induction b generalizing acc with
  | nil => rfl
  | cons c b ih =>
      rw [Text.isBlankText_cons, Bool.and_eq_true] at hb
      rw [List.cons_append, piecesFrom, statement?_of_isBlank hb.1, ih hb.2]
      simp

theorem piecesFrom_skip (acc t s : List Char) :
    piecesFrom t.length acc (t ++ s) = piecesFrom 0 acc s := by
  induction t with
  | nil => rfl
  | cons c t ih => exact ih

theorem piecesFrom_statement (ht : t ≠ []) (h : statement? (t ++ s) = some (st, s)) :
    piecesFrom 0 acc (t ++ s) = .leftOver acc.reverse :: .statement st :: piecesFrom 0 [] s := by
  cases t with
  | nil => exact absurd rfl ht
  | cons c t =>
      rw [List.cons_append] at h ⊢
      have hlen : (t ++ s).length - s.length = t.length := by simp
      rw [piecesFrom, h]
      simp only [hlen, piecesFrom_skip]

/-- Statements with white space around them.  The last one may end with the text. -/
inductive Spelled : List Char → List Statement → Prop where
  | blank {b : List Char} (hb : isBlankText b = true) : Spelled b []
  | last {b t : List Char} {st : Statement} (hb : isBlankText b = true) (ht : t ≠ [])
      (hread : statement? t = some (st, [])) : Spelled (b ++ t) [st]
  | cons {b t s : List Char} {st : Statement} {sts : List Statement} (hb : isBlankText b = true)
      (ht : t ≠ []) (hread : ∀ r, statement? (t ++ r) = some (st, r)) (hs : Spelled s sts) :
      Spelled (b ++ (t ++ s)) (st :: sts)

namespace Spelled

/-- The pieces are the statements and white space. -/
theorem piecesFrom (h : Spelled s sts) (hacc : isBlankText acc = true) :
    (piecesFrom 0 acc s).filterMap Piece.statement? = sts ∧
      (piecesFrom 0 acc s).flatMap Piece.leftOverLines = [] := by
  have hblank : ∀ {a b : List Char}, isBlankText a = true → isBlankText b = true →
      leftOverLines (a.reverse ++ b) = [] := by
    intro a b ha hb
    refine leftOverLines_of_isBlankText (Text.isBlankText_iff.mpr fun c hc => ?_)
    rcases List.mem_append.mp hc with hc | hc
    · exact Text.isBlankText_iff.mp ha c (List.mem_reverse.mp hc)
    · exact Text.isBlankText_iff.mp hb c hc
  induction h generalizing acc with
  | @blank b hb =>
      have hpieces := piecesFrom_blank hb acc []
      rw [List.append_nil] at hpieces
      rw [hpieces]
      simp [Import.piecesFrom, Piece.statement?, Piece.leftOverLines, hblank hacc hb]
  | @last b t st hb ht hread =>
      have hpieces : Import.piecesFrom 0 (b.reverse ++ acc) (t ++ []) = _ :=
        piecesFrom_statement ht (by simpa using hread)
      have hnil : leftOverLines [] = [] := rfl
      rw [List.append_nil] at hpieces
      rw [piecesFrom_blank hb, hpieces]
      simp [Import.piecesFrom, Piece.statement?, Piece.leftOverLines, hblank hacc hb,
        List.filterMap_cons, hnil]
  | @cons b t s st sts hb ht hread hs ih =>
      obtain ⟨hstatements, hlines⟩ := ih Text.isBlankText_nil
      rw [piecesFrom_blank hb, piecesFrom_statement ht (hread s)]
      constructor
      · simp [List.filterMap_cons, Piece.statement?, hstatements]
      · simp [Piece.leftOverLines, hblank hacc hb, hlines]

/-- White space in front changes nothing. -/
theorem blank_append (hb : isBlankText b = true) (h : Spelled s sts) : Spelled (b ++ s) sts := by
  cases h with
  | blank hb' => exact .blank (by simp [hb, hb'])
  | last hb' ht hread =>
      rw [← List.append_assoc]
      exact .last (by simp [hb, hb']) ht hread
  | cons hb' ht hread hs =>
      rw [← List.append_assoc]
      exact .cons (by simp [hb, hb']) ht hread hs

/-- A single statement that does not depend on what follows. -/
theorem single (ht : t ≠ []) (hread : ∀ r, statement? (t ++ r) = some (st, r)) :
    Spelled t [st] := by
  have h := Spelled.cons (b := []) rfl ht hread (.blank (b := []) rfl)
  rwa [List.nil_append, List.append_nil] at h

/-- Texts whose statements do not depend on what follows, with white space between them. -/
theorem joinWith {α : Type} {xs : List α} {f : α → List Char} {g : α → Statement} {sep : List Char}
    (hsep : isBlankText sep = true)
    (h : ∀ x ∈ xs, f x ≠ [] ∧ ∀ r, statement? (f x ++ r) = some (g x, r)) (hs : Spelled s sts) :
    Spelled (Text.joinWith sep (xs.map f) ++ s) (xs.map g ++ sts) := by
  induction xs with
  | nil => exact hs
  | cons x xs ih =>
      obtain ⟨hne, hread⟩ := h x List.mem_cons_self
      have hrest := ih fun x' hx' => h x' (List.mem_cons_of_mem x hx')
      cases xs with
      | nil => exact .cons (b := []) rfl hne hread hs
      | cons x' xs =>
          have htail := hrest.blank_append hsep
          have hall := Spelled.cons (b := []) rfl hne hread htail
          simpa [List.append_assoc] using hall

end Spelled

-- ============================================================================
-- What is rendered for a source
-- ============================================================================

/-- A spec as well-formed statements give it. -/
structure Spec.IsWellFormed (s : Spec) : Prop where
  source : IsPlainSource s.source
  defaults : ∀ n ∈ s.defaults, isIdentifier n = true
  namespaces : ∀ n ∈ s.namespaces, isIdentifier n = true
  named : ∀ n ∈ s.named, ∃ i : Item, i.IsValid ∧ i.inClause = n
  sideEffect : s.bindsNames = false → s.sideEffect = true
  types : s.isType = true → s.bindsNames = true

/-- Types, and everything where modules are declared, are imported by declarations. -/
def Spec.declares (format : ModuleFormat) (s : Spec) : Bool := s.isType || format = .esm

/-- The statements of these forms are what is rendered for a source, and bind what is bound there.
Calls do not tell defaults and namespaces apart. -/
structure Renders (format : ModuleFormat) (q : Char) (s : Spec) (forms : List Form) : Prop where
  valid : ∀ f ∈ forms, f.IsValid ∧ f.isType = s.isType
  text : render format q s = forms.map fun f => f.text (quotedText q s.source) ++ [';']
  defaults : forms.flatMap (·.bound.defaults) =
    if s.declares format then s.defaults else s.defaults ++ s.namespaces
  namespaces : forms.flatMap (·.bound.namespaces) =
    if s.declares format then s.namespaces else []
  named : forms.flatMap (·.bound.named) = s.named.mergeSort nameLe
  sideEffect : forms.any (·.bound.sideEffect) = !s.bindsNames

/-- A list is written on one line or with one name on each. -/
theorem exists_layout (hne : texts ≠ []) :
    ∃ l : Layout, l.IsBlank ∧ braces texts = inBraces l texts := by
  have hwrapped : ∀ {texts : List (List Char)}, texts ≠ [] →
      Text.joinWith [',', '\n'] (texts.map fun i => ' ' :: ' ' :: i) =
        ' ' :: ' ' :: Text.joinWith [',', '\n', ' ', ' '] texts := by
    intro texts hne
    induction texts with
    | nil => exact absurd rfl hne
    | cons t texts ih =>
        cases texts with
        | nil => rfl
        | cons t' texts => simpa using ih (by simp)
  by_cases hlong : maxInlineWidth < (Text.joinWith [',', ' '] texts).length
  · refine ⟨⟨['\n', ' ', ' '], ['\n', ' ', ' '], ['\n']⟩, ⟨by decide, by decide, by decide⟩, ?_⟩
    rw [braces, if_pos hlong, hwrapped hne]
    simp [inBraces, Layout.body]
  · refine ⟨⟨[' '], [' '], [' ']⟩, ⟨by decide, by decide, by decide⟩, ?_⟩
    rw [braces, if_neg hlong]
    simp [inBraces, Layout.body]

/-- The names of a list are items. -/
theorem exists_items {names : List (List Char)}
    (h : ∀ n ∈ names, ∃ i : Item, i.IsValid ∧ i.inClause = n) :
    ∃ items : List Item, (∀ i ∈ items, i.IsValid) ∧ items.map Item.inClause = names := by
  induction names with
  | nil => exact ⟨[], by simp, rfl⟩
  | cons n names ih =>
      obtain ⟨i, hi, rfl⟩ := h n List.mem_cons_self
      obtain ⟨items, hitems, rfl⟩ := ih fun m hm => h m (List.mem_cons_of_mem _ hm)
      exact ⟨i :: items, by simpa [hi] using hitems, rfl⟩

/-- A list between braces, if there are names. -/
structure BraceList where
  layout : Layout
  items : List Item

/-- The clauses with defaults and names: the list goes with the first default. -/
def firstClauses : List (List Char) → Option BraceList → List Clause
  | ds, none => ds.map .default
  | [], some list => [.names list.layout list.items]
  | d :: ds, some list => .both d list.layout list.items :: ds.map .default

/-- The clauses of a source. -/
def clausesOf (s : Spec) (list : Option BraceList) : List Clause :=
  firstClauses s.defaults list ++ s.namespaces.map .star

/-- The forms of the declarations of a source. -/
def declaredForms (s : Spec) (list : Option BraceList) : List Form :=
  (clausesOf s list).map (.declared s.isType) ++ if s.bindsNames then [] else [.effect]

/-- The forms of the calls of a source. -/
def calledForms (s : Spec) (list : Option BraceList) : List Form :=
  (s.defaults ++ s.namespaces).map .constant ++
    (list.toList.map fun list => .pattern list.layout list.items) ++
    if s.bindsNames then [] else [.call]

/-- A list is written between braces as `spell` writes its names, which are those given. -/
inductive Lists (spell : Item → List Char) : Option BraceList → List (List Char) → Prop where
  | none : Lists spell none []
  | some {l : Layout} {items : List Item} (hl : l.IsBlank) (hne : items ≠ [])
      (hitems : ∀ i ∈ items, i.IsValid)
      (hbraces : braces (items.map spell) = inBraces l (items.map spell)) :
      Lists spell (some ⟨l, items⟩) (items.map Item.inClause)

theorem Lists.names_eq {spell : Item → List Char} {list : Option BraceList}
    {names : List (List Char)} (h : Lists spell list names) :
    (list.toList.flatMap fun list => list.items.map Item.inClause) = names := by
  cases h <;> simp

theorem exists_lists (spell : Item → List Char) {names : List (List Char)}
    (h : ∀ n ∈ names, ∃ i : Item, i.IsValid ∧ i.inClause = n) : ∃ list, Lists spell list names := by
  obtain ⟨items, hitems, rfl⟩ := exists_items h
  by_cases hne : items = []
  · rw [hne]
    exact ⟨none, .none⟩
  · have hmapped : items.map spell ≠ [] := by simpa using hne
    obtain ⟨l, hl, hbraces⟩ := exists_layout hmapped
    exact ⟨_, .some hl hne hitems hbraces⟩

theorem declared_text (isType : Bool) (cl : Clause) (quoted : List Char) :
    (if isType then "import type ".toList else "import ".toList) ++ cl.text ++ " from ".toList ++
      quoted ++ [';'] = (Form.declared isType cl).text quoted ++ [';'] := by
  have himport : "import ".toList = importWord ++ [' '] := by decide
  have htype : "import type ".toList = importWord ++ ' ' :: (typeWord ++ [' ']) := by decide
  have hfrom : " from ".toList = ' ' :: (fromWord ++ [' ']) := by decide
  rw [himport, htype, hfrom]
  cases isType <;> simp [Form.text, regionText]

theorem constant_text (bound quoted : List Char) :
    "const ".toList ++ bound ++ " = ".toList ++ ("require(".toList ++ quoted ++ [')', ';']) =
      constWord ++ ' ' :: (bound ++ ' ' :: '=' :: ' ' :: callText quoted) ++ [';'] := by
  have hconst : "const ".toList = constWord ++ [' '] := by decide
  have hequals : " = ".toList = [' ', '=', ' '] := by decide
  have hrequire : "require(".toList = requireWord := by decide
  rw [hconst, hequals, hrequire]
  simp [callText]

theorem call_text (quoted : List Char) :
    "require(".toList ++ quoted ++ [')', ';'] = Form.call.text quoted ++ [';'] := by
  have hrequire : "require(".toList = requireWord := by decide
  rw [hrequire]
  simp [Form.text, callText]

theorem effect_text (quoted : List Char) :
    "import ".toList ++ quoted ++ [';'] = Form.effect.text quoted ++ [';'] := by
  have himport : "import ".toList = importWord ++ [' '] := by decide
  rw [himport]
  simp [Form.text]

/-- The declarations of a source, clause by clause. -/
theorem declarations_eq (h : spec.IsWellFormed) {list : Option BraceList} {names : List (List Char)}
    (hlist : Lists Item.inClause list names) (quoted : List Char) :
    declarations spec quoted names =
      (declaredForms spec list).map fun f => f.text quoted ++ [';'] := by
  have heffect : (spec.sideEffect && !spec.bindsNames) = !spec.bindsNames := by
    cases hbinds : spec.bindsNames with
    | true => simp
    | false => simp [h.sideEffect hbinds]
  have hstatement := fun cl => declared_text spec.isType cl quoted
  have hside : (if spec.sideEffect && !spec.bindsNames then
        ["import ".toList ++ quoted ++ [';']] else []) =
      (if spec.bindsNames then [] else [Form.effect]).map fun f => f.text quoted ++ [';'] := by
    rw [heffect, effect_text]
    cases spec.bindsNames <;> rfl
  unfold declarations declaredForms clausesOf
  rw [hside, List.map_append, List.map_map]
  -- from here on, what a keyword is made of does not matter
  generalize (if spec.isType then "import type ".toList else "import ".toList) = keyword
    at hstatement ⊢
  generalize " from ".toList = fromText at hstatement ⊢
  have hdefault : ∀ d : List Char, (Form.declared spec.isType (.default d)).text quoted ++ [';'] =
      keyword ++ d ++ fromText ++ quoted ++ [';'] := fun d => (hstatement (.default d)).symm
  have hstar : ∀ n : List Char, (Form.declared spec.isType (.star n)).text quoted ++ [';'] =
      keyword ++ ("* as ".toList ++ n) ++ fromText ++ quoted ++ [';'] := fun n =>
    (hstatement (.star n)).symm
  rw [List.map_append]
  simp only [Function.comp_def, List.map_map, hstar]
  congr 1
  cases hlist with
  | none => cases spec.defaults <;> simp [firstClauses, hdefault]
  | @some l items hl hne hitems hbraces =>
      have hsome : (items.map Item.inClause).isEmpty = false := by simpa using hne
      have hnames := hstatement (.names l items)
      have hboth := fun d => hstatement (.both d l items)
      rw [Clause.text, ← hbraces] at hnames
      simp only [Clause.text, ← hbraces] at hboth
      simp only [hsome, Bool.false_eq_true, if_false]
      cases spec.defaults <;> simp [firstClauses, hdefault, ← hnames, ← hboth]

/-- The calls of a source, one for each binding. -/
theorem calls_eq (h : spec.IsWellFormed) {list : Option BraceList} {names : List (List Char)}
    (hlist : Lists Item.inPattern list names) (quoted : List Char) :
    calls spec quoted names = (calledForms spec list).map fun f => f.text quoted ++ [';'] := by
  have heffect : (spec.sideEffect && !spec.bindsNames) = !spec.bindsNames := by
    cases hbinds : spec.bindsNames with
    | true => simp
    | false => simp [h.sideEffect hbinds]
  have hconstant := fun bound => constant_text bound quoted
  have hside : (if spec.sideEffect && !spec.bindsNames then
        ["require(".toList ++ quoted ++ [')', ';']] else []) =
      (if spec.bindsNames then [] else [Form.call]).map fun f => f.text quoted ++ [';'] := by
    rw [heffect, call_text]
    cases spec.bindsNames <;> rfl
  unfold calls calledForms
  simp only
  rw [hside]
  -- from here on, what a call is made of does not matter
  generalize "const ".toList = keyword at hconstant ⊢
  generalize " = ".toList = equals at hconstant ⊢
  generalize "require(".toList ++ quoted ++ [')', ';'] = call at hconstant ⊢
  have hbindings :
      (spec.defaults ++ spec.namespaces).map (fun n => keyword ++ n ++ equals ++ call) =
        ((spec.defaults ++ spec.namespaces).map Form.constant).map
          fun f => f.text quoted ++ [';'] := by
    rw [List.map_map]
    exact List.map_congr_left fun n _ => hconstant n
  have hpattern : (if names.isEmpty then []
      else [keyword ++ braces (names.map bindingItem) ++ equals ++ call]) =
      (list.toList.map fun list => Form.pattern list.layout list.items).map
        fun f => f.text quoted ++ [';'] := by
    cases hlist with
    | none => rfl
    | @some l items hl hne hitems hbraces =>
        have hsome : (items.map Item.inClause).isEmpty = false := by simpa using hne
        have hbinding : (items.map Item.inClause).map bindingItem = items.map Item.inPattern := by
          rw [List.map_map]
          exact List.map_congr_left fun i hi => (hitems i hi).bindingItem_inClause
        rw [hsome, hbinding, hbraces, hconstant]
        rfl
  rw [hbindings, hpattern]
  simp only [List.map_append]

@[simp] theorem Clause.sideEffect_bound (cl : Clause) : cl.bound.sideEffect = false := by
  cases cl <;> rfl

theorem bound_firstClauses {list : Option BraceList} {names : List (List Char)}
    (hlist : Lists Item.inClause list names) (ds : List (List Char)) :
    (firstClauses ds list).flatMap (·.bound.defaults) = ds ∧
      (firstClauses ds list).flatMap (·.bound.namespaces) = [] ∧
      (firstClauses ds list).flatMap (·.bound.named) = names := by
  cases hlist <;> cases ds <;>
    simp [firstClauses, List.flatMap_map, Clause.bound, List.flatMap_singleton']

theorem bound_clausesOf (spec : Spec) {list : Option BraceList} {names : List (List Char)}
    (hlist : Lists Item.inClause list names) :
    (clausesOf spec list).flatMap (·.bound.defaults) = spec.defaults ∧
      (clausesOf spec list).flatMap (·.bound.namespaces) = spec.namespaces ∧
      (clausesOf spec list).flatMap (·.bound.named) = names := by
  obtain ⟨hdefaults, hnamespaces, hnamed⟩ := bound_firstClauses hlist spec.defaults
  have hstar : ∀ n, (Clause.star n).bound = { namespaces := [n] } := fun _ => rfl
  refine ⟨?_, ?_, ?_⟩
  · rw [clausesOf, List.flatMap_append, hdefaults]
    simp [List.flatMap_map, hstar]
  · rw [clausesOf, List.flatMap_append, hnamespaces]
    simp [List.flatMap_map, hstar, List.flatMap_singleton']
  · rw [clausesOf, List.flatMap_append, hnamed]
    simp [List.flatMap_map, hstar]

theorem valid_firstClauses {list : Option BraceList} {names ds : List (List Char)}
    (hlist : Lists Item.inClause list names) (hds : ∀ d ∈ ds, isIdentifier d = true) :
    ∀ cl ∈ firstClauses ds list, cl.IsValid := by
  have hdefaults : ∀ cl ∈ ds.map Clause.default, cl.IsValid := by
    simp only [List.forall_mem_map]
    exact hds
  cases hlist with
  | none => cases ds <;> exact hdefaults
  | some hl hne hitems hbraces =>
      cases ds with
      | nil => simpa [firstClauses] using ⟨hl, hne, hitems⟩
      | cons d ds =>
          rw [List.map_cons, List.forall_mem_cons] at hdefaults
          rw [firstClauses, List.forall_mem_cons]
          exact ⟨⟨hds d List.mem_cons_self, hl, hne, hitems⟩, hdefaults.2⟩

theorem valid_declaredForms (h : spec.IsWellFormed) {list : Option BraceList}
    {names : List (List Char)} (hlist : Lists Item.inClause list names) :
    ∀ f ∈ declaredForms spec list, f.IsValid ∧ f.isType = spec.isType := by
  intro f hf
  rcases List.mem_append.mp hf with hf | hf
  · obtain ⟨cl, hcl, rfl⟩ := List.mem_map.mp hf
    refine ⟨?_, rfl⟩
    rcases List.mem_append.mp hcl with hcl | hcl
    · exact valid_firstClauses hlist h.defaults cl hcl
    · obtain ⟨n, hn, rfl⟩ := List.mem_map.mp hcl
      exact h.namespaces n hn
  · -- a source of types binds something
    split at hf
    · cases hf
    · next hbinds =>
        obtain rfl := List.mem_singleton.mp hf
        refine ⟨trivial, ?_⟩
        cases htype : spec.isType with
        | true => exact absurd (h.types htype) hbinds
        | false => rfl

theorem valid_calledForms (h : spec.IsWellFormed) (htype : spec.isType = false)
    {list : Option BraceList} {names : List (List Char)} (hlist : Lists Item.inPattern list names) :
    ∀ f ∈ calledForms spec list, f.IsValid ∧ f.isType = spec.isType := by
  intro f hf
  rw [htype]
  simp only [calledForms, List.mem_append] at hf
  rcases hf with (hf | hf) | hf
  · obtain ⟨n, hn, rfl⟩ := List.mem_map.mp hf
    rcases List.mem_append.mp hn with hn | hn
    · exact ⟨h.defaults n hn, rfl⟩
    · exact ⟨h.namespaces n hn, rfl⟩
  · cases hlist with
    | none => cases hf
    | some hl hne hitems hbraces =>
        obtain rfl := List.mem_singleton.mp hf
        exact ⟨⟨hl, hne, hitems⟩, rfl⟩
  · split at hf
    · cases hf
    · obtain rfl := List.mem_singleton.mp hf
      exact ⟨trivial, rfl⟩

/-- What is rendered for a source is a list of statements that bind what is bound there. -/
theorem exists_renders (h : spec.IsWellFormed) (format : ModuleFormat) (hq : isQuote q = true) :
    ∃ forms, Renders format q spec forms := by
  have hnames : ∀ n ∈ spec.named.mergeSort nameLe, ∃ i : Item, i.IsValid ∧ i.inClause = n :=
    fun n hn => h.named n (List.mem_mergeSort.mp hn)
  have hquote := quote_eq_quotedText h.source hq
  have hnone : ∀ xs : List (List Char), (xs.flatMap fun _ => ([] : List (List Char))) = [] := by
    simp
  cases hdeclares : spec.declares format with
  | true =>
      obtain ⟨list, hlist⟩ := exists_lists Item.inClause hnames
      obtain ⟨hdefaults, hnamespaces, hnamed⟩ := bound_clausesOf spec hlist
      refine ⟨declaredForms spec list, valid_declaredForms h hlist, ?_, ?_, ?_, ?_, ?_⟩
      · have hcase : (spec.isType || format = .esm) = true := hdeclares
        rw [render, if_pos hcase, hquote, declarations_eq h hlist]
      all_goals
        cases hbinds : spec.bindsNames <;>
          simp [declaredForms, hdeclares, hbinds, List.flatMap_map, Form.bound, hdefaults,
            hnamespaces, hnamed]
  | false =>
      obtain ⟨list, hlist⟩ := exists_lists Item.inPattern hnames
      have htype : spec.isType = false := by
        rw [Spec.declares, Bool.or_eq_false_iff] at hdeclares
        exact hdeclares.1
      refine ⟨calledForms spec list, valid_calledForms h htype hlist, ?_, ?_, ?_, ?_, ?_⟩
      · have hcase : ¬ (spec.isType || format = .esm) = true := fun htrue => by
          rw [show spec.declares format = true from htrue] at hdeclares
          cases hdeclares
        rw [render, if_neg hcase, hquote, calls_eq h hlist]
      all_goals
        cases hbinds : spec.bindsNames <;>
          simp [calledForms, hdeclares, hbinds, List.flatMap_map, Form.bound,
            List.flatMap_singleton', hlist.names_eq, hnone]

-- ============================================================================
-- The statements of a block
-- ============================================================================

/-- Groups of statements, with more white space between groups than inside them. -/
theorem Spelled.joinGroups {α : Type} {groups : List (List α)} {f : α → List Char}
    {g : α → Statement} {inner outer : List Char} (hinner : isBlankText inner = true)
    (houter : isBlankText outer = true)
    (h : ∀ xs ∈ groups, ∀ x ∈ xs, f x ≠ [] ∧ ∀ r, statement? (f x ++ r) = some (g x, r)) :
    Spelled (Text.joinWith outer (groups.map fun xs => Text.joinWith inner (xs.map f)))
      (groups.flatMap fun xs => xs.map g) := by
  induction groups with
  | nil => exact .blank rfl
  | cons xs groups ih =>
      have hxs := h xs List.mem_cons_self
      have hrest := ih fun ys hys => h ys (List.mem_cons_of_mem xs hys)
      cases groups with
      | nil => simpa using Spelled.joinWith hinner hxs (.blank (b := []) rfl)
      | cons ys groups =>
          have hall := Spelled.joinWith hinner hxs (hrest.blank_append houter)
          simpa [List.append_assoc] using hall

/-- The sources in the order of a block. -/
def grouped (specs : List Spec) : List Spec :=
  [0, 1, 2, 3].flatMap fun n => (specs.mergeSort specLe).filter (·.group = n)

theorem Spec.group_le (s : Spec) : s.group ≤ 3 := by
  unfold Spec.group
  split
  · omega
  · split
    · omega
    · split <;> omega

/-- Every source is in one group. -/
theorem grouped_perm (specs : List Spec) : (grouped specs).Perm specs := by
  refine List.Perm.trans ?_ (List.mergeSort_perm specs specLe)
  rw [List.perm_iff_count]
  intro s
  have hgroup := s.group_le
  have hcount : ∀ n, ((specs.mergeSort specLe).filter (·.group = n)).count s =
      if s.group = n then (specs.mergeSort specLe).count s else 0 := by
    intro n
    split
    · next h => rw [List.count_filter (by simpa using h)]
    · next h =>
        rw [List.count_eq_zero]
        exact fun hmem => h (by simpa using (List.mem_filter.mp hmem).2)
  simp only [grouped, List.flatMap_cons, List.flatMap_nil, List.append_nil, List.count_append,
    hcount]
  interval_cases s.group <;> simp

/-- A statement of a form with a semicolon. -/
def lineText (q : Char) (line : Form × List Char) : List Char :=
  line.1.text (quotedText q line.2) ++ [';']

theorem read_lineText {line : Form × List Char} (hform : line.1.IsValid)
    (hsource : IsPlainSource line.2) (hq : isQuote q = true) :
    lineText q line ≠ [] ∧
      ∀ r, statement? (lineText q line ++ r) = some (line.1.statement line.2, r) := by
  refine ⟨by simp [lineText], fun r => ?_⟩
  have hread := statement?_text hform hsource hq (';' :: r)
  rwa [skipEnd_semicolon, ← List.singleton_append, ← List.append_assoc] at hread

/-- Empty parts of a block leave no trace. -/
theorem flatMap_filter_isEmpty {α β : Type} (groups : List (List α)) (g : α → β) :
    (groups.filter fun xs => !xs.isEmpty).flatMap (fun xs => xs.map g) =
      groups.flatMap fun xs => xs.map g := by
  induction groups with
  | nil => rfl
  | cons xs groups ih => cases xs <;> simp [ih]

/-- A block spells the statements of its sources. -/
theorem exists_spelled_block {p : Parsed} (hwell : ∀ s ∈ p.specs, s.IsWellFormed)
    (hunparsed : p.unparsed = []) (hq : isQuote q = true) (format : ModuleFormat) :
    ∃ formsOf : Spec → List Form, (∀ s ∈ p.specs, Renders format q s (formsOf s)) ∧
      Spelled (block format q p)
        ((grouped p.specs).flatMap fun s => (formsOf s).map (·.statement s.source)) := by
  have hexists : ∀ s, ∃ forms, s ∈ p.specs → Renders format q s forms := by
    intro s
    by_cases hs : s ∈ p.specs
    · obtain ⟨forms, hforms⟩ := exists_renders (hwell s hs) format hq
      exact ⟨forms, fun _ => hforms⟩
    · exact ⟨[], fun h => absurd h hs⟩
  choose formsOf hforms using hexists
  refine ⟨formsOf, hforms, ?_⟩
  -- the lines of a group, each with the source it imports from
  let lines (n : Nat) : List (Form × List Char) :=
    ((p.specs.mergeSort specLe).filter (·.group = n)).flatMap fun s =>
      (formsOf s).map fun f => (f, s.source)
  have hmem : ∀ {n s}, s ∈ (p.specs.mergeSort specLe).filter (·.group = n) → s ∈ p.specs :=
    fun hs => List.mem_mergeSort.mp (List.mem_filter.mp hs).1
  have htext : ∀ n, ((p.specs.mergeSort specLe).filter (·.group = n)).flatMap (render format q) =
      (lines n).map (lineText q) := by
    intro n
    rw [List.map_flatMap]
    refine List.flatMap_congr fun s hs => ?_
    rw [(hforms s (hmem hs)).text, List.map_map]
    rfl
  have hblock : block format q p = Text.joinWith ['\n', '\n']
      ((([0, 1, 2, 3].map lines).filter fun ls => !ls.isEmpty).map
        fun ls => Text.joinWith ['\n'] (ls.map (lineText q))) := by
    have hfilter : (([0, 1, 2, 3].map fun n => (lines n).map (lineText q)) ++ [[]]).filter
        (fun ls => !ls.isEmpty) =
        (([0, 1, 2, 3].map lines).filter fun ls => !ls.isEmpty).map (List.map (lineText q)) := by
      rw [List.filter_append, List.filter_map, List.filter_map]
      simp [Function.comp_def]
    have hnone : p.unparsed.eraseDups = [] := by rw [hunparsed]; rfl
    simp only [block, htext, hnone, hfilter, List.map_map, Function.comp_def]
  have hread : ∀ ls ∈ ([0, 1, 2, 3].map lines).filter fun ls => !ls.isEmpty, ∀ line ∈ ls,
      lineText q line ≠ [] ∧
        ∀ r, statement? (lineText q line ++ r) = some (line.1.statement line.2, r) := by
    intro ls hls line hline
    obtain ⟨n, -, rfl⟩ := List.mem_map.mp (List.mem_filter.mp hls).1
    obtain ⟨s, hs, hline⟩ := List.mem_flatMap.mp hline
    obtain ⟨f, hf, rfl⟩ := List.mem_map.mp hline
    exact read_lineText ((hforms s (hmem hs)).valid f hf).1 (hwell s (hmem hs)).source hq
  have hstatements :
      ([0, 1, 2, 3].map lines).flatMap (fun ls => ls.map fun l => l.1.statement l.2) =
        (grouped p.specs).flatMap fun s => (formsOf s).map (·.statement s.source) := by
    simp [grouped, lines, List.map_flatMap, Function.comp_def]
  rw [hblock, ← hstatements, ← flatMap_filter_isEmpty]
  exact Spelled.joinGroups (by decide) (by decide) hread

/-- The statements of a text that spells them, and nothing else. -/
theorem Spelled.parse (h : Spelled s sts) :
    statementsIn [s] = sts ∧ (parse [s]).unparsed = [] := by
  obtain ⟨hstatements, hlines⟩ := h.piecesFrom Text.isBlankText_nil
  constructor
  · simpa [statementsIn, pieces] using hstatements
  · rw [unparsed_parse]
    simpa [pieces] using hlines

-- ============================================================================
-- Reading a block back
-- ============================================================================

/-- What is read back for a source: the same names, the same defaults and namespaces in their order,
except that calls make defaults of all of them, and the mark of a side effect is kept exactly where
nothing is bound. -/
structure ReadsBack (format : ModuleFormat) (s s' : Spec) : Prop where
  key : s'.key = s.key
  named : ∀ n, n ∈ s'.named ↔ n ∈ s.named
  defaults : s'.defaults = if s.declares format then s.defaults else s.defaults ++ s.namespaces
  namespaces : s'.namespaces = if s.declares format then s.namespaces else []
  sideEffect : s'.sideEffect = !s.bindsNames
  kept : s'.sideEffect = true → s.sideEffect = true

theorem collect_of_nodup {xs : List (List Char)} (h : xs.Nodup) : collect xs = xs := by
  have key : ∀ {acc : List (List Char)}, (acc ++ xs).Nodup → xs.foldl addNew acc = acc ++ xs := by
    induction xs with
    | nil => simp
    | cons x xs ih =>
        intro acc hacc
        have hnew : addNew acc x = acc ++ [x] := by
          have hx : x ∉ acc := fun hx =>
            (List.nodup_append.mp hacc).2.2 x hx x List.mem_cons_self rfl
          rw [addNew, if_neg (by simpa using hx)]
        have hsplit : acc ++ x :: xs = (acc ++ [x]) ++ xs := by simp
        rw [List.foldl_cons, hnew, hsplit]
        exact ih (List.nodup_cons.mp h).2 (hsplit ▸ hacc)
  exact key h

/-- Only the statements of a source matter to its spec. -/
theorem specOf_flatMap {specs : List Spec} {F : Spec → List Statement}
    (hkeys : (specs.map Spec.key).Nodup) (hF : ∀ s ∈ specs, ∀ st ∈ F s, st.key = s.key)
    (hs : spec ∈ specs) : specOf (specs.flatMap F) spec.key = specOf (F spec) spec.key := by
  have hfilter :
      (specs.flatMap F).filter (·.key = spec.key) = (F spec).filter (·.key = spec.key) := by
    induction specs with
    | nil => cases hs
    | cons s specs ih =>
        rw [List.map_cons, List.nodup_cons] at hkeys
        have hothers : ∀ {s'}, s'.key ≠ spec.key → s' ∈ s :: specs →
            (F s').filter (·.key = spec.key) = [] := by
          intro s' hne hs'
          simp only [List.filter_eq_nil_iff, decide_eq_true_eq]
          exact fun st hst heq => hne ((hF s' hs' st hst).symm.trans heq)
        rw [List.flatMap_cons, List.filter_append]
        rcases List.mem_cons.mp hs with rfl | hmem
        · have hrest : (specs.flatMap F).filter (·.key = spec.key) = [] := by
            rw [List.filter_flatMap, List.flatMap_eq_nil_iff]
            refine fun s' hs' => hothers (fun heq => hkeys.1 ?_) (List.mem_cons_of_mem _ hs')
            exact heq ▸ List.mem_map_of_mem hs'
          rw [hrest, List.append_nil]
        · have hne : s.key ≠ spec.key := fun heq => hkeys.1 (heq ▸ List.mem_map_of_mem hmem)
          rw [hothers hne List.mem_cons_self, List.nil_append]
          exact ih hkeys.2 (fun s' hs' => hF s' (List.mem_cons_of_mem s hs')) hmem
  simp only [specOf, hfilter]

/-- The spec of what is rendered for a source. -/
theorem Renders.readsBack {forms : List Form} (h : Renders format q spec forms)
    (hwell : spec.IsWellFormed)
    (hbound : (spec.defaults ++ spec.namespaces).Nodup) :
    ReadsBack format spec (specOf (forms.map (·.statement spec.source)) spec.key) := by
  have hkey : ∀ st ∈ forms.map (·.statement spec.source), st.key = spec.key := by
    intro st hst
    obtain ⟨f, hf, rfl⟩ := List.mem_map.mp hst
    rw [Form.key_statement, (h.valid f hf).2, Spec.key]
  have hall : (forms.map (·.statement spec.source)).filter (·.key = spec.key) =
      forms.map (·.statement spec.source) := List.filter_eq_self.mpr (by simpa using hkey)
  have hbindings : (forms.map (·.statement spec.source)).map Statement.bound =
      forms.map Form.bound := by
    rw [List.map_map]
    exact List.map_congr_left fun f hf => Form.bound_statement (h.valid f hf).1 spec.source
  have heffect : (specOf (forms.map (·.statement spec.source)) spec.key).sideEffect =
      !spec.bindsNames := by
    simp only [specOf, hall, hbindings, List.any_map]
    exact h.sideEffect
  refine ⟨rfl, fun n => ?_, ?_, ?_, heffect, fun hmark => ?_⟩
  · have hsome : n ∈ spec.named → n ≠ [] := by
      intro hn
      obtain ⟨i, hi, rfl⟩ := hwell.named n hn
      exact hi.isEntry_inClause.ne_nil
    have hforms : (∃ f ∈ forms, n ∈ f.bound.named) ↔ n ∈ spec.named := by
      rw [← List.mem_flatMap, h.named, List.mem_mergeSort]
    simp only [specOf, hall, hbindings, mem_collect, List.flatMap_map, List.mem_flatMap,
      List.mem_filter]
    constructor
    · rintro ⟨f, hf, hn, -⟩
      exact hforms.mp ⟨f, hf, hn⟩
    · intro hn
      obtain ⟨f, hf, hmem⟩ := hforms.mpr hn
      exact ⟨f, hf, hmem, by simpa using hsome hn⟩
  · simp only [specOf, hall, hbindings, List.flatMap_map, h.defaults]
    split
    · exact collect_of_nodup (List.nodup_append.mp hbound).1
    · exact collect_of_nodup hbound
  · simp only [specOf, hall, hbindings, List.flatMap_map, h.namespaces]
    split
    · exact collect_of_nodup (List.nodup_append.mp hbound).2.1
    · rfl
  · rw [heffect, Bool.not_eq_true'] at hmark
    exact hwell.sideEffect hmark

/-- Something is rendered for every source. -/
theorem Renders.ne_nil {forms : List Form} (h : Renders format q spec forms) : forms ≠ [] := by
  rintro rfl
  have hbinds : spec.bindsNames = true := by simpa using h.sideEffect.symm
  have hnamed : spec.named = [] := by
    have hlength := congrArg List.length h.named
    rwa [List.flatMap_nil, List.length_mergeSort, List.length_nil, eq_comm,
      List.length_eq_zero_iff] at hlength
  have hbound : spec.defaults ++ spec.namespaces = [] := by
    have hdefaults := h.defaults
    have hnamespaces := h.namespaces
    rw [List.flatMap_nil] at hdefaults hnamespaces
    split at hdefaults
    · next hdeclares =>
        rw [if_pos hdeclares] at hnamespaces
        rw [← hdefaults, ← hnamespaces]
        rfl
    · exact hdefaults.symm
  rw [List.append_eq_nil_iff] at hbound
  simp [Spec.bindsNames, hbound, hnamed] at hbinds

/-- What was read back is rendered like what it was read from. -/
theorem ReadsBack.render_eq {spec' : Spec} (h : ReadsBack format spec spec')
    (hwell : spec.IsWellFormed) (hnodup : spec.named.Nodup) (hnodup' : spec'.named.Nodup) :
    render format q spec' = render format q spec := by
  have hnamed : spec'.named.Perm spec.named :=
    (List.perm_ext_iff_of_nodup hnodup' hnodup).mpr h.named
  have hcalled : spec'.defaults ++ spec'.namespaces = spec.defaults ++ spec.namespaces := by
    rw [h.defaults, h.namespaces]
    split <;> simp
  have hbinds : spec'.bindsNames = spec.bindsNames := by
    have hempty : (spec'.defaults.isEmpty && spec'.namespaces.isEmpty) =
        (spec.defaults.isEmpty && spec.namespaces.isEmpty) := by
      rw [Bool.eq_iff_iff]
      simp only [Bool.and_eq_true, List.isEmpty_iff, ← List.append_eq_nil_iff, hcalled]
    simp only [Spec.bindsNames, hempty, hnamed.isEmpty_eq]
  refine render_congr h.key hcalled (fun hdeclared => ?_) hnamed ?_
  · have hdeclares : spec.declares format = true := by
      have htype : spec'.isType = spec.isType := congrArg Prod.snd h.key
      rw [Spec.declares, ← htype]
      exact hdeclared
    rw [h.defaults, h.namespaces, if_pos hdeclares, if_pos hdeclares]
    exact ⟨rfl, rfl⟩
  · rw [h.sideEffect, hbinds]
    cases hcase : spec.bindsNames with
    | true => simp
    | false => simp [hwell.sideEffect hcase]

/-- The spec of a source, if it occurs. -/
def Parsed.spec? (p : Parsed) (k : List Char × Bool) : Option Spec := p.specs.find? (·.key = k)

theorem Gathered.find?_eq {specs : List Spec} (h : Gathered sts specs) (k : List Char × Bool) :
    specs.find? (·.key = k) = if k ∈ specs.map Spec.key then some (specOf sts k) else none := by
  split
  · next hk =>
      cases hfind : specs.find? (·.key = k) with
      | none =>
          obtain ⟨s, hs, rfl⟩ := List.mem_map.mp hk
          have := List.find?_eq_none.mp hfind s hs
          simp at this
      | some s =>
          have hkey : s.key = k := by simpa using List.find?_some hfind
          rw [h.eq_specOf s (List.mem_of_find?_eq_some hfind), hkey]
  · next hk =>
      rw [List.find?_eq_none]
      intro s hs heq
      simp only [decide_eq_true_eq] at heq
      exact hk (heq ▸ List.mem_map_of_mem hs)

/-- The sources of a block are those it was made from, and each is read back. -/
theorem readsBack_block {p : Parsed} (h : Gathered sts p.specs)
    (hwell : ∀ s ∈ p.specs, s.IsWellFormed)
    (hbound : ∀ s ∈ p.specs, (s.defaults ++ s.namespaces).Nodup) (hunparsed : p.unparsed = [])
    (hq : isQuote q = true) (format : ModuleFormat) :
    (parse [block format q p]).unparsed = [] ∧
      (p.specs.map Spec.key).Perm ((parse [block format q p]).specs.map Spec.key) ∧
      ∀ s ∈ p.specs, ∀ s' ∈ (parse [block format q p]).specs, s.key = s'.key →
        ReadsBack format s s' := by
  obtain ⟨formsOf, hforms, hspelled⟩ := exists_spelled_block hwell hunparsed hq format
  obtain ⟨hstatements, hunparsed'⟩ := hspelled.parse
  have h' := gathered_parse [block format q p]
  have hgrouped := grouped_perm p.specs
  rw [hstatements] at h'
  have hkey : ∀ s ∈ grouped p.specs, ∀ st ∈ (formsOf s).map (·.statement s.source),
      st.key = s.key := by
    intro s hs st hst
    obtain ⟨f, hf, rfl⟩ := List.mem_map.mp hst
    rw [Form.key_statement, ((hforms s (hgrouped.mem_iff.mp hs)).valid f hf).2, Spec.key]
  have hnodup : ((grouped p.specs).map Spec.key).Nodup :=
    (hgrouped.map Spec.key).nodup_iff.mpr h.nodup
  refine ⟨hunparsed', ?_, fun s hs s' hs' heq => ?_⟩
  · refine (List.perm_ext_iff_of_nodup h.nodup h'.nodup).mpr fun k => ?_
    rw [h'.mem_key]
    constructor
    · intro hk
      obtain ⟨s, hs, rfl⟩ := List.mem_map.mp hk
      obtain ⟨f, rest, hlist⟩ := List.exists_cons_of_ne_nil (hforms s hs).ne_nil
      have hst : f.statement s.source ∈ (formsOf s).map (·.statement s.source) := by simp [hlist]
      have hs := hgrouped.mem_iff.mpr hs
      exact ⟨_, List.mem_flatMap.mpr ⟨s, hs, hst⟩, hkey s hs _ hst⟩
    · rintro ⟨st, hst, rfl⟩
      obtain ⟨s, hs, hst⟩ := List.mem_flatMap.mp hst
      rw [hkey s hs st hst]
      exact List.mem_map_of_mem (hgrouped.mem_iff.mp hs)
  · rw [h'.eq_specOf s' hs', ← heq, specOf_flatMap hnodup hkey (hgrouped.mem_iff.mpr hs)]
    exact (hforms s hs).readsBack (hwell s hs) (hbound s hs)

/-- A block of what was read from a block is the same block. -/
theorem block_parse_block {p : Parsed} (h : Gathered sts p.specs)
    (hwell : ∀ s ∈ p.specs, s.IsWellFormed)
    (hbound : ∀ s ∈ p.specs, (s.defaults ++ s.namespaces).Nodup) (hunparsed : p.unparsed = [])
    (hq : isQuote q = true) (format : ModuleFormat) :
    block format q (parse [block format q p]) = block format q p := by
  obtain ⟨hunparsed', hkeys, hback⟩ := readsBack_block h hwell hbound hunparsed hq format
  refine (block_congr hkeys (fun s hs s' hs' heq => ?_) (hunparsed.trans hunparsed'.symm)).symm
  have hnodup : ∀ {sts specs} {s : Spec}, Gathered sts specs → s ∈ specs → s.named.Nodup := by
    intro sts specs s hgathered hs
    rw [hgathered.eq_specOf s hs]
    exact nodup_named_specOf
  exact ((hback s hs s' hs' heq).render_eq (hwell s hs) (hnodup h hs)
    (hnodup (gathered_parse _) hs')).symm

-- ============================================================================
-- Well-formed statements
-- ============================================================================

/-- An import statement as it is written. -/
structure ImportText where
  form : Form
  source : List Char
  quote : Char
  semicolon : Bool

namespace ImportText

def text (t : ImportText) : List Char :=
  t.form.text (quotedText t.quote t.source) ++ if t.semicolon then [';'] else []

structure IsWellFormed (t : ImportText) : Prop where
  form : t.form.IsValid
  source : IsPlainSource t.source
  quote : isQuote t.quote = true

/-- A text on its own is read as its statement. -/
theorem IsWellFormed.spelled {t : ImportText} (h : t.IsWellFormed) :
    Spelled t.text [t.form.statement t.source] := by
  have hread := statement?_text h.form h.source h.quote
  cases hend : t.semicolon with
  | true =>
      obtain ⟨hne, hread⟩ : lineText t.quote (t.form, t.source) ≠ [] ∧ _ :=
        read_lineText h.form h.source h.quote
      rw [text, hend]
      exact .single hne hread
  | false =>
      have hread := statement?_text h.form h.source h.quote []
      have hne : t.form.text (quotedText t.quote t.source) ≠ [] := by
        intro hnil
        rw [hnil] at hread
        cases hread
      rw [List.append_nil] at hread
      rw [text, hend]
      simpa using Spelled.last (b := []) rfl hne hread

end ImportText

theorem statementsIn_texts {ts : List ImportText} (h : ∀ t ∈ ts, t.IsWellFormed) :
    statementsIn (ts.map ImportText.text) = ts.map (fun t => t.form.statement t.source) ∧
      (parse (ts.map ImportText.text)).unparsed = [] := by
  induction ts with
  | nil => exact ⟨rfl, rfl⟩
  | cons t ts ih =>
      obtain ⟨hstatements, hlines⟩ := ih fun t' ht' => h t' (List.mem_cons_of_mem t ht')
      obtain ⟨hfirst, hline⟩ := (h t List.mem_cons_self).spelled.parse
      simp only [unparsed_parse, statementsIn, List.flatMap_cons, List.flatMap_nil,
        List.append_nil] at hstatements hlines hfirst hline
      constructor
      · rw [List.map_cons, List.map_cons, statementsIn, List.flatMap_cons, List.filterMap_append,
          hfirst, hstatements]
        rfl
      · rw [unparsed_parse, List.map_cons, List.flatMap_cons, List.flatMap_append, hline, hlines]
        rfl

/-- A form binds identifiers and items. -/
theorem Form.IsValid.bound {f : Form} (h : f.IsValid) :
    (∀ n ∈ f.bound.defaults, isIdentifier n = true) ∧
      (∀ n ∈ f.bound.namespaces, isIdentifier n = true) ∧
      ∀ n ∈ f.bound.named, ∃ i : Item, i.IsValid ∧ i.inClause = n := by
  have hitems : ∀ {items : List Item}, (∀ i ∈ items, i.IsValid) →
      ∀ n ∈ items.map Item.inClause, ∃ i : Item, i.IsValid ∧ i.inClause = n := by
    intro items hvalid n hn
    obtain ⟨i, hi, rfl⟩ := List.mem_map.mp hn
    exact ⟨i, hvalid i hi, rfl⟩
  have hone : ∀ {n : List Char}, isIdentifier n = true → ∀ m ∈ [n], isIdentifier m = true := by
    intro n hn m hm
    rwa [List.mem_singleton.mp hm]
  have hnone : ∀ {P : List Char → Prop}, ∀ m ∈ ([] : List (List Char)), P m := by simp
  cases f with
  | effect => exact ⟨hnone, hnone, hnone⟩
  | declared isType clause =>
      cases clause with
      | default n => exact ⟨hone h, hnone, hnone⟩
      | names l items => exact ⟨hnone, hnone, hitems h.2.2⟩
      | both n l items => exact ⟨hone h.1, hnone, hitems h.2.2.2⟩
      | star n => exact ⟨hnone, hone h, hnone⟩
  | constant n => exact ⟨hone h, hnone, hnone⟩
  | pattern l items => exact ⟨hnone, hnone, hitems h.2.2⟩
  | call => exact ⟨hnone, hnone, hnone⟩

/-- A form binds something, or it is there for its side effect and imports no types. -/
theorem Form.IsValid.binds {f : Form} (h : f.IsValid) :
    (f.bound.sideEffect = true ∧ f.isType = false) ∨
      ∃ n, n ∈ f.bound.defaults ∨ n ∈ f.bound.namespaces ∨ n ∈ f.bound.named := by
  have hitems : ∀ {items : List Item}, items ≠ [] → ∃ n, n ∈ items.map Item.inClause := by
    intro items hne
    obtain ⟨i, rest, rfl⟩ := List.exists_cons_of_ne_nil hne
    exact ⟨i.inClause, List.mem_cons_self⟩
  cases f with
  | effect => exact .inl ⟨rfl, rfl⟩
  | declared isType clause =>
      cases clause with
      | default n => exact .inr ⟨n, .inl List.mem_cons_self⟩
      | names l items =>
          obtain ⟨n, hn⟩ := hitems h.2.1
          exact .inr ⟨n, .inr (.inr hn)⟩
      | both n l items => exact .inr ⟨n, .inl List.mem_cons_self⟩
      | star n => exact .inr ⟨n, .inr (.inl List.mem_cons_self)⟩
  | constant n => exact .inr ⟨n, .inl List.mem_cons_self⟩
  | pattern l items =>
      obtain ⟨n, hn⟩ := hitems h.2.1
      exact .inr ⟨n, .inr (.inr hn)⟩
  | call => exact .inl ⟨rfl, rfl⟩

theorem bindsNames_specOf {n : List Char} (hst : st ∈ sts)
    (hn : n ∈ st.bound.defaults ∨ n ∈ st.bound.namespaces ∨ n ∈ st.bound.named) (hsome : n ≠ []) :
    (specOf sts st.key).bindsNames = true := by
  have hmem : n ∈ (specOf sts st.key).defaults ∨ n ∈ (specOf sts st.key).namespaces ∨
      n ∈ (specOf sts st.key).named := by
    rw [mem_defaults_specOf, mem_namespaces_specOf, mem_named_specOf]
    rcases hn with hn | hn | hn
    · exact .inl ⟨st, hst, rfl, hn⟩
    · exact .inr (.inl ⟨st, hst, rfl, hn⟩)
    · exact .inr (.inr ⟨st, hst, rfl, hn, hsome⟩)
  simp only [Spec.bindsNames, Bool.not_eq_true', Bool.and_eq_false_iff, List.isEmpty_eq_false_iff]
  rcases hmem with hmem | hmem | hmem
  · exact .inl (.inl (List.ne_nil_of_mem hmem))
  · exact .inl (.inr (List.ne_nil_of_mem hmem))
  · exact .inr (List.ne_nil_of_mem hmem)

/-- Well-formed statements give well-formed specs. -/
theorem isWellFormed_specOf {ts : List ImportText} (h : ∀ t ∈ ts, t.IsWellFormed)
    (hocc : ∃ st ∈ ts.map (fun t => t.form.statement t.source), st.key = k) :
    (specOf (ts.map fun t => t.form.statement t.source) k).IsWellFormed := by
  have hstatement : ∀ st ∈ ts.map (fun t => t.form.statement t.source), ∃ t ∈ ts,
      st = t.form.statement t.source ∧ st.bound = t.form.bound := by
    intro st hst
    obtain ⟨t, ht, rfl⟩ := List.mem_map.mp hst
    exact ⟨t, ht, rfl, Form.bound_statement (h t ht).form t.source⟩
  obtain ⟨st, hst, rfl⟩ := hocc
  obtain ⟨t, ht, hst', hbound⟩ := hstatement st hst
  have hkey : st.key = (t.source, t.form.isType) := by rw [hst', Form.key_statement]
  -- a statement that is not there for its side effect alone binds a name
  have hbinds : (st.bound.sideEffect = true ∧ t.form.isType = false) ∨
      (specOf (ts.map fun t => t.form.statement t.source) st.key).bindsNames = true := by
    rcases (h t ht).form.binds with heffect | ⟨n, hn⟩
    · exact .inl (hbound ▸ heffect)
    · have hsome : n ≠ [] := by
        obtain ⟨hdefaults, hnamespaces, hnamed⟩ := (h t ht).form.bound
        rcases hn with hn | hn | hn
        · exact ne_nil_of_isIdentifier (hdefaults n hn)
        · exact ne_nil_of_isIdentifier (hnamespaces n hn)
        · obtain ⟨i, hi, rfl⟩ := hnamed n hn
          exact hi.isEntry_inClause.ne_nil
      exact .inr (bindsNames_specOf hst (hbound ▸ hn) hsome)
  refine ⟨?_, ?_, ?_, ?_, ?_, ?_⟩
  · have hsource : (specOf (ts.map fun t => t.form.statement t.source) st.key).source = t.source :=
      congrArg Prod.fst hkey
    rw [hsource]
    exact (h t ht).source
  · intro n hn
    obtain ⟨st', hst', -, hn⟩ := mem_defaults_specOf.mp hn
    obtain ⟨t', ht', -, hbound'⟩ := hstatement st' hst'
    exact (h t' ht').form.bound.1 n (hbound' ▸ hn)
  · intro n hn
    obtain ⟨st', hst', -, hn⟩ := mem_namespaces_specOf.mp hn
    obtain ⟨t', ht', -, hbound'⟩ := hstatement st' hst'
    exact (h t' ht').form.bound.2.1 n (hbound' ▸ hn)
  · intro n hn
    obtain ⟨st', hst', -, hn, -⟩ := mem_named_specOf.mp hn
    obtain ⟨t', ht', -, hbound'⟩ := hstatement st' hst'
    exact (h t' ht').form.bound.2.2 n (hbound' ▸ hn)
  · intro hnone
    rcases hbinds with ⟨heffect, -⟩ | hbinds
    · exact sideEffect_specOf.mpr ⟨st, hst, rfl, heffect⟩
    · rw [hbinds] at hnone
      cases hnone
  · intro htype
    have htype : t.form.isType = true := (congrArg Prod.snd hkey).symm.trans htype
    rcases hbinds with ⟨-, hfalse⟩ | hbinds
    · rw [htype] at hfalse
      cases hfalse
    · exact hbinds

-- ============================================================================
-- The block of well-formed statements
-- ============================================================================

/-- A block of well-formed statements is read back without a line left over, source by source, and
consolidating it again changes nothing. -/
theorem blockOf_readsBack (format : ModuleFormat) (hq : isQuote q = true) {ts : List ImportText}
    (hwell : ∀ t ∈ ts, t.IsWellFormed)
    (hapart : ∀ t ∈ ts, ∀ t' ∈ ts, t.source = t'.source →
      ∀ n ∈ t.form.bound.defaults, n ∉ t'.form.bound.namespaces) :
    (parse [blockOf format q (ts.map ImportText.text)]).unparsed = [] ∧
      (∀ k, Option.Rel (ReadsBack format) ((parse (ts.map ImportText.text)).spec? k)
        ((parse [blockOf format q (ts.map ImportText.text)]).spec? k)) ∧
      blockOf format q [blockOf format q (ts.map ImportText.text)] =
        blockOf format q (ts.map ImportText.text) := by
  unfold blockOf
  obtain ⟨hstatements, hunparsed⟩ := statementsIn_texts hwell
  have hgathered := gathered_parse (ts.map ImportText.text)
  rw [hstatements] at hgathered
  have hspecs : ∀ s ∈ (parse (ts.map ImportText.text)).specs, s.IsWellFormed := by
    intro s hs
    obtain ⟨hocc, hspec⟩ := hgathered.mem_iff.mp hs
    rw [hspec]
    exact isWellFormed_specOf hwell hocc
  have hbound : ∀ s ∈ (parse (ts.map ImportText.text)).specs,
      (s.defaults ++ s.namespaces).Nodup := by
    intro s hs
    rw [hgathered.eq_specOf s hs]
    refine List.nodup_append.mpr ⟨nodup_defaults_specOf, nodup_namespaces_specOf, ?_⟩
    rintro n hdefault _ hnamespace rfl
    -- both names come from statements of this source
    obtain ⟨st, hst, hkey, hn⟩ := mem_defaults_specOf.mp hdefault
    obtain ⟨st', hst', hkey', hn'⟩ := mem_namespaces_specOf.mp hnamespace
    obtain ⟨t, ht, rfl⟩ := List.mem_map.mp hst
    obtain ⟨t', ht', rfl⟩ := List.mem_map.mp hst'
    rw [Form.bound_statement (hwell t ht).form] at hn
    rw [Form.bound_statement (hwell t' ht').form] at hn'
    have hsource : t.source = t'.source := by
      rw [Form.key_statement] at hkey hkey'
      exact congrArg Prod.fst (hkey.trans hkey'.symm)
    exact hapart t ht t' ht' hsource n hn hn'
  have hback := readsBack_block hgathered hspecs hbound hunparsed hq format
  obtain ⟨hunparsed', hkeys, hback⟩ := hback
  refine ⟨hunparsed', fun k => ?_, block_parse_block hgathered hspecs hbound hunparsed hq format⟩
  have hgathered' := gathered_parse [block format q (parse (ts.map ImportText.text))]
  rw [Parsed.spec?, Parsed.spec?]
  by_cases hk : k ∈ (parse (ts.map ImportText.text)).specs.map Spec.key
  · obtain ⟨s, hs, rfl⟩ := List.mem_map.mp hk
    obtain ⟨s', hs', hkey⟩ := List.mem_map.mp (hkeys.mem_iff.mp hk)
    have hspec := hback s hs s' hs' hkey.symm
    rw [hgathered.find?_eq, if_pos hk, hgathered'.find?_eq, if_pos (hkeys.mem_iff.mp hk),
      ← hgathered.eq_specOf s hs, ← hkey, ← hgathered'.eq_specOf s' hs']
    exact .some hspec
  · rw [hgathered.find?_eq, if_neg hk, hgathered'.find?_eq,
      if_neg fun hk' => hk (hkeys.mem_iff.mpr hk')]
    exact .none

/-- A default that is called like a keyword, a renamed member and a side effect. -/
def mixedTexts : List ImportText := [
  { form := .declared false (.both "type".toList ⟨[' '], [' '], [' ']⟩
      [.same "b".toList, .renamed "a".toList "as".toList])
    source := "pkg".toList, quote := '"', semicolon := true },
  { form := .pattern ⟨[' '], [' '], [' ']⟩ [.renamed "from".toList "c".toList]
    source := "pkg".toList, quote := '\'', semicolon := false },
  { form := .effect, source := "dotenv/config".toList, quote := '\'', semicolon := true }]

theorem isWellFormed_mixedTexts : ∀ t ∈ mixedTexts, t.IsWellFormed := by
  have hlayout : Layout.IsBlank ⟨[' '], [' '], [' ']⟩ := ⟨by decide, by decide, by decide⟩
  simp only [mixedTexts, List.forall_mem_cons]
  refine ⟨⟨⟨by decide, hlayout, by simp, ?_⟩, .of_all (by decide) (by decide), by decide⟩,
    ⟨⟨hlayout, by simp, ?_⟩, .of_all (by decide) (by decide), by decide⟩,
    ⟨trivial, .of_all (by decide) (by decide), by decide⟩, by simp⟩
  · simp only [List.forall_mem_cons]
    have hname : isIdentifier "b".toList = true := by decide
    exact ⟨hname, ⟨by decide, by decide⟩, by simp⟩
  · simp only [List.forall_mem_cons]
    exact ⟨⟨by decide, by decide⟩, by simp⟩

theorem blockOf_mixedTexts :
    blockOf .cjs '"' [blockOf .cjs '"' (mixedTexts.map ImportText.text)] =
      blockOf .cjs '"' (mixedTexts.map ImportText.text) :=
  (blockOf_readsBack .cjs (by decide) isWellFormed_mixedTexts (by decide)).2.2

end Flowscript.Import

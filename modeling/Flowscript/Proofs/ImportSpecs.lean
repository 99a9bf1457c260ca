/-
  Flowscript.Proofs.ImportSpecs

  What parsing gathers for each source.

  A statement binds names for one source (`Statement.bound`), and the spec of a source
  collects what the statements of that source bind, in the order of first occurrence
  (`specOf`).  Merging one more statement keeps the specs of this shape
  (`Gathered.merge`), and so does merging all of them (`gathered_parse`).
-/
import Flowscript.Import.Spec
import Flowscript.Proofs.Sorting

namespace Flowscript.Import

variable {xs ys acc : List (List Char)} {x : List Char} {k : List Char × Bool} {s : Spec}
  {specs : List Spec} {st : Statement} {sts : List Statement} {texts : List (List Char)}

-- ============================================================================
-- Items in the order of their first occurrence
-- ============================================================================

theorem mem_addNew {y : List Char} : x ∈ addNew xs y ↔ x ∈ xs ∨ x = y := by
  unfold addNew
  split
  · next h =>
      simp only [List.contains_iff_mem] at h
      constructor
      · exact .inl
      · rintro (h' | rfl)
        · exact h'
        · exact h
  · simp

theorem mem_foldl_addNew : x ∈ xs.foldl addNew acc ↔ x ∈ acc ∨ x ∈ xs := by
  induction xs generalizing acc with
  | nil => simp
  | cons y xs ih => rw [List.foldl_cons, ih, mem_addNew, List.mem_cons, or_assoc]

theorem nodup_foldl_addNew (h : acc.Nodup) : (xs.foldl addNew acc).Nodup := by
  induction xs generalizing acc with
  | nil => exact h
  | cons y xs ih =>
      refine ih ?_
      unfold addNew
      split
      · exact h
      · next hy =>
          simp only [List.contains_iff_mem] at hy
          exact List.nodup_append.mpr ⟨h, by simp, by rintro a ha _ hb rfl; simp_all⟩

/-- The items of a list, each at its first occurrence. -/
def collect (xs : List (List Char)) : List (List Char) := xs.foldl addNew []

@[simp] theorem collect_nil : collect [] = [] := rfl

theorem collect_append : collect (xs ++ ys) = ys.foldl addNew (collect xs) := List.foldl_append

@[simp] theorem mem_collect : x ∈ collect xs ↔ x ∈ xs := by
  simp [collect, mem_foldl_addNew]

theorem nodup_collect (xs : List (List Char)) : (collect xs).Nodup :=
  nodup_foldl_addNew List.nodup_nil

-- ============================================================================
-- What a statement binds
-- ============================================================================

/-- What one statement adds to the spec of its source. -/
structure Bindings where
  defaults : List (List Char) := []
  namespaces : List (List Char) := []
  named : List (List Char) := []
  sideEffect : Bool := false

/-- The names between the braces of a clause, and the rest of the clause. -/
def clauseNames (clause : List Char) : List (List Char) × List Char :=
  match bracesIn? clause with
  | some (body, rest) => (namedItems body, rest)
  | none => ([], clause)

/-- The namespace of a clause, and the rest of the clause. -/
def clauseNamespaces (clause : List Char) : List (List Char) × List Char :=
  match namespaceIn? clause with
  | some (name, rest) => ([name], rest)
  | none => ([], clause)

/-- What is left of a clause are its defaults. -/
def clauseDefaults (clause : List Char) : List (List Char) :=
  ((Text.splitOn ',' clause).map Text.trim).filter isName

/-- What an import clause binds. -/
def clauseBindings (clause : List Char) : Bindings where
  named := (clauseNames clause).1
  namespaces := (clauseNamespaces (clauseNames clause).2).1
  defaults := clauseDefaults (clauseNamespaces (clauseNames clause).2).2

namespace Statement

/-- The spec a statement belongs to. -/
def key : Statement → List Char × Bool
  | .bindings isType _ source => (source, isType)
  | .sideEffect source => (source, false)
  | .required _ source => (source, false)

/-- What a statement binds. -/
def bound : Statement → Bindings
  | .bindings _ clause _ => clauseBindings clause
  | .sideEffect _ => { sideEffect := true }
  | .required (.whole name) _ => { defaults := [name] }
  | .required (.members body) _ => { named := (namedItems body).map renamed }

end Statement

/-- Adds what a statement binds. -/
def Spec.bind (s : Spec) (b : Bindings) : Spec where
  source := s.source
  isType := s.isType
  defaults := b.defaults.foldl addNew s.defaults
  namespaces := b.namespaces.foldl addNew s.namespaces
  named := (b.named.filter fun n => !n.isEmpty).foldl addNew s.named
  sideEffect := s.sideEffect || b.sideEffect

@[simp] theorem Spec.key_bind (s : Spec) (b : Bindings) : (s.bind b).key = s.key := rfl

theorem Spec.foldl_withDefault (xs : List (List Char)) (s : Spec) :
    xs.foldl Spec.withDefault s = { s with defaults := xs.foldl addNew s.defaults } := by
  induction xs generalizing s with
  | nil => rfl
  | cons x xs ih => rw [List.foldl_cons, ih]; rfl

theorem Spec.addClause_eq (s : Spec) (clause : List Char) :
    s.addClause clause = s.bind (clauseBindings clause) := by
  -- each of the two searches in the clause finds something or leaves the clause alone
  cases hbraces : bracesIn? clause with
  | none =>
      cases hspace : namespaceIn? clause <;>
        simp [Spec.addClause, clauseBindings, clauseNames, clauseNamespaces, hbraces, hspace,
          Spec.foldl_withDefault, Spec.bind, Spec.withNamespace, clauseDefaults]
  | some found =>
      cases hspace : namespaceIn? found.2 <;>
        simp [Spec.addClause, clauseBindings, clauseNames, clauseNamespaces, hbraces, hspace,
          Spec.foldl_withDefault, Spec.bind, Spec.withNamespace, Spec.withNames, clauseDefaults]

/-- Whatever its form, a statement is merged into the spec of its source. -/
theorem mergeStatement_eq (specs : List Spec) (st : Statement) :
    mergeStatement specs st = updateSpec st.key.1 st.key.2 (·.bind st.bound) specs := by
  cases st with
  | bindings isType clause source =>
      simp only [mergeStatement, Statement.key, Statement.bound, Spec.addClause_eq]
  | sideEffect source =>
      simp only [mergeStatement, Statement.key, Statement.bound]
      congr 1
      funext s
      simp [Spec.bind]
  | required binding source =>
      cases binding <;> simp only [mergeStatement, Statement.key, Statement.bound] <;>
        (congr 1; funext s; simp [Spec.bind, Spec.withDefault, Spec.withNames])

-- ============================================================================
-- The spec of a source
-- ============================================================================

/-- The spec of a source: everything that its statements bind. -/
def specOf (sts : List Statement) (k : List Char × Bool) : Spec :=
  let bound := (sts.filter (·.key = k)).map Statement.bound
  { source := k.1
    isType := k.2
    defaults := collect (bound.flatMap (·.defaults))
    namespaces := collect (bound.flatMap (·.namespaces))
    named := collect (bound.flatMap fun b => b.named.filter fun n => !n.isEmpty)
    sideEffect := bound.any (·.sideEffect) }

@[simp] theorem key_specOf (sts : List Statement) (k : List Char × Bool) :
    (specOf sts k).key = k := rfl

theorem specOf_of_not_mem (h : ∀ st ∈ sts, st.key ≠ k) :
    specOf sts k = { source := k.1, isType := k.2 } := by
  have hnone : sts.filter (·.key = k) = [] := by simpa using h
  simp [specOf, hnone]

theorem specOf_concat_of_eq : specOf (sts ++ [st]) st.key = (specOf sts st.key).bind st.bound := by
  simp [specOf, Spec.bind, collect_append]

theorem specOf_concat_of_ne (h : st.key ≠ k) : specOf (sts ++ [st]) k = specOf sts k := by
  simp [specOf, h]

theorem mem_named_specOf : x ∈ (specOf sts k).named ↔
    ∃ st ∈ sts, st.key = k ∧ x ∈ st.bound.named ∧ x ≠ [] := by
  simp [specOf, and_assoc]

theorem mem_defaults_specOf : x ∈ (specOf sts k).defaults ↔
    ∃ st ∈ sts, st.key = k ∧ x ∈ st.bound.defaults := by
  simp [specOf, and_assoc]

theorem mem_namespaces_specOf : x ∈ (specOf sts k).namespaces ↔
    ∃ st ∈ sts, st.key = k ∧ x ∈ st.bound.namespaces := by
  simp [specOf, and_assoc]

theorem nodup_named_specOf : (specOf sts k).named.Nodup := nodup_collect _

theorem nodup_defaults_specOf : (specOf sts k).defaults.Nodup := nodup_collect _

theorem nodup_namespaces_specOf : (specOf sts k).namespaces.Nodup := nodup_collect _

theorem sideEffect_specOf : (specOf sts k).sideEffect = true ↔
    ∃ st ∈ sts, st.key = k ∧ st.bound.sideEffect = true := by
  simp [specOf]

-- ============================================================================
-- Merging
-- ============================================================================

/-- The specs are those of the sources that occur, one for each. -/
structure Gathered (sts : List Statement) (specs : List Spec) : Prop where
  nodup : (specs.map Spec.key).Nodup
  mem_key : ∀ k, k ∈ specs.map Spec.key ↔ ∃ st ∈ sts, st.key = k
  eq_specOf : ∀ s ∈ specs, s = specOf sts s.key

theorem updateSpec_of_not_mem (f : Spec → Spec) (h : k ∉ specs.map Spec.key) :
    updateSpec k.1 k.2 f specs = specs ++ [f { source := k.1, isType := k.2 }] := by
  induction specs with
  | nil => rfl
  | cons s specs ih =>
      simp only [List.map_cons, List.mem_cons, not_or] at h
      have hne : ¬ (s.source = k.1 ∧ s.isType = k.2) := fun heq =>
        h.1 (Prod.ext heq.1.symm heq.2.symm)
      simp only [updateSpec, Bool.and_eq_true, decide_eq_true_eq, hne, if_false, ih h.2,
        List.cons_append]

theorem updateSpec_of_mem (f : Spec → Spec) (hnodup : (specs.map Spec.key).Nodup)
    (h : k ∈ specs.map Spec.key) :
    updateSpec k.1 k.2 f specs = specs.map fun s => if s.key = k then f s else s := by
  induction specs with
  | nil => simp at h
  | cons s specs ih =>
      rw [List.map_cons, List.nodup_cons] at hnodup
      simp only [updateSpec, Bool.and_eq_true, decide_eq_true_eq]
      by_cases hs : s.key = k
      · -- the keys are different, so that no later spec changes
        have hlater : ∀ s' ∈ specs, (if s'.key = k then f s' else s') = s' := by
          intro s' hs'
          rw [if_neg]
          rintro rfl
          exact hnodup.1 (hs ▸ List.mem_map_of_mem hs')
        rw [if_pos ⟨congrArg Prod.fst hs, congrArg Prod.snd hs⟩, List.map_cons, if_pos hs,
          List.map_congr_left hlater, List.map_id']
      · have hne : ¬ (s.source = k.1 ∧ s.isType = k.2) := fun heq => hs (Prod.ext heq.1 heq.2)
        have hmem : k ∈ specs.map Spec.key := by
          rw [List.map_cons, List.mem_cons] at h
          exact h.resolve_left fun heq => hs heq.symm
        rw [if_neg hne, List.map_cons, if_neg hs, ih hnodup.2 hmem]

namespace Gathered

theorem nil : Gathered [] [] := ⟨List.nodup_nil, by simp, by simp⟩

/-- Merging a statement gathers it with the others. -/
theorem merge (h : Gathered sts specs) (st : Statement) :
    Gathered (sts ++ [st]) (mergeStatement specs st) := by
  rw [mergeStatement_eq]
  by_cases hmem : st.key ∈ specs.map Spec.key
  · rw [updateSpec_of_mem _ h.nodup hmem]
    have hkeys : (specs.map fun s => if s.key = st.key then s.bind st.bound else s).map Spec.key =
        specs.map Spec.key := by
      rw [List.map_map]
      refine List.map_congr_left fun s _ => ?_
      by_cases hs : s.key = st.key <;> simp [hs]
    refine ⟨hkeys ▸ h.nodup, fun k => ?_, fun s' hs' => ?_⟩
    · rw [hkeys, h.mem_key]
      have hold := (h.mem_key st.key).mp hmem
      simp only [List.mem_append, List.mem_singleton]
      constructor
      · rintro ⟨st', hst', hk⟩
        exact ⟨st', .inl hst', hk⟩
      · rintro ⟨st', hst' | rfl, hk⟩
        · exact ⟨st', hst', hk⟩
        · exact hk ▸ hold
    · obtain ⟨s, hs, rfl⟩ := List.mem_map.mp hs'
      by_cases hk : s.key = st.key
      · rw [if_pos hk, Spec.key_bind, hk, specOf_concat_of_eq, ← hk, ← h.eq_specOf s hs]
      · rw [if_neg hk, specOf_concat_of_ne (Ne.symm hk), ← h.eq_specOf s hs]
  · rw [updateSpec_of_not_mem _ hmem]
    refine ⟨?_, fun k => ?_, fun s' hs' => ?_⟩
    · rw [List.map_append]
      refine List.nodup_append.mpr ⟨h.nodup, List.nodup_singleton _, ?_⟩
      rintro _ hk _ hk' rfl
      obtain rfl := List.mem_singleton.mp hk'
      exact hmem hk
    · simp only [List.map_append, List.mem_append, h.mem_key, List.map_cons, List.map_nil,
        List.mem_singleton, Spec.key_bind]
      constructor
      · rintro (⟨st', hst', hk⟩ | rfl)
        · exact ⟨st', .inl hst', hk⟩
        · exact ⟨st, .inr rfl, rfl⟩
      · rintro ⟨st', hst' | rfl, hk⟩
        · exact .inl ⟨st', hst', hk⟩
        · exact .inr hk.symm
    · rcases List.mem_append.mp hs' with hs | hs
      · have hk : st.key ≠ s'.key := fun heq => hmem (heq ▸ List.mem_map_of_mem hs)
        rw [specOf_concat_of_ne hk, ← h.eq_specOf s' hs]
      · obtain rfl := List.mem_singleton.mp hs
        have hnew : ∀ st' ∈ sts, st'.key ≠ st.key := fun st' hst' heq =>
          hmem ((h.mem_key _).mpr ⟨st', hst', heq⟩)
        have hkey : (Spec.bind { source := st.key.1, isType := st.key.2 } st.bound).key =
          st.key := rfl
        rw [hkey, specOf_concat_of_eq, specOf_of_not_mem hnew]

theorem foldl_merge {sts' : List Statement} (h : Gathered sts specs) :
    Gathered (sts ++ sts') (sts'.foldl mergeStatement specs) := by
  induction sts' generalizing sts specs with
  | nil => simpa using h
  | cons st sts' ih => simpa using ih (h.merge st)

/-- There is one spec for every source that occurs. -/
theorem mem_iff (h : Gathered sts specs) :
    s ∈ specs ↔ (∃ st ∈ sts, st.key = s.key) ∧ s = specOf sts s.key := by
  constructor
  · intro hs
    exact ⟨(h.mem_key _).mp (List.mem_map_of_mem hs), h.eq_specOf s hs⟩
  · rintro ⟨hocc, hspec⟩
    obtain ⟨s', hs', hk⟩ := List.mem_map.mp ((h.mem_key _).mpr hocc)
    rwa [hspec, ← hk, ← h.eq_specOf s' hs']

end Gathered

-- ============================================================================
-- Parsing
-- ============================================================================

/-- The statement that a piece is. -/
def Piece.statement? : Piece → Option Statement
  | .statement st => some st
  | .leftOver _ => none

/-- The lines of a piece that belong to no statement. -/
def Piece.leftOverLines : Piece → List (List Char)
  | .statement _ => []
  | .leftOver text => Import.leftOverLines text

/-- The statements of texts. -/
def statementsIn (texts : List (List Char)) : List Statement :=
  (texts.flatMap pieces).filterMap Piece.statement?

/-- The statements and the left over lines do not mix. -/
theorem foldl_mergePiece (ps : List Piece) (p : Parsed) :
    ps.foldl mergePiece p =
      { specs := (ps.filterMap Piece.statement?).foldl mergeStatement p.specs
        unparsed := p.unparsed ++ ps.flatMap Piece.leftOverLines } := by
  induction ps generalizing p with
  | nil => simp
  | cons piece ps ih =>
      rw [List.foldl_cons, ih]
      cases piece <;> simp [mergePiece, List.filterMap_cons, Piece.statement?, Piece.leftOverLines]

theorem unparsed_parse (texts : List (List Char)) :
    (parse texts).unparsed = (texts.flatMap pieces).flatMap Piece.leftOverLines := by
  simp [parse, foldl_mergePiece]

/-- Parsing gathers the statements of all texts. -/
theorem gathered_parse (texts : List (List Char)) :
    Gathered (statementsIn texts) (parse texts).specs := by
  have h : Gathered ([] ++ statementsIn texts) ((statementsIn texts).foldl mergeStatement []) :=
    Gathered.nil.foldl_merge
  have hspecs : (parse texts).specs = (statementsIn texts).foldl mergeStatement [] := by
    rw [parse, foldl_mergePiece, statementsIn]
  rwa [List.nil_append, ← hspecs] at h

end Flowscript.Import

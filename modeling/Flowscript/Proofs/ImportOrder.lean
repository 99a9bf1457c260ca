/-
  Flowscript.Proofs.ImportOrder

  The block of imports does not depend on the order in which they arrive.

  A block is determined by the sources and by what is rendered for each of them
  (`block_congr`), and the rendering of a source by what is bound there
  (`render_congr`).  Names are sorted; only several defaults or several namespaces of
  one source would stand in the order of their arrival.
-/
import Flowscript.Proofs.ImportSpecs

namespace Flowscript.Import

variable {format : ModuleFormat} {q : Char} {s s' : Spec} {L L' : List Spec} {p p' : Parsed}
  {sts sts' : List Statement} {k : List Char × Bool} {texts texts' : List (List Char)}

-- ============================================================================
-- What a block depends on
-- ============================================================================

/-- Sources with the same bindings are rendered alike.  Calls do not tell defaults and
namespaces apart. -/
theorem render_congr (hkey : s.key = s'.key)
    (hcalled : s.defaults ++ s.namespaces = s'.defaults ++ s'.namespaces)
    (hdeclared : (s.isType || format = .esm) = true →
      s.defaults = s'.defaults ∧ s.namespaces = s'.namespaces)
    (hnamed : s.named.Perm s'.named)
    (heffect : (s.sideEffect && !s.bindsNames) = (s'.sideEffect && !s'.bindsNames)) :
    render format q s = render format q s' := by
  obtain ⟨hsource, htype⟩ := Prod.mk.inj hkey
  have hsorted := sort_names_of_perm hnamed
  unfold render
  simp only [← hsource, ← htype, ← hsorted]
  split
  · next h =>
      obtain ⟨hdefaults, hnamespaces⟩ := hdeclared h
      simp only [declarations, ← hdefaults, ← hnamespaces, ← heffect, ← htype]
  · simp only [calls, ← hcalled, ← heffect]

/-- The order of sources, on keys. -/
def keyLe (k k' : List Char × Bool) : Bool :=
  specLe { source := k.1, isType := k.2 } { source := k'.1, isType := k'.2 }

theorem map_key_mergeSort (specs : List Spec) :
    (specs.mergeSort specLe).map Spec.key = (specs.map Spec.key).mergeSort keyLe :=
  List.map_mergeSort fun _ _ _ _ => rfl

/-- The sources of a block stand in one order, whatever the order of their specs was. -/
theorem map_key_mergeSort_congr (h : (L.map Spec.key).Perm (L'.map Spec.key)) :
    (L.mergeSort specLe).map Spec.key = (L'.mergeSort specLe).map Spec.key := by
  rw [map_key_mergeSort, map_key_mergeSort]
  exact mergeSort_eq_of_perm (fun _ _ => specLe_eq _ _)
    (fun _ _ _ _ heq => Spec.key_eq_of_rank_eq heq) h

theorem flatMap_render_group_congr (hkeys : L.map Spec.key = L'.map Spec.key)
    (hrender : ∀ s ∈ L, ∀ s' ∈ L', s.key = s'.key → render format q s = render format q s')
    (n : Nat) :
    (L.filter (·.group = n)).flatMap (render format q) =
      (L'.filter (·.group = n)).flatMap (render format q) := by
  induction L generalizing L' with
  | nil => rw [List.map_eq_nil_iff.mp hkeys.symm]
  | cons s L ih =>
      cases L' with
      | nil => simp at hkeys
      | cons s' L' =>
          obtain ⟨hkey, hrest⟩ := List.cons.inj hkeys
          have hgroup := Spec.group_congr hkey
          have hhead := hrender s List.mem_cons_self s' List.mem_cons_self hkey
          have htail := ih hrest fun s hs s' hs' =>
            hrender s (List.mem_cons_of_mem _ hs) s' (List.mem_cons_of_mem _ hs')
          simp only [List.filter_cons, hgroup]
          split
          · rw [List.flatMap_cons, List.flatMap_cons, hhead, htail]
          · exact htail

/-- A block depends on the sources, on what is rendered for each of them, and on the lines
that are no imports. -/
theorem block_congr (hkeys : (p.specs.map Spec.key).Perm (p'.specs.map Spec.key))
    (hrender : ∀ s ∈ p.specs, ∀ s' ∈ p'.specs, s.key = s'.key →
      render format q s = render format q s')
    (hunparsed : p.unparsed = p'.unparsed) : block format q p = block format q p' := by
  have hgroup (n : Nat) :
      ((p.specs.mergeSort specLe).filter (·.group = n)).flatMap (render format q) =
        ((p'.specs.mergeSort specLe).filter (·.group = n)).flatMap (render format q) := by
    refine flatMap_render_group_congr (map_key_mergeSort_congr hkeys) (fun s hs s' hs' => ?_) n
    exact hrender s (List.mem_mergeSort.mp hs) s' (List.mem_mergeSort.mp hs')
  simp only [block, hgroup, hunparsed]

-- ============================================================================
-- Another order of arrival
-- ============================================================================

namespace Gathered

variable {specs specs' : List Spec}

/-- Statements of the same sources are gathered under the same keys. -/
theorem keys_perm (h : Gathered sts specs) (h' : Gathered sts' specs')
    (hkeys : ∀ k, (∃ st ∈ sts, st.key = k) ↔ ∃ st ∈ sts', st.key = k) :
    (specs.map Spec.key).Perm (specs'.map Spec.key) :=
  (List.perm_ext_iff_of_nodup h.nodup h'.nodup).mpr fun k => by
    rw [h.mem_key, h'.mem_key, hkeys]

end Gathered

/-- A list with at most one entry has no other order. -/
theorem eq_of_perm_of_length_le_one {xs ys : List (List Char)} (h : xs.Perm ys)
    (hlen : xs.length ≤ 1) : xs = ys := by
  match xs, hlen with
  | [], _ => exact (List.nil_perm.mp h).symm
  | [x], _ => exact (List.perm_singleton.mp h.symm).symm

/-- The same statements are rendered alike for a source that has at most one default and at most
one namespace. -/
theorem render_specOf_congr (hsame : ∀ st, st ∈ sts ↔ st ∈ sts')
    (hsingle : (specOf sts k).defaults.length ≤ 1 ∧ (specOf sts k).namespaces.length ≤ 1) :
    render format q (specOf sts k) = render format q (specOf sts' k) := by
  have hdefaults : (specOf sts k).defaults = (specOf sts' k).defaults := by
    refine eq_of_perm_of_length_le_one ?_ hsingle.1
    refine (List.perm_ext_iff_of_nodup nodup_defaults_specOf nodup_defaults_specOf).mpr fun x => ?_
    simp only [mem_defaults_specOf, hsame]
  have hnamespaces : (specOf sts k).namespaces = (specOf sts' k).namespaces := by
    refine eq_of_perm_of_length_le_one ?_ hsingle.2
    refine (List.perm_ext_iff_of_nodup nodup_namespaces_specOf nodup_namespaces_specOf).mpr
      fun x => ?_
    simp only [mem_namespaces_specOf, hsame]
  have hnamed : (specOf sts k).named.Perm (specOf sts' k).named := by
    refine (List.perm_ext_iff_of_nodup nodup_named_specOf nodup_named_specOf).mpr fun x => ?_
    simp only [mem_named_specOf, hsame]
  have heffect : (specOf sts k).sideEffect = (specOf sts' k).sideEffect := by
    rw [Bool.eq_iff_iff, sideEffect_specOf, sideEffect_specOf]
    simp only [hsame]
  have hbinds : (specOf sts k).bindsNames = (specOf sts' k).bindsNames := by
    simp only [Spec.bindsNames, hdefaults, hnamespaces, hnamed.isEmpty_eq]
  exact render_congr rfl (by rw [hdefaults, hnamespaces]) (fun _ => ⟨hdefaults, hnamespaces⟩) hnamed
    (by rw [heffect, hbinds])

/-- Texts with the same statements have the same block. -/
theorem blockOf_congr (hsame : ∀ st, st ∈ statementsIn texts ↔ st ∈ statementsIn texts')
    (hunparsed : (parse texts).unparsed = (parse texts').unparsed)
    (hsingle : ∀ s ∈ (parse texts).specs, s.defaults.length ≤ 1 ∧ s.namespaces.length ≤ 1) :
    blockOf format q texts = blockOf format q texts' := by
  have h := gathered_parse texts
  have h' := gathered_parse texts'
  refine block_congr (h.keys_perm h' fun k => by simp only [hsame]) (fun s hs s' hs' hkey => ?_)
    hunparsed
  have hs := h.eq_specOf s hs
  rw [hs, h'.eq_specOf s' hs', ← hkey]
  exact render_specOf_congr hsame (hs ▸ hsingle s ‹_›)

theorem statementsIn_perm (h : texts.Perm texts') :
    (statementsIn texts).Perm (statementsIn texts') :=
  (h.flatMap_right pieces).filterMap Piece.statement?

/-- Where everything is an import and each source has at most one default and at most one
namespace, the order of the texts does not matter. -/
theorem blockOf_eq_of_perm (format : ModuleFormat) (q : Char) (hperm : texts.Perm texts')
    (hunparsed : (parse texts).unparsed = [])
    (hsingle : ∀ s ∈ (parse texts).specs, s.defaults.length ≤ 1 ∧ s.namespaces.length ≤ 1) :
    blockOf format q texts = blockOf format q texts' := by
  refine blockOf_congr (fun st => (statementsIn_perm hperm).mem_iff) ?_ hsingle
  -- a permutation of no lines is no lines
  have hlines := (hperm.flatMap_right pieces).flatMap_right Piece.leftOverLines
  rw [← unparsed_parse, ← unparsed_parse, hunparsed] at hlines
  rw [hunparsed, List.nil_perm.mp hlines]

/-- Two statements of one source and a call, which arrive the other way round. -/
theorem blockOf_swapped :
    blockOf .cjs '"' ["const b = require('n'); import 'm';".toList,
        "import a, \x7b c as d \x7d from 'm';".toList] =
      blockOf .cjs '"' ["import a, \x7b c as d \x7d from 'm';".toList,
        "const b = require('n'); import 'm';".toList] :=
  blockOf_eq_of_perm .cjs '"' (List.Perm.swap _ _ []) (by decide) (by decide)

end Flowscript.Import

/-
  Flowscript.Proofs.StrategyIndependence

  What the choice of a strategy does to a program.

  Two strategies give the same nodes in another order, and the fragments of a node do not
  depend on its place.  So the groups of two drafts are permutations of one another
  (`contents_perm`), and what is collected from them is sorted or a set: the packages
  (`dependencies_congr`), because exports need none, and the import block
  (`importBlock_congr`), because all imports bind plain names.  Of the files, only the main
  module and the description for readers see more than that.
-/
import Flowscript.Proofs.Conversion
import Flowscript.Proofs.Groups
import Flowscript.Proofs.ChainInputs
import Flowscript.Proofs.PlainImports

namespace Flowscript

variable {r : Registry} {s s' : Strategy} {g : Graph} {c : Context} {d d' : Draft}

-- ============================================================================
-- Groups without their numbers
-- ============================================================================

namespace Assembly

variable {β : Type} {k : Fragment → β} {t : FragmentKind} {preamble fs : List Fragment}
  {nodes nodes' : List (List Fragment)} {a a' : Assembled} {f : Fragment}

theorem filter_numberFrom (hnumber : ∀ f order, k { f with order := order } = k f) (start : Int)
    (fs : List Fragment) :
    ((numberFrom start fs).filter (·.type = t)).map k = (fs.filter (·.type = t)).map k := by
  induction fs generalizing start with
  | nil => rfl
  | cons f fs ih =>
      simp only [numberFrom, List.filter_cons]
      split
      · simp only [List.map_cons, hnumber, ih]
      · exact ih (start + 1)

theorem filter_numbered (hnumber : ∀ f order, k { f with order := order } = k f) (slot : Int)
    (nodes : List (List Fragment)) :
    ((numbered slot nodes).filter (·.type = t)).map k =
      (nodes.flatten.filter (·.type = t)).map k := by
  induction nodes generalizing slot with
  | nil => rfl
  | cons fs rest ih =>
      simp only [numbered, List.flatten_cons, List.filter_append, List.map_append, ih,
        filter_numberFrom hnumber]

/-- Exports lose the texts that were seen, and then all but the first of each text. -/
theorem contents_dropRepeatedExports (seen : List String) (fs : List Fragment) :
    ((dropRepeatedExports seen fs).filter (·.type = .exports)).map (·.content) =
      Text.distinct (((fs.filter (·.type = .exports)).map (·.content)).filter (· ∉ seen)) := by
  induction fs generalizing seen with
  | nil => rfl
  | cons f fs ih =>
      rw [dropRepeatedExports]
      by_cases hexport : f.type = .exports
      · by_cases hseen : f.content ∈ seen
        · simp [hexport, hseen, ih]
        · rw [if_pos hexport, if_neg hseen, List.filter_cons_of_pos (by simpa using hexport),
            List.filter_cons_of_pos (by simpa using hexport), List.map_cons, List.map_cons, ih,
            Text.distinct_fresh_cons hseen]
      · simp [hexport, ih]

/-- A group is the fragments of its type, slot after slot, apart from their numbers. -/
theorem map_group (h : assemble nodes preamble = .ok a) (ht : t ≠ .exports)
    (hnumber : ∀ f order, k { f with order := order } = k f) :
    (a.group t).map k = ((preamble :: nodes).flatten.filter (·.type = t)).map k := by
  rw [group_of_assemble h, filter_dropRepeatedExports ht, filter_numbered hnumber]

theorem contents_exports (h : assemble nodes preamble = .ok a) :
    a.contents .exports =
      Text.distinct (((preamble :: nodes).flatten.filter (·.type = .exports)).map (·.content)) := by
  have hseen (xs : List String) : xs.filter (· ∉ []) = xs := by simp
  rw [Assembled.contents, group_of_assemble h, contents_dropRepeatedExports, hseen,
    filter_numbered fun _ _ => rfl]

/-- Slots in another order give permutations of the same contents. -/
theorem contents_perm (h : assemble nodes preamble = .ok a) (h' : assemble nodes' preamble = .ok a')
    (hperm : nodes.Perm nodes') (t : FragmentKind) : (a.contents t).Perm (a'.contents t) := by
  have hfragments : ((preamble :: nodes).flatten.filter (·.type = t)).Perm
      ((preamble :: nodes').flatten.filter (·.type = t)) := (hperm.cons preamble).flatten.filter _
  by_cases ht : t = .exports
  · subst ht
    rw [contents_exports h, contents_exports h']
    refine (List.perm_ext_iff_of_nodup (Text.nodup_distinct _) (Text.nodup_distinct _)).mpr
      fun x => ?_
    rw [Text.mem_distinct, Text.mem_distinct, (hfragments.map _).mem_iff]
  · rw [Assembled.contents, Assembled.contents, map_group h ht fun _ _ => rfl,
      map_group h' ht fun _ _ => rfl]
    exact hfragments.map _

/-- Exports that are left out take no package with them, if no export needs one. -/
theorem mem_dependencies (h : assemble nodes preamble = .ok a)
    (hexports : ∀ f ∈ (preamble :: nodes).flatten, f.type = .exports → f.dependencies = [])
    {package : String} :
    package ∈ a.dependencies ↔ ∃ f ∈ (preamble :: nodes).flatten, package ∈ f.dependencies := by
  have hsorted : package ∈ a.dependencies ↔ ∃ t, ∃ f ∈ a.group t, package ∈ f.dependencies := by
    simp only [Assembled.dependencies, Text.sort, List.mem_mergeSort, Text.mem_distinct,
      Assembled.all, List.mem_flatMap, FragmentKind.mem_all, true_and]
    constructor
    · rintro ⟨f, ⟨t, hf⟩, hpackage⟩
      exact ⟨t, f, hf, hpackage⟩
    · rintro ⟨t, f, hf, hpackage⟩
      exact ⟨f, ⟨t, hf⟩, hpackage⟩
  rw [hsorted]
  constructor
  · rintro ⟨t, f, hf, hpackage⟩
    obtain ⟨e, he, order, rfl⟩ := exists_of_mem_group h hf
    exact ⟨e, he, hpackage⟩
  · rintro ⟨e, he, hpackage⟩
    have hkind : e.type ≠ .exports := by
      intro hexport
      rw [hexports e he hexport] at hpackage
      cases hpackage
    have hgroup : e.dependencies ∈ (a.group e.type).map (·.dependencies) := by
      rw [map_group h hkind fun _ _ => rfl]
      exact List.mem_map_of_mem (List.mem_filter.mpr ⟨he, by simp⟩)
    obtain ⟨f, hf, hsame⟩ := List.mem_map.mp hgroup
    exact ⟨e.type, f, hf, hsame ▸ hpackage⟩

end Assembly

-- ============================================================================
-- Drafts of two strategies
-- ============================================================================

/-- An order is the first nodes of its ids. -/
theorem IsOrder.eq_firstNodes {ns : List Node} (h : IsOrder g ns) :
    ns = g.firstNodes (ns.map (·.id)) := by
  have hfirst := h.first
  clear h
  induction ns with
  | nil => rfl
  | cons n ns ih =>
      have hn := hfirst n List.mem_cons_self
      have hrest := ih fun m hm => hfirst m (List.mem_cons_of_mem _ hm)
      rw [Graph.firstNodes, List.map_cons, List.filterMap_cons_some hn]
      exact congrArg (n :: ·) hrest

namespace Drafted

theorem ordered_perm (h : Drafted r s g c d) (h' : Drafted r s' g c d') :
    d.ordered.Perm d'.ordered := by
  rw [h.isOrder.eq_firstNodes, h'.isOrder.eq_firstNodes]
  exact (h.isOrder.perm.trans h'.isOrder.perm.symm).filterMap _

/-- The fragments of a node are those of its outcome, whatever its place. -/
theorem slots_perm (h : Drafted r s g c d) (h' : Drafted r s' g c d') :
    (d.slots g).Perm (d'.slots g) := by
  have hperm := h.ordered_perm h'
  have hsame : ∀ n ∈ d'.ordered, d.outcomes.fragmentsOf n.id = d'.outcomes.fragmentsOf n.id := by
    intro n hn
    obtain ⟨o, ho, hfragments⟩ := h.exists_outcome (hperm.mem_iff.mpr hn)
    obtain ⟨o', ho', hfragments'⟩ := h'.exists_outcome hn
    rw [ho] at ho'
    cases ho'
    rw [hfragments, hfragments']
  rw [h.slots_eq, h'.slots_eq, ← List.map_congr_left hsame]
  exact hperm.map _

theorem contents_perm (h : Drafted r s g c d) (h' : Drafted r s' g c d') (t : FragmentKind) :
    (d.assembled.contents t).Perm (d'.assembled.contents t) :=
  Assembly.contents_perm h.assembled h'.assembled (h.slots_perm h') t

section Standard

variable (h : Drafted Registry.standard s g c d) (h' : Drafted Registry.standard s' g c d')

include h

include h'

theorem dependencies_congr : Dependency.all d.assembled c = Dependency.all d'.assembled c := by
  have hfragments (f : Fragment) : f ∈ (Tracing.fragments c :: d.slots g).flatten ↔
      f ∈ (Tracing.fragments c :: d'.slots g).flatten :=
    ((h.slots_perm h').cons _).flatten.mem_iff
  have hsame (package : String) :
      package ∈ d.assembled.dependencies ↔ package ∈ d'.assembled.dependencies := by
    rw [Assembly.mem_dependencies h.assembled fun f hf => (h.isPlain f hf).exports,
      Assembly.mem_dependencies h'.assembled fun f hf => (h'.isPlain f hf).exports]
    simp only [hfragments]
  unfold Dependency.all
  refine congrArg _ (Text.sort_distinct_congr fun package => ?_)
  simp only [List.mem_append, hsame]

theorem importBlock_congr :
    ProjectFile.importBlock c d.assembled = ProjectFile.importBlock c d'.assembled := by
  have hperm := (h.contents_perm h' .imports).map String.toList
  rw [ProjectFile.importBlock_eq, ProjectFile.importBlock_eq,
    Import.blockOf_congr_of_namesOnly h.namesOnly_imports (hperm.cons _)]
  rfl

end Standard

end Drafted

-- ============================================================================
-- Files
-- ============================================================================

/-- Tests ask only whether anything is executed. -/
theorem ProjectFile.test_congr {a a' : Assembled}
    (h : (a.contents .execution).Perm (a'.contents .execution)) (g : Graph) (c : Context) :
    test g c a = test g c a' := by
  simp only [test, testSource, h.isEmpty_eq]

/-- Two plans of one graph differ in the main module and in the description for readers. -/
theorem Project.lookup_builds_congr {a a' : Assembled} {path : String}
    (htest : ProjectFile.test g c a = ProjectFile.test g c a')
    (hmain : path ≠ "src/index.ts") (hreadme : path ≠ "README.md")
    (dependencies : List (String × String)) (warnings warnings' : List String) :
    (builds g c a dependencies warnings).lookup path =
      (builds g c a' dependencies warnings').lookup path := by
  have hmain : (path == "src/index.ts") = false := by simpa using hmain
  have hreadme : (path == "README.md") = false := by simpa using hreadme
  simp only [builds, htest, List.lookup_append, List.lookup_cons, hmain]
  cases c.includeDocs <;> simp [List.lookup_cons, hreadme]

/-- What two strategies have in common: the packages, all files but the main module and the
description for readers, the imports of the main module, and the contents of each type but for
their order. -/
structure SameButForOrder (c : Context) (d d' : Draft) (p p' : Project) : Prop where
  dependencies : p.dependencies = p'.dependencies
  files : ∀ path, path ≠ "src/index.ts" → path ≠ "README.md" → p.file? path = p'.file? path
  imports : ProjectFile.importBlock c d.assembled = ProjectFile.importBlock c d'.assembled
  contents : ∀ t, (d.assembled.contents t).Perm (d'.assembled.contents t)

theorem sameButForOrder_of_convert {p p' : Project} (hd : Registry.standard.draft s g c = .ok d)
    (hd' : Registry.standard.draft s' g c = .ok d') (hp : Registry.standard.convert s g c = .ok p)
    (hp' : Registry.standard.convert s' g c = .ok p') : SameButForOrder c d d' p p' := by
  obtain ⟨d₀, hd₀, hdependencies, hfile⟩ := exists_builds_of_convert hp
  obtain ⟨d₀', hd₀', hdependencies', hfile'⟩ := exists_builds_of_convert hp'
  obtain rfl := Except.ok.inj (hd.symm.trans hd₀)
  obtain rfl := Except.ok.inj (hd'.symm.trans hd₀')
  have h := draft_eq_ok_iff.mp hd
  have h' := draft_eq_ok_iff.mp hd'
  have hsame : p.dependencies = p'.dependencies := by
    rw [hdependencies, hdependencies', h.dependencies_congr h']
  refine ⟨hsame, fun path hmain hreadme => ?_, h.importBlock_congr h', h.contents_perm h'⟩
  have htest := ProjectFile.test_congr (h.contents_perm h' .execution) g.bound c
  rw [hfile, hfile', ← hsame, Project.lookup_builds_congr htest hmain hreadme]

/-- With the built-in converters, a graph whose parameters are named by texts has no program under
either of two strategies, for the same reason, or it has one under both of them, and the programs
differ in the order of their code only. -/
theorem strategies_permute_code (s s' : Strategy) (g : Graph) (c : Context) (hnames : g.TextNames) :
    (∃ e, g.Obstacle Registry.standard e ∧ Registry.standard.convert s g c = .error e ∧
      Registry.standard.convert s' g c = .error e) ∨
    ∃ d d' p p', Registry.standard.draft s g c = .ok d ∧ Registry.standard.draft s' g c = .ok d' ∧
      Registry.standard.convert s g c = .ok p ∧ Registry.standard.convert s' g c = .ok p' ∧
      SameButForOrder c d d' p p' := by
  have hfits := Registry.fits_standard
  by_cases hobstacle : ∃ e, g.Obstacle Registry.standard e
  · obtain ⟨e, he⟩ := hobstacle
    exact .inl ⟨e, he, convert_eq_error_of_obstacle hfits hnames s c he,
      convert_eq_error_of_obstacle hfits hnames s' c he⟩
  · push Not at hobstacle
    obtain ⟨p, hp, -⟩ := exists_convert_of_no_obstacle hfits hnames s c hobstacle
    obtain ⟨p', hp', -⟩ := exists_convert_of_no_obstacle hfits hnames s' c hobstacle
    obtain ⟨d, hd, -⟩ := exists_draft_of_convert hp
    obtain ⟨d', hd', -⟩ := exists_draft_of_convert hp'
    exact .inr ⟨d, d', p, p', hd, hd', hp, hp', sameButForOrder_of_convert hd hd' hp hp'⟩

/-- Three chains, one of which waits for another. -/
def Graph.waitingChains : Graph :=
  { nodes := [
      { id := "waiting", type := "conversationChain" },
      { id := "other", type := "conversationChain" },
      { id := "first", type := "conversationChain" }, { id := "model", type := "openAI" }]
    connections := [
      { id := "e1", source := "model", target := "first", targetHandle := "model" },
      { id := "e2", source := "model", target := "other", targetHandle := "model" },
      { id := "e3", source := "first", target := "waiting", targetHandle := "model" }] }

/-- The two strategies order these chains differently. -/
theorem waitingChains_permuted :
    ∃ d d' p p', Registry.standard.convert .depthFirst Graph.waitingChains {} = .ok p ∧
      Registry.standard.convert .kahn Graph.waitingChains {} = .ok p' ∧
      d.ordered.map (·.id) = ["model", "first", "waiting", "other"] ∧
      d'.ordered.map (·.id) = ["model", "first", "other", "waiting"] ∧
      SameButForOrder {} d d' p p' := by
  have hnames : Graph.waitingChains.TextNames := by
    intro n hn p hp
    simp only [Graph.waitingChains, List.mem_cons, List.not_mem_nil, or_false] at hn
    rcases hn with rfl | rfl | rfl | rfl <;> cases hp
  have htyped : Graph.waitingChains.bound.untyped? = none := rfl
  rcases strategies_permute_code .depthFirst .kahn Graph.waitingChains {} hnames with
    ⟨e, ⟨hname, -⟩ | ⟨-, hvalid, -⟩ | ⟨-, -, hendless, -⟩, -⟩ |
      ⟨d, d', p, p', hd, hd', hp, hp', hsame⟩
  · cases hname
  · cases hvalid
  · rw [htyped] at hendless
    cases hendless
  · have horder : ∀ (s : Strategy) (ids : List String) (d : Draft),
        (s.order Graph.waitingChains).toOption.map (·.map (·.id)) = some ids →
        Registry.standard.draft s Graph.waitingChains {} = .ok d → d.ordered.map (·.id) = ids := by
      intro s ids d hids hd
      rw [(draft_eq_ok_iff.mp hd).ordered] at hids
      exact Option.some.inj hids
    exact ⟨d, d', p, p', hp, hp', horder .depthFirst _ d rfl hd, horder .kahn _ d' rfl hd', hsame⟩

end Flowscript

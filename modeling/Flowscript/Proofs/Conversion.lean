/-
  Flowscript.Proofs.Conversion

  When a graph has a program.

  A graph that passes its checks has an execution order, its nodes have outcomes that fit
  into their slots, and so it has a draft.  From there on only a value that never ends
  keeps it from having a program.
-/
import Flowscript.Proofs.Draft
import Flowscript.Proofs.ProjectFiles

namespace Flowscript

variable {r : Registry} {s : Strategy} {g : Graph} {c : Context} {d : Draft} {e : Fault}

-- ============================================================================
-- When there is a draft
-- ============================================================================

theorem draft_eq_refused {refusal : Refusal} (hname : g.hasLongName = false)
    (hshort : (r.check g).hasLongParameter = false) (h : (r.check g).refusal? = some refusal)
    (s : Strategy) (c : Context) : r.draft s g c = .error (.refused refusal) := by
  rw [draft_eq_stages hname hshort, h]
  rfl

/-- A valid graph has a draft: its order comes from the absence of cycles, and no node of it
overflows its slot. -/
theorem exists_draft_of_textsLacking (hfits : r.Fits) (hlacking : g.TextsLacking r)
    (hname : g.hasLongName = false) (hshort : (r.check g).hasLongParameter = false)
    (hvalid : (r.check g).refusal? = none) (s : Strategy) (c : Context) :
    ∃ d, r.draft s g c = .ok d := by
  have hacyclic : g.Acyclic :=
    (acyclic_iff_cycles_eq_nil (joins_of_valid hvalid)).mpr (cycles_eq_nil_of_valid hvalid)
  obtain ⟨ordered, hordered⟩ := exists_order_of_acyclic hacyclic s
  have horder := isOrder_of_order hordered
  have hempty : ∀ id, (({} : Outcomes).fragmentsOf id).length < slotSize := by
    intro id
    show 0 < slotSize
    decide
  have hns : ∀ n ∈ g.bound.inOrder ordered, ∃ o,
      r.outcome (some (r.check g)) c n = .ok o ∧ o.fragments.length < slotSize := by
    intro n hn
    rw [horder.inOrder_bound] at hn
    obtain ⟨m, hm, rfl⟩ := List.mem_map.mp hn
    have hmem := (Graph.node?_eq_some (horder.first m hm)).1
    exact Registry.exists_outcome_fits hfits hlacking (nodup_nodeIds_of_valid hvalid) c hmem
  obtain ⟨outcomes, houtcomes, hlen⟩ := Registry.exists_outcomesAfter_fits c hns hempty
  let slots := (g.bound.inOrder ordered).map fun n => outcomes.fragmentsOf n.id
  have hslots : ∀ fs ∈ Tracing.fragments c :: slots, fs.length < slotSize := by
    intro fs hfs
    rcases List.mem_cons.mp hfs with rfl | hfs
    · unfold Tracing.fragments
      split <;> simp [slotSize]
    · obtain ⟨n, -, rfl⟩ := List.mem_map.mp hfs
      exact hlen n.id
  have hassembled := Assembly.assemble_eq_ok_iff.mpr ⟨hslots, rfl⟩
  exact ⟨⟨r.check g, ordered, outcomes, _⟩,
    draft_eq_ok_iff.mpr ⟨hname, hshort, hvalid, rfl, hordered, houtcomes, hassembled⟩⟩

theorem exists_draft (hfits : r.Fits) (hnames : g.TextNames) (hname : g.hasLongName = false)
    (hvalid : (r.check g).refusal? = none) (s : Strategy) (c : Context) :
    ∃ d, r.draft s g c = .ok d :=
  exists_draft_of_textsLacking hfits (hnames.textsLacking r) hname (hnames.hasLongParameter r)
    hvalid s c

-- ============================================================================
-- When there is a program
-- ============================================================================

theorem convert_of_draft_error (h : r.draft s g c = .error e) : r.convert s g c = .error e := by
  unfold Registry.convert
  rw [h]
  rfl

theorem convert_eq_endless (hd : r.draft s g c = .ok d)
    (h : g.bound.untyped? = some .endless) : r.convert s g c = .error .endless := by
  unfold Registry.convert
  rw [hd]
  simp only [bind, Except.bind, Project.build_eq_endless h]

/-- A draft without endless values gives a program of the planned files. -/
theorem exists_convert (hd : r.draft s g c = .ok d)
    (h : g.bound.untyped? ≠ some .endless) :
    ∃ p, r.convert s g c = .ok p ∧ p.Covers (Project.planned c) := by
  obtain ⟨p, hp, hcovers⟩ := Project.exists_build h c d.assembled
    (d.report.warnings ++ d.outcomes.warnings) d.outcomes.converted d.outcomes.unsupported
  unfold Registry.convert
  rw [hd]
  simp only [bind, Except.bind, hp]
  exact ⟨_, rfl, hcovers⟩

/-- A program comes from a draft without endless values, and holds the files that were built and
an error for each of the others. -/
theorem exists_draft_of_convert {p : Project} (h : r.convert s g c = .ok p) :
    ∃ d, r.draft s g c = .ok d ∧ g.bound.untyped? ≠ some .endless ∧
      p.dependencies = Dependency.all d.assembled c ∧
      p.files = Project.built (Project.builds g.bound c d.assembled (Dependency.all d.assembled c)
        (d.report.warnings ++ d.outcomes.warnings)) ∧
      p.errors = Project.failures (Project.builds g.bound c d.assembled
        (Dependency.all d.assembled c) (d.report.warnings ++ d.outcomes.warnings)) := by
  obtain ⟨d, hd, hbuild⟩ := bind_eq_ok_iff.mp h
  obtain ⟨q, hq, hp⟩ := bind_eq_ok_iff.mp hbuild
  cases hp
  obtain ⟨hdependencies, hfiles, herrors⟩ := Project.build_eq_ok hq
  refine ⟨d, hd, fun hendless => ?_, hdependencies, hfiles, herrors⟩
  rw [Project.build_eq_endless hendless] at hq
  cases hq

/-- A file of a program is what the build of its path gives. -/
theorem exists_builds_of_convert {p : Project} (h : r.convert s g c = .ok p) :
    ∃ d, r.draft s g c = .ok d ∧ p.dependencies = Dependency.all d.assembled c ∧
      ∀ path, p.file? path = ((Project.builds g.bound c d.assembled p.dependencies
        (d.report.warnings ++ d.outcomes.warnings)).lookup path).bind Except.toOption := by
  obtain ⟨d, hd, hends, hdependencies, hfiles, -⟩ := exists_draft_of_convert h
  refine ⟨d, hd, hdependencies, fun path => ?_⟩
  have hnodup := Project.nodup_planned c
  rw [← Project.map_fst_builds g.bound c d.assembled p.dependencies
    (d.report.warnings ++ d.outcomes.warnings)] at hnodup
  rw [Project.file?, hfiles, ← hdependencies]
  exact Project.find?_built hnodup (Project.contained_of_mem_builds hends _ _) path

/-- A program has an error for each file whose build failed. -/
theorem mem_errors_of_convert {p : Project} {path : String} (h : r.convert s g c = .ok p)
    (hd : r.draft s g c = .ok d)
    (hpath : (path, .error e) ∈ Project.builds g.bound c d.assembled (Dependency.all d.assembled c)
      (d.report.warnings ++ d.outcomes.warnings)) :
    "Failed to generate " ++ path ++ ": " ++ e.message ∈ p.errors := by
  obtain ⟨d', hd', -, -, -, herrors⟩ := exists_draft_of_convert h
  cases hd.symm.trans hd'
  rw [herrors]
  exact Project.mem_failures hpath

/-- Why a graph is left without a program: its name has no text, it has structural errors, which
are folded into one refusal, or its objects have a value that never ends, and that is the first
thing that keeps them from being typed. -/
def Graph.Obstacle (r : Registry) (g : Graph) (e : Fault) : Prop :=
  (g.hasLongName = true ∧ e = .malformed) ∨
  (g.hasLongName = false ∧ (r.check g).isValid = false ∧
    (r.check g).refusal?.map Fault.refused = some e) ∨
  (g.hasLongName = false ∧ (r.check g).isValid = true ∧
    g.bound.untyped? = some .endless ∧ e = .endless)

/-- A valid graph whose values end has no obstacle, if its name has a text. -/
theorem Graph.no_obstacle (hname : g.hasLongName = false) (hvalid : (r.check g).isValid = true)
    (hends : g.bound.untyped? ≠ some .endless) (e : Fault) : ¬ g.Obstacle r e := by
  rintro (⟨hlong, -⟩ | ⟨-, hinvalid, -⟩ | ⟨-, -, hendless, -⟩)
  · rw [hname] at hlong
    cases hlong
  · rw [hvalid] at hinvalid
    cases hinvalid
  · exact hends hendless

theorem convert_eq_error_of_obstacle (hfits : r.Fits) (hnames : g.TextNames) (s : Strategy)
    (c : Context) (h : g.Obstacle r e) : r.convert s g c = .error e := by
  rcases h with ⟨hname, rfl⟩ | ⟨hname, -, he⟩ | ⟨hname, hvalid, hendless, rfl⟩
  · exact convert_of_draft_error (draft_eq_malformed (.inl hname) s c)
  · obtain ⟨refusal, hrefusal, rfl⟩ := Option.map_eq_some_iff.mp he
    exact convert_of_draft_error (draft_eq_refused hname (hnames.hasLongParameter r) hrefusal s c)
  · have hnone := Report.refusal?_eq_none_of_isValid hvalid
    obtain ⟨d, hd⟩ := exists_draft hfits hnames hname hnone s c
    exact convert_eq_endless hd hendless

theorem exists_convert_of_no_obstacle (hfits : r.Fits) (hnames : g.TextNames) (s : Strategy)
    (c : Context) (h : ∀ e, ¬ g.Obstacle r e) :
    ∃ p, r.convert s g c = .ok p ∧ p.Covers (Project.planned c) := by
  have hname : g.hasLongName = false := by
    by_contra hlong
    exact h .malformed (.inl ⟨by simpa using hlong, rfl⟩)
  have hvalid : (r.check g).isValid = true := by
    by_contra hinvalid
    rw [Bool.not_eq_true] at hinvalid
    obtain ⟨refusal, hrefusal⟩ := Report.exists_refusal? hinvalid
    exact h (.refused refusal) (.inr (.inl ⟨hname, hinvalid, by rw [hrefusal]; rfl⟩))
  have hends : g.bound.untyped? ≠ some .endless := fun hendless =>
    h .endless (.inr (.inr ⟨hname, hvalid, hendless, rfl⟩))
  have hnone := Report.refusal?_eq_none_of_isValid hvalid
  obtain ⟨d, hd⟩ := exists_draft hfits hnames hname hnone s c
  exact exists_convert hd hends

theorem obstacle_of_convert_eq_error (hfits : r.Fits) (hnames : g.TextNames)
    (h : r.convert s g c = .error e) : g.Obstacle r e := by
  by_cases hobstacle : ∃ e, g.Obstacle r e
  · obtain ⟨e', he'⟩ := hobstacle
    rw [convert_eq_error_of_obstacle hfits hnames s c he'] at h
    cases h
    exact he'
  · push Not at hobstacle
    obtain ⟨p, hp, -⟩ := exists_convert_of_no_obstacle hfits hnames s c hobstacle
    rw [hp] at h
    cases h

/-- With the built-in converters, a graph whose parameters are named by texts has a program
unless there is an obstacle, whatever the strategy and the options; a program has each planned
file once, among its files or in one error. -/
theorem program_unless_obstacle (s : Strategy) (g : Graph) (c : Context) (hnames : g.TextNames) :
    (∀ e, Registry.standard.convert s g c = .error e ↔ g.Obstacle Registry.standard e) ∧
      ∀ p, Registry.standard.convert s g c = .ok p → p.Covers (Project.planned c) := by
  have hfits := Registry.fits_standard
  by_cases hobstacle : ∃ e, g.Obstacle Registry.standard e
  · obtain ⟨e, he⟩ := hobstacle
    have hconvert := convert_eq_error_of_obstacle hfits hnames s c he
    refine ⟨fun e' => ⟨fun h => ?_, convert_eq_error_of_obstacle hfits hnames s c⟩, fun p h => ?_⟩
    · rw [hconvert] at h
      cases h
      exact he
    · rw [hconvert] at h
      cases h
  · push Not at hobstacle
    obtain ⟨p, hp, hcovers⟩ := exists_convert_of_no_obstacle hfits hnames s c hobstacle
    refine ⟨fun e => ⟨fun h => ?_, fun h => absurd h (hobstacle e)⟩, fun p' h => ?_⟩
    · rw [hp] at h
      cases h
    · rw [hp] at h
      cases h
      exact hcovers

/-- A tool with an object whose only entry is a list that lists itself. -/
def Graph.selfListed : Graph :=
  { nodes := [
      { id := "a", type := "calculator"
        parameters := [(.str "p",
          { name := .str "p", value := .object [(.str "x", .knot 0 (.list [.again 0]))] })] }] }

/-- A valid graph without a program, because a list never ends, and one with a program. -/
theorem selfListed_without_program :
    (Registry.standard.check Graph.selfListed).isValid = true ∧
      (∀ s c, Registry.standard.convert s Graph.selfListed c = .error .endless) ∧
      ∀ s c, ∃ p, Registry.standard.convert s Graph.conversation c = .ok p ∧
        p.Covers (Project.planned c) := by
  refine ⟨rfl, fun s c => ?_, fun s c => ?_⟩
  · have hnames : Graph.selfListed.TextNames := by
      intro n hn p hp
      cases List.mem_singleton.mp hn
      cases List.mem_singleton.mp hp
      exact ⟨"p", rfl⟩
    have hobstacle : Graph.selfListed.Obstacle Registry.standard .endless :=
      .inr (.inr ⟨rfl, rfl, rfl, rfl⟩)
    exact ((program_unless_obstacle s _ c hnames).1 .endless).mpr hobstacle
  · have hnames : Graph.conversation.TextNames := by
      intro n hn p hp
      rcases List.mem_cons.mp hn with rfl | hn
      · cases hp
      · cases List.mem_singleton.mp hn
        cases hp
    have htyped : Graph.conversation.bound.untyped? = none := rfl
    have hprogram := program_unless_obstacle s _ c hnames
    cases h : Registry.standard.convert s Graph.conversation c with
    | ok p => exact ⟨p, rfl, hprogram.2 p h⟩
    | error e =>
        rcases (hprogram.1 e).mp h with ⟨hname, -⟩ | ⟨-, hvalid, -⟩ | ⟨-, -, hendless, -⟩
        · cases hname
        · cases hvalid
        · rw [htyped] at hendless
          cases hendless

end Flowscript

/-
  Flowscript.Proofs.ProjectFiles

  Which files a program gets.

  Every planned file is built under its path or leaves an error, whatever becomes of the
  others.  The one exception is the module of interfaces: a value that never ends has no
  type, and then there is no program at all.
-/
import Flowscript.Project.Basic
import Flowscript.Proofs.Rendering

namespace Flowscript

variable {g : Graph} {c : Context} {a : Assembled} {path : String}
  {bs : List (String × Except Fault OutputFile)}

-- ============================================================================
-- One file
-- ============================================================================

/-- A build gives the file of its path, or ends with a fault that leaves out no other file. -/
structure Contained (path : String) (build : Except Fault OutputFile) : Prop where
  path_eq : ∀ f, build = .ok f → f.path = path
  mild : FailsOnly (fun e => e.isFatal = false) build

namespace Contained

theorem ok {f : OutputFile} (hf : f.path = path) : Contained path (.ok f) := by
  refine ⟨fun f' h => ?_, .ok f⟩
  cases h
  exact hf

theorem bind {α : Type} {x : Except Fault α} {next : α → Except Fault OutputFile}
    (hx : FailsOnly (fun e => e.isFatal = false) x) (hnext : ∀ v, Contained path (next v)) :
    Contained path (x >>= next) := by
  refine ⟨fun f h => ?_, hx.bind fun v _ => (hnext v).mild⟩
  obtain ⟨v, -, hv⟩ := bind_eq_ok_iff.mp h
  exact (hnext v).path_eq f hv

end Contained

namespace ProjectFile

/-- Values that bind no environment can be rendered. -/
theorem failsOnly_render {template : String} {values : List (String × Value)}
    (henv : values.lookup "environment" = none) :
    FailsOnly (fun e : Fault => e.isFatal = false) (render c template values) :=
  Template.failsOnly_render _ _ fun v hv => by rw [henv] at hv; cases hv

theorem failsOnly_nameText (g : Graph) :
    FailsOnly (fun e => e.isFatal = false) (nameText g) := by
  unfold nameText
  split
  · exact .error rfl
  · exact .ok _

theorem failsOnly_text (v : Value) : FailsOnly (fun e => e.isFatal = false) v.text := by
  unfold Value.text
  split
  · exact .error rfl
  · exact .ok _

theorem contained_main (g : Graph) (c : Context) (a : Assembled) :
    Contained "src/index.ts" (main g c a) := by
  have hfunction : FailsOnly (fun e => e.isFatal = false) (mainFunction g c a) :=
    (failsOnly_nameText g).bind fun _ _ => failsOnly_render rfl
  refine Contained.bind (hfunction.bind fun function _ => ?_) fun source => .ok rfl
  exact (failsOnly_text _).bind fun description _ => failsOnly_render rfl

theorem contained_config (g : Graph) (c : Context) : Contained "src/config.ts" (config g c) := by
  refine Contained.bind ?_ fun source => .ok rfl
  unfold configSource
  split
  · exact .error rfl
  · refine Template.failsOnly_render _ _ fun v hv => ?_
    have htable : v = Manifest.table c.environment := Option.some.inj (hv.symm.trans rfl)
    exact ⟨_, by rw [htable]; rfl⟩

theorem contained_test (g : Graph) (c : Context) (a : Assembled) :
    Contained "src/__tests__/index.test.ts" (test g c a) :=
  Contained.bind ((failsOnly_nameText g).bind fun _ _ => failsOnly_render rfl) fun _ => .ok rfl

/-- Without endless values, the interfaces are written, or a text is missing. -/
theorem contained_types (h : g.untyped? ≠ some .endless) :
    Contained "src/types.ts" (types g c) := by
  refine Contained.bind ?_ fun source => .ok rfl
  unfold typesSource
  split
  · next obstacle hobstacle =>
    cases obstacle with
    | endless => exact absurd hobstacle h
    | longInteger => exact .error rfl
  · exact failsOnly_render rfl

theorem types_eq_endless (h : g.untyped? = some .endless) : types g c = .error .endless := by
  rw [types, typesSource, h]
  rfl

theorem failsOnly_jsonContent (l : Json.Layout) (v : Value) :
    FailsOnly (fun e => e.isFatal = false) (jsonContent l v) := by
  unfold jsonContent
  split
  · exact .ok _
  · exact .error rfl

theorem contained_manifest (g : Graph) (c : Context) (dependencies : List (String × String)) :
    Contained "package.json" (manifest g c dependencies) :=
  Contained.bind (failsOnly_jsonContent _ _) fun _ => .ok rfl

theorem contained_compilerOptions (c : Context) : Contained "tsconfig.json" (compilerOptions c) :=
  Contained.bind (failsOnly_jsonContent _ _) fun _ => .ok rfl

theorem failsOnly_ofCredential (n : Node) (p : Parameter) :
    FailsOnly (fun e => e.isFatal = false) (EnvVariable.ofCredential n p) := by
  unfold EnvVariable.ofCredential
  split
  · exact .ok _
  · exact .error rfl

theorem failsOnly_envVariables (g : Graph) (c : Context) :
    FailsOnly (fun e => e.isFatal = false) (g.envVariables c) := by
  have hsecrets := FailsOnly.mapM (g.nodes.flatMap fun n => n.credentials.map fun p => (n, p))
    fun np _ => failsOnly_ofCredential np.1 np.2
  exact hsecrets.bind fun _ _ => .ok _

theorem contained_environment (g : Graph) (c : Context) :
    Contained ".env.example" (environment g c) := by
  refine Contained.bind (failsOnly_envVariables g c) fun env => ?_
  exact Contained.bind (failsOnly_render rfl) fun _ => .ok rfl

theorem contained_readme (g : Graph) (c : Context) (warnings : List String) :
    Contained "README.md" (readme g c warnings) := by
  unfold readme
  split
  · exact ⟨fun f h => (by cases h), .error rfl⟩
  · refine Contained.bind (failsOnly_envVariables g c) fun env => ?_
    exact Contained.bind (failsOnly_render rfl) fun _ => .ok rfl

end ProjectFile

-- ============================================================================
-- All files
-- ============================================================================

namespace Project

/-- The paths of the files of a program, in order. -/
def planned (c : Context) : List String :=
  ["src/index.ts", "src/types.ts", "src/config.ts", "package.json", "tsconfig.json",
    ".env.example"] ++
    (if c.includeTests then ["src/__tests__/index.test.ts"] else []) ++
    if c.includeDocs then ["README.md"] else []

theorem nodup_planned (c : Context) : (planned c).Nodup := by
  cases htests : c.includeTests <;> cases hdocs : c.includeDocs <;>
    simp [planned, htests, hdocs]

theorem map_fst_builds (g : Graph) (c : Context) (a : Assembled)
    (dependencies : List (String × String)) (warnings : List String) :
    (builds g c a dependencies warnings).map (·.1) = planned c := by
  cases htests : c.includeTests <;> cases hdocs : c.includeDocs <;>
    simp [builds, planned, htests, hdocs]

theorem contained_of_mem_builds (h : g.untyped? ≠ some .endless)
    (dependencies : List (String × String)) (warnings : List String) :
    ∀ b ∈ builds g c a dependencies warnings, Contained b.1 b.2 := by
  intro b hb
  simp only [builds, List.mem_append, List.mem_cons, List.not_mem_nil, or_false] at hb
  rcases hb with ((rfl | rfl | rfl | rfl | rfl | rfl) | htest) | hreadme
  · exact ProjectFile.contained_main g c a
  · exact ProjectFile.contained_types h
  · exact ProjectFile.contained_config g c
  · exact ProjectFile.contained_manifest g c dependencies
  · exact ProjectFile.contained_compilerOptions c
  · exact ProjectFile.contained_environment g c
  · split at htest
    · rw [List.mem_singleton.mp htest]
      exact ProjectFile.contained_test g c a
    · cases htest
  · split at hreadme
    · rw [List.mem_singleton.mp hreadme]
      exact ProjectFile.contained_readme g c warnings
    · cases hreadme

/-- The builds that failed, with what is said about them. -/
def failed (bs : List (String × Except Fault OutputFile)) : List (String × String) :=
  bs.filterMap fun b => match b.2 with
    | .ok _ => none
    | .error e => some (b.1, e.message)

@[simp] theorem failed_cons_ok (f : OutputFile) : failed ((path, .ok f) :: bs) = failed bs := rfl

@[simp] theorem failed_cons_error (e : Fault) :
    failed ((path, .error e) :: bs) = (path, e.message) :: failed bs := rfl

theorem failures_eq (bs : List (String × Except Fault OutputFile)) :
    failures bs = (failed bs).map fun x => "Failed to generate " ++ x.1 ++ ": " ++ x.2 := by
  induction bs with
  | nil => rfl
  | cons b bs ih =>
      obtain ⟨path, build⟩ := b
      cases build with
      | ok f => exact ih
      | error e => exact congrArg (_ :: ·) ih

theorem mem_failures {e : Fault} (h : (path, .error e) ∈ bs) :
    "Failed to generate " ++ path ++ ": " ++ e.message ∈ failures bs :=
  List.mem_filterMap.mpr ⟨_, h, rfl⟩

theorem failed_sublist (bs : List (String × Except Fault OutputFile)) :
    ((failed bs).map (·.1)).Sublist (bs.map (·.1)) := by
  induction bs with
  | nil => exact .slnil
  | cons b bs ih =>
      obtain ⟨path, build⟩ := b
      cases build with
      | ok f => exact ih.cons path
      | error e => exact ih.cons_cons path

/-- The files that are built are those that did not fail, in their order. -/
theorem map_path_built (hnodup : (bs.map (·.1)).Nodup) (h : ∀ b ∈ bs, Contained b.1 b.2) :
    (built bs).map (·.path) = (bs.map (·.1)).filter (· ∉ (failed bs).map (·.1)) := by
  induction bs with
  | nil => rfl
  | cons b bs ih =>
      obtain ⟨path, build⟩ := b
      rw [List.map_cons, List.nodup_cons] at hnodup
      have hrest := ih hnodup.2 fun b hb => h b (List.mem_cons_of_mem _ hb)
      have hother : path ∉ (failed bs).map (·.1) := fun hp => hnodup.1 ((failed_sublist bs).mem hp)
      cases hbuild : build with
      | ok f =>
          have hpath : f.path = path := (h _ List.mem_cons_self).path_eq f hbuild
          rw [failed_cons_ok, List.map_cons, List.filter_cons_of_pos (by simpa using hother),
            ← hrest, ← hpath]
          rfl
      | error e =>
          simp only [failed_cons_error, List.map_cons]
          rw [List.filter_cons_of_neg (by simp)]
          refine hrest.trans (List.filter_congr fun p hp => ?_)
          have hne : p ≠ path := fun e => hnodup.1 (e ▸ hp)
          simp [hne]

/-- A file is what the build of its path gives. -/
theorem find?_built (hnodup : (bs.map (·.1)).Nodup) (h : ∀ b ∈ bs, Contained b.1 b.2)
    (path : String) :
    (built bs).find? (·.path = path) = (bs.lookup path).bind Except.toOption := by
  induction bs with
  | nil => rfl
  | cons b bs ih =>
      obtain ⟨path', build⟩ := b
      rw [List.map_cons, List.nodup_cons] at hnodup
      have hrest := ih hnodup.2 fun b hb => h b (List.mem_cons_of_mem _ hb)
      by_cases hpath : path = path'
      · subst hpath
        rw [List.lookup_cons_self, Option.bind_some]
        cases hbuild : build with
        | ok f =>
            have hf : f.path = path := (h _ List.mem_cons_self).path_eq f hbuild
            exact List.find?_cons_of_pos (by simpa using hf)
        | error e =>
            have hother : bs.lookup path = none := by
              refine List.lookup_eq_none_iff.mpr fun b hb => ?_
              have hne : path ≠ b.1 := fun heq => hnodup.1 (List.mem_map.mpr ⟨b, hb, heq.symm⟩)
              simpa using hne
            exact hrest.trans (by rw [hother]; rfl)
      · have hlookup : ((path', build) :: bs).lookup path = bs.lookup path := by
          rw [List.lookup_cons, show (path == path') = false by simpa using hpath]
        rw [hlookup, ← hrest]
        cases hbuild : build with
        | ok f =>
            have hf : f.path = path' := (h _ List.mem_cons_self).path_eq f hbuild
            exact List.find?_cons_of_neg (by simpa [hf] using Ne.symm hpath)
        | error e => rfl

theorem fatal?_eq_none (h : ∀ b ∈ bs, Contained b.1 b.2) : fatal? bs = none := by
  refine List.findSome?_eq_none_iff.mpr fun b hb => ?_
  split
  · rfl
  · next e he =>
    have hmild := (h b hb).mild e he
    rw [hmild]
    rfl

/-- The paths of a plan differ, and each of them is either among the files, in the order of the
plan, or in one error. -/
def Covers (p : Project) (plan : List String) : Prop :=
  plan.Nodup ∧ ∃ failed : List (String × String), (failed.map (·.1)).Sublist plan ∧
    p.files.map (·.path) = plan.filter (· ∉ failed.map (·.1)) ∧
    p.errors = failed.map fun x => "Failed to generate " ++ x.1 ++ ": " ++ x.2

theorem exists_build (h : g.untyped? ≠ some .endless) (c : Context) (a : Assembled)
    (warnings converted unsupported : List String) :
    ∃ p, build g c a warnings converted unsupported = .ok p ∧ p.Covers (planned c) := by
  let bs := builds g c a (Dependency.all a c) warnings
  have hpaths : bs.map (·.1) = planned c := map_fst_builds _ _ _ _ _
  have hcontained : ∀ b ∈ bs, Contained b.1 b.2 := contained_of_mem_builds h _ _
  have hnodup : (bs.map (·.1)).Nodup := by
    rw [hpaths]
    exact nodup_planned c
  have hfatal : fatal? (builds g c a (Dependency.all a c) warnings) = none :=
    fatal?_eq_none hcontained
  simp only [build, hfatal]
  refine ⟨_, rfl, nodup_planned c, failed bs, ?_, ?_, failures_eq bs⟩
  · rw [← hpaths]
    exact failed_sublist bs
  · rw [← hpaths]
    exact map_path_built hnodup hcontained

/-- A program holds the files that were built, and an error for each of the others. -/
theorem build_eq_ok {p : Project} {warnings converted unsupported : List String}
    (h : build g c a warnings converted unsupported = .ok p) :
    p.dependencies = Dependency.all a c ∧
      p.files = built (builds g c a (Dependency.all a c) warnings) ∧
      p.errors = failures (builds g c a (Dependency.all a c) warnings) := by
  unfold build at h
  simp only at h
  split at h
  · cases h
  · cases h
    exact ⟨rfl, rfl, rfl⟩

theorem build_eq_endless (h : g.untyped? = some .endless) (c : Context) (a : Assembled)
    (warnings converted unsupported : List String) :
    build g c a warnings converted unsupported = .error .endless := by
  have hfatal : fatal? (builds g c a (Dependency.all a c) warnings) = some .endless := by
    simp only [fatal?, builds, List.cons_append, List.findSome?_cons,
      ProjectFile.types_eq_endless h]
    -- the main module comes first, and whatever its fault, it is no fatal one
    cases hmain : ProjectFile.main g c a with
    | ok f => rfl
    | error e =>
        have hmild : e.isFatal = false := (ProjectFile.contained_main g c a).mild e hmain
        simp only [hmild, Bool.false_eq_true, if_false]
        rfl
  simp only [build, hfatal]
  rfl

end Project

end Flowscript

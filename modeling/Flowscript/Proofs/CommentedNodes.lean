/-
  Flowscript.Proofs.CommentedNodes

  Comments in place of nodes.

  A node that cannot be converted leaves a comment that says why.  The comment is to be the
  only thing that the node adds to the program: `Format.IsComment` says of a text that the
  formatter, line by line, finds nothing in it but comments, and is in code after it.

    * The first line of the text is a comment, and the text is one if the lines after it are.
    * There are such lines if there is a line break in what the comment says of the node: in
      its id, its label, its type or the names of the parameters that it lacks, all of which
      are written as they are.
    * The lines start in code, and they end with a parenthesis, so that what is in them can
      only be a comment if a slash is.
-/
import Flowscript.Proofs.DeclarationText
import Flowscript.Proofs.DeclaredInterfaces

namespace Flowscript.Format

open Text

variable {m : Mode} {s line : List Char} {lines : List (List Char)} {x : Segment}
  {ss : List Segment} {e : Mode}

-- ============================================================================
-- Texts of comments
-- ============================================================================

/-- Lines that start in a mode have nothing but comments in them and end in code. -/
def OnlyComments : Mode → List (List Char) → Prop
  | m, [] => m = .code
  | m, line :: lines =>
    (∀ x ∈ (scan m line).segments, x.kind = .comment) ∧ OnlyComments (scan m line).mode lines

/-- A text has nothing but comments in it and ends outside of them. -/
def IsComment (s : List Char) : Prop := OnlyComments .code (splitOn '\n' (unifyNewlines s))

/-- The lines of a text after its first line. -/
def laterLines (s : List Char) : List (List Char) := (splitOn '\n' (unifyNewlines s)).tail

/-- A text that starts with a line comment is a comment if the lines after it are. -/
theorem isComment_slashes (s : List Char) :
    IsComment ('/' :: '/' :: s) ↔ OnlyComments .code (laterLines ('/' :: '/' :: s)) := by
  have hunify : unifyNewlines ('/' :: '/' :: s) = '/' :: '/' :: unifyNewlines s := by
    simp [unifyNewlines]
  obtain ⟨line, lines, hlines⟩ :=
    List.exists_cons_of_ne_nil (splitOn_ne_nil '\n' (unifyNewlines s))
  have hsplit : splitOn '\n' ('/' :: '/' :: unifyNewlines s) = ('/' :: '/' :: line) :: lines :=
    splitOn_cons_of_ne (by decide) (splitOn_cons_of_ne (by decide) hlines)
  have hscan : scan .code ('/' :: '/' :: line) = ⟨[⟨.comment, '/' :: '/' :: line⟩], .code⟩ :=
    scan_opened .lineComment
  rw [IsComment, laterLines, hunify, hsplit, OnlyComments, hscan]
  simp

theorem mem_unifyNewlines_iff (s : List Char) : '\n' ∈ unifyNewlines s ↔ '\n' ∈ s ∨ '\r' ∈ s := by
  fun_induction unifyNewlines s with
  | case1 => simp
  | case2 rest ih => simp
  | case3 c rest _ ih =>
      rw [List.mem_cons, ih, List.mem_cons, List.mem_cons]
      split
      · next hc => simp [hc]
      · next hc =>
        have hreturn : '\r' ≠ c := Ne.symm hc
        simp only [hreturn, false_or]
        exact or_assoc.symm

/-- The first line is all of the text if there is no line break in it. -/
theorem laterLines_eq_nil_iff (s : List Char) : laterLines s = [] ↔ '\n' ∉ s ∧ '\r' ∉ s := by
  rw [← not_or, ← mem_unifyNewlines_iff]
  constructor
  · intro h hmem
    obtain ⟨line, lines, hlines⟩ :=
      List.exists_cons_of_ne_nil (splitOn_ne_nil '\n' (unifyNewlines s))
    obtain rfl : lines = [] := by rwa [laterLines, hlines] at h
    have hjoin := joinWith_splitOn '\n' (unifyNewlines s)
    rw [hlines, joinWith_singleton] at hjoin
    refine not_mem_of_mem_splitOn (c := '\n') (s := unifyNewlines s) (p := line) ?_ (hjoin ▸ hmem)
    rw [hlines]
    exact List.mem_singleton.mpr rfl
  · intro h
    rw [laterLines, splitOn_of_not_mem h]
    rfl

-- ============================================================================
-- Lines that are no comments
-- ============================================================================

/-- A comment in code starts with a slash. -/
theorem Reads.exists_slash (h : Reads .code ss e) (hcomments : ∀ x ∈ ss, x.kind = .comment) :
    ss = [] ∨ '/' ∈ textOf ss := by
  cases h with
  | nil => exact .inl rfl
  | code => cases hcomments _ List.mem_cons_self
  | closed hclosed =>
      have hkind := hcomments _ List.mem_cons_self
      cases hclosed with
      | literal hdelimits => cases hdelimits <;> cases hkind
      | comment => exact .inr (by simp)
  | opened hopened =>
      have hkind := hcomments _ List.mem_cons_self
      cases hopened with
      | literal hdelimits => cases hdelimits <;> cases hkind
      | lineComment => exact .inr (by simp)
      | comment => exact .inr (by simp)

/-- Of lines that start in code and have only comments in them, one has a slash if any of them is
not empty. -/
theorem OnlyComments.exists_slash (h : OnlyComments .code lines) (hline : line ∈ lines)
    (hne : line ≠ []) : ∃ l ∈ lines, '/' ∈ l := by
  induction lines with
  | nil => cases hline
  | cons l lines ih =>
      obtain ⟨hreads, htext⟩ := reads_scan .code l
      rcases hreads.exists_slash h.1 with hnil | hslash
      · rw [hnil] at htext
        obtain rfl : l = [] := htext.symm
        have hrest : OnlyComments .code lines := by simpa using h.2
        obtain ⟨l, hl, hslash⟩ := ih hrest ((List.mem_cons.mp hline).resolve_left hne)
        exact ⟨l, List.mem_cons_of_mem _ hl, hslash⟩
      · rw [htext] at hslash
        exact ⟨l, List.mem_cons_self, hslash⟩

/-- A text that does not end with a line break ends with a line that is not empty. -/
theorem exists_laterLine {c : Char} (hline : c ≠ '\n') (hreturn : c ≠ '\r') {s : List Char}
    (h : laterLines (s ++ [c]) ≠ []) : ∃ line ∈ laterLines (s ++ [c]), line ≠ [] := by
  have hunify : unifyNewlines (s ++ [c]) = unifyNewlines s ++ [c] := by
    have hlast : unifyNewlines [c] = [c] := unifyNewlines_of_not_mem (by simpa using hreturn.symm)
    rw [unifyNewlines_append_of_head (by simpa using hline), hlast]
  obtain ⟨ps, p, hpieces⟩ :=
    List.eq_nil_or_concat (splitOn '\n' (unifyNewlines s)) |>.resolve_left (splitOn_ne_nil _ _)
  rw [List.concat_eq_append] at hpieces
  have hlines : laterLines (s ++ [c]) = (ps ++ [p ++ [c]]).tail := by
    rw [laterLines, hunify, splitOn_append_tail (by simpa using hline.symm) hpieces]
  rw [hlines] at h ⊢
  cases ps with
  | nil => exact absurd rfl h
  | cons first ps => exact ⟨p ++ [c], by simp, by simp⟩

/-- A comment that ends within a line has one line, or a slash in a later one. -/
theorem slash_of_isComment {c : Char} (hline : c ≠ '\n') (hreturn : c ≠ '\r') {s : List Char}
    (h : IsComment ('/' :: '/' :: (s ++ [c]))) :
    laterLines ('/' :: '/' :: (s ++ [c])) = [] ∨
      ∃ line ∈ laterLines ('/' :: '/' :: (s ++ [c])), '/' ∈ line := by
  have honly := (isComment_slashes _).mp h
  by_cases hnil : laterLines ('/' :: '/' :: (s ++ [c])) = []
  · exact .inl hnil
  · rw [← List.cons_append, ← List.cons_append] at hnil honly ⊢
    obtain ⟨line, hmem, hne⟩ := exists_laterLine hline hreturn hnil
    exact .inr (honly.exists_slash hmem hne)

end Flowscript.Format

namespace Flowscript

open Format (IsComment OnlyComments laterLines)

variable {r : Registry} {c : Context} {n m : Node} {report : Option Report}

-- ============================================================================
-- Comments in place of nodes
-- ============================================================================

/-- A placeholder starts with two slashes and ends with a parenthesis. -/
theorem exists_placeholder_content (n : Node) (reason : String) :
    ∃ body, (placeholder n reason).content.toList = '/' :: '/' :: (body ++ [')']) := by
  have hslashes : "// TODO: ".toList = ['/', '/'] ++ " TODO: ".toList := by decide
  have hparen : ")".toList = [')'] := by decide
  refine ⟨" TODO: ".toList ++ reason.toList ++ " for node '".toList ++ n.caption.toList ++
    "' (".toList ++ n.id.toList, ?_⟩
  simp only [placeholder, String.toList_append, hslashes, hparen, List.append_assoc,
    List.cons_append, List.nil_append]

theorem OneLine.append_iff (t u : String) : OneLine (t ++ u) ↔ OneLine t ∧ OneLine u := by
  refine ⟨fun h => ?_, fun h => h.1.append h.2⟩
  obtain ⟨hnewline, hreturn⟩ := h
  rw [String.toList_append, List.mem_append, not_or] at hnewline hreturn
  exact ⟨⟨hnewline.1, hreturn.1⟩, ⟨hnewline.2, hreturn.2⟩⟩

/-- A comment in place of a node is one line if all that it says of the node is. -/
theorem laterLines_placeholder_eq_nil_iff (n : Node) (reason : String) :
    laterLines (placeholder n reason).content.toList = [] ↔
      OneLine reason ∧ OneLine n.caption ∧ OneLine n.id := by
  have honeLine : laterLines (placeholder n reason).content.toList = [] ↔
      OneLine (placeholder n reason).content := by
    rw [Format.laterLines_eq_nil_iff]
    exact ⟨fun h => ⟨h.1, h.2⟩, fun h => ⟨h.newline, h.noReturn⟩⟩
  have htodo : OneLine "// TODO: " := by decide
  have hfor : OneLine " for node '" := by decide
  have hopen : OneLine "' (" := by decide
  have hclose : OneLine ")" := by decide
  rw [honeLine]
  simp only [placeholder, OneLine.append_iff, htodo, hfor, hopen, hclose, true_and, and_true,
    and_assoc]

/-- What is left of a node that cannot be converted is a comment if the lines after the first one
are.  There are none if what is said of the node has no line breaks; otherwise one of them has to
have a slash. -/
theorem Registry.isComment_iff_of_commented {type warning : String} {f : Fragment}
    (h : r.outcome report c n = .ok (.commented type warning f)) :
    ∃ m reason, HandedOver r n m ∧ IsReason report m reason ∧
      f.content = "// TODO: " ++ reason ++ " for node '" ++ m.caption ++ "' (" ++ m.id ++ ")" ∧
      (IsComment f.content.toList ↔ OnlyComments .code (laterLines f.content.toList)) ∧
      (laterLines f.content.toList = [] ↔ OneLine reason ∧ OneLine m.caption ∧ OneLine m.id) ∧
      (IsComment f.content.toList →
        laterLines f.content.toList = [] ∨ ∃ line ∈ laterLines f.content.toList, '/' ∈ line) := by
  rcases Registry.outcome_cases h with
    ⟨m, reason, warning', hm, hreason, ho⟩ | ⟨conv, type', fs, ws, -, -, ho⟩
  case inr => cases ho
  cases ho
  obtain ⟨body, hcontent⟩ := exists_placeholder_content m reason
  have hiff : IsComment (placeholder m reason).content.toList ↔
      OnlyComments .code (laterLines (placeholder m reason).content.toList) := by
    rw [hcontent]
    exact Format.isComment_slashes _
  refine ⟨m, reason, hm, hreason, rfl, hiff, laterLines_placeholder_eq_nil_iff m reason, ?_⟩
  rw [hcontent]
  exact Format.slash_of_isComment (by decide) (by decide)

/-- A node of an unknown type with two lines in its label. -/
def twoLineNode : Node := { id := "a", type := "t", label := "x\ny" }

theorem twoLineNode_spills :
    ∃ type warning f,
      Registry.standard.outcome none {} twoLineNode = .ok (.commented type warning f) ∧
        ¬ IsComment f.content.toList := by
  have houtcome : Registry.standard.outcome none {} twoLineNode = .ok (.commented _ _ _) := rfl
  refine ⟨_, _, _, houtcome, fun hcomment => ?_⟩
  obtain ⟨m, reason, -, -, -, -, -, hslash⟩ := Registry.isComment_iff_of_commented houtcome
  rcases hslash hcomment with hnil | ⟨line, hline, hmem⟩
  · revert hnil
    decide
  · revert line
    decide

end Flowscript

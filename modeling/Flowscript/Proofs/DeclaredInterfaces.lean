/-
  Flowscript.Proofs.DeclaredInterfaces

  The interfaces that a program declares, found line by line.

  A line declares an interface if it starts in code, with the words for it and a name.
  Formatting keeps the declarations of a program (`declaredInterfaces_format`): of a line it
  changes white space at the ends, quotes, and at most one separator at the end of the
  code, and none of them is part of a declaration's head (`interfaceName?_edited`); the
  lines that it leaves out or puts in are empty.

  Sealed texts put together declare what each of them declares, which leaves only the
  lines of one text to be looked at (`declaredInterfaces_append`).
-/
import Flowscript.Proofs.HeaderComments
import Flowscript.Proofs.LineStart
import Flowscript.Proofs.PlainImports
import Flowscript.Proofs.ProgramText
import Flowscript.Proofs.TemplateStatement

namespace Flowscript.Format

open Text
open Naming (isIdentifierPart)
open Import (isBlank_eq_false_of_isIdentifierPart)

variable {m : Mode} {s t u w out next : List Char} {name : List Char} {raws : List (List Char)}

-- ============================================================================
-- Heads of declarations
-- ============================================================================

/-- The words before the name of an interface. -/
def interfaceHead : List Char := "export interface ".toList

/-- The name of the interface that a text declares at its start. -/
def nameAfterHead (s : List Char) : Option (List Char) :=
  match after? interfaceHead s with
  | some rest =>
    let name := rest.takeWhile isIdentifierPart
    if name.isEmpty then none else some name
  | none => none

/-- The name of the interface that a line of code declares. -/
def interfaceName? (line : List Char) : Option (List Char) := nameAfterHead (trimStart line)

/-- The names of the interfaces that lines declare, scanned one after another from a mode. -/
def declaredFrom : Mode → List (List Char) → List (List Char)
  | _, [] => []
  | m, raw :: raws =>
    (if m = .code then (interfaceName? raw).toList else []) ++ declaredFrom (scan m raw).mode raws

/-- The names of the interfaces that a program declares, in order. -/
def declaredInterfaces (code : List Char) : List (List Char) :=
  declaredFrom .code (splitOn '\n' code)

/-- A name, the words before it, and something after it that does not go on with the name. -/
structure StartsWithHead (s name rest : List Char) : Prop where
  eq : s = interfaceHead ++ name ++ rest
  ne_nil : name ≠ []
  part : ∀ c ∈ name, isIdentifierPart c = true
  ends : ∀ c, rest.head? = some c → isIdentifierPart c = false

theorem nameAfterHead_eq_some_iff :
    nameAfterHead s = some name ↔ ∃ rest, StartsWithHead s name rest := by
  constructor
  · intro h
    unfold nameAfterHead at h
    split at h
    · next rest hafter =>
      simp only at h
      split at h
      · cases h
      · next hne =>
        cases h
        refine ⟨rest.dropWhile isIdentifierPart, ?_, by simpa using hne, ?_, ?_⟩
        · rw [eq_append_of_after? hafter, List.append_assoc, List.takeWhile_append_dropWhile]
        · exact fun c hc => List.mem_takeWhile_imp hc
        · intro c hc
          have hfirst := List.head?_dropWhile_not isIdentifierPart rest
          rw [hc] at hfirst
          exact hfirst
    · cases h
  · rintro ⟨rest, rfl, hne, hpart, hends⟩
    have hrest : rest.takeWhile isIdentifierPart = [] := by
      cases rest with
      | nil => rfl
      | cons c rest => rw [List.takeWhile_cons, hends c rfl, if_neg (by simp)]
    have hname : (name ++ rest).takeWhile isIdentifierPart = name := by
      rw [List.takeWhile_append_of_pos hpart, hrest, List.append_nil]
    unfold nameAfterHead
    rw [List.append_assoc, after?_append]
    simp only [hname]
    exact if_neg (by simpa using hne)

/-- White space, and then nothing or something that no head of a declaration has in it. -/
def Trailing (w : List Char) : Prop :=
  ∃ b t, w = b ++ t ∧ isBlankText b = true ∧
    ∀ c, t.head? = some c → c = '/' ∨ isSeparator c = true

theorem trailing_separator {c : Char} (h : isSeparator c = true) (w : List Char) :
    Trailing (c :: w) := by
  refine ⟨[], c :: w, rfl, rfl, fun d hd => ?_⟩
  cases hd
  exact .inr h

theorem Trailing.blank_append {b : List Char} (hb : isBlankText b = true) (h : Trailing w) :
    Trailing (b ++ w) := by
  obtain ⟨b', t, rfl, hb', ht⟩ := h
  refine ⟨b ++ b', t, (List.append_assoc _ _ _).symm, ?_, ht⟩
  rw [isBlankText_append, hb, hb']
  rfl

theorem isIdentifierPart_eq_false_of_ends {c : Char} (h : c = '/' ∨ isSeparator c = true) :
    isIdentifierPart c = false := by
  rcases h with rfl | h
  · decide
  · rcases isSeparator_iff.mp h with rfl | rfl <;> decide

theorem Trailing.head_eq_false {c : Char} (h : Trailing w) (hc : w.head? = some c) :
    isIdentifierPart c = false := by
  obtain ⟨b, t, rfl, hb, ht⟩ := h
  cases b with
  | nil => exact isIdentifierPart_eq_false_of_ends (ht c hc)
  | cons d b =>
      cases hc
      by_contra hpart
      rw [Bool.not_eq_false] at hpart
      have hblank := isBlankText_iff.mp hb c List.mem_cons_self
      rw [isBlank_eq_false_of_isIdentifierPart hpart] at hblank
      cases hblank

/-- What trails after a line does not begin with the end of a name. -/
theorem Trailing.not_append {v u : List Char} {c : Char} (h : Trailing (v ++ u))
    (hv : ∀ d ∈ v, d ≠ '/' ∧ isSeparator d = false) (hlast : v.getLast? = some c)
    (hc : isIdentifierPart c = true) : False := by
  obtain ⟨b, t, heq, hb, ht⟩ := h
  have hblank : c ∉ b := by
    intro hmem
    have hcb := isBlankText_iff.mp hb c hmem
    rw [isBlank_eq_false_of_isIdentifierPart hc] at hcb
    cases hcb
  have hmem : c ∈ v := List.mem_of_getLast? hlast
  rcases List.append_eq_append_iff.mp heq with ⟨x, rfl, -⟩ | ⟨x, rfl, rfl⟩
  · exact hblank (List.mem_append_left _ hmem)
  · cases x with
    | nil => exact hblank (by simpa using hmem)
    | cons d x =>
        obtain ⟨hslash, hsep⟩ := hv d (List.mem_append_right _ List.mem_cons_self)
        rcases ht d rfl with hd | hd
        · exact hslash hd
        · rw [hsep] at hd
          cases hd

/-- What trails after a text is no matter for the declaration at its start. -/
theorem nameAfterHead_append (h : Trailing w) (s : List Char) :
    nameAfterHead (s ++ w) = nameAfterHead s := by
  refine Option.ext fun name => ?_
  rw [nameAfterHead_eq_some_iff, nameAfterHead_eq_some_iff]
  constructor
  · rintro ⟨rest, heq, hne, hpart, hends⟩
    rcases List.append_eq_append_iff.mp heq with ⟨x, hs, rfl⟩ | ⟨x, rfl, rfl⟩
    · -- The text ends inside of the head, which what trails would have to go on with.
      by_cases hx : x = []
      · subst hx
        exact ⟨[], by simpa using hs.symm, hne, hpart, by simp⟩
      · exfalso
        have hc := List.getLast?_eq_some_getLast hne
        generalize name.getLast hne = c at hc
        have hlast : x.getLast? = some c := by
          have hwhole := congrArg List.getLast? hs
          rw [List.getLast?_append_of_ne_nil _ hne, List.getLast?_append_of_ne_nil _ hx] at hwhole
          rw [← hwhole, hc]
        refine h.not_append (fun d hd => ?_) hlast (hpart c (List.mem_of_getLast? hc))
        have hmem : d ∈ interfaceHead ++ name := hs ▸ List.mem_append_right _ hd
        rcases List.mem_append.mp hmem with hmem | hmem
        · have hhead : interfaceHead.all (fun d => d != '/' && !isSeparator d) = true := by decide
          simpa using List.all_eq_true.mp hhead d hmem
        · have hd := hpart d hmem
          constructor
          · rintro rfl
            cases hd
          · by_contra hsep
            rw [Bool.not_eq_false] at hsep
            rw [isIdentifierPart_eq_false_of_ends (.inr hsep)] at hd
            cases hd
    · refine ⟨x, rfl, hne, hpart, fun c hc => hends c ?_⟩
      cases x with
      | nil => cases hc
      | cons d x => exact hc
  · rintro ⟨rest, heq, hne, hpart, hends⟩
    refine ⟨rest ++ w, by rw [heq, List.append_assoc], hne, hpart, fun c hc => ?_⟩
    cases rest with
    | nil => exact h.head_eq_false hc
    | cons d rest => exact hends c hc

-- ============================================================================
-- Edited lines
-- ============================================================================

theorem trailing_drop_cons {seg : Segment} {ss : List Segment}
    (hcomment : seg.kind = .comment → seg.text.head? = some '/')
    (h : Trailing ((textOf ss).drop (codeEndFrom 0 0 ss))) :
    Trailing ((textOf (seg :: ss)).drop (codeEndFrom 0 0 (seg :: ss))) := by
  rw [textOf_cons, codeEndFrom_cons]
  by_cases hss : bearCode ss = true
  · rw [if_pos hss, List.drop_length_add_append]
    exact h
  · have hnone : codeEndFrom 0 0 ss = 0 := by
      have hpos := mt codeEndFrom_pos_iff.mp hss
      omega
    rw [hnone, List.drop_zero] at h
    rw [if_neg hss]
    by_cases hbears : seg.bears = true
    · obtain ⟨b, hb, htext⟩ := exists_trimEnd seg.text
      have hsplit : seg.text ++ textOf ss = trimEnd seg.text ++ (b ++ textOf ss) := by
        rw [← List.append_assoc, ← htext]
      rw [if_pos hbears, hsplit, List.drop_left]
      exact h.blank_append hb
    · rw [if_neg hbears, List.drop_zero]
      by_cases hkind : seg.kind = .comment
      · refine ⟨[], seg.text ++ textOf ss, rfl, rfl, fun c hc => .inl ?_⟩
        rw [List.head?_append, hcomment hkind] at hc
        exact (Option.some.inj hc).symm
      · refine h.blank_append ?_
        simpa [Segment.bears, hkind] using hbears

/-- After the code of a line that starts in code there is only what trails. -/
theorem trailing_drop_of_reads {ss : List Segment} {e : Mode} (h : Reads .code ss e) :
    Trailing ((textOf ss).drop (codeEndFrom 0 0 ss)) := by
  generalize hm : Mode.code = m at h
  have hnil : Trailing ((textOf []).drop (codeEndFrom 0 0 [])) :=
    ⟨[], [], rfl, rfl, fun c hc => by cases hc⟩
  induction h with
  | nil m => exact hnil
  | code _ _ _ _ ih => exact trailing_drop_cons (fun hkind => by cases hkind) (ih rfl)
  | closed hclosed _ ih =>
      subst hm
      refine trailing_drop_cons (fun hkind => ?_) (ih rfl)
      cases hclosed with
      | literal hp _ =>
          cases hp <;> cases hkind
      | comment _ => rfl
  | opened hopened =>
      subst hm
      refine trailing_drop_cons (fun hkind => ?_) hnil
      cases hopened with
      | literal hp _ => cases hp <;> cases hkind
      | lineComment => rfl
      | comment _ => rfl

theorem Line.Sound.trailing_rest {l : Line} (h : l.Sound) (hstarts : l.starts = .code) :
    Trailing l.rest := by
  have hreads := h.reads
  rw [hstarts] at hreads
  rw [Line.rest, Line.text, h.codeEnd]
  exact trailing_drop_of_reads hreads

theorem isQuote_eq_false_of_isIdentifierPart {c : Char} (h : isIdentifierPart c = true) :
    isQuote c = false := by
  by_contra hq
  rw [Bool.not_eq_false] at hq
  rcases isQuote_iff.mp hq with rfl | rfl <;> cases h

/-- A declaration's head has no quotes. -/
theorem nameAfterHead_map_plainQuote (s : List Char) :
    nameAfterHead (s.map plainQuote) = nameAfterHead s := by
  have hquote : ∀ {name : List Char}, (∀ c ∈ name, isIdentifierPart c = true) →
      ∀ c ∈ interfaceHead ++ name, isQuote c = false := by
    intro name hpart c hc
    rcases List.mem_append.mp hc with hc | hc
    · have hhead : interfaceHead.all (!isQuote ·) = true := by decide
      simpa using List.all_eq_true.mp hhead c hc
    · exact isQuote_eq_false_of_isIdentifierPart (hpart c hc)
  refine Option.ext fun name => ?_
  rw [nameAfterHead_eq_some_iff, nameAfterHead_eq_some_iff]
  constructor
  · rintro ⟨rest, heq, hne, hpart, hends⟩
    obtain ⟨head, rest', rfl, hhead, rfl⟩ := List.map_eq_append_iff.mp heq
    rw [map_plainQuote_eq_iff (hquote hpart)] at hhead
    refine ⟨rest', by rw [hhead], hne, hpart, fun c hc => ?_⟩
    by_contra hc'
    rw [Bool.not_eq_false] at hc'
    have hplain := (plainQuote_eq_iff (isQuote_eq_false_of_isIdentifierPart hc')).mpr rfl
    rw [hends c (by rw [List.head?_map, hc, Option.map_some, hplain])] at hc'
    cases hc'
  · rintro ⟨rest, rfl, hne, hpart, hends⟩
    refine ⟨rest.map plainQuote, ?_, hne, hpart, fun c hc => ?_⟩
    · rw [List.map_append, (map_plainQuote_eq_iff (hquote hpart)).mpr rfl]
    · rw [List.head?_map, Option.map_eq_some_iff] at hc
      obtain ⟨d, hd, rfl⟩ := hc
      have hd' := hends d hd
      by_contra hc'
      rw [Bool.not_eq_false] at hc'
      have hself := (plainQuote_eq_iff (isQuote_eq_false_of_isIdentifierPart hc')).mp rfl
      rw [hself, hc'] at hd'
      cases hd'

theorem interfaceName?_append (h : Trailing w) (s : List Char) :
    interfaceName? (s ++ w) = interfaceName? s := by
  unfold interfaceName?
  cases hblank : isBlankText s with
  | false => rw [trimStart_append_of_not_blank hblank, nameAfterHead_append h]
  | true =>
      rw [trimStart_append hblank, trimStart_eq_nil_iff.mpr hblank]
      obtain ⟨b, t, rfl, hb, ht⟩ := h
      have hsolid : StartsSolid t := by
        intro c hc
        rcases ht c hc with rfl | hsep
        · decide
        · rcases isSeparator_iff.mp hsep with rfl | rfl <;> decide
      rw [trimStart_append hb, hsolid.trimStart_eq]
      exact nameAfterHead_append ⟨[], t, rfl, rfl, ht⟩ []

/-- White space at the ends of a line and its quotes are no matter for what it declares. -/
theorem interfaceName?_bare (s : List Char) : interfaceName? (bare s) = interfaceName? s := by
  obtain ⟨b, hb, hs⟩ := exists_trimEnd (trimStart s)
  have htrailing : Trailing b := ⟨b, [], (List.append_nil b).symm, hb, fun c hc => by cases hc⟩
  have htrim : interfaceName? (trim s) = interfaceName? s := by
    unfold interfaceName?
    rw [(startsSolid_trim s).trimStart_eq, trim]
    conv => rhs; rw [hs]
    rw [nameAfterHead_append htrailing]
  rw [← htrim, bare, interfaceName?, trimStart_map_plainQuote, nameAfterHead_map_plainQuote]
  rfl

theorem Line.Sound.interfaceName?_edited {l : Line} (h : l.Sound) (hstarts : l.starts = .code)
    (hout : Edited l out) : interfaceName? out = interfaceName? l.text := by
  have hrest := h.trailing_rest hstarts
  rw [← interfaceName?_bare out]
  cases hout with
  | same hsame => rw [hsame, interfaceName?_bare]
  | inserted hsep _ hsame =>
      rw [hsame, interfaceName?_bare, l.text_eq, interfaceName?_append (trailing_separator hsep _),
        interfaceName?_append hrest]
  | removed hsep _ hcode hsame =>
      rw [hsame, interfaceName?_bare, l.text_eq, hcode, List.append_assoc, List.singleton_append,
        interfaceName?_append (trailing_separator hsep _), interfaceName?_append hrest]

-- ============================================================================
-- Formatted programs
-- ============================================================================

/-- An empty line declares nothing. -/
theorem declaredFrom_nil_cons (m : Mode) (raws : List (List Char)) :
    declaredFrom m ([] :: raws) = declaredFrom m raws := by
  rw [declaredFrom, scan_nil, show interfaceName? [] = none from rfl]
  split <;> rfl

theorem declaredFrom_append (m : Mode) (raws raws' : List (List Char)) :
    declaredFrom m (raws ++ raws') =
      declaredFrom m raws ++ declaredFrom (endMode m raws) raws' := by
  induction raws generalizing m with
  | nil => rfl
  | cons raw raws ih =>
      rw [List.cons_append, declaredFrom, declaredFrom, endMode, ih, List.append_assoc]

theorem declaredFrom_collapse (m : Mode) (started gap : Bool) (outs : List OutputLine) :
    declaredFrom m (collapse started gap outs) = declaredFrom m (outs.map (·.text)) := by
  induction outs generalizing m started gap with
  | nil => rfl
  | cons o outs ih =>
      rw [collapse, List.map_cons]
      split
      · next hskip =>
        rw [Bool.and_eq_true, List.isEmpty_iff] at hskip
        rw [hskip.1, declaredFrom_nil_cons, ih]
      · split
        · rw [declaredFrom_nil_cons, declaredFrom, declaredFrom, ih]
        · rw [declaredFrom, declaredFrom, ih]

/-- What is put out for lines declares what the lines declare. -/
theorem declaredFrom_outputLines (style : CodeStyle) (c : Carry) (raws : List (List Char)) :
    declaredFrom c.mode ((outputLines style (linesAfter c raws)).map (·.text)) =
      declaredFrom c.mode raws := by
  induction raws generalizing c with
  | nil => rfl
  | cons raw raws ih =>
      have hsound := sound_lineOf c raw
      have hrest := ih (lineOf c raw).2
      rw [mode_lineOf] at hrest
      rw [linesAfter_cons, outputLines_cons, List.map_cons, declaredFrom, declaredFrom]
      generalize following? (linesAfter (lineOf c raw).2 raws) = f
      obtain ⟨hmode, -, -⟩ := hsound.scan_indentLine style f
      rw [starts_lineOf] at hmode
      rw [Line.output, hmode, hrest, (templatesOf_lineOf c raw).2]
      by_cases hcode : c.mode = .code
      · have hedited : Edited (lineOf c raw).1
            (indentLine style (lineOf c raw).1 (lineText style (lineOf c raw).1 f)).text := by
          refine (edited_lineText hsound style f).congr ?_
          rw [bare, (indented_indentLine style _ _).trim_eq, bare]
        have hname := hsound.interfaceName?_edited (by rw [starts_lineOf, hcode]) hedited
        rw [if_pos hcode, if_pos hcode, hname, ← interfaceName?_bare, bare, trim_text_lineOf,
          ← bare, interfaceName?_bare]
      · rw [if_neg hcode, if_neg hcode]

/-- Formatting keeps the declarations of a program, in order. -/
theorem declaredInterfaces_format (style : CodeStyle) (code : List Char) :
    declaredInterfaces (format style code) = declaredInterfaces (unifyNewlines code) := by
  have hwritten : declaredFrom .code (written style code) =
      declaredInterfaces (unifyNewlines code) :=
    (declaredFrom_collapse _ _ _ _).trans (declaredFrom_outputLines style {} _)
  rw [declaredInterfaces, splitOn_format]
  split
  · next hnil =>
    rw [hnil] at hwritten
    exact hwritten
  · rw [declaredFrom_append, hwritten, declaredFrom_nil_cons]
    exact List.append_nil _

-- ============================================================================
-- Programs in parts
-- ============================================================================

/-- Lines that lead from code to code. -/
structure WholeLines (s : List Char) : Prop where
  sealing : Sealed s
  ends : s ≠ [] → s.getLast? = some '\n'

namespace WholeLines

theorem nil : WholeLines [] := ⟨.nil, fun h => absurd rfl h⟩

theorem concat (h : Sealed s) : WholeLines (s ++ ['\n']) :=
  ⟨h.append (.of_all (by decide)), fun _ => List.getLast?_concat⟩

theorem append (hs : WholeLines s) (ht : WholeLines t) : WholeLines (s ++ t) where
  sealing := hs.sealing.append ht.sealing
  ends hne := by
    cases t with
    | nil =>
        rw [List.append_nil] at hne ⊢
        exact hs.ends hne
    | cons c t =>
        rw [List.getLast?_append_of_ne_nil _ (by simp)]
        exact ht.ends (by simp)

theorem flatMap {α : Type} {text : α → List Char} {xs : List α}
    (h : ∀ x ∈ xs, WholeLines (text x)) : WholeLines (xs.flatMap text) := by
  induction xs with
  | nil => exact nil
  | cons x xs ih =>
      rw [List.forall_mem_cons] at h
      exact h.1.append (ih h.2)

/-- Lines declare what they declare, whatever follows them. -/
theorem declaredInterfaces_append (h : WholeLines s) (t : List Char) :
    declaredInterfaces (s ++ t) = declaredInterfaces s ++ declaredInterfaces t := by
  rcases List.eq_nil_or_concat s with rfl | ⟨s, c, rfl⟩
  · rw [List.nil_append, declaredInterfaces, declaredInterfaces]
    rfl
  · rw [List.concat_eq_append] at h ⊢
    obtain rfl : c = '\n' := by
      have hlast := h.ends (by simp)
      rwa [List.getLast?_concat, Option.some.injEq] at hlast
    have hsplit : ∀ t, declaredInterfaces (s ++ '\n' :: t) =
        declaredInterfaces s ++ declaredInterfaces t := fun t => by
      rw [declaredInterfaces, splitOn_append_cons, declaredFrom_append, h.sealing.endMode_lines]
      rfl
    have hself : declaredInterfaces (s ++ ['\n']) = declaredInterfaces s :=
      (hsplit []).trans (List.append_nil _)
    rw [List.append_assoc, List.singleton_append, hsplit, hself]

theorem declaredInterfaces_flatMap {α : Type} {text : α → List Char} {xs : List α}
    (h : ∀ x ∈ xs, WholeLines (text x)) :
    declaredInterfaces (xs.flatMap text) = xs.flatMap fun x => declaredInterfaces (text x) := by
  induction xs with
  | nil => rfl
  | cons x xs ih =>
      rw [List.forall_mem_cons] at h
      rw [List.flatMap_cons, List.flatMap_cons, h.1.declaredInterfaces_append, ih h.2]

end WholeLines

/-- One line declares what it says by itself. -/
theorem declaredInterfaces_line (h : '\n' ∉ s) :
    declaredInterfaces (s ++ ['\n']) = (interfaceName? s).toList := by
  rw [declaredInterfaces, splitOn_concat, splitOn_of_not_mem h, List.singleton_append, declaredFrom,
    if_pos rfl, declaredFrom_nil_cons]
  exact List.append_nil _

/-- A line declares nothing if no white space follows the word that it begins with. -/
theorem interfaceName?_eq_none (h : ((trimStart s).dropWhile isIdentifierPart).head? ≠ some ' ') :
    interfaceName? s = none := by
  refine Option.eq_none_iff_forall_ne_some.mpr fun name hname => h ?_
  obtain ⟨rest, hstart⟩ := nameAfterHead_eq_some_iff.mp hname
  rw [hstart.eq]
  rfl

/-- A line that begins with a word and no white space after it declares nothing. -/
theorem interfaceName?_word (hu : ∀ c ∈ u, isIdentifierPart c = true)
    (hv : ∀ d, w.head? = some d → isBlank d = false ∧ isIdentifierPart d = false) :
    interfaceName? (u ++ w) = none := by
  have hsolid : StartsSolid (u ++ w) := by
    intro c hc
    cases u with
    | nil => exact (hv c hc).1
    | cons d u =>
        cases hc
        exact isBlank_eq_false_of_isIdentifierPart (hu c List.mem_cons_self)
  have hrest : w.dropWhile isIdentifierPart = w := by
    cases w with
    | nil => rfl
    | cons d w => rw [List.dropWhile_cons, (hv d rfl).2, if_neg (by simp)]
  refine interfaceName?_eq_none ?_
  rw [hsolid.trimStart_eq, List.dropWhile_append_of_pos hu, hrest]
  intro hspace
  exact absurd (hv ' ' hspace).1 (by decide)

-- ============================================================================
-- Headers
-- ============================================================================

/-- Lines that are held in a comment declare nothing. -/
theorem declaredFrom_held {lines : List (List Char)} (h : ∀ line ∈ lines, HeldLine line)
    (raws : List (List Char)) :
    declaredFrom .comment (lines ++ raws) = declaredFrom .comment raws := by
  induction lines with
  | nil => rfl
  | cons line lines ih =>
      rw [List.forall_mem_cons] at h
      rw [List.cons_append, declaredFrom, if_neg (by simp), h.1, List.nil_append]
      exact ih h.2

theorem unifyNewlines_append_of_head (ht : t.head? ≠ some '\n') :
    unifyNewlines (s ++ t) = unifyNewlines s ++ unifyNewlines t := by
  fun_induction unifyNewlines s with
  | case1 => rfl
  | case2 rest ih => rw [List.cons_append, List.cons_append, unifyNewlines, ih, List.cons_append]
  | case3 c rest hpair ih =>
      rw [List.cons_append, unifyNewlines, ih, List.cons_append]
      rintro rest' hc hrest
      cases rest with
      | nil =>
          rw [List.nil_append] at hrest
          exact ht (by rw [hrest]; rfl)
      | cons d rest =>
          rw [List.cons_append, List.cons.injEq] at hrest
          exact hpair rest hc (by rw [hrest.1])

/-- A text that ends a line still does when its line breaks are unified. -/
theorem exists_unifyNewlines_concat (s : List Char) :
    ∃ s', unifyNewlines (s ++ ['\n']) = s' ++ ['\n'] := by
  fun_induction unifyNewlines s with
  | case1 => exact ⟨[], rfl⟩
  | case2 rest ih =>
      obtain ⟨s', hs'⟩ := ih
      exact ⟨'\n' :: s', by rw [List.cons_append, List.cons_append, unifyNewlines, hs']; rfl⟩
  | case3 c rest hpair ih =>
      obtain ⟨s', hs'⟩ := ih
      by_cases hreturn : c = '\r' ∧ rest = []
      · rw [hreturn.1, hreturn.2]
        exact ⟨[], rfl⟩
      · refine ⟨(if c = '\r' then '\n' else c) :: s', ?_⟩
        rw [List.cons_append, unifyNewlines, hs', List.cons_append]
        rintro rest' hc hrest
        cases rest with
        | nil => exact hreturn ⟨hc, rfl⟩
        | cons d rest =>
            rw [List.cons_append, List.cons.injEq] at hrest
            exact hpair rest hc (by rw [hrest.1])

/-- A comment of lines at the start of a program declares nothing. -/
theorem declaredInterfaces_header (h : ¬ ['*', '/'] <:+: s) (t : List Char) :
    declaredInterfaces (unifyNewlines
      ('/' :: '*' :: '*' :: '\n' :: (s ++ '\n' :: " */\n\n".toList) ++ t)) =
      declaredInterfaces (unifyNewlines t) := by
  obtain ⟨s', hs'⟩ := exists_unifyNewlines_concat s
  have hheld : ∀ line ∈ splitOn '\n' s', HeldLine line := by
    have hwithout : Without leavesComment ['\n'] s := (without_newline_iff s []).mpr
      ((without_iff s).mpr h)
    have hline : Without leavesComment [] (s ++ ['\n']) :=
      without_append.mpr ⟨hwithout, by simp [leavesComment]⟩
    rw [← without_unifyNewlines, hs', ← heldLines_iff, splitOn_concat] at hline
    exact fun line hmem => hline line (List.mem_append_left _ hmem)
  have hunify : unifyNewlines
      ('/' :: '*' :: '*' :: '\n' :: (s ++ '\n' :: " */\n\n".toList) ++ t) =
        "/**".toList ++ '\n' ::
          (s' ++ '\n' :: (" */".toList ++ '\n' :: '\n' :: unifyNewlines t)) := by
    have hparts : '/' :: '*' :: '*' :: '\n' :: (s ++ '\n' :: " */\n\n".toList) ++ t =
        "/**\n".toList ++ ((s ++ ['\n']) ++ (" */\n\n".toList ++ t)) := by simp
    rw [hparts, unifyNewlines_append (by decide), unifyNewlines_append_of_head (by simp), hs',
      unifyNewlines_append (by decide)]
    simp
  have hcomment : splitOn '\n' "/**".toList = ["/**".toList] := splitOn_of_not_mem (by decide)
  have hlast : splitOn '\n' " */".toList = [" */".toList] := splitOn_of_not_mem (by decide)
  rw [hunify, declaredInterfaces, splitOn_append_cons, splitOn_append_cons, splitOn_append_cons,
    splitOn_cons_self, hcomment, hlast, List.singleton_append, declaredFrom]
  rw [show (scan .code "/**".toList).mode = .comment from by decide, declaredFrom_held hheld,
    List.singleton_append, declaredFrom, declaredFrom_nil_cons]
  rw [show (scan .comment " */".toList).mode = .code from by decide]
  rfl

end Flowscript.Format

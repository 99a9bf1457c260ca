/-
  Flowscript.Proofs.LineStart

  What the rules see of a line's code: its characters and how it begins.

  The rules ask whether code begins with certain texts, all of them without quotes,
  separators and white space, and how many closing brackets it begins with.  Neither
  answer changes with the quotes of a line, with white space at its ends, or with a
  separator at the end of its code (`SameStart`).
-/
import Mathlib.Data.List.Forall2
import Flowscript.Proofs.Indentation

namespace Flowscript.Format

open Text

variable {m e : Mode} {ss ss' : List Segment} {s t u p x y : List Char} {c d : Char}

-- ============================================================================
-- Segments with other quotes
-- ============================================================================

/-- The same segment, but for the quotes of a literal. -/
structure Segment.Alike (s s' : Segment) : Prop where
  kind : s'.kind = s.kind
  quotes : s'.text.map plainQuote = s.text.map plainQuote
  code : s.kind = .code → s'.text = s.text

theorem Segment.Alike.refl (s : Segment) : s.Alike s := ⟨rfl, rfl, fun _ => rfl⟩

theorem alike_refl (ss : List Segment) : List.Forall₂ Segment.Alike ss ss :=
  List.forall₂_same.mpr fun s _ => .refl s

/-- Other quotes are nothing but other quotes. -/
theorem Reads.alike_requote {target : Char} (ht : isQuote target = true) (h : Reads m ss e) :
    List.Forall₂ Segment.Alike ss (requoteSegments target ss) := by
  have hquotes := h.exists_quote
  clear h
  induction ss with
  | nil => exact .nil
  | cons s ss ih =>
      rw [requoteSegments_cons]
      refine .cons ?_ (ih fun s hs => hquotes s (List.mem_cons_of_mem _ hs))
      by_cases hs : s.kind = .string
      · obtain ⟨q, r, hq, htext⟩ := hquotes s List.mem_cons_self hs
        rw [if_pos hs]
        refine ⟨rfl, ?_, fun hcode => by rw [hs] at hcode; cases hcode⟩
        rw [htext]
        exact Format.map_plainQuote_requote ht hq r
      · rw [if_neg hs]
        exact .refl s

theorem Segment.Alike.isBlankText_eq {s s' : Segment} (h : s.Alike s') :
    isBlankText s'.text = isBlankText s.text := by
  rw [← isBlankText_map_plainQuote, h.quotes, isBlankText_map_plainQuote]

theorem Segment.Alike.bears_eq {s s' : Segment} (h : s.Alike s') : s'.bears = s.bears := by
  rw [Segment.bears, Segment.bears, h.kind, h.isBlankText_eq]

-- ============================================================================
-- Characters of code
-- ============================================================================

/-- The characters of code and literals, without white space. -/
def programOf (ss : List Segment) : List Char :=
  ss.flatMap fun s => if s.kind = .comment then [] else s.text.filter (!isBlank ·)

@[simp] theorem programOf_nil : programOf [] = [] := rfl

theorem programOf_cons (s : Segment) (ss : List Segment) :
    programOf (s :: ss) =
      (if s.kind = .comment then [] else s.text.filter (!isBlank ·)) ++ programOf ss := rfl

theorem filter_blank_eq_nil (h : isBlankText s = true) : s.filter (!isBlank ·) = [] := by
  refine List.filter_eq_nil_iff.mpr fun d hd => ?_
  simp [isBlankText_iff.mp h d hd]

theorem filter_trimEnd (s : List Char) :
    (trimEnd s).filter (!isBlank ·) = s.filter (!isBlank ·) := by
  obtain ⟨b, hb, hs⟩ := exists_trimEnd s
  conv => rhs; rw [hs, List.filter_append, filter_blank_eq_nil hb, List.append_nil]

theorem getLast?_trimEnd (s : List Char) :
    (trimEnd s).getLast? = (s.filter (!isBlank ·)).getLast? := by
  rw [← filter_trimEnd]
  have hsolid := endsSolid_trimEnd s
  rcases List.eq_nil_or_concat (trimEnd s) with hnil | ⟨u, d, hu⟩
  · rw [hnil]
    rfl
  · rw [List.concat_eq_append] at hu
    rw [hu] at hsolid ⊢
    have hd : isBlank d = false := hsolid d (by simp)
    simp [hd]

theorem Segment.filter_eq_nil_iff (s : Segment) :
    (if s.kind = .comment then [] else s.text.filter (!isBlank ·)) = [] ↔ s.bears = false := by
  rw [Segment.bears]
  by_cases hk : s.kind = .comment
  · simp [hk]
  · rw [if_neg hk]
    simp only [ne_eq, hk, not_false_eq_true, decide_true, Bool.true_and, Bool.not_eq_false']
    rw [isBlankText_iff, List.filter_eq_nil_iff]
    simp

theorem programOf_eq_nil_iff : programOf ss = [] ↔ bearCode ss = false := by
  induction ss with
  | nil => simp
  | cons s ss ih =>
      rw [programOf_cons, List.append_eq_nil_iff, s.filter_eq_nil_iff, ih, bearCode_cons,
        Bool.or_eq_false_iff]

theorem length_programOf_le (ss : List Segment) :
    (programOf ss).length ≤ codeEndFrom 0 0 ss := by
  induction ss with
  | nil => simp
  | cons s ss ih =>
      rw [programOf_cons, List.length_append, codeEndFrom_cons]
      have hfilter : (if s.kind = .comment then [] else s.text.filter (!isBlank ·)).length ≤
          (trimEnd s.text).length := by
        split
        · simp
        · rw [← filter_trimEnd]
          exact List.length_filter_le _ _
      have htrim := (prefix_of_trimEnd s.text).length_le
      by_cases hss : bearCode ss = true
      · rw [if_pos hss]
        omega
      · rw [if_neg hss]
        rw [Bool.not_eq_true] at hss
        rw [programOf_eq_nil_iff.mpr hss, List.length_nil, Nat.add_zero]
        by_cases hs : s.bears = true
        · rw [if_pos hs]
          exact hfilter
        · rw [if_neg hs]
          rw [Bool.not_eq_true] at hs
          rw [s.filter_eq_nil_iff.mpr hs]
          simp

/-- The text up to the last character of code or literal. -/
def codeOf (ss : List Segment) : List Char := (textOf ss).take (codeEndFrom 0 0 ss)

theorem codeOf_cons (s : Segment) (ss : List Segment) :
    codeOf (s :: ss) =
      if bearCode ss then s.text ++ codeOf ss else if s.bears then trimEnd s.text else [] := by
  rw [codeOf, codeEndFrom_cons, textOf_cons]
  split
  · rw [List.take_length_add_append]
    rfl
  · split
    · obtain ⟨b, hb⟩ := prefix_of_trimEnd s.text
      conv => lhs; arg 2; rw [← hb, List.append_assoc]
      exact List.take_left
    · rfl

theorem getLast?_codeOf (ss : List Segment) : (codeOf ss).getLast? = (programOf ss).getLast? := by
  induction ss with
  | nil => rfl
  | cons s ss ih =>
      rw [codeOf_cons, programOf_cons]
      by_cases hss : bearCode ss = true
      · have hne : programOf ss ≠ [] := by
          rw [Ne, programOf_eq_nil_iff, hss]
          simp
        have hne' : codeOf ss ≠ [] := by
          intro hnil
          rw [hnil] at ih
          exact hne (List.getLast?_eq_none_iff.mp ih.symm)
        rw [if_pos hss, List.getLast?_append_of_ne_nil _ hne', ih,
          List.getLast?_append_of_ne_nil _ hne]
      · rw [if_neg hss]
        rw [Bool.not_eq_true] at hss
        rw [programOf_eq_nil_iff.mpr hss, List.append_nil]
        by_cases hs : s.bears = true
        · have hk : s.kind ≠ .comment := by
            rintro hk
            simp [Segment.bears, hk] at hs
          rw [if_pos hs, if_neg hk, getLast?_trimEnd]
        · rw [if_neg hs]
          rw [Bool.not_eq_true] at hs
          rw [s.filter_eq_nil_iff.mpr hs]

theorem filter_map_plainQuote (s : List Char) :
    (s.map plainQuote).filter (!isBlank ·) = (s.filter (!isBlank ·)).map plainQuote := by
  rw [List.filter_map]
  exact congrArg (fun f => (s.filter f).map plainQuote)
    (funext fun d => congrArg (!·) (isBlank_plainQuote d))

theorem map_plainQuote_programOf (h : List.Forall₂ Segment.Alike ss ss') :
    (programOf ss').map plainQuote = (programOf ss).map plainQuote := by
  induction h with
  | nil => rfl
  | cons hs _ ih =>
      rw [programOf_cons, programOf_cons, List.map_append, List.map_append, ih, hs.kind]
      split
      · rfl
      · rw [← filter_map_plainQuote, hs.quotes, filter_map_plainQuote]

theorem programOf_of_isBlankText (h : isBlankText (textOf ss) = true) : programOf ss = [] := by
  refine List.flatMap_eq_nil_iff.mpr fun s hs => ?_
  split
  · rfl
  · refine filter_blank_eq_nil (isBlankText_iff.mpr fun d hd => ?_)
    exact isBlankText_iff.mp h d (List.mem_flatMap.mpr ⟨s, hs, hd⟩)

theorem programOf_trimEnd (ss : List Segment) : programOf (trimEndSegments ss) = programOf ss := by
  induction ss with
  | nil => rfl
  | cons s ss ih =>
      rw [trimEndSegments_cons]
      split
      · next hnil =>
        have hrest : programOf ss = [] :=
          programOf_of_isBlankText (trimEndSegments_eq_nil_iff.mp hnil)
        rw [programOf_cons, hrest, List.append_nil]
        split
        · next hs =>
          rw [filter_blank_eq_nil (trimEnd_eq_nil_iff.mp hs)]
          simp
        · rw [programOf_cons, programOf_nil, List.append_nil]
          simp only [filter_trimEnd]
      · rw [programOf_cons, programOf_cons, ih]

theorem Releads.programOf_eq (h : Releads ss ss') : programOf ss' = programOf ss := by
  cases h
  rfl

theorem Inserted.programOf_eq (hc : isSeparator c = true) (h : Inserted c ss ss') :
    programOf ss' = programOf ss ++ [c] := by
  have hsolid := isBlank_eq_false_of_isSeparator hc
  induction h with
  | within hb _ hquiet =>
      rw [programOf_cons, programOf_cons, programOf_eq_nil_iff.mpr hquiet]
      simp [hsolid, filter_blank_eq_nil hb]
  | fresh _ hquiet =>
      rw [programOf_cons, programOf_eq_nil_iff.mpr hquiet]
      simp [hsolid]
  | inString _ =>
      rw [programOf_cons, programOf_cons, programOf_nil, if_neg (by simp), if_neg (by simp),
        List.append_nil, List.append_nil, ← List.cons_append, List.filter_append]
      simp [hsolid]
  | later _ _ ih => rw [programOf_cons, programOf_cons, ih, List.append_assoc]

-- ============================================================================
-- Beginnings
-- ============================================================================

theorem startsWith_iff : startsWith p s = true ↔ p <+: s := by
  rw [startsWith, Option.isSome_iff_exists]
  constructor
  · rintro ⟨r, hr⟩
    exact ⟨r, (eq_append_of_after? hr).symm⟩
  · rintro ⟨r, rfl⟩
    exact ⟨r, after?_append p r⟩

/-- Texts that a beginning is compared with. -/
def isProbe (p : List Char) : Bool := p.all fun d => !isBlank d && !isSeparator d && !isQuote d

/-- Two texts that begin alike for the rules. -/
structure SameStart (s t : List Char) : Prop where
  starts : ∀ p, isProbe p = true → startsWith p s = startsWith p t
  closers : leadingClosers s = leadingClosers t

theorem SameStart.refl (s : List Char) : SameStart s s := ⟨fun _ _ => rfl, rfl⟩

theorem SameStart.symm (h : SameStart s t) : SameStart t s :=
  ⟨fun p hp => (h.starts p hp).symm, h.closers.symm⟩

theorem SameStart.trans (h : SameStart s t) (h' : SameStart t u) : SameStart s u :=
  ⟨fun p hp => (h.starts p hp).trans (h'.starts p hp), h.closers.trans h'.closers⟩

theorem SameStart.startsWithAny_eq {starts : List (List Char)} (h : SameStart s t)
    (hp : ∀ p ∈ starts, isProbe p = true) : startsWithAny starts s = startsWithAny starts t := by
  induction starts with
  | nil => rfl
  | cons p starts ih =>
      rw [List.forall_mem_cons] at hp
      rw [startsWithAny, List.any_cons, h.starts p hp.1]
      exact congrArg _ (ih hp.2)

theorem isProbe_eq_false (h : isProbe p = true) (hd : d ∈ p) :
    isBlank d = false ∧ isSeparator d = false ∧ isQuote d = false := by
  have hall := List.all_eq_true.mp h d hd
  simpa [and_assoc] using hall

/-- A text without quotes is found whatever quotes stand around it. -/
theorem prefix_map_plainQuote_iff (hp : ∀ d ∈ p, isQuote d = false) :
    p <+: s.map plainQuote ↔ p <+: s := by
  induction p generalizing s with
  | nil => simp
  | cons d p ih =>
      rw [List.forall_mem_cons] at hp
      cases s with
      | nil => simp
      | cons c s =>
          rw [List.map_cons, List.cons_prefix_cons, List.cons_prefix_cons, ih hp.2,
            eq_comm, plainQuote_eq_iff hp.1, eq_comm]

theorem map_plainQuote_eq_iff (hp : ∀ d ∈ p, isQuote d = false) :
    s.map plainQuote = p ↔ s = p := by
  constructor
  · intro h
    have hinit : p <+: s := (prefix_map_plainQuote_iff hp).mp (h ▸ List.prefix_rfl)
    exact (hinit.eq_of_length (by rw [← h, List.length_map])).symm
  · rintro rfl
    have hinit : s <+: s.map plainQuote := (prefix_map_plainQuote_iff hp).mpr List.prefix_rfl
    exact (hinit.eq_of_length (by rw [List.length_map])).symm

theorem isCloser_plainQuote (c : Char) : isCloser (plainQuote c) = isCloser c := by
  unfold plainQuote
  split
  · next h =>
    rw [h]
    decide
  · rfl

theorem leadingClosers_map_plainQuote (s : List Char) :
    leadingClosers (s.map plainQuote) = leadingClosers s := by
  induction s with
  | nil => rfl
  | cons c s ih =>
      rw [List.map_cons, leadingClosers, leadingClosers, isCloser_plainQuote, isBlank_plainQuote,
        ih]

/-- Quotes are no matter. -/
theorem sameStart_of_map_plainQuote (h : s.map plainQuote = t.map plainQuote) : SameStart s t := by
  constructor
  · intro p hp
    have hquotes : ∀ d ∈ p, isQuote d = false := fun d hd => (isProbe_eq_false hp hd).2.2
    rw [Bool.eq_iff_iff, startsWith_iff, startsWith_iff, ← prefix_map_plainQuote_iff hquotes, h,
      prefix_map_plainQuote_iff hquotes]
  · rw [← leadingClosers_map_plainQuote, h, leadingClosers_map_plainQuote]

/-- Nor is what follows with a character that no beginning has. -/
theorem sameStart_append (hy : ∀ d, y.head? = some d → isProbe [d] = false)
    (hclosers : leadingClosers y = 0) : SameStart (x ++ y) x := by
  constructor
  · intro p hp
    rw [Bool.eq_iff_iff, startsWith_iff, startsWith_iff]
    refine ⟨fun h => ?_, fun h => h.trans (List.prefix_append x y)⟩
    obtain ⟨z, hz⟩ := h
    rcases List.append_eq_append_iff.mp hz with ⟨r, hx, -⟩ | ⟨r, rfl, hr⟩
    · exact ⟨r, hx.symm⟩
    · cases r with
      | nil => simp
      | cons d r =>
          have hhead : y.head? = some d := by rw [hr]; rfl
          have hprobe : isProbe [d] = true := by
            have hmem : d ∈ x ++ d :: r := by simp
            obtain ⟨hblank, hsep, hquote⟩ := isProbe_eq_false hp hmem
            simp [isProbe, hblank, hsep, hquote]
          rw [hy d hhead] at hprobe
          cases hprobe
  · induction x with
    | nil => exact hclosers
    | cons c x ih => rw [List.cons_append, leadingClosers, leadingClosers, ih]

theorem leadingClosers_of_isBlankText (h : isBlankText s = true) : leadingClosers s = 0 := by
  induction s with
  | nil => rfl
  | cons c s ih =>
      rw [isBlankText_cons, Bool.and_eq_true] at h
      have hc : isCloser c = false := by
        rw [← Bool.not_eq_true, isCloser]
        intro hcloser
        simp only [Bool.or_eq_true, decide_eq_true_eq, or_assoc] at hcloser
        rcases hcloser with rfl | rfl | rfl <;> cases h.1
      rw [leadingClosers, hc, h.1, ih h.2]
      rfl

theorem sameStart_append_blank (hy : isBlankText y = true) : SameStart (x ++ y) x := by
  refine sameStart_append (fun d hd => ?_) (leadingClosers_of_isBlankText hy)
  have hblank := isBlankText_iff.mp hy d (List.mem_of_mem_head? hd)
  simp [isProbe, hblank]

theorem sameStart_append_separator (hc : isSeparator c = true) : SameStart (x ++ c :: y) x := by
  refine sameStart_append (fun d hd => ?_) ?_
  · cases hd
    simp [isProbe, hc]
  · rcases isSeparator_iff.mp hc with rfl | rfl <;> rfl

-- ============================================================================
-- The first code of a line
-- ============================================================================

@[simp] theorem leadingCode_nil : leadingCode [] = [] := rfl

theorem leadingCode_cons (s : Segment) (ss : List Segment) :
    leadingCode (s :: ss) = if s.bears then trimStart s.text else leadingCode ss := by
  rw [leadingCode, List.find?_cons]
  rw [show (decide (s.kind ≠ .comment) && !isBlankText s.text) = s.bears from rfl]
  cases s.bears with
  | true => rfl
  | false => rfl

theorem leadingCode_eq_nil (h : bearCode ss = false) : leadingCode ss = [] := by
  induction ss with
  | nil => rfl
  | cons s ss ih =>
      rw [bearCode_cons, Bool.or_eq_false_iff] at h
      rw [leadingCode_cons, h.1, ih h.2]
      rfl

theorem sameStart_of_alike (h : List.Forall₂ Segment.Alike ss ss') :
    SameStart (leadingCode ss) (leadingCode ss') := by
  induction h with
  | nil => exact .refl _
  | cons hs _ ih =>
      rw [leadingCode_cons, leadingCode_cons, hs.bears_eq]
      split
      · refine sameStart_of_map_plainQuote ?_
        rw [← trimStart_map_plainQuote, ← trimStart_map_plainQuote, hs.quotes]
      · exact ih

theorem sameStart_trimEnd (ss : List Segment) :
    SameStart (leadingCode ss) (leadingCode (trimEndSegments ss)) := by
  induction ss with
  | nil => exact .refl _
  | cons s ss ih =>
      rw [trimEndSegments_cons]
      split
      · next hnil =>
        have hrest : leadingCode ss = [] := by
          refine leadingCode_eq_nil (programOf_eq_nil_iff.mp ?_)
          exact programOf_of_isBlankText (trimEndSegments_eq_nil_iff.mp hnil)
        rw [leadingCode_cons, hrest]
        by_cases hs : trimEnd s.text = []
        · rw [if_pos hs, trimStart_eq_nil_iff.mpr (trimEnd_eq_nil_iff.mp hs)]
          simpa using SameStart.refl []
        · rw [if_neg hs]
          have hbears : Segment.bears ⟨s.kind, trimEnd s.text⟩ = s.bears := by
            rw [Segment.bears, Segment.bears, isBlankText_trimEnd]
          rw [leadingCode_cons, hbears, leadingCode_nil]
          split
          · obtain ⟨b, hb, htrim⟩ := exists_trimEnd (trimStart s.text)
            rw [show trimStart (trimEnd s.text) = trimEnd (trimStart s.text) from
              trimStart_trimEnd s.text]
            conv => arg 1; rw [htrim]
            exact sameStart_append_blank hb
          · exact .refl _
      · rw [leadingCode_cons, leadingCode_cons]
        split
        · exact .refl _
        · exact ih

theorem Releads.leadingCode_eq (h : Releads ss ss') : leadingCode ss' = leadingCode ss := by
  cases h
  rfl

/-- A separator after the code of a line is none at its beginning. -/
theorem Inserted.sameStart (hc : isSeparator c = true) (h : Inserted c ss ss')
    (hcode : bearCode ss = true) : SameStart (leadingCode ss) (leadingCode ss') := by
  induction h with
  | @within x b ss hb _ hquiet =>
      rw [bearCode_cons, hquiet, Bool.or_false] at hcode
      have hx : isBlankText x = false := by
        simpa [Segment.bears, hb] using hcode
      have hbears : Segment.bears ⟨.code, x ++ c :: b⟩ = true := by
        simp [Segment.bears, hx]
      rw [leadingCode_cons, leadingCode_cons, hcode, hbears, if_pos rfl, if_pos rfl,
        trimStart_append_of_not_blank hx, trimStart_append_of_not_blank hx]
      exact (sameStart_append_blank hb).trans (sameStart_append_separator hc).symm
  | fresh _ hquiet =>
      rw [hcode] at hquiet
      cases hquiet
  | @inString q b hq =>
      have hsolid : isBlank q = false := isBlank_eq_false_of_delimits (.string hq)
      have hbears : ∀ s, Segment.bears ⟨.string, q :: s⟩ = true := fun s => by
        simp [Segment.bears, hsolid]
      rw [leadingCode_cons, leadingCode_cons, hbears, hbears, if_pos rfl, if_pos rfl,
        (startsSolid_cons hsolid).trimStart_eq, (startsSolid_cons hsolid).trimStart_eq,
        ← List.cons_append]
      exact (sameStart_append_separator hc).symm
  | @later s ss ss' _ _ ih =>
      rw [leadingCode_cons, leadingCode_cons]
      split
      · exact .refl _
      · next hs =>
        rw [bearCode_cons, Bool.or_eq_true] at hcode
        exact ih (hcode.resolve_left hs)

/-- The level of a line depends on the beginning of its code. -/
theorem levelOf_congr (h : SameStart (leadingCode ss) (leadingCode ss'))
    (stack : List (Bracket × Nat)) (n : Nat) :
    levelOf m ss stack n = levelOf m ss' stack n := by
  unfold levelOf
  simp only
  rw [h.closers, h.starts ['.'] (by decide), h.starts ['.', '.', '.'] (by decide)]

end Flowscript.Format

/-
  Flowscript.Proofs.Reading

  What a scan finds, said without scanning.

  `Reads m ss e` says that the segments `ss` are a line that starts in mode `m` and ends
  in mode `e`: code up to where it has to stop, literals and comments that are closed,
  and at most one that is left open at the end.  Every line has exactly one reading, and
  it is what `scan` gives (`scan_eq_iff`).  Whoever changes the segments of a line shows
  that they still are a reading, and knows what the changed line scans to.
-/
import Flowscript.Format.Segment
import Flowscript.Proofs.Trimming

namespace Flowscript.Format

variable {stop : List Char → Bool} {next next' x y s t : List Char} {c q : Char}

-- ============================================================================
-- Texts that go on
-- ============================================================================

/-- The quotes of string literals. -/
def isQuote (c : Char) : Bool := c = '\'' || c = '"'

theorem isQuote_iff : isQuote c = true ↔ c = '\'' ∨ c = '"' := by simp [isQuote]

/-- Code ends where a literal or a comment begins. -/
def leavesCode : List Char → Bool
  | '/' :: '/' :: _ => true
  | '/' :: '*' :: _ => true
  | c :: _ => isQuote c || c = '`'
  | [] => false

/-- A block comment ends with a star and a slash. -/
def leavesComment : List Char → Bool
  | '*' :: '/' :: _ => true
  | _ => false

/-- Nowhere in the text, which goes on with `next`, is a place to stop. -/
def Without (stop : List Char → Bool) (next : List Char) : List Char → Prop
  | [] => True
  | c :: rest => stop (c :: (rest ++ next)) = false ∧ Without stop next rest

@[simp] theorem without_nil : Without stop next [] := trivial

@[simp] theorem without_cons :
    Without stop next (c :: s) ↔ stop (c :: (s ++ next)) = false ∧ Without stop next s := Iff.rfl

theorem without_append :
    Without stop next (x ++ y) ↔ Without stop (y ++ next) x ∧ Without stop next y := by
  induction x with
  | nil => simp
  | cons c x ih => simp [ih, and_assoc]

/-- Whether to stop shows in two characters, and a second one can only be a reason to stop. -/
structure ShortSighted (stop : List Char → Bool) : Prop where
  pair : ∀ c d s, stop (c :: d :: s) = stop [c, d]
  single : ∀ c d, stop [c, d] = false → stop [c] = false

theorem leavesCode_of_ne (hc : c ≠ '/') (s : List Char) :
    leavesCode (c :: s) = (isQuote c || decide (c = '`')) := by
  simp [leavesCode, hc]

theorem leavesCode_slash (d : Char) (s : List Char) :
    leavesCode ('/' :: d :: s) = (decide (d = '/') || decide (d = '*')) := by
  by_cases hd : d = '/' ∨ d = '*'
  · rcases hd with rfl | rfl <;> rfl
  · rw [not_or] at hd
    simp [leavesCode, hd.1, hd.2, isQuote]

theorem shortSighted_leavesCode : ShortSighted leavesCode where
  pair c d s := by
    by_cases hc : c = '/'
    · rw [hc, leavesCode_slash, leavesCode_slash]
    · rw [leavesCode_of_ne hc, leavesCode_of_ne hc]
  single c d h := by
    by_cases hc : c = '/'
    · rw [hc]
      rfl
    · rw [leavesCode_of_ne hc] at h ⊢
      exact h

/-- The second character is a reason to stop only after a slash. -/
theorem leavesCode_pair {d : Char} (hsingle : leavesCode [c] = false)
    (hpair : leavesCode [c, d] = true) : c = '/' ∧ (d = '/' ∨ d = '*') := by
  by_cases hc : c = '/'
  · rw [hc, leavesCode_slash] at hpair
    exact ⟨hc, by simpa using hpair⟩
  · rw [leavesCode_of_ne hc] at hsingle hpair
    rw [hsingle] at hpair
    cases hpair

theorem shortSighted_leavesComment : ShortSighted leavesComment where
  pair c d s := by
    by_cases hc : c = '*'
    · by_cases hd : d = '/' <;> simp [hc, hd, leavesComment]
    · simp [leavesComment, hc]
  single c d _ := by simp [leavesComment]

/-- What follows a text matters only by its first character, where that is a reason to stop. -/
theorem Without.congr (hstop : ShortSighted stop) (h : Without stop next s)
    (hnext : ∀ c d, s.getLast? = some c → next'.head? = some d → stop [c] = false →
      stop [c, d] = true → next.head? = some d) : Without stop next' s := by
  induction s with
  | nil => trivial
  | cons c s ih =>
      have hc := h.1
      cases s with
      | cons d s =>
          refine ⟨?_, ih h.2 fun c' d' hlast => hnext c' d' (by simpa using hlast)⟩
          rw [List.cons_append, hstop.pair] at hc ⊢
          exact hc
      | nil =>
          refine ⟨?_, trivial⟩
          rw [List.nil_append] at hc ⊢
          have hsingle : stop [c] = false := by
            cases next with
            | nil => exact hc
            | cons d next =>
                rw [hstop.pair] at hc
                exact hstop.single c d hc
          cases next' with
          | nil => exact hsingle
          | cons d' next' =>
              rw [hstop.pair]
              by_contra hstops
              rw [Bool.not_eq_false] at hstops
              have hhead := hnext c d' rfl rfl hsingle hstops
              cases next with
              | nil => cases hhead
              | cons d next =>
                  cases hhead
                  rw [hstop.pair, hstops] at hc
                  cases hc

/-- What follows a text may be cut off anywhere. -/
theorem Without.of_append (hstop : ShortSighted stop) (h : Without stop (next ++ next') s) :
    Without stop next s := by
  refine h.congr hstop fun c d _ hd _ _ => ?_
  cases next with
  | nil => cases hd
  | cons e next => exact hd

/-- The inside of a literal between two `q`: no `q` but after a backslash. -/
inductive Body (q : Char) : List Char → Prop
  | nil : Body q []
  | escape (d : Char) {s : List Char} : Body q s → Body q ('\\' :: d :: s)
  | char {c : Char} {s : List Char} : c ≠ q → c ≠ '\\' → Body q s → Body q (c :: s)

/-- The inside of a literal that is left open: the line may end after a backslash. -/
inductive OpenBody (q : Char) : List Char → Prop
  | nil : OpenBody q []
  | dangling : OpenBody q ['\\']
  | escape (d : Char) {s : List Char} : OpenBody q s → OpenBody q ('\\' :: d :: s)
  | char {c : Char} {s : List Char} : c ≠ q → c ≠ '\\' → OpenBody q s → OpenBody q (c :: s)

-- ============================================================================
-- Readings
-- ============================================================================

/-- The places inside of literals, and the character that ends them there. -/
inductive Delimits : Place → Char → Prop
  | string {q : Char} : isQuote q = true → Delimits (.string q) q
  | template : Delimits .template '`'

/-- The text of a literal or a comment that ends in this line.  One that an earlier line left
open starts at once. -/
inductive Closed : Mode → SegmentKind → List Char → Prop
  | literal {p : Place} {q : Char} {b : List Char} : Delimits p q → Body q b →
      Closed .code p.kind (q :: (b ++ [q]))
  | comment {b : List Char} : Without leavesComment ['*', '/'] b →
      Closed .code .comment ('/' :: '*' :: (b ++ ['*', '/']))
  | restOfTemplate {b : List Char} : Body '`' b → Closed .template .template (b ++ ['`'])
  | restOfComment {b : List Char} : Without leavesComment ['*', '/'] b →
      Closed .comment .comment (b ++ ['*', '/'])

/-- The text of a literal or a comment that goes on to the end of the line, and the mode it
leaves.  A string and a line comment end with the line. -/
inductive Opened : Mode → SegmentKind → List Char → Mode → Prop
  | literal {p : Place} {q : Char} {b : List Char} : Delimits p q → OpenBody q b →
      Opened .code p.kind (q :: b) p.mode
  | lineComment {b : List Char} : Opened .code .comment ('/' :: '/' :: b) .code
  | comment {b : List Char} : Without leavesComment [] b →
      Opened .code .comment ('/' :: '*' :: b) .comment
  | restOfTemplate {b : List Char} : b ≠ [] → OpenBody '`' b →
      Opened .template .template b .template
  | restOfComment {b : List Char} : b ≠ [] → Without leavesComment [] b →
      Opened .comment .comment b .comment

/-- The first segment, if any, is not code. -/
def LiteralFirst (ss : List Segment) : Prop := ∀ s, ss.head? = some s → s.kind ≠ .code

/-- The segments of a line that starts in one mode and ends in another. -/
inductive Reads : Mode → List Segment → Mode → Prop
  | nil (m : Mode) : Reads m [] m
  | code {t : List Char} {ss : List Segment} {e : Mode} : t ≠ [] →
      Without leavesCode (textOf ss) t → LiteralFirst ss → Reads .code ss e →
      Reads .code (⟨.code, t⟩ :: ss) e
  | closed {m e : Mode} {k : SegmentKind} {t : List Char} {ss : List Segment} :
      Closed m k t → Reads .code ss e → Reads m (⟨k, t⟩ :: ss) e
  | opened {m e : Mode} {k : SegmentKind} {t : List Char} : Opened m k t e →
      Reads m [⟨k, t⟩] e

variable {m e : Mode} {p : Place} {k : SegmentKind} {ss : List Segment} {b r : List Char}

theorem literalFirst_nil : LiteralFirst [] := by
  intro s hs
  cases hs

theorem literalFirst_cons (h : k ≠ .code) : LiteralFirst (⟨k, t⟩ :: ss) := by
  intro s hs
  cases hs
  exact h

theorem Delimits.kind_ne_code (h : Delimits p q) : p.kind ≠ .code := by
  cases h <;> simp [Place.kind]

theorem Delimits.ne_backslash (h : Delimits p q) : q ≠ '\\' := by
  rintro rfl
  cases h with
  | string hq => cases hq

theorem Delimits.ne_slash (h : Delimits p q) : q ≠ '/' := by
  rintro rfl
  cases h with
  | string hq => cases hq

/-- Code has to stop at a comment and at the start of a literal. -/
theorem leavesCode_iff :
    leavesCode s = true ↔ (∃ t, s = '/' :: '/' :: t) ∨ (∃ t, s = '/' :: '*' :: t) ∨
      ∃ p q t, Delimits p q ∧ s = q :: t := by
  constructor
  · intro h
    unfold leavesCode at h
    split at h
    · next t => exact .inl ⟨t, rfl⟩
    · next t => exact .inr (.inl ⟨t, rfl⟩)
    · next c t _ _ =>
      rw [Bool.or_eq_true, decide_eq_true_eq] at h
      rcases h with hq | rfl
      · exact .inr (.inr ⟨.string c, c, t, .string hq, rfl⟩)
      · exact .inr (.inr ⟨.template, _, t, .template, rfl⟩)
    · cases h
  · rintro (⟨t, rfl⟩ | ⟨t, rfl⟩ | ⟨p, q, t, hp, rfl⟩)
    · rfl
    · rfl
    · rw [leavesCode_of_ne hp.ne_slash]
      cases hp with
      | string hq => rw [hq, Bool.true_or]
      | template => rfl

-- ============================================================================
-- Steps of a scan
-- ============================================================================

@[simp] theorem Scan.push_nil (k : SegmentKind) (s : Scan) : s.push k [] = s := rfl

theorem Scan.push_of_ne_nil (k : SegmentKind) (hr : r ≠ []) (s : Scan) :
    s.push k r = ⟨⟨k, r.reverse⟩ :: s.segments, s.mode⟩ := by
  unfold Scan.push
  rw [if_neg (by simpa using hr)]

theorem scanFrom_nil (hr : r ≠ []) : scanFrom p r [] = ⟨[⟨p.kind, r.reverse⟩], p.mode⟩ := by
  have hpush : scanFrom p r [] = Scan.push p.kind r ⟨[], p.mode⟩ := by
    cases p <;> rfl
  rw [hpush, Scan.push_of_ne_nil _ hr]

theorem scanFrom_code_lineComment (r s : List Char) :
    scanFrom .code r ('/' :: '/' :: s) = (scanFrom .lineComment ['/', '/'] s).push .code r := rfl

theorem scanFrom_code_comment (r s : List Char) :
    scanFrom .code r ('/' :: '*' :: s) = (scanFrom .comment ['*', '/'] s).push .code r := rfl

theorem scanFrom_comment_code (r s : List Char) :
    scanFrom .comment r ('*' :: '/' :: s) =
      (scanFrom .code [] s).push .comment ('/' :: '*' :: r) := rfl

/-- A character with which the scan goes on where it is. -/
inductive Stays : Place → Char → List Char → Prop
  | code {c : Char} {s : List Char} : leavesCode (c :: s) = false → Stays .code c s
  | literal {p : Place} {q c : Char} {s : List Char} : Delimits p q → c ≠ q → c ≠ '\\' →
      Stays p c s
  | comment {c : Char} {s : List Char} : leavesComment (c :: s) = false → Stays .comment c s
  | lineComment {c : Char} {s : List Char} : Stays .lineComment c s

theorem scanFrom_of_stays (h : Stays p c s) : scanFrom p r (c :: s) = scanFrom p (c :: r) s := by
  cases h with
  | code h =>
      rw [scanFrom]
      · have hstay : isQuote c = false ∧ c ≠ '`' := by
          by_cases hc : c = '/'
          · exact ⟨by rw [hc]; rfl, by rw [hc]; decide⟩
          · simpa [leavesCode_of_ne hc] using h
        rw [if_neg (by simpa [isQuote] using hstay.1), if_neg hstay.2]
      · rintro t rfl rfl
        cases h
      · rintro t rfl rfl
        cases h
  | literal hp hq hc =>
      cases hp with
      | string _ =>
          rw [scanFrom, if_neg hq]
          intro d t hd
          exact absurd hd hc
      | template =>
          rw [scanFrom, if_neg hq]
          intro d t hd
          exact absurd hd hc
  | comment h =>
      rw [scanFrom]
      rintro t rfl rfl
      cases h
  | lineComment => rw [scanFrom]

theorem scanFrom_code_append (h : Without leavesCode next t) :
    scanFrom .code r (t ++ next) = scanFrom .code (t.reverse ++ r) next := by
  induction t generalizing r with
  | nil => rfl
  | cons c t ih =>
      rw [List.cons_append, scanFrom_of_stays (.code h.1), ih h.2, List.reverse_cons,
        List.append_assoc]
      rfl

theorem Delimits.scan_code (h : Delimits p q) :
    scanFrom .code r (q :: s) = (scanFrom p [q] s).push .code r := by
  cases h with
  | string hq => rcases isQuote_iff.mp hq with rfl | rfl <;> rfl
  | template => rfl

theorem Delimits.scan_close (h : Delimits p q) :
    scanFrom p r (q :: s) = (scanFrom .code [] s).push p.kind (q :: r) := by
  cases h with
  | string hq => rcases isQuote_iff.mp hq with rfl | rfl <;> rfl
  | template => rfl

theorem Delimits.scan_escape (h : Delimits p q) (d : Char) :
    scanFrom p r ('\\' :: d :: s) = scanFrom p (d :: '\\' :: r) s := by
  cases h with
  | string hq => rfl
  | template => rfl

theorem Delimits.scan_dangling (h : Delimits p q) :
    scanFrom p r ['\\'] = scanFrom p ('\\' :: r) [] := by
  have hq := h.ne_backslash
  cases h with
  | string _ => exact if_neg (Ne.symm hq)
  | template => rfl

theorem Delimits.scan_append (h : Delimits p q) (hb : Body q b) :
    scanFrom p r (b ++ q :: next) =
      (scanFrom .code [] next).push p.kind (q :: (b.reverse ++ r)) := by
  induction hb generalizing r with
  | nil => exact h.scan_close
  | escape d _ ih =>
      rw [List.cons_append, List.cons_append, h.scan_escape, ih]
      simp
  | char hq hb _ ih =>
      rw [List.cons_append, scanFrom_of_stays (.literal h hq hb), ih]
      simp

theorem Delimits.scan_open (h : Delimits p q) (hb : OpenBody q b) :
    scanFrom p r b = scanFrom p (b.reverse ++ r) [] := by
  induction hb generalizing r with
  | nil => rfl
  | dangling => exact h.scan_dangling
  | escape d _ ih =>
      rw [h.scan_escape, ih]
      simp
  | char hq hb _ ih =>
      rw [scanFrom_of_stays (.literal h hq hb), ih]
      simp

theorem scanFrom_comment_append (h : Without leavesComment next b) :
    scanFrom .comment r (b ++ next) = scanFrom .comment (b.reverse ++ r) next := by
  induction b generalizing r with
  | nil => rfl
  | cons c b ih =>
      rw [List.cons_append, scanFrom_of_stays (.comment h.1), ih h.2]
      simp

theorem scanFrom_lineComment (s : List Char) :
    scanFrom .lineComment r s = scanFrom .lineComment (s.reverse ++ r) [] := by
  induction s generalizing r with
  | nil => rfl
  | cons c s ih =>
      rw [scanFrom_of_stays .lineComment, ih]
      simp

-- ============================================================================
-- Every reading is what the scan finds
-- ============================================================================

/-- In front of what code has to stop at, the text read so far becomes a segment. -/
theorem scanFrom_code_stop (h : leavesCode (c :: s) = true) :
    scanFrom .code r (c :: s) = (scanFrom .code [] (c :: s)).push .code r := by
  rcases leavesCode_iff.mp h with ⟨t, ht⟩ | ⟨t, ht⟩ | ⟨p, q, t, hp, ht⟩
  · rw [ht, scanFrom_code_lineComment, scanFrom_code_lineComment, Scan.push_nil]
  · rw [ht, scanFrom_code_comment, scanFrom_code_comment, Scan.push_nil]
  · rw [ht, hp.scan_code, hp.scan_code, Scan.push_nil]

theorem scanFrom_comment_close (h : Without leavesComment ['*', '/'] b) (next : List Char) :
    scanFrom .comment r (b ++ ['*', '/'] ++ next) =
      (scanFrom .code [] next).push .comment ('/' :: '*' :: (b.reverse ++ r)) := by
  have hnext : Without leavesComment ('*' :: '/' :: next) b :=
    h.congr shortSighted_leavesComment fun _ _ _ hd _ _ => hd
  rw [List.append_assoc, List.cons_append, List.singleton_append, scanFrom_comment_append hnext,
    scanFrom_comment_code]

theorem scan_closed (h : Closed m k t) (next : List Char) :
    scan m (t ++ next) = ⟨⟨k, t⟩ :: (scan .code next).segments, (scan .code next).mode⟩ := by
  cases h with
  | literal hp hb =>
      show scanFrom .code [] _ = _
      rw [List.cons_append, hp.scan_code, List.append_assoc, List.singleton_append,
        hp.scan_append hb, Scan.push_nil, Scan.push_of_ne_nil _ (by simp)]
      simp [scan, Mode.place]
  | comment hb =>
      show scanFrom .code [] _ = _
      rw [List.cons_append, List.cons_append, scanFrom_code_comment, Scan.push_nil,
        scanFrom_comment_close hb, Scan.push_of_ne_nil _ (by simp)]
      simp [scan, Mode.place]
  | restOfTemplate hb =>
      show scanFrom .template [] _ = _
      rw [List.append_assoc, List.singleton_append, Delimits.template.scan_append hb,
        Scan.push_of_ne_nil _ (by simp)]
      simp [scan, Mode.place, Place.kind]
  | restOfComment hb =>
      show scanFrom .comment [] _ = _
      rw [scanFrom_comment_close hb, Scan.push_of_ne_nil _ (by simp)]
      simp [scan, Mode.place]

theorem scan_opened (h : Opened m k t e) : scan m t = ⟨[⟨k, t⟩], e⟩ := by
  cases h with
  | literal hp hb =>
      show scanFrom .code [] _ = _
      rw [hp.scan_code, hp.scan_open hb, scanFrom_nil (by simp)]
      simp
  | lineComment =>
      show scanFrom .code [] _ = _
      rw [scanFrom_code_lineComment, scanFrom_lineComment, scanFrom_nil (by simp)]
      simp [Place.kind, Place.mode]
  | comment hb =>
      show scanFrom .code [] _ = _
      have hrun := scanFrom_comment_append (r := ['*', '/']) hb
      rw [List.append_nil] at hrun
      rw [scanFrom_code_comment, hrun, scanFrom_nil (by simp)]
      simp [Place.kind, Place.mode]
  | restOfTemplate hne hb =>
      show scanFrom .template [] _ = _
      rw [Delimits.template.scan_open hb, scanFrom_nil (by simpa using hne)]
      simp [Place.kind, Place.mode]
  | restOfComment hne hb =>
      show scanFrom .comment [] _ = _
      have hrun := scanFrom_comment_append (r := []) hb
      rw [List.append_nil] at hrun
      rw [hrun, scanFrom_nil (by simpa using hne)]
      simp [Place.kind, Place.mode]

/-- A literal or a comment that starts in code starts where code has to stop. -/
theorem leavesCode_of_literalFirst (h : Reads .code ss e) (hfirst : LiteralFirst ss)
    (hne : ss ≠ []) : leavesCode (textOf ss) = true := by
  rw [leavesCode_iff]
  cases h with
  | nil => exact absurd rfl hne
  | code _ _ _ _ => exact absurd rfl (hfirst _ rfl)
  | closed hclosed _ =>
      cases hclosed with
      | literal hp _ => exact .inr (.inr ⟨_, _, _, hp, rfl⟩)
      | comment _ => exact .inr (.inl ⟨_, rfl⟩)
  | opened hopened =>
      cases hopened with
      | literal hp _ => exact .inr (.inr ⟨_, _, _, hp, rfl⟩)
      | lineComment => exact .inl ⟨_, rfl⟩
      | comment _ => exact .inr (.inl ⟨_, rfl⟩)

/-- A reading is what the scan of its text finds. -/
theorem Reads.scan_eq (h : Reads m ss e) : scan m (textOf ss) = ⟨ss, e⟩ := by
  induction h with
  | nil m => exact scan_nil m
  | @code t ss e hne hplain hfirst hrest ih =>
      have hpending : scanFrom .code t.reverse (textOf ss) =
          (scanFrom .code [] (textOf ss)).push .code t.reverse := by
        by_cases hss : ss = []
        · subst hss
          rfl
        · have hstop := leavesCode_of_literalFirst hrest hfirst hss
          cases htext : textOf ss with
          | nil => rw [htext] at hstop; cases hstop
          | cons c s => exact scanFrom_code_stop (htext ▸ hstop)
      show scanFrom .code [] _ = _
      rw [textOf_cons, scanFrom_code_append hplain, List.append_nil, hpending,
        Scan.push_of_ne_nil _ (by simpa using hne), List.reverse_reverse]
      have hscan : scanFrom .code [] (textOf ss) = ⟨ss, e⟩ := ih
      rw [hscan]
  | closed hclosed _ ih => rw [textOf_cons, scan_closed hclosed, ih]
  | opened hopened => rw [textOf_cons, textOf_nil, List.append_nil, scan_opened hopened]

-- ============================================================================
-- Every line has a reading
-- ============================================================================

/-- A text is plain code up to its end, or up to where code has to stop. -/
theorem exists_without_leavesCode (s : List Char) :
    ∃ t rest, s = t ++ rest ∧ Without leavesCode rest t ∧
      (rest = [] ∨ leavesCode rest = true) := by
  induction s with
  | nil => exact ⟨[], [], rfl, trivial, .inl rfl⟩
  | cons c s ih =>
      cases hstop : leavesCode (c :: s) with
      | true => exact ⟨[], c :: s, rfl, trivial, .inr hstop⟩
      | false =>
          obtain ⟨t, rest, rfl, hplain, hrest⟩ := ih
          exact ⟨c :: t, rest, rfl, ⟨hstop, hplain⟩, hrest⟩

/-- The text after the start of a literal closes it, or leaves it open. -/
theorem body_or_openBody (hq : q ≠ '\\') : (s : List Char) →
    (∃ b rest, s = b ++ q :: rest ∧ Body q b) ∨ OpenBody q s
  | [] => .inr .nil
  | c :: s => by
      by_cases hc : c = q
      · exact .inl ⟨[], s, by rw [hc]; rfl, .nil⟩
      by_cases hescape : c = '\\'
      · subst hescape
        cases s with
        | nil => exact .inr .dangling
        | cons d s =>
            rcases body_or_openBody hq s with ⟨b, rest, rfl, hb⟩ | hopen
            · exact .inl ⟨_, rest, rfl, .escape d hb⟩
            · exact .inr (.escape d hopen)
      · rcases body_or_openBody hq s with ⟨b, rest, rfl, hb⟩ | hopen
        · exact .inl ⟨_, rest, rfl, .char hc hescape hb⟩
        · exact .inr (.char hc hescape hopen)

/-- The text after the start of a block comment ends it, or leaves it open. -/
theorem exists_without_leavesComment (s : List Char) :
    (∃ b rest, s = b ++ ['*', '/'] ++ rest ∧ Without leavesComment ['*', '/'] b) ∨
      Without leavesComment [] s := by
  induction s with
  | nil => exact .inr trivial
  | cons c s ih =>
      cases hstop : leavesComment (c :: s) with
      | true =>
          unfold leavesComment at hstop
          split at hstop
          · next rest heq => exact .inl ⟨[], rest, by rw [heq]; rfl, trivial⟩
          · cases hstop
      | false =>
          rcases ih with ⟨b, rest, rfl, hb⟩ | hopen
          · refine .inl ⟨c :: b, rest, rfl, ?_, hb⟩
            cases b with
            | nil =>
                rw [List.nil_append, shortSighted_leavesComment.pair]
                rw [List.nil_append, List.cons_append, shortSighted_leavesComment.pair] at hstop
                exact hstop
            | cons d b =>
                rw [List.cons_append, shortSighted_leavesComment.pair]
                rw [List.cons_append, List.cons_append, shortSighted_leavesComment.pair] at hstop
                exact hstop
          · exact .inr ⟨by rw [List.append_nil]; exact hstop, hopen⟩

/-- Whatever starts with a literal or a comment has a reading, if all shorter texts do. -/
theorem exists_reads_of_leavesCode
    (ih : ∀ t : List Char, t.length < s.length → ∃ ss e, Reads .code ss e ∧ textOf ss = t)
    (hstop : leavesCode s = true) :
    ∃ ss e, Reads .code ss e ∧ textOf ss = s ∧ LiteralFirst ss := by
  rcases leavesCode_iff.mp hstop with ⟨t, rfl⟩ | ⟨t, rfl⟩ | ⟨p, q, t, hp, rfl⟩
  · exact ⟨_, _, .opened (.lineComment (b := t)), by simp, literalFirst_cons (by simp)⟩
  · rcases exists_without_leavesComment t with ⟨b, rest, rfl, hb⟩ | hopen
    · obtain ⟨ss, e, hss, htext⟩ := ih rest (by simp; omega)
      exact ⟨_, e, .closed (.comment hb) hss, by simp [htext], literalFirst_cons (by simp)⟩
    · exact ⟨_, _, .opened (.comment hopen), by simp, literalFirst_cons (by simp)⟩
  · have hcode := hp.kind_ne_code
    rcases body_or_openBody hp.ne_backslash t with ⟨b, rest, rfl, hb⟩ | hopen
    · obtain ⟨ss, e, hss, htext⟩ := ih rest (by simp; omega)
      exact ⟨_, e, .closed (.literal hp hb) hss, by simp [htext], literalFirst_cons hcode⟩
    · exact ⟨_, _, .opened (.literal hp hopen), by simp, literalFirst_cons hcode⟩

theorem exists_reads_code (s : List Char) : ∃ ss e, Reads .code ss e ∧ textOf ss = s := by
  induction hlen : s.length using Nat.strongRecOn generalizing s with
  | ind n ih =>
      subst hlen
      obtain ⟨t, rest, rfl, hplain, hrest⟩ := exists_without_leavesCode s
      by_cases ht : t = []
      · subst ht
        rcases hrest with rfl | hstop
        · exact ⟨[], .code, .nil _, rfl⟩
        · obtain ⟨ss, e, hss, htext, -⟩ :=
            exists_reads_of_leavesCode (fun u hu => ih _ hu u rfl) hstop
          exact ⟨ss, e, hss, htext⟩
      · rcases hrest with rfl | hstop
        · exact ⟨[⟨.code, t⟩], .code, .code ht hplain literalFirst_nil (.nil _), by simp⟩
        · have hshorter : ∀ u : List Char, u.length < rest.length →
              ∃ ss e, Reads .code ss e ∧ textOf ss = u := by
            intro u hu
            refine ih _ ?_ u rfl
            rw [List.length_append]
            omega
          obtain ⟨ss, e, hss, htext, hfirst⟩ := exists_reads_of_leavesCode hshorter hstop
          exact ⟨_, e, .code ht (htext ▸ hplain) hfirst hss, by simp [htext]⟩

theorem exists_reads (m : Mode) (s : List Char) : ∃ ss e, Reads m ss e ∧ textOf ss = s := by
  by_cases hs : s = []
  · exact ⟨[], m, .nil m, hs ▸ rfl⟩
  cases m with
  | code => exact exists_reads_code s
  | template =>
      rcases body_or_openBody (q := '`') (by decide) s with ⟨b, rest, rfl, hb⟩ | hopen
      · obtain ⟨ss, e, hss, htext⟩ := exists_reads_code rest
        exact ⟨_, e, .closed (.restOfTemplate hb) hss, by simp [htext]⟩
      · exact ⟨_, _, .opened (.restOfTemplate hs hopen), by simp⟩
  | comment =>
      rcases exists_without_leavesComment s with ⟨b, rest, rfl, hb⟩ | hopen
      · obtain ⟨ss, e, hss, htext⟩ := exists_reads_code rest
        exact ⟨_, e, .closed (.restOfComment hb) hss, by simp [htext]⟩
      · exact ⟨_, _, .opened (.restOfComment hs hopen), by simp⟩

/-- The scan of a line is its reading. -/
theorem scan_eq_iff : scan m s = ⟨ss, e⟩ ↔ Reads m ss e ∧ textOf ss = s := by
  constructor
  · intro h
    obtain ⟨ss', e', hreads, rfl⟩ := exists_reads m s
    have hscan := hreads.scan_eq
    rw [h] at hscan
    cases hscan
    exact ⟨hreads, rfl⟩
  · rintro ⟨hreads, rfl⟩
    exact hreads.scan_eq

theorem reads_scan (m : Mode) (s : List Char) :
    Reads m (scan m s).segments (scan m s).mode ∧ textOf (scan m s).segments = s :=
  scan_eq_iff.mp rfl

end Flowscript.Format

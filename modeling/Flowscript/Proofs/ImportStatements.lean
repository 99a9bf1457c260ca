/-
  Flowscript.Proofs.ImportStatements

  Import statements as texts, and what is read from them.

  A statement has one of nine forms (`Form`), with its source between quotes and maybe a
  semicolon.  Reading its text gives the statement of that form, whatever text follows
  (`statement?_text`), and what it binds is what the form says (`bound_statement`).
  Lists between braces may have any white space around their names.
-/
import Flowscript.Import.Block
import Flowscript.Proofs.DeclaredVariables
import Flowscript.Proofs.ImportSpecs
import Flowscript.Proofs.Words

namespace Flowscript.Import

open Naming (isIdentifier isIdentifierPart isIdentifierStart)
open Text (isBlank isBlankText)

variable {c q : Char} {n s rest source : List Char} {texts : List (List Char)}

-- ============================================================================
-- Names
-- ============================================================================

theorem isBlank_eq_false_of_isIdentifierPart (h : isIdentifierPart c = true) :
    isBlank c = false := by
  obtain ⟨hlow, hhigh⟩ := Naming.toNat_of_isIdentifierPart h
  simp only [isBlank, Bool.or_eq_false_iff, Bool.and_eq_false_iff, decide_eq_false_iff_not,
    beq_eq_false_iff_ne]
  omega

theorem continuesName_of_isIdentifierPart (h : isIdentifierPart c = true) :
    continuesName c = true := by
  have hascii : c.toNat < 128 := by
    have := (Naming.toNat_of_isIdentifierPart h).2
    omega
  simpa [continuesName, Text.isWord, hascii, isIdentifierPart] using h

theorem startsName_of_isIdentifierStart (h : isIdentifierStart c = true) : startsName c = true := h

theorem ne_nil_of_isIdentifier (h : isIdentifier n = true) : n ≠ [] := by
  rintro rfl
  cases h

theorem isBlank_of_mem_identifier (h : isIdentifier n = true) : ∀ c ∈ n, isBlank c = false :=
  fun _ hc => isBlank_eq_false_of_isIdentifierPart (Naming.isIdentifierPart_of_mem h hc)

theorem startsSolid_identifier (h : isIdentifier n = true) (s : List Char) :
    Text.StartsSolid (n ++ s) := by
  cases n with
  | nil => cases h
  | cons c n => exact Text.startsSolid_cons (isBlank_of_mem_identifier h c List.mem_cons_self)

theorem endsSolid_identifier (h : isIdentifier n = true) : Text.EndsSolid n :=
  fun c hc => isBlank_of_mem_identifier h c (List.mem_of_getLast? hc)

theorem trim_identifier (h : isIdentifier n = true) : Text.trim n = n := by
  have hstart := startsSolid_identifier h []
  rw [List.append_nil] at hstart
  rw [Text.trim, hstart.trimStart_eq, (endsSolid_identifier h).trimEnd_eq]

theorem isName_of_isIdentifier (h : isIdentifier n = true) : isName n = true := by
  cases n with
  | nil => cases h
  | cons c n =>
      have hparts : n.all continuesName = true := List.all_eq_true.mpr fun d hd =>
        continuesName_of_isIdentifierPart
          (Naming.isIdentifierPart_of_mem h (List.mem_cons_of_mem c hd))
      rw [isIdentifier, Bool.and_eq_true] at h
      rw [isName, startsName_of_isIdentifierStart h.1, hparts, Bool.and_self]

/-- A name is read up to a character that cannot continue it. -/
theorem name?_append (h : isIdentifier n = true) (hs : ∀ c ∈ s.head?, continuesName c = false) :
    name? (n ++ s) = some (n, s) := by
  cases n with
  | nil => cases h
  | cons d n =>
      have hparts : ∀ e ∈ n, continuesName e = true := fun e he =>
        continuesName_of_isIdentifierPart
          (Naming.isIdentifierPart_of_mem h (List.mem_cons_of_mem d he))
      have hstop : s.takeWhile continuesName = [] ∧ s.dropWhile continuesName = s := by
        cases s with
        | nil => simp
        | cons c s => simp [hs c rfl]
      rw [isIdentifier, Bool.and_eq_true] at h
      rw [List.cons_append, name?, if_pos (startsName_of_isIdentifierStart h.1),
        List.span_eq_takeWhile_dropWhile, List.takeWhile_append_of_pos hparts,
        List.dropWhile_append_of_pos hparts, hstop.1, hstop.2, List.append_nil]

-- ============================================================================
-- Sources
-- ============================================================================

/-- A source that stands between quotes as it is. -/
structure IsPlainSource (source : List Char) : Prop where
  ne_nil : source ≠ []
  notQuote : ∀ c ∈ source, isQuote c = false
  notEscaped : ∀ c ∈ source, c ≠ '\\' ∧ c ≠ '\n'

/-- A character that stands for itself between quotes. -/
def isPlainSourceChar (c : Char) : Bool := !isQuote c && c != '\\' && c != '\n'

theorem IsPlainSource.of_all (hne : source ≠ []) (h : source.all isPlainSourceChar = true) :
    IsPlainSource source := by
  simp only [List.all_eq_true, isPlainSourceChar, Bool.and_eq_true, Bool.not_eq_true',
    bne_iff_ne] at h
  exact ⟨hne, fun c hc => (h c hc).1.1, fun c hc => ⟨(h c hc).1.2, (h c hc).2⟩⟩

/-- A source between quotes. -/
def quotedText (q : Char) (source : List Char) : List Char := q :: source ++ [q]

theorem quote_eq_quotedText (h : IsPlainSource source) (hq : isQuote q = true) :
    Script.quote q source = quotedText q source := by
  have hplain : ∀ c ∈ source, Script.quoteChar q c = [c] := by
    intro c hc
    have hne : c ≠ q := by
      rintro rfl
      rw [h.notQuote c hc] at hq
      cases hq
    rw [Script.quoteChar, if_neg (h.notEscaped c hc).1, if_neg hne, if_neg (h.notEscaped c hc).2]
  have hsame : source.flatMap (Script.quoteChar q) = source := by
    rw [List.flatMap_congr hplain, List.flatMap_singleton']
  rw [Script.quote, hsame, quotedText]

theorem quoted?_quotedText (h : IsPlainSource source) (hq : isQuote q = true) (s : List Char) :
    quoted? (quotedText q source ++ s) = some (source, s) := by
  have htext : quotedText q source ++ s = q :: (source ++ q :: s) := by simp [quotedText]
  have hplain : ∀ c ∈ source, (!isQuote c) = true := fun c hc => by rw [h.notQuote c hc]; rfl
  have hspan : (source ++ q :: s).span (fun c => !isQuote c) = (source, q :: s) := by
    rw [List.span_eq_takeWhile_dropWhile, List.takeWhile_append_of_pos hplain,
      List.dropWhile_append_of_pos hplain, List.takeWhile_cons_of_neg (by simp [hq]),
      List.dropWhile_cons_of_neg (by simp [hq]), List.append_nil]
  rw [htext, quoted?, if_pos hq, hspan]
  cases source with
  | nil => exact absurd rfl h.ne_nil
  | cons c source => rfl

-- ============================================================================
-- Lists between braces
-- ============================================================================

/-- A name in a list between braces, as it is or renamed. -/
inductive Item where
  | same (name : List Char)
  | renamed (member name : List Char)

namespace Item

/-- An item, with `sep` between a member and its new name. -/
def spelled (sep : List Char) : Item → List Char
  | same a => a
  | renamed a b => a ++ (sep ++ b)

/-- An item in an import clause, `a` or `a as b`. -/
def inClause : Item → List Char := spelled [' ', 'a', 's', ' ']

/-- An item in a binding pattern, `a` or `a: b`. -/
def inPattern : Item → List Char := spelled [':', ' ']

def IsValid : Item → Prop
  | same a => isIdentifier a = true
  | renamed a b => isIdentifier a = true ∧ isIdentifier b = true

end Item

/-- The white space in a list between braces. -/
structure Layout where
  lead : List Char
  gap : List Char
  tail : List Char

/-- The text between the braces. -/
def Layout.body (l : Layout) (texts : List (List Char)) : List Char :=
  l.lead ++ Text.joinWith (',' :: l.gap) texts ++ l.tail

structure Layout.IsBlank (l : Layout) : Prop where
  lead : isBlankText l.lead = true
  gap : isBlankText l.gap = true
  tail : isBlankText l.tail = true

/-- A text with one space between its words, and no comma, as an entry of a list has to be. -/
structure IsEntry (t : List Char) : Prop where
  ne_nil : t ≠ []
  squeezed : Text.squeeze t = t
  noComma : ',' ∉ t

theorem isEntry_identifier (h : isIdentifier n = true) : IsEntry n where
  ne_nil := ne_nil_of_isIdentifier h
  squeezed := by
    rw [Text.squeeze, Text.words_solid (ne_nil_of_isIdentifier h) (isBlank_of_mem_identifier h),
      Text.joinWith_singleton]
  noComma := Naming.not_mem_of_isIdentifier h (by decide)

/-- Two words and what stands between them make an entry. -/
theorem isEntry_words {w w' : List Char} (hne : w ≠ []) (hw : ∀ d ∈ w, isBlank d = false)
    (hcomma : ',' ∉ w) (h' : IsEntry w') : IsEntry (w ++ ' ' :: w') where
  ne_nil := by simp [hne]
  squeezed := by
    have hwords : Text.words (w ++ ' ' :: w') = w :: Text.words w' :=
      Text.words_solid_append hne hw (by decide) w'
    have hsqueezed := h'.squeezed
    have hsome := h'.ne_nil
    rw [Text.squeeze] at hsqueezed
    rw [Text.squeeze, hwords]
    cases hcases : Text.words w' with
    | nil =>
        rw [hcases, Text.joinWith_nil] at hsqueezed
        exact absurd hsqueezed.symm hsome
    | cons v vs => rw [Text.joinWith_cons_cons, ← hcases, hsqueezed, List.append_assoc]; rfl
  noComma := by simp [hcomma, h'.noComma]

theorem Item.IsValid.isEntry_inClause {i : Item} (h : i.IsValid) : IsEntry i.inClause := by
  cases i with
  | same a => exact isEntry_identifier h
  | renamed a b =>
      have hb := isEntry_words (w := ['a', 's']) (by simp) (by simp; decide) (by decide)
        (isEntry_identifier h.2)
      exact isEntry_words (ne_nil_of_isIdentifier h.1) (isBlank_of_mem_identifier h.1)
        (Naming.not_mem_of_isIdentifier h.1 (by decide)) hb

theorem Item.IsValid.isEntry_inPattern {i : Item} (h : i.IsValid) : IsEntry i.inPattern := by
  cases i with
  | same a => exact isEntry_identifier h
  | renamed a b =>
      have hblank : ∀ d ∈ a ++ [':'], isBlank d = false := by
        intro d hd
        rcases List.mem_append.mp hd with hd | hd
        · exact isBlank_of_mem_identifier h.1 d hd
        · rw [List.mem_singleton.mp hd]
          decide
      have hcomma : ',' ∉ a ++ [':'] := by
        simp [Naming.not_mem_of_isIdentifier h.1 (c := ',') (by decide)]
      have hentry := isEntry_words (w := a ++ [':']) (by simp) hblank hcomma
        (isEntry_identifier h.2)
      rwa [List.append_assoc] at hentry

/-- The names of a list are its entries, whatever the white space around them. -/
theorem namedItems_body {l : Layout} (hl : l.IsBlank) (h : ∀ t ∈ texts, IsEntry t) :
    namedItems (l.body texts) = texts := by
  have hcomma : ∀ {b : List Char}, isBlankText b = true → ',' ∉ b := by
    intro b hb hmem
    have := Text.isBlankText_iff.mp hb _ hmem
    cases this
  -- the white space before the first name is `lead` at first and `gap` later
  have key : ∀ {b : List Char}, isBlankText b = true →
      namedItems (b ++ Text.joinWith (',' :: l.gap) texts ++ l.tail) = texts := by
    induction texts with
    | nil =>
        intro b hb
        have hblank : isBlankText (b ++ l.tail) = true := by simp [hb, hl.tail]
        simp only [Text.joinWith_nil, List.append_nil, namedItems,
          Text.splitOn_of_not_mem (hcomma hblank), List.map_cons, List.map_nil, Text.squeeze,
          Text.words_of_isBlankText hblank]
        rfl
    | cons t texts ih =>
        intro b hb
        have ht := h t List.mem_cons_self
        have hrest := ih (fun t' ht' => h t' (List.mem_cons_of_mem t ht')) hl.gap
        have hsome : (!t.isEmpty) = true := by simp [ht.ne_nil]
        cases texts with
        | nil =>
            have hnone : ',' ∉ b ++ t ++ l.tail := by simp [hcomma hb, ht.noComma, hcomma hl.tail]
            simp only [Text.joinWith_singleton, namedItems, Text.splitOn_of_not_mem hnone,
              List.map_cons, List.map_nil, Text.squeeze_padded hb hl.tail, ht.squeezed,
              List.filter_cons, hsome, if_true, List.filter_nil]
        | cons t' texts =>
            have hnone : ',' ∉ b ++ t := by simp [hcomma hb, ht.noComma]
            have hsplit : b ++ Text.joinWith (',' :: l.gap) (t :: t' :: texts) ++ l.tail =
                (b ++ t) ++ ',' ::
                  (l.gap ++ Text.joinWith (',' :: l.gap) (t' :: texts) ++ l.tail) := by
              simp [List.append_assoc]
            have hsqueeze : Text.squeeze (b ++ t) = t := by
              have := Text.squeeze_padded hb Text.isBlankText_nil t
              rwa [List.append_nil, ht.squeezed] at this
            simp only [namedItems] at hrest ⊢
            rw [hsplit, Text.splitOn_append_of_not_mem hnone (Text.splitOn_cons_self ',' _)]
            simp only [List.append_nil, List.map_cons, hsqueeze, List.filter_cons, hsome, if_true,
              hrest]
  exact key hl.lead

/-- A clause names a renamed member as a pattern does, in its own words. -/
theorem Item.IsValid.renamed_inPattern {i : Item} (h : i.IsValid) :
    Import.renamed i.inPattern = i.inClause := by
  cases i with
  | same a =>
      have hnone : ':' ∉ a := Naming.not_mem_of_isIdentifier h (by decide)
      rw [inPattern, spelled, Import.renamed, Text.cutAt_of_not_mem hnone, inClause, spelled]
  | renamed a b =>
      have hnone : ':' ∉ a := Naming.not_mem_of_isIdentifier h.1 (by decide)
      have htrim : Text.trim (' ' :: b) = b := by
        have := Text.trim_blank_append (b := [' ']) (by decide) (s := b)
        rw [List.singleton_append] at this
        rw [this, trim_identifier h.2]
      simp only [inPattern, inClause, spelled, Import.renamed, List.cons_append, List.nil_append,
        Text.cutAt_append hnone, trim_identifier h.1, htrim, List.append_assoc]
      rfl

theorem Item.IsValid.bindingItem_inClause {i : Item} (h : i.IsValid) :
    bindingItem i.inClause = i.inPattern := by
  have hblank : ∀ {n : List Char}, isIdentifier n = true → ' ' ∉ n := fun hn =>
    Naming.not_mem_of_isIdentifier hn (by decide)
  rw [bindingItem, Text.replace, if_neg (by decide)]
  cases i with
  | same a => exact Text.replaceFrom_of_not_mem (hblank h)
  | renamed a b =>
      have hfirst : Text.replaceFrom [' ', 'a', 's', ' '] [':', ' '] 0
          (a ++ ([' ', 'a', 's', ' '] ++ b)) = _ :=
        Text.replaceFrom_append_of_not_mem (hblank h.1) ([' ', 'a', 's', ' '] ++ b)
      have hsecond : Text.replaceFrom [' ', 'a', 's', ' '] [':', ' '] 0
          ([' ', 'a', 's', ' '] ++ b) = _ := Text.replaceFrom_append_self [':', ' '] b
      rw [Text.replaceFrom_of_not_mem (hblank h.2)] at hsecond
      exact hfirst.trans (congrArg (a ++ ·) hsecond)

-- ============================================================================
-- Import clauses
-- ============================================================================

/-- What an import declaration binds. -/
inductive Clause where
  | default (name : List Char)
  | names (layout : Layout) (items : List Item)
  | both (name : List Char) (layout : Layout) (items : List Item)
  | star (name : List Char)

/-- A list between its braces. -/
def inBraces (l : Layout) (texts : List (List Char)) : List Char := '{' :: l.body texts ++ ['}']

namespace Clause

def text : Clause → List Char
  | default n => n
  | names l items => inBraces l (items.map Item.inClause)
  | both n l items => n ++ (',' :: ' ' :: inBraces l (items.map Item.inClause))
  | star n => '*' :: ' ' :: 'a' :: 's' :: ' ' :: n

def bound : Clause → Bindings
  | default n => { defaults := [n] }
  | names _ items => { named := items.map Item.inClause }
  | both n _ items => { defaults := [n], named := items.map Item.inClause }
  | star n => { namespaces := [n] }

def IsValid : Clause → Prop
  | default n => isIdentifier n = true
  | names l items => l.IsBlank ∧ items ≠ [] ∧ ∀ i ∈ items, i.IsValid
  | both n l items => isIdentifier n = true ∧ l.IsBlank ∧ items ≠ [] ∧ ∀ i ∈ items, i.IsValid
  | star n => isIdentifier n = true

end Clause

/-- The characters of a list between braces. -/
def isListChar (c : Char) : Bool := isBlank c || isIdentifierPart c || c = ',' || c = ':'

theorem isListChar_of_mem_identifier (h : isIdentifier n = true) (hc : c ∈ n) :
    isListChar c = true := by
  simp [isListChar, Naming.isIdentifierPart_of_mem h hc]

theorem isListChar_of_isBlank (h : isBlank c = true) : isListChar c = true := by
  simp [isListChar, h]

theorem isListChar_of_mem_body {l : Layout} (hl : l.IsBlank)
    (h : ∀ t ∈ texts, ∀ c ∈ t, isListChar c = true) (hc : c ∈ l.body texts) :
    isListChar c = true := by
  simp only [Layout.body, List.mem_append] at hc
  rcases hc with (hc | hc) | hc
  · exact isListChar_of_isBlank (Text.isBlankText_iff.mp hl.lead c hc)
  · rcases Text.mem_joinWith hc with hc | ⟨t, ht, hc⟩
    · rcases List.mem_cons.mp hc with hcomma | hc
      · rw [hcomma]
        decide
      · exact isListChar_of_isBlank (Text.isBlankText_iff.mp hl.gap c hc)
    · exact h t ht c hc
  · exact isListChar_of_isBlank (Text.isBlankText_iff.mp hl.tail c hc)

theorem Item.IsValid.isListChar_spelled {i : Item} {sep : List Char} (h : i.IsValid)
    (hsep : ∀ c ∈ sep, isListChar c = true) (hc : c ∈ i.spelled sep) : isListChar c = true := by
  cases i with
  | same a => exact isListChar_of_mem_identifier h hc
  | renamed a b =>
      simp only [spelled, List.mem_append] at hc
      rcases hc with hc | hc | hc
      · exact isListChar_of_mem_identifier h.1 hc
      · exact hsep c hc
      · exact isListChar_of_mem_identifier h.2 hc

/-- The list of valid items has no brace, quote, semicolon or star. -/
theorem not_mem_body {l : Layout} {items : List Item} {sep : List Char} (hl : l.IsBlank)
    (h : ∀ i ∈ items, i.IsValid) (hsep : ∀ c ∈ sep, isListChar c = true)
    (hc : isListChar c = false) : c ∉ l.body (items.map (Item.spelled sep)) := by
  intro hmem
  have hlist := isListChar_of_mem_body hl (fun t ht d hd => by
    obtain ⟨i, hi, rfl⟩ := List.mem_map.mp ht
    exact (h i hi).isListChar_spelled hsep hd) hmem
  rw [hc] at hlist
  cases hlist

/-- The first list in braces of a text. -/
theorem bracesIn?_append {before body : List Char} (hbefore : '{' ∉ before) (hbody : '}' ∉ body)
    (after : List Char) :
    bracesIn? (before ++ '{' :: (body ++ '}' :: after)) = some (body, before ++ after) := by
  rw [bracesIn?, Text.cutAt_append hbefore]
  simp only [Text.cutAt_append hbody]

theorem bracesIn?_of_not_mem (h : '{' ∉ s) : bracesIn? s = none := by
  rw [bracesIn?, Text.cutAt_of_not_mem h]

theorem namespaceIn?_of_not_mem (h : '*' ∉ s) : namespaceIn? s = none := by
  induction s with
  | nil => rfl
  | cons c s ih =>
      rw [List.mem_cons, not_or] at h
      have hnone : namespaceAt? (c :: s) = none := by
        simp [namespaceAt?, Text.after?, h.1]
      rw [namespaceIn?, hnone, ih h.2, Option.map_none]

/-- A namespace is read together with its star. -/
theorem namespaceIn?_star (h : isIdentifier n = true) :
    namespaceIn? (Clause.star n).text = some (n, []) := by
  have hname : name? (Text.trimStart n) = some (n, []) := by
    have hstart := startsSolid_identifier h []
    have hname := name?_append h (s := []) (by simp)
    rw [List.append_nil] at hstart hname
    rw [hstart.trimStart_eq, hname]
  have hblank : Text.trimStart (' ' :: 'a' :: 's' :: ' ' :: n) = 'a' :: 's' :: ' ' :: n := by
    simp [Text.trimStart, show isBlank ' ' = true by decide, show isBlank 'a' = false by decide]
  simp [Clause.text, namespaceIn?, namespaceAt?, Text.after?, hblank, skipBlanks?,
    show isBlank ' ' = true by decide, hname]

theorem clauseDefaults_nil : clauseDefaults [] = [] := by decide

theorem clauseDefaults_identifier (h : isIdentifier n = true) : clauseDefaults n = [n] := by
  have hcomma : ',' ∉ n := Naming.not_mem_of_isIdentifier h (by decide)
  simp [clauseDefaults, Text.splitOn_of_not_mem hcomma, trim_identifier h, isName_of_isIdentifier h]

theorem clauseDefaults_identifier_comma (h : isIdentifier n = true) :
    clauseDefaults (n ++ [',', ' ']) = [n] := by
  have hcomma : ',' ∉ n := Naming.not_mem_of_isIdentifier h (by decide)
  have hsplit : Text.splitOn ',' (n ++ [',', ' ']) = [n, [' ']] := by
    have := Text.splitOn_append_of_not_mem hcomma (Text.splitOn_cons_self ',' [' '])
    rwa [List.append_nil] at this
  have hblank : Text.trim [' '] = [] := by decide
  have hempty : isName [] = false := rfl
  simp [clauseDefaults, hsplit, trim_identifier h, isName_of_isIdentifier h,
    hblank, hempty]

/-- A clause binds what it spells. -/
theorem clauseBindings_text {cl : Clause} (h : cl.IsValid) : clauseBindings cl.text = cl.bound := by
  cases cl with
  | default n =>
      have hbrace : '{' ∉ n := Naming.not_mem_of_isIdentifier h (by decide)
      have hstar : '*' ∉ n := Naming.not_mem_of_isIdentifier h (by decide)
      simp only [clauseBindings, Clause.text, clauseNames, bracesIn?_of_not_mem hbrace,
        clauseNamespaces, namespaceIn?_of_not_mem hstar, clauseDefaults_identifier h, Clause.bound]
  | names l items =>
      obtain ⟨hl, -, hitems⟩ := h
      have hbody : '}' ∉ l.body (items.map Item.inClause) :=
        not_mem_body hl hitems (List.all_eq_true.mp (by decide)) (by decide)
      have hbraces := bracesIn?_append List.not_mem_nil hbody []
      have hentries : ∀ t ∈ items.map Item.inClause, IsEntry t := by
        simp only [List.forall_mem_map]
        exact fun i hi => (hitems i hi).isEntry_inClause
      have hnames := namedItems_body hl hentries
      simp only [List.nil_append] at hbraces
      simp only [clauseBindings, Clause.text, inBraces, List.cons_append, clauseNames, hbraces,
        hnames, clauseNamespaces, namespaceIn?, clauseDefaults_nil, Clause.bound]
  | both n l items =>
      obtain ⟨hn, hl, -, hitems⟩ := h
      have hbrace : '{' ∉ n ++ [',', ' '] := by
        simp [Naming.not_mem_of_isIdentifier hn (c := '{') (by decide)]
      have hstar : '*' ∉ n ++ [',', ' '] := by
        simp [Naming.not_mem_of_isIdentifier hn (c := '*') (by decide)]
      have hbody : '}' ∉ l.body (items.map Item.inClause) :=
        not_mem_body hl hitems (List.all_eq_true.mp (by decide)) (by decide)
      have hbraces := bracesIn?_append hbrace hbody []
      have hentries : ∀ t ∈ items.map Item.inClause, IsEntry t := by
        simp only [List.forall_mem_map]
        exact fun i hi => (hitems i hi).isEntry_inClause
      have hnames := namedItems_body hl hentries
      simp only [List.append_assoc, List.cons_append, List.nil_append, List.append_nil] at hbraces
      simp only [clauseBindings, Clause.text, inBraces, List.cons_append, clauseNames, hbraces,
        hnames, clauseNamespaces, namespaceIn?_of_not_mem hstar,
        clauseDefaults_identifier_comma hn, Clause.bound]
  | star n =>
      have hbrace : '{' ∉ (Clause.star n).text := by
        simp [Clause.text, Naming.not_mem_of_isIdentifier h (c := '{') (by decide)]
      simp only [clauseBindings, clauseNames, bracesIn?_of_not_mem hbrace, clauseNamespaces,
        namespaceIn?_star h, clauseDefaults_nil, Clause.bound]

-- ============================================================================
-- Forms of statements
-- ============================================================================

/-- The forms of import statements, their source apart. -/
inductive Form where
  | effect
  | declared (isType : Bool) (clause : Clause)
  | constant (name : List Char)
  | pattern (layout : Layout) (items : List Item)
  | call

-- The words of statements, character by character.

def importWord : List Char := ['i', 'm', 'p', 'o', 'r', 't']

def typeWord : List Char := ['t', 'y', 'p', 'e']

def fromWord : List Char := ['f', 'r', 'o', 'm']

def constWord : List Char := ['c', 'o', 'n', 's', 't']

def requireWord : List Char := ['r', 'e', 'q', 'u', 'i', 'r', 'e', '(']

/-- A call of `require`. -/
def callText (quoted : List Char) : List Char := requireWord ++ (quoted ++ [')'])

/-- What stands between `import` and the source of a declaration. -/
def regionText (isType : Bool) (clause : Clause) : List Char :=
  ' ' :: ((if isType then typeWord ++ [' '] else []) ++ (clause.text ++ ' ' :: (fromWord ++ [' '])))

namespace Form

/-- The text of a statement without a semicolon. -/
def text (quoted : List Char) : Form → List Char
  | effect => importWord ++ ' ' :: quoted
  | declared isType clause => importWord ++ (regionText isType clause ++ quoted)
  | constant n => constWord ++ ' ' :: (n ++ ' ' :: '=' :: ' ' :: callText quoted)
  | pattern l items =>
    constWord ++ ' ' ::
      (inBraces l (items.map Item.inPattern) ++ ' ' :: '=' :: ' ' :: callText quoted)
  | call => callText quoted

def isType : Form → Bool
  | declared isType _ => isType
  | _ => false

/-- What a statement of this form binds. -/
def bound : Form → Bindings
  | effect => { sideEffect := true }
  | declared _ clause => clause.bound
  | constant n => { defaults := [n] }
  | pattern _ items => { named := items.map Item.inClause }
  | call => { sideEffect := true }

/-- The statement of this form with a source. -/
def statement (source : List Char) : Form → Statement
  | effect => .sideEffect source
  | declared isType clause => .bindings isType clause.text source
  | constant n => .required (.whole n) source
  | pattern l items => .required (.members (l.body (items.map Item.inPattern))) source
  | call => .sideEffect source

def IsValid : Form → Prop
  | effect => True
  | declared _ clause => clause.IsValid
  | constant n => isIdentifier n = true
  | pattern l items => l.IsBlank ∧ items ≠ [] ∧ ∀ i ∈ items, i.IsValid
  | call => True

@[simp] theorem key_statement (f : Form) (source : List Char) :
    (f.statement source).key = (source, f.isType) := by
  cases f <;> rfl

/-- A statement binds what its form says. -/
theorem bound_statement {f : Form} (h : f.IsValid) (source : List Char) :
    (f.statement source).bound = f.bound := by
  cases f with
  | effect => rfl
  | declared isType clause => exact clauseBindings_text h
  | constant n => rfl
  | pattern l items =>
      obtain ⟨hl, -, hitems⟩ := h
      have hentries : ∀ t ∈ items.map Item.inPattern, IsEntry t := by
        simp only [List.forall_mem_map]
        exact fun i hi => (hitems i hi).isEntry_inPattern
      have hnames : (items.map Item.inPattern).map renamed = items.map Item.inClause := by
        rw [List.map_map]
        exact List.map_congr_left fun i hi => (hitems i hi).renamed_inPattern
      simp only [statement, Statement.bound, namedItems_body hl hentries, hnames, bound]
  | call => rfl

end Form

-- ============================================================================
-- Reading statements
-- ============================================================================

theorem skipEnd_semicolon (s : List Char) : skipEnd (';' :: s) = s := by
  have hsolid : Text.trimStart (';' :: s) = ';' :: s :=
    (Text.startsSolid_cons (by decide)).trimStart_eq
  simp only [skipEnd, hsolid]

/-- What stands before `from`. -/
theorem beforeFrom?_append (s : List Char) : beforeFrom? (s ++ (fromWord ++ [' '])) = some s := by
  have htrim : Text.trimEnd (s ++ (fromWord ++ [' '])) = s ++ fromWord := by
    have hsolid : Text.EndsSolid (s ++ fromWord) := by
      have := Text.endsSolid_concat (s := s ++ ['f', 'r', 'o']) (c := 'm') (by decide)
      rwa [List.append_assoc] at this
    rw [← List.append_assoc, Text.trimEnd_append_blank (by decide), hsolid.trimEnd_eq]
  have hword : "from".toList = fromWord := by decide
  have hends : Text.endsWith fromWord (s ++ fromWord) = true := by
    simp [Text.endsWith, Text.startsWith, Text.after?, fromWord]
  have htake : (s ++ fromWord).take ((s ++ fromWord).length - 4) = s :=
    List.take_left' (by simp [fromWord])
  have hlen : (s ++ fromWord).length < (s ++ (fromWord ++ [' '])).length := by simp
  simp only [beforeFrom?, htrim, hword, hends, htake, hlen, decide_true, Bool.and_self, if_true]

theorem Clause.IsValid.text_ne_nil {cl : Clause} (h : cl.IsValid) : cl.text ≠ [] := by
  cases cl with
  | default n => exact ne_nil_of_isIdentifier h
  | names l items => simp [Clause.text, inBraces]
  | both n l items => simp [Clause.text]
  | star n => simp [Clause.text]

theorem Clause.IsValid.startsSolid {cl : Clause} (h : cl.IsValid) (s : List Char) :
    Text.StartsSolid (cl.text ++ s) := by
  cases cl with
  | default n => exact startsSolid_identifier h s
  | names l items => exact Text.startsSolid_cons (by decide)
  | both n l items =>
      rw [Clause.text, List.append_assoc]
      exact startsSolid_identifier h.1 _
  | star n => exact Text.startsSolid_cons (by decide)

theorem endsSolid_inBraces (l : Layout) (texts : List (List Char)) :
    Text.EndsSolid (inBraces l texts) := Text.endsSolid_concat (by decide)

theorem Clause.IsValid.endsSolid {cl : Clause} (h : cl.IsValid) : Text.EndsSolid cl.text := by
  cases cl with
  | default n => exact endsSolid_identifier h
  | names l items => exact endsSolid_inBraces _ _
  | both n l items =>
      have hlist := endsSolid_inBraces l (items.map Item.inClause)
      have hsplit : (Clause.both n l items).text =
          (n ++ [',', ' ']) ++ inBraces l (items.map Item.inClause) := by simp [Clause.text]
      rw [hsplit]
      exact hlist.append (by simp [inBraces])
  | star n =>
      have hsplit : (Clause.star n).text = ['*', ' ', 'a', 's', ' '] ++ n := rfl
      rw [hsplit]
      exact (endsSolid_identifier h).append (ne_nil_of_isIdentifier h)

/-- No character of a clause ends the declaration. -/
theorem Clause.IsValid.not_mem {cl : Clause} (h : cl.IsValid) (hlist : isListChar c = false)
    (hbraces : c ≠ '{' ∧ c ≠ '}' ∧ c ≠ '*') : c ∉ cl.text := by
  have hname : ∀ {n : List Char}, isIdentifier n = true → c ∉ n := fun hn hc => by
    rw [isListChar_of_mem_identifier hn hc] at hlist
    cases hlist
  have hbody : ∀ {l : Layout} {items : List Item}, l.IsBlank → (∀ i ∈ items, i.IsValid) →
      c ∉ l.body (items.map Item.inClause) := fun hl hitems =>
    not_mem_body hl hitems (List.all_eq_true.mp (by decide)) hlist
  have hplain : ∀ d, isListChar d = true → c ≠ d := by
    rintro d hd rfl
    rw [hd] at hlist
    cases hlist
  cases cl with
  | default n => exact hname h
  | names l items => simp [Clause.text, inBraces, hbraces, hbody h.1 h.2.2]
  | both n l items =>
      simp [Clause.text, inBraces, hbraces, hname h.1, hbody h.2.1 h.2.2.2, hplain ',' (by decide),
        hplain ' ' (by decide)]
  | star n =>
      simp [Clause.text, hbraces, hname h, hplain 'a' (by decide), hplain 's' (by decide),
        hplain ' ' (by decide)]

theorem clause?_padded (hne : s ≠ []) (hstart : Text.StartsSolid s) (hend : Text.EndsSolid s) :
    clause? (' ' :: (s ++ [' '])) = some s := by
  have hsolid : isBlankText s = false := by
    cases s with
    | nil => exact absurd rfl hne
    | cons c s => simp [hstart c rfl]
  have htrim : Text.trim (' ' :: (s ++ [' '])) = s := by
    have hfirst := Text.trim_blank_append (b := [' ']) (by decide) (s := s ++ [' '])
    rw [List.singleton_append] at hfirst
    rw [hfirst, ← Text.trimStart_trimEnd, Text.trimEnd_append_blank (by decide), hend.trimEnd_eq,
      hstart.trimStart_eq]
  have hlast : (' ' :: (s ++ [' '])).getLast? = some ' ' := by
    rw [← List.cons_append, List.getLast?_concat]
  have hspace : isBlank ' ' = true := by decide
  simp [clause?, hsolid, hlast, hspace, htrim]

/-- Where another word than `type` stands, no clause of types follows. -/
theorem clause?_after_type {s rest : List Char} (hn : isIdentifier n = true)
    (hc : isBlank c = true → s = []) (hword : c ∉ typeWord)
    (h : Text.after? typeWord (n ++ c :: s) = some rest) : clause? rest = none := by
  have htext := Text.eq_append_of_after? h
  obtain ⟨m, hm, hrest⟩ : ∃ m, n = typeWord ++ m ∧ rest = m ++ c :: s := by
    rcases List.append_eq_append_iff.mp htext with ⟨m, htype, hrest⟩ | ⟨m, hname, hrest⟩
    · cases m with
      | nil => exact ⟨[], by simpa using htype.symm, by simpa using hrest.symm⟩
      | cons d m =>
          obtain ⟨rfl, -⟩ := List.cons.inj hrest
          exact absurd (htype ▸ by simp) hword
    · exact ⟨m, hname, hrest⟩
  cases m with
  | nil =>
      cases hblank : isBlank c with
      | true => simp [hrest, hc hblank, clause?, hblank]
      | false => simp [hrest, clause?, hblank]
  | cons d m =>
      have hd : isBlank d = false := isBlank_of_mem_identifier hn d (by simp [hm])
      simp [hrest, clause?, hd]

theorem skipBlanks?_space (hs : Text.StartsSolid s) : skipBlanks? (' ' :: s) = some s := by
  have hspace : isBlank ' ' = true := by decide
  rw [skipBlanks?, if_pos hspace, hs.trimStart_eq]

/-- A clause is not taken for the word `type` and a clause. -/
theorem Clause.IsValid.not_typed {cl : Clause} (h : cl.IsValid) :
    (Text.after? typeWord (cl.text ++ [' '])).bind clause? = none := by
  rw [Option.bind_eq_none_iff]
  intro rest hrest
  cases cl with
  | default n => exact clause?_after_type h (fun _ => rfl) (by decide) hrest
  | names l items => simp [Clause.text, inBraces, Text.after?, typeWord] at hrest
  | both n l items =>
      rw [Clause.text, List.append_assoc, List.cons_append] at hrest
      exact clause?_after_type h.1 (fun hc => by cases hc) (by decide) hrest
  | star n => simp [Clause.text, Text.after?, typeWord] at hrest

/-- The statement whose text between `import` and its source is given. -/
def regionStatement? (region source : List Char) : Option Statement :=
  if isBlankText region then if region.isEmpty then none else some (.sideEffect source)
  else (beforeFrom? region).bind fun body =>
    match (skipBlanks? body).bind fun b => (Text.after? typeWord b).bind clause? with
    | some clause => some (.bindings true clause source)
    | none => (clause? body).map fun clause => .bindings false clause source

/-- A declaration is read up to the first quote or semicolon. -/
theorem declaration?_append {region : List Char} {st : Statement}
    (hregion : ∀ c ∈ region, (c ≠ ';' && !isQuote c) = true) (hsource : IsPlainSource source)
    (hq : isQuote q = true) (hst : regionStatement? region source = some st) (s : List Char) :
    declaration? (region ++ (quotedText q source ++ s)) = some (st, skipEnd s) := by
  have hspan : (region ++ (quotedText q source ++ s)).span (fun c => c ≠ ';' && !isQuote c) =
      (region, quotedText q source ++ s) := by
    rw [quotedText, List.cons_append, List.cons_append, List.span_eq_takeWhile_dropWhile,
      List.takeWhile_append_of_pos hregion, List.dropWhile_append_of_pos hregion,
      List.takeWhile_cons_of_neg (by simp [hq]), List.dropWhile_cons_of_neg (by simp [hq]),
      List.append_nil]
  have hword : "type".toList = typeWord := by decide
  unfold declaration?
  unfold regionStatement? at hst
  rw [hspan]
  simp only [quoted?_quotedText hsource hq, Option.bind_eq_bind, Option.bind_some, hword]
  split at hst
  · next hblank =>
      rw [if_pos hblank]
      split at hst
      · cases hst
      · next hempty =>
          cases hst
          rw [if_neg hempty]
          rfl
  · next hblank =>
      obtain ⟨body, hbody, hst⟩ := Option.bind_eq_some_iff.mp hst
      rw [if_neg hblank, hbody, Option.bind_some]
      split at hst
      · next clause htyped =>
          cases hst
          rw [htyped]
          rfl
      · next htyped =>
          rw [htyped]
          simp only [hst, Option.bind_some]
          rfl

/-- A declaration with a clause is read by its clause. -/
theorem regionStatement?_regionText {cl : Clause} (h : cl.IsValid) (isType : Bool)
    (source : List Char) :
    regionStatement? (regionText isType cl) source = some (.bindings isType cl.text source) := by
  have hstart := h.startsSolid []
  rw [List.append_nil] at hstart
  have hclause := clause?_padded h.text_ne_nil hstart h.endsSolid
  have hsolid : isBlankText cl.text = false := by
    cases hcases : cl.text with
    | nil => exact absurd hcases h.text_ne_nil
    | cons c t => simp [hstart c (by rw [hcases]; rfl)]
  have hnotblank : ¬ isBlankText (regionText isType cl) = true := by
    simp [regionText, hsolid]
  rw [regionStatement?, if_neg hnotblank]
  cases isType with
  | false =>
      have hbefore : beforeFrom? (regionText false cl) = some (' ' :: (cl.text ++ [' '])) := by
        have := beforeFrom?_append (' ' :: (cl.text ++ [' ']))
        rwa [List.cons_append, List.append_assoc] at this
      simp only [hbefore, Option.bind_some, skipBlanks?_space (h.startsSolid [' ']), h.not_typed]
      exact congrArg _ hclause
  | true =>
      have hbefore : beforeFrom? (regionText true cl) =
          some (' ' :: (typeWord ++ ' ' :: (cl.text ++ [' ']))) := by
        have := beforeFrom?_append (' ' :: (typeWord ++ ' ' :: (cl.text ++ [' '])))
        simpa [regionText, List.append_assoc] using this
      have hskip : skipBlanks? (' ' :: (typeWord ++ ' ' :: (cl.text ++ [' ']))) =
          some (typeWord ++ ' ' :: (cl.text ++ [' '])) :=
        skipBlanks?_space (Text.startsSolid_cons (by decide))
      simp only [hbefore, Option.bind_some, hskip, Text.after?_append, hclause]

/-- No character between `import` and a source ends the declaration. -/
theorem inert_regionText {cl : Clause} (h : cl.IsValid) (isType : Bool) :
    ∀ c ∈ regionText isType cl, (c ≠ ';' && !isQuote c) = true := by
  have hclause : ∀ c ∈ cl.text, (c ≠ ';' && !isQuote c) = true := by
    intro c hc
    cases hcases : (c ≠ ';' && !isQuote c) with
    | true => rfl
    | false =>
        have hstop : c = ';' ∨ c = '\'' ∨ c = '"' := by
          simp only [isQuote, Bool.and_eq_false_iff, decide_eq_false_iff_not, not_not,
            Bool.not_eq_false', Bool.or_eq_true, decide_eq_true_eq] at hcases
          exact hcases
        rcases hstop with rfl | rfl | rfl <;> exact absurd hc (h.not_mem (by decide) (by decide))
  have htype : ∀ c ∈ (if isType then typeWord ++ [' '] else []),
      (c ≠ ';' && !isQuote c) = true := by
    cases isType <;> exact List.all_eq_true.mp (by decide)
  have hfrom : ∀ c ∈ fromWord, (c ≠ ';' && !isQuote c) = true := List.all_eq_true.mp (by decide)
  simp only [regionText, List.forall_mem_cons, List.forall_mem_append]
  exact ⟨by decide, htype, hclause, by decide, hfrom, by decide, by simp⟩

theorem call?_callText (hsource : IsPlainSource source) (hq : isQuote q = true) (s : List Char) :
    call? (callText (quotedText q source) ++ s) = some (source, skipEnd s) := by
  have hstart : Text.trimStart (quotedText q source ++ (')' :: s)) =
      quotedText q source ++ (')' :: s) := by
    refine Text.StartsSolid.trimStart_eq (Text.startsSolid_cons ?_)
    simp only [isQuote, Bool.or_eq_true, decide_eq_true_eq] at hq
    rcases hq with rfl | rfl <;> decide
  have hend : Text.trimStart (')' :: s) = ')' :: s :=
    (Text.startsSolid_cons (by decide)).trimStart_eq
  have hafter : Text.after? requireWord (callText (quotedText q source) ++ s) =
      some (quotedText q source ++ (')' :: s)) := by
    rw [callText, List.append_assoc, Text.after?_append, List.append_assoc, List.singleton_append]
  have hword : "require(".toList = requireWord := by decide
  rw [call?, hword, hafter]
  simp only [Option.bind_eq_bind, Option.bind_some, hstart, quoted?_quotedText hsource hq, hend]

/-- A constant is read by what the call is bound to. -/
theorem constant?_append {b : Binding} {bound : List Char} (hsource : IsPlainSource source)
    (hq : isQuote q = true) (s : List Char) (hstart : ∀ t, Text.StartsSolid (bound ++ t))
    (hbound : ∀ t, binding? (bound ++ ' ' :: t) = some (b, ' ' :: t)) :
    constant? (' ' :: (bound ++ ' ' :: '=' :: ' ' :: (callText (quotedText q source) ++ s))) =
      some (.required b source, skipEnd s) := by
  have hequals : ∀ t, Text.trimStart (' ' :: '=' :: t) = '=' :: t := fun t =>
    (Text.trimStart_append (b := [' ']) (by decide)).trans
      (Text.startsSolid_cons (by decide)).trimStart_eq
  have hcall : Text.trimStart (' ' :: (callText (quotedText q source) ++ s)) =
      callText (quotedText q source) ++ s :=
    (Text.trimStart_append (b := [' ']) (by decide)).trans
      (Text.startsSolid_cons (by decide)).trimStart_eq
  have hread := hbound ('=' :: ' ' :: (callText (quotedText q source) ++ s))
  rw [constant?, skipBlanks?_space (hstart _)]
  simp only [Option.bind_eq_bind, Option.bind_some, hread, hequals, hcall,
    call?_callText hsource hq]

-- The first letter of a text says which kind of statement to look for.

theorem statement?_import (s : List Char) : statement? (importWord ++ s) = declaration? s := by
  change (Text.after? importWord (importWord ++ s)).bind declaration? = declaration? s
  rw [Text.after?_append, Option.bind_some]

theorem statement?_const (s : List Char) : statement? (constWord ++ s) = constant? s := by
  change (Text.after? constWord (constWord ++ s)).bind constant? = constant? s
  rw [Text.after?_append, Option.bind_some]

theorem statement?_call (quoted s : List Char) : statement? (callText quoted ++ s) =
    (call? (callText quoted ++ s)).map fun r => (.sideEffect r.1, r.2) := rfl

theorem binding?_identifier (h : isIdentifier n = true) (s : List Char) :
    binding? (n ++ ' ' :: s) = some (.whole n, ' ' :: s) := by
  have hname := name?_append h (s := ' ' :: s) (by simp; decide)
  have hbrace : '{' ∉ n := Naming.not_mem_of_isIdentifier h (by decide)
  cases n with
  | nil => cases h
  | cons c n =>
      have hne : c ≠ '{' := fun heq => hbrace (heq ▸ List.mem_cons_self)
      rw [List.cons_append] at hname ⊢
      rw [binding?.eq_def]
      split
      · next heq => exact absurd (List.cons.inj heq).1 hne
      · rw [hname, Option.map_some]

theorem binding?_inBraces {l : Layout} (h : '}' ∉ l.body texts) (s : List Char) :
    binding? (inBraces l texts ++ s) = some (.members (l.body texts), s) := by
  have htext : inBraces l texts ++ s = '{' :: (l.body texts ++ '}' :: s) := by simp [inBraces]
  rw [htext]
  simp only [binding?, Text.cutAt_append h]

/-- A statement is read back from its text, whatever follows. -/
theorem statement?_text {f : Form} (h : f.IsValid) (hsource : IsPlainSource source)
    (hq : isQuote q = true) (s : List Char) :
    statement? (f.text (quotedText q source) ++ s) = some (f.statement source, skipEnd s) := by
  cases f with
  | effect =>
      have hspace : ∀ c ∈ [' '], (c ≠ ';' && !isQuote c) = true := by simp [isQuote]
      have hread := declaration?_append hspace hsource hq rfl s
      rw [Form.text, List.append_assoc, statement?_import]
      exact hread
  | declared isType clause =>
      have hread := declaration?_append (inert_regionText h isType) hsource hq
        (regionStatement?_regionText h isType source) s
      rw [Form.text, List.append_assoc, List.append_assoc, statement?_import, hread]
      rfl
  | constant n =>
      have hread := constant?_append hsource hq s (startsSolid_identifier h) (binding?_identifier h)
      rw [Form.text, List.append_assoc, statement?_const]
      simp only [List.append_assoc, List.cons_append]
      exact hread
  | pattern l items =>
      obtain ⟨hl, -, hitems⟩ := h
      have hbody : '}' ∉ l.body (items.map Item.inPattern) :=
        not_mem_body hl hitems (List.all_eq_true.mp (by decide)) (by decide)
      have hread := constant?_append hsource hq s (fun t => Text.startsSolid_cons (by decide))
        (fun t => binding?_inBraces hbody (' ' :: t))
      rw [Form.text, List.append_assoc, statement?_const]
      simp only [List.append_assoc, List.cons_append]
      exact hread
  | call =>
      rw [Form.text, statement?_call, call?_callText hsource hq]
      rfl

end Flowscript.Import

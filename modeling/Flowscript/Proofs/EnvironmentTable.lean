/-
  Flowscript.Proofs.EnvironmentTable

  The keys of the environment table of a configuration.

  The table has two entries of its own and one for each entry of the environment, whose key
  is written in one word.  No key is left out and none is quoted.  So
    * two keys of the table are the same where two keys of the environment show the same
      words, or one of them shows those of a fixed entry;
    * a key, and the variable of its entry, is an identifier if the first letter or digit in
      it is a letter (`ProjectFile.environment_keys`).
-/
import Flowscript.Proofs.CamelCase
import Flowscript.Proofs.EnvironmentVariables

namespace Flowscript

-- ============================================================================
-- First characters
-- ============================================================================

namespace Naming

variable {s t : List Char} {c : Char}

/-- The first letter or digit of a name is a letter. -/
def LeadsWithLetter (s : List Char) : Prop :=
  ∃ c, s.find? Char.isAlphanum = some c ∧ c.isAlpha = true

/-- The first character of the words of a name is its first letter or digit. -/
theorem head?_flatten_words (s : List Char) :
    (words s).flatten.head? = s.find? Char.isAlphanum := by
  rw [flatten_words, List.head?_filter]

theorem head?_camelCase (s : List Char) :
    (camelCase s).head? = (s.find? Char.isAlphanum).map Char.toLower := by
  rw [← head?_flatten_words, camelCase_eq_flatten]
  have hwords := isWords_words s
  cases hws : words s with
  | nil => rfl
  | cons w ws =>
      obtain ⟨c, r, rfl⟩ := List.exists_cons_of_ne_nil (hwords w (by simp [hws])).1
      rfl

theorem head?_envName (s : List Char) :
    (envName s).head? = (s.find? Char.isAlphanum).map Char.toUpper := by
  rw [← head?_flatten_words, envName_eq]
  have hwords := isWords_words s
  cases hws : words s with
  | nil => rfl
  | cons w ws =>
      obtain ⟨c, r, rfl⟩ := List.exists_cons_of_ne_nil (hwords w (by simp [hws])).1
      cases ws <;> rfl

theorem isIdentifier_iff_of_parts (h : ∀ c ∈ t, isIdentifierPart c = true) :
    isIdentifier t = true ↔ ∃ c, t.head? = some c ∧ isIdentifierStart c = true := by
  cases t with
  | nil => simp [isIdentifier]
  | cons c t =>
      have hrest : t.all isIdentifierPart = true :=
        List.all_eq_true.mpr fun d hd => h d (List.mem_cons_of_mem _ hd)
      simp [isIdentifier, hrest]

/-- A text that begins with the first letter or digit of a name, in another case, and goes on
with letters, digits and underscores. -/
theorem isIdentifier_iff_leadsWithLetter {f : Char → Char}
    (hf : ∀ c, c.isAlphanum = true → isIdentifierStart (f c) = c.isAlpha)
    (hhead : t.head? = (s.find? Char.isAlphanum).map f)
    (hparts : ∀ c ∈ t, isIdentifierPart c = true) :
    isIdentifier t = true ↔ LeadsWithLetter s := by
  rw [isIdentifier_iff_of_parts hparts, hhead, LeadsWithLetter]
  cases hfind : s.find? Char.isAlphanum with
  | none => simp
  | some c => simp [hf c (by simpa using List.find?_some hfind)]

theorem isIdentifierPart_of_alphanum (hc : c.isAlphanum = true) : isIdentifierPart c = true := by
  rw [isIdentifierPart, hc, Bool.true_or, Bool.true_or]

/-- Among the letters and digits, an identifier starts with a letter. -/
theorem isIdentifierStart_of_alphanum (hc : c.isAlphanum = true) :
    isIdentifierStart c = c.isAlpha := by
  have hunderscore : c ≠ '_' := by
    rintro rfl
    cases hc
  have hdollar : c ≠ '$' := by
    rintro rfl
    cases hc
  simp [isIdentifierStart, hunderscore, hdollar]

theorem isIdentifier_camelCase (s : List Char) :
    isIdentifier (camelCase s) = true ↔ LeadsWithLetter s := by
  refine isIdentifier_iff_leadsWithLetter (fun c hc => ?_) (head?_camelCase s) fun c hc =>
    isIdentifierPart_of_alphanum (isAlphanum_of_mem_camelCase hc)
  rw [isIdentifierStart_of_alphanum (isAlphanum_of_isSmall (isSmall_toLower hc)),
    (caseLaws c).isAlpha_toLower]

theorem isIdentifier_envName (s : List Char) :
    isIdentifier (envName s) = true ↔ LeadsWithLetter s := by
  refine isIdentifier_iff_leadsWithLetter (fun c hc => ?_) (head?_envName s) fun c hc => ?_
  · rw [isIdentifierStart_of_alphanum (isAlphanum_of_isBig (isBig_toUpper hc)),
      (caseLaws c).isAlpha_toUpper]
  · obtain ⟨ws, hws, henv⟩ := isUpperSnake_envName s
    rw [henv] at hc
    rcases Text.mem_joinWith hc with hc | ⟨w, hw, hc⟩
    · rw [List.mem_singleton.mp hc]
      rfl
    · exact isIdentifierPart_of_alphanum (isAlphanum_of_isBig ((hws w hw).2 c hc))

end Naming

-- ============================================================================
-- The entries of the table
-- ============================================================================

/-- An entry of the environment table: its key, the variable it reads, and the literal of the
value it has without the variable. -/
structure TableEntry where
  key : List Char
  reads : List Char
  fallback : List Char

namespace TableEntry

/-- The line of an entry. -/
def line (e : TableEntry) : List Char :=
  ["  ".toList, e.key, ": process.env.".toList, e.reads, " || ".toList, e.fallback,
    ",\n".toList].flatten

/-- The entries that every table has. -/
def fixed : List TableEntry := [
  ⟨"nodeEnv".toList, "NODE_ENV".toList, "'development'".toList⟩,
  ⟨"logLevel".toList, "LOG_LEVEL".toList, "'info'".toList⟩]

/-- The entry of an entry of the environment. -/
def ofSetting (quote : Char) (e : String × String) : TableEntry where
  key := Naming.camelCase e.1.toList
  reads := Naming.envName e.1.toList
  fallback := Script.quote quote e.2.toList

/-- The text of a table. -/
def tableText (es : List TableEntry) : List Char :=
  ["\nexport const environment = \x7b\n".toList, es.flatMap line, "\x7d;\n".toList].flatten

theorem flatMap_line_fixed : fixed.flatMap line =
    "  nodeEnv: process.env.NODE_ENV || 'development',\n".toList ++
      "  logLevel: process.env.LOG_LEVEL || 'info',\n".toList := by
  decide +kernel

theorem environmentRow_eq {quote : Char} {row : (String × String) × EnvVariable}
    (h : Template.IsRow row) :
    Configuration.environmentRow quote row = (ofSetting quote row.1).line := by
  have hname : row.2.name.toList = Naming.envName row.1.1.toList := by
    rw [h, String.toList_ofList]
  rw [Configuration.environmentRow, hname]
  rfl

theorem environmentTable_eq {quote : Char} {rows : List ((String × String) × EnvVariable)}
    (h : ∀ row ∈ rows, Template.IsRow row) :
    Configuration.environmentTable quote rows =
      tableText (fixed ++ rows.map fun row => ofSetting quote row.1) := by
  have hrows : (rows.map fun row => ofSetting quote row.1).flatMap line =
      rows.flatMap (Configuration.environmentRow quote) := by
    rw [List.flatMap_map]
    exact List.flatMap_congr fun row hrow => (environmentRow_eq (h row hrow)).symm
  have hbody := congrArg₂ (· ++ ·) flatMap_line_fixed hrows
  rw [← List.flatMap_append] at hbody
  have hparts : ∀ a b c d e : List Char, [a, b, c, d, e].flatten = [a, b ++ c ++ d, e].flatten := by
    intros
    simp
  exact (hparts _ _ _ _ _).trans (congrArg (fun body => [_, body, _].flatten) hbody.symm)

end TableEntry

-- ============================================================================
-- The keys of the table
-- ============================================================================

namespace ProjectFile

open Naming (LeadsWithLetter isIdentifier shownWords)
open TableEntry (fixed ofSetting tableText)

/-- The keys of the fixed entries are what they are in one word. -/
theorem map_key_fixed :
    fixed.map (·.key) = ["nodeEnv", "logLevel"].map fun k => Naming.camelCase k.toList := by
  decide

/-- The keys of a table differ if the keys they are made from show different words. -/
theorem nodup_keys_iff {quote : Char} {own : List TableEntry} {es : List (String × String)}
    (hown : own.Perm (es.map (ofSetting quote))) :
    ((fixed ++ own).map (·.key)).Nodup ↔
      (["nodeEnv", "logLevel"] ++ es.map (·.1)).Pairwise fun a b =>
        shownWords a.toList ≠ shownWords b.toList := by
  have hkeys : ((fixed ++ own).map (·.key)).Perm
      ((["nodeEnv", "logLevel"] ++ es.map (·.1)).map fun k => Naming.camelCase k.toList) := by
    have hmap := hown.map (·.key)
    rw [List.map_map] at hmap
    rw [List.map_append, List.map_append, map_key_fixed, List.map_map]
    exact hmap.append_left _
  rw [hkeys.nodup_iff, List.Nodup, List.pairwise_map]
  exact List.Pairwise.iff fun a b => not_congr Naming.camelCase_eq_iff

/-- A configuration is there exactly if all of its settings can be written.  Its environment table
has the two fixed entries and one for each entry of the environment.  Its keys are pairwise distinct exactly if the keys of the environment and those
of the fixed entries pairwise show different words.  A key of the environment becomes an
identifier, and names a variable that is one, exactly if its first letter or digit is a letter. -/
theorem environment_keys (g : Graph) (c : Context) :
    ((∃ f, config g c = .ok f) ↔ g.hasLongConfiguration c = false) ∧
    ∀ f, config g c = .ok f → ∃ header own,
      f.content = Format.formatString c.style
        (String.ofList (header ++ tableText (fixed ++ own))) ∧
      own.Perm (c.environment.map (ofSetting c.style.quote)) ∧
      (((fixed ++ own).map (·.key)).Nodup ↔
        (["nodeEnv", "logLevel"] ++ c.environment.map (·.1)).Pairwise fun a b =>
          shownWords a.toList ≠ shownWords b.toList) ∧
      (∀ e ∈ fixed, isIdentifier e.key = true ∧ isIdentifier e.reads = true) ∧
      ∀ e ∈ c.environment,
        (isIdentifier (ofSetting c.style.quote e).key = true ↔ LeadsWithLetter e.1.toList) ∧
        (isIdentifier (ofSetting c.style.quote e).reads = true ↔ LeadsWithLetter e.1.toList) := by
  have hsetting : ∀ e ∈ c.environment, Template.IsRow (e, EnvVariable.ofSetting e) :=
    fun _ _ => rfl
  obtain ⟨hthere, hends⟩ := config_ends (g := g) hsetting
  refine ⟨hthere, fun f hf => ?_⟩
  obtain ⟨header, rows, hcontent, hperm, hread⟩ := hends f hf
  have hrows : ∀ row ∈ rows, Template.IsRow row := by
    intro row hrow
    rw [Template.IsRow, hread row hrow]
    rfl
  have hown : (rows.map fun row => ofSetting c.style.quote row.1).Perm
      (c.environment.map (ofSetting c.style.quote)) := by
    have hmap := hperm.map (ofSetting c.style.quote)
    rwa [List.map_map] at hmap
  rw [TableEntry.environmentTable_eq hrows] at hcontent
  refine ⟨header, _, hcontent, hown, nodup_keys_iff hown, by decide, fun e _ => ?_⟩
  exact ⟨Naming.isIdentifier_camelCase _, Naming.isIdentifier_envName _⟩

/-- An environment with a key that is a fixed one to a reader, and one that begins with a digit. -/
def repeatedKeys : Context where
  environment := [("node-env", "x"), ("1st", "y")]

theorem repeatedKeys_repeated :
    ∃ f header own, config {} repeatedKeys = .ok f ∧
      f.content = Format.formatString repeatedKeys.style
        (String.ofList (header ++ tableText (fixed ++ own))) ∧
      ¬ ((fixed ++ own).map (·.key)).Nodup ∧
      isIdentifier (ofSetting repeatedKeys.style.quote ("1st", "y")).key = false := by
  obtain ⟨hthere, hall⟩ := environment_keys {} repeatedKeys
  obtain ⟨f, hf⟩ := hthere.mpr rfl
  obtain ⟨header, own, hcontent, -, hnodup, -, hidentifier⟩ := hall f hf
  refine ⟨f, header, own, hf, hcontent, ?_, ?_⟩
  · rw [hnodup]
    decide
  · have hkey := (hidentifier ("1st", "y") (by simp [repeatedKeys])).1
    have hdigit : ¬ LeadsWithLetter "1st".toList := by
      rintro ⟨c, hc, hletter⟩
      cases hc
      cases hletter
    simpa using hkey.not.mpr hdigit

end ProjectFile

end Flowscript

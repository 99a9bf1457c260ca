/-
  Flowscript.Proofs.TypesExports

  The exports of the module of interfaces, and what it declares.

    * The interfaces of a graph are those of its object parameters that have a name of their
      own, and then the fixed ones (`Graph.map_name_interfaces`).
    * The text of an interface declares the interface and nothing else: neither the lines of
      its fields nor a key in quotes reads as a declaration
      (`Interface.declaredInterfaces_text`).
    * Formatting keeps declarations, so the module declares its interfaces, each under its
      name in the case of types (`ProjectFile.declaredInterfaces_types`).
-/
import Flowscript.Proofs.DeclaredInterfaces
import Flowscript.Proofs.KeptNames
import Flowscript.Proofs.Precedence

namespace Flowscript

open Format (Sealed WholeLines declaredInterfaces interfaceName?)
open Naming (isIdentifierPart)

variable {g : Graph} {c : Context} {i : Interface} {f : InterfaceField} {n : Node} {p : Parameter}

-- ============================================================================
-- Interfaces of a graph
-- ============================================================================

namespace Interface

/-- A name that an interface of a parameter can have. -/
def isOwnName (name : String) : Bool := name ≠ "" && name ∉ fixedNames

/-- The interfaces that are kept have the names that are new, each of them once. -/
theorem map_name_keepNamed (taken : List String) (is : List Interface) :
    (keepNamed taken is).map (·.name) =
      Text.distinct ((is.map (·.name)).filter fun name => name ≠ "" && name ∉ taken) := by
  induction is generalizing taken with
  | nil => rfl
  | cons i is ih =>
      rw [keepNamed, List.map_cons, List.filter_cons]
      by_cases hdrop : i.name = "" ∨ i.name ∈ taken
      · have hkeep : (i.name ≠ "" && i.name ∉ taken) = false := by
          rcases hdrop with h | h <;> simp [h]
        rw [if_pos (by simpa using hdrop), hkeep, ih]
        rfl
      · have hkeep : (i.name ≠ "" && i.name ∉ taken) = true := by
          simpa [not_or] using hdrop
        rw [if_neg (by simpa using hdrop), hkeep, List.map_cons, ih, if_pos rfl, Text.distinct,
          Text.distinct, List.eraseDups_cons, List.filter_filter]
        have hnew : (fun name => decide (name ≠ "") && decide (name ∉ i.name :: taken)) =
            fun name => !(name == i.name) && (decide (name ≠ "") && decide (name ∉ taken)) := by
          funext name
          rw [Bool.eq_iff_iff]
          simp only [List.mem_cons, not_or, Bool.and_eq_true, decide_eq_true_eq, Bool.not_eq_true',
            beq_eq_false_iff_ne]
          tauto
        rw [hnew]

end Interface

/-- If the interfaces can be written, the names of all object parameters can be. -/
theorem Graph.namedObjects_of_untyped? (h : g.untyped? = none) :
    g.namedObjects = g.objectParameters := by
  have hnames := (Option.or_eq_none_iff.mp h).2
  refine List.takeWhile_eq_self_iff.mpr fun p hp => ?_
  by_contra hlong
  rw [if_pos (List.any_eq_true.mpr ⟨p, hp, by simpa using hlong⟩)] at hnames
  cases hnames

/-- The names of a graph's interfaces: those of its object parameters that are new, and the fixed
ones after them. -/
theorem Graph.map_name_interfaces (g : Graph) :
    g.interfaces.map (·.name) =
      Text.distinct ((g.namedObjects.map fun p => Interface.nameOf p.1 p.2).filter
        Interface.isOwnName) ++ Interface.fixedNames := by
  rw [Graph.interfaces, List.map_append, Interface.map_name_keepNamed, List.map_map]
  rfl

theorem Graph.nodup_name_interfaces (g : Graph) : (g.interfaces.map (·.name)).Nodup := by
  have hfixed : Interface.fixedNames.Nodup := by decide
  rw [g.map_name_interfaces]
  refine List.nodup_append.mpr ⟨Text.nodup_distinct _, hfixed, ?_⟩
  rintro name hname _ hmem rfl
  have hown := (List.mem_filter.mp (Text.mem_distinct.mp hname)).2
  simp [Interface.isOwnName, hmem] at hown

/-- The name of an interface is that of a fixed one, or made from a label. -/
theorem Graph.name_cases {name : String} (h : name ∈ g.interfaces.map (·.name)) :
    name ∈ Interface.fixedNames ∨
      name ≠ "" ∧ ∃ p ∈ g.namedObjects, name = Interface.nameOf p.1 p.2 := by
  rw [g.map_name_interfaces] at h
  rcases List.mem_append.mp h with h | h
  · obtain ⟨hname, hown⟩ := List.mem_filter.mp (Text.mem_distinct.mp h)
    obtain ⟨p, hp, rfl⟩ := List.mem_map.mp hname
    rw [Interface.isOwnName, Bool.and_eq_true, decide_eq_true_eq] at hown
    exact .inr ⟨hown.1, p, hp, rfl⟩
  · exact .inl h

/-- A name that is a word of letters and digits, and begins with a capital or a digit. -/
structure Interface.IsTypeName (name : String) : Prop where
  ne_nil : name.toList ≠ []
  alphanum : ∀ c ∈ name.toList, c.isAlphanum = true
  head : ∀ c ∈ name.toList.head?, Naming.isBig c = true

theorem Interface.isTypeName_of_pascalCase {name : String} {s : List Char} (hne : name ≠ "")
    (h : name.toList = Naming.pascalCase s) : IsTypeName name where
  ne_nil := fun hnil => hne (String.toList_eq_nil_iff.mp hnil)
  alphanum := h ▸ fun _ hc => Naming.isAlphanum_of_mem_pascalCase hc
  head := h ▸ fun _ hc => Naming.isBig_of_mem_head?_pascalCase hc

theorem Graph.isTypeName_of_mem {name : String} (h : name ∈ g.interfaces.map (·.name)) :
    Interface.IsTypeName name := by
  rcases Graph.name_cases h with hname | ⟨hne, p, -, rfl⟩
  · have hfixed : ∀ name ∈ Interface.fixedNames,
        name ≠ "" ∧ name.toList = Naming.pascalCase name.toList := by decide
    obtain ⟨hne, hcase⟩ := hfixed name hname
    exact Interface.isTypeName_of_pascalCase hne hcase
  · exact Interface.isTypeName_of_pascalCase hne String.toList_ofList

/-- The name of an interface is not empty in the case of types. -/
theorem Graph.pascalCase_name_ne_nil (hi : i ∈ g.interfaces) :
    Naming.pascalCase i.name.toList ≠ [] := by
  have hname := Graph.isTypeName_of_mem (List.mem_map_of_mem (f := (·.name)) hi)
  obtain ⟨d, rest, hd⟩ := List.exists_cons_of_ne_nil hname.ne_nil
  have hmem : d ∈ i.name.toList := hd ▸ List.mem_cons_self
  exact Naming.pascalCase_ne_nil hmem (hname.alphanum d hmem)

-- ============================================================================
-- Types of fields
-- ============================================================================

namespace Script.Shape

/-- A character of the text of a type. -/
def isTypeChar (c : Char) : Bool := Format.isCodeChar c && c ≠ '\n'

mutual

/-- The text of a type is code on one line. -/
theorem isTypeChar_text (s : Shape) : ∀ c ∈ s.text.toList, isTypeChar c = true := by
  cases s with
  | array item =>
      rw [text, String.toList_append]
      intro c hc
      rcases List.mem_append.mp hc with hc | hc
      · exact isTypeChar_text item c hc
      · have hbrackets : "[]".toList.all isTypeChar = true := by decide
        exact List.all_eq_true.mp hbrackets c hc
  | mixed items =>
      have htexts := isTypeChar_texts items
      have hopen : "Array<".toList.all isTypeChar = true := by decide
      have hbar : " | ".toList.all isTypeChar = true := by decide
      have hclose : ">".toList.all isTypeChar = true := by decide
      have hjoin : (Text.join " | " (texts items)).toList =
          Text.joinWith " | ".toList ((texts items).map String.toList) := String.toList_ofList
      rw [text, String.toList_append, String.toList_append, hjoin]
      intro c hc
      rcases List.mem_append.mp hc with hc | hc
      · rcases List.mem_append.mp hc with hc | hc
        · exact List.all_eq_true.mp hopen c hc
        · rcases Text.mem_joinWith hc with hc | ⟨t, ht, hc⟩
          · exact List.all_eq_true.mp hbar c hc
          · obtain ⟨t', ht', rfl⟩ := List.mem_map.mp ht
            exact htexts t' ht' c hc
      · exact List.all_eq_true.mp hclose c hc
  | _ => exact List.all_eq_true.mp (by decide)

theorem isTypeChar_texts (ss : List Shape) :
    ∀ t ∈ texts ss, ∀ c ∈ t.toList, isTypeChar c = true := by
  cases ss with
  | nil => exact List.forall_mem_nil _
  | cons s ss =>
      rw [texts, List.forall_mem_cons]
      exact ⟨isTypeChar_text s, isTypeChar_texts ss⟩

end

theorem sealed_text (s : Shape) : Sealed s.text.toList :=
  .code fun c hc => by
    have hchar := isTypeChar_text s c hc
    rw [isTypeChar, Bool.and_eq_true] at hchar
    exact hchar.1

theorem newline_not_mem_text (s : Shape) : '\n' ∉ s.text.toList := fun hmem =>
  absurd (isTypeChar_text s '\n' hmem) (by decide)

end Script.Shape

-- ============================================================================
-- Lines of fields
-- ============================================================================

namespace InterfaceField

/-- The lines of a field are complete, and declare nothing. -/
structure Silent (f : InterfaceField) : Prop where
  lines : WholeLines f.text
  declares : declaredInterfaces f.text = []

/-- What stands after the name of a field, up to the end of the line. -/
def rest (f : InterfaceField) : List Char :=
  (if f.optional then ['?'] else []) ++ ": ".toList ++ f.type.toList ++ [';']

theorem text_eq (f : InterfaceField) :
    f.text = ' ' :: ' ' :: (f.name.toList ++ f.rest) ++ ['\n'] := by
  have hend : ";\n".toList = [';'] ++ ['\n'] := by decide
  rw [text, rest, hend]
  simp

/-- After its name a field goes on with a mark or a colon. -/
theorem head?_rest {d : Char} (h : f.rest.head? = some d) : d = '?' ∨ d = ':' := by
  unfold rest at h
  cases hmark : f.optional with
  | true =>
      rw [hmark] at h
      exact .inl (Option.some.inj h).symm
  | false =>
      rw [hmark] at h
      exact .inr (Option.some.inj h).symm

theorem rest_stops {d : Char} (h : f.rest.head? = some d) :
    Text.isBlank d = false ∧ isIdentifierPart d = false := by
  rcases head?_rest h with rfl | rfl <;> decide

section Lines

variable (htype : Sealed f.type.toList) (hline : '\n' ∉ f.type.toList)
include htype hline

theorem sealed_rest : Sealed f.rest ∧ '\n' ∉ f.rest := by
  have hmark : Sealed (if f.optional then ['?'] else []) ∧
      '\n' ∉ (if f.optional then ['?'] else []) := by
    cases f.optional with
    | true => exact ⟨.of_all (by decide), by decide⟩
    | false => exact ⟨.nil, by decide⟩
  constructor
  · exact ((hmark.1.append (.of_all (by decide))).append htype).append (.of_all (by decide))
  · simp [rest, hmark.2, hline]

/-- A field whose name is on one line and does not read as a word before white space. -/
theorem silent_of_line {u v : List Char} (hname : f.name.toList = u ++ v)
    (hsealed : Sealed (u ++ v)) (hnewline : '\n' ∉ u ++ v)
    (hu : ∀ c ∈ u, isIdentifierPart c = true)
    (hv : ∀ d, v.head? = some d → Text.isBlank d = false ∧ isIdentifierPart d = false) :
    Silent f := by
  obtain ⟨hrest, hrestLine⟩ := sealed_rest htype hline
  have hmargin : Sealed [' ', ' '] := .of_all (by decide)
  have htext : f.text = ' ' :: ' ' :: (u ++ (v ++ f.rest)) ++ ['\n'] := by
    rw [text_eq, hname, List.append_assoc]
  have hstops : ∀ d, (v ++ f.rest).head? = some d →
      Text.isBlank d = false ∧ isIdentifierPart d = false := by
    intro d hd
    cases v with
    | nil => exact rest_stops hd
    | cons e v => exact hv d hd
  have hnone : interfaceName? (' ' :: ' ' :: (u ++ (v ++ f.rest))) = none :=
    Format.interfaceName?_word (u := u) hu hstops
  constructor
  · have hwhole := hmargin.append (hsealed.append hrest)
    rw [List.append_assoc u v] at hwhole
    rw [htext]
    exact WholeLines.concat hwhole
  · rw [htext, Format.declaredInterfaces_line, hnone]
    · rfl
    · simp only [List.mem_append, not_or] at hnewline
      simp [hnewline, hrestLine]

/-- A field whose name is an identifier. -/
theorem silent_of_isIdentifier (hname : Naming.isIdentifier f.name.toList = true) : Silent f := by
  have hparts := fun c hc => Naming.isIdentifierPart_of_mem (c := c) hname hc
  refine silent_of_line htype hline (u := f.name.toList) (v := []) (List.append_nil _).symm ?_ ?_
    hparts (by simp)
  · rw [List.append_nil]
    exact Import.sealed_identifier hname
  · rw [List.append_nil]
    exact Naming.not_mem_of_isIdentifier hname (by decide)

/-- A field whose name is an identifier with a line break after it takes two lines. -/
theorem silent_of_broken {name : List Char} (hname : f.name.toList = name ++ ['\n'])
    (hidentifier : Naming.isIdentifier name = true) : Silent f := by
  obtain ⟨hrest, hrestLine⟩ := sealed_rest htype hline
  have hparts := fun c hc => Naming.isIdentifierPart_of_mem (c := c) hidentifier hc
  have hfirst : WholeLines ([' ', ' '] ++ name ++ ['\n']) :=
    .concat (Sealed.append (.of_all (by decide)) (Import.sealed_identifier hidentifier))
  have htext : f.text = [' ', ' '] ++ name ++ ['\n'] ++ (f.rest ++ ['\n']) := by
    rw [text_eq, hname]
    simp
  have hword : interfaceName? ([' ', ' '] ++ name) = none := by
    have hnone := Format.interfaceName?_word (w := []) hparts (by simp)
    rwa [List.append_nil] at hnone
  have hmark : interfaceName? f.rest = none :=
    Format.interfaceName?_word (u := []) (by simp) fun d hd => rest_stops hd
  have hnewline : '\n' ∉ [' ', ' '] ++ name := by
    simp [Naming.not_mem_of_isIdentifier hidentifier (c := '\n') (by decide)]
  constructor
  · rw [htext]
    exact hfirst.append (.concat hrest)
  · rw [htext, hfirst.declaredInterfaces_append, Format.declaredInterfaces_line hnewline,
      Format.declaredInterfaces_line hrestLine, hword, hmark]
    rfl

/-- A field whose name is in quotes. -/
theorem silent_of_quote {name : List Char} (hname : f.name.toList = Script.quote '\'' name)
    (hreturn : '\r' ∉ name) : Silent f := by
  refine silent_of_line htype hline (u := []) hname (.quote (by decide) hreturn)
    (Script.newline_not_mem_quote (by decide) name) (by simp) ?_
  rintro d ⟨⟩
  exact ⟨by decide, by decide⟩

end Lines

end InterfaceField

/-- The field of an entry whose key has no carriage return. -/
theorem Interface.silent_fieldOf (entry : Scalar × Value)
    (h : '\r' ∉ (fieldOf entry).name.toList) : (fieldOf entry).Silent := by
  have htype : Sealed (fieldOf entry).type.toList := Script.Shape.sealed_text _
  have hline : '\n' ∉ (fieldOf entry).type.toList := Script.Shape.newline_not_mem_text _
  have hname : (fieldOf entry).name.toList = Script.key entry.1.display.toList :=
    String.toList_ofList
  have hreturn : '\r' ∉ entry.1.display.toList := fun hmem =>
    h (hname ▸ Script.mem_key hmem)
  rcases Script.key_cases entry.1.display.toList with
    ⟨hid, hkey⟩ | ⟨name, hid, hbroken, hkey⟩ | hkey
  · refine InterfaceField.silent_of_isIdentifier htype hline ?_
    rwa [hname, hkey]
  · exact InterfaceField.silent_of_broken htype hline (by rw [hname, hkey, hbroken]) hid
  · exact InterfaceField.silent_of_quote htype hline (by rw [hname, hkey]) hreturn

/-- The fields of the fixed interfaces. -/
theorem Interface.silent_of_mem_fixed (hi : i ∈ fixed) (hf : f ∈ i.fields) : f.Silent := by
  have hall : ∀ i ∈ fixed, ∀ f ∈ i.fields, Naming.isIdentifier f.name.toList = true ∧
      (f.type.toList.all Format.isCodeChar = true ∨ f.type = "'system' | 'human' | 'ai'") ∧
      '\n' ∉ f.type.toList := by decide +kernel
  obtain ⟨hname, htype, hline⟩ := hall i hi f hf
  refine InterfaceField.silent_of_isIdentifier ?_ hline hname
  rcases htype with hcode | hroles
  · exact .of_all hcode
  · have hquote := fun s hs => Sealed.quote (q := '\'') (s := s) (by decide) hs
    have hbar : Sealed " | ".toList := .of_all (by decide)
    have hliterals := (((hquote "system".toList (by decide)).append hbar).append
      ((hquote "human".toList (by decide)).append hbar)).append (hquote "ai".toList (by decide))
    rw [hroles]
    exact hliterals

-- ============================================================================
-- Declarations
-- ============================================================================

namespace Interface

/-- The fields of a graph's interfaces declare nothing, if no carriage return is in their names. -/
theorem silent_of_mem_interfaces (hi : i ∈ g.interfaces) (hf : f ∈ i.fields)
    (h : '\r' ∉ f.name.toList) : f.Silent := by
  rcases Graph.cases_of_mem_interfaces hi with ⟨p, -, rfl⟩ | hi
  · obtain ⟨entry, -, rfl⟩ := List.mem_map.mp hf
    exact silent_fieldOf entry h
  · exact silent_of_mem_fixed hi hf

/-- The first line of an interface, up to its end. -/
def firstLine (i : Interface) : List Char :=
  Format.interfaceHead ++ Naming.pascalCase i.name.toList ++ [' ', '\x7b']

/-- The text of an interface in lines. -/
theorem text_eq (i : Interface) :
    i.text = i.firstLine ++ ['\n'] ++ i.fields.flatMap InterfaceField.text ++
      ['\x7d', '\n', '\n'] := by
  have hopen : " \x7b\n".toList = [' ', '\x7b'] ++ ['\n'] := by decide
  have hclose : "\x7d\n\n".toList = ['\x7d', '\n', '\n'] := by decide
  unfold text firstLine Format.interfaceHead
  rw [hopen, hclose]
  simp only [List.append_assoc]

theorem isIdentifierPart_of_mem_pascalCase {s : List Char} {c : Char}
    (h : c ∈ Naming.pascalCase s) : isIdentifierPart c = true := by
  simp [isIdentifierPart, Naming.isAlphanum_of_mem_pascalCase h]

theorem sealed_firstLine (i : Interface) : Sealed i.firstLine := by
  have hwords : Sealed Format.interfaceHead := .of_all (by decide)
  have hcase : Sealed (Naming.pascalCase i.name.toList) := .code fun _ hc =>
    Import.isCodeChar_of_isIdentifierPart (isIdentifierPart_of_mem_pascalCase hc)
  have hopen : Sealed [' ', '\x7b'] := .of_all (by decide)
  exact (hwords.append hcase).append hopen

theorem wholeLines_close : WholeLines ['\x7d', '\n', '\n'] :=
  .concat (s := ['\x7d', '\n']) (.of_all (by decide))

/-- The text of an interface is made of complete lines. -/
theorem wholeLines_text (hfields : ∀ f ∈ i.fields, f.Silent) : WholeLines i.text := by
  have hbody : WholeLines (i.fields.flatMap InterfaceField.text) :=
    .flatMap fun f hf => (hfields f hf).lines
  rw [text_eq]
  exact ((WholeLines.concat i.sealed_firstLine).append hbody).append wholeLines_close

/-- The text of an interface declares the interface and nothing else. -/
theorem declaredInterfaces_text (hfields : ∀ f ∈ i.fields, f.Silent)
    (hname : Naming.pascalCase i.name.toList ≠ []) :
    declaredInterfaces i.text = [Naming.pascalCase i.name.toList] := by
  have hhead : interfaceName? i.firstLine = some (Naming.pascalCase i.name.toList) := by
    have hsolid : Text.StartsSolid i.firstLine := Text.startsSolid_cons (by decide)
    rw [interfaceName?, hsolid.trimStart_eq, Format.nameAfterHead_eq_some_iff]
    refine ⟨[' ', '\x7b'], rfl, hname, fun c hc => isIdentifierPart_of_mem_pascalCase hc, ?_⟩
    rintro c ⟨⟩
    decide
  have hline : '\n' ∉ i.firstLine := by
    have hwords : '\n' ∉ Format.interfaceHead := by decide
    have hcase : '\n' ∉ Naming.pascalCase i.name.toList := fun hmem =>
      absurd (isIdentifierPart_of_mem_pascalCase hmem) (by decide)
    simp [firstLine, hwords, hcase]
  have hbody : declaredInterfaces (i.fields.flatMap InterfaceField.text) = [] := by
    rw [WholeLines.declaredInterfaces_flatMap fun f hf => (hfields f hf).lines,
      List.flatMap_eq_nil_iff]
    exact fun f hf => (hfields f hf).declares
  have hclose : declaredInterfaces ['\x7d', '\n', '\n'] = [] := by decide
  have hlines := WholeLines.concat i.sealed_firstLine
  rw [text_eq, List.append_assoc, hlines.declaredInterfaces_append,
    Format.declaredInterfaces_line hline, hhead,
    (WholeLines.flatMap fun f hf => (hfields f hf).lines).declaredInterfaces_append, hbody, hclose]
  rfl

end Interface

-- ============================================================================
-- The module of interfaces
-- ============================================================================

namespace ProjectFile

/-- The module of interfaces declares the interfaces, if nothing in it is broken: the header ends
where it should, and no carriage return is in a key. -/
theorem declaredInterfaces_typesText
    (hcontained : c.includeComments = true → ¬ ['*', '/'] <:+: c.projectName.toList)
    (hsilent : ∀ i ∈ g.interfaces, ∀ f ∈ i.fields, f.Silent) :
    declaredInterfaces (Text.unifyNewlines (typesText g c)) =
      g.interfaces.map fun i => Naming.pascalCase i.name.toList := by
  have hnames := fun i hi => Graph.pascalCase_name_ne_nil (g := g) (i := i) hi
  have hlines : ∀ i ∈ g.interfaces, WholeLines i.text := fun i hi =>
    Interface.wholeLines_text (hsilent i hi)
  have hbody : declaredInterfaces (Text.unifyNewlines (g.interfaces.flatMap Interface.text)) =
      g.interfaces.map fun i => Naming.pascalCase i.name.toList := by
    rw [Text.unifyNewlines_of_not_mem (WholeLines.flatMap hlines).sealing.noReturn,
      WholeLines.declaredInterfaces_flatMap hlines]
    generalize g.interfaces = is at hsilent hnames
    induction is with
    | nil => rfl
    | cons i is ih =>
        rw [List.forall_mem_cons] at hsilent hnames
        rw [List.flatMap_cons, List.map_cons, ih hsilent.2 hnames.2,
          Interface.declaredInterfaces_text hsilent.1 hnames.1]
        rfl
  rw [← hbody, typesText]
  cases hcomments : c.includeComments with
  | false =>
      rw [typesHeader, hcomments, if_neg (by simp), List.nil_append]
  | true =>
      have hheader : typesHeader c = '/' :: '*' :: '*' :: '\n' ::
          (" * Type definitions for ".toList ++ c.projectName.toList ++
            '\n' :: " * Generated by flowgen".toList ++ '\n' :: " */\n\n".toList) := by
        have hfirst : "/**\n * Type definitions for ".toList =
            '/' :: '*' :: '*' :: '\n' :: " * Type definitions for ".toList := by decide
        have hlast : "\n * Generated by flowgen\n */\n\n".toList =
            '\n' :: " * Generated by flowgen".toList ++ '\n' :: " */\n\n".toList := by decide
        unfold typesHeader
        rw [hcomments, if_pos rfl, hfirst, hlast]
        simp only [List.append_assoc, List.cons_append]
      rw [hheader, Format.declaredInterfaces_header]
      rw [Format.infix_between_iff (by decide) (by decide) (by decide)]
      exact hcontained hcomments

/-- The module of interfaces is there exactly if nothing keeps them from being written. -/
theorem types_eq_ok_iff {f : OutputFile} :
    types g c = .ok f ↔ g.untyped? = none ∧ f =
      { path := "src/types.ts"
        kind := .types
        content := Format.formatString c.style (String.ofList (typesText g c))
        exports := g.interfaces.map (·.name) } := by
  constructor
  · intro h
    cases huntyped : g.untyped? with
    | none =>
        rw [types_eq_ok huntyped] at h
        exact ⟨rfl, (Except.ok.inj h).symm⟩
    | some obstacle =>
        rw [types, typesSource_eq_error huntyped] at h
        cases h
  · rintro ⟨huntyped, rfl⟩
    exact types_eq_ok huntyped c

/-- The module of interfaces declares its interfaces, each under its name in the case of types. -/
theorem declaredInterfaces_types {f : OutputFile} (h : types g c = .ok f)
    (hcontained : c.includeComments = true → ¬ ['*', '/'] <:+: c.projectName.toList)
    (hreturn : ∀ i ∈ g.interfaces, ∀ field ∈ i.fields, '\r' ∉ field.name.toList) :
    declaredInterfaces f.content.toList =
      f.exports.map fun name => Naming.pascalCase name.toList := by
  obtain ⟨-, rfl⟩ := types_eq_ok_iff.mp h
  have hsilent : ∀ i ∈ g.interfaces, ∀ field ∈ i.fields, field.Silent := fun i hi field hf =>
    Interface.silent_of_mem_interfaces hi hf (hreturn i hi field hf)
  have hformat := Format.declaredInterfaces_format c.style (typesText g c)
  rw [declaredInterfaces_typesText hcontained hsilent] at hformat
  rw [Format.formatString, String.toList_ofList, String.toList_ofList, hformat, List.map_map]
  rfl

end ProjectFile

/-- There is one name for each object parameter exactly if their names differ, from each other and
from those of the fixed interfaces, and none is empty. -/
theorem Interface.distinct_filter_eq_self_iff {names : List String} :
    Text.distinct (names.filter isOwnName) = names ↔
      (∀ name ∈ names, isOwnName name = true) ∧ names.Nodup := by
  constructor
  · intro h
    refine ⟨fun name hname => ?_, h ▸ Text.nodup_distinct _⟩
    rw [← h, Text.mem_distinct] at hname
    exact (List.mem_filter.mp hname).2
  · rintro ⟨hown, hnodup⟩
    rw [List.filter_eq_self.mpr hown, Text.distinct_eq_self hnodup]

/-- The module of interfaces is there exactly if nothing keeps them from being written.  It exports
the interfaces of the object parameters that have a name of their own, one of each name and in
order, and then the fixed ones, so no name twice; these are all object parameters exactly if their
names differ, are not empty and not those of the fixed ones.  It declares the interfaces it exports
in the same order, each under its name in the case of types, if neither a key nor the name of the
project breaks the text around it: so under its own name exactly if each capital of every name
is read as the start of a word, and no name twice exactly if the names show different words. -/
theorem types_exports (g : Graph) (c : Context) :
    ((∃ f, ProjectFile.types g c = .ok f) ↔ g.untyped? = none) ∧
      ∀ f, ProjectFile.types g c = .ok f →
        f.exports = Text.distinct ((g.objectParameters.map fun p => Interface.nameOf p.1 p.2).filter
          Interface.isOwnName) ++ Interface.fixedNames ∧
        f.exports.Nodup ∧
        (f.exports = (g.objectParameters.map fun p => Interface.nameOf p.1 p.2) ++
            Interface.fixedNames ↔
          (∀ p ∈ g.objectParameters, Interface.isOwnName (Interface.nameOf p.1 p.2) = true) ∧
            (g.objectParameters.map fun p => Interface.nameOf p.1 p.2).Nodup) ∧
        ((∀ i ∈ g.interfaces, ∀ field ∈ i.fields, '\r' ∉ field.name.toList) →
          (c.includeComments = true → ¬ ['*', '/'] <:+: c.projectName.toList) →
          declaredInterfaces f.content.toList =
              (f.exports.map fun name => Naming.pascalCase name.toList) ∧
            (declaredInterfaces f.content.toList = f.exports.map String.toList ↔
              ∀ name ∈ f.exports, Naming.isLegible name.toList = true) ∧
            ((declaredInterfaces f.content.toList).Nodup ↔
              (f.exports.map fun name => Naming.shownWords name.toList).Nodup)) := by
  constructor
  · simp only [ProjectFile.types_eq_ok_iff, exists_and_left, exists_eq, and_true]
  intro f h
  obtain ⟨huntyped, hf⟩ := ProjectFile.types_eq_ok_iff.mp h
  have hexports : f.exports = g.interfaces.map (·.name) := by rw [hf]
  have hnames : f.exports = Text.distinct ((g.objectParameters.map fun p =>
      Interface.nameOf p.1 p.2).filter Interface.isOwnName) ++ Interface.fixedNames := by
    rw [hexports, g.map_name_interfaces, Graph.namedObjects_of_untyped? huntyped]
  refine ⟨hnames, hexports ▸ g.nodup_name_interfaces, ?_, fun hreturn hcontained => ?_⟩
  · rw [hnames, List.append_left_inj, Interface.distinct_filter_eq_self_iff, List.forall_mem_map]
  have hdeclared := ProjectFile.declaredInterfaces_types h hcontained hreturn
  refine ⟨hdeclared, ?_, ?_⟩
  · rw [hdeclared, List.map_inj_left]
    refine forall₂_congr fun name hname => ?_
    have htype := Graph.isTypeName_of_mem (hexports ▸ hname)
    exact Naming.pascalCase_eq_self_iff htype.alphanum htype.head
  · rw [hdeclared, List.Nodup, List.Nodup, List.pairwise_map, List.pairwise_map]
    simp only [ne_eq, Naming.pascalCase_eq_iff]

/-- Nodes with objects among their parameters, two of which are named by single letters. -/
def Graph.lettered : Graph :=
  let entry : Entries := [(.str "Accept", .str "json"), (.str "x-retry", .scalar (.int 3))]
  { nodes := [
      { id := "api", type := "requestsGet", varName := "fetcher"
        parameters := [(.str "headers", { name := .str "headers", value := .object entry })] },
      { id := "plan", type := "t", label := "Plan B", varName := "planB"
        parameters := [(.str "q", { name := .str "q", value := .object entry })] },
      { id := "a", type := "t", varName := "a"
        parameters := [(.str "b", { name := .str "b", value := .object entry })] },
      { id := "ab", type := "t", varName := "ab"
        parameters := [(.str "-", { name := .str "-", value := .object entry })] }] }

/-- Two of its interfaces are declared under other names than they are exported under, and one name
is declared twice. -/
theorem lettered_types_exports :
    ∃ f, ProjectFile.types Graph.lettered {} = .ok f ∧
      f.exports = ["FetcherHeaders", "PlanBQ", "AB", "Ab", "AppConfig", "ChatMessage",
        "ProcessingResult"] ∧
      declaredInterfaces f.content.toList = ["FetcherHeaders", "PlanBq", "Ab", "Ab", "AppConfig",
        "ChatMessage", "ProcessingResult"].map String.toList ∧
      declaredInterfaces f.content.toList ≠ f.exports.map String.toList ∧
      ¬ (declaredInterfaces f.content.toList).Nodup := by
  obtain ⟨hthere, hall⟩ := types_exports Graph.lettered {}
  obtain ⟨f, hf⟩ := hthere.mpr rfl
  obtain ⟨hexports, -, -, hdeclared⟩ := hall f hf
  have hnames : f.exports = ["FetcherHeaders", "PlanBQ", "AB", "Ab", "AppConfig", "ChatMessage",
      "ProcessingResult"] := by
    rw [hexports]
    decide
  have hkeys : ∀ i ∈ Graph.lettered.interfaces, ∀ field ∈ i.fields,
      '\r' ∉ field.name.toList := by decide
  have hproject : ¬ ['*', '/'] <:+: ({} : Context).projectName.toList := by decide
  obtain ⟨hcase, hkept, hdistinct⟩ := hdeclared hkeys fun _ => hproject
  refine ⟨f, hf, hnames, ?_, ?_, ?_⟩
  · rw [hcase, hnames]
    decide
  · rw [Ne, hkept, hnames]
    decide
  · rw [hdistinct, hnames]
    decide

end Flowscript

/-
  Flowscript.Proofs.SharedDocuments

  Documents that both readers of texts understand.

  A text of the shared grammar has one outcome, whether it is read as YAML or as JSON: the
  graph of its value or what is wrong with that value, and the same fault if an integer in
  it has too many digits.  Outside of the grammar the readers part: a number whose exponent
  stands behind no fraction is a text to the reader of YAML.
-/
import Flowscript.Proofs.YamlValues
import Flowscript.Workflow.Source

namespace Flowscript

open Shared

-- ============================================================================
-- Strings
-- ============================================================================

/-- Characters are no halves of other ones. -/
theorem Json.joinSurrogates_map_toNat (cs : List Char) :
    joinSurrogates (cs.map Char.toNat) = cs := by
  have hsingle : ∀ c : Char, isSurrogate c.toNat = false := by
    intro c
    have hvalid : c.toNat < 0xD800 ∨ 0xDFFF < c.toNat ∧ c.toNat < 0x110000 := c.valid
    simp only [isSurrogate, Bool.and_eq_false_iff, decide_eq_false_iff_not]
    omega
  induction cs with
  | nil => rfl
  | cons c cs ih =>
      cases cs with
      | nil => simp [joinSurrogates]
      | cons d cs =>
          have hc := hsingle c
          have hpair : (0xD800 ≤ c.toNat && c.toNat < 0xDC00 && 0xDC00 ≤ d.toNat &&
              d.toNat < 0xE000) = false := by
            simp only [isSurrogate, Bool.and_eq_false_iff, decide_eq_false_iff_not] at hc ⊢
            omega
          rw [List.map_cons, List.map_cons, joinSurrogates, hpair, ← List.map_cons, ih]
          simp

namespace Shared

theorem Codes.of_bare {cs : List Char} (h : ∀ c ∈ cs, isBare c = true) (r : List Char) :
    Codes (cs.map Char.toNat) (cs ++ '"' :: r) r := by
  induction cs with
  | nil => exact .close
  | cons c cs ih =>
      exact .bare (h c List.mem_cons_self) (ih fun d hd => h d (List.mem_cons_of_mem c hd))

theorem textOf_map_toNat (text : String) : textOf (text.toList.map Char.toNat) = text := by
  rw [textOf, Json.joinSurrogates_map_toNat, String.ofList_toList]

/-- A string without escapes. -/
theorem Begins.of_bare {text : String} (h : ∀ c ∈ text.toList, isBare c = true) (r : List Char) :
    Begins (.leaf false text (.str text)) ('"' :: (text.toList ++ '"' :: r)) r := by
  have hstring := Begins.string (Codes.of_bare h r)
  rwa [textOf_map_toNat] at hstring

/-- A member whose key has no escapes. -/
theorem Member.of_bare {key : String} {t : Tree} {s s₁ r : List Char}
    (h : ∀ c ∈ key.toList, isBare c = true) (hlength : key.toList.length + 2 ≤ keyReach)
    (hgap : Gap s s₁) (ht : Begins t s₁ r) :
    Member (key, t) ('"' :: (key.toList ++ '"' :: ':' :: s)) r := by
  have hcodes : Codes (key.toList.map Char.toNat) (key.toList ++ '"' :: ':' :: s)
      ([] ++ ':' :: s) := .of_bare h _
  have hmember := Member.mk hcodes (fun _ hc => absurd hc List.not_mem_nil) (by simp; omega) hgap ht
  rwa [textOf_map_toNat] at hmember

end Shared

-- ============================================================================
-- Outcomes
-- ============================================================================

/-- The outcome of a text that is a tree. -/
def Shared.Tree.outcome (t : Tree) : Except Fault Graph :=
  if t.isShort then Document.graph t.value else .error .malformed

theorem Source.ofText_document {t : Tree} {text : String} (h : Document t text.toList)
    (hdepth : t.depth ≤ Yaml.maxDepth) : Source.ofText text = t.outcome := by
  have hread := Yaml.read_document h hdepth
  rw [Source.ofText, Tree.outcome]
  split at hread
  · next hshort => rw [hread, if_pos hshort]
  · next hlong =>
    obtain ⟨number, hread⟩ := hread
    rw [hread, if_neg hlong]
    rfl

theorem Source.ofJson_document (path : String) {t : Tree} {text : String}
    (h : Document t text.toList) (hdepth : t.depth ≤ Json.maxDepth) :
    Source.ofJson path text = t.outcome := by
  rw [Source.ofJson, Json.read_document h hdepth, Json.unlessLong, Tree.outcome]
  cases t.isShort <;> rfl

/-- A text of the shared grammar that is not too deep has the same outcome as YAML and as JSON. -/
theorem Source.shared_outcome (path : String) {t : Tree} {text : String}
    (h : Document t text.toList) (hdepth : t.depth ≤ Yaml.maxDepth) :
    Source.ofText text = t.outcome ∧ Source.ofJson path text = t.outcome :=
  ⟨Source.ofText_document h hdepth,
    Source.ofJson_document path h (Nat.le_trans hdepth (by decide))⟩

-- ============================================================================
-- Numbers
-- ============================================================================

/-- A draft of one node, whose only parameter is a number. -/
def numberDraft (number : String) : String :=
  "\x7b\"nodes\": [\x7b\"id\": \"a\", \"type\": \"t\", \"parameters\": \x7b\"x\": " ++ number ++
    "\x7d\x7d]\x7d"

/-- What a draft with a number is made of. -/
def numberTree (number : String) (v : Scalar) : Tree :=
  .map [("nodes", .list [.map [
    ("id", .leaf false "a" (.str "a")), ("type", .leaf false "t" (.str "t")),
    ("parameters", .map [("x", .leaf true number v)])]])]

theorem document_numberDraft {number : String} {v : Scalar} (h : Word v number.toList) :
    Document (numberTree number v) (numberDraft number).toList := by
  have hnone : ∀ s, Gap s s := fun s => ⟨[], rfl, fun _ hc => absurd hc List.not_mem_nil⟩
  have hspace : ∀ s, Gap (' ' :: s) s := fun s => ⟨[' '], rfl, List.all_eq_true.mp (by decide)⟩
  have hends : ∀ s, Ends ('}' :: s) := by
    rintro s c ⟨⟩
    simp
  have htext : (numberDraft number).toList =
      '{' :: '"' :: ("nodes".toList ++ '"' :: ':' :: ' ' :: '[' :: '{' ::
        '"' :: ("id".toList ++ '"' :: ':' :: ' ' :: '"' :: ("a".toList ++ '"' :: ',' :: ' ' ::
        '"' :: ("type".toList ++ '"' :: ':' :: ' ' :: '"' :: ("t".toList ++ '"' :: ',' :: ' ' ::
        '"' :: ("parameters".toList ++ '"' :: ':' :: ' ' :: '{' ::
        '"' :: ("x".toList ++ '"' :: ':' :: ' ' ::
        (number.toList ++ ['}', '}', ']', '}'])))))))) := by
    unfold numberDraft
    simp only [String.toList_append, String.reduceToList, List.cons_append, List.nil_append]
  have hbare : ∀ {text : String}, text.toList.all isBare = true →
      ∀ c ∈ text.toList, isBare c = true := fun h => List.all_eq_true.mp h
  have hmember : ∀ {key : String} {t : Tree} {s r : List Char}, key.toList.all isBare = true →
      key.toList.length + 2 ≤ keyReach → Begins t s r →
      Member (key, t) ('"' :: (key.toList ++ '"' :: ':' :: ' ' :: s)) r :=
    fun hkey hlength ht => .of_bare (hbare hkey) hlength (hspace _) ht
  rw [htext]
  refine ⟨_, _, hnone _, .map (.last (hnone _) (hmember (by decide) (by decide)
    (.list (.last (hnone _) (.map ?_) (hnone _)))) (hnone _)), hnone _⟩
  refine .cons (hnone _) (hmember (by decide) (by decide)
    (.of_bare (hbare (by decide)) _)) (hnone _) ?_
  refine .cons (hspace _) (hmember (by decide) (by decide)
    (.of_bare (hbare (by decide)) _)) (hnone _) ?_
  refine .last (hspace _) (hmember (by decide) (by decide) (.map (.last (hnone _)
    (hmember (by decide) (by decide) ?_) (hnone _)))) (hnone _)
  have hword := Begins.word h (hends ['}', ']', '}'])
  rwa [String.ofList_toList] at hword

/-- The graph of a draft with a float. -/
theorem Source.numberDraft_outcome :
    ∃ g, Source.ofText (numberDraft "2.5e+3") = .ok g ∧
      Source.ofJson "draft.json" (numberDraft "2.5e+3") = .ok g := by
  have hdigits : ∀ {ds : List Char}, ds.all Char.isDigit = true → ∀ d ∈ ds, d.isDigit = true :=
    fun h => List.all_eq_true.mp h
  have hwhole : IsWhole ['2'] := .inr ⟨'2', [], rfl, by decide, hdigits (by decide)⟩
  have hplaces : IsDigits ['5'] := ⟨by decide, hdigits (by decide)⟩
  have hthree : IsDigits ['3'] := ⟨by decide, hdigits (by decide)⟩
  have hword : Word (.float (Double.ofDecimal false 25 2)) "2.5e+3".toList :=
    .float false hwhole hplaces (.plus (.inl rfl) hthree)
  exact ⟨_, Source.shared_outcome "draft.json" (document_numberDraft hword) (by decide)⟩

-- An exponent behind no fraction is part of a text in YAML, and of a number in JSON.
example :
    let kinds := fun g : Graph => g.nodes.map fun n => (n.param "x").kind
    (Source.ofText (numberDraft "1e5")).toOption.map kinds = some [.string] ∧
      (Source.ofJson "draft.json" (numberDraft "1e5")).toOption.map kinds = some [.number] := by
  decide +kernel

end Flowscript

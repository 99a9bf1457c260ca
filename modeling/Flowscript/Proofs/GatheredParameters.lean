/-
  Flowscript.Proofs.GatheredParameters

  What the parameters of a node have in common.

  A parameter is put under its name, or in the place of one that has the name
  (`Parameters.mem_insert`).  An exported node has the parameters of its declarations, and
  then those of its inputs, which come one by one; so they all have what each addition
  keeps (`exportedParameters_gives`).
-/
import Flowscript.Proofs.Failure
import Flowscript.Workflow.Document

namespace Flowscript

-- ============================================================================
-- Parameters by name
-- ============================================================================

namespace Parameters

variable {ps : Parameters} {key : Scalar} {p : Parameter} {e : Scalar × Parameter}

/-- A parameter is put under its name or in the place of one that has the name. -/
theorem mem_insert (h : e ∈ ps.insert key p) : e ∈ ps ∨ e.2 = p ∧ e.1.sameKey key = true := by
  induction ps with
  | nil =>
      rw [List.mem_singleton.mp h]
      exact .inr ⟨rfl, Scalar.sameKey_self key⟩
  | cons d ps ih =>
      obtain ⟨k', p'⟩ := d
      rw [insert] at h
      split at h
      · next hkey =>
        rcases List.mem_cons.mp h with rfl | h
        · exact .inr ⟨rfl, hkey⟩
        · exact .inl (List.mem_cons_of_mem _ h)
      · rcases List.mem_cons.mp h with rfl | h
        · exact .inl List.mem_cons_self
        · exact (ih h).imp_left (List.mem_cons_of_mem _)

theorem forall_mem_add {P : Parameter → Prop} (h : ∀ e ∈ ps, P e.2) (hp : P p) :
    ∀ e ∈ ps.add p, P e.2 := by
  intro e he
  rcases mem_insert he with he | ⟨rfl, -⟩
  · exact h e he
  · exact hp

end Parameters

-- ============================================================================
-- Exported nodes
-- ============================================================================

namespace Document

open Entries (field?)

variable {v v' spec : Value} {data inputs : Entries} {specs : List Value} {ps : Parameters}
  {p : Parameter} {P : Parameters → Prop}

theorem isReference_eq_ok_iff {b : Bool} : isReference v = .ok b ↔ isReference? v = some b := by
  rw [isReference]
  cases isReference? v with
  | none => constructor <;> intro h <;> cases h
  | some b' => constructor <;> intro h <;> cases h <;> rfl

/-- A value is kept unless it is empty or a reference. -/
theorem settled_cases (h : settled v = .ok v') :
    v' = .null ∨ v' = v ∧ v.isEmptyText = false ∧ isReference? v = some false := by
  obtain ⟨found, hfound, h⟩ := bind_eq_ok_iff.mp h
  split at h
  · cases h
    exact .inl rfl
  · next hsettled =>
    cases h
    rw [Bool.not_eq_true, Bool.or_eq_false_iff] at hsettled
    obtain ⟨hempty, rfl⟩ := hsettled
    exact .inr ⟨rfl, hempty, isReference_eq_ok_iff.mp hfound⟩

/-- Reading the value of a parameter does not change it. -/
theorem eq_ofValue_of_parameterValue {value : ParameterValue} (h : parameterValue v = .ok value) :
    value = .ofValue v := by
  unfold parameterValue at h
  split at h
  · next ms =>
    unfold text Value.display? at h
    cases hlong : (Value.set ms).hasLongInteger with
    | true =>
        rw [hlong] at h
        cases h
    | false =>
        rw [hlong] at h
        cases h
        rfl
  · cases h
    rfl

/-- What is declared has the entry of its declaration, with the value that it is given. -/
theorem declared_eq_some (h : declared data (.ok inputs) spec = .ok (some p)) :
    ∃ es name entry value, spec.opened = .map es ∧ field? es "name" = some (.scalar name) ∧
      declaredEntry data es p.type name (givenValue inputs es name) = .ok entry ∧
      settled entry.2 = .ok value ∧ p.name = entry.1 ∧ p.value = .ofValue value := by
  unfold declared at h
  split at h
  · next es hes =>
    split at h
    · cases h
    · next nameValue hname =>
      obtain ⟨type, -, h⟩ := bind_eq_ok_iff.mp h
      obtain ⟨inputs', hinputs, h⟩ := bind_eq_ok_iff.mp h
      cases hinputs
      split at h
      · obtain ⟨name, hread, h⟩ := bind_eq_ok_iff.mp h
        cases hread
        obtain ⟨entry, hentry, h⟩ := bind_eq_ok_iff.mp h
        obtain ⟨value, hvalue, h⟩ := bind_eq_ok_iff.mp h
        obtain ⟨held, hheld, h⟩ := bind_eq_ok_iff.mp h
        obtain ⟨description, -, h⟩ := bind_eq_ok_iff.mp h
        cases h
        have hfield := (Option.filter_eq_some_iff.mp hname).1
        have hvalues := eq_ofValue_of_parameterValue hheld
        exact ⟨es, _, entry, value, hes, hfield, hentry, hvalue, rfl, hvalues⟩
      · cases h
  · cases h

/-- The parameters have what is kept by what is added for each declaration. -/
theorem declaredAll_gives {inputs : Except Fault Entries} (hps : P ps)
    (hadd : ∀ ps, P ps → ∀ spec ∈ specs, ∀ p, declared data inputs spec = .ok (some p) →
      P (ps.add p)) :
    GivesOnly P (declaredAll data inputs ps specs) := by
  induction specs generalizing ps with
  | nil => exact .ok hps
  | cons spec specs ih =>
      refine .bind fun p? hp? => ih ?_ fun ps hps spec hspec =>
        hadd ps hps spec (List.mem_cons_of_mem _ hspec)
      split
      · next p => exact hadd ps hps spec List.mem_cons_self p hp?
      · exact hps

/-- An input is added with its value, if that is neither missing nor a reference. -/
theorem addInput_gives {input : Scalar × Value} (hps : P ps)
    (hadd : isUnset input.2 = false → isReference? input.2 = some false →
      P (ps.add { name := input.1, value := .ofValue input.2 })) :
    GivesOnly P (addInput ps input) := by
  unfold addInput
  split
  · exact .ok hps
  · next hown =>
    rw [Bool.not_eq_true, Bool.or_eq_false_iff] at hown
    refine .bind fun found hfound => ?_
    cases found with
    | true => exact .ok hps
    | false =>
        refine .bind fun value hvalue => ?_
        rw [eq_ofValue_of_parameterValue hvalue]
        exact .ok (hadd hown.2 (isReference_eq_ok_iff.mp hfound))

/-- The parameters of an exported node have what is kept by what is added for each declaration and
for each input that has a value of its own. -/
theorem exportedParameters_gives (hnone : P [])
    (hdeclared : ∀ specs inputs, declarations (field? data "inputParams") = .ok specs →
      inputEntries data = .ok inputs → ∀ ps, P ps → ∀ spec ∈ specs, ∀ p,
        declared data (.ok inputs) spec = .ok (some p) → P (ps.add p))
    (hinput : ∀ inputs, inputEntries data = .ok inputs → ∀ ps, P ps → ∀ input ∈ inputs,
      isUnset input.2 = false → isReference? input.2 = some false →
        P (ps.add { name := input.1, value := .ofValue input.2 })) :
    GivesOnly P (exportedParameters data) := by
  refine .bind fun specs hspecs => .bind fun ps hps => .bind fun inputs hinputs => ?_
  rw [hinputs] at hps
  refine .foldlM (fun ps input hmem hps => addInput_gives hps ?_) ?_
  · exact hinput inputs hinputs ps hps input hmem
  · exact declaredAll_gives hnone (hdeclared specs inputs hspecs hinputs) ps hps

end Document

end Flowscript

/-
  Flowscript.Proofs.Failure

  Computations that may fail: when a sequence of them succeeds and with what, which errors
  it can end with, and that it ends with the first of them.
-/
import Flowscript.Assoc

namespace Flowscript

variable {ε ε' α β : Type} {x : Except ε α} {f : α → Except ε β} {b : β}

-- ============================================================================
-- Success
-- ============================================================================

theorem ok_bind (a : α) : ((.ok a : Except ε α) >>= f) = f a := rfl

theorem error_bind (e : ε) : ((.error e : Except ε α) >>= f) = .error e := rfl

/-- A sequence succeeds if each of its steps does. -/
theorem bind_eq_ok_iff : (x >>= f) = .ok b ↔ ∃ a, x = .ok a ∧ f a = .ok b := by
  cases x with
  | error e => simp [bind, Except.bind]
  | ok a => simp [bind, Except.bind]

theorem pure_eq_ok_iff {a b : α} : (pure a : Except ε α) = .ok b ↔ a = b := by
  simp [pure, Except.pure]

theorem mapError_eq_ok_iff {h : ε → ε'} {a : α} : x.mapError h = .ok a ↔ x = .ok a := by
  cases x with
  | error e => constructor <;> intro hok <;> cases hok
  | ok a' => constructor <;> intro hok <;> cases hok <;> rfl

/-- Steps along two lists give the same if each step gives the same as its counterpart. -/
theorem mapM_eq_of_map_eq {xs ys : List α} (h : xs.map f = ys.map f) : xs.mapM f = ys.mapM f := by
  have hid : ∀ zs : List α, zs.mapM f = (zs.map f).mapM id := by
    intro zs
    rw [List.mapM_map]
    rfl
  rw [hid, hid, h]

/-- A sequence of steps succeeds if each of them does. -/
theorem exists_mapM_eq_ok {R : α → β → Prop} {xs : List α}
    (h : ∀ a ∈ xs, ∃ b, f a = .ok b ∧ R a b) :
    ∃ ys, xs.mapM f = .ok ys ∧ ∀ a ∈ xs, ∃ b ∈ ys, R a b := by
  induction xs with
  | nil => exact ⟨[], rfl, fun _ ha => absurd ha List.not_mem_nil⟩
  | cons a xs ih =>
      obtain ⟨b, hb, hab⟩ := h a List.mem_cons_self
      obtain ⟨ys, hys, hall⟩ := ih fun a ha => h a (List.mem_cons_of_mem _ ha)
      refine ⟨b :: ys, by rw [List.mapM_cons, hb, hys]; rfl, ?_⟩
      rw [List.forall_mem_cons]
      refine ⟨⟨b, List.mem_cons_self, hab⟩, fun a ha => ?_⟩
      obtain ⟨b', hb', hab'⟩ := hall a ha
      exact ⟨b', List.mem_cons_of_mem b hb', hab'⟩

/-- Whatever a computation gives has a property. -/
def GivesOnly (P : α → Prop) (x : Except ε α) : Prop := ∀ a, x = .ok a → P a

namespace GivesOnly

variable {P : α → Prop} {Q : β → Prop}

theorem ok {a : α} (ha : P a) : GivesOnly P (.ok a : Except ε α) := by
  intro a' h
  cases h
  exact ha

theorem error (e : ε) : GivesOnly P (.error e) := by
  intro a h
  cases h

theorem bind (hf : ∀ a, x = .ok a → GivesOnly Q (f a)) : GivesOnly Q (x >>= f) := by
  cases x with
  | error e => exact error e
  | ok a => exact hf a rfl

theorem map {h : α → β} (hx : GivesOnly P x) (hQ : ∀ a, P a → Q (h a)) :
    GivesOnly Q (x.map h) := by
  cases x with
  | error e => exact error e
  | ok a => exact ok (hQ a (hx a rfl))

/-- An accumulator keeps a property that each step keeps. -/
theorem foldlM {f : β → α → Except ε β} {xs : List α}
    (hf : ∀ b, ∀ a ∈ xs, Q b → GivesOnly Q (f b a)) {b : β} (hb : Q b) :
    GivesOnly Q (xs.foldlM f b) := by
  induction xs generalizing b with
  | nil => exact ok hb
  | cons a xs ih =>
      rw [List.foldlM_cons]
      refine bind fun b' hb' => ?_
      exact ih (fun b a ha => hf b a (List.mem_cons_of_mem _ ha))
        (hf b a List.mem_cons_self hb b' hb')

end GivesOnly

-- ============================================================================
-- Errors
-- ============================================================================

/-- Whatever error a computation ends with is one of a kind. -/
def FailsOnly (P : ε → Prop) (x : Except ε α) : Prop := ∀ e, x = .error e → P e

namespace FailsOnly

variable {P : ε → Prop}

theorem ok (a : α) : FailsOnly P (.ok a) := by
  intro e h
  cases h

theorem error {e : ε} (he : P e) : FailsOnly P (.error e : Except ε α) := by
  intro e' h
  cases h
  exact he

theorem bind (hx : FailsOnly P x) (hf : ∀ a, x = .ok a → FailsOnly P (f a)) :
    FailsOnly P (x >>= f) := by
  cases x with
  | error e => exact error (hx e rfl)
  | ok a => exact hf a rfl

theorem mapM {h : α → Except ε β} (xs : List α) (hxs : ∀ a ∈ xs, FailsOnly P (h a)) :
    FailsOnly P (xs.mapM h) := by
  induction xs with
  | nil => exact ok []
  | cons a xs ih =>
      rw [List.mapM_cons]
      refine bind (hxs a List.mem_cons_self) fun _ _ => ?_
      refine bind (ih fun a ha => hxs a (List.mem_cons_of_mem _ ha)) fun _ _ => ?_
      exact ok _

end FailsOnly

/-- A computation succeeds if nothing is wrong, and ends with the first thing that is. -/
def FailsFirst (es : List ε) : Except ε α → Prop
  | .ok _ => es = []
  | .error e => es.head? = some e

namespace FailsFirst

variable {es es' : List ε}

theorem ok (a : α) : FailsFirst [] (.ok a : Except ε α) := rfl

theorem error (e : ε) (es : List ε) : FailsFirst (e :: es) (.error e : Except ε α) := rfl

/-- What is wrong with a sequence is what is wrong with its first step, then what is wrong with
the rest. -/
theorem bind (hx : FailsFirst es x) (hf : ∀ a, x = .ok a → FailsFirst es' (f a)) :
    FailsFirst (es ++ es') (x >>= f) := by
  cases x with
  | error e =>
      obtain ⟨es, rfl⟩ := List.head?_eq_some_iff.mp hx
      exact error e (es ++ es')
  | ok a =>
      obtain rfl : es = [] := hx
      exact hf a rfl

/-- A first step with which nothing is wrong. -/
theorem bind_of_nil (hx : FailsFirst [] x) (hf : ∀ a, x = .ok a → FailsFirst es (f a)) :
    FailsFirst es (x >>= f) :=
  bind hx hf

/-- A last step that cannot fail. -/
theorem map {h : α → β} (hx : FailsFirst es x) : FailsFirst es (x.map h) := by
  cases x with
  | error e => exact hx
  | ok a => exact hx

theorem bind_pure {h : α → β} (hx : FailsFirst es x) : FailsFirst es (x >>= fun a => pure (h a)) :=
  map hx

/-- What is wrong with a loop is what is wrong with its steps, whatever they have gathered. -/
theorem foldlM {f : β → α → Except ε β} {flaws : α → List ε} {xs : List α}
    (hf : ∀ b, ∀ a ∈ xs, FailsFirst (flaws a) (f b a)) (b : β) :
    FailsFirst (xs.flatMap flaws) (xs.foldlM f b) := by
  induction xs generalizing b with
  | nil => exact ok b
  | cons a xs ih =>
      rw [List.foldlM_cons, List.flatMap_cons]
      refine bind (hf b a List.mem_cons_self) fun b' _ => ?_
      exact ih (fun b a ha => hf b a (List.mem_cons_of_mem _ ha)) b'

theorem eq_error_iff {e : ε} (hx : FailsFirst es x) : x = .error e ↔ es.head? = some e := by
  cases x with
  | error e' =>
      have hhead : es.head? = some e' := hx
      rw [hhead, Except.error.injEq, Option.some.injEq]
  | ok a =>
      obtain rfl : es = [] := hx
      constructor <;> intro h <;> cases h

theorem exists_eq_ok_iff (hx : FailsFirst es x) : (∃ a, x = .ok a) ↔ es = [] := by
  cases x with
  | error e =>
      obtain ⟨es, rfl⟩ := List.head?_eq_some_iff.mp hx
      constructor
      · rintro ⟨a, h⟩
        cases h
      · intro h
        cases h
  | ok a => exact ⟨fun _ => hx, fun _ => ⟨a, rfl⟩⟩

end FailsFirst

end Flowscript

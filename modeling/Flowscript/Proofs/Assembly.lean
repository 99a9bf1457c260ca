/-
  Flowscript.Proofs.Assembly

  Where fragments stand after assembly.

  The preamble and the nodes have one slot each, and a fragment keeps the order number
  of its place in its slot.  Slots do not overlap, so the numbers grow along the list of
  all fragments, and neither the choice of a type nor the sort moves a fragment.
-/
import Flowscript.Fragment.Assembly
import Flowscript.Proofs.Failure

namespace Flowscript

namespace Assembly

variable {slot start : Int} {fs preamble : List Fragment} {nodes : List (List Fragment)}
  {f : Fragment} {a : Assembled} {t : FragmentKind}

-- ============================================================================
-- One slot
-- ============================================================================

/-- One of the fragments of a slot, with the order number of its place there. -/
def InSlot (slot : Int) (fs : List Fragment) (f : Fragment) : Prop :=
  ∃ (place : Nat) (e : Fragment),
    fs[place]? = some e ∧ f = { e with order := slot * slotSize + place }

theorem mem_numberFrom :
    f ∈ numberFrom start fs ↔ ∃ (place : Nat) (e : Fragment),
      fs[place]? = some e ∧ f = { e with order := start + place } := by
  induction fs generalizing start with
  | nil => simp [numberFrom]
  | cons e fs ih =>
      have hnext : ∀ place : Nat, start + (place + 1 : Nat) = start + 1 + place := by omega
      rw [numberFrom, List.mem_cons, ih]
      constructor
      · rintro (rfl | ⟨place, e', he', rfl⟩)
        · exact ⟨0, e, rfl, by simp⟩
        · exact ⟨place + 1, e', he', by rw [hnext]⟩
      · rintro ⟨place, e', he', rfl⟩
        cases place with
        | zero =>
            cases he'
            exact .inl (by simp)
        | succ place => exact .inr ⟨place, e', he', by rw [hnext]⟩

theorem mem_numberFrom_slot : f ∈ numberFrom (slot * slotSize) fs ↔ InSlot slot fs f :=
  mem_numberFrom

/-- The numbers of a slot are between its start and the start of the next one. -/
theorem InSlot.bounds (hlen : fs.length < slotSize) (h : InSlot slot fs f) :
    slot * slotSize ≤ f.order ∧ f.order < (slot + 1) * slotSize := by
  obtain ⟨place, e, he, rfl⟩ := h
  have hplace := (List.getElem?_eq_some_iff.mp he).1
  simp only
  constructor
  · omega
  · rw [Int.add_mul, Int.one_mul]
    omega

/-- Fragments of an earlier slot have the smaller numbers. -/
theorem InSlot.order_lt {slot' : Int} {fs' : List Fragment} {e : Fragment}
    (hlen : fs.length < slotSize) (hlen' : fs'.length < slotSize) (hslots : slot < slot')
    (he : InSlot slot fs e) (hf : InSlot slot' fs' f) : e.order < f.order := by
  have hbefore := (he.bounds hlen).2
  have hafter := (hf.bounds hlen').1
  have hstarts : (slot + 1) * slotSize ≤ slot' * slotSize :=
    Int.mul_le_mul_of_nonneg_right (by omega) (by omega)
  omega

theorem pairwise_numberFrom (start : Int) (fs : List Fragment) :
    (numberFrom start fs).Pairwise (·.order < ·.order) := by
  induction fs generalizing start with
  | nil => exact .nil
  | cons e fs ih =>
      refine List.pairwise_cons.mpr ⟨fun f hf => ?_, ih (start + 1)⟩
      obtain ⟨place, e', -, rfl⟩ := mem_numberFrom.mp hf
      simp only
      omega

theorem numberSlot_eq_ok_iff {l : List Fragment} :
    numberSlot slot fs = .ok l ↔ fs.length < slotSize ∧ l = numberFrom (slot * slotSize) fs := by
  unfold numberSlot
  split
  · next hlen => simp [Nat.not_lt_of_le hlen]
  · next hlen => simp [Nat.lt_of_not_le hlen, eq_comm]

-- ============================================================================
-- Slot after slot
-- ============================================================================

/-- The numbered fragments of slots, the first of which is given, whatever their length. -/
def numbered (slot : Int) : List (List Fragment) → List Fragment
  | [] => []
  | fs :: rest => numberFrom (slot * slotSize) fs ++ numbered (slot + 1) rest

theorem mem_numbered :
    f ∈ numbered slot nodes ↔ ∃ (i : Nat) (fs : List Fragment),
      nodes[i]? = some fs ∧ InSlot (slot + i) fs f := by
  induction nodes generalizing slot with
  | nil => simp [numbered]
  | cons fs rest ih =>
      have hnext : ∀ i : Nat, slot + (i + 1 : Nat) = slot + 1 + i := by omega
      rw [numbered, List.mem_append, mem_numberFrom_slot, ih]
      constructor
      · rintro (hf | ⟨i, fs', hfs', hf⟩)
        · exact ⟨0, fs, rfl, by simpa using hf⟩
        · exact ⟨i + 1, fs', hfs', by rwa [hnext]⟩
      · rintro ⟨i, fs', hfs', hf⟩
        cases i with
        | zero =>
            cases hfs'
            exact .inl (by simpa using hf)
        | succ i => exact .inr ⟨i, fs', hfs', by rwa [hnext] at hf⟩

/-- Numbers grow from slot to slot, as long as no slot overflows. -/
theorem pairwise_numbered (slot : Int) (h : ∀ fs ∈ nodes, fs.length < slotSize) :
    (numbered slot nodes).Pairwise (·.order < ·.order) := by
  induction nodes generalizing slot with
  | nil => exact .nil
  | cons fs rest ih =>
      have hlen := h fs List.mem_cons_self
      have hrest : ∀ fs ∈ rest, fs.length < slotSize :=
        fun fs hfs => h fs (List.mem_cons_of_mem _ hfs)
      refine List.pairwise_append.mpr ⟨pairwise_numberFrom _ _, ih (slot + 1) hrest, ?_⟩
      intro f hf f' hf'
      obtain ⟨i, fs', hfs', hf'⟩ := mem_numbered.mp hf'
      have hlen' := hrest fs' (List.mem_of_getElem? hfs')
      exact InSlot.order_lt hlen hlen' (by omega) (mem_numberFrom_slot.mp hf) hf'

theorem numberSlots_eq_ok_iff {l : List Fragment} :
    numberSlots slot nodes = .ok l ↔
      (∀ fs ∈ nodes, fs.length < slotSize) ∧ l = numbered slot nodes := by
  induction nodes generalizing slot l with
  | nil => simp [numberSlots, numbered, eq_comm]
  | cons fs rest ih =>
      simp only [numberSlots, bind_eq_ok_iff, pure_eq_ok_iff, numberSlot_eq_ok_iff, ih, numbered,
        List.forall_mem_cons]
      constructor
      · rintro ⟨_, ⟨hlen, rfl⟩, _, ⟨hrest, rfl⟩, rfl⟩
        exact ⟨⟨hlen, hrest⟩, rfl⟩
      · rintro ⟨⟨hlen, hrest⟩, rfl⟩
        exact ⟨_, ⟨hlen, rfl⟩, _, ⟨hrest, rfl⟩, rfl⟩

-- ============================================================================
-- Repeated exports
-- ============================================================================

theorem dropRepeatedExports_sublist (seen : List String) (fs : List Fragment) :
    (dropRepeatedExports seen fs).Sublist fs := by
  induction fs generalizing seen with
  | nil => exact .slnil
  | cons f fs ih =>
      rw [dropRepeatedExports]
      split
      · split
        · exact (ih seen).cons f
        · exact (ih (f.content :: seen)).cons_cons f
      · exact (ih seen).cons_cons f

theorem mem_dropRepeatedExports (seen : List String) (hf : f ∈ fs) (hkind : f.type ≠ .exports) :
    f ∈ dropRepeatedExports seen fs := by
  induction fs generalizing seen with
  | nil => cases hf
  | cons e fs ih =>
      rw [dropRepeatedExports]
      rcases List.mem_cons.mp hf with rfl | hf
      · rw [if_neg hkind]
        exact List.mem_cons_self
      · split
        · split
          · exact ih seen hf
          · exact List.mem_cons_of_mem _ (ih _ hf)
        · exact List.mem_cons_of_mem _ (ih seen hf)

/-- Each text of an export that was not seen before stays where it stands first. -/
theorem exists_export_mem_dropRepeatedExports {seen : List String} (hf : f ∈ fs)
    (hkind : f.type = .exports) (hseen : f.content ∉ seen) :
    ∃ e ∈ dropRepeatedExports seen fs, e.type = .exports ∧ e.content = f.content := by
  induction fs generalizing seen with
  | nil => cases hf
  | cons e fs ih =>
      rw [dropRepeatedExports]
      rcases List.mem_cons.mp hf with rfl | hf
      · rw [if_pos hkind, if_neg hseen]
        exact ⟨f, List.mem_cons_self, hkind, rfl⟩
      · split
        · next hexport =>
          split
          · exact ih hf hseen
          · by_cases hsame : e.content = f.content
            · exact ⟨e, List.mem_cons_self, hexport, hsame⟩
            · have hnot : f.content ∉ e.content :: seen := by
                simp [Ne.symm hsame, hseen]
              obtain ⟨e', he', hrest⟩ := ih hf hnot
              exact ⟨e', List.mem_cons_of_mem _ he', hrest⟩
        · obtain ⟨e', he', hrest⟩ := ih hf hseen
          exact ⟨e', List.mem_cons_of_mem _ he', hrest⟩

-- ============================================================================
-- Groups
-- ============================================================================

/-- The fragments of one type in the order of their numbers. -/
def grouped (kept : List Fragment) : Assembled :=
  { group := fun t => (kept.filter (·.type = t)).mergeSort fun a b => a.order ≤ b.order }

/-- Assembly succeeds if no slot overflows, and numbers the preamble as the slot before the
first node. -/
theorem assemble_eq_ok_iff :
    assemble nodes preamble = .ok a ↔
      (∀ fs ∈ preamble :: nodes, fs.length < slotSize) ∧
        a = grouped (dropRepeatedExports [] (numbered (-1) (preamble :: nodes))) := by
  simp only [assemble, bind_eq_ok_iff, pure_eq_ok_iff, numberSlot_eq_ok_iff,
    numberSlots_eq_ok_iff, List.forall_mem_cons]
  constructor
  · rintro ⟨_, ⟨hpreamble, rfl⟩, _, ⟨hnodes, rfl⟩, rfl⟩
    exact ⟨⟨hpreamble, hnodes⟩, rfl⟩
  · rintro ⟨⟨hpreamble, hnodes⟩, rfl⟩
    exact ⟨_, ⟨hpreamble, rfl⟩, _, ⟨hnodes, rfl⟩, rfl⟩

/-- The sort leaves a group as it is. -/
theorem group_of_assemble (h : assemble nodes preamble = .ok a) (t : FragmentKind) :
    a.group t =
      (dropRepeatedExports [] (numbered (-1) (preamble :: nodes))).filter (·.type = t) := by
  obtain ⟨hlen, rfl⟩ := assemble_eq_ok_iff.mp h
  refine List.mergeSort_of_pairwise ?_
  have hsorted := (pairwise_numbered (-1) hlen).sublist (dropRepeatedExports_sublist [] _)
  refine (hsorted.filter _).imp fun hab => ?_
  simpa using Int.le_of_lt hab

/-- The order numbers of a group grow strictly. -/
theorem pairwise_group (h : assemble nodes preamble = .ok a) (t : FragmentKind) :
    (a.group t).Pairwise (·.order < ·.order) := by
  rw [group_of_assemble h]
  have hlen := (assemble_eq_ok_iff.mp h).1
  exact ((pairwise_numbered (-1) hlen).sublist (dropRepeatedExports_sublist [] _)).filter _

/-- A fragment is in the slot of the preamble or in that of a node. -/
def InAnySlot (preamble : List Fragment) (nodes : List (List Fragment)) (f : Fragment) : Prop :=
  InSlot (-1) preamble f ∨ ∃ (i : Nat) (fs : List Fragment), nodes[i]? = some fs ∧ InSlot i fs f

theorem mem_numbered_iff_inAnySlot :
    f ∈ numbered (-1) (preamble :: nodes) ↔ InAnySlot preamble nodes f := by
  rw [numbered, List.mem_append, mem_numberFrom_slot, mem_numbered]
  simp [InAnySlot]

theorem inAnySlot_of_mem_group (h : assemble nodes preamble = .ok a) (hf : f ∈ a.group t) :
    InAnySlot preamble nodes f := by
  rw [group_of_assemble h] at hf
  exact mem_numbered_iff_inAnySlot.mp
    ((dropRepeatedExports_sublist [] _).mem (List.mem_filter.mp hf).1)

/-- Every fragment is in the group of its type, exports by one of the same text. -/
theorem exists_mem_group (h : assemble nodes preamble = .ok a) (hf : InAnySlot preamble nodes f) :
    ∃ e ∈ a.group f.type, e.content = f.content ∧ (f.type ≠ .exports → e = f) := by
  have hmem := mem_numbered_iff_inAnySlot.mpr hf
  rw [group_of_assemble h]
  by_cases hkind : f.type = .exports
  · obtain ⟨e, he, hexport, hsame⟩ :=
      exists_export_mem_dropRepeatedExports hmem hkind List.not_mem_nil
    exact ⟨e, List.mem_filter.mpr ⟨he, by simp [hexport, hkind]⟩, hsame, (absurd hkind ·)⟩
  · exact ⟨f, List.mem_filter.mpr ⟨mem_dropRepeatedExports [] hmem hkind, by simp⟩, rfl,
      fun _ => rfl⟩

theorem exists_of_mem_group (h : assemble nodes preamble = .ok a) (hf : f ∈ a.group t) :
    ∃ e ∈ (preamble :: nodes).flatten, ∃ order, f = { e with order := order } := by
  rcases inAnySlot_of_mem_group h hf with ⟨place, e, he, rfl⟩ | ⟨i, fs, hi, place, e, he, rfl⟩
  · exact ⟨e, List.mem_flatten_of_mem List.mem_cons_self (List.mem_of_getElem? he), _, rfl⟩
  · have hfs := List.mem_cons_of_mem preamble (List.mem_of_getElem? hi)
    exact ⟨e, List.mem_flatten_of_mem hfs (List.mem_of_getElem? he), _, rfl⟩

-- ============================================================================
-- Places in a group
-- ============================================================================

/-- In a list, every fragment of one sort stands before every fragment of another. -/
def AllBefore (l : List Fragment) (P Q : Fragment → Prop) : Prop :=
  ∀ (i j : Nat) (e f : Fragment), l[i]? = some e → l[j]? = some f → P e → Q f → i < j

theorem allBefore_group (h : assemble nodes preamble = .ok a) (t : FragmentKind)
    {P Q : Fragment → Prop} (hlt : ∀ e f, P e → Q f → e.order < f.order) :
    AllBefore (a.group t) P Q := by
  intro i j e f hi hj he hf
  have horder := hlt e f he hf
  have hsorted := List.pairwise_iff_getElem.mp (pairwise_group h t)
  obtain ⟨hilt, rfl⟩ := List.getElem?_eq_some_iff.mp hi
  obtain ⟨hjlt, rfl⟩ := List.getElem?_eq_some_iff.mp hj
  rcases Nat.lt_trichotomy i j with hij | rfl | hji
  · exact hij
  · omega
  · have hback := hsorted j i hjlt hilt hji
    omega

end Assembly

end Flowscript

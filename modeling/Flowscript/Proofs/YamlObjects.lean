/-
  Flowscript.Proofs.YamlObjects

  The objects of plain YAML nodes.

  Nodes are plain if their types are those that JSON has and every key is a string.  Then
  no merging takes place, and nothing but a scalar without a value is refused: a collection
  that is met waits until it is its turn, its parts are met, and it gets its object.  The
  invariant `Sound` says that every object that is there is complete, or belongs to a
  collection that waits or is being made.  Every step makes fewer nodes that wait or have
  not been met, so that as many steps as nodes complete everything that can be reached.
-/
import Flowscript.Proofs.YamlNodes
import Flowscript.Yaml.Reader

namespace Flowscript.Yaml

-- ============================================================================
-- Plain nodes
-- ============================================================================

/-- A type of scalars that JSON has. -/
def Tag.isPlain : Tag → Bool
  | .null | .bool | .int | .float | .str => true
  | _ => false

namespace Node

/-- A node that JSON could have, among others. -/
def IsPlain (nodes : Nodes) : Node → Prop
  | .scalar tag _ => tag.isPlain = true
  | .seq tag items => tag = .seq ∧ ∀ i ∈ items, i < nodes.size
  | .map tag pairs => tag = .map ∧ ∀ p ∈ pairs,
      p.1 < nodes.size ∧ p.2 < nodes.size ∧ ∃ text, nodes.at p.1 = .scalar .str text

/-- A scalar of a text that has a value, or a collection. -/
def HasValue : Node → Prop
  | .scalar tag text => ∃ s, scalarValue tag text = .ok s
  | _ => True

/-- What is wrong with the text of a scalar. -/
def HasProblem (p : Problem) : Node → Prop
  | .scalar tag text => scalarValue tag text = .error p
  | _ => False

/-- The text of a scalar. -/
def text : Node → String
  | .scalar _ text => text
  | _ => ""

/-- The nodes a collection is made of. -/
def parts : Node → List Nat
  | .scalar .. => []
  | .seq _ items => items
  | .map _ pairs => pairs.map (·.2)

def isCollection : Node → Bool
  | .scalar .. => false
  | _ => true

end Node

/-- All nodes are plain. -/
def Nodes.ArePlain (nodes : Nodes) : Prop := ∀ i, i < nodes.size → (nodes.at i).IsPlain nodes

/-- One of the nodes has a problem. -/
def Nodes.HaveProblem (nodes : Nodes) (p : Problem) : Prop :=
  ∃ i, i < nodes.size ∧ (nodes.at i).HasProblem p

/-- The object of a plain node. -/
def Nodes.object (nodes : Nodes) (i : Nat) : Object :=
  match nodes.at i with
  | .scalar tag text => .scalar ((scalarValue tag text).toOption.getD .null)
  | .seq _ items => .list items
  | .map _ pairs =>
    .map (pairs.foldl (fun es p => Maker.insert (.str (nodes.at p.1).text) p.2 es) [])

-- ============================================================================
-- Making
-- ============================================================================

namespace Making

variable {nodes : Nodes} {busy : List Nat} {m m' m'' : Making} {i j : Nat} {o : Object}

/-- A node has been met. -/
def Met (m : Making) (i : Nat) : Prop := ∃ o, m.objects[i]? = some (some o)

/-- How many nodes wait or have not been met. -/
def left (m : Making) : Nat := m.waiting.length + m.objects.countP Option.isNone

/-- Gives a node its object. -/
def define (m : Making) (i : Nat) (o : Object) : Making :=
  { m with objects := m.objects.setIfInBounds i (some o) }

/-- Every object that is there is complete, but for those of collections that wait or are being
made. -/
structure Sound (nodes : Nodes) (busy : List Nat) (m : Making) : Prop where
  same : m.nodes = nodes
  size : m.objects.size = nodes.size
  pending : ∀ i ∈ busy ++ m.waiting, i < nodes.size ∧ (nodes.at i).isCollection = true
  made : ∀ i o, m.objects[i]? = some (some o) →
    i ∈ busy ++ m.waiting ∨
      (o = nodes.object i ∧ (nodes.at i).HasValue ∧ ∀ j ∈ (nodes.at i).parts, m.Met j)

/-- Nothing that has been met is lost, and no more is left to do. -/
structure Grows (m m' : Making) : Prop where
  met : ∀ i, m.Met i → m'.Met i
  left : m'.left ≤ m.left

theorem Grows.refl (m : Making) : Grows m m := ⟨fun _ h => h, Nat.le_refl _⟩

theorem Grows.trans (h : Grows m m') (h' : Grows m' m'') : Grows m m'' :=
  ⟨fun i hi => h'.met i (h.met i hi), Nat.le_trans h'.left h.left⟩

theorem getElem?_define (m : Making) (i j : Nat) (o : Object) :
    (m.define i o).objects[j]? =
      if i = j ∧ i < m.objects.size then some (some o) else m.objects[j]? := by
  rw [define, Array.getElem?_setIfInBounds]
  by_cases hij : i = j
  · subst hij
    by_cases hi : i < m.objects.size
    · simp [hi]
    · simp [hi]
  · simp [hij]

theorem met_define (hi : i < m.objects.size) (o : Object) : (m.define i o).Met i :=
  ⟨o, by rw [getElem?_define, if_pos ⟨rfl, hi⟩]⟩

theorem Met.define (h : m.Met j) (i : Nat) (o : Object) : (m.define i o).Met j := by
  obtain ⟨o', ho'⟩ := h
  by_cases hij : i = j ∧ i < m.objects.size
  · exact ⟨o, by rw [getElem?_define, if_pos hij]⟩
  · exact ⟨o', by rw [getElem?_define, if_neg hij, ho']⟩

theorem countP_define (hi : i < m.objects.size) (o : Object) :
    (m.define i o).objects.countP Option.isNone =
      m.objects.countP Option.isNone - if m.objects[i].isNone then 1 else 0 := by
  rw [define, Array.setIfInBounds_def, dif_pos hi, Array.countP_set]
  simp

/-- A node that had not been met is one less of those. -/
theorem left_define (hi : i < m.objects.size) (o : Object) (hmet : ¬ m.Met i) :
    (m.define i o).left + 1 = m.left := by
  have hnone : m.objects[i] = none := by
    cases h : m.objects[i] with
    | none => rfl
    | some o => exact absurd ⟨o, by rw [Array.getElem?_eq_getElem hi, h]⟩ hmet
  have hpos : 0 < m.objects.countP Option.isNone :=
    Array.countP_pos_iff.mpr ⟨m.objects[i], Array.getElem_mem hi, by rw [hnone]; rfl⟩
  have hcount := countP_define hi o
  rw [hnone] at hcount
  simp only [Option.isNone_none, if_true] at hcount
  rw [left, left, hcount]
  simp only [define]
  omega

theorem left_wait (hi : i < m.objects.size) (o : Object) (hmet : ¬ m.Met i) :
    ({ m.define i o with waiting := m.waiting ++ [i] } : Making).left = m.left := by
  rw [← left_define hi o hmet, left, left, List.length_append, List.length_singleton]
  simp only [define]
  omega

theorem left_define_le (m : Making) (i : Nat) (o : Object) : (m.define i o).left ≤ m.left := by
  by_cases hi : i < m.objects.size
  · rw [left, left, countP_define hi]
    simp only [define]
    omega
  · rw [define, Array.setIfInBounds_eq_of_size_le (Nat.le_of_not_lt hi)]

theorem size_define (m : Making) (i : Nat) (o : Object) :
    (m.define i o).objects.size = m.objects.size := by
  rw [define, Array.size_setIfInBounds]

/-- A node that gets its object when all its parts have been met is no longer being made. -/
theorem Sound.define {busy' : List Nat} (hm : Sound nodes busy m) (hi : i < nodes.size)
    (ho : o = nodes.object i) (hvalue : (nodes.at i).HasValue)
    (hparts : ∀ j ∈ (nodes.at i).parts, m.Met j) (hsub : ∀ j ∈ busy', j ∈ busy)
    (hrest : ∀ j ∈ busy, j = i ∨ j ∈ busy') : Sound nodes busy' (m.define i o) where
  same := hm.same
  size := (size_define m i o).trans hm.size
  pending j hj := by
    refine hm.pending j (List.mem_append.mpr ?_)
    exact (List.mem_append.mp hj).imp_left (hsub j)
  made j o' ho' := by
    have hsize : i < m.objects.size := hm.size ▸ hi
    rw [getElem?_define] at ho'
    split at ho'
    · next hij =>
      obtain rfl := hij.1
      cases ho'
      exact .inr ⟨ho, hvalue, fun j hj => (hparts j hj).define i o⟩
    · next hij =>
      rcases hm.made j o' ho' with hj | ⟨hobject, hvalue, hj⟩
      · refine .inl (List.mem_append.mpr ?_)
        refine (List.mem_append.mp hj).imp_left fun hbusy => (hrest j hbusy).resolve_left ?_
        rintro rfl
        exact hij ⟨rfl, hsize⟩
      · exact .inr ⟨hobject, hvalue, fun k hk => (hj k hk).define i o⟩

/-- A collection that is met waits. -/
theorem Sound.wait (hm : Sound nodes busy m) (hi : i < nodes.size)
    (hcollection : (nodes.at i).isCollection = true) (o : Object) :
    Sound nodes busy { m.define i o with waiting := m.waiting ++ [i] } where
  same := hm.same
  size := (size_define m i o).trans hm.size
  pending j hj := by
    rw [← List.append_assoc] at hj
    rcases List.mem_append.mp hj with hj | hj
    · exact hm.pending j hj
    · rw [List.eq_of_mem_singleton hj]
      exact ⟨hi, hcollection⟩
  made j o' ho' := by
    have ho' : (m.define i o).objects[j]? = some (some o') := ho'
    rw [← List.append_assoc]
    rw [getElem?_define] at ho'
    split at ho'
    · next hij => exact .inl (List.mem_append_right _ (by simp [hij.1]))
    · rcases hm.made j o' ho' with hj | ⟨hobject, hvalue, hj⟩
      · exact .inl (List.mem_append_left _ hj)
      · exact .inr ⟨hobject, hvalue, fun k hk => (hj k hk).define i o⟩

end Making

-- ============================================================================
-- Outcomes
-- ============================================================================

namespace Maker

variable {α β : Type} {nodes : Nodes} {m m' : Making} {x : Maker α} {a : α}
  {post : α → Making → Prop}

/-- From a state, a computation comes to a result with a property, or to the problem of a
scalar. -/
def Achieves (nodes : Nodes) (x : Maker α) (m : Making) (post : α → Making → Prop) : Prop :=
  match x m with
  | .ok (a, m') => post a m'
  | .error p => nodes.HaveProblem p

theorem achieves_of_ok (hx : x m = .ok (a, m')) (ha : post a m') : Achieves nodes x m post := by
  rw [Achieves, hx]
  exact ha

theorem achieves_of_error {p : Problem} (hx : x m = .error p) (hp : nodes.HaveProblem p) :
    Achieves nodes x m post := by
  rw [Achieves, hx]
  exact hp

theorem Achieves.bind {f : α → Maker β} {post' : β → Making → Prop}
    (hx : Achieves nodes x m post)
    (hf : ∀ a m', post a m' → Achieves nodes (f a) m' post') :
    Achieves nodes (x >>= f) m post' := by
  have hrun : (x >>= f) m = x m >>= fun r => f r.1 r.2 := rfl
  rw [Achieves] at hx ⊢
  rw [hrun]
  cases hr : x m with
  | ok r =>
      rw [hr] at hx
      exact hf r.1 r.2 hx
  | error p =>
      rw [hr] at hx
      exact hx

theorem Achieves.mono {post' : α → Making → Prop} (hx : Achieves nodes x m post)
    (hpost : ∀ a m', post a m' → post' a m') : Achieves nodes x m post' := by
  rw [Achieves] at hx ⊢
  cases hr : x m with
  | ok r =>
      rw [hr] at hx
      exact hpost r.1 r.2 hx
  | error p =>
      rw [hr] at hx
      exact hx

/-- A computation goes on after a step that gives a result. -/
theorem achieves_bind_of_ok {f : α → Maker β} {post' : β → Making → Prop}
    (hx : x m = .ok (a, m')) (hf : Achieves nodes (f a) m' post') :
    Achieves nodes (x >>= f) m post' := by
  rw [Achieves, bind_ok hx]
  exact hf

end Maker

-- ============================================================================
-- Steps
-- ============================================================================

namespace Maker

open Making

variable {nodes : Nodes} {busy : List Nat} {m m' : Making} {i : Nat}

theorem get_eq (m : Making) : (get : Maker Making) m = .ok (m, m) := rfl

/-- The scalar of a plain node is the value of its text. -/
theorem nodeScalar_plain {tag : Tag} (htag : tag.isPlain = true) (text : String) :
    nodeScalar nodes (.scalar tag text) = scalarValue tag text := by
  have hread : nodeScalar nodes (.scalar tag text) =
      scalarText nodes nodes.size (.scalar tag text) >>= fun text => scalarValue tag text := by
    cases tag <;> first | rfl | cases htag
  rw [hread, scalarText]
  rfl

/-- A node that has been met is not met again. -/
theorem meet_of_met (hmet : m.Met i) : meet i m = .ok ((), m) := by
  obtain ⟨o, ho⟩ := hmet
  change (if (m.objects[i]?.bind id).isSome then pure () else _ : Maker Unit) m = _
  rw [ho]
  rfl

/-- A node that has not been met gets an object. -/
theorem meet_of_not_met (hmet : ¬ m.Met i) :
    meet i m =
      (match (m.nodes.at i).tag with
      | .seq | .map | .set | .omap | .pairs => do
        define i (.list [])
        modify fun m => { m with waiting := m.waiting ++ [i] }
      | _ => do define i (.scalar (← nodeScalar m.nodes (m.nodes.at i))) : Maker Unit) m := by
  have hnone : (m.objects[i]?.bind id).isSome = false := by
    cases h : m.objects[i]? with
    | none => rfl
    | some o? => cases o? with
      | none => rfl
      | some o => exact absurd ⟨o, h⟩ hmet
  change (if (m.objects[i]?.bind id).isSome then pure () else _ : Maker Unit) m = _
  rw [hnone]
  rfl

/-- A node is met: a scalar gets its object, and a collection waits. -/
theorem achieves_meet (hplain : nodes.ArePlain) (hm : Sound nodes busy m) (hi : i < nodes.size) :
    Achieves nodes (meet i) m fun _ m' => Sound nodes busy m' ∧ m'.Met i ∧ Grows m m' := by
  by_cases hmet : m.Met i
  · exact achieves_of_ok (meet_of_met hmet) ⟨hm, hmet, Grows.refl m⟩
  have hsize : i < m.objects.size := hm.size ▸ hi
  have hgrows : ∀ o, ∀ j, m.Met j → (m.define i o).Met j := fun o j hj => hj.define i o
  have hwait : (nodes.at i).isCollection = true →
      meet i m = .ok ((), { m.define i (.list []) with waiting := m.waiting ++ [i] }) →
      Achieves nodes (meet i) m fun _ m' => Sound nodes busy m' ∧ m'.Met i ∧ Grows m m' := by
    intro hcollection hmeet
    exact achieves_of_ok hmeet ⟨hm.wait hi hcollection (.list []), met_define hsize _, hgrows _,
      Nat.le_of_eq (left_wait hsize _ hmet)⟩
  have hmeet := meet_of_not_met hmet
  rw [hm.same] at hmeet
  have hnode := hplain i hi
  cases hx : nodes.at i with
  | scalar tag text =>
      rw [hx] at hnode hmeet
      have hread : meet i m =
          (do define i (.scalar (← nodeScalar nodes (.scalar tag text))) : Maker Unit) m := by
        rw [hmeet]
        cases tag <;> first | rfl | cases hnode
      rw [nodeScalar_plain hnode] at hread
      cases hs : scalarValue tag text with
      | error p =>
          refine achieves_of_error (p := p) ?_ ⟨i, hi, ?_⟩
          · rw [hread, hs]
            rfl
          · rw [hx]
            exact hs
      | ok s =>
          have hobject : Object.scalar s = nodes.object i := by
            simp only [Nodes.object, hx, hs]
            rfl
          have hvalue : (nodes.at i).HasValue := by
            rw [hx]
            exact ⟨s, hs⟩
          refine achieves_of_ok (show meet i m = .ok ((), m.define i (.scalar s)) from ?_)
            ⟨hm.define hi hobject hvalue (fun j hj => ?_) (fun _ h => h) (fun _ h => .inr h),
              met_define hsize _, hgrows _, left_define_le m i _⟩
          · rw [hread, hs]
            rfl
          · rw [hx] at hj
            cases hj
  | seq tag items =>
      rw [hx] at hnode hwait hmeet
      obtain ⟨rfl, -⟩ := hnode
      exact hwait rfl hmeet
  | map tag pairs =>
      rw [hx] at hnode hwait hmeet
      obtain ⟨rfl, -⟩ := hnode
      exact hwait rfl hmeet

/-- A string that is met is a key. -/
theorem achieves_key (hplain : nodes.ArePlain) (hm : Sound nodes busy m) (hi : i < nodes.size)
    {text : String} (hnode : nodes.at i = .scalar .str text) :
    Achieves nodes (key i) m fun k m' => k = .str text ∧ Sound nodes busy m' ∧ Grows m m' := by
  refine (achieves_meet hplain hm hi).bind fun _ m' h => ?_
  obtain ⟨hm', ⟨o, ho⟩, hgrows⟩ := h
  have hobject : o = .scalar (.str text) := by
    rcases hm'.made i o ho with hpending | ⟨rfl, -⟩
    · have hcollection := (hm'.pending i hpending).2
      rw [hnode] at hcollection
      cases hcollection
    · simp only [Nodes.object, hnode]
      rfl
  refine achieves_of_ok (a := .str text) ?_ ⟨rfl, hm', hgrows⟩
  have hread : (get : Maker Making) m' = .ok (m', m') := rfl
  simp only [bind, StateT.bind, hread, Except.bind, ho, hobject]
  rfl

/-- Several nodes are met. -/
theorem achieves_forM_meet (hplain : nodes.ArePlain) {is : List Nat} (hm : Sound nodes busy m)
    (his : ∀ i ∈ is, i < nodes.size) :
    Achieves nodes (is.forM meet) m fun _ m' =>
      Sound nodes busy m' ∧ (∀ i ∈ is, m'.Met i) ∧ Grows m m' := by
  induction is generalizing m with
  | nil => exact achieves_of_ok rfl ⟨hm, fun _ h => absurd h List.not_mem_nil, Grows.refl m⟩
  | cons i is ih =>
      refine (achieves_meet hplain hm (his i List.mem_cons_self)).bind fun _ m₁ h₁ => ?_
      obtain ⟨hm₁, hmet, hgrows₁⟩ := h₁
      have hrest := (ih hm₁ fun j hj => his j (List.mem_cons_of_mem i hj))
      refine hrest.mono fun _ m' h => ?_
      obtain ⟨hm', hall, hgrows⟩ := h
      refine ⟨hm', fun j hj => ?_, hgrows₁.trans hgrows⟩
      rcases List.mem_cons.mp hj with rfl | hj
      · exact hgrows.met j hmet
      · exact hall j hj

/-- The pairs of a mapping are met. -/
theorem achieves_foldlM_pairs (hplain : nodes.ArePlain) {pairs : List (Nat × Nat)}
    (hm : Sound nodes busy m) (hpairs : ∀ p ∈ pairs,
      p.1 < nodes.size ∧ p.2 < nodes.size ∧ ∃ text, nodes.at p.1 = .scalar .str text)
    (es : List (Scalar × Nat)) :
    Achieves nodes
      (pairs.foldlM (fun done (k, v) => do
        let k ← key k
        meet v
        pure (insert k v done)) es) m
      fun es' m' => es' = pairs.foldl (fun es p => insert (.str (nodes.at p.1).text) p.2 es) es ∧
        Sound nodes busy m' ∧ (∀ p ∈ pairs, m'.Met p.2) ∧ Grows m m' := by
  induction pairs generalizing m es with
  | nil => exact achieves_of_ok rfl ⟨rfl, hm, fun _ h => absurd h List.not_mem_nil, Grows.refl m⟩
  | cons p pairs ih =>
      obtain ⟨k, v⟩ := p
      obtain ⟨hk, hv, text, hnode⟩ := hpairs (k, v) List.mem_cons_self
      rw [List.foldlM_cons, List.foldl_cons, hnode]
      have hpair : Achieves nodes
          (key k >>= fun k => meet v >>= fun _ => pure (insert k v es)) m fun es' m' =>
            es' = insert (.str text) v es ∧ Sound nodes busy m' ∧ m'.Met v ∧ Grows m m' := by
        refine (achieves_key hplain hm hk hnode).bind fun _ m₁ h₁ => ?_
        obtain ⟨rfl, hm₁, hgrows₁⟩ := h₁
        refine (achieves_meet hplain hm₁ hv).bind fun _ m₂ h₂ => ?_
        exact achieves_of_ok rfl ⟨rfl, h₂.1, h₂.2.1, hgrows₁.trans h₂.2.2⟩
      refine hpair.bind fun es₂ m₂ h₂ => ?_
      obtain ⟨rfl, hm₂, hmet, hgrows₂⟩ := h₂
      refine (ih hm₂ (fun q hq => hpairs q (List.mem_cons_of_mem _ hq)) _).mono fun es' m' h => ?_
      obtain ⟨hes, hm', hall, hgrows⟩ := h
      refine ⟨hes, hm', fun q hq => ?_, hgrows₂.trans hgrows⟩
      rcases List.mem_cons.mp hq with rfl | hq
      · exact hgrows.met _ hmet
      · exact hall q hq

-- ============================================================================
-- Collections
-- ============================================================================

theorem at_setIfInBounds (nodes : Nodes) (i : Nat) :
    nodes.setIfInBounds i (nodes.at i) = nodes := by
  by_cases hi : i < nodes.size
  · rw [Array.setIfInBounds_def, dif_pos hi, Nodes.at, Array.getElem?_eq_getElem hi,
      Option.getD_some, Array.set_getElem_self]
  · exact Array.setIfInBounds_eq_of_size_le (Nat.le_of_not_lt hi)

/-- Pairs whose keys are strings are kept. -/
theorem mergeInto_plain {complete : Nat → Merging Unit} {rest : List (Nat × Nat)}
    (hrest : ∀ p ∈ rest, ∃ text, nodes.at p.1 = .scalar .str text) (kept : List (Nat × Nat)) :
    Merging.mergeInto complete i [] kept rest nodes =
      Merging.putPairs i (kept ++ rest) nodes := by
  induction rest generalizing kept with
  | nil => rw [List.append_nil]; rfl
  | cons p rest ih =>
      obtain ⟨k, v⟩ := p
      obtain ⟨text, hnode⟩ := hrest (k, v) List.mem_cons_self
      have hread : Merging.node k nodes = .ok (.scalar .str text, nodes) := by
        rw [← hnode]
        rfl
      rw [Merging.mergeInto, bind_ok hread]
      change Merging.mergeInto complete i [] (kept ++ [(k, v)]) rest nodes = _
      rw [ih (fun q hq => hrest q (List.mem_cons_of_mem _ hq)), List.append_assoc]
      rfl

/-- A mapping whose keys are strings stays as it is. -/
theorem complete_plain {tag : Tag} {pairs : List (Nat × Nat)} (n : Nat)
    (hnode : nodes.at i = .map tag pairs)
    (hpairs : ∀ p ∈ pairs, ∃ text, nodes.at p.1 = .scalar .str text) :
    Merging.complete (n + 1) i nodes = .ok ((), nodes) := by
  have hread : Merging.node i nodes = .ok (.map tag pairs, nodes) := by
    rw [← hnode]
    rfl
  rw [Merging.complete, bind_ok hread]
  change Merging.mergeInto _ i [] [] pairs nodes = _
  rw [mergeInto_plain hpairs, Merging.putPairs, bind_ok hread]
  change Except.ok ((), nodes.setIfInBounds i (.map tag pairs)) = _
  rw [← hnode, at_setIfInBounds]

/-- The entries of a mapping whose keys are strings. -/
theorem achieves_entries (hplain : nodes.ArePlain) (hm : Sound nodes busy m)
    {pairs : List (Nat × Nat)} (hnode : nodes.at i = .map .map pairs)
    (hpairs : ∀ p ∈ pairs,
      p.1 < nodes.size ∧ p.2 < nodes.size ∧ ∃ text, nodes.at p.1 = .scalar .str text) :
    Achieves nodes (entries i) m fun es m' =>
      es = pairs.foldl (fun es p => insert (.str (nodes.at p.1).text) p.2 es) [] ∧
        Sound nodes busy m' ∧ (∀ p ∈ pairs, m'.Met p.2) ∧ Grows m m' := by
  have hcomplete : (liftM ((Merging.complete (nodes.pairCount + 1) i).run nodes) :
      Maker (Unit × Nodes)) m = .ok (((), nodes), m) := by
    have h := complete_plain nodes.pairCount hnode fun p hp => (hpairs p hp).2.2
    change (Merging.complete (nodes.pairCount + 1) i nodes >>= fun r => Except.ok (r, m)) = _
    rw [h]
    rfl
  have hset : (set { m with nodes } : Maker Unit) m = .ok ((), m) := by
    change Except.ok ((), { m with nodes }) = _
    rw [← hm.same]
  refine achieves_bind_of_ok (get_eq m) ?_
  rw [hm.same, hnode]
  refine achieves_bind_of_ok hcomplete (achieves_bind_of_ok hset ?_)
  rw [hnode]
  exact achieves_foldlM_pairs hplain hm hpairs []

/-- A collection gets its object. -/
theorem achieves_finish (hplain : nodes.ArePlain) (hm : Sound nodes [i] m) :
    Achieves nodes (finish i) m fun _ m' => Sound nodes [] m' ∧ Grows m m' := by
  obtain ⟨hi, hcollection⟩ := hm.pending i (by simp)
  have hnode := hplain i hi
  have hdefine : ∀ {m₁ : Making} {o : Object}, Sound nodes [i] m₁ → Grows m m₁ →
      o = nodes.object i → (nodes.at i).HasValue → (∀ j ∈ (nodes.at i).parts, m₁.Met j) →
      Achieves nodes (define i o) m₁ fun _ m' => Sound nodes [] m' ∧ Grows m m' := by
    intro m₁ o hm₁ hgrows ho hvalue hparts
    refine achieves_of_ok rfl ⟨hm₁.define hi ho hvalue hparts (fun _ h => by cases h) fun j hj =>
      .inl (List.eq_of_mem_singleton hj), fun j hj => (hgrows.met j hj).define i o,
      Nat.le_trans (left_define_le m₁ i o) hgrows.left⟩
  refine achieves_bind_of_ok (get_eq m) ?_
  rw [hm.same]
  cases hx : nodes.at i with
  | scalar =>
      rw [hx] at hcollection
      cases hcollection
  | seq tag items =>
      rw [hx] at hnode hdefine
      obtain ⟨rfl, hitems⟩ := hnode
      have hobject : Object.list items = nodes.object i := by simp only [Nodes.object, hx]
      have hread : Maker.items i m = .ok (items, m) := by
        rw [Maker.items, bind_ok (get_eq m), hm.same, hx]
        rfl
      refine achieves_bind_of_ok hread ((achieves_forM_meet hplain hm hitems).bind fun _ m₁ h₁ => ?_)
      exact hdefine h₁.1 h₁.2.2 hobject trivial h₁.2.1
  | map tag pairs =>
      rw [hx] at hnode hdefine
      obtain ⟨rfl, hpairs⟩ := hnode
      refine (achieves_entries hplain hm hx hpairs).bind fun es m₁ h₁ => ?_
      obtain ⟨rfl, hm₁, hall, hgrows⟩ := h₁
      refine hdefine hm₁ hgrows ?_ trivial fun j hj => ?_
      · simp only [Nodes.object, hx]
      · obtain ⟨p, hp, rfl⟩ := List.mem_map.mp hj
        exact hall p hp

/-- All collections that wait get their objects. -/
theorem achieves_finishAll (hplain : nodes.ArePlain) {n : Nat} (hm : Sound nodes [] m)
    (hn : m.left ≤ n) :
    Achieves nodes (finishAll n) m fun _ m' =>
      Sound nodes [] m' ∧ m'.waiting = [] ∧ Grows m m' := by
  induction n generalizing m with
  | zero =>
      have hwaiting : m.waiting = [] := by
        rw [left] at hn
        exact List.eq_nil_of_length_eq_zero (by omega)
      exact achieves_of_ok rfl ⟨hm, hwaiting, Grows.refl m⟩
  | succ n ih =>
      refine achieves_bind_of_ok (get_eq m) ?_
      cases hwaiting : m.waiting with
      | nil => exact achieves_of_ok rfl ⟨hm, hwaiting, Grows.refl m⟩
      | cons i rest =>
          have htaken : Sound nodes [i] { m with waiting := rest } :=
            { hm with
              pending := by simpa [hwaiting] using hm.pending
              made := by simpa [hwaiting, Met] using hm.made }
          have hleft : ({ m with waiting := rest } : Making).left + 1 = m.left := by
            simp only [left, hwaiting, List.length_cons]
            omega
          refine achieves_bind_of_ok rfl ((achieves_finish hplain htaken).bind fun _ m₁ h₁ => ?_)
          obtain ⟨hm₁, hgrows₁⟩ := h₁
          have hleft₁ := hgrows₁.left
          refine (ih hm₁ (by omega)).mono fun _ m' h => ?_
          obtain ⟨hm', hdone, hgrows⟩ := h
          have hleft' := hgrows.left
          exact ⟨hm', hdone, fun j hj => hgrows.met j (hgrows₁.met j hj), by omega⟩

end Maker

-- ============================================================================
-- Graphs
-- ============================================================================

/-- The objects of plain nodes, complete for the root and for all parts of what is there. -/
structure IsMade (nodes : Nodes) (root : Nat) (objects : Array (Option Object)) : Prop where
  size : objects.size = nodes.size
  root : objects[root]? = some (some (nodes.object root))
  hasValue : ∀ i, objects[i]? = some (some (nodes.object i)) → (nodes.at i).HasValue
  parts : ∀ i, objects[i]? = some (some (nodes.object i)) →
    ∀ j ∈ (nodes.at i).parts, objects[j]? = some (some (nodes.object j))

/-- Everything that can be reached in a graph of plain nodes gets its object, or a scalar has no
value. -/
theorem NodeGraph.objects_plain {g : NodeGraph} (hplain : g.nodes.ArePlain)
    (hroot : g.root < g.nodes.size) :
    match g.objects with
    | .ok objects => IsMade g.nodes g.root objects
    | .error p => g.nodes.HaveProblem p := by
  let start : Making := { nodes := g.nodes, objects := Array.replicate g.nodes.size none }
  have hstart : Making.Sound g.nodes [] start :=
    { same := rfl
      size := Array.size_replicate
      pending := fun _ h => by cases h
      made := by
        intro i o ho
        rw [Array.getElem?_replicate] at ho
        split at ho <;> cases ho }
  have hleft : start.left ≤ g.nodes.size := by
    have hcount := Array.countP_replicate (p := Option.isNone) (a := (none : Option Object))
      (n := g.nodes.size)
    simp only [Making.left, start]
    rw [hcount]
    simp
  have hrun : Maker.Achieves g.nodes (do Maker.meet g.root; Maker.finishAll g.nodes.size) start
      fun _ m => Making.Sound g.nodes [] m ∧ m.waiting = [] ∧ m.Met g.root := by
    refine (Maker.achieves_meet hplain hstart hroot).bind fun _ m₁ h₁ => ?_
    obtain ⟨hm₁, hmet, hgrows₁⟩ := h₁
    have hfinish := Maker.achieves_finishAll hplain hm₁ (Nat.le_trans hgrows₁.left hleft)
    exact hfinish.mono fun _ m h => ⟨h.1, h.2.1, h.2.2.met _ hmet⟩
  have hobjects : g.objects =
      (do Maker.meet g.root; Maker.finishAll g.nodes.size : Maker Unit) start >>= fun r =>
        Except.ok r.2.objects := rfl
  rw [hobjects]
  rw [Maker.Achieves] at hrun
  cases hr : (do Maker.meet g.root; Maker.finishAll g.nodes.size : Maker Unit) start with
  | error p =>
      rw [hr] at hrun
      exact hrun
  | ok r =>
      rw [hr] at hrun
      obtain ⟨hm, hdone, hmet⟩ := hrun
      have hmade : ∀ i o, r.2.objects[i]? = some (some o) → o = g.nodes.object i ∧
          (g.nodes.at i).HasValue ∧ ∀ j ∈ (g.nodes.at i).parts, r.2.Met j := by
        intro i o ho
        refine (hm.made i o ho).resolve_left fun hi => ?_
        rw [hdone] at hi
        cases hi
      have hthere : ∀ i, r.2.Met i → r.2.objects[i]? = some (some (g.nodes.object i)) := by
        rintro i ⟨o, ho⟩
        rw [ho, (hmade i o ho).1]
      exact
        { size := hm.size
          root := hthere _ hmet
          hasValue := fun i hi => (hmade i _ hi).2.1
          parts := fun i hi j hj => hthere j ((hmade i _ hi).2.2 j hj) }

end Flowscript.Yaml

/-
  Flowscript.Proofs.YamlValues

  What is written as JSON is read as YAML.

  The nodes of a tree are plain, so that every one of them gets its object, unless an
  integer among them has too many digits.  Every part of a collection has a higher number
  than the collection, so that no collection is inside itself, and the value of the first
  node is the value of the tree.
-/
import Flowscript.Proofs.YamlObjects

namespace Flowscript

open Shared

-- ============================================================================
-- Scalars
-- ============================================================================

namespace Shared.Tree

open Yaml (Nodes Object Tag scalarValue)

/-- The type of a scalar with or without quotes. -/
def leafTag (isPlain : Bool) (text : String) : Tag := if isPlain then .ofPlain text else .str

mutual

/-- Every scalar has the value of its text, but for integers of too many digits. -/
def Valid : Tree → Prop
  | .leaf isPlain text v =>
    (leafTag isPlain text).isPlain = true ∧
      scalarValue (leafTag isPlain text) text =
        if (leaf isPlain text v).isShort then .ok v else .error (.badNumber text)
  | .list ts => ValidItems ts
  | .map ms => ValidMembers ms

def ValidItems : List Tree → Prop
  | [] => True
  | t :: ts => t.Valid ∧ ValidItems ts

def ValidMembers : List (String × Tree) → Prop
  | [] => True
  | m :: ms => m.2.Valid ∧ ValidMembers ms

end

end Shared.Tree

namespace Yaml

theorem valid_word {v : Scalar} {w : List Char} (hw : Word v w) :
    (Tree.leaf true (String.ofList w) v).Valid := by
  obtain ⟨htag, hvalue⟩ := scalarValue_word hw
  have hleaf : Tree.leafTag true (String.ofList w) = Tag.ofScalar v := htag
  rw [Tree.Valid, hleaf]
  refine ⟨?_, hvalue⟩
  cases hw <;> rfl

mutual

/-- The scalars of a text have the values of their texts. -/
theorem valid_begins {t : Tree} {s r : List Char} (h : Begins t s r) : t.Valid := by
  cases h with
  | word hw _ => exact valid_word hw
  | string => exact ⟨rfl, rfl⟩
  | emptyList | emptyMap => exact trivial
  | list hitems => exact valid_items hitems
  | map hmembers => exact valid_members hmembers

theorem valid_items {ts : List Tree} {s r : List Char} (h : Items ts s r) :
    Tree.ValidItems ts := by
  cases h with
  | last _ hitem _ => exact ⟨valid_begins hitem, trivial⟩
  | cons _ hitem _ hitems => exact ⟨valid_begins hitem, valid_items hitems⟩

theorem valid_member {m : String × Tree} {s r : List Char} (h : Member m s r) : m.2.Valid := by
  cases h with
  | mk _ _ _ _ hvalue => exact valid_begins hvalue

theorem valid_members {ms : List (String × Tree)} {s r : List Char} (h : Members ms s r) :
    Tree.ValidMembers ms := by
  cases h with
  | last _ hmember _ => exact ⟨valid_member hmember, trivial⟩
  | cons _ hmember _ hmembers => exact ⟨valid_member hmember, valid_members hmembers⟩

end

-- ============================================================================
-- Nodes among others
-- ============================================================================

/-- Nodes stand among others, the first of them with the number `n`. -/
def Occurs (nodes : Nodes) (n : Nat) (xs : List Node) : Prop :=
  ∀ i x, xs[i]? = some x → nodes[n + i]? = some x

variable {nodes : Nodes} {n : Nat} {x : Node} {xs ys : List Node}

theorem Occurs.head (h : Occurs nodes n (x :: xs)) : nodes.at n = x := by
  have hread : nodes[n]? = some x := h 0 x rfl
  rw [Nodes.at, hread]
  rfl

theorem Occurs.tail (h : Occurs nodes n (x :: xs)) : Occurs nodes (n + 1) xs := by
  intro i y hy
  rw [Nat.add_assoc, Nat.add_comm 1 i]
  exact h (i + 1) y hy

theorem Occurs.left (h : Occurs nodes n (xs ++ ys)) : Occurs nodes n xs := by
  intro i y hy
  obtain ⟨hi, -⟩ := List.getElem?_eq_some_iff.mp hy
  exact h i y ((List.getElem?_append_left hi).trans hy)

theorem Occurs.right (h : Occurs nodes n (xs ++ ys)) : Occurs nodes (n + xs.length) ys := by
  intro i y hy
  rw [Nat.add_assoc]
  refine h (xs.length + i) y ?_
  rw [List.getElem?_append_right (Nat.le_add_right _ _), Nat.add_sub_cancel_left]
  exact hy

theorem Occurs.lt_size (h : Occurs nodes n (x :: xs)) : n < nodes.size := by
  obtain ⟨hn, -⟩ := Array.getElem?_eq_some_iff.mp (h 0 x rfl)
  exact hn

theorem exists_nodes_cons (t : Tree) (n : Nat) : ∃ x xs, t.nodes n = x :: xs := by
  cases t <;> exact ⟨_, _, rfl⟩

theorem lt_size_of_tree {t : Tree} (h : Occurs nodes n (t.nodes n)) : n < nodes.size := by
  obtain ⟨x, xs, hnodes⟩ := exists_nodes_cons t n
  rw [hnodes] at h
  exact h.lt_size

theorem occurs_item {t : Tree} {ts : List Tree}
    (h : Occurs nodes n (Tree.itemNodes n (t :: ts))) :
    Occurs nodes n (t.nodes n) ∧ Occurs nodes (n + t.size) (Tree.itemNodes (n + t.size) ts) := by
  rw [Tree.itemNodes] at h
  have hright := h.right
  rw [Tree.length_nodes] at hright
  exact ⟨h.left, hright⟩

theorem occurs_member {m : String × Tree} {ms : List (String × Tree)}
    (h : Occurs nodes n (Tree.memberNodes n (m :: ms))) :
    nodes.at n = .scalar .str m.1 ∧ n < nodes.size ∧ Occurs nodes (n + 1) (m.2.nodes (n + 1)) ∧
      Occurs nodes (n + 1 + m.2.size) (Tree.memberNodes (n + 1 + m.2.size) ms) := by
  rw [Tree.memberNodes, List.cons_append] at h
  have hright := h.tail.right
  rw [Tree.length_nodes] at hright
  exact ⟨h.head, h.lt_size, h.tail.left, hright⟩

/-- The items of a list are among the nodes. -/
theorem lt_size_of_mem_itemNumbers {ts : List Tree} {i : Nat}
    (h : Occurs nodes n (Tree.itemNodes n ts)) (hi : i ∈ Tree.itemNumbers n ts) :
    i < nodes.size := by
  induction ts generalizing n with
  | nil => cases hi
  | cons t ts ih =>
      obtain ⟨ht, hts⟩ := occurs_item h
      rcases List.mem_cons.mp hi with rfl | hi
      · exact lt_size_of_tree ht
      · exact ih hts hi

/-- The keys and values of an object are among the nodes, and the keys are strings. -/
theorem of_mem_pairNumbers {ms : List (String × Tree)} {p : Nat × Nat}
    (h : Occurs nodes n (Tree.memberNodes n ms)) (hp : p ∈ Tree.pairNumbers n ms) :
    p.1 < nodes.size ∧ p.2 < nodes.size ∧ ∃ text, nodes.at p.1 = .scalar .str text := by
  induction ms generalizing n with
  | nil => cases hp
  | cons m ms ih =>
      obtain ⟨hkey, hlt, hvalue, hms⟩ := occurs_member h
      rcases List.mem_cons.mp hp with rfl | hp
      · exact ⟨hlt, lt_size_of_tree hvalue, m.1, hkey⟩
      · exact ih hms hp

mutual

/-- The nodes of a tree are plain. -/
theorem isPlain_nodes : (t : Tree) → ∀ {n : Nat}, t.Valid → Occurs nodes n (t.nodes n) →
    ∀ x ∈ t.nodes n, x.IsPlain nodes
  | .leaf isPlain text v, n, hvalid, h, x, hx => by
      rw [List.eq_of_mem_singleton hx]
      exact hvalid.1
  | .list ts, n, hvalid, h, x, hx => by
      rcases List.mem_cons.mp hx with rfl | hx
      · exact ⟨rfl, fun i hi => lt_size_of_mem_itemNumbers h.tail hi⟩
      · exact isPlain_itemNodes ts hvalid h.tail x hx
  | .map ms, n, hvalid, h, x, hx => by
      rcases List.mem_cons.mp hx with rfl | hx
      · exact ⟨rfl, fun p hp => of_mem_pairNumbers h.tail hp⟩
      · exact isPlain_memberNodes ms hvalid h.tail x hx

theorem isPlain_itemNodes : (ts : List Tree) → ∀ {n : Nat}, Tree.ValidItems ts →
    Occurs nodes n (Tree.itemNodes n ts) → ∀ x ∈ Tree.itemNodes n ts, x.IsPlain nodes
  | [], n, hvalid, h, x, hx => by cases hx
  | t :: ts, n, hvalid, h, x, hx => by
      obtain ⟨ht, hts⟩ := occurs_item h
      rcases List.mem_append.mp hx with hx | hx
      · exact isPlain_nodes t hvalid.1 ht x hx
      · exact isPlain_itemNodes ts hvalid.2 hts x hx

theorem isPlain_memberNodes : (ms : List (String × Tree)) → ∀ {n : Nat}, Tree.ValidMembers ms →
    Occurs nodes n (Tree.memberNodes n ms) → ∀ x ∈ Tree.memberNodes n ms, x.IsPlain nodes
  | [], n, hvalid, h, x, hx => by cases hx
  | (k, t) :: ms, n, hvalid, h, x, hx => by
      obtain ⟨hkey, hlt, ht, hms⟩ := occurs_member h
      rcases List.mem_append.mp hx with hx | hx
      · rcases List.mem_cons.mp hx with rfl | hx
        · exact rfl
        · exact isPlain_nodes t hvalid.1 ht x hx
      · exact isPlain_memberNodes ms hvalid.2 hms x hx

end

mutual

/-- Nothing is wrong with the nodes of a tree but integers of too many digits. -/
theorem problem_nodes : (t : Tree) → ∀ {n : Nat} {p : Problem}, t.Valid →
    ∀ x ∈ t.nodes n, x.HasProblem p → t.isShort = false ∧ ∃ text, p = .badNumber text
  | .leaf isPlain text v, n, p, hvalid, x, hx, hp => by
      rw [List.eq_of_mem_singleton hx] at hp
      have hp : scalarValue (Tree.leafTag isPlain text) text = .error p := hp
      rw [hvalid.2] at hp
      split at hp
      · cases hp
      · next hlong =>
        cases hp
        exact ⟨by simpa using hlong, text, rfl⟩
  | .list ts, n, p, hvalid, x, hx, hp => by
      rcases List.mem_cons.mp hx with rfl | hx
      · exact hp.elim
      · exact problem_itemNodes ts hvalid x hx hp
  | .map ms, n, p, hvalid, x, hx, hp => by
      rcases List.mem_cons.mp hx with rfl | hx
      · exact hp.elim
      · exact problem_memberNodes ms hvalid x hx hp

theorem problem_itemNodes : (ts : List Tree) → ∀ {n : Nat} {p : Problem}, Tree.ValidItems ts →
    ∀ x ∈ Tree.itemNodes n ts, x.HasProblem p →
    Tree.areShort ts = false ∧ ∃ text, p = .badNumber text
  | [], n, p, hvalid, x, hx, hp => by cases hx
  | t :: ts, n, p, hvalid, x, hx, hp => by
      rw [Tree.areShort]
      rcases List.mem_append.mp hx with hx | hx
      · obtain ⟨hshort, htext⟩ := problem_nodes t hvalid.1 x hx hp
        exact ⟨by rw [hshort, Bool.false_and], htext⟩
      · obtain ⟨hshort, htext⟩ := problem_itemNodes ts hvalid.2 x hx hp
        exact ⟨by rw [hshort, Bool.and_false], htext⟩

theorem problem_memberNodes : (ms : List (String × Tree)) → ∀ {n : Nat} {p : Problem},
    Tree.ValidMembers ms → ∀ x ∈ Tree.memberNodes n ms, x.HasProblem p →
    Tree.membersShort ms = false ∧ ∃ text, p = .badNumber text
  | [], n, p, hvalid, x, hx, hp => by cases hx
  | (k, t) :: ms, n, p, hvalid, x, hx, hp => by
      rw [Tree.membersShort]
      rcases List.mem_append.mp hx with hx | hx
      · rcases List.mem_cons.mp hx with rfl | hx
        · cases hp
        · obtain ⟨hshort, htext⟩ := problem_nodes t hvalid.1 x hx hp
          exact ⟨by rw [hshort, Bool.false_and], htext⟩
      · obtain ⟨hshort, htext⟩ := problem_memberNodes ms hvalid.2 x hx hp
        exact ⟨by rw [hshort, Bool.and_false], htext⟩

end

theorem occurs_nodes (t : Tree) : Occurs (t.nodes 0).toArray 0 (t.nodes 0) := by
  intro i x hx
  rw [Nat.zero_add, List.getElem?_toArray]
  exact hx

theorem at_mem_nodes (t : Tree) {i : Nat} (hi : i < (t.nodes 0).toArray.size) :
    Nodes.at (t.nodes 0).toArray i ∈ t.nodes 0 := by
  rw [Nodes.at, Array.getElem?_eq_getElem hi, Option.getD_some, List.getElem_toArray]
  exact List.getElem_mem _

/-- The nodes of a tree by itself are plain. -/
theorem arePlain_nodes {t : Tree} (hvalid : t.Valid) : Nodes.ArePlain (t.nodes 0).toArray :=
  fun _ hi => isPlain_nodes t hvalid (occurs_nodes t) _ (at_mem_nodes t hi)

-- ============================================================================
-- Values
-- ============================================================================

theorem looseEntries_insert {es : Entries} {v : Value} (k : Scalar) (hes : looseEntries es = [])
    (hv : loose v = []) : looseEntries (es.insert k v) = [] := by
  induction es with
  | nil => rw [Entries.insert_nil, looseEntries, hv]; rfl
  | cons e es ih =>
      obtain ⟨k', v'⟩ := e
      rw [looseEntries, List.append_eq_nil_iff] at hes
      rw [Entries.insert]
      split
      · rw [looseEntries, hv, hes.2]; rfl
      · rw [looseEntries, hes.1, ih hes.2]; rfl

mutual

/-- The value of a tree is no knot. -/
theorem loose_value : (t : Tree) → loose t.value = []
  | .leaf .. => rfl
  | .list ts => by rw [Tree.value, loose, looseItems_values ts]
  | .map ms => by rw [Tree.value, loose, looseEntries_entries ms rfl]

theorem looseItems_values : (ts : List Tree) → looseItems (Tree.values ts) = []
  | [] => rfl
  | t :: ts => by rw [Tree.values, looseItems, loose_value t, looseItems_values ts]; rfl

theorem looseEntries_entries : (ms : List (String × Tree)) → ∀ {es : Entries},
    looseEntries es = [] → looseEntries (Tree.entries es ms) = []
  | [], _, hes => hes
  | (k, t) :: ms, es, hes => by
      rw [Tree.entries]
      exact looseEntries_entries ms (looseEntries_insert (.str k) hes (loose_value t))

end

theorem knotted_value (t : Tree) (n : Nat) : knotted n t.value = t.value := by
  rw [knotted, loose_value t]
  rfl

theorem map_insert (f : Nat → Value) (k : Scalar) (i : Nat) (es : List (Scalar × Nat)) :
    (Maker.insert k i es).map (fun e => (e.1, f e.2)) =
      Entries.insert k (f i) (es.map fun e => (e.1, f e.2)) := by
  induction es with
  | nil => rfl
  | cons e es ih =>
      obtain ⟨k', i'⟩ := e
      rw [Maker.insert, List.map_cons, Entries.insert]
      split
      · rfl
      · rw [List.map_cons, ih]

theorem lt_succ_of_mem_cons {outer : List Nat} (houter : ∀ i ∈ outer, i < n) :
    ∀ i ∈ n :: outer, i < n + 1 := by
  intro i hi
  rcases List.mem_cons.mp hi with rfl | hi
  · exact Nat.lt_succ_self i
  · exact Nat.lt_succ_of_lt (houter i hi)

section

variable {root : Nat} {objects : Array (Option Object)}

mutual

/-- If the first node of a tree has its object, no integer is too long, and the value of the node is
the value of the tree. -/
theorem objectValue_tree (hmade : IsMade nodes root objects) : (t : Tree) →
    ∀ {n fuel : Nat} {outer : List Nat}, t.Valid → Occurs nodes n (t.nodes n) →
    objects[n]? = some (some (nodes.object n)) → (∀ i ∈ outer, i < n) → t.depth < fuel →
    t.isShort = true ∧ objectValue objects fuel outer n = t.value
  | .leaf isPlain text v, n, fuel, outer, hvalid, h, hmet, houter, hfuel => by
      obtain ⟨fuel, rfl⟩ : ∃ k, fuel = k + 1 := ⟨fuel - 1, by omega⟩
      have hread := hmade.hasValue n hmet
      rw [h.head] at hread
      obtain ⟨s, hs⟩ := hread
      have hs : scalarValue (Tree.leafTag isPlain text) text = .ok s := hs
      have hshort : (Tree.leaf isPlain text v).isShort = true := by
        by_contra hlong
        rw [hvalid.2, if_neg hlong] at hs
        cases hs
      have hvalue : scalarValue (Tree.leafTag isPlain text) text = .ok v := by
        rw [hvalid.2, if_pos hshort]
      have hobject : nodes.object n = .scalar v := by
        simp only [Nodes.object, h.head]
        exact congrArg (fun r => Object.scalar (r.toOption.getD .null)) hvalue
      rw [hobject] at hmet
      rw [objectValue, hmet]
      exact ⟨hshort, rfl⟩
  | .list ts, n, fuel, outer, hvalid, h, hmet, houter, hfuel => by
      rw [Tree.depth] at hfuel
      obtain ⟨fuel, rfl⟩ : ∃ k, fuel = k + 1 := ⟨fuel - 1, by omega⟩
      have hobject : nodes.object n = .list (Tree.itemNumbers (n + 1) ts) := by
        simp only [Nodes.object, h.head]
      have hparts := hmade.parts n hmet
      rw [h.head] at hparts
      obtain ⟨hshort, hitems⟩ := map_objectValue_items hmade ts hvalid h.tail hparts
        (lt_succ_of_mem_cons houter) (Nat.lt_of_succ_lt_succ hfuel)
      rw [hobject] at hmet
      rw [objectValue, hmet]
      simp only [Option.bind_some, id, hitems]
      rw [if_neg fun hn => Nat.lt_irrefl n (houter n hn)]
      exact ⟨hshort, knotted_value (.list ts) n⟩
  | .map ms, n, fuel, outer, hvalid, h, hmet, houter, hfuel => by
      rw [Tree.depth] at hfuel
      obtain ⟨fuel, rfl⟩ : ∃ k, fuel = k + 1 := ⟨fuel - 1, by omega⟩
      have hobject : nodes.object n = .map ((Tree.pairNumbers (n + 1) ms).foldl
          (fun es p => Maker.insert (.str (nodes.at p.1).text) p.2 es) []) := by
        simp only [Nodes.object, h.head]
      have hparts := hmade.parts n hmet
      rw [h.head] at hparts
      obtain ⟨hshort, hmembers⟩ := map_foldl_members hmade ms hvalid h.tail
        (fun p hp => hparts p.2 (List.mem_map_of_mem hp)) (lt_succ_of_mem_cons houter)
        (Nat.lt_of_succ_lt_succ hfuel) []
      rw [hobject] at hmet
      rw [objectValue, hmet]
      simp only [Option.bind_some, id, hmembers]
      rw [if_neg fun hn => Nat.lt_irrefl n (houter n hn)]
      exact ⟨hshort, knotted_value (.map ms) n⟩

/-- The values of the items of a list. -/
theorem map_objectValue_items (hmade : IsMade nodes root objects) : (ts : List Tree) →
    ∀ {n fuel : Nat} {outer : List Nat}, Tree.ValidItems ts →
    Occurs nodes n (Tree.itemNodes n ts) →
    (∀ i ∈ Tree.itemNumbers n ts, objects[i]? = some (some (nodes.object i))) →
    (∀ i ∈ outer, i < n) → Tree.depthItems ts < fuel →
    Tree.areShort ts = true ∧
      (Tree.itemNumbers n ts).map (objectValue objects fuel outer) = Tree.values ts
  | [], _, _, _, _, _, _, _, _ => ⟨rfl, rfl⟩
  | t :: ts, n, fuel, outer, hvalid, h, hmet, houter, hfuel => by
      obtain ⟨ht, hts⟩ := occurs_item h
      rw [Tree.depthItems, Nat.max_lt] at hfuel
      obtain ⟨hitemShort, hitem⟩ :=
        objectValue_tree hmade t hvalid.1 ht (hmet n List.mem_cons_self) houter hfuel.1
      obtain ⟨hshort, hitems⟩ := map_objectValue_items hmade ts hvalid.2 hts
        (fun i hi => hmet i (List.mem_cons_of_mem n hi))
        (fun i hi => Nat.lt_of_lt_of_le (houter i hi) (Nat.le_add_right n _)) hfuel.2
      rw [Tree.areShort, hitemShort, hshort, Tree.itemNumbers, List.map_cons, hitem, hitems,
        Tree.values]
      exact ⟨rfl, rfl⟩

/-- The entries of an object. -/
theorem map_foldl_members (hmade : IsMade nodes root objects) : (ms : List (String × Tree)) →
    ∀ {n fuel : Nat} {outer : List Nat}, Tree.ValidMembers ms →
    Occurs nodes n (Tree.memberNodes n ms) →
    (∀ p ∈ Tree.pairNumbers n ms, objects[p.2]? = some (some (nodes.object p.2))) →
    (∀ i ∈ outer, i < n) → Tree.depthMembers ms < fuel → ∀ es : List (Scalar × Nat),
    Tree.membersShort ms = true ∧
      ((Tree.pairNumbers n ms).foldl
        (fun es p => Maker.insert (.str (nodes.at p.1).text) p.2 es) es).map
          (fun e => (e.1, objectValue objects fuel outer e.2)) =
        Tree.entries (es.map fun e => (e.1, objectValue objects fuel outer e.2)) ms
  | [], _, _, _, _, _, _, _, _, _ => ⟨rfl, rfl⟩
  | (k, t) :: ms, n, fuel, outer, hvalid, h, hmet, houter, hfuel, es => by
      obtain ⟨hkey, -, ht, hms⟩ := occurs_member h
      rw [Tree.depthMembers, Nat.max_lt] at hfuel
      obtain ⟨hvalueShort, hvalue⟩ := objectValue_tree hmade t hvalid.1 ht
        (hmet _ List.mem_cons_self) (fun i hi => Nat.lt_succ_of_lt (houter i hi)) hfuel.1
      obtain ⟨hshort, hmembers⟩ := map_foldl_members hmade ms hvalid.2 hms
        (fun p hp => hmet p (List.mem_cons_of_mem _ hp))
        (fun i hi => Nat.lt_of_lt_of_le (houter i hi) (by omega)) hfuel.2
        (Maker.insert (.str k) (n + 1) es)
      rw [map_insert, hvalue] at hmembers
      rw [Tree.membersShort, hvalueShort, hshort, Tree.pairNumbers, List.foldl_cons, hkey,
        Tree.entries]
      exact ⟨rfl, hmembers⟩

end

end

mutual

theorem depth_le_size : (t : Tree) → t.depth ≤ t.size
  | .leaf .. => Nat.zero_le _
  | .list ts => Nat.succ_le_succ (depthItems_le_itemsSize ts)
  | .map ms => Nat.succ_le_succ (depthMembers_le_membersSize ms)

theorem depthItems_le_itemsSize : (ts : List Tree) → Tree.depthItems ts ≤ Tree.itemsSize ts
  | [] => Nat.le_refl _
  | t :: ts => by
      have ht := depth_le_size t
      have hts := depthItems_le_itemsSize ts
      rw [Tree.depthItems, Tree.itemsSize]
      omega

theorem depthMembers_le_membersSize : (ms : List (String × Tree)) →
    Tree.depthMembers ms ≤ Tree.membersSize ms
  | [] => Nat.le_refl _
  | (k, t) :: ms => by
      have ht := depth_le_size t
      have hms := depthMembers_le_membersSize ms
      rw [Tree.depthMembers, Tree.membersSize]
      simp only
      omega

end

-- ============================================================================
-- Texts
-- ============================================================================

/-- A text that is a tree and not too deep is read as the value of the tree, but for one with an
integer of too many digits. -/
theorem read_document {t : Tree} {s : List Char} (h : Document t s) (hdepth : t.depth ≤ maxDepth) :
    if t.isShort then read s = .ok t.value else ∃ text, read s = .error (.badNumber text) := by
  have hvalid : t.Valid := by
    obtain ⟨_, _, -, htree, -⟩ := h
    exact valid_begins htree
  have hoccurs := occurs_nodes t
  have hread : read s = (NodeGraph.objects { nodes := (t.nodes 0).toArray, root := 0 } >>=
      fun objects => .ok (objectValue objects (objects.size + 1) [] 0)) := by
    rw [read, tokens_document h]
    change (NodeGraph.ofTokens t.tokens >>= _) = _
    rw [NodeGraph.ofTokens_tree t hdepth]
    rfl
  have hobjects := NodeGraph.objects_plain (g := { nodes := (t.nodes 0).toArray, root := 0 })
    (arePlain_nodes hvalid) (lt_size_of_tree hoccurs)
  rw [hread]
  cases hmade : NodeGraph.objects { nodes := (t.nodes 0).toArray, root := 0 } with
  | error p =>
      rw [hmade] at hobjects
      obtain ⟨i, hi, hp⟩ := hobjects
      obtain ⟨hlong, text, rfl⟩ := problem_nodes t hvalid _ (at_mem_nodes t hi) hp
      rw [hlong]
      exact ⟨text, rfl⟩
  | ok objects =>
      rw [hmade] at hobjects
      have hfuel : t.depth < objects.size + 1 := by
        have hle := depth_le_size t
        have hsize : objects.size = (t.nodes 0).length := hobjects.size
        rw [Tree.length_nodes] at hsize
        omega
      obtain ⟨hshort, hvalue⟩ := objectValue_tree hobjects t hvalid hoccurs hobjects.root
        (fun _ h => absurd h List.not_mem_nil) hfuel
      rw [hshort]
      exact congrArg Except.ok hvalue

end Yaml

end Flowscript

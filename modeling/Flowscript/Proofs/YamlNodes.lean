/-
  Flowscript.Proofs.YamlNodes

  The YAML nodes of a JSON text.

  Nodes are numbered in the order in which they begin, so that the number of a node and
  the size of the tree in front of it give the number of the next one.  Reading the
  tokens of a tree adds the nodes of the tree behind those that are there; every step
  takes a token or goes into a collection that has taken one, so that twice as many steps
  as tokens are enough.
-/
import Flowscript.Proofs.YamlTokens
import Flowscript.Yaml.Node

namespace Flowscript

open Shared

-- ============================================================================
-- Nodes of a tree
-- ============================================================================

namespace Shared.Tree

open Yaml (Tag)

mutual

/-- How many nodes a tree has. -/
def size : Tree → Nat
  | .leaf .. => 1
  | .list ts => itemsSize ts + 1
  | .map ms => membersSize ms + 1

def itemsSize : List Tree → Nat
  | [] => 0
  | t :: ts => t.size + itemsSize ts

def membersSize : List (String × Tree) → Nat
  | [] => 0
  | m :: ms => 1 + m.2.size + membersSize ms

end

/-- The numbers of the items of a list, of which the first one is `n`. -/
def itemNumbers (n : Nat) : List Tree → List Nat
  | [] => []
  | t :: ts => n :: itemNumbers (n + t.size) ts

/-- The numbers of the keys and values of an object, of which the first one is `n`. -/
def pairNumbers (n : Nat) : List (String × Tree) → List (Nat × Nat)
  | [] => []
  | m :: ms => (n, n + 1) :: pairNumbers (n + 1 + m.2.size) ms

mutual

/-- The nodes of a tree, of which the first one has the number `n`. -/
def nodes (n : Nat) : Tree → List Yaml.Node
  | .leaf isPlain text _ => [.scalar (if isPlain then .ofPlain text else .str) text]
  | .list ts => .seq .seq (itemNumbers (n + 1) ts) :: itemNodes (n + 1) ts
  | .map ms => .map .map (pairNumbers (n + 1) ms) :: memberNodes (n + 1) ms

def itemNodes (n : Nat) : List Tree → List Yaml.Node
  | [] => []
  | t :: ts => t.nodes n ++ itemNodes (n + t.size) ts

def memberNodes (n : Nat) : List (String × Tree) → List Yaml.Node
  | [] => []
  | m :: ms => .scalar .str m.1 :: m.2.nodes (n + 1) ++ memberNodes (n + 1 + m.2.size) ms

end

mutual

theorem length_nodes : (t : Tree) → (n : Nat) → (t.nodes n).length = t.size
  | .leaf .., _ => rfl
  | .list ts, n => by rw [nodes, List.length_cons, length_itemNodes ts, size]
  | .map ms, n => by rw [nodes, List.length_cons, length_memberNodes ms, size]

theorem length_itemNodes : (ts : List Tree) → (n : Nat) → (itemNodes n ts).length = itemsSize ts
  | [], _ => rfl
  | t :: ts, n => by
      rw [itemNodes, List.length_append, length_nodes t, length_itemNodes ts, itemsSize]

theorem length_memberNodes : (ms : List (String × Tree)) → (n : Nat) →
    (memberNodes n ms).length = membersSize ms
  | [], _ => rfl
  | m :: ms, n => by
      rw [memberNodes, List.length_append, List.length_cons, length_nodes m.2,
        length_memberNodes ms, membersSize]
      omega

end

end Shared.Tree

-- ============================================================================
-- Steps
-- ============================================================================

/-- A step that gives a result leads on. -/
theorem Yaml.bind_ok {σ α β : Type} {x : StateT σ (Except Problem) α} {s s' : σ} {a : α}
    (hx : x s = .ok (a, s')) (f : α → StateT σ (Except Problem) β) : (x >>= f) s = f a s' := by
  change (x s >>= fun r => f r.1 r.2) = f a s'
  rw [hx]
  rfl

namespace Yaml.NodeReader

theorem drop_cons (t : Token) (ts : List Token) (depth : Nat) (handles : List (String × String))
    (anchors : List (String × Nat)) (nodes : Nodes) :
    drop ⟨t :: ts, depth, handles, anchors, nodes⟩ =
      .ok ((), ⟨ts, depth, handles, anchors, nodes⟩) := rfl

variable {handles : List (String × String)} {anchors : List (String × Nat)}
  {t : Token} {ts ts' : List Token} {depth n : Nat} {xs ys : List Node} {x : Node}

theorem add_toArray (x : Node) (ts : List Token) (depth : Nat)
    (handles : List (String × String)) (anchors : List (String × Nat)) (xs : List Node) :
    add x ⟨ts, depth, handles, anchors, xs.toArray⟩ =
      .ok (xs.length, ⟨ts, depth, handles, anchors, (xs ++ [x]).toArray⟩) := by
  rw [← List.push_toArray]
  rfl

/-- A number gets its node, whatever nodes have been added after it. -/
theorem fill_toArray (x y : Node) (ts : List Token) (depth : Nat)
    (handles : List (String × String)) (anchors : List (String × Nat)) (xs ys : List Node) :
    fill xs.length x ⟨ts, depth, handles, anchors, (xs ++ y :: ys).toArray⟩ =
      .ok ((), ⟨ts, depth, handles, anchors, (xs ++ x :: ys).toArray⟩) := by
  have hset : (xs ++ y :: ys).set xs.length x = xs ++ x :: ys := by simp
  rw [← hset, ← List.setIfInBounds_toArray]
  rfl

theorem deeper_ok {α : Type} {a : α} {parts : NodeReader α} {nodes nodes' : Nodes}
    (h : parts ⟨ts, depth, handles, anchors, nodes⟩ =
      .ok (a, ⟨ts', depth, handles, anchors, nodes'⟩)) :
    deeper parts ⟨ts, depth + 1, handles, anchors, nodes⟩ =
      .ok (a, ⟨ts', depth + 1, handles, anchors, nodes'⟩) := by
  change (parts ⟨ts, depth, handles, anchors, nodes⟩ >>= fun r =>
    Except.ok (r.1, { r.2 with depth := depth + 1 })) = _
  rw [h]
  rfl

/-- A token that a node without properties starts with in flow style. -/
def startsNode : Token → Bool
  | .scalar .. | .flowSequence | .flowMapping => true
  | _ => false

/-- A node has a number and then its content, when nothing stands in front of it. -/
theorem node_of_content {block entries : Bool} (ht : startsNode t = true)
    (h : content n block entries none false
      ⟨t :: ts, depth, handles, anchors, (xs ++ [Node.empty]).toArray⟩ =
      .ok (x, ⟨ts', depth, handles, anchors, (xs ++ Node.empty :: ys).toArray⟩)) :
    node (n + 1) block entries ⟨t :: ts, depth, handles, anchors, xs.toArray⟩ =
      .ok (xs.length, ⟨ts', depth, handles, anchors, (xs ++ x :: ys).toArray⟩) := by
  have hproperties : ∀ nodes, properties ⟨t :: ts, depth, handles, anchors, nodes⟩ =
      .ok ((none, none), ⟨t :: ts, depth, handles, anchors, nodes⟩) := by
    intro nodes
    cases t <;> first | rfl | cases ht
  have hstep : node (n + 1) block entries ⟨t :: ts, depth, handles, anchors, xs.toArray⟩ =
      (do
        let ps ← properties
        let tag ← ps.2.mapM resolveTag
        let i ← add .empty
        ps.1.forM fun a => declare a i
        let x ← content n block entries tag (ps.1.isSome || tag.isSome)
        fill i x
        pure i : NodeReader Nat) ⟨t :: ts, depth, handles, anchors, xs.toArray⟩ := by
    cases t <;> first | rfl | cases ht
  rw [hstep, bind_ok (hproperties _)]
  change (add .empty >>= fun i => content n block entries none false >>= fun x =>
    fill i x >>= fun _ => pure i) _ = _
  rw [bind_ok (add_toArray ..), bind_ok h, bind_ok (fill_toArray ..)]
  rfl

/-- An item of a list, with the comma before it. -/
theorem flowItems_cons (ht : startsNode t = true) (n : Nat) (first : Bool) (ts : List Token)
    (depth : Nat) (nodes : Nodes) :
    flowItems (n + 1) first
        ⟨(if first then [] else [.comma]) ++ t :: ts, depth, handles, anchors, nodes⟩ =
      (do
        let i ← node n false false
        return i :: (← flowItems n false)) ⟨t :: ts, depth, handles, anchors, nodes⟩ := by
  cases first <;> cases t <;> first | rfl | cases ht

/-- A member of an object, with the comma before it. -/
theorem flowPairs_cons (n : Nat) (first : Bool) (k : String) (ts : List Token) (depth : Nat)
    (nodes : Nodes) :
    flowPairs (n + 1) first
        ⟨(if first then [] else [.comma]) ++ .key :: .scalar false k :: ts, depth, handles, anchors,
          nodes⟩ =
      (do
        let i ← node n false false
        let j ← flowValue n [.comma, .flowMappingEnd]
        return (i, j) :: (← flowPairs n false))
        ⟨.scalar false k :: ts, depth, handles, anchors, nodes⟩ := by
  cases first <;> rfl

/-- The value of a member of an object. -/
theorem flowValue_cons (ht : startsNode t = true) (n : Nat) (ts : List Token) (depth : Nat)
    (nodes : Nodes) :
    flowValue (n + 1) [.comma, .flowMappingEnd]
        ⟨.value :: t :: ts, depth, handles, anchors, nodes⟩ =
      node n false false ⟨t :: ts, depth, handles, anchors, nodes⟩ := by
  cases t <;> first | rfl | cases ht

-- ============================================================================
-- Trees
-- ============================================================================

/-- A scalar is one node. -/
theorem node_scalar (isPlain : Bool) (text : String) (n : Nat) (block entries : Bool)
    (ts : List Token) (depth : Nat) (xs : List Node) :
    node (n + 2) block entries ⟨.scalar isPlain text :: ts, depth, handles, anchors, xs.toArray⟩ =
      .ok (xs.length, ⟨ts, depth, handles, anchors,
        (xs ++ [Node.scalar (if isPlain then .ofPlain text else .str) text]).toArray⟩) :=
  node_of_content rfl rfl

/-- The tokens of a tree are not empty, and start a node. -/
theorem exists_tokens_cons (t : Tree) : ∃ u us, t.tokens = u :: us ∧ startsNode u = true := by
  cases t <;> exact ⟨_, _, rfl, rfl⟩

theorem length_itemTokens_pos (ts : List Tree) : 0 < (Tree.itemTokens false ts).length := by
  cases ts <;> simp [Tree.itemTokens]

mutual

/-- Reading the tokens of a tree adds its nodes. -/
theorem node_tree : (t : Tree) → ∀ {n depth : Nat} (block entries : Bool) (rest : List Token)
    (xs : List Node), 2 * t.tokens.length ≤ n → t.depth ≤ depth →
    node n block entries ⟨t.tokens ++ rest, depth, handles, anchors, xs.toArray⟩ =
      .ok (xs.length, ⟨rest, depth, handles, anchors, (xs ++ t.nodes xs.length).toArray⟩)
  | .leaf isPlain text v, n, depth, block, entries, rest, xs, hn, hdepth => by
      obtain ⟨n, rfl⟩ : ∃ m, n = m + 2 := ⟨n - 2, by simp [Tree.tokens] at hn; omega⟩
      exact node_scalar isPlain text n block entries rest depth xs
  | .list ts, n, depth, block, entries, rest, xs, hn, hdepth => by
      rw [Tree.tokens, List.length_cons] at hn
      rw [Tree.depth] at hdepth
      obtain ⟨n, rfl⟩ : ∃ m, n = m + 2 := ⟨n - 2, by omega⟩
      obtain ⟨depth, rfl⟩ : ∃ m, depth = m + 1 := ⟨depth - 1, by omega⟩
      have hitems := flowItems_items ts (n := n) true rest (xs ++ [Node.empty]) (by omega)
        (Nat.le_of_succ_le_succ hdepth)
      rw [List.length_append, List.append_assoc] at hitems
      refine node_of_content rfl ?_
      change (drop >>= fun _ => deeper (flowItems n true) >>= fun is => pure (Node.seq .seq is))
        ⟨.flowSequence :: (Tree.itemTokens true ts ++ rest), _, _, _, _⟩ = _
      rw [bind_ok (drop_cons ..), bind_ok (deeper_ok hitems)]
      rfl
  | .map ms, n, depth, block, entries, rest, xs, hn, hdepth => by
      rw [Tree.tokens, List.length_cons] at hn
      rw [Tree.depth] at hdepth
      obtain ⟨n, rfl⟩ : ∃ m, n = m + 2 := ⟨n - 2, by omega⟩
      obtain ⟨depth, rfl⟩ : ∃ m, depth = m + 1 := ⟨depth - 1, by omega⟩
      have hmembers := flowPairs_members ms (n := n) true rest (xs ++ [Node.empty]) (by omega)
        (Nat.le_of_succ_le_succ hdepth)
      rw [List.length_append, List.append_assoc] at hmembers
      refine node_of_content rfl ?_
      change (drop >>= fun _ => deeper (flowPairs n true) >>= fun ps => pure (Node.map .map ps))
        ⟨.flowMapping :: (Tree.memberTokens true ms ++ rest), _, _, _, _⟩ = _
      rw [bind_ok (drop_cons ..), bind_ok (deeper_ok hmembers)]
      rfl

/-- Reading the tokens of the items of a list adds their nodes. -/
theorem flowItems_items : (ts : List Tree) → ∀ {n depth : Nat} (first : Bool) (rest : List Token)
    (xs : List Node), 2 * (Tree.itemTokens first ts).length ≤ n → Tree.depthItems ts ≤ depth →
    flowItems n first ⟨Tree.itemTokens first ts ++ rest, depth, handles, anchors, xs.toArray⟩ =
      .ok (Tree.itemNumbers xs.length ts,
        ⟨rest, depth, handles, anchors, (xs ++ Tree.itemNodes xs.length ts).toArray⟩)
  | [], n, depth, first, rest, xs, hn, hdepth => by
      obtain ⟨n, rfl⟩ : ∃ m, n = m + 1 := ⟨n - 1, by simp [Tree.itemTokens] at hn; omega⟩
      rw [Tree.itemNodes, List.append_nil]
      rfl
  | t :: ts, n, depth, first, rest, xs, hn, hdepth => by
      rw [Tree.depthItems, Nat.max_le] at hdepth
      obtain ⟨u, us, htokens, hu⟩ := exists_tokens_cons t
      have hpos := length_itemTokens_pos ts
      have hlength := congrArg List.length htokens
      rw [List.length_cons] at hlength
      simp only [Tree.itemTokens, List.length_append] at hn
      obtain ⟨n, rfl⟩ : ∃ m, n = m + 1 := ⟨n - 1, by omega⟩
      have hitem := node_tree t (n := n) false false (Tree.itemTokens false ts ++ rest) xs
        (by omega) hdepth.1
      have hitems := flowItems_items ts (n := n) false rest (xs ++ t.nodes xs.length)
        (by omega) hdepth.2
      rw [List.length_append, Tree.length_nodes, List.append_assoc] at hitems
      rw [htokens, List.cons_append] at hitem
      rw [Tree.itemTokens, htokens, List.append_assoc, List.append_assoc, List.cons_append,
        flowItems_cons hu, bind_ok hitem, bind_ok hitems]
      rfl

/-- Reading the tokens of the members of an object adds the nodes of their keys and values. -/
theorem flowPairs_members : (ms : List (String × Tree)) → ∀ {n depth : Nat} (first : Bool)
    (rest : List Token) (xs : List Node), 2 * (Tree.memberTokens first ms).length ≤ n →
    Tree.depthMembers ms ≤ depth →
    flowPairs n first ⟨Tree.memberTokens first ms ++ rest, depth, handles, anchors, xs.toArray⟩ =
      .ok (Tree.pairNumbers xs.length ms,
        ⟨rest, depth, handles, anchors, (xs ++ Tree.memberNodes xs.length ms).toArray⟩)
  | [], n, depth, first, rest, xs, hn, hdepth => by
      obtain ⟨n, rfl⟩ : ∃ m, n = m + 1 := ⟨n - 1, by simp [Tree.memberTokens] at hn; omega⟩
      rw [Tree.memberNodes, List.append_nil]
      rfl
  | (k, t) :: ms, n, depth, first, rest, xs, hn, hdepth => by
      rw [Tree.depthMembers, Nat.max_le] at hdepth
      obtain ⟨u, us, htokens, hu⟩ := exists_tokens_cons t
      simp only [Tree.memberTokens, List.length_append, List.length_cons] at hn
      have hlength := congrArg List.length htokens
      rw [List.length_cons] at hlength
      obtain ⟨n, rfl⟩ : ∃ m, n = m + 3 := ⟨n - 3, by omega⟩
      have hvalue := node_tree t (n := n + 1) false false (Tree.memberTokens false ms ++ rest)
        (xs ++ [.scalar .str k]) (by omega) hdepth.1
      have hmembers := flowPairs_members ms (n := n + 2) false rest
        (xs ++ [.scalar .str k] ++ t.nodes (xs.length + 1)) (by omega) hdepth.2
      simp only [List.length_append, List.length_singleton, Tree.length_nodes, htokens,
        List.cons_append] at hvalue hmembers
      have hkey : node (n + 2) false false ⟨.scalar false k :: .value :: u ::
          (us ++ (Tree.memberTokens false ms ++ rest)), depth, handles, anchors, xs.toArray⟩ =
          .ok (xs.length, ⟨.value :: u :: (us ++ (Tree.memberTokens false ms ++ rest)), depth,
            handles, anchors, (xs ++ [Node.scalar .str k]).toArray⟩) :=
        node_scalar false k n false false _ depth xs
      have hstate : Tree.memberTokens first ((k, t) :: ms) ++ rest =
          (if first then [] else [.comma]) ++ .key :: .scalar false k :: .value :: u ::
            (us ++ (Tree.memberTokens false ms ++ rest)) := by
        simp [Tree.memberTokens, htokens]
      rw [hstate, flowPairs_cons, bind_ok hkey, bind_ok ((flowValue_cons hu ..).trans hvalue),
        bind_ok hmembers, List.append_assoc, List.append_assoc]
      rfl

end

end Yaml.NodeReader

-- ============================================================================
-- Documents
-- ============================================================================

/-- The tokens of a tree make one document of its nodes. -/
theorem Yaml.NodeGraph.ofTokens_tree (t : Tree) (hdepth : t.depth ≤ maxDepth) :
    NodeGraph.ofTokens t.tokens = .ok (some { nodes := (t.nodes 0).toArray, root := 0 }) := by
  have hread : (NodeReader.bareRoot (4 * t.tokens.length + 4)).run { tokens := t.tokens } =
      .ok (0, { tokens := [], nodes := (t.nodes 0).toArray }) := by
    have h : NodeReader.node (4 * t.tokens.length + 4) true false
        ⟨t.tokens ++ [], maxDepth, [("!", "!"), ("!!", Tag.base)], [], [].toArray⟩ = _ :=
      NodeReader.node_tree t true false [] [] (by omega) hdepth
    rw [List.append_nil] at h
    exact h
  obtain ⟨u, us, htokens, hu⟩ := NodeReader.exists_tokens_cons t
  have hbare : (u.isDirective || u = .documentStart) = false := by
    cases u <;> first | rfl | cases hu
  rw [htokens] at hread ⊢
  simp only [ofTokens, hbare, hread, Bool.false_eq_true, if_false]
  rfl

end Flowscript

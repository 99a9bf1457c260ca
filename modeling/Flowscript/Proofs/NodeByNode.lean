/-
  Flowscript.Proofs.NodeByNode

  Nodes are converted one by one.

  What becomes of nodes is put together from what becomes of each of them alone: fragments
  and warnings one after another, types each once in the order of their first nodes.
  Putting together is associative (`Outcomes.append_assoc`), so a list of nodes may be cut
  anywhere, and no node leaves a trace in the record of another one.  The record of a single
  node has one of two forms (`Registry.NodeRecord`), whatever its converter does.
-/
import Flowscript.Proofs.Aliases
import Flowscript.Proofs.Dispatch

namespace Flowscript

variable {r : Registry} {report : Option Report} {c : Context} {ns xs ys : List Node} {n : Node}
  {o : Node → NodeOutcome} {done : Outcomes} {id type : String}

-- ============================================================================
-- Putting outcomes together
-- ============================================================================

namespace Outcomes

/-- Types, and after them those of others that are not among them. -/
def mergeTypes (ts us : List String) : List String := ts ++ us.filter (· ∉ ts)

/-- What became of some nodes, and after it what became of others. -/
def append (done later : Outcomes) : Outcomes :=
  { fragments := done.fragments ++ later.fragments
    warnings := done.warnings ++ later.warnings
    converted := mergeTypes done.converted later.converted
    unsupported := mergeTypes done.unsupported later.unsupported }

/-- What became of a single node. -/
def ofNode (id : String) (o : NodeOutcome) : Outcomes := ({} : Outcomes).add id o

@[simp] theorem mergeTypes_nil (ts : List String) : mergeTypes ts [] = ts := by
  simp [mergeTypes]

@[simp] theorem nil_mergeTypes (ts : List String) : mergeTypes [] ts = ts := by
  simp [mergeTypes]

theorem mem_mergeTypes {ts us : List String} :
    type ∈ mergeTypes ts us ↔ type ∈ ts ∨ type ∈ us := by
  by_cases h : type ∈ ts <;> simp [mergeTypes, h]

theorem nodup_mergeTypes {ts us : List String} (ht : ts.Nodup) (hu : us.Nodup) :
    (mergeTypes ts us).Nodup := by
  refine List.nodup_append.mpr ⟨ht, hu.sublist List.filter_sublist, ?_⟩
  rintro type hmem _ hother rfl
  exact of_decide_eq_true (List.mem_filter.mp hother).2 hmem

theorem mergeTypes_assoc (ts us vs : List String) :
    mergeTypes (mergeTypes ts us) vs = mergeTypes ts (mergeTypes us vs) := by
  have hnew : ∀ type, type ∉ mergeTypes ts us ↔ type ∉ us ∧ type ∉ ts := fun type => by
    rw [mem_mergeTypes, not_or, and_comm]
  simp only [mergeTypes, List.filter_append, List.filter_filter, List.append_assoc] at hnew ⊢
  simp only [hnew, Bool.decide_and, Bool.and_comm]

theorem addType_eq_mergeTypes (ts : List String) (type : String) :
    addType ts type = mergeTypes ts [type] := by
  unfold addType
  split <;> simp_all [mergeTypes]

@[simp] theorem append_empty (done : Outcomes) : done.append {} = done := by
  simp [append]

@[simp] theorem empty_append (done : Outcomes) : append {} done = done := by
  simp [append]

theorem append_assoc (a b c : Outcomes) : (a.append b).append c = a.append (b.append c) := by
  simp [append, mergeTypes_assoc]

/-- A node of a new id is put after those that are done. -/
theorem add_eq_append (hid : id ∉ done.fragments.map (·.1)) (o : NodeOutcome) :
    done.add id o = done.append (ofNode id o) := by
  have hput := Assoc.put_of_get?_eq_none (v := o.fragments) (Assoc.get?_eq_none_iff.mpr hid)
  cases o with
  | commented type warning f =>
      simp [add, ofNode, append, hput, addType_eq_mergeTypes]
  | converted type fs ws =>
      simp [add, ofNode, append, hput, addType_eq_mergeTypes]

/-- What became of nodes, each of them alone, put together. -/
def ofNodes (o : Node → NodeOutcome) (ns : List Node) : Outcomes :=
  ns.foldr (fun n later => (ofNode n.id (o n)).append later) {}

theorem ofNodes_cons (o : Node → NodeOutcome) (n : Node) (ns : List Node) :
    ofNodes o (n :: ns) = (ofNode n.id (o n)).append (ofNodes o ns) := rfl

theorem ofNodes_append (o : Node → NodeOutcome) (xs ys : List Node) :
    ofNodes o (xs ++ ys) = (ofNodes o xs).append (ofNodes o ys) := by
  induction xs with
  | nil => exact (empty_append _).symm
  | cons n xs ih => rw [List.cons_append, ofNodes_cons, ofNodes_cons, ih, append_assoc]

theorem fragments_ofNodes (o : Node → NodeOutcome) (ns : List Node) :
    (ofNodes o ns).fragments = ns.flatMap fun n => (ofNode n.id (o n)).fragments := by
  induction ns with
  | nil => rfl
  | cons n ns ih => rw [ofNodes_cons, List.flatMap_cons, ← ih]; rfl

theorem warnings_ofNodes (o : Node → NodeOutcome) (ns : List Node) :
    (ofNodes o ns).warnings = ns.flatMap fun n => (ofNode n.id (o n)).warnings := by
  induction ns with
  | nil => rfl
  | cons n ns ih => rw [ofNodes_cons, List.flatMap_cons, ← ih]; rfl

theorem mem_types_ofNodes (o : Node → NodeOutcome) (ns : List Node) (type : String) :
    (type ∈ (ofNodes o ns).converted ↔ ∃ n ∈ ns, type ∈ (ofNode n.id (o n)).converted) ∧
      (type ∈ (ofNodes o ns).unsupported ↔ ∃ n ∈ ns, type ∈ (ofNode n.id (o n)).unsupported) := by
  induction ns with
  | nil => simp [ofNodes]
  | cons n ns ih =>
      rw [ofNodes_cons]
      simp [append, mem_mergeTypes, ih]

theorem nodup_types_ofNodes (o : Node → NodeOutcome) (ns : List Node) :
    (ofNodes o ns).converted.Nodup ∧ (ofNodes o ns).unsupported.Nodup := by
  induction ns with
  | nil => exact ⟨.nil, .nil⟩
  | cons n ns ih =>
      have hone : (ofNode n.id (o n)).converted.Nodup ∧ (ofNode n.id (o n)).unsupported.Nodup := by
        cases h : o n <;> simp [ofNode, add, addType]
      exact ⟨nodup_mergeTypes hone.1 ih.1, nodup_mergeTypes hone.2 ih.2⟩

end Outcomes

open Outcomes (ofNode ofNodes)

/-- Nodes of new and different ids that have outcomes are put after those that are done. -/
theorem Registry.outcomesAfter_eq_ok (ho : ∀ n ∈ ns, r.outcome report c n = .ok (o n))
    (hids : (ns.map (·.id)).Nodup) (hnew : ∀ n ∈ ns, n.id ∉ done.fragments.map (·.1)) :
    r.outcomesAfter report c done ns = .ok (done.append (ofNodes o ns)) := by
  induction ns generalizing done with
  | nil =>
      show Except.ok done = _
      rw [ofNodes, List.foldr_nil, Outcomes.append_empty]
  | cons n ns ih =>
      rw [List.map_cons, List.nodup_cons] at hids
      have hadd := Outcomes.add_eq_append (hnew n List.mem_cons_self) (o n)
      have hfst : (ofNode n.id (o n)).fragments.map (·.1) = [n.id] := by
        cases h : o n <;> rfl
      have hlater : ∀ m ∈ ns, m.id ∉ (done.add n.id (o n)).fragments.map (·.1) := by
        intro m hm
        rw [hadd, Outcomes.append, List.map_append, hfst, List.mem_append, List.mem_singleton]
        rintro (hmem | hsame)
        · exact hnew m (List.mem_cons_of_mem _ hm) hmem
        · exact hids.1 (List.mem_map.mpr ⟨m, hm, hsame⟩)
      rw [outcomesAfter, ho n List.mem_cons_self]
      show outcomesAfter r report c (done.add n.id (o n)) ns = _
      rw [ih (fun m hm => ho m (List.mem_cons_of_mem _ hm)) hids.2 hlater, hadd,
        Outcomes.append_assoc, Outcomes.ofNodes_cons]

theorem Registry.outcomes_eq_ok (ho : ∀ n ∈ ns, r.outcome report c n = .ok (o n))
    (hids : (ns.map (·.id)).Nodup) : r.outcomes report c ns = .ok (ofNodes o ns) := by
  rw [outcomes, outcomesAfter_eq_ok ho hids fun _ _ => List.not_mem_nil, Outcomes.empty_append]

-- ============================================================================
-- The record of a node
-- ============================================================================

/-- The type a node is converted under: the one that its type stands for, or its own. -/
def Registry.typeOf (r : Registry) (n : Node) : String :=
  match r.resolvedType? n.type with
  | some type => if type ≠ "" then type else n.type
  | none => n.type

/-- The node as it is handed to its converter. -/
def Registry.resolve (r : Registry) (n : Node) : Node := { n with type := r.typeOf n }

/-- The node's type has a converter, which accepts the node and makes these fragments of it, and the
report finds nothing missing. -/
def Registry.ConvertsTo (r : Registry) (report : Option Report) (c : Context) (n : Node)
    (fs : List Fragment) : Prop :=
  ∃ conv, r.get? n.type = some conv ∧ conv.accepts (r.resolve n) = true ∧
    Report.missingOf report n.id = [] ∧ conv.convert (r.resolve n) c = .ok fs

/-- What is recorded of a node: a comment in its place, with a warning, and its type as one that is
not supported; or the fragments its converter makes, and its type as one that is converted. -/
inductive Registry.NodeRecord (r : Registry) (report : Option Report) (c : Context) (n : Node) :
    Outcomes → Prop
  | commented (fails : ∀ fs, ¬r.ConvertsTo report c n fs) (reason warning : String) (f : Fragment)
      (placeholder : f = placeholder (r.resolve n) reason) (declares : f.type = .declaration)
      (carries : f.nodeId = some n.id) :
      NodeRecord r report c n
        { fragments := [(n.id, [f])], warnings := [warning], unsupported := [r.typeOf n] }
  | converted (fs : List Fragment) (warnings : List String) (h : r.ConvertsTo report c n fs) :
      NodeRecord r report c n
        { fragments := [(n.id, fs)], warnings, converted := [r.typeOf n] }

namespace Registry

/-- A type without a converter stands for no other one. -/
theorem typeOf_of_get?_eq_none (h : r.get? n.type = none) : r.typeOf n = n.type := by
  unfold typeOf
  cases hresolved : r.resolvedType? n.type with
  | none => rfl
  | some type =>
      unfold resolvedType? at hresolved
      split at hresolved
      · cases hresolved
        exact ite_self _
      · obtain ⟨halias, htype⟩ := Option.filter_eq_some_iff.mp hresolved
        by_cases hempty : type = ""
        · simp [hempty]
        · next hown =>
          rw [get?_of_not_hasType (by simpa using hown), halias, Option.filter_some,
            if_pos (decide_eq_true hempty), Option.bind_some] at h
          rw [hasType_eq_false_iff.mpr h] at htype
          cases htype

theorem resolve_of_get?_eq_none (h : r.get? n.type = none) : r.resolve n = n := by
  rw [resolve, typeOf_of_get?_eq_none h]

theorem outcome_of_get?_eq_some {conv : Converter} (h : r.get? n.type = some conv) :
    r.outcome report c n = conv.outcome report c (r.resolve n) := by
  have htype : (if (r.resolvedType? n.type).getD n.type ≠ "" then
      (r.resolvedType? n.type).getD n.type else n.type) = r.typeOf n := by
    unfold typeOf
    cases r.resolvedType? n.type with
    | none => exact ite_self _
    | some type => rfl
  simp only [outcome, h, htype, resolve]

end Registry

theorem eq_nil_of_textsOf {names : List Scalar} (h : Converter.textsOf names = .ok []) :
    names = [] := by
  cases names with
  | nil => rfl
  | cons s names =>
      rw [Converter.textsOf, List.mapM_cons] at h
      obtain ⟨t, -, h⟩ := bind_eq_ok_iff.mp h
      obtain ⟨ts, -, h⟩ := bind_eq_ok_iff.mp h
      cases h

namespace Converter

variable {conv : Converter} {m : Node} {t : String} {ts : List String} {e : Fault}
  {fs : List Fragment}

theorem outcome_of_rejected (haccepts : conv.accepts m = false) :
    conv.outcome report c m =
      .ok (.comment m ("Converter for '" ++ m.type ++ "' cannot convert this node")
        ("Converter for '" ++ m.type ++ "' rejected node '" ++ m.id ++ "'")) := by
  simp [outcome, haccepts]

theorem outcome_of_missing (haccepts : conv.accepts m = true)
    (hmissing : textsOf (Report.missingOf report m.id) = .ok (t :: ts)) :
    conv.outcome report c m =
      .ok (.comment m ("Missing required parameters (" ++ Text.join ", " (t :: ts) ++ ")")
        ("Node '" ++ m.id ++ "' is missing required parameters: " ++
          Text.join ", " (t :: ts))) := by
  unfold Report.missingOf at hmissing
  cases report <;> simp [outcome, haccepts, hmissing, bind, Except.bind, pure, Except.pure]

theorem outcome_of_failed (haccepts : conv.accepts m = true)
    (hmissing : textsOf (Report.missingOf report m.id) = .ok [])
    (hconvert : conv.convert m c = .error e) :
    conv.outcome report c m =
      .ok (.comment m ("Conversion failed for '" ++ m.type ++ "'")
        ("Converter for '" ++ m.type ++ "' failed on node '" ++ m.id ++ "': " ++ e.message)) := by
  unfold Report.missingOf at hmissing
  cases report <;>
    simp [outcome, haccepts, hmissing, hconvert, bind, Except.bind, pure, Except.pure]

theorem outcome_of_converted (haccepts : conv.accepts m = true)
    (hmissing : textsOf (Report.missingOf report m.id) = .ok [])
    (hconvert : conv.convert m c = .ok fs) :
    conv.outcome report c m = .ok (.converted m.type fs (conv.retirement m.type ++
      if fs.isEmpty then
        ["Converter for '" ++ m.type ++ "' produced no code for node '" ++ m.id ++ "'"]
      else [])) := by
  unfold Report.missingOf at hmissing
  cases report <;> cases fs <;>
    simp [outcome, haccepts, hmissing, hconvert, bind, Except.bind, pure, Except.pure]

end Converter

namespace Registry

/-- A node that cannot be converted has a record with a comment. -/
theorem nodeRecord_comment (fails : ∀ fs, ¬r.ConvertsTo report c n fs) (reason warning : String) :
    r.NodeRecord report c n (ofNode n.id (.comment (r.resolve n) reason warning)) :=
  .commented fails reason warning _ rfl rfl rfl

/-- Every node has one of the two records, if what it lacks is named by texts. -/
theorem exists_nodeRecord (r : Registry) (c : Context) (n : Node)
    (hnames : ∀ s ∈ Report.missingOf report n.id, ∃ t, s = .str t) :
    ∃ o, r.outcome report c n = .ok o ∧ r.NodeRecord report c n (ofNode n.id o) := by
  cases hconv : r.get? n.type with
  | none =>
      have hfails : ∀ fs, ¬r.ConvertsTo report c n fs := by
        rintro fs ⟨conv, hsome, -⟩
        rw [hconv] at hsome
        cases hsome
      have hrecord := nodeRecord_comment hfails ("Unsupported node type '" ++ n.type ++ "'")
        ("Unsupported node type '" ++ n.type ++ "' for node '" ++ n.id ++ "' (" ++ n.caption ++ ")")
      rw [resolve_of_get?_eq_none hconv] at hrecord
      exact ⟨_, by rw [outcome, hconv], hrecord⟩
  | some conv =>
      have hsame : ∀ fs, r.ConvertsTo report c n fs ↔ conv.accepts (r.resolve n) = true ∧
          Report.missingOf report n.id = [] ∧ conv.convert (r.resolve n) c = .ok fs := by
        simp [ConvertsTo, hconv]
      rw [outcome_of_get?_eq_some hconv]
      cases haccepts : conv.accepts (r.resolve n) with
      | false =>
          rw [Converter.outcome_of_rejected haccepts]
          refine ⟨_, rfl, nodeRecord_comment (fun fs h => ?_) _ _⟩
          rw [((hsame fs).mp h).1] at haccepts
          cases haccepts
      | true =>
          obtain ⟨ts, hts⟩ := exists_textsOf hnames
          cases ts with
          | cons t ts =>
              rw [Converter.outcome_of_missing haccepts hts]
              refine ⟨_, rfl, nodeRecord_comment (fun fs h => ?_) _ _⟩
              rw [((hsame fs).mp h).2.1] at hts
              cases hts
          | nil =>
              cases hconvert : conv.convert (r.resolve n) c with
              | error e =>
                  rw [Converter.outcome_of_failed haccepts hts hconvert]
                  refine ⟨_, rfl, nodeRecord_comment (fun fs h => ?_) _ _⟩
                  rw [((hsame fs).mp h).2.2] at hconvert
                  cases hconvert
              | ok fs =>
                  rw [Converter.outcome_of_converted haccepts hts hconvert]
                  have hmissing := eq_nil_of_textsOf hts
                  exact ⟨_, rfl, .converted fs _ ((hsame fs).mpr ⟨haccepts, hmissing, hconvert⟩)⟩

-- ============================================================================
-- Nodes together
-- ============================================================================

/-- What the report of a graph finds missing is named by texts, if all parameters are. -/
theorem text_of_mem_missingOf {g : Graph} (h : g.TextNames) (r : Registry) (id : String) :
    ∀ s ∈ Report.missingOf (some (r.check g)) id, ∃ t, s = .str t := by
  intro s hs
  obtain ⟨n, hn, -, ⟨rule, -, rfl⟩ | ⟨p, hp, -, rfl⟩⟩ := exists_of_mem_missing hs
  · exact ⟨rule.name, rfl⟩
  · exact h n hn p hp

/-- Nodes of different ids are all converted, whatever becomes of any of them, if what a report
finds missing in them is named by texts.  Each has the record it has alone, which is one of a
comment or one of its converter's fragments, and the records stand in the order of the nodes; types
are recorded once.  What becomes of nodes in two parts is put together from what becomes of each
part. -/
theorem outcomes_node_by_node (r : Registry) (report : Option Report) (c : Context)
    (ns : List Node) (hids : (ns.map (·.id)).Nodup)
    (hnames : ∀ n ∈ ns, ∀ s ∈ Report.missingOf report n.id, ∃ t, s = .str t) :
    ∃ (all : Outcomes) (alone : Node → Outcomes), r.outcomes report c ns = .ok all ∧
      (∀ n ∈ ns, r.outcomes report c [n] = .ok (alone n) ∧ r.NodeRecord report c n (alone n)) ∧
      all.fragments = (ns.flatMap fun n => (alone n).fragments) ∧
      all.fragments.map (·.1) = ns.map (·.id) ∧
      all.warnings = (ns.flatMap fun n => (alone n).warnings) ∧
      all.converted.Nodup ∧ all.unsupported.Nodup ∧
      (∀ type, (type ∈ all.converted ↔ ∃ n ∈ ns, type ∈ (alone n).converted) ∧
        (type ∈ all.unsupported ↔ ∃ n ∈ ns, type ∈ (alone n).unsupported)) ∧
      ∀ xs ys, ns = xs ++ ys → ∃ first rest, r.outcomes report c xs = .ok first ∧
        r.outcomes report c ys = .ok rest ∧ all = first.append rest := by
  have hrecords : ∀ n, ∃ o, n ∈ ns →
      r.outcome report c n = .ok o ∧ r.NodeRecord report c n (ofNode n.id o) := by
    intro n
    by_cases hn : n ∈ ns
    · obtain ⟨o, ho⟩ := exists_nodeRecord r c n (hnames n hn)
      exact ⟨o, fun _ => ho⟩
    · exact ⟨default, fun h => absurd h hn⟩
  choose o ho using hrecords
  have hpart : ∀ xs, xs.Sublist ns → r.outcomes report c xs = .ok (ofNodes o xs) := fun xs hxs =>
    outcomes_eq_ok (fun n hn => (ho n (hxs.mem hn)).1) (hids.sublist (hxs.map _))
  have hsingle : ∀ n, ofNodes o [n] = ofNode n.id (o n) := fun n => Outcomes.append_empty _
  refine ⟨ofNodes o ns, fun n => ofNode n.id (o n), hpart ns (List.Sublist.refl ns),
    fun n hn => ⟨?alone, (ho n hn).2⟩, Outcomes.fragments_ofNodes o ns, ?ids,
    Outcomes.warnings_ofNodes o ns, (Outcomes.nodup_types_ofNodes o ns).1,
    (Outcomes.nodup_types_ofNodes o ns).2, Outcomes.mem_types_ofNodes o ns, fun xs ys hns => ?parts⟩
  case alone =>
    show r.outcomes report c [n] = .ok (ofNode n.id (o n))
    rw [← hsingle, hpart [n] (List.singleton_sublist.mpr hn)]
  case ids =>
    have hid : ∀ n : Node, (ofNode n.id (o n)).fragments.map (·.1) = [n.id] := fun n => by
      cases o n <;> rfl
    rw [Outcomes.fragments_ofNodes, List.map_flatMap]
    simp only [hid, ← List.map_eq_flatMap]
  case parts =>
    refine ⟨ofNodes o xs, ofNodes o ys, hpart xs ?_, hpart ys ?_, ?_⟩
    · rw [hns]
      exact List.sublist_append_left xs ys
    · rw [hns]
      exact List.sublist_append_right xs ys
    · rw [hns, Outcomes.ofNodes_append]

/-- Converters of which the first is out of use and needs a key, the second accepts no node, the
third always fails and the last makes no code. -/
def mixed : Registry := empty.addAll [
  { nodeType := "tool", aliases := ["old"], deprecated := true
    rules := [{ name := "key", required := true }]
    convert := fun n _ => .ok [{ id := n.id, type := .declaration, content := n.id }] },
  { nodeType := "picky", accepts := fun _ => false, convert := fun _ _ => .ok [] },
  { nodeType := "broken", convert := fun _ _ => .error (.stated "boom") },
  .silent "quiet" []]

/-- A node for each of them, one of an alias, and one of a type without a converter. -/
def mixedGraph : Graph :=
  { nodes := [{ id := "a", type := "tool" }, { id := "b", type := "picky" },
      { id := "c", type := "old"
        parameters := [(.str "key", { name := .str "key", value := .string "k" })] },
      { id := "d", type := "broken" }, { id := "e", type := "quiet" },
      { id := "f", type := "odd" }] }

/-- The node without a key and the node of the alias are of the same type, one of them converted and
the other one not. -/
theorem mixed_node_by_node :
    ∃ all : Outcomes,
      mixed.outcomes (some (mixed.check mixedGraph)) {} mixedGraph.nodes = .ok all ∧
        all.fragments.map (·.1) = ["a", "b", "c", "d", "e", "f"] ∧
        all.converted = ["tool", "quiet"] ∧
        all.unsupported = ["tool", "picky", "broken", "odd"] ∧ all.warnings.length = 6 ∧
        all.converted.Nodup ∧ all.unsupported.Nodup := by
  have hnames : mixedGraph.TextNames := by simp [Graph.TextNames, mixedGraph]
  obtain ⟨all, alone, hall, hrecords, -, hids, -, hconverted, hunsupported, -⟩ :=
    outcomes_node_by_node mixed (some (mixed.check mixedGraph)) {} mixedGraph.nodes (by decide)
      fun n _ => text_of_mem_missingOf hnames mixed n.id
  have hcomputed : mixed.outcomes (some (mixed.check mixedGraph)) {} mixedGraph.nodes = .ok _ := rfl
  rw [hcomputed] at hall
  cases hall
  exact ⟨_, hcomputed, hids, rfl, rfl, rfl, hconverted, hunsupported⟩

end Registry

end Flowscript

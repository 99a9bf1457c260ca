/-
  Flowscript.Proofs.LoadedConversion

  How the conversion of a loaded graph ends.

  The parameters of a graph that comes from a plain document hold plain values, so none of
  them never ends.  What is left to keep the graph from being converted or refused are
  names: that of the workflow, and those of parameters that have to be given and are not.
-/
import Flowscript.Proofs.Aliases
import Flowscript.Proofs.Conversion
import Flowscript.Proofs.DocumentFlaws
import Flowscript.Proofs.GatheredParameters

namespace Flowscript

-- ============================================================================
-- Plain parameters
-- ============================================================================

/-- What the value of a parameter holds is plain. -/
def ParameterValue.isPlain : ParameterValue → Bool
  | .object es => (Value.map es).isPlain
  | .array xs => (Value.list xs).isPlain
  | _ => true

/-- All parameters have plain values. -/
def Parameters.HoldPlain (ps : Parameters) : Prop := ∀ e ∈ ps, e.2.value.isPlain = true

/-- All parameters of all nodes have plain values. -/
def Graph.HoldsPlain (g : Graph) : Prop := ∀ n ∈ g.nodes, n.parameters.HoldPlain

theorem ParameterValue.isPlain_ofValue {v : Value} (hv : v.isPlain = true) :
    (ofValue v).isPlain = true := by
  unfold ofValue
  rw [Value.opened_of_isPlain hv]
  cases v with
  | scalar s => cases s <;> rfl
  | list xs => exact hv
  | map es => exact hv
  | _ => cases hv

theorem Parameters.HoldPlain.add {ps : Parameters} (h : ps.HoldPlain) {p : Parameter}
    (hp : p.value.isPlain = true) : (ps.add p).HoldPlain :=
  forall_mem_add (P := fun p => p.value.isPlain = true) h hp

-- ============================================================================
-- Loaded graphs
-- ============================================================================

namespace Document

open Entries (field?)
open Value (isPlain_list isPlain_map isPlain_of_get? isPlain_of_field? opened_of_isPlain
  map_opened_of_isPlain map_opened_field?)

variable {v : Value} {v? : Option Value} {es data inputs : Entries} {ps : Parameters}
  {vs : List Value}

theorem described_givesPlain (name : String) (hes : (Value.map es).isPlain = true) :
    GivesOnly (fun p => p.value.isPlain = true) (described name es) := by
  refine .bind fun value hvalue => .bind fun _ _ => .bind fun _ _ => .ok ?_
  rw [eq_ofValue_of_parameterValue hvalue]
  exact ParameterValue.isPlain_ofValue (isPlain_describedValue hes)

theorem listed_givesPlain (node : String) (hps : ps.HoldPlain) (index : Nat)
    (hvs : ∀ v ∈ vs, v.isPlain = true) :
    GivesOnly Parameters.HoldPlain (listed node ps index vs) := by
  induction vs generalizing ps index with
  | nil => exact .ok hps
  | cons v vs ih =>
      have hv := hvs v List.mem_cons_self
      rw [listed, opened_of_isPlain hv]
      cases v with
      | map es =>
          simp only
          cases field? es "name" with
          | none => exact .error _
          | some n =>
              refine .bind fun name _ => .bind fun p hp => ?_
              exact ih (hps.add (described_givesPlain name hv p hp)) _
                fun v hv => hvs v (List.mem_cons_of_mem _ hv)
      | _ => exact .error _

theorem entryParameter_givesPlain (key : Scalar) (hv : v.isPlain = true) :
    GivesOnly (fun p => p.value.isPlain = true) (entryParameter key v) := by
  refine .bind fun name _ => ?_
  rw [opened_of_isPlain hv]
  cases v with
  | map es =>
      cases hdescription : isDescription es with
      | true =>
          simp only [hdescription, if_true]
          exact described_givesPlain name hv
      | false =>
          simp only [hdescription, Bool.false_eq_true, if_false]
          exact .ok hv
  | set _ => cases hv
  | _ => exact .ok (ParameterValue.isPlain_ofValue hv)

theorem plainParameters_givesPlain (node : String) (hv : ∀ v, v? = some v → v.isPlain = true) :
    GivesOnly Parameters.HoldPlain (plainParameters node v?) := by
  have hempty : Parameters.HoldPlain [] := fun e he => nomatch he
  unfold plainParameters
  rw [map_opened_of_isPlain hv]
  split
  · exact .ok hempty
  · exact .ok hempty
  · exact listed_givesPlain node hempty 0 (isPlain_list.mp (hv _ rfl))
  · refine .foldlM (fun ps e he hps => ?_) hempty
    exact .map (entryParameter_givesPlain e.1 (isPlain_map.mp (hv _ rfl) e he).2)
      fun p hp => hps.add hp
  · exact .error _

theorem isPlain_of_declared {p : Parameter} (hdata : (Value.map data).isPlain = true)
    (hinputs : (Value.map inputs).isPlain = true) (hv : v.isPlain = true)
    (h : declared data (.ok inputs) v = .ok (some p)) : p.value.isPlain = true := by
  obtain ⟨es, name, entry, value, hes, -, hentry, hvalue, -, hp⟩ := declared_eq_some h
  rw [opened_of_isPlain hv] at hes
  subst hes
  have hgiven := isPlain_givenValue hinputs hv name
  have hentryPlain := isPlain_of_declaredEntry hdata hgiven hentry
  rw [hp]
  exact ParameterValue.isPlain_ofValue (isPlain_of_settled hentryPlain hvalue)

theorem declarations_givesPlain (hdata : (Value.map data).isPlain = true) :
    GivesOnly (fun specs => ∀ v ∈ specs, v.isPlain = true)
      (declarations (field? data "inputParams")) := by
  rw [declarations_eq hdata]
  split
  · exact .ok fun v hv => nomatch hv
  · next xs hxs => exact .ok (isPlain_list.mp (isPlain_of_filled? hdata hxs).1)
  · next es hes =>
    refine .ok fun v hv => ?_
    obtain ⟨e, he, rfl⟩ := List.mem_map.mp hv
    exact (isPlain_map.mp (isPlain_of_filled? hdata hes).1 e he).1
  · refine .ok fun v hv => ?_
    obtain ⟨c, -, rfl⟩ := List.mem_map.mp hv
    rfl
  · exact .error _

theorem exportedParameters_givesPlain (hdata : (Value.map data).isPlain = true) :
    GivesOnly Parameters.HoldPlain (exportedParameters data) := by
  have hnone : Parameters.HoldPlain [] := fun e he => nomatch he
  refine exportedParameters_gives hnone ?_ ?_
  · intro specs inputs hspecs hinputs ps hps spec hspec p hp
    have hplain := declarations_givesPlain hdata specs hspecs spec hspec
    exact hps.add (isPlain_of_declared hdata (isPlain_of_inputEntries hdata hinputs) hplain hp)
  · intro inputs hinputs ps hps e he _ _
    have hplain := isPlain_map.mp (isPlain_of_inputEntries hdata hinputs) e he
    exact hps.add (ParameterValue.isPlain_ofValue hplain.2)

theorem node_givesPlain (index : Nat) (hv : v.isPlain = true) :
    GivesOnly (fun n => n.parameters.HoldPlain) (Document.node index v) := by
  unfold Document.node
  rw [opened_of_isPlain hv]
  cases v with
  | map es =>
      have hfield (name : String) (v : Value) (h : field? es name = some v) : v.isPlain = true :=
        isPlain_of_field? hv h
      simp only [map_opened_field? hv]
      split
      · next data hdata =>
        refine .bind fun id _ => ?_
        split
        · exact .error _
        · refine .bind fun _ _ => .bind fun _ _ => .bind fun _ _ => .bind fun ps hps => ?_
          exact .bind fun _ _ => .ok (exportedParameters_givesPlain (hfield _ _ hdata) ps hps)
      · refine .bind fun id _ => ?_
        split
        · exact .error _
        · refine .bind fun _ _ => .bind fun _ _ => .bind fun _ _ => .bind fun ps hps => ?_
          exact .bind fun _ _ => .ok (plainParameters_givesPlain id (hfield _) ps hps)
  | _ => exact .error _

theorem readAll_gives {α : Type} {P : α → Prop} {read : Nat → Value → Except Fault α}
    (hread : ∀ index v, v.isPlain = true → GivesOnly P (read index v)) (index : Nat)
    (hvs : ∀ v ∈ vs, v.isPlain = true) :
    GivesOnly (fun xs => ∀ x ∈ xs, P x) (readAll read index vs) := by
  induction vs generalizing index with
  | nil => exact .ok fun x hx => nomatch hx
  | cons v vs ih =>
      refine .bind fun x hx => .bind fun xs hxs => .ok fun y hy => ?_
      rcases List.mem_cons.mp hy with rfl | hy
      · exact hread index v (hvs v List.mem_cons_self) y hx
      · exact ih (index + 1) (fun v hv => hvs v (List.mem_cons_of_mem _ hv)) xs hxs y hy

/-- The nodes of a plain document's graph have parameters with plain values. -/
theorem graph_holdsPlain (hv : v.isPlain = true) : GivesOnly Graph.HoldsPlain (graph v) := by
  unfold graph
  rw [opened_of_isPlain hv]
  cases v with
  | map data =>
      have hnodes := isPlain_elements hv "nodes"
      simp only [opened_of_isPlain hnodes]
      split
      · next nodes connections heq _ =>
        rw [heq] at hnodes
        refine .bind fun ns hns => .bind fun ks _ => .bind fun metadata _ => .ok ?_
        exact readAll_gives (fun i _ => node_givesPlain i) 0 (isPlain_list.mp hnodes) ns hns
      · exact .error _
  | _ => exact .error _

end Document

-- ============================================================================
-- Interfaces
-- ============================================================================

mutual

theorem Value.obstacle?_of_isPlain : (v : Value) → v.isPlain = true →
    Script.Shape.obstacle? v = none
  | .scalar _, _ => rfl
  | .map _, _ => rfl
  | .list xs, h => Value.firstObstacle?_of_isPlain xs (Value.isPlain_list.mp h)

theorem Value.firstObstacle?_of_isPlain : (xs : List Value) → (∀ x ∈ xs, x.isPlain = true) →
    Script.Shape.firstObstacle? xs = none
  | [], _ => rfl
  | x :: xs, h => by
      rw [Script.Shape.firstObstacle?, obstacle?_of_isPlain x (h x List.mem_cons_self),
        firstObstacle?_of_isPlain xs fun x hx => h x (List.mem_cons_of_mem _ hx)]
      rfl

end

/-- The interfaces of a graph whose parameters have plain values end. -/
theorem Graph.HoldsPlain.ends {g : Graph} (h : g.HoldsPlain) :
    g.bound.untyped? ≠ some .endless := by
  intro hendless
  obtain ⟨⟨n, p⟩, hp, e, he, hobstacle⟩ := exists_endless hendless
  obtain ⟨hn, k, hk⟩ := exists_of_mem_objectParameters hp
  obtain ⟨m, hm, rfl⟩ := List.mem_map.mp hn
  have hplain : p.value.isPlain = true := h m hm (k, p) hk
  cases hvalue : p.value with
  | object es =>
      rw [hvalue] at hplain he
      rw [Value.obstacle?_of_isPlain e.2 (Value.isPlain_map.mp hplain e he).2] at hobstacle
      cases hobstacle
  | _ =>
      rw [hvalue] at he
      cases he

-- ============================================================================
-- Names that cannot be listed
-- ============================================================================

variable {r : Registry} {g : Graph} {c : Context} {report : Option Report} {done : Outcomes}
  {n : Node} {ns : List Node} {conv : Converter} {e : Fault}

theorem Converter.textsOf_failsOnly (names : List Scalar) :
    FailsOnly (· = .unfit .shape) (textsOf names) := by
  refine .mapM names fun s _ => ?_
  split
  · exact .ok _
  · exact .error rfl

theorem Converter.textsOf_cons (s : Scalar) (names : List Scalar) :
    textsOf (s :: names) = (match s with
      | .str t => .ok t
      | _ => .error (.unfit .shape)) >>= fun t => textsOf names >>= fun ts => .ok (t :: ts) := by
  unfold textsOf
  rw [List.mapM_cons]
  rfl

theorem Converter.textsOf_eq_error {names : List Scalar} {s : Scalar} (hs : s ∈ names)
    (htext : ∀ t, s ≠ .str t) : textsOf names = .error (.unfit .shape) := by
  induction names with
  | nil => cases hs
  | cons s' names ih =>
      rw [textsOf_cons]
      cases s' with
      | str t =>
          rcases List.mem_cons.mp hs with rfl | hs
          · exact absurd rfl (htext t)
          · rw [ih hs]
            rfl
      | _ => rfl

theorem Converter.outcome_failsOnly (n : Node) :
    FailsOnly (· = .unfit .shape) (conv.outcome report c n) := by
  unfold Converter.outcome
  split
  · exact .ok _
  · refine .bind (textsOf_failsOnly _) fun missing _ => ?_
    split
    · exact .ok _
    · split <;> exact .ok _

theorem Registry.outcome_failsOnly (n : Node) :
    FailsOnly (· = .unfit .shape) (r.outcome report c n) := by
  unfold Registry.outcome
  split
  · exact .ok _
  · exact Converter.outcome_failsOnly _

/-- One node whose outcome is an error is enough to end the conversion of all. -/
theorem Registry.outcomesAfter_eq_error (hn : n ∈ ns)
    (ho : r.outcome report c n = .error e) :
    r.outcomesAfter report c done ns = .error (.unfit .shape) := by
  induction ns generalizing done with
  | nil => cases hn
  | cons m ns ih =>
      rw [Registry.outcomesAfter]
      cases hm : r.outcome report c m with
      | error e' =>
          rw [Registry.outcome_failsOnly m e' hm]
          rfl
      | ok o =>
          rcases List.mem_cons.mp hn with rfl | hn
          · rw [ho] at hm
            cases hm
          · exact ih hn

/-- What a node lacks is missing in the report, if no converter asks for it. -/
theorem Registry.mem_missing (hn : n ∈ g.nodes) {p : Scalar × Parameter} (hp : p ∈ n.parameters)
    (hlacking : p.2.isLacking = true) (hname : ∀ t, p.2.name ≠ .str t) :
    p.2.name ∈ (r.check g).missing n.id := by
  have herror : (⟨n.id, p.2.name, .required⟩ : ParameterError) ∈
      n.parameterErrors (r.rulesOf n) := by
    refine List.mem_append_right _ (List.mem_filterMap.mpr ⟨p.2, List.mem_map_of_mem hp, ?_⟩)
    have hasked : (r.rulesOf n).any (fun s => p.2.name = .str s.name) = false := by
      rw [List.any_eq_false]
      intro rule _ h
      exact hname _ (of_decide_eq_true h)
    rw [Parameter.isLacking, Bool.and_eq_true, Bool.not_eq_true'] at hlacking
    rw [hasked, hlacking.1, hlacking.2]
    rfl
  have hreported : (⟨n.id, p.2.name, .required⟩ : ParameterError) ∈ (r.check g).parameterErrors :=
    List.mem_flatMap.mpr ⟨n, hn, herror⟩
  refine List.mem_map.mpr ⟨⟨n.id, p.2.name, .required⟩, List.mem_filter.mpr ⟨?_, ?_⟩, rfl⟩
  · exact List.mem_filter.mpr ⟨hreported, decide_eq_true rfl⟩
  · exact decide_eq_true rfl

/-- A converter accepts the nodes of its type. -/
def Converter.AcceptsOwn (c : Converter) : Prop := ∀ n : Node, n.type = c.nodeType → c.accepts n = true

/-- All converters of a registry accept the nodes of their types. -/
def Registry.AcceptsOwn (r : Registry) : Prop := ∀ type c, r.get? type = some c → c.AcceptsOwn

/-- A node of a known type whose missing parameters cannot be listed has an error for an outcome. -/
theorem Registry.outcome_eq_error {report : Report} (hr : r.Consistent) (haccepts : r.AcceptsOwn)
    (hknown : (r.get? n.type).isSome = true)
    (hmissing : Converter.textsOf (report.missing n.id) = .error e) :
    r.outcome (some report) c n = .error e := by
  obtain ⟨conv, hconv⟩ := Option.isSome_iff_exists.mp hknown
  cases hresolved : r.resolvedType? n.type with
  | none =>
      rw [hr.get?_eq_none hresolved] at hconv
      cases hconv
  | some type =>
      have hentry := (hr.get?_of_resolvedType? hresolved).symm.trans hconv
      have htype : conv.nodeType = type := hr.own_type _ (Assoc.mem_of_get? hentry)
      have hne : type ≠ "" := hr.ne_empty (hr.hasType_of_resolvedType? hresolved)
      have haccepted := haccepts _ _ hconv { n with type } htype.symm
      unfold Registry.outcome
      simp only [hconv, hresolved, Option.getD_some, if_pos hne]
      unfold Converter.outcome
      rw [haccepted]
      simp only [hmissing]
      rfl

/-- A converter that accepts its type and its aliases accepts its type. -/
theorem Converter.acceptsOwn_of_eq
    (h : conv.accepts = fun n => n.type = conv.nodeType || n.type ∈ conv.aliases) :
    conv.AcceptsOwn := by
  intro n hn
  rw [h]
  simp [hn]

theorem Registry.acceptsOwn_standard : standard.AcceptsOwn := by
  intro type conv h
  refine forall_mem_of_families ?model ?prompt ?chain ?memory ?tool conv
    (mem_standardConverters_of_get? h)
  all_goals
    intros
    exact Converter.acceptsOwn_of_eq rfl

-- ============================================================================
-- How a conversion ends
-- ============================================================================

/-- A node lacks a parameter whose name is of a kind. -/
def Node.Lacks (n : Node) (P : Scalar → Prop) : Prop :=
  ∃ p ∈ n.parameters, p.2.isLacking = true ∧ P p.2.name

/-- The name is no text. -/
def Scalar.IsTextless (s : Scalar) : Prop := ∀ t, s ≠ .str t

/-- The name of the workflow, or of a parameter that some node lacks, is or has an integer too long
for a text. -/
def Graph.IsLongNamed (g : Graph) : Prop :=
  g.hasLongName = true ∨ ∃ n ∈ g.nodes, n.Lacks fun name => name.isLongInteger = true

/-- How a graph can be left neither converted nor refused: a name is too long for a text, or the
graph is valid, and a node of a known type lacks a parameter that has no text for a name. -/
def Graph.AbortsWith (r : Registry) (g : Graph) (e : Fault) : Prop :=
  (g.IsLongNamed ∧ e = .malformed) ∨
  (¬ g.IsLongNamed ∧ g.IsValid ∧
    (∃ n ∈ g.nodes, (r.get? n.type).isSome = true ∧ n.Lacks Scalar.IsTextless) ∧ e = .unfit .shape)

theorem Report.hasLongParameter_iff :
    (r.check g).hasLongParameter = true ↔
      ∃ n ∈ g.nodes, n.Lacks fun name => name.isLongInteger = true := by
  rw [Report.hasLongParameter, List.any_eq_true]
  constructor
  · rintro ⟨e, he, hlong⟩
    obtain ⟨n, hn, hen⟩ := List.mem_flatMap.mp he
    rcases (Node.of_mem_parameterErrors hen).2 with ⟨rule, -, hname⟩ | ⟨p, hp, hlacking, hname⟩
    · rw [hname] at hlong
      cases hlong
    · exact ⟨n, hn, p, hp, hlacking, hname ▸ hlong⟩
  · rintro ⟨n, hn, p, hp, hlacking, hlong⟩
    have htextless : ∀ t, p.2.name ≠ .str t := by
      intro t ht
      rw [ht] at hlong
      cases hlong
    obtain ⟨e, he, hname⟩ := List.mem_map.mp (Registry.mem_missing (r := r) hn hp hlacking htextless)
    exact ⟨e, (List.mem_filter.mp (List.mem_filter.mp he).1).1, hname ▸ hlong⟩

/-- No name is too long for a text if neither that of the workflow nor that of a parameter in the
report is. -/
theorem Graph.isLongNamed_iff (r : Registry) :
    g.IsLongNamed ↔ g.hasLongName = true ∨ (r.check g).hasLongParameter = true := by
  rw [Report.hasLongParameter_iff, IsLongNamed]

/-- What nodes of known types lack is named by texts, unless one of them lacks something that has no
text for a name. -/
theorem Graph.textsLacking_of_not_exists
    (h : ¬ ∃ n ∈ g.nodes, (r.get? n.type).isSome = true ∧ n.Lacks Scalar.IsTextless) :
    g.TextsLacking r := by
  intro n hn hknown p hp hlacking
  by_contra htext
  push Not at htext
  exact h ⟨n, hn, hknown, p, hp, hlacking, htext⟩

/-- A valid graph of which a node of a known type lacks something without a text for a name is not
drafted. -/
theorem draft_eq_unfit (hr : r.Consistent) (haccepts : r.AcceptsOwn) (hname : g.hasLongName = false)
    (hshort : (r.check g).hasLongParameter = false) (hvalid : (r.check g).refusal? = none)
    (hn : n ∈ g.nodes) (hknown : (r.get? n.type).isSome = true)
    (hlacks : n.Lacks Scalar.IsTextless) (s : Strategy) :
    r.draft s g c = .error (.unfit .shape) := by
  obtain ⟨p, hp, hlacking, htextless⟩ := hlacks
  have hmissing : Converter.textsOf ((r.check g).missing n.id) = .error (.unfit .shape) :=
    Converter.textsOf_eq_error (Registry.mem_missing hn hp hlacking htextless) htextless
  have hacyclic : g.Acyclic :=
    (acyclic_iff_cycles_eq_nil (joins_of_valid hvalid)).mpr (cycles_eq_nil_of_valid hvalid)
  obtain ⟨ordered, hordered⟩ := exists_order_of_acyclic hacyclic s
  have horder := isOrder_of_order hordered
  -- the node comes up in the order, bound but otherwise as it is
  have hbound : g.bind n g.varNames ∈ g.bound.inOrder ordered := by
    obtain ⟨m, hm, hid⟩ := List.mem_map.mp (horder.complete n.id (List.mem_map_of_mem hn))
    have hnode : g.node? m.id = some n := hid ▸ node?_of_valid hvalid hn
    obtain rfl : m = n := Option.some.inj ((horder.first m hm).symm.trans hnode)
    rw [horder.inOrder_bound]
    exact List.mem_map_of_mem hm
  have houtcome : r.outcome (some (r.check g)) c (g.bind n g.varNames) = .error (.unfit .shape) :=
    Registry.outcome_eq_error hr haccepts hknown hmissing
  have houtcomes : r.outcomes (some (r.check g)) c (g.bound.inOrder ordered) =
      .error (.unfit .shape) := Registry.outcomesAfter_eq_error hbound houtcome
  rw [draft_eq_stages hname hshort, hvalid, hordered]
  show (r.outcomes (some (r.check g)) c (g.bound.inOrder ordered) >>= _) = _
  rw [houtcomes]
  rfl

theorem convert_of_abortsWith (hr : r.Consistent) (haccepts : r.AcceptsOwn)
    (h : g.AbortsWith r e) (s : Strategy) (c : Context) : r.convert s g c = .error e := by
  rcases h with ⟨hlong, rfl⟩ | ⟨hshort, hvalid, ⟨n, hn, hknown, hlacks⟩, rfl⟩
  · exact convert_of_draft_error (draft_eq_malformed ((Graph.isLongNamed_iff r).mp hlong) s c)
  · rw [Graph.isLongNamed_iff r, not_or, Bool.not_eq_true, Bool.not_eq_true] at hshort
    have hnone : (r.check g).refusal? = none :=
      Report.refusal?_eq_none_iff.mpr (Graph.structureErrors_eq_nil_iff.mpr hvalid)
    exact convert_of_draft_error
      (draft_eq_unfit hr haccepts hshort.1 hshort.2 hnone hn hknown hlacks s)

/-- A graph of plain values is converted or refused, unless its conversion is aborted. -/
theorem converted_or_refused (hfits : r.Fits) (hplain : g.HoldsPlain) (h : ∀ e, ¬ g.AbortsWith r e)
    (s : Strategy) (c : Context) :
    (∃ p, r.convert s g c = .ok p) ∨ ∃ refusal, r.convert s g c = .error (.refused refusal) := by
  have hshort : ¬ g.IsLongNamed := fun hlong => h .malformed (.inl ⟨hlong, rfl⟩)
  have hnames := hshort
  rw [Graph.isLongNamed_iff r, not_or, Bool.not_eq_true, Bool.not_eq_true] at hnames
  cases hrefusal : (r.check g).refusal? with
  | some refusal =>
      exact .inr ⟨refusal, convert_of_draft_error (draft_eq_refused hnames.1 hnames.2 hrefusal s c)⟩
  | none =>
      have hlacking : g.TextsLacking r := Graph.textsLacking_of_not_exists fun hexists =>
        h _ (.inr ⟨hshort, isValid_of_refusal?_eq_none hrefusal, hexists, rfl⟩)
      obtain ⟨d, hd⟩ := exists_draft_of_textsLacking hfits hlacking hnames.1 hnames.2 hrefusal s c
      obtain ⟨p, hp, -⟩ := exists_convert hd hplain.ends
      exact .inl ⟨p, hp⟩

/-- With the built-in converters, whatever the strategy and the options, the graph of a plain
document is converted or refused unless a name in it aborts the conversion, and the conversion ends
with a fault other than a refusal exactly if a name aborts it with that fault. -/
theorem loaded_graph_converted_or_refused (document : Value) (hplain : document.isPlain = true)
    (g : Graph) (hg : Document.graph document = .ok g) (s : Strategy) (c : Context) :
    ((∃ p, Registry.standard.convert s g c = .ok p) ∨
        (∃ refusal, Registry.standard.convert s g c = .error (.refused refusal)) ↔
      ∀ e, ¬ g.AbortsWith Registry.standard e) ∧
    ∀ e, (∀ refusal, e ≠ .refused refusal) →
      (Registry.standard.convert s g c = .error e ↔ g.AbortsWith Registry.standard e) := by
  have hends := fun h => converted_or_refused Registry.fits_standard
    (Document.graph_holdsPlain hplain g hg) h s c
  have haborts : ∀ e, g.AbortsWith Registry.standard e →
      Registry.standard.convert s g c = .error e := fun e h =>
    convert_of_abortsWith Registry.reachable_standard.consistent Registry.acceptsOwn_standard h s c
  have hfault : ∀ e, g.AbortsWith Registry.standard e → ∀ refusal, e ≠ .refused refusal := by
    rintro e (⟨-, rfl⟩ | ⟨-, -, -, rfl⟩) refusal h <;> cases h
  constructor
  · refine ⟨?_, hends⟩
    rintro (⟨p, hp⟩ | ⟨refusal, hrefusal⟩) e he
    · rw [haborts e he] at hp
      cases hp
    · exact hfault e he refusal (Except.error.inj ((haborts e he).symm.trans hrefusal))
  · intro e hrefused
    refine ⟨fun h => ?_, haborts e⟩
    by_contra hnot
    have hnone : ∀ e', ¬ g.AbortsWith Registry.standard e' := by
      intro e' he'
      obtain rfl : e' = e := Except.error.inj ((haborts e' he').symm.trans h)
      exact hnot he'
    rcases hends hnone with ⟨p, hp⟩ | ⟨refusal, hrefusal⟩
    · rw [hp] at h
      cases h
    · exact hrefused refusal (Except.error.inj (h.symm.trans hrefusal))

/-- A document in exported form with one tool, which declares a parameter and gives it no value. -/
def Document.declaring (name : Scalar) : Value :=
  .record [("nodes", .list [.record [("id", .str "a"), ("data", .record [
    ("name", .str "calculator"), ("inputParams", .list [.record [("name", .scalar name)]])])]])]

/-- The graph of the document. -/
def Graph.declaring (name : Scalar) : Graph :=
  { nodes := [
      { id := "a", type := "calculator", parameters := [(name, { name, required := true })] }] }

/-- Under a number for a name the parameter aborts the conversion, under a text it does not. -/
theorem declaring_aborts :
    Document.graph (Document.declaring (.int 1)) = .ok (Graph.declaring (.int 1)) ∧
      Registry.standard.convert .kahn (Graph.declaring (.int 1)) {} = .error (.unfit .shape) ∧
      Document.graph (Document.declaring (.str "1")) = .ok (Graph.declaring (.str "1")) ∧
      ((∃ p, Registry.standard.convert .kahn (Graph.declaring (.str "1")) {} = .ok p) ∨
        ∃ refusal, Registry.standard.convert .kahn (Graph.declaring (.str "1")) {} =
          .error (.refused refusal)) := by
  have hnumber : Document.graph (Document.declaring (.int 1)) = .ok (Graph.declaring (.int 1)) := rfl
  have htext : Document.graph (Document.declaring (.str "1")) = .ok (Graph.declaring (.str "1")) := rfl
  have hshort (name : Scalar) (hname : name.isLongInteger = false) :
      ¬ (Graph.declaring name).IsLongNamed := by
    rintro (hlong | ⟨n, hn, p, hp, -, hlong⟩)
    · cases hlong
    · cases List.mem_singleton.mp hn
      cases List.mem_singleton.mp hp
      rw [hname] at hlong
      cases hlong
  refine ⟨hnumber, ?_, htext, ?_⟩
  · have hvalid : (Graph.declaring (.int 1)).IsValid := Graph.structureErrors_eq_nil_iff.mp rfl
    refine ((loaded_graph_converted_or_refused _ rfl _ hnumber .kahn {}).2 _ ?_).mpr ?_
    · intro refusal h
      cases h
    · refine .inr ⟨hshort _ (by decide), hvalid, ⟨_, List.mem_singleton_self _, rfl, ?_⟩, rfl⟩
      exact ⟨_, List.mem_singleton_self _, rfl, fun t ht => nomatch ht⟩
  · refine (loaded_graph_converted_or_refused _ rfl _ htext .kahn {}).1.mpr ?_
    rintro e (⟨hlong, -⟩ | ⟨-, -, ⟨n, hn, -, p, hp, -, htextless⟩, -⟩)
    · exact hshort _ rfl hlong
    · cases List.mem_singleton.mp hn
      cases List.mem_singleton.mp hp
      exact htextless "1" rfl

end Flowscript

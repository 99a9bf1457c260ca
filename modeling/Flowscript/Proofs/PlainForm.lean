/-
  Flowscript.Proofs.PlainForm

  Nodes in exported form, in plain form.

  The plain form of an exported node lists a description for each of its declarations, and
  after them one for each input that is not declared and has a value of its own.  Both
  forms are read to the same node:

    * a declaration is read to the parameter of its description (`declared_eq`), so the
      declarations are read to those of the first part of the list (`declaredAll_eq`);
    * what has been gathered from them has exactly the declared names (`has_of_listed`), so
      the other inputs are added in the order of the second part (`foldlM_addInput_eq`).

  The node is there unless it has no id, a text of it is lost or its position is.
-/
import Flowscript.Proofs.DocumentFlaws

namespace Flowscript.Document

open Entries (field?)

variable {raw v spec : Value} {fields es data : Entries} {inputs : List (String × Value)}
  {name owner : String} {index : Nat} {ps : Parameters}

-- ============================================================================
-- The two forms
-- ============================================================================

/-- Neither null, empty nor a reference. -/
def isOwn (v : Value) : Bool := !isUnset v && isReference? v != some true

/-- The value of an input, or that of its declaration if it is absent, null or empty. -/
def inputOrDefault (inputs : List (String × Value)) (name : String) (declaration : Entries) :
    Value :=
  match (inputs.lookup name).filter (!isUnset ·) with
  | some v => v
  | none => (field? declaration "default").getD .null

/-- A value that is read as a text: a set. -/
def asText? : Value → Option Value
  | .set ms => some (.set ms)
  | _ => none

/-- A field that is there only if it has a value. -/
def optionalField (name : String) (v? : Option Value) : List (String × Value) :=
  (v?.map fun v => (name, v)).toList

/-- The description of a declared input. -/
def declaredDescription (inputs : List (String × Value)) (name : String) (declaration : Entries) :
    List (String × Value) :=
  let value := inputOrDefault inputs name declaration
  [("name", .str name), ("value", if isOwn value then value else .null),
    ("required", .bool (!flag declaration "optional"))] ++
    optionalField "type" (field? declaration "type") ++
    optionalField "description" (either? declaration "description" "label")

/-- The description of an input without a declaration. -/
def inputDescription (input : String × Value) : List (String × Value) :=
  [("name", .str input.1), ("value", input.2)]

/-- A node in exported form.  Its inputs and declarations have text names, and none of them is
declared as a credential; the search for references in their values ends. -/
structure ExportedForm (raw : Value) where
  fields : Entries
  data : Entries
  inputs : List (String × Value)
  declarations : List (String × Entries)
  raw_opened : raw.opened = .map fields
  data_opened : (field? fields "data").map Value.opened = some (.map data)
  inputs_opened : (field? data "inputs").map Value.opened = some (.record inputs)
  inputs_nodup : (inputs.map (·.1)).Nodup
  declarations_opened : ∃ specs, (field? data "inputParams").map Value.opened = some (.list specs) ∧
    specs.map Value.opened = declarations.map fun d => .map d.2
  named : ∀ d ∈ declarations, field? d.2 "name" = some (.str d.1) ∧ d.1 ≠ ""
  without_credentials : ∀ d ∈ declarations,
    (field? d.2 "type").map Value.display ≠ some "credential"
  searched : ∀ v ∈ declarations.map (fun d => inputOrDefault inputs d.1 d.2) ++ inputs.map (·.2),
    ∃ b, isReference? v = some b

namespace ExportedForm

/-- The inputs that are not declared and have a value of their own. -/
def otherInputs (x : ExportedForm raw) : List (String × Value) :=
  x.inputs.filter fun i => i.1 ∉ x.declarations.map (·.1) ∧ isOwn i.2

/-- The names of the declarations, with their descriptions. -/
def declared (x : ExportedForm raw) : List (String × List (String × Value)) :=
  x.declarations.map fun d => (d.1, declaredDescription x.inputs d.1 d.2)

/-- The descriptions of the declared inputs, then those of the others. -/
def descriptions (x : ExportedForm raw) : List (List (String × Value)) :=
  x.declared.map (·.2) ++ x.otherInputs.map inputDescription

/-- The fields of the node in plain form. -/
def plainFields (x : ExportedForm raw) : List (String × Value) :=
  optionalField "id" (firstFilled [field? x.fields "id", field? x.data "id"]) ++
    optionalField "type" (firstFilled [field? x.data "name", field? x.data "type"]) ++
    optionalField "label" (field? x.data "label") ++
    optionalField "category" (field? x.data "category") ++
    [("parameters", .list (x.descriptions.map .record))] ++
    optionalField "position" (field? x.fields "position")

/-- The node in plain form. -/
def plain (x : ExportedForm raw) : Value := .record x.plainFields

/-- What the node has in the places that are read as texts, and the sets among the values of its
inputs. -/
def textsRead (x : ExportedForm raw) : List (Option Value) :=
  [firstFilled [field? x.fields "id", field? x.data "id"],
    firstFilled [field? x.data "name", field? x.data "type"], field? x.data "label",
    field? x.data "category"] ++
    (x.declarations.flatMap fun d => [field? d.2 "type", either? d.2 "description" "label",
      asText? (inputOrDefault x.inputs d.1 d.2)]) ++
    x.otherInputs.map fun i => asText? i.2

/-- The node has an id, and all of its texts and its position can be read. -/
structure IsReadable (x : ExportedForm raw) : Prop where
  id : ∃ v, firstFilled [field? x.fields "id", field? x.data "id"] = some v ∧ v.display ≠ ""
  texts : ∀ v? ∈ x.textsRead, optionalTextFlaws v? = []
  position : ∃ p, Document.position (field? x.fields "position") = .ok p

end ExportedForm

-- ============================================================================
-- Fields of records
-- ============================================================================

theorem get?_record (fields : List (String × Value)) (name : String) :
    Entries.get? (fields.map fun f => (.str f.1, f.2)) (.str name) = fields.lookup name := by
  induction fields with
  | nil => rfl
  | cons f fields ih =>
      obtain ⟨key, v⟩ := f
      unfold Entries.get? at ih ⊢
      rw [List.map_cons, List.find?_cons, List.lookup_cons]
      by_cases h : name = key
      · subst h
        simp
      · have hkey : Scalar.sameKey (.str key) (.str name) = false := by
          rw [Bool.eq_false_iff]
          intro hsame
          exact h ((Scalar.sameKey_str_iff key name).mp hsame).symm
        rw [hkey, ih, beq_eq_false_iff_ne.mpr h]

theorem field?_record (fields : List (String × Value)) (name : String) :
    field? (fields.map fun f => (.str f.1, f.2)) name = fields.lookup name :=
  get?_record fields name

theorem lookup_optionalField (key name : String) (v? : Option Value) :
    (optionalField key v?).lookup name = if name = key then v? else none := by
  cases v? with
  | none => simp [optionalField]
  | some v =>
      by_cases h : name = key
      · simp [optionalField, h]
      · simp [optionalField, List.lookup_cons, h, beq_eq_false_iff_ne.mpr h]

theorem opened_record (fields : List (String × Value)) :
    (Value.record fields).opened = .map (fields.map fun f => (.str f.1, f.2)) := rfl

-- ============================================================================
-- Declared inputs
-- ============================================================================

theorem givenValue_record (inputs : List (String × Value)) (declaration : Entries) (name : String) :
    givenValue (inputs.map fun f => (.str f.1, f.2)) declaration (.str name) =
      inputOrDefault inputs name declaration := by
  unfold givenValue inputOrDefault
  rw [get?_record]
  cases inputs.lookup name with
  | none => rfl
  | some v => cases h : isUnset v <;> simp [h, Option.filter_some]

theorem settled_eq {b : Bool} (h : isReference? v = some b) :
    settled v = .ok (if isOwn v then v else .null) := by
  have hreference : isReference v = .ok b := by
    unfold isReference
    rw [h]
  unfold settled isOwn isUnset
  rw [h, hreference]
  by_cases hnull : v.isNull = true
  · -- Null is kept, and is what the others become.
    obtain rfl : v = .null := by
      unfold Value.isNull at hnull
      split at hnull
      · rfl
      · cases hnull
    cases b <;> rfl
  · rw [Bool.eq_false_iff.mpr hnull]
    cases v.isEmptyText <;> cases b <;> rfl

theorem caption_eq (es : Entries) : caption es = match either? es "description" "label" with
    | some d => text d
    | none => .ok "" := by
  unfold caption either? fieldText
  cases field? es "description" <;> rfl

theorem eq_malformed_of_text {e : Fault} (h : text v = .error e) : e = .malformed := by
  unfold text at h
  split at h <;> cases h
  rfl

theorem eq_malformed_of_fieldText {default : String} {e : Fault}
    (h : fieldText es name default = .error e) : e = .malformed := by
  unfold fieldText at h
  split at h
  · exact eq_malformed_of_text h
  · cases h

theorem eq_malformed_of_parameterValue {e : Fault} (h : parameterValue v = .error e) :
    e = .malformed := by
  unfold parameterValue at h
  split at h
  · next ms =>
    cases htext : text (.set ms) with
    | ok t =>
        rw [htext] at h
        cases h
    | error e' =>
        rw [htext] at h
        cases h
        exact eq_malformed_of_text htext
  · cases h

/-- What a declaration is read to, part by part. -/
theorem described_declaredDescription (inputs : List (String × Value)) (name : String)
    (es : Entries) :
    described name ((declaredDescription inputs name es).map fun f => (.str f.1, f.2)) =
      parameterValue (if isOwn (inputOrDefault inputs name es)
        then inputOrDefault inputs name es else .null) >>= fun value =>
      fieldText es "type" "string" >>= fun type => caption es >>= fun description => .ok
        { name := .str name
          value
          type
          required := !flag es "optional"
          description } := by
  have hvalue : (declaredDescription inputs name es).lookup "value" =
      some (if isOwn (inputOrDefault inputs name es) then inputOrDefault inputs name es
        else .null) := by
    simp [declaredDescription, List.lookup_cons]
  have htype : (declaredDescription inputs name es).lookup "type" = field? es "type" := by
    simp [declaredDescription, List.lookup_cons, List.lookup_append, lookup_optionalField]
  have hrequired : (declaredDescription inputs name es).lookup "required" =
      some (.bool (!flag es "optional")) := by
    simp [declaredDescription, List.lookup_cons]
  have hdescription : (declaredDescription inputs name es).lookup "description" =
      either? es "description" "label" := by
    simp [declaredDescription, List.lookup_cons, List.lookup_append, lookup_optionalField]
  rw [caption_eq]
  unfold described describedValue fieldText flag
  simp only [field?_record, hvalue, htype, hrequired, hdescription]
  rfl

/-- A declaration is read to the parameter of its description. -/
theorem declared_eq (hspec : spec.opened = .map es) (hname : field? es "name" = some (.str name))
    (hfilled : name ≠ "") (hcredential : (field? es "type").map Value.display ≠ some "credential")
    {b : Bool} (hsearch : isReference? (inputOrDefault inputs name es) = some b) :
    declared data (.ok (inputs.map fun f => (.str f.1, f.2))) spec =
      (described name ((declaredDescription inputs name es).map fun f => (.str f.1, f.2))).map
        some := by
  have htruthy : (some (Value.str name)).filter Value.isTruthy = some (.str name) := by
    simp [Option.filter_some, Value.isTruthy, Scalar.isTruthy, hfilled]
  unfold declared
  rw [hspec, described_declaredDescription]
  simp only [hname, htruthy]
  cases htype : fieldText es "type" "string" with
  | error e =>
      -- A value without a text is the same fault as a type without one.
      obtain rfl := eq_malformed_of_fieldText htype
      cases hvalue : parameterValue (if isOwn (inputOrDefault inputs name es)
          then inputOrDefault inputs name es else .null) with
      | error e =>
          obtain rfl := eq_malformed_of_parameterValue hvalue
          rfl
      | ok value => rfl
  | ok type =>
      have hne : type ≠ "credential" := fun h => hcredential ((type_eq_credential_iff htype).mp h)
      simp only [declaredEntry, hne, if_false, givenValue_record, ok_bind, settled_eq hsearch, ne_eq,
        not_false_eq_true, decide_true, Bool.and_true]
      cases parameterValue (if isOwn (inputOrDefault inputs name es)
          then inputOrDefault inputs name es else .null) with
      | error e => rfl
      | ok value => cases caption es <;> rfl

theorem listed_cons_record (fields : List (String × Value)) (vs : List Value)
    (hname : fields.lookup "name" = some (.str name)) :
    listed owner ps index (.record fields :: vs) =
      described name (fields.map fun f => (.str f.1, f.2)) >>= fun p =>
        listed owner (ps.add p) (index + 1) vs := by
  rw [listed, opened_record]
  simp only [field?_record, hname, text_str]
  rfl

theorem lookup_name_declaredDescription (inputs : List (String × Value)) (name : String)
    (es : Entries) : (declaredDescription inputs name es).lookup "name" = some (.str name) := by
  simp [declaredDescription]

/-- The declarations are read to the parameters of their descriptions. -/
theorem declaredAll_eq {specs : List Value} {declarations : List (String × Entries)}
    (hspecs : specs.map Value.opened = declarations.map fun d => .map d.2)
    (hnamed : ∀ d ∈ declarations, field? d.2 "name" = some (.str d.1) ∧ d.1 ≠ "")
    (hcredentials : ∀ d ∈ declarations, (field? d.2 "type").map Value.display ≠ some "credential")
    (hsearched : ∀ d ∈ declarations, ∃ b, isReference? (inputOrDefault inputs d.1 d.2) = some b) :
    declaredAll data (.ok (inputs.map fun f => (.str f.1, f.2))) ps specs =
      listed owner ps index (declarations.map fun d =>
        .record (declaredDescription inputs d.1 d.2)) := by
  induction declarations generalizing specs ps index with
  | nil =>
      obtain rfl : specs = [] := List.map_eq_nil_iff.mp hspecs
      rfl
  | cons d declarations ih =>
      obtain ⟨name, es⟩ := d
      obtain ⟨spec, specs, rfl, hspec, hrest⟩ := List.map_eq_cons_iff.mp hspecs
      obtain ⟨hname, hfilled⟩ := hnamed _ List.mem_cons_self
      obtain ⟨b, hsearch⟩ := hsearched _ List.mem_cons_self
      rw [List.map_cons, declaredAll,
        listed_cons_record _ _ (lookup_name_declaredDescription inputs name es),
        declared_eq hspec hname hfilled (hcredentials _ List.mem_cons_self) hsearch]
      cases described name ((declaredDescription inputs name es).map fun f => (.str f.1, f.2)) with
      | error e => rfl
      | ok p =>
          exact ih hrest (fun d hd => hnamed d (List.mem_cons_of_mem _ hd))
            (fun d hd => hcredentials d (List.mem_cons_of_mem _ hd))
            (fun d hd => hsearched d (List.mem_cons_of_mem _ hd))

-- ============================================================================
-- Other inputs
-- ============================================================================

theorem has_add (ps : Parameters) (p : Parameter) (k : Scalar) :
    (ps.add p).has k = (ps.has k || p.name.sameKey k) := by
  unfold Parameters.add
  induction ps with
  | nil => simp [Parameters.insert, Parameters.has]
  | cons e ps ih =>
      obtain ⟨k', p'⟩ := e
      unfold Parameters.has at ih ⊢
      rw [Parameters.insert]
      split
      · next hsame =>
        -- The place keeps its key, which is the same one.
        have hkey : p.name.sameKey k = k'.sameKey k := by
          have heq : k'.key = p.name.key := of_decide_eq_true hsame
          rw [Scalar.sameKey, Scalar.sameKey, heq]
        rw [List.any_cons, List.any_cons, hkey]
        cases k'.sameKey k <;> simp
      · rw [List.any_cons, List.any_cons, ih, Bool.or_assoc]

theorem name_of_described {p : Parameter} (h : described name es = .ok p) : p.name = .str name := by
  unfold described at h
  obtain ⟨value, -, h⟩ := bind_eq_ok_iff.mp h
  obtain ⟨type, -, h⟩ := bind_eq_ok_iff.mp h
  obtain ⟨description, -, h⟩ := bind_eq_ok_iff.mp h
  cases h
  rfl

/-- The parameters of a list of descriptions have the names that they had before, and the names
of the descriptions. -/
theorem has_of_listed {ds : List (String × List (String × Value))} {ps' : Parameters}
    (hnames : ∀ d ∈ ds, d.2.lookup "name" = some (.str d.1))
    (h : listed owner ps index (ds.map fun d => .record d.2) = .ok ps') (key : String) :
    ps'.has (.str key) = (ps.has (.str key) || decide (key ∈ ds.map (·.1))) := by
  induction ds generalizing ps index with
  | nil =>
      cases h
      simp
  | cons d ds ih =>
      obtain ⟨name, fields⟩ := d
      rw [List.map_cons, listed_cons_record _ _ (hnames _ List.mem_cons_self)] at h
      obtain ⟨p, hp, h⟩ := bind_eq_ok_iff.mp h
      have hname : decide (key ∈ name :: ds.map (·.1)) =
          (Scalar.sameKey (.str name) (.str key) || decide (key ∈ ds.map (·.1))) := by
        rw [Bool.eq_iff_iff, decide_eq_true_iff, List.mem_cons, Bool.or_eq_true,
          Scalar.sameKey_str_iff, decide_eq_true_iff, eq_comm]
      rw [ih (fun d hd => hnames d (List.mem_cons_of_mem _ hd)) h, has_add, name_of_described hp,
        List.map_cons, hname, Bool.or_assoc]

theorem described_inputDescription (input : String × Value) :
    described input.1 ((inputDescription input).map fun f => (.str f.1, f.2)) =
      parameterValue input.2 >>= fun value => .ok { name := .str input.1, value } := rfl

/-- An input is added as its description says, unless it is there already or has no value. -/
theorem addInput_eq {input : String × Value} {b : Bool} (h : isReference? input.2 = some b) :
    addInput ps (.str input.1, input.2) =
      if !ps.has (.str input.1) && isOwn input.2
        then described input.1 ((inputDescription input).map fun f => (.str f.1, f.2)) >>= fun p =>
          .ok (ps.add p)
        else .ok ps := by
  have hreference : isReference input.2 = .ok b := by
    unfold isReference
    rw [h]
  rw [described_inputDescription]
  unfold addInput isOwn
  rw [h, hreference]
  cases ps.has (.str input.1) <;> cases isUnset input.2 <;> cases b <;>
    cases parameterValue input.2 <;> rfl

/-- The inputs are added in the order of their descriptions, except for those that are there
already. -/
theorem foldlM_addInput_eq {names : List String} (hnodup : (inputs.map (·.1)).Nodup)
    (hsearched : ∀ i ∈ inputs, ∃ b, isReference? i.2 = some b)
    (hnames : ∀ i ∈ inputs, ps.has (.str i.1) = decide (i.1 ∈ names)) :
    (inputs.map fun f => ((.str f.1, f.2) : Scalar × Value)).foldlM addInput ps =
      listed owner ps index ((inputs.filter fun i => i.1 ∉ names ∧ isOwn i.2).map fun i =>
        .record (inputDescription i)) := by
  induction inputs generalizing ps index with
  | nil => rfl
  | cons i inputs ih =>
      rw [List.map_cons, List.nodup_cons] at hnodup
      have hi := hnames i List.mem_cons_self
      obtain ⟨b, hb⟩ := hsearched i List.mem_cons_self
      have hrest := fun i hi => hsearched i (List.mem_cons_of_mem _ hi)
      rw [List.map_cons, List.foldlM_cons, addInput_eq hb, hi]
      by_cases hadded : i.1 ∉ names ∧ isOwn i.2 = true
      · have hfilter : (i :: inputs).filter (fun i => i.1 ∉ names ∧ isOwn i.2) =
            i :: inputs.filter fun i => i.1 ∉ names ∧ isOwn i.2 :=
          List.filter_cons_of_pos (decide_eq_true hadded)
        rw [hfilter, List.map_cons, listed_cons_record _ _ rfl]
        simp only [hadded.1, hadded.2, decide_false, Bool.not_false, Bool.and_self, if_true]
        cases hp : described i.1 ((inputDescription i).map fun f => (.str f.1, f.2)) with
        | error e => rfl
        | ok p =>
            refine ih hnodup.2 hrest fun j hj => ?_
            have hne : i.1 ≠ j.1 := fun heq => hnodup.1 (heq ▸ List.mem_map_of_mem hj)
            have hkey : Scalar.sameKey (.str i.1) (.str j.1) = false := by
              rw [Bool.eq_false_iff]
              exact fun h => hne ((Scalar.sameKey_str_iff _ _).mp h)
            rw [has_add, name_of_described hp, hnames j (List.mem_cons_of_mem _ hj), hkey,
              Bool.or_false]
      · have hfilter : (i :: inputs).filter (fun i => i.1 ∉ names ∧ isOwn i.2) =
            inputs.filter fun i => i.1 ∉ names ∧ isOwn i.2 :=
          List.filter_cons_of_neg (mt of_decide_eq_true hadded)
        have hkept : (!decide (i.1 ∈ names) && isOwn i.2) = false := by
          rw [Bool.eq_false_iff, Ne, Bool.and_eq_true, Bool.not_eq_true', decide_eq_false_iff_not]
          exact hadded
        rw [hfilter, hkept]
        exact ih hnodup.2 hrest fun j hj => hnames j (List.mem_cons_of_mem _ hj)

theorem listed_append (vs ws : List Value) :
    listed owner ps index (vs ++ ws) = listed owner ps index vs >>= fun ps' =>
      listed owner ps' (index + vs.length) ws := by
  induction vs generalizing ps index with
  | nil => rfl
  | cons v vs ih =>
      rw [List.cons_append, listed, listed, List.length_cons, Nat.add_comm vs.length, ← Nat.add_assoc]
      split
      · next es _ =>
        split
        · next n _ =>
          cases text n with
          | error e => rfl
          | ok name =>
              change (described name es >>= _) = (described name es >>= _) >>= _
              cases described name es with
              | error e => rfl
              | ok p => exact ih
        · rfl
      · rfl

-- ============================================================================
-- Nodes
-- ============================================================================

/-- A node from its parts, which are read one after the other. -/
def nodeOf (index : Nat) (id type label category : Except Fault String)
    (parameters : String → Except Fault Parameters) (place : Except Fault (Double × Double)) :
    Except Fault Node := do
  let id ← id
  if id = "" then throw (.document (.nodeWithoutId index))
  let type ← type
  let label ← label
  let category ← category
  let parameters ← parameters id
  let position ← place
  pure { id, type, label, category := Naming.categoryTag category, parameters, position }

theorem node_eq_of_data (hraw : raw.opened = .map es)
    (hdata : (field? es "data").map Value.opened = some (.map data)) :
    node index raw = nodeOf index (firstText [field? es "id", field? data "id"])
      (firstText [field? data "name", field? data "type"]) (fieldText data "label" "")
      (fieldText data "category" "") (fun _ => exportedParameters data)
      (position (field? es "position")) := by
  unfold node
  rw [hraw]
  simp only [hdata]
  rfl

theorem node_eq_of_not_data (hraw : raw.opened = .map es) (hdata : field? es "data" = none) :
    node index raw = nodeOf index (firstText [field? es "id"]) (fieldText es "type" "")
      (fieldText es "label" "") (fieldText es "category" "")
      (fun id => plainParameters id (field? es "parameters")) (position (field? es "position")) := by
  unfold node
  rw [hraw]
  simp only [hdata]
  rfl

theorem exists_bind_eq_ok_iff {α β : Type} {x : Except Fault α} {f : α → Except Fault β} :
    (∃ b, (x >>= f) = .ok b) ↔ ∃ a, x = .ok a ∧ ∃ b, f a = .ok b := by
  simp only [bind_eq_ok_iff]
  constructor
  · rintro ⟨b, a, hx, hf⟩
    exact ⟨a, hx, b, hf⟩
  · rintro ⟨a, hx, b, hf⟩
    exact ⟨b, a, hx, hf⟩

/-- A node is there if all of its parts are, and the id is not empty. -/
theorem exists_nodeOf_iff {id type label category : Except Fault String}
    {parameters : Except Fault Parameters} {place : Except Fault (Double × Double)} :
    (∃ n, nodeOf index id type label category (fun _ => parameters) place = .ok n) ↔
      (∃ i, id = .ok i ∧ i ≠ "") ∧ (∃ t, type = .ok t) ∧ (∃ l, label = .ok l) ∧
        (∃ c, category = .ok c) ∧ (∃ ps, parameters = .ok ps) ∧ ∃ p, place = .ok p := by
  unfold nodeOf
  rw [exists_bind_eq_ok_iff]
  constructor
  · rintro ⟨i, hid, h⟩
    by_cases hempty : i = ""
    · subst hempty
      obtain ⟨n, h⟩ := h
      cases h
    · rw [if_neg hempty] at h
      simp only [exists_bind_eq_ok_iff] at h
      obtain ⟨t, ht, l, hl, c, hc, ps, hps, p, hp, -⟩ := h
      exact ⟨⟨i, hid, hempty⟩, ⟨t, ht⟩, ⟨l, hl⟩, ⟨c, hc⟩, ⟨ps, hps⟩, ⟨p, hp⟩⟩
  · rintro ⟨⟨i, hid, hempty⟩, ⟨t, ht⟩, ⟨l, hl⟩, ⟨c, hc⟩, ⟨ps, hps⟩, ⟨p, hp⟩⟩
    refine ⟨i, hid, ?_⟩
    rw [if_neg hempty, ht, hl, hc, hps, hp]
    exact ⟨_, rfl⟩

theorem opened_of_not_isTruthy (h : v.isTruthy = false) : v.opened = v := by
  cases v with
  | knot _ _ => cases h
  | _ => rfl

theorem firstText_eq (vs : List (Option Value)) : firstText vs = match firstFilled vs with
    | some v => text v
    | none => .ok "" := rfl

theorem fieldText_eq_firstText {vs : List (Option Value)} (h : field? es name = firstFilled vs) :
    fieldText es name "" = firstText vs := by
  unfold fieldText
  rw [h]
  rfl

theorem firstText_firstFilled (vs : List (Option Value)) :
    firstText [firstFilled vs] = firstText vs := by
  have hfirst : firstFilled [firstFilled vs] = firstFilled vs := by
    cases h : firstFilled vs with
    | none => rfl
    | some v =>
        obtain ⟨v?, -, hfilter⟩ := List.exists_of_findSome?_eq_some h
        have htruthy : v.isTruthy = true := (Option.filter_eq_some_iff.mp hfilter).2
        simp [firstFilled, Option.filter_some, htruthy]
  rw [firstText_eq, hfirst, firstText_eq]

/-- There is an id if a value for it is filled and has a text. -/
theorem exists_id_iff (vs : List (Option Value)) :
    (∃ i, firstText vs = .ok i ∧ i ≠ "") ↔
      (∃ v, firstFilled vs = some v ∧ v.display ≠ "") ∧ optionalTextFlaws (firstFilled vs) = [] := by
  have hreads := (firstText_failsFirst vs).exists_eq_ok_iff
  constructor
  · rintro ⟨i, hi, hempty⟩
    refine ⟨?_, hreads.mp ⟨i, hi⟩⟩
    rw [firstText_eq] at hi
    split at hi
    · next v hv =>
      rw [eq_display_of_text hi] at hempty
      exact ⟨v, hv, hempty⟩
    · cases hi
      exact absurd rfl hempty
  · rintro ⟨⟨v, hv, hempty⟩, hflaws⟩
    obtain ⟨i, hi⟩ := hreads.mpr hflaws
    refine ⟨i, hi, ?_⟩
    rw [firstText_eq, hv] at hi
    rwa [eq_display_of_text hi]

theorem exists_caption_iff (es : Entries) :
    (∃ t, caption es = .ok t) ↔ optionalTextFlaws (either? es "description" "label") = [] := by
  rw [caption_eq]
  cases either? es "description" "label" with
  | none => exact ⟨fun _ => rfl, fun _ => ⟨_, rfl⟩⟩
  | some v => exact (text_failsFirst v).exists_eq_ok_iff

/-- The value of a parameter is there, unless it is a set without a text. -/
theorem exists_parameterValue_iff (v : Value) :
    (∃ value, parameterValue v = .ok value) ↔ optionalTextFlaws (asText? v) = [] := by
  cases v with
  | set ms => exact (FailsFirst.map (text_failsFirst (.set ms))).exists_eq_ok_iff
  | _ => exact ⟨fun _ => rfl, fun _ => ⟨_, rfl⟩⟩

theorem asText?_own (v : Value) : asText? (if isOwn v then v else .null) = asText? v := by
  cases v with
  | set ms => rfl
  | _ => split <;> rfl

/-- A declared input is described if its type and description are texts, and its value is no set
without one. -/
theorem exists_described_iff (inputs : List (String × Value)) (name : String) (es : Entries) :
    (∃ p, described name ((declaredDescription inputs name es).map fun f => (.str f.1, f.2)) =
      .ok p) ↔ optionalTextFlaws (field? es "type") = [] ∧
        optionalTextFlaws (either? es "description" "label") = [] ∧
        optionalTextFlaws (asText? (inputOrDefault inputs name es)) = [] := by
  rw [described_declaredDescription, exists_bind_eq_ok_iff, ← exists_caption_iff,
    ← (fieldText_failsFirst es "type" "string").exists_eq_ok_iff, ← asText?_own,
    ← exists_parameterValue_iff]
  simp only [exists_bind_eq_ok_iff]
  constructor
  · rintro ⟨value, hvalue, type, htype, description, hdescription, -⟩
    exact ⟨⟨type, htype⟩, ⟨description, hdescription⟩, ⟨value, hvalue⟩⟩
  · rintro ⟨⟨type, htype⟩, ⟨description, hdescription⟩, ⟨value, hvalue⟩⟩
    exact ⟨value, hvalue, type, htype, description, hdescription, _, rfl⟩

/-- A list of descriptions is read if each of them is. -/
theorem exists_listed_iff {ds : List (String × List (String × Value))}
    (hnames : ∀ d ∈ ds, d.2.lookup "name" = some (.str d.1)) :
    (∃ ps', listed owner ps index (ds.map fun d => .record d.2) = .ok ps') ↔
      ∀ d ∈ ds, ∃ p, described d.1 (d.2.map fun f => (.str f.1, f.2)) = .ok p := by
  induction ds generalizing ps index with
  | nil => exact ⟨fun _ d hd => absurd hd List.not_mem_nil, fun _ => ⟨ps, rfl⟩⟩
  | cons d ds ih =>
      have hrest := fun d hd => hnames d (List.mem_cons_of_mem _ hd)
      rw [List.map_cons, listed_cons_record _ _ (hnames d List.mem_cons_self),
        exists_bind_eq_ok_iff, List.forall_mem_cons]
      constructor
      · rintro ⟨p, hp, h⟩
        exact ⟨⟨p, hp⟩, (ih hrest).mp h⟩
      · rintro ⟨⟨p, hp⟩, h⟩
        exact ⟨p, hp, (ih hrest).mpr h⟩

namespace ExportedForm

variable (x : ExportedForm raw)

theorem inputEntries_eq : inputEntries x.data = .ok (x.inputs.map fun f => (.str f.1, f.2)) := by
  obtain ⟨v, hv, hopened⟩ := Option.map_eq_some_iff.mp x.inputs_opened
  unfold inputEntries
  rw [hv, Option.filter_some]
  cases htruthy : v.isTruthy with
  | true =>
      rw [if_pos rfl, Option.map_some, hopened]
      rfl
  | false =>
      rw [opened_of_not_isTruthy htruthy] at hopened
      subst hopened
      have hinputs : x.inputs = [] := by simpa [Value.record, Value.isTruthy] using htruthy
      rw [hinputs]
      rfl

theorem declarations_eq_ok {specs : List Value}
    (h : (field? x.data "inputParams").map Value.opened = some (.list specs)) :
    Document.declarations (field? x.data "inputParams") = .ok specs := by
  obtain ⟨v, hv, hopened⟩ := Option.map_eq_some_iff.mp h
  rw [hv, Document.declarations]
  cases htruthy : v.isTruthy with
  | true =>
      rw [hopened]
      rfl
  | false =>
      rw [opened_of_not_isTruthy htruthy] at hopened
      subst hopened
      have hspecs : specs = [] := by simpa [Value.isTruthy] using htruthy
      rw [hspecs]
      rfl

theorem lookup_name_of_declared : ∀ d ∈ x.declared, d.2.lookup "name" = some (.str d.1) := by
  intro d hd
  obtain ⟨d', -, rfl⟩ := List.mem_map.mp hd
  exact lookup_name_declaredDescription x.inputs d'.1 d'.2

/-- What the declarations leave has exactly the declared names. -/
theorem has_of_listed_declared
    (h : listed owner [] 0 (x.declared.map fun d => .record d.2) = .ok ps) (key : String) :
    ps.has (.str key) = decide (key ∈ x.declarations.map (·.1)) := by
  have hkeys : x.declared.map (·.1) = x.declarations.map (·.1) := by
    rw [declared, List.map_map]
    rfl
  rw [has_of_listed x.lookup_name_of_declared h, hkeys]
  rfl

/-- The parameters of the node: those of the declarations, then the other inputs. -/
theorem exportedParameters_eq_listed (owner : String) : exportedParameters x.data =
    listed owner [] 0 (x.declared.map fun d => .record d.2) >>= fun ps =>
      listed owner ps x.declared.length
        (x.otherInputs.map fun i => .record (inputDescription i)) := by
  obtain ⟨specs, hlist, hspecs⟩ := x.declarations_opened
  have hdeclared : ∀ d ∈ x.declarations,
      ∃ b, isReference? (inputOrDefault x.inputs d.1 d.2) = some b := fun d hd =>
    x.searched _ (List.mem_append_left _ (List.mem_map_of_mem hd))
  have hinputs : ∀ i ∈ x.inputs, ∃ b, isReference? i.2 = some b := fun i hi =>
    x.searched _ (List.mem_append_right _ (List.mem_map_of_mem hi))
  have hall : declaredAll x.data (inputEntries x.data) [] specs =
      listed owner [] 0 (x.declared.map fun d => .record d.2) := by
    rw [x.inputEntries_eq, declared, List.map_map]
    exact declaredAll_eq hspecs x.named x.without_credentials hdeclared
  rw [exportedParameters, x.declarations_eq_ok hlist]
  change (declaredAll x.data (inputEntries x.data) [] specs >>= fun ps =>
    inputEntries x.data >>= fun inputs => inputs.foldlM addInput ps) = _
  rw [hall, x.inputEntries_eq]
  cases hps : listed owner [] 0 (x.declared.map fun d => .record d.2) with
  | error e => rfl
  | ok ps =>
      exact foldlM_addInput_eq x.inputs_nodup hinputs fun i _ => x.has_of_listed_declared hps i.1

/-- The parameters of the node are those that its plain form lists. -/
theorem exportedParameters_eq (owner : String) :
    exportedParameters x.data =
      plainParameters owner (some (.list (x.descriptions.map .record))) := by
  have hsplit : x.descriptions.map Value.record =
      (x.declared.map fun d => .record d.2) ++
        x.otherInputs.map fun i => .record (inputDescription i) := by
    rw [descriptions, List.map_append, List.map_map, List.map_map]
    rfl
  have hlisted : plainParameters owner (some (.list (x.descriptions.map .record))) =
      listed owner [] 0 (x.descriptions.map .record) := rfl
  rw [hlisted, hsplit, listed_append, x.exportedParameters_eq_listed owner, List.length_map,
    Nat.zero_add]

theorem lookup_plainFields : x.plainFields.lookup "data" = none ∧
    x.plainFields.lookup "id" = firstFilled [field? x.fields "id", field? x.data "id"] ∧
    x.plainFields.lookup "type" = firstFilled [field? x.data "name", field? x.data "type"] ∧
    x.plainFields.lookup "label" = field? x.data "label" ∧
    x.plainFields.lookup "category" = field? x.data "category" ∧
    x.plainFields.lookup "parameters" = some (.list (x.descriptions.map .record)) ∧
    x.plainFields.lookup "position" = field? x.fields "position" := by
  unfold plainFields
  refine ⟨?_, ?_, ?_, ?_, ?_, ?_, ?_⟩ <;>
    simp [List.lookup_append, List.lookup_cons, lookup_optionalField]

theorem node_eq_plain (index : Nat) : node index raw = node index x.plain := by
  obtain ⟨hdata, hid, htype, hlabel, hcategory, hparameters, hposition⟩ := x.lookup_plainFields
  simp only [← field?_record] at hdata hid htype hlabel hcategory hparameters hposition
  have hplain : node index x.plain = _ := node_eq_of_not_data (opened_record x.plainFields) hdata
  rw [hplain, node_eq_of_data x.raw_opened x.data_opened, hid, firstText_firstFilled,
    fieldText_eq_firstText htype, hparameters, hposition]
  unfold fieldText
  simp only [hlabel, hcategory]
  have hparameterList : (fun _ : String => exportedParameters x.data) = fun id =>
      plainParameters id (some (.list (x.descriptions.map .record))) :=
    funext fun id => x.exportedParameters_eq id
  rw [hparameterList]

theorem exists_exportedParameters_iff : (∃ ps, exportedParameters x.data = .ok ps) ↔
    (∀ d ∈ x.declarations, optionalTextFlaws (field? d.2 "type") = [] ∧
      optionalTextFlaws (either? d.2 "description" "label") = [] ∧
      optionalTextFlaws (asText? (inputOrDefault x.inputs d.1 d.2)) = []) ∧
    ∀ i ∈ x.otherInputs, optionalTextFlaws (asText? i.2) = [] := by
  rw [x.exportedParameters_eq_listed "", exists_bind_eq_ok_iff]
  have hdeclared : (∃ ps, listed "" [] 0 (x.declared.map fun d => .record d.2) = .ok ps) ↔
      ∀ d ∈ x.declarations, optionalTextFlaws (field? d.2 "type") = [] ∧
        optionalTextFlaws (either? d.2 "description" "label") = [] ∧
        optionalTextFlaws (asText? (inputOrDefault x.inputs d.1 d.2)) = [] := by
    rw [exists_listed_iff x.lookup_name_of_declared, declared, List.forall_mem_map]
    simp only [exists_described_iff]
  have hothers (ps : Parameters) : (∃ ps', listed "" ps x.declared.length
        (x.otherInputs.map fun i => .record (inputDescription i)) = .ok ps') ↔
      ∀ i ∈ x.otherInputs, optionalTextFlaws (asText? i.2) = [] := by
    have hrecords : x.otherInputs.map (fun i => Value.record (inputDescription i)) =
        (x.otherInputs.map fun i => (i.1, inputDescription i)).map fun d => .record d.2 := by
      rw [List.map_map]
      rfl
    rw [hrecords, exists_listed_iff (List.forall_mem_map.mpr fun i _ => rfl), List.forall_mem_map]
    simp only [described_inputDescription, exists_bind_eq_ok_iff, Except.ok.injEq, exists_eq',
      and_true, exists_parameterValue_iff]
  simp only [hothers, exists_and_right, hdeclared]

theorem exists_node_iff (index : Nat) : (∃ n, node index raw = .ok n) ↔ x.IsReadable := by
  have htexts : (∀ v? ∈ x.textsRead, optionalTextFlaws v? = []) ↔
      optionalTextFlaws (firstFilled [field? x.fields "id", field? x.data "id"]) = [] ∧
      optionalTextFlaws (firstFilled [field? x.data "name", field? x.data "type"]) = [] ∧
      optionalTextFlaws (field? x.data "label") = [] ∧
      optionalTextFlaws (field? x.data "category") = [] ∧
      (∀ d ∈ x.declarations, optionalTextFlaws (field? d.2 "type") = [] ∧
        optionalTextFlaws (either? d.2 "description" "label") = [] ∧
        optionalTextFlaws (asText? (inputOrDefault x.inputs d.1 d.2)) = []) ∧
      ∀ i ∈ x.otherInputs, optionalTextFlaws (asText? i.2) = [] := by
    simp only [textsRead, List.forall_mem_map, List.forall_mem_append, List.forall_mem_cons, List.forall_mem_flatMap,
      List.not_mem_nil, false_imp_iff, implies_true, and_true, and_assoc]
  rw [node_eq_of_data x.raw_opened x.data_opened, exists_nodeOf_iff, exists_id_iff,
    (firstText_failsFirst _).exists_eq_ok_iff, (fieldText_failsFirst _ _ _).exists_eq_ok_iff,
    (fieldText_failsFirst _ _ _).exists_eq_ok_iff, x.exists_exportedParameters_iff]
  constructor
  · rintro ⟨⟨hid, hidText⟩, htype, hlabel, hcategory, hparameters, hposition⟩
    exact ⟨hid, htexts.mpr ⟨hidText, htype, hlabel, hcategory, hparameters⟩, hposition⟩
  · rintro ⟨hid, hall, hposition⟩
    obtain ⟨hidText, htype, hlabel, hcategory, hparameters⟩ := htexts.mp hall
    exact ⟨⟨hid, hidText⟩, htype, hlabel, hcategory, hparameters, hposition⟩

end ExportedForm

/-- A node in exported form is read as its plain form, and there is a node unless it has no id, or a
text or its position cannot be read. -/
theorem exported_read_as_plain (x : ExportedForm raw) (index : Nat) :
    node index raw = node index x.plain ∧ ((∃ n, node index raw = .ok n) ↔ x.IsReadable) :=
  ⟨x.node_eq_plain index, x.exists_node_iff index⟩

/-- A node with two declared inputs, of which one takes its default and one is a reference. -/
def exportedCalculator : Value := .record
  [("id", .str "sums"),
    ("position", .record [("x", .int 1), ("y", .int 2)]),
    ("data", .record
      [("name", .str "calculator"), ("label", .str "Sums"),
        ("inputs", .record
          [("model", .str "\x7b\x7bchat.data.instance\x7d\x7d"), ("digits", .str ""),
            ("unit", .str "km"), ("note", .null)]),
        ("inputParams", .list
          [.record [("name", .str "digits"), ("type", .str "number"), ("default", .int 4),
              ("label", .str "Digits"), ("optional", .bool true)],
            .record [("name", .str "model"), ("type", .str "string")]])])]

/-- The parts of the node. -/
def exportedCalculator.form : ExportedForm exportedCalculator where
  fields := _
  data := _
  inputs := [("model", .str "\x7b\x7bchat.data.instance\x7d\x7d"), ("digits", .str ""),
    ("unit", .str "km"), ("note", .null)]
  declarations := [("digits", _), ("model", _)]
  raw_opened := rfl
  data_opened := rfl
  inputs_opened := rfl
  inputs_nodup := by decide
  declarations_opened := ⟨_, rfl, rfl⟩
  named := by
    simp only [List.forall_mem_cons]
    exact ⟨⟨rfl, by decide⟩, ⟨rfl, by decide⟩, List.forall_mem_nil _⟩
  without_credentials := by
    simp only [List.forall_mem_cons]
    exact ⟨by decide, by decide, List.forall_mem_nil _⟩
  searched := by
    simp only [List.map_cons, List.map_nil, List.cons_append, List.nil_append, List.forall_mem_cons]
    exact ⟨⟨_, rfl⟩, ⟨_, rfl⟩, ⟨_, rfl⟩, ⟨_, rfl⟩, ⟨_, rfl⟩, ⟨_, rfl⟩, List.forall_mem_nil _⟩

/-- The example and its plain form are read to one node, and there is one. -/
theorem exportedCalculator_read_as_plain :
    node 0 exportedCalculator = node 0 (.record
      [("id", .str "sums"), ("type", .str "calculator"), ("label", .str "Sums"),
        ("parameters", .list
          [.record [("name", .str "digits"), ("value", .int 4), ("required", .bool false),
              ("type", .str "number"), ("description", .str "Digits")],
            .record [("name", .str "model"), ("value", .null), ("required", .bool true),
              ("type", .str "string")],
            .record [("name", .str "unit"), ("value", .str "km")]]),
        ("position", .record [("x", .int 1), ("y", .int 2)])]) ∧
      exportedCalculator.form.IsReadable := by
  obtain ⟨hplain, hread⟩ := exported_read_as_plain exportedCalculator.form 0
  exact ⟨hplain, hread.mp ⟨_, rfl⟩⟩

end Flowscript.Document

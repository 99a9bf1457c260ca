/-
  Flowscript.Proofs.DocumentFlaws

  What is wrong with a document, and how the load of it ends.

  The flaws of a document are listed part by part, in the order in which its parts are
  read.  A document without flaws loads, and the load of any other ends with the first of
  its flaws.  So it ends with a refusal exactly if that first flaw is one.
-/
import Mathlib.Algebra.Group.Int.Defs
import Flowscript.Proofs.Failure
import Flowscript.Proofs.PlainValues

namespace Flowscript.Document

open Entries (field?)
open Value (isPlain_list isPlain_map isPlain_of_get? isPlain_of_field? opened_of_isPlain
  map_opened_of_isPlain map_opened_field? exists_isReference)

variable {v : Value} {v? : Option Value} {es data : Entries} {name other node : String}
  {index : Nat} {vs : List Value}

-- ============================================================================
-- Fields
-- ============================================================================

/-- The value that a field has, if it is not empty. -/
def filled? (es : Entries) (name : String) : Option Value := (field? es name).filter Value.isTruthy

theorem filter_isTruthy (es : Entries) (name : String) :
    (field? es name).filter Value.isTruthy = filled? es name := rfl

/-- The first of several values that is there and not empty. -/
def firstFilled (vs : List (Option Value)) : Option Value := vs.findSome? (·.filter Value.isTruthy)

/-- A value is without a text if an integer in it is too long for one. -/
def textFlaws (v : Value) : List Fault := if v.hasLongInteger then [.malformed] else []

def optionalTextFlaws (v? : Option Value) : List Fault := (v?.map textFlaws).getD []

/-- Values of which the first filled one is read as a text. -/
def firstTextFlaws (vs : List (Option Value)) : List Fault := optionalTextFlaws (firstFilled vs)

theorem text_failsFirst (v : Value) : FailsFirst (textFlaws v) (text v) := by
  unfold textFlaws text Value.display?
  split
  · exact .error _ _
  · exact .ok _

theorem eq_display_of_text {t : String} (h : text v = .ok t) : t = v.display := by
  unfold text Value.display? at h
  cases hlong : v.hasLongInteger with
  | true =>
      rw [hlong] at h
      cases h
  | false =>
      rw [hlong] at h
      cases h
      rfl

theorem fieldText_failsFirst (es : Entries) (name default : String) :
    FailsFirst (optionalTextFlaws (field? es name)) (fieldText es name default) := by
  unfold fieldText
  split
  · next v h =>
    rw [h]
    exact text_failsFirst v
  · next h =>
    rw [h]
    exact .ok _

theorem firstText_failsFirst (vs : List (Option Value)) :
    FailsFirst (firstTextFlaws vs) (firstText vs) := by
  unfold firstText firstTextFlaws firstFilled
  split
  · next v h =>
    rw [h]
    exact text_failsFirst v
  · next h =>
    rw [h]
    exact .ok _

-- ============================================================================
-- Positions
-- ============================================================================

/-- An integer coordinate can be too large for a floating-point number. -/
def coordinateFlaws : Option Value → List Fault
  | some (.int i) => if (Double.ofInt? i).isNone then [.outOfRange] else []
  | _ => []

def positionFlaws : Option Value → List Fault
  | some (.map es) => coordinateFlaws (field? es "x") ++ coordinateFlaws (field? es "y")
  | some (.list [a, b]) => coordinateFlaws (some a) ++ coordinateFlaws (some b)
  | _ => []

theorem coordinate_failsFirst (v? : Option Value) :
    FailsFirst (coordinateFlaws v?) (coordinate v?) := by
  unfold coordinate
  split
  · next i =>
    simp only [coordinateFlaws]
    cases Double.ofInt? i with
    | none => exact .error _ _
    | some x => exact .ok x
  · exact .ok _
  · exact .ok _
  · split <;> exact .ok _
  · have hflaws : coordinateFlaws v? = [] := by
      rw [coordinateFlaws]
      all_goals simpa
    rw [hflaws]
    exact .ok _

theorem position_failsFirst (hv : ∀ v, v? = some v → v.isPlain = true) :
    FailsFirst (positionFlaws v?) (position v?) := by
  unfold position positionFlaws
  rw [map_opened_of_isPlain hv]
  split
  · exact .bind (coordinate_failsFirst _) fun _ _ => .bind_pure (coordinate_failsFirst _)
  · exact .bind (coordinate_failsFirst _) fun _ _ => .bind_pure (coordinate_failsFirst _)
  · next hmap hlist =>
    split
    · next es => exact absurd rfl (hmap es)
    · next a b => exact absurd rfl (hlist a b)
    · next a b => exact absurd (hv _ rfl) (by simp [Value.isPlain])
    · exact .ok _

-- ============================================================================
-- Lists of things
-- ============================================================================

/-- What is wrong with the values of a list, which starts at a position. -/
def eachFlaws (flaws : Nat → Value → List Fault) (index : Nat) : List Value → List Fault
  | [] => []
  | v :: vs => flaws index v ++ eachFlaws flaws (index + 1) vs

theorem readAll_failsFirst {α : Type} {read : Nat → Value → Except Fault α}
    {flaws : Nat → Value → List Fault}
    (hread : ∀ index v, v.isPlain = true → FailsFirst (flaws index v) (read index v))
    (index : Nat) (hvs : ∀ v ∈ vs, v.isPlain = true) :
    FailsFirst (eachFlaws flaws index vs) (readAll read index vs) := by
  induction vs generalizing index with
  | nil => exact .ok _
  | cons v vs ih =>
      refine .bind (hread index v (hvs v List.mem_cons_self)) fun _ _ => ?_
      exact .bind_pure (ih (index + 1) fun v hv => hvs v (List.mem_cons_of_mem _ hv))

-- ============================================================================
-- Parameters in plain form
-- ============================================================================

theorem parameterValue_of_isPlain (hv : v.isPlain = true) :
    parameterValue v = .ok (.ofValue v) := by
  cases v with
  | set _ => cases hv
  | _ => rfl

theorem isPlain_getD (h : ∀ v, v? = some v → v.isPlain = true) : (v?.getD .null).isPlain = true := by
  cases v? with
  | none => rfl
  | some v => exact h v rfl

theorem isPlain_describedValue (hes : (Value.map es).isPlain = true) :
    (describedValue es).isPlain = true := by
  unfold describedValue
  split
  · next v h => exact isPlain_of_field? hes h
  · exact isPlain_getD fun v h => isPlain_of_field? hes h

def describedFlaws (es : Entries) : List Fault :=
  optionalTextFlaws (field? es "type") ++ optionalTextFlaws (field? es "description")

/-- A listed parameter has to be a mapping with a name. -/
def listedFlaws (node : String) (index : Nat) : Value → List Fault
  | .map es => match field? es "name" with
    | some name => textFlaws name ++ describedFlaws es
    | none => [.document (.parameterWithoutName index node)]
  | _ => [.document (.parameterWithoutName index node)]

/-- The name of a parameter in a mapping is the text of its key. -/
def entryFlaws (e : Scalar × Value) : List Fault :=
  textFlaws (.scalar e.1) ++ match e.2 with
    | .map es => if isDescription es then describedFlaws es else []
    | _ => []

/-- Parameters are a list or a mapping. -/
def parametersFlaws (node : String) : Option Value → List Fault
  | none | some .null => []
  | some (.list items) => eachFlaws (listedFlaws node) 0 items
  | some (.map es) => es.flatMap entryFlaws
  | some _ => [.document (.parametersShape node)]

theorem described_failsFirst (name : String) (hes : (Value.map es).isPlain = true) :
    FailsFirst (describedFlaws es) (described name es) := by
  unfold described
  rw [parameterValue_of_isPlain (isPlain_describedValue hes)]
  refine .bind_of_nil (.ok _) fun _ _ => ?_
  exact .bind (fieldText_failsFirst es _ _) fun _ _ => .bind_pure (fieldText_failsFirst es _ _)

theorem listed_failsFirst (node : String) (ps : Parameters) (index : Nat)
    (hvs : ∀ v ∈ vs, v.isPlain = true) :
    FailsFirst (eachFlaws (listedFlaws node) index vs) (listed node ps index vs) := by
  induction vs generalizing ps index with
  | nil => exact .ok _
  | cons v vs ih =>
      have htail (ps : Parameters) := ih ps (index + 1) fun v hv => hvs v (List.mem_cons_of_mem _ hv)
      rw [eachFlaws, listed, opened_of_isPlain (hvs v List.mem_cons_self)]
      cases v with
      | map es =>
          simp only [listedFlaws]
          cases field? es "name" with
          | some name =>
              rw [List.append_assoc]
              refine .bind (text_failsFirst name) fun _ _ => ?_
              exact .bind (described_failsFirst _ (hvs _ List.mem_cons_self)) fun _ _ => htail _
          | none => exact .error _ _
      | _ => exact .error _ _

theorem entryParameter_failsFirst {e : Scalar × Value} (he : e.2.isPlain = true) :
    FailsFirst (entryFlaws e) (entryParameter e.1 e.2) := by
  obtain ⟨key, v⟩ := e
  refine .bind (text_failsFirst _) fun name _ => ?_
  rw [opened_of_isPlain he]
  cases v with
  | map es =>
      cases hdescription : isDescription es with
      | true =>
          simp only [hdescription, if_true]
          exact described_failsFirst name he
      | false =>
          simp only [hdescription, Bool.false_eq_true, if_false]
          exact .ok _
  | set _ => cases he
  | _ => exact .ok _

theorem plainParameters_failsFirst (node : String) (hv : ∀ v, v? = some v → v.isPlain = true) :
    FailsFirst (parametersFlaws node v?) (plainParameters node v?) := by
  unfold plainParameters
  rw [map_opened_of_isPlain hv]
  split
  · exact .ok _
  · exact .ok _
  · exact listed_failsFirst node [] 0 (isPlain_list.mp (hv _ rfl))
  · refine .foldlM (fun ps e he => ?_) []
    exact .map (entryParameter_failsFirst (isPlain_map.mp (hv _ rfl) e he).2)
  · next v hnull hlist hmap =>
    have hflaws : parametersFlaws node (some v) = [.document (.parametersShape node)] := by
      rw [parametersFlaws]
      all_goals simpa
    rw [hflaws]
    exact .error _ _

-- ============================================================================
-- Parameters in exported form
-- ============================================================================

/-- The inputs of a node are a mapping. -/
def inputFlaws (data : Entries) : List Fault :=
  match filled? data "inputs" with
  | none | some (.map _) => []
  | some _ => [.noFields]

/-- The kinds of a credential are a list or a text, or a mapping with a key zero. -/
def credentialFlaws : Option Value → List Fault
  | none | some (.str _) | some (.list []) => []
  | some (.list (name :: _)) => textFlaws name
  | some (.map es) => match Entries.get? es (.int 0) with
    | some name => textFlaws name
    | none => [.absentKey]
  | some _ => [.unfit .shape]

/-- The description of a parameter is its label unless it has one of its own. -/
def captionFlaws (es : Entries) : List Fault :=
  match field? es "description" with
  | some d => textFlaws d
  | none => optionalTextFlaws (field? es "label")

/-- A declaration is a mapping.  If it has a name, then the inputs of its node are looked at, and
the name has to be one that a mapping can have as a key. -/
def declaredFlaws (data : Entries) : Value → List Fault
  | .map es => match filled? es "name" with
    | none => []
    | some (.scalar _) =>
      optionalTextFlaws (field? es "type") ++ (inputFlaws data ++
        ((if (field? es "type").map Value.display = some "credential" then
          credentialFlaws (filled? es "credentialNames") else []) ++ captionFlaws es))
    | some _ => optionalTextFlaws (field? es "type") ++ (inputFlaws data ++ [.unfit .shape])
  | _ => [.noFields]

/-- Declarations are a list; a mapping or a text lists keys or characters, none of which is a
mapping. -/
def declarationFlaws (data : Entries) : List Fault :=
  match filled? data "inputParams" with
  | none => []
  | some (.list specs) => specs.flatMap (declaredFlaws data)
  | some (.map _) | some (.str _) => [.noFields]
  | some _ => [.unfit .shape]

theorem isPlain_of_filled? (hes : (Value.map es).isPlain = true) (h : filled? es name = some v) :
    v.isPlain = true ∧ v.isTruthy = true := by
  obtain ⟨hfield, htruthy⟩ := Option.filter_eq_some_iff.mp h
  exact ⟨isPlain_of_field? hes hfield, htruthy⟩

theorem map_opened_filled? (hes : (Value.map es).isPlain = true) (name : String) :
    (filled? es name).map Value.opened = filled? es name :=
  map_opened_of_isPlain fun _ h => (isPlain_of_filled? hes h).1

theorem inputEntries_eq (hdata : (Value.map data).isPlain = true) :
    inputEntries data = match filled? data "inputs" with
      | none => .ok []
      | some (.map es) => .ok es
      | some _ => .error .noFields := by
  have hopened := map_opened_filled? hdata "inputs"
  rw [inputEntries, filter_isTruthy]
  cases hfilled : filled? data "inputs" with
  | none => rfl
  | some v =>
      rw [hfilled] at hopened
      cases v <;> simp only [hopened]

theorem inputEntries_failsFirst (hdata : (Value.map data).isPlain = true) :
    FailsFirst (inputFlaws data) (inputEntries data) := by
  rw [inputEntries_eq hdata, inputFlaws]
  cases filled? data "inputs" with
  | none => exact .ok _
  | some v =>
      cases v with
      | map es => exact .ok _
      | _ => exact .error _ _

theorem isPlain_of_inputEntries {inputs : Entries} (hdata : (Value.map data).isPlain = true)
    (h : inputEntries data = .ok inputs) : (Value.map inputs).isPlain = true := by
  rw [inputEntries_eq hdata] at h
  split at h
  · cases h
    rfl
  · next es hes =>
    cases h
    exact (isPlain_of_filled? hdata hes).1
  · cases h

theorem credentialName_failsFirst (hv : v.isPlain = true) (htruthy : v.isTruthy = true) :
    FailsFirst (credentialFlaws (some v)) (credentialName v) := by
  unfold credentialName
  rw [opened_of_isPlain hv]
  cases v with
  | scalar s =>
      cases s with
      | str s =>
          have hs : s.toList ≠ [] := by
            rw [Ne, String.toList_eq_nil_iff]
            simpa [Value.isTruthy, Scalar.isTruthy] using htruthy
          simp only
          cases hchars : s.toList with
          | nil => exact absurd hchars hs
          | cons c cs => exact .ok _
      | bytes _ => cases hv
      | _ => exact .error _ _
  | list xs =>
      cases xs with
      | nil => cases htruthy
      | cons x xs => exact .map (text_failsFirst x)
  | map es =>
      simp only [credentialFlaws]
      cases Entries.get? es (.int 0) with
      | some v => exact .map (text_failsFirst v)
      | none => exact .error _ _
  | set _ => cases hv
  | pair _ _ => cases hv
  | knot _ _ => cases hv
  | again _ => cases hv

theorem settled_failsFirst (hv : v.isPlain = true) : FailsFirst [] (settled v) := by
  obtain ⟨b, hb⟩ := exists_isReference hv
  unfold settled
  rw [hb]
  simp only [bind, Except.bind]
  split <;> exact .ok _

theorem isPlain_of_settled {v' : Value} (hv : v.isPlain = true) (h : settled v = .ok v') :
    v'.isPlain = true := by
  obtain ⟨b, -, h⟩ := bind_eq_ok_iff.mp h
  split at h
  · cases h
    rfl
  · cases h
    exact hv

theorem caption_failsFirst (es : Entries) : FailsFirst (captionFlaws es) (caption es) := by
  unfold captionFlaws caption
  cases field? es "description" with
  | some d => exact text_failsFirst d
  | none => exact fieldText_failsFirst es _ _

theorem isPlain_givenValue {inputs : Entries} (hinputs : (Value.map inputs).isPlain = true)
    (hes : (Value.map es).isPlain = true) (key : Scalar) :
    (givenValue inputs es key).isPlain = true := by
  unfold givenValue
  simp only
  split
  · exact isPlain_getD fun v h => isPlain_of_field? hes h
  · exact isPlain_getD fun v h => isPlain_of_get? hinputs h

theorem type_eq_credential_iff {type : String} (h : fieldText es "type" "string" = .ok type) :
    type = "credential" ↔ (field? es "type").map Value.display = some "credential" := by
  unfold fieldText at h
  cases htype : field? es "type" with
  | none =>
      rw [htype] at h
      cases h
      simp
  | some v =>
      rw [htype] at h
      rw [eq_display_of_text h, Option.map_some, Option.some.injEq]

theorem declaredEntry_failsFirst (data : Entries) (hes : (Value.map es).isPlain = true)
    (type : String) (key : Scalar) (v : Value) :
    FailsFirst (if type = "credential" then credentialFlaws (filled? es "credentialNames") else [])
      (declaredEntry data es type key v) := by
  unfold declaredEntry
  split
  · rw [filter_isTruthy]
    cases hnames : filled? es "credentialNames" with
    | none => exact .ok _
    | some names =>
        obtain ⟨hplain, htruthy⟩ := isPlain_of_filled? hes hnames
        exact .map (credentialName_failsFirst hplain htruthy)
  · exact .ok _

theorem isPlain_of_declaredEntry {type : String} {key key' : Scalar} {v' : Value}
    (hdata : (Value.map data).isPlain = true) (hv : v.isPlain = true)
    (h : declaredEntry data es type key v = .ok (key', v')) : v'.isPlain = true := by
  have hcredential : ((field? data "credential").getD v).isPlain = true := by
    cases hfield : field? data "credential" with
    | none => exact hv
    | some x => exact isPlain_of_field? hdata hfield
  unfold declaredEntry at h
  split at h
  · split at h
    · cases h
      exact hcredential
    · next names _ =>
      cases hname : credentialName names with
      | error e =>
          rw [hname] at h
          cases h
      | ok kind =>
          rw [hname] at h
          cases h
          exact hcredential
  · cases h
    exact hv

/-- Reading a declaration ends with the first of its flaws. -/
theorem declared_failsFirst (hdata : (Value.map data).isPlain = true) (hv : v.isPlain = true) :
    FailsFirst (declaredFlaws data v) (declared data (inputEntries data) v) := by
  unfold declared
  rw [opened_of_isPlain hv]
  cases v with
  | map es =>
      simp only [declaredFlaws]
      rw [filter_isTruthy]
      cases hname : filled? es "name" with
      | none => exact .ok _
      | some nameValue =>
          cases nameValue with
          | scalar key =>
              refine .bind (fieldText_failsFirst es _ _) fun type htype => ?_
              refine .bind (inputEntries_failsFirst hdata) fun inputs hinputs => ?_
              have hgiven := isPlain_givenValue (isPlain_of_inputEntries hdata hinputs) hv key
              refine .bind_of_nil (.ok key) fun key' hkey => ?_
              cases hkey
              simp only [← type_eq_credential_iff htype]
              refine .bind (declaredEntry_failsFirst data hv _ _ _) fun entry hentry => ?_
              have hvalue := isPlain_of_declaredEntry hdata hgiven hentry
              refine .bind_of_nil (settled_failsFirst hvalue) fun _ hsettled => ?_
              rw [parameterValue_of_isPlain (isPlain_of_settled hvalue hsettled)]
              refine .bind_of_nil (.ok _) fun _ _ => ?_
              exact .bind_pure (caption_failsFirst es)
          | _ =>
              refine .bind (fieldText_failsFirst es _ _) fun type htype => ?_
              refine .bind (inputEntries_failsFirst hdata) fun inputs hinputs => ?_
              exact .error _ _
  | _ => exact .error _ _

theorem declaredAll_failsFirst (hdata : (Value.map data).isPlain = true) (ps : Parameters)
    (hvs : ∀ v ∈ vs, v.isPlain = true) :
    FailsFirst (vs.flatMap (declaredFlaws data)) (declaredAll data (inputEntries data) ps vs) := by
  induction vs generalizing ps with
  | nil => exact .ok _
  | cons v vs ih =>
      rw [List.flatMap_cons]
      refine .bind (declared_failsFirst hdata (hvs v List.mem_cons_self)) fun p? _ => ?_
      exact ih _ fun v hv => hvs v (List.mem_cons_of_mem _ hv)

theorem declarations_eq (hdata : (Value.map data).isPlain = true) :
    declarations (field? data "inputParams") = match filled? data "inputParams" with
      | none => .ok []
      | some (.list xs) => .ok xs
      | some (.map es) => .ok (es.map fun e => .scalar e.1)
      | some (.str s) => .ok (s.toList.map fun c => .str (String.singleton c))
      | some _ => .error (.unfit .shape) := by
  unfold declarations filled?
  cases hfield : field? data "inputParams" with
  | none => rfl
  | some v =>
      have hv := isPlain_of_field? hdata hfield
      cases htruthy : v.isTruthy with
      | false => simp [htruthy, Option.filter_some]
      | true =>
          simp only [htruthy, Bool.not_true, Bool.false_eq_true, if_false, Option.filter_some, if_true,
            opened_of_isPlain hv]
          cases v with
          | scalar s => cases s <;> first | rfl | cases hv
          | list _ => rfl
          | map _ => rfl
          | _ => cases hv

theorem declarations_failsFirst (hdata : (Value.map data).isPlain = true) :
    FailsFirst (declarationFlaws data) (declarations (field? data "inputParams") >>=
      declaredAll data (inputEntries data) []) := by
  rw [declarations_eq hdata]
  unfold declarationFlaws
  cases hfilled : filled? data "inputParams" with
  | none => exact .ok _
  | some v =>
      obtain ⟨hplain, htruthy⟩ := isPlain_of_filled? hdata hfilled
      cases v with
      | list xs => exact declaredAll_failsFirst hdata [] (isPlain_list.mp hplain)
      | map es =>
          cases es with
          | nil => cases htruthy
          | cons e es => exact .error _ _
      | scalar s =>
          cases s with
          | str s =>
              simp only
              cases hchars : s.toList with
              | nil =>
                  rw [String.toList_eq_nil_iff] at hchars
                  subst hchars
                  cases htruthy
              | cons c cs => exact .error _ _
          | _ => exact .error _ _
      | _ => exact .error _ _

theorem exportedParameters_failsFirst (hdata : (Value.map data).isPlain = true) :
    FailsFirst (declarationFlaws data ++ inputFlaws data) (exportedParameters data) := by
  unfold exportedParameters
  simp only
  rw [← bind_assoc]
  refine .bind (declarations_failsFirst hdata) fun ps _ => ?_
  have hinputs : FailsFirst (inputFlaws data ++ []) (inputEntries data >>= fun inputs =>
      inputs.foldlM addInput ps) := by
    refine .bind (inputEntries_failsFirst hdata) fun inputs hinputs => ?_
    have hplain := isPlain_map.mp (isPlain_of_inputEntries hdata hinputs)
    have hflaws : inputs.flatMap (fun _ => ([] : List Fault)) = [] := by simp
    rw [← hflaws]
    refine .foldlM (fun ps e he => ?_) ps
    obtain ⟨b, hb⟩ := exists_isReference (hplain e he).2
    unfold addInput
    rw [hb, parameterValue_of_isPlain (hplain e he).2]
    split
    · exact .ok _
    · cases b <;> exact .ok _
  rwa [List.append_nil] at hinputs

-- ============================================================================
-- Nodes and connections
-- ============================================================================

/-- The text of the first filled value. -/
def filledText (vs : List (Option Value)) : String := ((firstFilled vs).map Value.display).getD ""

/-- The id of a node is the text of the first value that is filled. -/
def idFlaws (index : Nat) (vs : List (Option Value)) : List Fault :=
  match firstFilled vs with
  | none => [.document (.nodeWithoutId index)]
  | some v => textFlaws v

def plainNodeFlaws (index : Nat) (es : Entries) : List Fault :=
  idFlaws index [field? es "id"] ++ (optionalTextFlaws (field? es "type") ++
    (optionalTextFlaws (field? es "label") ++ (optionalTextFlaws (field? es "category") ++
    (parametersFlaws (filledText [field? es "id"]) (field? es "parameters") ++
    positionFlaws (field? es "position")))))

def exportedNodeFlaws (index : Nat) (es data : Entries) : List Fault :=
  idFlaws index [field? es "id", field? data "id"] ++
    (firstTextFlaws [field? data "name", field? data "type"] ++
    (optionalTextFlaws (field? data "label") ++ (optionalTextFlaws (field? data "category") ++
    ((declarationFlaws data ++ inputFlaws data) ++ positionFlaws (field? es "position")))))

/-- A node is a mapping with an id; details under `data` put it in exported form. -/
def nodeFlaws (index : Nat) : Value → List Fault
  | .map es => match field? es "data" with
    | some (.map data) => exportedNodeFlaws index es data
    | _ => plainNodeFlaws index es
  | _ => [.document (.nodeNotMapping index)]

theorem isPlain_of_firstFilled {vs : List (Option Value)}
    (hvs : ∀ v, some v ∈ vs → v.isPlain = true) (h : firstFilled vs = some v) :
    v.isPlain = true ∧ v.isTruthy = true := by
  obtain ⟨v?, hmem, hfilter⟩ := List.exists_of_findSome?_eq_some h
  obtain ⟨rfl, htruthy⟩ := Option.filter_eq_some_iff.mp hfilter
  exact ⟨hvs v hmem, htruthy⟩

/-- A part that is read after the id, and with it. -/
theorem id_failsFirst {α : Type} {f : String → Except Fault α} {flaws : List Fault}
    {vs : List (Option Value)} (hvs : ∀ v, some v ∈ vs → v.isPlain = true)
    (hf : FailsFirst flaws (f (filledText vs))) :
    FailsFirst (idFlaws index vs ++ flaws) (firstText vs >>= fun id =>
      if id = "" then (throw (.document (.nodeWithoutId index)) : Except Fault PUnit) >>= fun _ => f id
      else f id) := by
  have hfirst : firstText vs = match firstFilled vs with
    | some v => text v
    | none => .ok "" := rfl
  rw [hfirst, idFlaws]
  unfold filledText at hf
  cases hfilled : firstFilled vs with
  | none => exact .error _ _
  | some v =>
      rw [hfilled] at hf
      refine .bind (text_failsFirst v) fun id hid => ?_
      obtain ⟨hplain, htruthy⟩ := isPlain_of_firstFilled hvs hfilled
      rw [eq_display_of_text hid, if_neg (Value.display_ne_empty hplain htruthy)]
      exact hf

theorem node_failsFirst (index : Nat) (hv : v.isPlain = true) :
    FailsFirst (nodeFlaws index v) (Document.node index v) := by
  unfold Document.node
  rw [opened_of_isPlain hv]
  cases v with
  | map es =>
      have hfield (name : String) (v : Value) (h : field? es name = some v) : v.isPlain = true :=
        isPlain_of_field? hv h
      simp only [map_opened_field? hv]
      split
      · next data hdata =>
        have hflaws : nodeFlaws index (.map es) = exportedNodeFlaws index es data := by
          simp only [nodeFlaws, hdata]
        have hplain : (Value.map data).isPlain = true := hfield "data" _ hdata
        rw [hflaws]
        refine id_failsFirst (fun v hv => ?_) ?_
        · rcases List.mem_cons.mp hv with h | h
          · exact hfield _ v h.symm
          · exact isPlain_of_field? hplain (List.mem_singleton.mp h).symm
        refine .bind (firstText_failsFirst _) fun _ _ => ?_
        refine .bind (fieldText_failsFirst data _ _) fun _ _ => ?_
        refine .bind (fieldText_failsFirst data _ _) fun _ _ => ?_
        refine .bind (exportedParameters_failsFirst hplain) fun _ _ => ?_
        exact .bind_pure (position_failsFirst (hfield _))
      · next hdata =>
        have hflaws : nodeFlaws index (.map es) = plainNodeFlaws index es := by
          simp only [nodeFlaws]
        rw [hflaws]
        refine id_failsFirst (fun v hv => ?_) ?_
        · exact hfield _ v (List.mem_singleton.mp hv).symm
        refine .bind (fieldText_failsFirst es _ _) fun _ _ => ?_
        refine .bind (fieldText_failsFirst es _ _) fun _ _ => ?_
        refine .bind (fieldText_failsFirst es _ _) fun _ _ => ?_
        refine .bind (plainParameters_failsFirst _ (hfield _)) fun _ _ => ?_
        exact .bind_pure (position_failsFirst (hfield _))
  | _ => exact .error _ _

/-- The value under either of two keys. -/
def either? (es : Entries) (name other : String) : Option Value :=
  (field? es name).or (field? es other)

/-- A connection is a mapping with a source and a target. -/
def connectionFlaws (index : Nat) : Value → List Fault
  | .map es => match field? es "source", field? es "target" with
    | some source, some target =>
      textFlaws source ++ (textFlaws target ++ (firstTextFlaws [field? es "id"] ++
        (firstTextFlaws [either? es "sourceHandle" "source_handle"] ++
        firstTextFlaws [either? es "targetHandle" "target_handle"])))
    | _, _ => [.document (.connectionEnds index)]
  | _ => [.document (.connectionEnds index)]

theorem handle_failsFirst (es : Entries) (name other : String) :
    FailsFirst (firstTextFlaws [either? es name other]) (handle es name other) := by
  have heither : handle es name other = firstText [either? es name other] := by
    unfold handle either?
    cases field? es name with
    | none => rfl
    | some v => rfl
  rw [heither]
  exact firstText_failsFirst _

theorem connection_failsFirst (index : Nat) (hv : v.isPlain = true) :
    FailsFirst (connectionFlaws index v) (connection index v) := by
  unfold connection
  rw [opened_of_isPlain hv]
  cases v with
  | map es =>
      simp only [connectionFlaws]
      cases field? es "source" with
      | none => exact .error _ _
      | some source =>
          cases field? es "target" with
          | none => exact .error _ _
          | some target =>
              refine .bind (text_failsFirst source) fun _ _ => ?_
              refine .bind (text_failsFirst target) fun _ _ => ?_
              refine .bind (firstText_failsFirst _) fun _ _ => ?_
              refine .bind (handle_failsFirst es _ _) fun _ _ => ?_
              exact .bind_pure (handle_failsFirst es _ _)
  | _ => exact .error _ _

-- ============================================================================
-- Metadata
-- ============================================================================

/-- A pair has two parts, of which the first can be a key. -/
def partsFlaws : List Value → List Fault
  | [.scalar _, _] => []
  | [_, _] => [.unfit .shape]
  | _ => [.malformed]

/-- A pair is a list of two, a mapping of two keys or a text of two characters. -/
def pairFlaws : Value → List Fault
  | .list xs => partsFlaws xs
  | .map es => if es.length = 2 then [] else [.malformed]
  | .str s => if s.toList.length = 2 then [] else [.malformed]
  | _ => [.unfit .shape]

/-- Metadata is a mapping or a list of pairs. -/
def metadataFlaws : Option Value → List Fault
  | none | some (.map _) => []
  | some (.list xs) => xs.flatMap pairFlaws
  | some (.str _) => [.malformed]
  | some _ => [.unfit .shape]

theorem pairOf_failsFirst (vs : List Value) : FailsFirst (partsFlaws vs) (pairOf vs) := by
  match vs with
  | [] => exact .error _ _
  | [v] => cases v <;> exact .error _ _
  | [v, _] => cases v <;> first | exact .ok _ | exact .error _ _
  | v :: _ :: _ :: _ => cases v <;> exact .error _ _

theorem pairOf_scalars_failsFirst {α : Type} (f : α → Scalar) (xs : List α) :
    FailsFirst (if xs.length = 2 then [] else [.malformed])
      (pairOf (xs.map fun x => .scalar (f x))) := by
  match xs with
  | [] => exact .error _ _
  | [_] => exact .error _ _
  | [_, _] => exact .ok _
  | _ :: _ :: _ :: xs =>
      rw [if_neg (by simp)]
      exact .error _ _

theorem pair_failsFirst (hv : v.isPlain = true) : FailsFirst (pairFlaws v) (pair v) := by
  unfold pair
  rw [opened_of_isPlain hv]
  cases v with
  | list xs => exact pairOf_failsFirst xs
  | map es => exact pairOf_scalars_failsFirst (·.1) es
  | scalar s =>
      cases s with
      | str s => exact pairOf_scalars_failsFirst (fun c => .str (String.singleton c)) s.toList
      | bytes _ => cases hv
      | _ => exact .error _ _
  | set _ => cases hv
  | pair _ _ => cases hv
  | _ => exact .error _ _

theorem ofPairs_failsFirst (done : Entries) (hvs : ∀ v ∈ vs, v.isPlain = true) :
    FailsFirst (vs.flatMap pairFlaws) (ofPairs done vs) := by
  induction vs generalizing done with
  | nil => exact .ok _
  | cons v vs ih =>
      rw [List.flatMap_cons]
      refine .bind (pair_failsFirst (hvs v List.mem_cons_self)) fun entry _ => ?_
      exact ih _ fun v hv => hvs v (List.mem_cons_of_mem _ hv)

theorem metadataEntries_failsFirst (hdata : (Value.map data).isPlain = true) :
    FailsFirst (metadataFlaws (filled? data "metadata"))
      (metadataEntries (field? data "metadata")) := by
  rw [metadataEntries, filter_isTruthy, map_opened_filled? hdata]
  cases hfilled : filled? data "metadata" with
  | none => exact .ok _
  | some v =>
      have hv := (isPlain_of_filled? hdata hfilled).1
      cases v with
      | list xs => exact ofPairs_failsFirst [] (isPlain_list.mp hv)
      | map es => exact .ok _
      | scalar s => cases s <;> exact .error _ _
      | set _ => cases hv
      | pair _ _ => cases hv
      | _ => exact .error _ _

-- ============================================================================
-- Documents
-- ============================================================================

/-- What is wrong with a document, in reading order.  It is a mapping with two lists, of nodes and
of connections, which are read one after the other, and then the metadata. -/
def flaws : Value → List Fault
  | .map data => match elements (field? data "nodes"), connectionElements data with
    | .list nodes, .list connections =>
      eachFlaws nodeFlaws 0 nodes ++ (eachFlaws connectionFlaws 0 connections ++
        metadataFlaws (filled? data "metadata"))
    | _, _ => [.document .notLists]
  | _ => [.document .notMapping]

theorem isPlain_elements (hdata : (Value.map data).isPlain = true) (name : String) :
    (elements (field? data name)).isPlain = true := by
  unfold elements
  split
  · next v h =>
    split
    · exact isPlain_of_field? hdata h
    · rfl
  · rfl

theorem isPlain_connectionElements (hdata : (Value.map data).isPlain = true) :
    (connectionElements data).isPlain = true := by
  unfold connectionElements
  split
  · exact isPlain_elements hdata "edges"
  · exact isPlain_elements hdata "edges"
  · next h => exact isPlain_of_field? hdata h

/-- The load of a document ends with the first of its flaws. -/
theorem graph_failsFirst (hv : v.isPlain = true) : FailsFirst (flaws v) (graph v) := by
  unfold graph
  rw [opened_of_isPlain hv]
  cases v with
  | map data =>
      have hnodes := isPlain_elements hv "nodes"
      have hconnections := isPlain_connectionElements hv
      simp only [opened_of_isPlain hnodes, opened_of_isPlain hconnections]
      split
      · next nodes connections heqNodes heqConnections =>
        rw [heqNodes] at hnodes
        rw [heqConnections] at hconnections
        simp only [flaws, heqNodes, heqConnections]
        refine .bind (readAll_failsFirst (fun i _ => node_failsFirst i) 0 (isPlain_list.mp hnodes))
          fun _ _ => ?_
        refine .bind (readAll_failsFirst (fun i _ => connection_failsFirst i) 0
          (isPlain_list.mp hconnections)) fun _ _ => ?_
        exact .bind_pure (metadataEntries_failsFirst hv)
      · next hlists =>
        have hflaws : flaws (.map data) = [.document .notLists] := by
          simp only [flaws]
        rw [hflaws]
        exact .error _ _
  | _ => exact .error _ _

/-- A document of plain values loads if it has no flaw, and otherwise its load ends with the first
of them.  So a document neither loads nor is refused exactly if its first flaw is no refusal. -/
theorem graph_ends_with_first_flaw (v : Value) (hv : v.isPlain = true) :
    (∀ e, graph v = .error e ↔ (flaws v).head? = some e) ∧
      ((∃ g, graph v = .ok g) ↔ flaws v = []) ∧
      (((∃ g, graph v = .ok g) ∨ ∃ f, graph v = .error (.document f)) ↔
        ∀ e, (flaws v).head? = some e → ∃ f, e = .document f) := by
  have hfirst := graph_failsFirst hv
  refine ⟨fun e => hfirst.eq_error_iff, hfirst.exists_eq_ok_iff, ?_⟩
  constructor
  · rintro (hok | ⟨f, hf⟩) e he
    · rw [hfirst.exists_eq_ok_iff.mp hok] at he
      cases he
    · rw [hfirst.eq_error_iff, he] at hf
      cases hf
      exact ⟨f, rfl⟩
  · intro hrefusal
    cases hgraph : graph v with
    | ok g => exact .inl ⟨g, rfl⟩
    | error e =>
        obtain ⟨f, rfl⟩ := hrefusal e (hfirst.eq_error_iff.mp hgraph)
        exact .inr ⟨f, rfl⟩

/-- A node at a place to the right of the origin. -/
def placedNode (x : Int) : Value :=
  .record [("id", .str "a"), ("type", .str "t"), ("position", .list [.int x, .int 0])]

theorem flaws_placedNode {x : Int} (hx : (Double.ofInt? x).isNone = true) :
    flaws (.record [("nodes", .list [placedNode x])]) = [.outOfRange] := by
  have horigin : (Double.ofInt? 0).isNone = false := rfl
  show coordinateFlaws (some (.int x)) ++ coordinateFlaws (some (.int 0)) ++ [] ++ [] = [.outOfRange]
  simp only [coordinateFlaws, hx, horigin, Bool.false_eq_true, if_true, if_false, List.append_nil]

/-- A node too far to the right for a floating-point number escapes the load; behind a number in
place of a node it goes unnoticed. -/
theorem placedNode_escapes :
    graph (.record [("nodes", .list [placedNode (10 ^ 400)])]) = .error .outOfRange ∧
      graph (.record [("nodes", .list [.int 3, placedNode (10 ^ 400)])]) =
        .error (.document (.nodeNotMapping 0)) ∧
      ∃ g, graph (.record [("nodes", .list [placedNode 5])]) = .ok g := by
  have hfar : (Double.ofInt? (10 ^ 400)).isNone = true := by decide +kernel
  refine ⟨?_, ?_, ?_⟩
  · refine ((graph_ends_with_first_flaw _ rfl).1 _).mpr ?_
    rw [flaws_placedNode hfar]
    rfl
  · exact ((graph_ends_with_first_flaw _ rfl).1 _).mpr rfl
  · exact (graph_ends_with_first_flaw _ rfl).2.1.mpr rfl

end Flowscript.Document

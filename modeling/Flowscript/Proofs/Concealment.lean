/-
  Flowscript.Proofs.Concealment

  Graphs without the texts of their secrets.

  A parameter is hidden if it holds a secret and nothing looks it up by its name.
  Concealing a graph takes the text out of each hidden parameter, and leaves its name, its
  type and the kind of its value.  Graphs that differ in such texts only are the same when
  concealed (`Graph.SameButSecrets.concealed_eq`).  A concealed graph is ordered
  (`Strategy.order_concealed`) and bound (`Graph.bound_concealed`) as the graph itself,
  since neither looks at parameters.
-/
import Mathlib.Data.List.Forall2
import Flowscript.Conversion.Convert

namespace Flowscript

variable {g g' : Graph} {n n' : Node}

-- ============================================================================
-- Concealing
-- ============================================================================

/-- The names of the parameters that converters, their rules and the settings of a program look
up. -/
def lookedUpNames : List String := [
  -- language models
  "modelName", "model", "temperature", "maxTokens", "streaming", "topP", "topK", "timeout",
  "frequencyPenalty", "presencePenalty", "azureOpenAIApiInstanceName",
  "azureOpenAIApiDeploymentName", "azureOpenAIApiVersion", "baseUrl",
  -- chains and memories
  "outputKey", "verbose", "memoryKey", "inputKey", "humanPrefix", "aiPrefix", "returnMessages", "k",
  -- prompts and tools
  "template", "systemMessagePrompt", "systemMessage", "humanMessagePrompt", "humanMessage",
  "location", "hl", "gl"]

def Scalar.isLookedUp : Scalar → Bool
  | .str name => name ∈ lookedUpNames
  | _ => false

/-- The parameter that stands under a name is a secret, and nothing looks the name up. -/
def Parameter.isHidden (e : Scalar × Parameter) : Bool := e.2.isCredential && !e.1.isLookedUp

/-- A key that is the same as a text is that text. -/
theorem Scalar.eq_str_of_sameKey {k : Scalar} {name : String} (h : k.sameKey (.str name) = true) :
    k = .str name := by
  have hkey : k.key = .str name := of_decide_eq_true h
  cases k with
  | float x =>
      simp only [key] at hkey
      split at hkey <;> cases hkey
  | bool b => cases hkey
  | _ => exact hkey

/-- A text is taken out, any other value stays. -/
def ParameterValue.withoutText : ParameterValue → ParameterValue
  | .string _ => .string ""
  | v => v

def Parameter.concealed (e : Scalar × Parameter) : Scalar × Parameter :=
  if isHidden e then (e.1, { e.2 with value := e.2.value.withoutText }) else e

/-- The node without the texts of its hidden parameters. -/
def Node.concealed (n : Node) : Node := { n with parameters := n.parameters.map Parameter.concealed }

/-- The graph without the texts of the hidden parameters of its nodes. -/
def Graph.concealed (g : Graph) : Graph := { g with nodes := g.nodes.map Node.concealed }

-- ============================================================================
-- Differing in secrets only
-- ============================================================================

/-- The parameters under a name are equal, or are a hidden one with two texts. -/
def Parameter.SameButSecret (e e' : Scalar × Parameter) : Prop :=
  e = e' ∨ isHidden e = true ∧ ∃ t t', e.2.value = .string t ∧
    e' = (e.1, { e.2 with value := .string t' })

/-- The nodes are equal except for texts of hidden parameters. -/
structure Node.SameButSecrets (n n' : Node) : Prop where
  rest : n' = { n with parameters := n'.parameters }
  parameters : List.Forall₂ Parameter.SameButSecret n.parameters n'.parameters

/-- The graphs are equal except for texts of hidden parameters. -/
structure Graph.SameButSecrets (g g' : Graph) : Prop where
  nodes : List.Forall₂ Node.SameButSecrets g.nodes g'.nodes
  connections : g.connections = g'.connections
  metadata : g.metadata = g'.metadata

/-- Lists that are related element by element have the same image under a map that related
elements have the same image under. -/
theorem map_eq_map_of_forall₂ {α β : Type} {R : α → α → Prop} {f : α → β} {xs ys : List α}
    (hf : ∀ x y, R x y → f x = f y) (h : List.Forall₂ R xs ys) : xs.map f = ys.map f := by
  rw [← List.forall₂_eq_eq_eq, List.forall₂_map_left_iff, List.forall₂_map_right_iff]
  exact h.imp hf

theorem Parameter.SameButSecret.concealed_eq {e e' : Scalar × Parameter}
    (h : SameButSecret e e') : concealed e = concealed e' := by
  rcases h with rfl | ⟨hhidden, t, t', hvalue, rfl⟩
  · rfl
  · have hhidden' : isHidden (e.1, { e.2 with value := .string t' }) = true := hhidden
    simp only [concealed, hhidden, hhidden', if_true, hvalue, ParameterValue.withoutText]

theorem Node.SameButSecrets.concealed_eq (h : n.SameButSecrets n') : n.concealed = n'.concealed := by
  have hparameters := map_eq_map_of_forall₂
    (fun _ _ h => Parameter.SameButSecret.concealed_eq h) h.parameters
  rw [h.rest, concealed, hparameters]
  rfl

/-- Graphs that differ in secrets only are the same when concealed. -/
theorem Graph.SameButSecrets.concealed_eq (h : g.SameButSecrets g') : g.concealed = g'.concealed := by
  have hnodes := map_eq_map_of_forall₂ (fun _ _ h => Node.SameButSecrets.concealed_eq h) h.nodes
  rw [concealed, concealed, hnodes, h.connections, h.metadata]

-- ============================================================================
-- What is read of a concealed node
-- ============================================================================

namespace Parameter

@[simp] theorem concealed_fst (e : Scalar × Parameter) : (concealed e).1 = e.1 := by
  unfold concealed
  split <;> rfl

@[simp] theorem concealed_name (e : Scalar × Parameter) : (concealed e).2.name = e.2.name := by
  unfold concealed
  split <;> rfl

@[simp] theorem concealed_description (e : Scalar × Parameter) :
    (concealed e).2.description = e.2.description := by
  unfold concealed
  split <;> rfl

@[simp] theorem isCredential_concealed (e : Scalar × Parameter) :
    (concealed e).2.isCredential = e.2.isCredential := by
  unfold concealed
  split <;> rfl

/-- A parameter that holds no secret is not concealed. -/
theorem concealed_of_not_isCredential {e : Scalar × Parameter} (h : e.2.isCredential = false) :
    concealed e = e := by
  simp [concealed, isHidden, h]

/-- A parameter that is looked up is not concealed. -/
theorem concealed_of_isLookedUp {e : Scalar × Parameter} (h : e.1.isLookedUp = true) :
    concealed e = e := by
  simp [concealed, isHidden, h]

end Parameter

namespace Node

@[simp] theorem concealed_id (n : Node) : n.concealed.id = n.id := rfl

@[simp] theorem concealed_type (n : Node) : n.concealed.type = n.type := rfl

@[simp] theorem caption_concealed (n : Node) : n.concealed.caption = n.caption := rfl

/-- What is looked up is not concealed. -/
theorem param_concealed (n : Node) {name : String} (h : name ∈ lookedUpNames) :
    n.concealed.param name = n.param name := by
  have hfind : (n.parameters.map Parameter.concealed).find? (fun e => e.1.sameKey (.str name)) =
      (n.parameters.find? fun e => e.1.sameKey (.str name)).map Parameter.concealed := by
    simp only [List.find?_map, Function.comp_def, Parameter.concealed_fst]
  unfold param Parameters.get?
  rw [show n.concealed.parameters = n.parameters.map Parameter.concealed from rfl, hfind]
  cases he : n.parameters.find? fun e => e.1.sameKey (.str name) with
  | none => rfl
  | some e =>
      have hkey : e.1.sameKey (.str name) = true := by simpa using List.find?_some he
      have hlooked : e.1.isLookedUp = true := by
        rw [Scalar.eq_str_of_sameKey hkey]
        exact decide_eq_true h
      rw [Option.map_some, Parameter.concealed_of_isLookedUp hlooked]

/-- The secrets of a concealed node are those of the node, as far as their values are not asked
for. -/
theorem map_credentials_concealed {α : Type} (n : Node) {f : Parameter → α}
    (hf : ∀ e, f (Parameter.concealed e).2 = f e.2) :
    n.concealed.credentials.map f = n.credentials.map f := by
  simp [credentials, concealed, List.filter_map, List.map_map, Function.comp_def, hf]

end Node

-- ============================================================================
-- Concealed graphs are ordered as the graphs themselves
-- ============================================================================

namespace Graph

@[simp] theorem nodes_concealed (g : Graph) : g.concealed.nodes = g.nodes.map Node.concealed := rfl

@[simp] theorem connections_concealed (g : Graph) : g.concealed.connections = g.connections := rfl

@[simp] theorem meta?_concealed (g : Graph) (key : String) : g.concealed.meta? key = g.meta? key :=
  rfl

@[simp] theorem name_concealed (g : Graph) : g.concealed.name = g.name := rfl

@[simp] theorem nodeIds_concealed (g : Graph) : g.concealed.nodeIds = g.nodeIds := by
  simp [nodeIds]

@[simp] theorem distinctIds_concealed (g : Graph) : g.concealed.distinctIds = g.distinctIds := by
  simp [distinctIds]

@[simp] theorem knows_concealed (g : Graph) (id : String) : g.concealed.knows id = g.knows id := by
  rw [knows, nodes_concealed, List.any_map]
  rfl

@[simp] theorem successors_concealed (g : Graph) (id : String) :
    g.concealed.successors id = g.successors id := by
  simp [successors, joins]

theorem node?_concealed (g : Graph) (id : String) :
    g.concealed.node? id = (g.node? id).map Node.concealed := by
  rw [node?, nodes_concealed, List.find?_map]
  rfl

theorem firstNodes_concealed (g : Graph) (ids : List String) :
    g.concealed.firstNodes ids = (g.firstNodes ids).map Node.concealed := by
  simp only [firstNodes, List.map_filterMap, node?_concealed]

theorem inOrder_concealed (g : Graph) (ns : List Node) :
    g.concealed.inOrder (ns.map Node.concealed) = (g.inOrder ns).map Node.concealed := by
  simp only [inOrder, List.map_filterMap, List.filterMap_map, Function.comp_def, node?_concealed,
    Node.concealed_id]

end Graph

/-- The search for cycles asks for the successors of nodes only. -/
theorem Cycle.explore_concealed (g : Graph) (fuel : Nat) (path : Cycle.Path) (id : String)
    (s : Cycle.Search) :
    Cycle.explore g.concealed fuel path id s = Cycle.explore g fuel path id s := by
  induction fuel generalizing path id s with
  | zero => rfl
  | succ fuel ih => simp only [explore, Graph.successors_concealed, ih]

@[simp] theorem Graph.cycles_concealed (g : Graph) : g.concealed.cycles = g.cycles := by
  have hfrom : Cycle.exploreFrom g.concealed = Cycle.exploreFrom g := by
    funext s id
    simp only [Cycle.exploreFrom, Cycle.explore_concealed, nodes_concealed, List.length_map]
  rw [cycles, cycles, hfrom, distinctIds_concealed]

@[simp] theorem Graph.orderRefusal_concealed (g : Graph) :
    g.concealed.orderRefusal = g.orderRefusal := by
  rw [orderRefusal, orderRefusal, cycles_concealed]

namespace DepthFirst

/-- A walk asks for the connections of a graph only. -/
theorem Walk.run_concealed (g : Graph) (fuel : Nat) (w : Walk) :
    w.run g.concealed fuel = w.run g fuel := by
  have hstep : Walk.step g.concealed = Walk.step g := rfl
  induction fuel generalizing w with
  | zero => rfl
  | succ fuel ih =>
      have hrun : Walk.run g.concealed fuel = Walk.run g fuel := funext ih
      rw [run, run, hstep, hrun]

theorem ids?_concealed (g : Graph) : ids? g.concealed = ids? g := by
  have hentry : g.concealed.entryNodes = g.entryNodes.map Node.concealed := List.filter_map
  have hroots : roots g.concealed = roots g := by
    rw [roots, roots, hentry, List.map_map, Graph.nodeIds_concealed]
    rfl
  have hvisit : Walk.visit g.concealed = Walk.visit g := by
    funext w id
    have henter : w.enter g.concealed id = w.enter g id := rfl
    simp only [Walk.visit, Walk.run_concealed, henter, Walk.bound, Graph.nodes_concealed,
      List.length_map, Graph.connections_concealed]
  rw [ids?, ids?, hroots, hvisit]

end DepthFirst

theorem Kahn.ids_concealed (g : Graph) : Kahn.ids g.concealed = Kahn.ids g := by
  simp only [ids, Graph.distinctIds_concealed, Graph.successors_concealed]

/-- The nodes of a concealed graph stand in the order of the graph's own. -/
theorem Strategy.order_concealed (s : Strategy) (g : Graph) :
    s.order g.concealed = (s.order g).map (List.map Node.concealed) := by
  cases s with
  | depthFirst =>
      simp only [order, DepthFirst.order, DepthFirst.ids?_concealed, Graph.orderRefusal_concealed,
        Graph.firstNodes_concealed]
      cases DepthFirst.ids? g <;> rfl
  | kahn =>
      simp only [order, Kahn.order, Kahn.ids_concealed, Graph.orderRefusal_concealed,
        Graph.firstNodes_concealed, Graph.distinctIds_concealed]
      split <;> rfl

-- ============================================================================
-- Concealed graphs are bound as the graphs themselves
-- ============================================================================

theorem Graph.assignNames_concealed (names : List (String × String)) (taken : List String)
    (ns : List Node) :
    assignNames names taken (ns.map Node.concealed) = assignNames names taken ns := by
  induction ns generalizing names taken with
  | nil => rfl
  | cons n ns ih => simp only [List.map_cons, assignNames, ih, Node.caption_concealed, Node.concealed_id]

@[simp] theorem Graph.varNames_concealed (g : Graph) : g.concealed.varNames = g.varNames :=
  assignNames_concealed _ _ _

theorem Graph.bound_concealed (g : Graph) : g.concealed.bound = g.bound.concealed := by
  have hbind : (fun n => g.concealed.bind (Node.concealed n) g.varNames) =
      fun n => (g.bind n g.varNames).concealed := rfl
  simp only [bound, varNames_concealed, nodes_concealed, List.map_map, Function.comp_def, hbind]
  simp only [concealed, List.map_map, Function.comp_def]

end Flowscript

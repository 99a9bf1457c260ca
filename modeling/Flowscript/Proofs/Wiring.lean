/-
  Flowscript.Proofs.Wiring

  The inputs of a node hold the variables that its connections bring, each once and in the
  order in which they are first brought.

  Connections are wired one after another, so what wiring one variable keeps holds of all
  inputs (`wireAll_of_wire`).  A variable that comes in new was brought by no earlier
  connection, and the variables that are there already were, so it belongs behind them
  (`ordered_wiredTo_wireAll`).
-/
import Flowscript.Proofs.VariableNames
import Flowscript.Proofs.Words

namespace Flowscript

-- ============================================================================
-- Handles
-- ============================================================================

/-- The name of an input is read behind the target's own id, whatever the id is made of. -/
theorem Connection.inputName_of_handle {c : Connection} {name type : String}
    (hname : '-' ∉ name.toList)
    (h : c.targetHandle = c.target ++ "-input-" ++ name ++ "-" ++ type) : c.inputName = name := by
  have hchars : c.targetHandle.toList =
      (c.target.toList ++ "-input-".toList) ++ (name.toList ++ '-' :: type.toList) := by
    simp [h, String.toList_append]
  rw [inputName, hchars, Text.after?_append]
  dsimp only
  rw [Text.cutAt_append hname, String.ofList_toList]

namespace Graph

variable {names : List (String × String)} {cs : List Connection} {k : Connection}
  {input i v : String} {inputs : List (String × List String)} {e : String × List String}

/-- A connection brings a variable to an input. -/
def Brings (names : List (String × String)) (input v : String) (k : Connection) : Prop :=
  k.inputName = input ∧ Assoc.get? names k.source = some v

instance : Decidable (Brings names input v k) :=
  inferInstanceAs (Decidable (k.inputName = input ∧ Assoc.get? names k.source = some v))

-- ============================================================================
-- Inputs
-- ============================================================================

/-- What stands under an input is what the input holds. -/
theorem wiredTo_of_mem (hnodup : (inputs.map (·.1)).Nodup) (he : e ∈ inputs) :
    wiredTo inputs e.1 = e.2 := by
  rw [wiredTo, (Assoc.get?_eq_some_iff hnodup).mpr he]
  rfl

/-- What holds of no inputs and is kept when a variable is wired holds of all inputs. -/
theorem wireAll_of_wire {P : List (String × List String) → Prop} (hnil : P [])
    (hwire : ∀ input v inputs, P inputs → P (wire input v inputs))
    (names : List (String × String)) (cs : List Connection) : P (wireAll names cs) := by
  induction cs using List.reverseRecOn with
  | nil => exact hnil
  | append_singleton cs k ih =>
      rw [wireAll_concat]
      split
      · exact hwire _ _ _ ih
      · exact ih

theorem nodup_wireAll (names : List (String × String)) (cs : List Connection) :
    ((wireAll names cs).map (·.1)).Nodup := by
  refine wireAll_of_wire (P := fun inputs => (inputs.map (·.1)).Nodup) List.nodup_nil ?_ names cs
  exact fun input v inputs h => Assoc.nodup_put h

theorem ne_nil_of_mem_wireAll (names : List (String × String)) (cs : List Connection) :
    ∀ e ∈ wireAll names cs, e.2 ≠ [] := by
  refine wireAll_of_wire (P := fun inputs => ∀ e ∈ inputs, e.2 ≠ []) (by simp) ?_ names cs
  intro input v inputs h e he
  rcases Assoc.eq_or_mem_of_mem_put he with rfl | he
  · dsimp only
    split
    · next hmem => exact List.ne_nil_of_mem hmem
    · simp
  · exact h e he

-- ============================================================================
-- Order
-- ============================================================================

/-- More connections do not change which of the first ones brings a variable first. -/
theorem findIdx_brings_append (h : v ∈ wiredTo (wireAll names cs) i) (ks : List Connection) :
    (cs ++ ks).findIdx (Brings names i v ·) = cs.findIdx (Brings names i v ·) ∧
      cs.findIdx (Brings names i v ·) < cs.length := by
  obtain ⟨k, hk, hbrings⟩ := mem_wiredTo_wireAll.mp h
  have hlt : cs.findIdx (Brings names i v ·) < cs.length :=
    List.findIdx_lt_length_of_exists ⟨k, hk, decide_eq_true hbrings⟩
  rw [List.findIdx_append, if_pos hlt]
  exact ⟨rfl, hlt⟩

theorem length_le_findIdx_brings_append (h : v ∉ wiredTo (wireAll names cs) i)
    (ks : List Connection) : cs.length ≤ (cs ++ ks).findIdx (Brings names i v ·) := by
  have hnone : ¬ cs.findIdx (Brings names i v ·) < cs.length := by
    intro hlt
    obtain ⟨k, hk, hbrings⟩ := List.findIdx_lt_length.mp hlt
    exact h (mem_wiredTo_wireAll.mpr ⟨k, hk, of_decide_eq_true hbrings⟩)
  rw [List.findIdx_append, if_neg hnone]
  exact Nat.le_add_left _ _

/-- The variables of an input stand in the order of the first connections that bring them. -/
theorem ordered_wiredTo_wireAll (names : List (String × String)) (cs : List Connection)
    (i : String) : (wiredTo (wireAll names cs) i).Pairwise fun u v =>
      cs.findIdx (Brings names i u ·) < cs.findIdx (Brings names i v ·) := by
  induction cs using List.reverseRecOn with
  | nil => exact List.Pairwise.nil
  | append_singleton cs k ih =>
      -- one more connection does not move those that are there
      have hkept : (wiredTo (wireAll names cs) i).Pairwise fun u v =>
          (cs ++ [k]).findIdx (Brings names i u ·) < (cs ++ [k]).findIdx (Brings names i v ·) := by
        refine ih.imp_of_mem fun hu hv hlt => ?_
        rwa [(findIdx_brings_append hu [k]).1, (findIdx_brings_append hv [k]).1]
      rw [wireAll_concat]
      split
      · next w hw =>
        rw [wiredTo_wire]
        split
        · split
          · exact hkept
          · next hnew =>
            refine List.pairwise_append.mpr ⟨hkept, List.pairwise_singleton _ _, ?_⟩
            intro u hu v hv
            obtain rfl := List.mem_singleton.mp hv
            obtain ⟨hsame, hlt⟩ := findIdx_brings_append hu [k]
            have hle := length_le_findIdx_brings_append hnew [k]
            omega
        · exact hkept
      · exact hkept

-- ============================================================================
-- Bound nodes
-- ============================================================================

/-- A bound node has the variables that connections bring to it and no others, each input
once and none of them empty, each variable once and in the order in which the first connections
bring them.  Nothing else of the node is changed. -/
theorem bind_wires (g : Graph) (n : Node) (names : List (String × String)) :
    ((g.bind n names).inputs.map (·.1)).Nodup ∧
      (∀ input v, v ∈ wiredTo (g.bind n names).inputs input ↔
        ∃ k ∈ g.connections, k.target = n.id ∧ Brings names input v k) ∧
      (∀ e ∈ (g.bind n names).inputs, e.2 ≠ [] ∧ e.2.Nodup ∧
        e.2.Pairwise fun u v => (g.incoming n.id).findIdx (Brings names e.1 u ·) <
          (g.incoming n.id).findIdx (Brings names e.1 v ·)) ∧
      (∀ (c : Connection) (name type : String), '-' ∉ name.toList →
        c.targetHandle = c.target ++ "-input-" ++ name ++ "-" ++ type → c.inputName = name) ∧
      { g.bind n names with varName := n.varName, inputs := n.inputs } = n := by
  have hnodup := nodup_wireAll names (g.incoming n.id)
  refine ⟨hnodup, fun input v => ?_, fun e he => ?_, ?_, rfl⟩
  · rw [show (g.bind n names).inputs = wireAll names (g.incoming n.id) from rfl,
      mem_wiredTo_wireAll]
    simp [incoming, Brings, and_assoc]
  · have hordered := ordered_wiredTo_wireAll names (g.incoming n.id) e.1
    rw [wiredTo_of_mem hnodup he] at hordered
    refine ⟨ne_nil_of_mem_wireAll names _ e he, hordered.imp ?_, hordered⟩
    rintro u v hlt rfl
    exact absurd hlt (Nat.lt_irrefl _)
  · exact fun c name type hname h => Connection.inputName_of_handle hname h

/-- An agent whose id looks like a handle, with tools from four connections, one of them from
something without a variable, and a model. -/
def toolbox : Graph :=
  { nodes := [
      { id := "calc", type := "calculator" }, { id := "find", type := "serpAPI" },
      { id := "chat", type := "chatOpenAI" }, { id := "my-input-agent-0", type := "agent" }]
    connections := [
      { id := "e1", source := "ghost", target := "my-input-agent-0", targetHandle := "tools" },
      { id := "e2", source := "find", target := "my-input-agent-0", targetHandle := "tools" },
      { id := "e3", source := "chat", target := "my-input-agent-0",
        targetHandle := "my-input-agent-0-input-model-Base-Model" },
      { id := "e4", source := "calc", target := "my-input-agent-0",
        targetHandle := "my-input-agent-0-input-tools-Tool" },
      { id := "e5", source := "find", target := "my-input-agent-0",
        targetHandle := "my-input-agent-0-input-tools-Tool" }] }

theorem toolbox_wires :
    ∃ n ∈ toolbox.nodes, n.id = "my-input-agent-0" ∧
      (toolbox.bind n toolbox.varNames).inputs =
        [("tools", ["serpapi", "calculator"]), ("model", ["chatopenai"])] ∧
      (∀ e ∈ (toolbox.bind n toolbox.varNames).inputs, e.2 ≠ [] ∧ e.2.Nodup ∧
        e.2.Pairwise fun u v =>
          (toolbox.incoming n.id).findIdx (Brings toolbox.varNames e.1 u ·) <
            (toolbox.incoming n.id).findIdx (Brings toolbox.varNames e.1 v ·)) ∧
      ∀ c ∈ toolbox.connections,
        c.targetHandle = "my-input-agent-0-input-model-Base-Model" → c.inputName = "model" := by
  refine ⟨{ id := "my-input-agent-0", type := "agent" }, by simp [toolbox], rfl,
    by decide +kernel, ?_⟩
  obtain ⟨-, -, hlists, hhandle, -⟩ :=
    bind_wires toolbox { id := "my-input-agent-0", type := "agent" } toolbox.varNames
  refine ⟨hlists, fun c hc h => hhandle c "model" "Base-Model" (by decide) ?_⟩
  have htarget : ∀ c ∈ toolbox.connections, c.target = "my-input-agent-0" := by decide
  rw [h, htarget c hc]
  rfl

end Graph

end Flowscript

import Mathlib.Algebra.Order.Floor.Div
import PaciNet.Lib.Binary64
import PaciNet.Proof.FailedCalls
import PaciNet.Proof.InstanceDeploys

/-!
# The slices of a batched deploy

A batched deploy that is executed again and again on the same nodes takes them slice by slice. The
size of a slice is computed in double precision, the place where the next one begins is kept in 32
bits. **Below `2 ^ 32` nodes the executions pass on one slice after the other, each of the exact
size, and the first to find all batches done is the one after the last slice; from there on the
place is cut off and that execution begins anew (`batchSlices_iff`).**
-/

set_option autoImplicit false

namespace PaciNet

open Lib Prog

/-! ## The size of a slice -/

/-- `batch_size` of `execute_deploy`, in `f64`. -/
def floatBatchSize (total percent : Nat) : Nat :=
  let product := Binary64.round (Binary64.round total * Binary64.round percent)
  min (max ⌈Binary64.round (product / 100)⌉.toNat 1) total

theorem toNat_ceil_div (m : Nat) : ⌈(m : ℚ) / (100 : ℕ)⌉.toNat = (m + 99) / 100 := by
  have hpos : (0 : ℚ) < (100 : ℕ) := by norm_num
  have hiff (k : ℤ) : ⌈(m : ℚ) / (100 : ℕ)⌉ ≤ k ↔ (m : ℤ) ≤ k * 100 := by
    rw [Int.ceil_le, div_le_iff₀ hpos]
    exact_mod_cast Iff.rfl
  have hup := (hiff ⌈(m : ℚ) / (100 : ℕ)⌉).1 le_rfl
  have hdown : ¬ (m : ℤ) ≤ (⌈(m : ℚ) / (100 : ℕ)⌉ - 1) * 100 := by
    rw [← hiff]
    omega
  omega

/-- The size is exact while the product fits 53 bits. -/
theorem floatBatchSize_eq {total percent : Nat} (htotal : total < 2 ^ 53)
    (hpercent : percent < 2 ^ 53) (hproduct : total * percent < 2 ^ 53) :
    floatBatchSize total percent = batchSize total percent := by
  have hmul : ((total : ℚ) * percent) = ((total * percent : ℕ) : ℚ) := by
    push_cast
    ring
  have hdiv := Binary64.ceil_round_div (d := 100) hproduct (by norm_num)
  have hhundred : ((100 : ℕ) : ℚ) = 100 := by norm_num
  simp only [floatBatchSize, Binary64.round_natCast htotal, Binary64.round_natCast hpercent, hmul,
    Binary64.round_natCast hproduct, ← hhundred, hdiv, toNat_ceil_div, batchSize]

theorem one_le_batchSize {total percent : Nat} (h : 0 < total) : 1 ≤ batchSize total percent := by
  unfold batchSize
  omega

/-! ## Slices of a list -/

section Slices

variable {α : Type}

/-- The elements from `k * size` up to the next slice or the end. -/
def sliceOf (size k : Nat) (items : List α) : List α :=
  (items.take ((k + 1) * size)).drop (k * size)

/-- The number of slices. -/
def sliceCount (size total : Nat) : Nat := total ⌈/⌉ size

theorem lt_sliceCount {size total k : Nat} (h : 0 < size) :
    k < sliceCount size total ↔ k * size < total := by
  rw [sliceCount, ← not_le, ceilDiv_le_iff_le_mul h, not_le, mul_comm]

/-- **Every element is in one slice**: the slices in turn are the list. -/
theorem flatMap_sliceOf {size : Nat} (items : List α) (h : 0 < size) :
    (List.range (sliceCount size items.length)).flatMap (fun k => sliceOf size k items) =
      items := by
  have htaken (m : Nat) :
      (List.range m).flatMap (fun k => sliceOf size k items) = items.take (m * size) := by
    induction m with
    | zero => simp
    | succ m ih =>
      rw [List.range_succ, List.flatMap_append, ih, List.flatMap_singleton, sliceOf]
      have hle : m * size ≤ (m + 1) * size := Nat.mul_le_mul_right size (Nat.le_succ m)
      have htake : items.take (m * size) = (items.take ((m + 1) * size)).take (m * size) := by
        rw [List.take_take, Nat.min_eq_left hle]
      rw [htake, List.take_append_drop]
  have hall : ¬ sliceCount size items.length * size < items.length := by
    rw [← lt_sliceCount h]
    exact lt_irrefl _
  rw [htaken, List.take_of_length_le (not_lt.1 hall)]

end Slices

/-- The nodes an action selects of a listing. -/
def DeployAction.selected (action : DeployAction) (nodes : List Node) : List Node :=
  applyLimit action.select.limit nodes

theorem DeployAction.selected_nil (action : DeployAction) : action.selected [] = [] := by
  unfold DeployAction.selected
  cases action.select.limit with
  | none => rfl
  | some limit => exact List.take_nil

/-- The exact size of its slices. -/
def DeployAction.sliceSize (action : DeployAction) (nodes : List Node) (percent : Nat) : Nat :=
  batchSize (action.selected nodes).length percent

/-! ## One execution -/

/-- The ids of the nodes that a call of `deploy_to_nodes` has worked on. -/
def passesNodes : Answered → Option (List String)
  | ⟨.mark (.passed _ _ results), _⟩ => some (results.map NodeActionResult.nodeId)
  | _ => none

/-- The calls of `deploy_to_nodes` in an execution, with the nodes of each. -/
def passes (es : List Answered) : List (List String) := es.filterMap passesNodes

theorem passes_of_not_marks {es : List Answered} (h : ∀ e ∈ es, e.1.marksAction = false) :
    passes es = [] := by
  rw [passes, List.filterMap_eq_nil_iff]
  intro e he
  have hmark := h e he
  obtain ⟨o, r⟩ := e
  cases o with
  | mark m =>
    cases m with
    | passed => exact absurd hmark (by simp [Op.marksAction, Mark.ofAction])
    | _ => rfl
  | _ => rfl

section Executing

variable [Extern] (cfg : ControllerConfig) {action : DeployAction} {inst : FsmInstance}
  {nodes : List Node} {es : List Answered} {context : FsmContext}

theorem deploySelected_passes {start : FsmContext} {selected : List Node} {rulesYaml : String}
    (h : (deploySelected cfg inst start selected rulesYaml).Unfolds es (.done context)) :
    passes es = [selected.map Node.nodeId] ∧ context.batchCursor = start.batchCursor ∧
      context.rulesYaml = start.rulesYaml := by
  obtain ⟨r, es₁, es₂, -, hids, rfl, hbefore, hafter, rfl⟩ := deploySelected_inv cfg h
  refine ⟨?_, rfl, rfl⟩
  have hnone := passes_of_not_marks hbefore
  have hnone' := passes_of_not_marks hafter
  unfold passes at hnone hnone' ⊢
  rw [List.filterMap_append, hnone, List.filterMap_cons, hnone', ← hids]
  rfl

/-- **One execution of a batched deploy**: it passes on what its batch selects, and the next begins
    where it has ended, or it finds all batches done. -/
theorem executeDeploy_passes (inst : FsmInstance) {rulesYaml : String} {percent : Nat}
    (hrules : inst.context.rulesYaml = some rulesYaml)
    (hpercent : action.batchPercent = some percent)
    (hsome : action.selected nodes ≠ []) (hlisted : listedNodes es = some nodes)
    (h : (executeDeploy cfg action inst).Unfolds es (.done context)) :
    context.rulesYaml = some rulesYaml ∧
      ((action.selected nodes).length ≤ inst.context.batchCursor ∧ passes es = [] ∧
          context.batchCursor = inst.context.batchCursor ∨
        inst.context.batchCursor < (action.selected nodes).length ∧
          passes es = [(((action.selected nodes).take
            (min (inst.context.batchCursor + action.sliceSize nodes percent)
              (action.selected nodes).length)).drop inst.context.batchCursor).map Node.nodeId] ∧
          context.batchCursor = asU32
            (min (inst.context.batchCursor + action.sliceSize nodes percent)
              (action.selected nodes).length)) := by
  rw [executeDeploy, hrules] at h
  obtain ⟨answer, es₁, rfl, h₁⟩ := h.call_inv
  rw [Prog.done_bind] at h₁
  rcases answer with e | nodes'
  · obtain ⟨rfl, -⟩ := h₁.done_inv
    cases hlisted
  · have hnodes : nodes' = nodes := Option.some.inj hlisted
    subst hnodes
    cases nodes' with
    | nil => exact absurd action.selected_nil hsome
    | cons node nodes' =>
      simp only [hpercent] at h₁
      obtain ⟨_, es₂, rfl, h₂⟩ := h₁.call_inv
      rw [Prog.done_bind] at h₂
      by_cases hdone : inst.context.batchCursor ≥
          (applyLimit action.select.limit (node :: nodes')).length
      · rw [if_pos hdone] at h₂
        obtain ⟨rfl, heq⟩ := h₂.done_inv
        cases heq
        exact ⟨hrules, .inl ⟨hdone, rfl, rfl⟩⟩
      · rw [if_neg hdone] at h₂
        obtain ⟨hpasses, hcursor, hkept⟩ := deploySelected_passes cfg h₂
        exact ⟨hkept.trans hrules, .inr ⟨not_le.1 hdone, hpasses, hcursor⟩⟩

end Executing

/-! ## One execution after the other -/

section Runs

variable [Extern] (cfg : ControllerConfig) (action : DeployAction) (inst : FsmInstance)
  (nodes : List Node)

/-- The action is executed again and again, the store lists the same nodes each time, and each
    execution starts from the context that the one before has left. -/
inductive Executions : List (List Answered) → FsmContext → Prop
  | none : Executions [] inst.context
  | more {runs : List (List Answered)} {context context' : FsmContext} {es : List Answered}
      (before : Executions runs context) (listed : listedNodes es = some nodes)
      (execution : (executeDeploy cfg action { inst with context := context }).Unfolds es
        (.done context')) :
      Executions (runs ++ [es]) context'

/-- The executions of an action slice the nodes it selects. -/
structure SlicesNodes (percent : Nat) : Prop where
  /-- The size that is computed is the exact one. -/
  size : floatBatchSize (action.selected nodes).length percent = action.sliceSize nodes percent
  /-- The bounds of a slice are in order, and in the list. -/
  inRange : ∀ k < sliceCount (action.sliceSize nodes percent) (action.selected nodes).length,
    let stop := min ((k + 1) * action.sliceSize nodes percent) (action.selected nodes).length
    k * action.sliceSize nodes percent < stop ∧ stop ≤ (action.selected nodes).length
  /-- Every node is in one slice. -/
  partitions :
    (List.range (sliceCount (action.sliceSize nodes percent)
      (action.selected nodes).length)).flatMap
        (fun k => sliceOf (action.sliceSize nodes percent) k (action.selected nodes)) =
    action.selected nodes
  /-- An execution passes on its slice, and the one after the last finds none left. -/
  executions : ∀ {runs context}, Executions cfg action inst nodes runs context →
    ∀ k es, runs[k]? = some es →
      (k < sliceCount (action.sliceSize nodes percent) (action.selected nodes).length →
        passes es = [(sliceOf (action.sliceSize nodes percent) k (action.selected nodes)).map
          Node.nodeId]) ∧
      (k = sliceCount (action.sliceSize nodes percent) (action.selected nodes).length →
        passes es = [])

variable {cfg action inst nodes} {percent : Nat} {rulesYaml : String}
  {runs : List (List Answered)} {context : FsmContext}

/-- What carries a run over: the rules stay, and the next slice begins where the last has ended. -/
theorem Executions.sliced (h : Executions cfg action inst nodes runs context)
    (hrules : inst.context.rulesYaml = some rulesYaml)
    (hpercent : action.batchPercent = some percent)
    (hcursor : inst.context.batchCursor = 0) (hsome : action.selected nodes ≠ [])
    (hbits : (action.selected nodes).length < 4294967296) :
    context.rulesYaml = some rulesYaml ∧
      context.batchCursor =
        min (runs.length * action.sliceSize nodes percent) (action.selected nodes).length ∧
      ∀ k es, runs[k]? = some es →
        (k < sliceCount (action.sliceSize nodes percent) (action.selected nodes).length →
          passes es = [(sliceOf (action.sliceSize nodes percent) k (action.selected nodes)).map
            Node.nodeId]) ∧
        (k = sliceCount (action.sliceSize nodes percent) (action.selected nodes).length →
          passes es = []) := by
  have hsize : 0 < action.sliceSize nodes percent :=
    one_le_batchSize (List.length_pos_iff.2 hsome)
  induction h with
  | none =>
    refine ⟨hrules, ?_, ?_⟩
    · rw [hcursor, List.length_nil, Nat.zero_mul, Nat.zero_min]
    · intro k es hk
      cases hk
  | @more runs context context' es before listed execution ih =>
    obtain ⟨hrules', hcursor', hruns⟩ := ih
    obtain ⟨hkept, hcases⟩ := executeDeploy_passes cfg { inst with context := context }
      hrules' hpercent hsome listed execution
    simp only at hcases
    have hsucc : (runs.length + 1) * action.sliceSize nodes percent =
        runs.length * action.sliceSize nodes percent + action.sliceSize nodes percent :=
      Nat.succ_mul _ _
    refine ⟨hkept, ?_, ?_⟩
    · rw [List.length_append, List.length_singleton, hsucc]
      rcases hcases with ⟨hdone, -, hsame⟩ | ⟨hleft, -, hnext⟩
      · omega
      · rw [hnext, asU32, Nat.mod_eq_of_lt (by omega)]
        omega
    · intro k es' hk
      rw [List.getElem?_append] at hk
      by_cases hlt : k < runs.length
      · rw [if_pos hlt] at hk
        exact hruns k es' hk
      · rw [if_neg hlt] at hk
        have hk' : k = runs.length ∧ es' = es := by
          rw [List.getElem?_singleton] at hk
          split at hk
          · exact ⟨by omega, (Option.some.inj hk).symm⟩
          · cases hk
        obtain ⟨rfl, rfl⟩ := hk'
        constructor
        · intro hlast
          rw [lt_sliceCount hsize] at hlast
          rcases hcases with ⟨hdone, -, -⟩ | ⟨-, hpasses, -⟩
          · omega
          · have hstart : context.batchCursor = runs.length * action.sliceSize nodes percent := by
              omega
            rw [hpasses, hstart, ← List.take_eq_take_min, sliceOf, hsucc]
        · intro hlast
          have hall : ¬ runs.length * action.sliceSize nodes percent <
              (action.selected nodes).length := by
            rw [← lt_sliceCount hsize]
            omega
          rcases hcases with ⟨-, hpasses, -⟩ | ⟨hleft, -, -⟩
          · exact hpasses
          · omega

/-- The place where the next slice begins has 32 bits. -/
theorem Executions.cursor_lt (h : Executions cfg action inst nodes runs context)
    (hrules : inst.context.rulesYaml = some rulesYaml)
    (hpercent : action.batchPercent = some percent)
    (hcursor : inst.context.batchCursor = 0) (hsome : action.selected nodes ≠ []) :
    context.rulesYaml = some rulesYaml ∧ context.batchCursor < 4294967296 := by
  induction h with
  | none => exact ⟨hrules, by omega⟩
  | @more runs context context' es before listed execution ih =>
    obtain ⟨hrules', hlt⟩ := ih
    obtain ⟨hkept, hcases⟩ := executeDeploy_passes cfg { inst with context := context }
      hrules' hpercent hsome listed execution
    refine ⟨hkept, ?_⟩
    rcases hcases with ⟨-, -, hsame⟩ | ⟨-, -, hnext⟩
    · rw [hsame]
      exact hlt
    · rw [hnext]
      exact Nat.mod_lt _ (by norm_num)

/-- Whatever the agents and the store answer to the rest, an execution comes to its end. -/
theorem exists_execution (cfg : ControllerConfig) (action : DeployAction) (inst : FsmInstance)
    (nodes : List Node) (hrules : inst.context.rulesYaml = some rulesYaml) :
    ∃ es context, listedNodes es = some nodes ∧
      (executeDeploy cfg action inst).Unfolds es (.done context) := by
  obtain ⟨es, context, h⟩ : ∃ es context, (executeDeploy cfg action inst).Unfolds
      (⟨.storage (.listNodes action.select.label), .ok nodes⟩ :: es) (.done context) := by
    rw [executeDeploy, hrules]
    exact Prog.exists_unfolds_call Op.nonempty_res _
  exact ⟨_, context, rfl, h⟩

theorem Executions.exists_length (cfg : ControllerConfig)
    (hrules : inst.context.rulesYaml = some rulesYaml)
    (hpercent : action.batchPercent = some percent) (hcursor : inst.context.batchCursor = 0)
    (hsome : action.selected nodes ≠ []) (m : Nat) :
    ∃ runs context, Executions cfg action inst nodes runs context ∧ runs.length = m := by
  induction m with
  | zero => exact ⟨[], _, .none, rfl⟩
  | succ m ih =>
    obtain ⟨runs, context, hrun, hlength⟩ := ih
    obtain ⟨es, context', hlisted, hexecution⟩ := exists_execution cfg action
      { inst with context := context } nodes (hrun.cursor_lt hrules hpercent hcursor hsome).1
    exact ⟨_, context', hrun.more hlisted hexecution, by simp [hlength]⟩

/-- From `2 ^ 32` nodes on, the execution after the last slice begins anew. -/
theorem not_slicesNodes (hrules : inst.context.rulesYaml = some rulesYaml)
    (hpercent : action.batchPercent = some percent) (hcursor : inst.context.batchCursor = 0)
    (hlong : 4294967296 ≤ (action.selected nodes).length) :
    ¬ SlicesNodes cfg action inst nodes percent := by
  intro h
  have hsome : action.selected nodes ≠ [] := by
    intro hnil
    rw [hnil] at hlong
    cases hlong
  obtain ⟨runs, context, hrun, hlength⟩ := Executions.exists_length cfg hrules hpercent
    hcursor hsome (sliceCount (action.sliceSize nodes percent) (action.selected nodes).length)
  obtain ⟨hrules', hlt⟩ := hrun.cursor_lt hrules hpercent hcursor hsome
  obtain ⟨es, context', hlisted, hexecution⟩ := exists_execution cfg action
    { inst with context := context } nodes hrules'
  have hnone : passes es = [] :=
    (h.executions (hrun.more hlisted hexecution) runs.length es (by simp)).2 hlength
  obtain ⟨-, hcases⟩ := executeDeploy_passes cfg { inst with context := context }
    hrules' hpercent hsome hlisted hexecution
  rcases hcases with ⟨hdone, -, -⟩ | ⟨-, hpasses, -⟩
  · exact absurd (hlong.trans hdone) (not_le.2 hlt)
  · rw [hnone] at hpasses
    cases hpasses

/-- **When the executions of a batched deploy slice the nodes.** -/
theorem batchSlices_iff (hrules : inst.context.rulesYaml = some rulesYaml)
    (hpercent : action.batchPercent = some percent) (hrange : 1 ≤ percent ∧ percent ≤ 100)
    (hcursor : inst.context.batchCursor = 0) (hsome : action.selected nodes ≠ []) :
    SlicesNodes cfg action inst nodes percent ↔ (action.selected nodes).length < 4294967296 := by
  constructor
  · intro h
    by_contra hlong
    exact not_slicesNodes hrules hpercent hcursor (not_lt.1 hlong) h
  · intro hbits
    have hsize : 0 < action.sliceSize nodes percent :=
      one_le_batchSize (List.length_pos_iff.2 hsome)
    refine ⟨?_, ?_, flatMap_sliceOf _ hsize, ?_⟩
    · have hproduct : (action.selected nodes).length * percent ≤ 4294967295 * 100 :=
        Nat.mul_le_mul (by omega) hrange.2
      exact floatBatchSize_eq (by omega) (by omega) (by omega)
    · intro k hk
      rw [lt_sliceCount hsize] at hk
      have hsucc : (k + 1) * action.sliceSize nodes percent =
          k * action.sliceSize nodes percent + action.sliceSize nodes percent := Nat.succ_mul _ _
      exact ⟨by omega, Nat.min_le_right _ _⟩
    · intro runs context hrun
      exact (hrun.sliced hrules hpercent hcursor hsome hbits).2.2

end Runs

/-! ## Fleets -/

/-- A third of the fleet at a time. -/
def deployThirds : DeployAction := ⟨⟨∅, none⟩, some 34, none⟩

/-- An instance that has deployed nothing yet. -/
def slicing : FsmInstance :=
  .new 0 "i1" "canary" "rollout" (.forDeployment "rules: [a]" none)

/-- A fleet of any number of nodes. -/
def fleetOf (n : Nat) : List Node :=
  (List.range n).map fun i => { registeredN1 with nodeId := toString i }

/-- Five nodes are taken in three slices of two. -/
theorem batchSlices_iff_five :
    deployThirds.sliceSize (fleetOf 5) 34 = 2 ∧ sliceCount 2 (fleetOf 5).length = 3 ∧
      @SlicesNodes .sample plainConfig deployThirds slicing (fleetOf 5) 34 :=
  ⟨by decide, by decide,
    (@batchSlices_iff .sample plainConfig deployThirds slicing (fleetOf 5) 34 "rules: [a]" rfl rfl
      (by decide) rfl (by decide)).2 (by decide)⟩

/-- A fleet whose length does not fit 32 bits is begun anew. -/
theorem not_slicesNodes_large :
    ¬ @SlicesNodes .sample plainConfig deployThirds slicing (fleetOf 4294967296) 34 := by
  refine @not_slicesNodes .sample plainConfig deployThirds slicing (fleetOf 4294967296) 34
    "rules: [a]" rfl rfl rfl ?_
  simp only [DeployAction.selected, applyLimit, deployThirds, fleetOf, List.length_map,
    List.length_range, le_refl]

end PaciNet

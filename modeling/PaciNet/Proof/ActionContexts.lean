import PaciNet.Proof.InstanceDeploys

/-!
# What an action leaves of a context

An action changes a context in three ways only: it records the results of a deploy together with
the nodes the deploy went to, it moves the batch cursor, and it replaces the result of the last
action. **What these three keep, entering a state keeps**, with any answers: this is where the
programs are walked through, once for all such properties.
-/

set_option autoImplicit false

namespace PaciNet

open Lib Prog

/-- The property survives what actions do to a context. -/
structure KeptByActions (P : FsmContext → Prop) : Prop where
  result : ∀ {context} r, P context → P (context.setResult r)
  cursor : ∀ {context} n, P context → P (context.setCursor n)
  deployed : ∀ {context} (results : List NodeActionResult), P context →
    P ((context.addTargets (results.map NodeActionResult.nodeId)).recordResults results)

namespace KeptByActions

variable [Extern] {cfg : ControllerConfig} {P : FsmContext → Prop} {es : List Answered}
  {context : FsmContext} {inst : FsmInstance} (hP : KeptByActions P)
include hP

theorem deploySelected {start : FsmContext} {selected : List Node} {rulesYaml : String}
    (h : (deploySelected cfg inst start selected rulesYaml).Unfolds es (.done context))
    (hstart : P start) : P context := by
  obtain ⟨r, es₁, es₂, -, hids, -, -, -, rfl⟩ := deploySelected_inv cfg h
  -- the results are about the nodes that were pushed
  rw [← hids]
  exact hP.result _ (hP.deployed _ hstart)

theorem deployBatch {percent : Nat} {selected : List Node} {rulesYaml : String}
    (h : (deployBatch cfg inst percent selected rulesYaml).Unfolds es (.done context))
    (hinst : P inst.context) : P context := by
  obtain ⟨_, es₁, rfl, h₁⟩ := h.call_inv
  rw [Prog.done_bind] at h₁
  split at h₁
  · cases h₁.done_inv.2
    exact hP.result _ hinst
  · exact hP.deploySelected h₁ (hP.cursor _ hinst)

theorem executeDeploy {action : DeployAction}
    (h : (executeDeploy cfg action inst).Unfolds es (.done context))
    (hinst : P inst.context) : P context := by
  unfold PaciNet.executeDeploy at h
  split at h
  · cases h.done_inv.2
    exact hinst
  · obtain ⟨nodes, es₁, rfl, h₁⟩ := h.call_inv
    rw [Prog.done_bind] at h₁
    rcases nodes with e | _ | ⟨node, nodes⟩
    · cases h₁.done_inv.2
      exact hinst
    · cases h₁.done_inv.2
      exact hP.result _ hinst
    · simp only at h₁
      split at h₁
      · exact hP.deploySelected h₁ hinst
      · exact hP.deployBatch h₁ hinst

theorem executeRollback {action : RollbackAction}
    (h : (executeRollback cfg action inst).Unfolds es (.done context))
    (hinst : P inst.context) : P context := by
  unfold PaciNet.executeRollback at h
  simp only at h
  split at h
  · cases h.done_inv.2
    exact hinst
  · obtain ⟨es₁, es₂, out, rfl, -, h₁⟩ := Prog.unfolds_bind.mp h
    cases h₁.done_inv.2
    exact hP.result _ hinst

theorem executeAction {action : ActionDefinition}
    (h : (executeAction cfg action inst).Unfolds es (.done context))
    (hinst : P inst.context) : P context := by
  obtain ⟨u, es₁, rfl, h₁⟩ := h.call_inv
  rw [Prog.done_bind] at h₁
  split at h₁
  · exact hP.executeDeploy h₁ hinst
  · exact hP.executeRollback h₁ hinst
  · obtain ⟨es₂, es₃, _, rfl, -, h₂⟩ := Prog.unfolds_bind.mp h₁
    cases h₂.done_inv.2
    exact hinst
  · cases h₁.done_inv.2
    exact hinst

theorem executeActionOf {stateDef : StateDefinition}
    (h : (executeActionOf cfg stateDef inst).Unfolds es (.done context))
    (hinst : P inst.context) : P context := by
  unfold PaciNet.executeActionOf at h
  split at h
  · cases h.done_inv.2
    exact hinst
  · exact hP.executeAction h hinst

theorem enterState {stateDef : StateDefinition} {inst' : FsmInstance}
    (h : (enterState cfg stateDef inst).Unfolds es (.done inst')) (hinst : P inst.context) :
    P inst'.context := by
  obtain ⟨es₁, es₂, context, rfl, h₁, h₂⟩ := Prog.unfolds_bind.mp h
  have hcontext : inst'.context = context := by
    unfold completeIfTerminal at h₂
    split at h₂
    · obtain ⟨es₃, es₄, _, rfl, -, h₃⟩ := Prog.unfolds_bind.mp h₂
      cases h₃.done_inv.2
      rfl
    · cases h₂.done_inv.2
      rfl
  rw [hcontext]
  exact hP.executeActionOf h₁ hinst

/-- **A transition keeps the property**, if forgetting the timers of the state does. -/
theorem fireTransition {inst' : FsmInstance} {toState : String} {trigger : TransitionTrigger}
    {definition : FsmDefinition}
    (h : (fireTransition cfg inst toState trigger definition).Unfolds es (.done inst'))
    (hinst : P (inst.context.forgetState inst.currentState)) : P inst'.context := by
  obtain ⟨now, es₁, rfl, h₁⟩ := h.call_inv
  rw [Prog.done_bind] at h₁
  obtain ⟨es₂, es₃, _, rfl, -, h₂⟩ := Prog.unfolds_bind.mp h₁
  split at h₂
  · cases h₂.done_inv.2
    exact hinst
  · exact hP.enterState h₂ hinst

/-- **A new instance has the property**, if the context it is made with has it. -/
theorem startFrom {defName : String} {definition : FsmDefinition}
    (h : (startFrom cfg defName definition context).Unfolds es (.done (.ok inst)))
    (hcontext : P context) : P inst.context := by
  rw [startFrom_eq] at h
  obtain ⟨now, es₁, rfl, h₁⟩ := h.call_inv
  rw [Prog.done_bind] at h₁
  obtain ⟨id, es₂, rfl, h₂⟩ := h₁.call_inv
  rw [Prog.done_bind] at h₂
  obtain ⟨es₃, es₄, context', rfl, h₃, h₄⟩ := Prog.unfolds_bind.mp h₂
  obtain ⟨stored, es₅, rfl, h₅⟩ := h₄.call_inv
  rw [Prog.done_bind] at h₅
  have hinst : inst.context = context' := by
    cases stored with
    | error e => exact absurd h₅.done_inv.2 (by simp)
    | ok u =>
      cases h₅.done_inv.2
      rfl
  rw [hinst]
  unfold executeInitial at h₃
  split at h₃
  · cases h₃.done_inv.2
    exact hcontext
  · exact hP.executeActionOf h₃ hcontext

end KeptByActions

end PaciNet

import PaciNet.Proof.DryRun
import PaciNet.Proof.OutcomeConditions

/-!
# Calls of the engine that fail

Starting an instance and advancing one end with a write of the instance, and before it the action
of the state that is entered is executed. If the write fails the call does, but whatever the
action has deployed stays deployed, and whatever was announced has been announced.

**A call that fails has had no effect, whatever was answered to it, if and only if there is nothing
to be done on entering the state** (`failsWithoutEffect_iff`): the action has nothing to deploy or
to roll back, and for an instance that is advanced nobody listens to the transition.
-/

set_option autoImplicit false

namespace PaciNet

open Lib Prog

/-! ## Effects -/

/-- The call writes a node, a policy, a version or a deployment. -/
def StorageCall.WritesFleet : StorageCall → Prop
  | .registerNode _ | .removeNode _ | .updateHeartbeat _ _ _ | .updateNodeState _ _
  | .updateAnnotations _ _ _ | .markStaleNodes _ | .storePolicy _ | .recordDeployment _ => True
  | _ => False

/-- The operation writes to the records of the fleet, contacts an agent or emits an FSM event. -/
def Op.HasEffect : Op → Prop
  | .storage c => c.WritesFleet
  | .deployRules _ _ | .emitFsm _ => True
  | _ => False

/-- The operation has no effect. -/
def Op.Quiet (o : Op) : Prop := ¬ o.HasEffect

theorem Op.nonempty_res : ∀ o : Op, Nonempty o.Res
  | .storage c => by cases c <;> first | exact ⟨()⟩ | exact ⟨.error (.internal "")⟩
  | .deployRules _ _ => ⟨.elapsed⟩
  | .observe => ⟨⟨∅, (0 : Int)⟩⟩
  | .isLeader => ⟨false⟩
  | .now => ⟨(0 : Int)⟩
  | .uuid => ⟨""⟩
  | .joinSetNew => ⟨(0 : Nat)⟩
  | .joinSetNext _ => ⟨none⟩
  | .emitFsm _ | .emitNode _ | .webhook _ _ | .recordAudit _ | .joinSetSpawn _ _ _
  | .joinSetPut _ _ | .mark _ => ⟨()⟩

theorem emitFsm_effect (cfg : ControllerConfig) (e : DateTime → FsmEvent)
    (hbus : cfg.eventBus = true) :
    ¬ (emitFsm cfg e).Calls Op.Quiet := by
  intro h
  rw [emitFsm, if_pos hbus] at h
  exact (h.2 (0 : Int)).1 trivial

theorem emitFsm_quiet (cfg : ControllerConfig) (e : DateTime → FsmEvent)
    (hbus : ¬ cfg.eventBus = true) :
    emitFsm cfg e = .done () := if_neg hbus

/-! ## A node that can be deployed to -/

section

variable [Extern] (cfg : ControllerConfig)

/-- A node with every capability an option can ask for. -/
def capableNode : Node :=
  { Node.new 0 "n1" "host" "agent:1" ∅ "1.0" with
    capabilities := ((requiredCapabilities .default).map Prod.snd).foldl
      (fun capabilities key => capabilities.insert key "true") ∅ }

omit [Extern] in
theorem ensureNodeCapabilities_capableNode (options : CompileOptions) :
    ensureNodeCapabilities capableNode options = .ok () := by
  have hkeys : ∀ key ∈ (requiredCapabilities options).map Prod.snd,
      capabilityTrue capableNode key = true := by
    show ∀ key ∈ (requiredCapabilities .default).map Prod.snd, _
    decide +kernel
  have hnone : (requiredCapabilities options).find?
      (fun r => r.1 && !capabilityTrue capableNode r.2) = none := by
    refine List.find?_eq_none.mpr fun r hr => ?_
    simp [hkeys r.2 (List.mem_map_of_mem hr)]
  rw [ensureNodeCapabilities, hnone]

/-- Some deploy to the node gets as far as storing the policy. -/
theorem deployToNode_canAct (rulesYaml : String) (options : CompileOptions) :
    ¬ (deployToNode cfg capableNode rulesYaml options).Calls Op.Quiet := by
  intro h
  have hbody : (deployToNodeBody cfg capableNode rulesYaml options).Calls Op.Quiet :=
    Prog.Calls.of_bind (h.2 ())
  rw [deployToNodeBody, ensureNodeCapabilities_capableNode] at hbody
  have hread := hbody.2 (.ok none)
  have hstore : (storeAndForward cfg capableNode rulesYaml (policyHash rulesYaml)
      (normalizeOptions options)).Calls Op.Quiet := hread
  exact (hstore.2 (0 : Int)).1 trivial

theorem deployToNodes_canAct (nodes : List Node) (rulesYaml : String) (options : CompileOptions) :
    ¬ (deployToNodes cfg (capableNode :: nodes) rulesYaml options).Calls Op.Quiet := by
  intro h
  have hloop : (deployToNodesLoop cfg rulesYaml options (capableNode :: nodes) 0 0 []).Calls
      Op.Quiet := Prog.Calls.of_bind h
  have hdeploy := hloop.2 (.ok ())
  exact deployToNode_canAct cfg rulesYaml options (Prog.Calls.of_bind hdeploy)

/-! ## Actions -/

/-- Executing the action can have an effect: a deploy has rules and nodes left to deploy to, or
    only an event to emit; a rollback has nodes to roll back. -/
def ActionDefinition.CanAct (action : ActionDefinition) (context : FsmContext) : Prop :=
  match action.deploy, action.rollback with
  | some deploy, _ =>
      context.rulesYaml.isSome = true ∧
        match deploy.batchPercent with
        | none => cfg.eventBus = true ∨ deploy.select.limit ≠ some 0
        | some _ => ∀ limit ∈ deploy.select.limit, context.batchCursor < limit
  | none, some _ => context.deployedNodes ≠ []
  | none, none => False

/-- A deploy to no node does nothing but announce itself. -/
theorem deploySelected_nil (inst : FsmInstance) (context : FsmContext) (rulesYaml : String) :
    ((deploySelected cfg inst context [] rulesYaml).Calls Op.Quiet ↔ ¬ cfg.eventBus = true) := by
  constructor
  · intro h hbus
    have hrest := h.2 ()
    exact emitFsm_effect cfg _ hbus (Prog.Calls.of_bind hrest)
  · intro hbus
    have hemit (e : DateTime → FsmEvent) : (emitFsm cfg e).Calls Op.Quiet := by
      rw [emitFsm_quiet cfg e hbus]
      trivial
    exact ⟨id, fun _ => Prog.Calls.bind (p := emitFsm cfg _) (hemit _) fun _ => trivial⟩

theorem deploySelected_canAct (inst : FsmInstance) (context : FsmContext) (nodes : List Node)
    (rulesYaml : String) :
    ¬ (deploySelected cfg inst context (capableNode :: nodes) rulesYaml).Calls Op.Quiet :=
  fun h => deployToNodes_canAct cfg nodes rulesYaml _ (Prog.Calls.of_bind h)

omit [Extern] in
theorem applyLimit_replicate {limit : Option Nat} {n : Nat} {node : Node}
    (h : ∀ l ∈ limit, n ≤ l) :
    applyLimit limit (List.replicate n node) = List.replicate n node := by
  cases limit with
  | none => rfl
  | some l => exact List.take_of_length_le (by simpa using h l rfl)

/-- A batch has a node left as long as the cursor is not at the end. -/
theorem deployBatch_canAct (inst : FsmInstance) (percent : Nat) (rulesYaml : String) :
    ¬ (deployBatch cfg inst percent
      (List.replicate (inst.context.batchCursor + 1) capableNode) rulesYaml).Calls Op.Quiet := by
  intro h
  have hrest := h.2 ()
  have hstop : min (inst.context.batchCursor + batchSize (inst.context.batchCursor + 1) percent)
      (inst.context.batchCursor + 1) = inst.context.batchCursor + 1 := by
    have hsize : 1 ≤ batchSize (inst.context.batchCursor + 1) percent := by
      unfold batchSize
      omega
    omega
  rw [if_neg (by simp), List.length_replicate, hstop] at hrest
  have hselected : (deploySelected cfg inst
      (inst.context.setCursor (asU32 (inst.context.batchCursor + 1)))
      (((List.replicate (inst.context.batchCursor + 1) capableNode).take
        (inst.context.batchCursor + 1)).drop inst.context.batchCursor) rulesYaml).Calls
        Op.Quiet := hrest
  rw [List.take_of_length_le (by simp), List.drop_replicate, Nat.add_sub_cancel_left] at hselected
  exact deploySelected_canAct cfg inst _ [] rulesYaml hselected

theorem executeDeploy_quiet_iff {action : DeployAction} {inst : FsmInstance} :
    (executeDeploy cfg action inst).Calls Op.Quiet ↔
      ¬ (inst.context.rulesYaml.isSome = true ∧
        match action.batchPercent with
        | none => cfg.eventBus = true ∨ action.select.limit ≠ some 0
        | some _ => ∀ limit ∈ action.select.limit, inst.context.batchCursor < limit) := by
  cases hrules : inst.context.rulesYaml with
  | none =>
    rw [executeDeploy, hrules]
    exact iff_of_true trivial (by simp)
  | some rulesYaml =>
    -- what is left to show, once the nodes have been listed
    have hquiet : (executeDeploy cfg action inst).Calls Op.Quiet ↔
        ∀ node nodes, (match action.batchPercent with
          | none => deploySelected cfg inst inst.context
              (applyLimit action.select.limit (node :: nodes)) rulesYaml
          | some percent => deployBatch cfg inst percent
              (applyLimit action.select.limit (node :: nodes)) rulesYaml).Calls Op.Quiet := by
      rw [executeDeploy, hrules]
      constructor
      · intro h node nodes
        exact h.2 (.ok (node :: nodes))
      · intro h
        refine ⟨id, fun r => ?_⟩
        cases r with
        | error e => exact trivial
        | ok nodes =>
          cases nodes with
          | nil => exact trivial
          | cons node nodes => exact h node nodes
    rw [hquiet]
    cases hbatch : action.batchPercent with
    | none =>
      simp only [Option.isSome_some, true_and, not_or, not_not]
      constructor
      · intro h
        by_cases hlimit : action.select.limit = some 0
        · have hnil := h capableNode []
          rw [hlimit] at hnil
          exact ⟨(deploySelected_nil cfg inst inst.context rulesYaml).mp hnil, hlimit⟩
        · have hone := h capableNode []
          have hall : applyLimit action.select.limit [capableNode] = [capableNode] := by
            refine applyLimit_replicate (n := 1) fun l hl => ?_
            exact Nat.one_le_iff_ne_zero.mpr fun hz => hlimit (hz ▸ hl)
          rw [hall] at hone
          exact absurd hone (deploySelected_canAct cfg inst inst.context [] rulesYaml)
      · rintro ⟨hbus, hlimit⟩ node nodes
        rw [hlimit]
        exact (deploySelected_nil cfg inst inst.context rulesYaml).mpr hbus
    | some percent =>
      simp only [Option.isSome_some, true_and, not_forall, not_lt]
      constructor
      · intro h
        by_contra hleft
        have hall : ∀ l ∈ action.select.limit, inst.context.batchCursor + 1 ≤ l := by
          intro l hl
          by_contra hlt
          exact hleft ⟨l, hl, by omega⟩
        have hlisted := h capableNode (List.replicate inst.context.batchCursor capableNode)
        rw [← List.replicate_succ, applyLimit_replicate hall] at hlisted
        exact deployBatch_canAct cfg inst percent rulesYaml hlisted
      · rintro ⟨limit, hlimit, hdone⟩ node nodes
        obtain hlimit : action.select.limit = some limit := hlimit
        have htotal : (applyLimit action.select.limit (node :: nodes)).length ≤
            inst.context.batchCursor := by
          rw [hlimit]
          exact (List.length_take_le ..).trans hdone
        refine ⟨id, fun _ => ?_⟩
        rw [if_pos htotal]
        trivial

/-- A rollback has something to do as long as the instance has deployed to a node. -/
theorem executeRollback_quiet_iff {action : RollbackAction} {inst : FsmInstance} :
    (executeRollback cfg action inst).Calls Op.Quiet ↔ inst.context.deployedNodes = [] := by
  constructor
  · intro h
    by_contra hne
    rw [executeRollback, if_neg hne] at h
    obtain ⟨nodeId, nodeIds, hnodes⟩ := List.exists_cons_of_ne_nil hne
    rw [hnodes] at h
    have hnode : (rollbackNode cfg nodeId).Calls Op.Quiet :=
      Prog.Calls.of_bind (Prog.Calls.of_bind (p := rollbackLoop cfg (nodeId :: nodeIds) 0 0 []) h)
    -- the node has two versions and is registered
    let version : PolicyVersion :=
      { requestedPolicy nodeId "" "" 0 .default with version := 1 }
    have hread := hnode.2 (.ok [version, version])
    have hdeploy := hread.2 (.ok (some capableNode))
    exact deployToNode_canAct cfg version.rulesYaml version.options (Prog.Calls.of_bind hdeploy)
  · intro hnil
    rw [executeRollback, if_pos hnil]
    exact trivial

/-- **An action can be executed without an effect, whatever is answered to it, if and only if it
    has nothing to do.** -/
theorem executeAction_quiet_iff {action : ActionDefinition} {inst : FsmInstance} :
    (executeAction cfg action inst).Calls Op.Quiet ↔ ¬ action.CanAct cfg inst.context := by
  obtain ⟨deploy, rollback, alert⟩ := action
  -- the mark at the beginning has no effect
  have hmark {p : Proc FsmContext} : (Prog.call (.mark (.startAction inst.instanceId
      inst.currentState)) fun _ => p).Calls Op.Quiet ↔ p.Calls Op.Quiet :=
    ⟨fun h => h.2 (), fun h => ⟨id, fun _ => h⟩⟩
  rcases deploy with _ | deployAction
  · rcases rollback with _ | rollbackAction
    · rcases alert with _ | alertAction
      · exact iff_of_true (hmark.mpr trivial) id
      · refine iff_of_true (hmark.mpr (Prog.Calls.bind ?_ fun _ => trivial)) id
        unfold executeAlert
        cases alertAction.webhook with
        | none => exact trivial
        | some config => exact ⟨id, fun _ => ⟨id, fun _ => trivial⟩⟩
    · have hrollback : (executeRollback cfg rollbackAction inst).Calls Op.Quiet ↔
          ¬ inst.context.deployedNodes ≠ [] := (executeRollback_quiet_iff cfg).trans not_not.symm
      exact Iff.trans hmark hrollback
  · exact Iff.trans hmark (executeDeploy_quiet_iff cfg)

theorem executeActionOf_quiet_iff {stateDef : StateDefinition} {inst : FsmInstance} :
    (executeActionOf cfg stateDef inst).Calls Op.Quiet ↔
      ∀ action ∈ stateDef.action, ¬ action.CanAct cfg inst.context := by
  unfold executeActionOf
  cases stateDef.action with
  | none => exact iff_of_true trivial (by simp)
  | some action =>
    simp only [Option.mem_def, Option.some.injEq, forall_eq']
    exact executeAction_quiet_iff cfg

/-! ## Entering a state -/

/-- The state is defined, and its action can have an effect in this context. -/
def FsmDefinition.CanActIn (definition : FsmDefinition) (state : String)
    (context : FsmContext) : Prop :=
  ∃ stateDef ∈ definition.states.lookup state, ∃ action ∈ stateDef.action,
    action.CanAct cfg context

theorem executeInitial_quiet_iff {definition : FsmDefinition} {inst : FsmInstance} :
    (executeInitial cfg definition inst).Calls Op.Quiet ↔
      ¬ definition.CanActIn cfg definition.initial inst.context := by
  unfold executeInitial FsmDefinition.CanActIn
  cases definition.states.lookup definition.initial with
  | none => exact iff_of_true trivial (by simp)
  | some stateDef =>
    simp only [Option.mem_def, Option.some.injEq, exists_eq_left', not_exists, not_and]
    exact executeActionOf_quiet_iff cfg

omit [Extern] in
theorem completeIfTerminal_quiet {stateDef : StateDefinition} {inst : FsmInstance}
    (hbus : ¬ cfg.eventBus = true) : (completeIfTerminal cfg stateDef inst).Calls Op.Quiet := by
  unfold completeIfTerminal
  split
  · rw [emitFsm_quiet cfg _ hbus]
    trivial
  · trivial

/-- Execute the action of the state the instance is in now, if it is defined. -/
def enterNamed (definition : FsmDefinition) (state : String) (inst : FsmInstance) :
    Proc FsmInstance :=
  match definition.states.lookup state with
  | none => .done inst
  | some stateDef => enterState cfg stateDef inst

theorem enterNamed_quiet_iff {definition : FsmDefinition} {state : String} {inst : FsmInstance}
    (hbus : ¬ cfg.eventBus = true) : (enterNamed cfg definition state inst).Calls Op.Quiet ↔
      ¬ definition.CanActIn cfg state inst.context := by
  unfold enterNamed FsmDefinition.CanActIn
  cases definition.states.lookup state with
  | none => exact iff_of_true trivial (by simp)
  | some stateDef =>
    simp only [Option.mem_def, Option.some.injEq, exists_eq_left', not_exists, not_and]
    constructor
    · intro h
      exact (executeActionOf_quiet_iff cfg).mp (Prog.Calls.of_bind h)
    · intro h
      exact Prog.Calls.bind ((executeActionOf_quiet_iff cfg).mpr h) fun _ =>
        completeIfTerminal_quiet cfg hbus

/-- A transition is announced, and then the state is entered. -/
theorem fireTransition_eq (inst : FsmInstance) (toState : String) (trigger : TransitionTrigger)
    (definition : FsmDefinition) :
    ∃ (e : DateTime → DateTime → FsmEvent) (moved : DateTime → FsmInstance),
      (∀ now, (moved now).context = inst.context.forgetState inst.currentState) ∧
        fireTransition cfg inst toState trigger definition = .call .now fun now =>
          (emitFsm cfg (e now)).bind fun _ => enterNamed cfg definition toState (moved now) := by
  let message := inst.currentState ++ " -> " ++ toState ++ " (" ++ trigger.toString ++ ")"
  refine ⟨fun _ => .transition inst.instanceId inst.definitionName inst.currentState toState
    trigger.toString message, fun now => (inst.setContext
      (inst.context.forgetState inst.currentState)).transition now toState trigger message,
    fun _ => rfl, ?_⟩
  unfold fireTransition enterNamed
  cases definition.states.lookup toState <;> rfl

/-- Firing a transition has no effect, whatever is answered, if and only if nobody listens and the
    action of the state has nothing to do. -/
theorem fireTransition_quiet_iff {inst : FsmInstance} {toState : String}
    {trigger : TransitionTrigger} {definition : FsmDefinition} :
    (fireTransition cfg inst toState trigger definition).Calls Op.Quiet ↔
      ¬ cfg.eventBus = true ∧ ¬ definition.CanActIn cfg toState inst.context := by
  obtain ⟨e, moved, hmoved, heq⟩ := fireTransition_eq cfg inst toState trigger definition
  -- the context of the instance that has moved has the same rules, cursor and nodes
  have hacts (now : DateTime) : definition.CanActIn cfg toState (moved now).context ↔
      definition.CanActIn cfg toState inst.context := by
    rw [hmoved now]
    exact Iff.rfl
  rw [heq]
  constructor
  · intro h
    have hnow : ((emitFsm cfg (e 0)).bind fun _ =>
        enterNamed cfg definition toState (moved 0)).Calls Op.Quiet := h.2 (0 : Int)
    have hbus : ¬ cfg.eventBus = true :=
      fun hbus => emitFsm_effect cfg _ hbus (Prog.Calls.of_bind hnow)
    rw [emitFsm_quiet cfg _ hbus] at hnow
    exact ⟨hbus, fun hact => (enterNamed_quiet_iff cfg hbus).mp hnow ((hacts 0).mpr hact)⟩
  · rintro ⟨hbus, hnot⟩
    refine ⟨id, fun now => ?_⟩
    show ((emitFsm cfg (e now)).bind fun _ => enterNamed cfg definition toState (moved now)).Calls
      Op.Quiet
    rw [emitFsm_quiet cfg _ hbus]
    exact (enterNamed_quiet_iff cfg hbus).mpr fun hact => hnot ((hacts now).mp hact)

/-- Starting an instance fails without an effect, whatever is answered, if and only if the action
    of the initial state has nothing to do. -/
theorem startFrom_fails_iff (defName : String) (definition : FsmDefinition)
    (context : FsmContext) :
    (∀ es err, (startFrom cfg defName definition context).Unfolds es (.done (.error err)) →
      ∀ e ∈ es, e.1.Quiet) ↔ ¬ definition.CanActIn cfg definition.initial context := by
  constructor
  · intro h hacts
    let inst := FsmInstance.new 0 "" defName definition.initial context
    have hnot : ¬ (executeInitial cfg definition inst).Calls Op.Quiet :=
      fun hquiet => (executeInitial_quiet_iff cfg).mp hquiet hacts
    refine hnot ((Prog.calls_iff_unfolds Op.nonempty_res).mpr fun es context' hes e he => ?_)
    -- the write after the action is refused
    refine h (⟨.now, (0 : Int)⟩ :: ⟨.uuid, ""⟩ :: (es ++
      [⟨.storage (.storeFsmInstance (inst.setContext context')), .error (.internal "")⟩]))
        (internalError (.internal "")) ?_ e (by simp [he])
    rw [startFrom_eq]
    refine .step (.step ((Prog.unfolds_bind (p := executeInitial cfg definition inst)).mpr ?_))
    exact ⟨es, _, context', rfl, hes, .step (.refl _)⟩
  · intro hacts es err hes
    refine hes.calls ?_
    rw [startFrom_eq]
    refine ⟨id, fun now => ⟨id, fun id' => ?_⟩⟩
    refine Prog.Calls.bind (p := executeInitial cfg definition _)
      ((executeInitial_quiet_iff cfg).mpr hacts) fun context' => ?_
    refine ⟨id, fun r => ?_⟩
    cases r <;> exact trivial

/-! ## The calls -/

/-- The calls of the engine that enter a state and then write the instance. -/
inductive FsmCall where
  | startInstance (defName rulesYaml : String) (compileOptions : Option CompileOptions)
  | startAdaptiveInstance (defName : String) (rulesYaml : Option String)
      (compileOptions : Option CompileOptions) (targetLabelFilter : Labels)
  | advanceInstance (instanceId : String) (targetState : Option String)

namespace FsmCall

def program : FsmCall → Proc (Except PaciNetError FsmInstance)
  | startInstance defName rulesYaml compileOptions =>
      PaciNet.startInstance cfg defName rulesYaml compileOptions
  | startAdaptiveInstance defName rulesYaml compileOptions targetLabelFilter =>
      PaciNet.startAdaptiveInstance cfg defName rulesYaml compileOptions targetLabelFilter
  | advanceInstance instanceId targetState => PaciNet.advanceInstance cfg instanceId targetState

/-- If the call has been told a definition or an instance, it was this one. -/
def Finds (definition : FsmDefinition) (inst : FsmInstance) (es : List Answered) : FsmCall → Prop
  | startInstance defName _ _ | startAdaptiveInstance defName _ _ _ =>
      ∀ d, [⟨.storage (.getFsmDefinition defName), .ok (some d)⟩] <+: es → d = definition
  | advanceInstance instanceId _ =>
      ∀ i, [⟨.storage (.getFsmInstance instanceId), .ok (some i)⟩] <+: es → i = inst ∧
        ∀ d, [⟨.storage (.getFsmInstance instanceId), .ok (some i)⟩,
          ⟨.storage (.getFsmDefinition i.definitionName), .ok (some d)⟩] <+: es → d = definition

/-- **A call that fails has had no effect**, whatever it was answered otherwise. -/
def FailsWithoutEffect (call : FsmCall) (definition : FsmDefinition) (inst : FsmInstance) : Prop :=
  ∀ es err, (call.program cfg).Unfolds es (.done (.error err)) → call.Finds definition inst es →
    ∀ e ∈ es, e.1.Quiet

/-- There is nothing to be done on entering the state the call leads to. -/
def NothingToDo (definition : FsmDefinition) (inst : FsmInstance) : FsmCall → Prop
  | startInstance _ rulesYaml compileOptions =>
      ¬ definition.CanActIn cfg definition.initial (.forDeployment rulesYaml compileOptions)
  | startAdaptiveInstance _ rulesYaml compileOptions _ =>
      ¬ definition.CanActIn cfg definition.initial
        { FsmContext.forAdaptivePolicy [] with
          rulesYaml := rulesYaml
          compileOptions := compileOptions }
  | advanceInstance _ targetState =>
      inst.isRunning = true → ∀ stateDef ∈ definition.states.lookup inst.currentState,
        ∀ toState, advanceTarget stateDef inst.currentState targetState = .ok toState →
          ¬ cfg.eventBus = true ∧ ¬ definition.CanActIn cfg toState inst.context

end FsmCall

omit [Extern] in
/-- Only the rules, the cursor and the deployed nodes make a difference to what a state can do. -/
theorem canActIn_congr {definition : FsmDefinition} {state : String} {context context' : FsmContext}
    (hrules : context.rulesYaml = context'.rulesYaml)
    (hcursor : context.batchCursor = context'.batchCursor)
    (hdeployed : context.deployedNodes = context'.deployedNodes) :
    definition.CanActIn cfg state context ↔ definition.CanActIn cfg state context' := by
  unfold FsmDefinition.CanActIn ActionDefinition.CanAct
  rw [hrules, hcursor, hdeployed]

omit [Extern] in
/-- A read that ends the call has no effect. -/
theorem quiet_of_ended {e e' : Answered} {es : List Answered} {α : Type} {a b : α}
    (h : (Prog.done a : Proc α).Unfolds es (.done b)) (he : e' ∈ e :: es) (hquiet : e.1.Quiet) :
    e'.1.Quiet := by
  obtain ⟨rfl, -⟩ := h.done_inv
  rw [List.mem_singleton.mp he]
  exact hquiet

theorem startInstance_fails_iff (defName rulesYaml : String)
    (compileOptions : Option CompileOptions) (definition : FsmDefinition) (inst : FsmInstance) :
    (FsmCall.startInstance defName rulesYaml compileOptions).FailsWithoutEffect cfg definition
        inst ↔
      (FsmCall.startInstance defName rulesYaml compileOptions).NothingToDo cfg definition inst := by
  refine Iff.trans ?_ (startFrom_fails_iff cfg defName definition _)
  constructor
  · intro h es err hes e he
    refine h (⟨.storage (.getFsmDefinition defName), .ok (some definition)⟩ :: es) err
      (.step hes) ?_ e (List.mem_cons_of_mem _ he)
    intro d hd
    obtain ⟨t, ht⟩ := hd
    cases ht
    rfl
  · intro h es err hes hfinds e he
    obtain ⟨r, es', rfl, hrest⟩ := hes.call_inv
    rw [Prog.done_bind] at hrest
    cases r with
    | error e' => exact quiet_of_ended hrest he id
    | ok found =>
      cases found with
      | none => exact quiet_of_ended hrest he id
      | some d =>
        obtain rfl : d = definition := hfinds d ⟨es', rfl⟩
        rcases List.mem_cons.mp he with rfl | he
        · exact id
        · exact h es' err hrest e he

theorem startAdaptiveInstance_fails_iff (defName : String) (rulesYaml : Option String)
    (compileOptions : Option CompileOptions) (targetLabelFilter : Labels)
    (definition : FsmDefinition) (inst : FsmInstance) :
    (FsmCall.startAdaptiveInstance defName rulesYaml compileOptions
        targetLabelFilter).FailsWithoutEffect cfg definition inst ↔
      (FsmCall.startAdaptiveInstance defName rulesYaml compileOptions
        targetLabelFilter).NothingToDo cfg definition inst := by
  let context (nodes : List Node) : FsmContext :=
    { FsmContext.forAdaptivePolicy (nodes.map Node.nodeId) with
      rulesYaml := rulesYaml
      compileOptions := compileOptions }
  have hcontext (nodes : List Node) : definition.CanActIn cfg definition.initial (context nodes) ↔
      definition.CanActIn cfg definition.initial (context []) :=
    canActIn_congr cfg rfl rfl rfl
  constructor
  · intro h hacts
    refine (startFrom_fails_iff cfg defName definition (context [capableNode])).mp ?_
      ((hcontext _).mpr hacts)
    intro es err hes e he
    refine h (⟨.storage (.getFsmDefinition defName), .ok (some definition)⟩ ::
      ⟨.storage (.listNodes targetLabelFilter), .ok [capableNode]⟩ :: es) err
      (.step (.step hes)) ?_ e (by simp [he])
    intro d hd
    obtain ⟨t, ht⟩ := hd
    cases ht
    rfl
  · intro hnot es err hes hfinds e he
    obtain ⟨r, es', rfl, hrest⟩ := hes.call_inv
    rw [Prog.done_bind] at hrest
    cases r with
    | error e' => exact quiet_of_ended hrest he id
    | ok found =>
      cases found with
      | none => exact quiet_of_ended hrest he id
      | some d =>
        obtain rfl : d = definition := hfinds d ⟨es', rfl⟩
        rcases List.mem_cons.mp he with rfl | he
        · exact id
        · obtain ⟨r', es'', rfl, hrest'⟩ := hrest.call_inv
          rw [Prog.done_bind] at hrest'
          cases r' with
          | error e' => exact quiet_of_ended hrest' he id
          | ok nodes =>
            cases nodes with
            | nil => exact quiet_of_ended hrest' he id
            | cons node nodes =>
              rcases List.mem_cons.mp he with rfl | he
              · exact id
              · exact (startFrom_fails_iff cfg defName d (context (node :: nodes))).mpr
                  (fun hacts => hnot ((hcontext _).mp hacts)) es'' err hrest' e he

/-- What `advance_instance` does once it has read the instance and its definition. -/
def advanceFound (inst : FsmInstance) (definition : FsmDefinition) (targetState : Option String) :
    Proc (Except PaciNetError FsmInstance) :=
  match definition.states.lookup inst.currentState with
  | none => .done (.error (.fsm (.invalidState inst.currentState)))
  | some stateDef =>
    match advanceTarget stateDef inst.currentState targetState with
    | .error e => .done (.error (.fsm e))
    | .ok toState =>
      (fireTransition cfg inst toState .manual definition).bind fun inst =>
        (storage (.updateFsmInstance inst)).bind fun
          | .error e => .done (.error (internalError e))
          | .ok () => .done (.ok inst)

theorem advanceFound_fails_iff (inst : FsmInstance) (definition : FsmDefinition)
    (targetState : Option String) :
    (∀ es err, (advanceFound cfg inst definition targetState).Unfolds es (.done (.error err)) →
      ∀ e ∈ es, e.1.Quiet) ↔
      ∀ stateDef ∈ definition.states.lookup inst.currentState,
        ∀ toState, advanceTarget stateDef inst.currentState targetState = .ok toState →
          ¬ cfg.eventBus = true ∧ ¬ definition.CanActIn cfg toState inst.context := by
  unfold advanceFound
  cases definition.states.lookup inst.currentState with
  | none =>
    refine iff_of_true (fun es err hes => ?_) (by simp)
    obtain ⟨rfl, -⟩ := hes.done_inv
    simp
  | some stateDef =>
    simp only [Option.mem_def, Option.some.injEq, forall_eq']
    cases advanceTarget stateDef inst.currentState targetState with
    | error e =>
      refine iff_of_true (fun es err hes => ?_) (by simp)
      obtain ⟨rfl, -⟩ := hes.done_inv
      simp
    | ok toState =>
      simp only [Except.ok.injEq, forall_eq']
      have hfire : (fireTransition cfg inst toState .manual definition).Calls Op.Quiet ↔
          ¬ cfg.eventBus = true ∧ ¬ definition.CanActIn cfg toState inst.context :=
        fireTransition_quiet_iff cfg
      rw [← hfire]
      constructor
      · intro h
        refine (Prog.calls_iff_unfolds Op.nonempty_res).mpr fun es inst' hes e he => ?_
        -- the write after the transition is refused
        refine h (es ++ [⟨.storage (.updateFsmInstance inst'), .error (.internal "")⟩])
          (internalError (.internal "")) ?_ e (by simp [he])
        exact Prog.unfolds_bind.mpr ⟨es, _, inst', rfl, hes, .step (.refl _)⟩
      · intro h es err hes
        refine hes.calls (Prog.Calls.bind h fun inst' => ⟨id, fun r => ?_⟩)
        cases r <;> exact trivial

theorem advanceInstance_eq (instanceId : String) (targetState : Option String) :
    advanceInstance cfg instanceId targetState =
      (storage (.getFsmInstance instanceId)).bind fun
        | .error e => .done (.error (internalError e))
        | .ok none => .done (.error (.fsm (.instanceNotFound instanceId)))
        | .ok (some inst) =>
          if !inst.isRunning then .done (.error (.fsm .alreadyCompleted))
          else
            (storage (.getFsmDefinition inst.definitionName)).bind fun
              | .error e => .done (.error (internalError e))
              | .ok none => .done (.error (.fsm (.definitionNotFound inst.definitionName)))
              | .ok (some definition) => advanceFound cfg inst definition targetState := by
  refine congrArg (Prog.bind _) (funext fun r => ?_)
  rcases r with e | _ | inst
  · rfl
  · rfl
  · simp only
    split
    · rfl
    · refine congrArg (Prog.bind _) (funext fun r => ?_)
      rcases r with e | _ | definition
      · rfl
      · rfl
      · simp only [advanceFound]
        cases definition.states.lookup inst.currentState with
        | none => rfl
        | some stateDef =>
          simp only
          cases advanceTarget stateDef inst.currentState targetState with
          | error e => rfl
          | ok toState =>
            refine congrArg (Prog.bind _) (funext fun inst' => ?_)
            refine congrArg (Prog.bind _) (funext fun r => ?_)
            cases r <;> rfl

theorem advanceInstance_fails_iff (instanceId : String) (targetState : Option String)
    (definition : FsmDefinition) (inst : FsmInstance) :
    (FsmCall.advanceInstance instanceId targetState).FailsWithoutEffect cfg definition inst ↔
      (FsmCall.advanceInstance instanceId targetState).NothingToDo cfg definition inst := by
  have hfound := advanceFound_fails_iff cfg inst definition targetState
  have hprogram := advanceInstance_eq cfg instanceId targetState
  constructor
  · intro h hrunning
    refine hfound.mp fun es err hes e he => ?_
    refine h (⟨.storage (.getFsmInstance instanceId), .ok (some inst)⟩ ::
      ⟨.storage (.getFsmDefinition inst.definitionName), .ok (some definition)⟩ :: es) err ?_ ?_ e
      (by simp [he])
    · show (advanceInstance cfg instanceId targetState).Unfolds _ _
      rw [hprogram]
      refine .step ?_
      rw [Prog.done_bind]
      simp only
      rw [if_neg (by simp [hrunning])]
      exact .step hes
    · intro i hi
      obtain ⟨t, ht⟩ := hi
      cases ht
      refine ⟨rfl, fun d hd => ?_⟩
      obtain ⟨t, ht⟩ := hd
      cases ht
      rfl
  · intro hnothing es err hes hfinds e he
    rw [FsmCall.program, hprogram] at hes
    obtain ⟨r, es', rfl, hrest⟩ := hes.call_inv
    rw [Prog.done_bind] at hrest
    cases r with
    | error e' => exact quiet_of_ended hrest he id
    | ok found =>
      cases found with
      | none => exact quiet_of_ended hrest he id
      | some i =>
        obtain ⟨rfl, hdefinition⟩ := hfinds i ⟨es', rfl⟩
        by_cases hrunning : i.isRunning = true
        · simp only at hrest
          rw [if_neg (by simp [hrunning])] at hrest
          rcases List.mem_cons.mp he with rfl | he
          · exact id
          · obtain ⟨r', es'', rfl, hrest'⟩ := hrest.call_inv
            rw [Prog.done_bind] at hrest'
            cases r' with
            | error e' => exact quiet_of_ended hrest' he id
            | ok found =>
              cases found with
              | none => exact quiet_of_ended hrest' he id
              | some d =>
                obtain rfl : d = definition := hdefinition d ⟨es'', rfl⟩
                rcases List.mem_cons.mp he with rfl | he
                · exact id
                · exact hfound.mpr (hnothing hrunning) es'' err hrest' e he
        · simp only at hrest
          rw [if_pos (by simp [hrunning])] at hrest
          exact quiet_of_ended hrest he id

/-- **A call of the engine that fails has had no effect, whatever it was answered, if and only if
    there is nothing to be done on entering the state.** -/
theorem failsWithoutEffect_iff (call : FsmCall) (definition : FsmDefinition) (inst : FsmInstance) :
    call.FailsWithoutEffect cfg definition inst ↔ call.NothingToDo cfg definition inst := by
  cases call with
  | startInstance defName rulesYaml compileOptions =>
    exact startInstance_fails_iff cfg defName rulesYaml compileOptions definition inst
  | startAdaptiveInstance defName rulesYaml compileOptions targetLabelFilter =>
    exact startAdaptiveInstance_fails_iff cfg defName rulesYaml compileOptions targetLabelFilter
      definition inst
  | advanceInstance instanceId targetState =>
    exact advanceInstance_fails_iff cfg instanceId targetState definition inst

end

/-- An instance whose initial state deploys: the deploy is done although the call fails. -/
theorem not_failsWithoutEffect : ¬ ∀ (call : FsmCall) (definition : FsmDefinition)
    (inst : FsmInstance), @FsmCall.FailsWithoutEffect .sample plainConfig call definition inst := by
  intro h
  let call := FsmCall.startInstance "revertible" "rules: [a]" none
  let inst := FsmInstance.new 0 "i1" "revertible" "rollout" (.forDeployment "rules: [a]" none)
  refine (@startInstance_fails_iff .sample plainConfig "revertible" "rules: [a]" none revertible
    inst).mp (h call revertible inst) ?_
  exact ⟨_, rfl, _, rfl, rfl, .inr (by simp)⟩

end PaciNet

import PaciNet.Server.Conditions
import PaciNet.Server.Deploy

/-!
# The FSM engine

Evaluating instances, moving them along their transitions, and executing the actions of the
states they enter. Every operation on an instance has the same shape: it reads the instance,
works on its own copy, which may take as long as the deploys of an action take, and writes the
whole copy back. Nothing in between looks at what is stored.

An action changes an instance in its context only, so the actions return a context.
-/

set_option autoImplicit false

namespace PaciNet

variable [Extern] (cfg : ControllerConfig)

/-! ## Actions -/

/-- Emit on the event bus, if there is one, with the time of the emission. -/
def emitFsm (e : DateTime → FsmEvent) : Proc Unit := do
  if cfg.eventBus then
    let now ← op .now
    op (.emitFsm (e now))

/-- The nodes `execute_deploy` works on, before it looks at the batch: `limit` truncates. -/
def applyLimit (limit : Option Nat) (nodes : List Node) : List Node :=
  match limit with
  | none => nodes
  | some limit => nodes.take limit

omit [Extern] in
theorem applyLimit_sublist (limit : Option Nat) (nodes : List Node) :
    (applyLimit limit nodes).Sublist nodes := by
  cases limit with
  | none => exact List.Sublist.refl nodes
  | some limit => exact List.take_sublist limit nodes

/-- The size of a batch, `ceil(total * percent / 100)` brought between one and the total. The
    source computes it in `f64`, which is exact here for any fleet below `2 ^ 46` nodes. -/
def batchSize (total percent : Nat) : Nat := min (max ((total * percent + 99) / 100) 1) total

/-- Push the elements that are not there yet. -/
def pushNew (xs : List String) (new : List String) : List String :=
  new.foldl (fun xs x => if x ∈ xs then xs else xs ++ [x]) xs

/-- Push the nodes of a deploy to the target nodes. -/
def FsmContext.addTargets (context : FsmContext) (nodeIds : List String) : FsmContext :=
  { context with targetNodes := pushNew context.targetNodes nodeIds }

/-- Update the deployed and failed nodes with the results of a deploy. -/
def FsmContext.recordResults (context : FsmContext) (results : List NodeActionResult) :
    FsmContext :=
  { context with
    deployedNodes :=
      pushNew context.deployedNodes ((results.filter (·.success)).map (·.nodeId))
    failedNodes :=
      pushNew context.failedNodes ((results.filter (!·.success)).map (·.nodeId)) }

/-- The event after a deploy. -/
def deployProgress (inst : FsmInstance) (context : FsmContext) (now : DateTime) : FsmEvent :=
  .deployProgress inst.instanceId inst.definitionName (asU32 context.deployedNodes.length)
    (asU32 context.failedNodes.length) (asU32 context.targetNodes.length) now

/-- `execute_deploy` from where the nodes of this execution are known. -/
def deploySelected (inst : FsmInstance) (context : FsmContext) (selected : List Node)
    (rulesYaml : String) : Proc FsmContext := do
  let context := context.addTargets (selected.map Node.nodeId)
  let result ← deployToNodes cfg selected rulesYaml (context.compileOptions.getD .default)
  mark (.passed inst.instanceId inst.currentState result.nodeResults)
  let context := (context.recordResults result.nodeResults).setResult result
  emitFsm cfg (deployProgress inst context)
  pure context

/-- The part of `execute_deploy` under `batch_percent`. -/
def deployBatch (inst : FsmInstance) (percent : Nat) (selected : List Node) (rulesYaml : String) :
    Proc FsmContext := do
  let context := inst.context
  let total := selected.length
  let cursor := context.batchCursor
  mark (.batch inst.instanceId inst.currentState cursor (selected.map Node.nodeId))
  if cursor ≥ total then
    -- all batches done
    pure (context.setResult {
      succeeded := asU32 context.deployedNodes.length
      failed := asU32 context.failedNodes.length
      total := asU32 total
      nodeResults := [] })
  else
    let stop := min (cursor + batchSize total percent) total
    deploySelected cfg inst (context.setCursor (asU32 stop))
      ((selected.take stop).drop cursor) rulesYaml

def executeDeploy (action : DeployAction) (inst : FsmInstance) : Proc FsmContext := do
  match inst.context.rulesYaml with
  | none => pure inst.context
  | some rulesYaml =>
    match ← storage (.listNodes action.select.label) with
    | .error _ => pure inst.context
    | .ok [] => pure (inst.context.setResult ⟨0, 0, 0, []⟩)
    | .ok nodes =>
      let selected := applyLimit action.select.limit nodes
      match action.batchPercent with
      | none => deploySelected cfg inst inst.context selected rulesYaml
      | some percent => deployBatch cfg inst percent selected rulesYaml

/-- One turn of the loop of `execute_rollback`. -/
def rollbackNode (nodeId : String) : Proc NodeActionResult := do
  match ← storage (.getPolicyHistory nodeId 2) with
  | .error e =>
    pure ⟨nodeId, false, "Failed to get policy history: " ++ Extern.statusText e.toStatus⟩
  | .ok (_ :: prev :: _) =>
    match ← storage (.getNode nodeId) with
    | .ok (some node) =>
      let outcome ← deployToNode cfg node prev.rulesYaml prev.options
      pure ⟨nodeId, outcome.success, outcome.message⟩
    | _ => pure ⟨nodeId, false, "Node not found"⟩
  | .ok _ => pure ⟨nodeId, false, "No previous policy version"⟩

/-- The loop of `execute_rollback` with its three accumulators, the counters as in
    `deployToNodesLoop`. -/
def rollbackLoop :
    List String → (succeeded failed : Nat) → List NodeActionResult →
      Proc (Nat × Nat × List NodeActionResult)
  | [], succeeded, failed, nodeResults => pure (succeeded, failed, nodeResults)
  | nodeId :: nodeIds, succeeded, failed, nodeResults => do
    let r ← rollbackNode cfg nodeId
    rollbackLoop nodeIds (if r.success then succeeded + 1 else succeeded)
      (if r.success then failed else failed + 1) (nodeResults ++ [r])

/-- `execute_rollback`. It does not look at the action's target. -/
def executeRollback (_action : RollbackAction) (inst : FsmInstance) : Proc FsmContext := do
  let deployedNodes := inst.context.deployedNodes
  if deployedNodes = [] then pure inst.context
  else
    let (succeeded, failed, nodeResults) ← rollbackLoop cfg deployedNodes 0 0 []
    pure (inst.context.setResult {
      succeeded := succeeded
      failed := failed
      total := asU32 deployedNodes.length
      nodeResults := nodeResults })

/-- `execute_alert`; the delivery is a task of its own. -/
def executeAlert (action : AlertAction) (inst : FsmInstance) : Proc Unit :=
  match action.webhook with
  | none => pure ()
  | some config => do
    let now ← op .now
    op (.webhook config {
      event := "fsm_alert"
      instanceId := inst.instanceId
      definitionName := inst.definitionName
      currentState := inst.currentState
      message := action.message
      timestamp := now
      deployedNodes := inst.context.deployedNodes })

def executeAction (action : ActionDefinition) (inst : FsmInstance) : Proc FsmContext := do
  mark (.startAction inst.instanceId inst.currentState)
  match action.deploy, action.rollback, action.alert with
  | some deployAction, _, _ => executeDeploy cfg deployAction inst
  | none, some rollbackAction, _ => executeRollback cfg rollbackAction inst
  | none, none, some alertAction => do
    executeAlert alertAction inst
    pure inst.context
  | none, none, none => pure inst.context

/-- Execute the action of a state, if it has one. -/
def executeActionOf (stateDef : StateDefinition) (inst : FsmInstance) : Proc FsmContext :=
  match stateDef.action with
  | none => pure inst.context
  | some action => executeAction cfg action inst

/-! ## Transitions -/

/-- `HashMap::retain` on the keys. -/
def retainKeys {β : Type} (p : String → Bool) (m : AList fun _ : String => β) :
    AList fun _ : String => β :=
  ⟨m.entries.filter fun e => p e.1, m.nodupKeys.sublist List.filter_sublist⟩

/-- `str::starts_with`. -/
def startsWith (s pre : String) : Bool := pre.toList.isPrefixOf s.toList

/-- Forget the first-true times of the conditions of a state. -/
def FsmContext.forgetState (context : FsmContext) (state : String) : FsmContext :=
  context.setFirstTrue
    (retainKeys (fun k => !startsWith k (state ++ ":")) context.counterConditionFirstTrue)

/-- The end of `fire_transition`: a terminal state completes the instance. -/
def completeIfTerminal (stateDef : StateDefinition) (inst : FsmInstance) : Proc FsmInstance := do
  if stateDef.terminal then
    emitFsm cfg (.instanceCompleted inst.instanceId inst.definitionName "completed")
    pure (inst.setStatus .completed)
  else pure inst

/-- What `fire_transition` does on entering a state that is defined. -/
def enterState (stateDef : StateDefinition) (inst : FsmInstance) : Proc FsmInstance := do
  let context ← executeActionOf cfg stateDef inst
  completeIfTerminal cfg stateDef (inst.setContext context)

def fireTransition (inst : FsmInstance) (toState : String) (trigger : TransitionTrigger)
    (definition : FsmDefinition) : Proc FsmInstance := do
  let fromState := inst.currentState
  let message := fromState ++ " -> " ++ toState ++ " (" ++ trigger.toString ++ ")"
  let now ← op .now
  let inst := inst.setContext (inst.context.forgetState fromState)
  let inst := inst.transition now toState trigger message
  emitFsm cfg (.transition inst.instanceId inst.definitionName fromState toState
    trigger.toString message)
  match definition.states.lookup toState with
  | none => pure inst
  | some stateDef => enterState cfg stateDef inst

/-! ## Evaluation -/

/-- The instance has been in its state for at least the given number of seconds. -/
def FsmInstance.hasWaited (inst : FsmInstance) (now : DateTime) (secs : Nat) : Bool :=
  now - inst.updatedAt ≥ durationFromSecs secs

/-- Whether a transition fires now, and the instance after evaluating it. -/
def shouldFire (currentState : String) (ti : Nat) (t : TransitionDefinition)
    (inst : FsmInstance) : Proc (Bool × FsmInstance) :=
  match t.when?, t.after with
  | some condition, _ => do
    let obs ← op .observe
    let (fires, context) := evaluateCondition obs currentState ti condition inst.context
    pure (fires, inst.setContext context)
  | none, some after =>
    match parseDuration after with
    | .ok duration => do
      let now ← op .now
      pure (inst.hasWaited now duration, inst)
    | .error _ => pure (false, inst)
  | none, none => pure (false, inst)

/-- The loop of `evaluate_instance` over the transitions of the current state. The instance is
    written back whether or not one fires. -/
def evaluateTransitions (definition : FsmDefinition) (currentState : String) :
    Nat → List TransitionDefinition → FsmInstance → Proc Unit
  | _, [], inst => do
    let _ ← storage (.updateFsmInstance inst)
  | ti, t :: ts, inst => do
    let (fires, inst) ← shouldFire currentState ti t inst
    if fires then
      mark (.fire inst ti)
      let trigger := if t.after.isSome then TransitionTrigger.timer else .condition
      let inst ← fireTransition cfg inst t.toState trigger definition
      let _ ← storage (.updateFsmInstance inst)
    else
      evaluateTransitions definition currentState (ti + 1) ts inst

def evaluateInstance (inst : FsmInstance) (definition : FsmDefinition) : Proc Unit := do
  match definition.states.lookup inst.currentState with
  | none => pure ()
  | some stateDef =>
    if stateDef.terminal then
      if inst.isRunning then
        let now ← op .now
        let _ ← storage (.updateFsmInstance { inst.setStatus .completed with updatedAt := now })
    else
      evaluateTransitions cfg definition inst.currentState 0 stateDef.transitions inst

/-- The loop of `evaluate_all`. -/
def evaluateEach : List FsmInstance → Proc Unit
  | [] => pure ()
  | inst :: insts => do
    match ← storage (.getFsmDefinition inst.definitionName) with
    | .ok (some definition) => evaluateInstance cfg inst definition
    | .ok none =>
      let _ ← storage (.updateFsmInstance (inst.setStatus .failed))
    | .error _ => pure ()
    evaluateEach insts

def evaluateAll : Proc Unit := do
  match ← storage (.listFsmInstances none (some .running)) with
  | .error _ => pure ()
  | .ok insts =>
    evaluateEach cfg insts
    -- the running gauge
    let _ ← storage (.listFsmInstances none (some .running))

/-! ## Requests on instances -/

/-- `.map_err(|e| PaciNetError::Internal(e.to_string()))` after `blocking`. -/
def internalError (e : PaciNetError) : PaciNetError := .internal (Extern.statusText e.toStatus)

/-- Run the action of the initial state, store the instance and return it. -/
def startFrom (defName : String) (definition : FsmDefinition) (context : FsmContext) :
    Proc (Except PaciNetError FsmInstance) := do
  let now ← op .now
  let id ← op .uuid
  let inst := FsmInstance.new now id defName definition.initial context
  let context ← match definition.states.lookup definition.initial with
    | none => pure inst.context
    | some stateDef => executeActionOf cfg stateDef inst
  match ← storage (.storeFsmInstance (inst.setContext context)) with
  | .error e => pure (.error (internalError e))
  | .ok () => pure (.ok (inst.setContext context))

def startInstance (defName rulesYaml : String) (compileOptions : Option CompileOptions) :
    Proc (Except PaciNetError FsmInstance) := do
  match ← storage (.getFsmDefinition defName) with
  | .error e => pure (.error (internalError e))
  | .ok none => pure (.error (.fsm (.definitionNotFound defName)))
  | .ok (some definition) =>
    startFrom cfg defName definition (.forDeployment rulesYaml compileOptions)

def startAdaptiveInstance (defName : String) (rulesYaml : Option String)
    (compileOptions : Option CompileOptions) (targetLabelFilter : Labels) :
    Proc (Except PaciNetError FsmInstance) := do
  match ← storage (.getFsmDefinition defName) with
  | .error e => pure (.error (internalError e))
  | .ok none => pure (.error (.fsm (.definitionNotFound defName)))
  | .ok (some definition) =>
    match ← storage (.listNodes targetLabelFilter) with
    | .error e => pure (.error (internalError e))
    | .ok [] => pure (.error (.internal "No nodes match the target label filter"))
    | .ok nodes =>
      startFrom cfg defName definition
        { FsmContext.forAdaptivePolicy (nodes.map Node.nodeId) with
          rulesYaml := rulesYaml
          compileOptions := compileOptions }

/-- `manual: true`. -/
def ConditionDefinition.isManual : ConditionDefinition → Bool
  | .simple s => s.manual == some true
  | _ => false

/-- The state `advance_instance` moves to: the one asked for if a transition leads there, or the
    target of the first manual transition, or of the first. -/
def advanceTarget (stateDef : StateDefinition) (currentState : String) :
    Option String → Except FsmError String
  | some target =>
    if stateDef.transitions.any fun t => t.toState == target then .ok target
    else .error (.noTransition
      ("no transition from '" ++ currentState ++ "' to '" ++ target ++ "'"))
  | none =>
    match (stateDef.transitions.find? fun t => t.when?.any (·.isManual)).or
        stateDef.transitions.head? with
    | some t => .ok t.toState
    | none => .error (.noTransition currentState)

def advanceInstance (instanceId : String) (targetState : Option String) :
    Proc (Except PaciNetError FsmInstance) := do
  match ← storage (.getFsmInstance instanceId) with
  | .error e => pure (.error (internalError e))
  | .ok none => pure (.error (.fsm (.instanceNotFound instanceId)))
  | .ok (some inst) =>
    if !inst.isRunning then pure (.error (.fsm .alreadyCompleted))
    else
      match ← storage (.getFsmDefinition inst.definitionName) with
      | .error e => pure (.error (internalError e))
      | .ok none => pure (.error (.fsm (.definitionNotFound inst.definitionName)))
      | .ok (some definition) =>
        match definition.states.lookup inst.currentState with
        | none => pure (.error (.fsm (.invalidState inst.currentState)))
        | some stateDef =>
          match advanceTarget stateDef inst.currentState targetState with
          | .error e => pure (.error (.fsm e))
          | .ok toState =>
            let inst ← fireTransition cfg inst toState .manual definition
            match ← storage (.updateFsmInstance inst) with
            | .error e => pure (.error (internalError e))
            | .ok () => pure (.ok inst)

/-- The instance `cancel_instance` writes. -/
def FsmInstance.cancelled (inst : FsmInstance) (updatedAt timestamp : DateTime)
    (reason : String) : FsmInstance :=
  { inst with
    status := .cancelled
    updatedAt := updatedAt
    history := inst.history ++ [{
      fromState := inst.currentState
      toState := ""
      trigger := .manual
      timestamp := timestamp
      message := "Cancelled: " ++ reason }] }

def cancelInstance (instanceId reason : String) : Proc (Except PaciNetError Unit) := do
  match ← storage (.getFsmInstance instanceId) with
  | .error e => pure (.error (internalError e))
  | .ok none => pure (.error (.fsm (.instanceNotFound instanceId)))
  | .ok (some inst) =>
    if !inst.isRunning then pure (.error (.fsm .alreadyCompleted))
    else
      let updatedAt ← op .now
      let timestamp ← op .now
      match ← storage (.updateFsmInstance (inst.cancelled updatedAt timestamp reason)) with
      | .error e => pure (.error (internalError e))
      | .ok () =>
        emitFsm cfg (.instanceCompleted inst.instanceId inst.definitionName "cancelled")
        pure (.ok ())

end PaciNet

import PaciNet.Core.Fsm.Definition

/-!
# FSM instances

The runtime state of one execution. `transition` is the only operation that extends the history
on the way to another state; it touches neither the status nor the context.
-/

set_option autoImplicit false

namespace PaciNet

inductive FsmInstanceStatus where
  | running
  | completed
  | failed
  | cancelled
  deriving DecidableEq, Repr

protected def FsmInstanceStatus.toString : FsmInstanceStatus → String
  | .running => "running"
  | .completed => "completed"
  | .failed => "failed"
  | .cancelled => "cancelled"

/-- Per-node result of an action. -/
structure NodeActionResult where
  nodeId : String
  success : Bool
  message : String
  deriving DecidableEq

/-- Result of an action execution. -/
structure ActionResult where
  succeeded : Nat
  failed : Nat
  total : Nat
  nodeResults : List NodeActionResult
  deriving DecidableEq

/-- Context carried by an instance. -/
structure FsmContext where
  rulesYaml : Option String
  policyHash : Option String
  compileOptions : Option CompileOptions
  targetNodes : List String
  deployedNodes : List String
  failedNodes : List String
  lastActionResult : Option ActionResult
  batchCursor : Nat
  /-- When a counter condition first became true, by `"state:transition_idx"`. -/
  counterConditionFirstTrue : AList fun _ : String => DateTime
  deriving DecidableEq

namespace FsmContext

/-- `FsmContext::for_deployment`. -/
def forDeployment (rulesYaml : String) (compileOptions : Option CompileOptions) : FsmContext where
  rulesYaml := some rulesYaml
  policyHash := none
  compileOptions := compileOptions
  targetNodes := []
  deployedNodes := []
  failedNodes := []
  lastActionResult := none
  batchCursor := 0
  counterConditionFirstTrue := ∅

/-- `FsmContext::for_adaptive_policy`. -/
def forAdaptivePolicy (targetNodes : List String) : FsmContext where
  rulesYaml := none
  policyHash := none
  compileOptions := none
  targetNodes := targetNodes
  deployedNodes := []
  failedNodes := []
  lastActionResult := none
  batchCursor := 0
  counterConditionFirstTrue := ∅

/-- Replace the result of the last action. -/
def setResult (context : FsmContext) (result : ActionResult) : FsmContext :=
  { context with lastActionResult := some result }

/-- Replace the batch cursor. -/
def setCursor (context : FsmContext) (cursor : Nat) : FsmContext :=
  { context with batchCursor := cursor }

/-- Replace the map of first-true times. -/
def setFirstTrue (context : FsmContext) (m : AList fun _ : String => DateTime) : FsmContext :=
  { context with counterConditionFirstTrue := m }

end FsmContext

/-- What triggered a transition. -/
inductive TransitionTrigger where
  | condition
  | timer
  | manual
  | actionResult
  | initial
  deriving DecidableEq, Repr

protected def TransitionTrigger.toString : TransitionTrigger → String
  | .condition => "condition"
  | .timer => "timer"
  | .manual => "manual"
  | .actionResult => "action_result"
  | .initial => "initial"

/-- Record of a state transition. -/
structure FsmTransitionRecord where
  fromState : String
  toState : String
  trigger : TransitionTrigger
  timestamp : DateTime
  message : String
  deriving DecidableEq

/-- Runtime state of an FSM execution. -/
structure FsmInstance where
  instanceId : String
  definitionName : String
  currentState : String
  status : FsmInstanceStatus
  createdAt : DateTime
  updatedAt : DateTime
  context : FsmContext
  history : List FsmTransitionRecord
  deriving DecidableEq

namespace FsmInstance

/-- `FsmInstance::new`, given the clock reading and the fresh id it draws. -/
def new (now : DateTime) (uuid definitionName initialState : String) (context : FsmContext) :
    FsmInstance where
  instanceId := uuid
  definitionName := definitionName
  currentState := initialState
  status := .running
  createdAt := now
  updatedAt := now
  context := context
  history := [{
    fromState := ""
    toState := initialState
    trigger := .initial
    timestamp := now
    message := "FSM instance started" }]

/-- `FsmInstance::transition`. -/
def transition (inst : FsmInstance) (now : DateTime) (toState : String)
    (trigger : TransitionTrigger) (message : String) : FsmInstance :=
  { inst with
    history := inst.history ++ [{
      fromState := inst.currentState
      toState := toState
      trigger := trigger
      timestamp := now
      message := message }]
    currentState := toState
    updatedAt := now }

/-- Replace the context. -/
def setContext (inst : FsmInstance) (context : FsmContext) : FsmInstance :=
  { inst with context := context }

/-- Replace the status. -/
def setStatus (inst : FsmInstance) (status : FsmInstanceStatus) : FsmInstance :=
  { inst with status := status }

/-- `FsmInstance::is_running`. -/
def isRunning (inst : FsmInstance) : Bool := inst.status == .running

@[simp] theorem isRunning_iff (inst : FsmInstance) : inst.isRunning ↔ inst.status = .running := by
  simp [isRunning]

section Fields

variable (inst : FsmInstance) (context : FsmContext) (status : FsmInstanceStatus)

@[simp] theorem setContext_instanceId : (inst.setContext context).instanceId = inst.instanceId := rfl
@[simp] theorem setContext_status : (inst.setContext context).status = inst.status := rfl
@[simp] theorem setContext_history : (inst.setContext context).history = inst.history := rfl
@[simp] theorem setContext_context : (inst.setContext context).context = context := rfl
@[simp] theorem setContext_currentState :
    (inst.setContext context).currentState = inst.currentState := rfl
@[simp] theorem setContext_definitionName :
    (inst.setContext context).definitionName = inst.definitionName := rfl
@[simp] theorem setStatus_instanceId : (inst.setStatus status).instanceId = inst.instanceId := rfl
@[simp] theorem setStatus_status : (inst.setStatus status).status = status := rfl
@[simp] theorem setStatus_history : (inst.setStatus status).history = inst.history := rfl
@[simp] theorem setStatus_context : (inst.setStatus status).context = inst.context := rfl
@[simp] theorem setStatus_definitionName :
    (inst.setStatus status).definitionName = inst.definitionName := rfl

end Fields

section Transition

variable (inst : FsmInstance) (now : DateTime) (toState : String) (trigger : TransitionTrigger)
  (message : String)

@[simp] theorem transition_instanceId :
    (inst.transition now toState trigger message).instanceId = inst.instanceId := rfl

@[simp] theorem transition_definitionName :
    (inst.transition now toState trigger message).definitionName = inst.definitionName := rfl

@[simp] theorem transition_status :
    (inst.transition now toState trigger message).status = inst.status := rfl

@[simp] theorem transition_context :
    (inst.transition now toState trigger message).context = inst.context := rfl

@[simp] theorem transition_currentState :
    (inst.transition now toState trigger message).currentState = toState := rfl

/-- A transition extends the history. -/
theorem prefix_transition : inst.history <+: (inst.transition now toState trigger message).history :=
  List.prefix_append _ _

end Transition

end FsmInstance

end PaciNet

import PaciNet.Core.Error
import PaciNet.Core.Fsm.Duration

/-!
# FSM definitions

The definition of a state machine as its YAML gives it: states, the action run on entering a
state, and the transitions out of it with the condition or timer that fires them.

`validate` reads the states in the map's order and reports the first problem it meets.
-/

set_option autoImplicit false

namespace PaciNet

inductive FsmKind where
  | deployment
  | adaptivePolicy
  deriving DecidableEq, Repr

protected def FsmKind.toString : FsmKind → String
  | .deployment => "deployment"
  | .adaptivePolicy => "adaptive_policy"

/-! ## Conditions -/

structure SimpleCondition where
  allSucceeded : Option Bool
  anyFailed : Option Bool
  manual : Option Bool
  deriving DecidableEq

structure CounterCondition where
  counter : String
  rateAbove : Option F64
  rateBelow : Option F64
  totalAbove : Option Nat
  forDuration : Option String
  aggregate : Option String
  field : Option String
  deriving DecidableEq

/-- Conditions that trigger transitions. The fields of `CompoundCondition` are the three
    arguments of `compound`. -/
inductive ConditionDefinition where
  | counter (cc : CounterCondition)
  | simple (s : SimpleCondition)
  | compound (and or : Option (List ConditionDefinition)) (not : Option ConditionDefinition)

/-! ## Actions -/

structure NodeSelector where
  label : Labels
  limit : Option Nat
  deriving DecidableEq

/-- Select nodes and deploy the rules of the instance to them. -/
structure DeployAction where
  select : NodeSelector
  batchPercent : Option Nat
  options : Option CompileOptions
  deriving DecidableEq

inductive RollbackTarget where
  | previous
  | version (v : Nat)
  deriving DecidableEq

structure RollbackAction where
  target : RollbackTarget
  deriving DecidableEq

structure BasicAuth where
  username : String
  password : String
  deriving DecidableEq

structure WebhookConfig where
  url : String
  method : Option String
  bearerToken : Option String
  basicAuth : Option BasicAuth
  timeoutSeconds : Option Nat
  maxRetries : Option Nat
  headers : Labels
  deriving DecidableEq

structure AlertAction where
  channel : Option String
  message : String
  webhook : Option WebhookConfig
  deriving DecidableEq

/-- Action executed when entering a state. -/
structure ActionDefinition where
  deploy : Option DeployAction
  rollback : Option RollbackAction
  alert : Option AlertAction
  deriving DecidableEq

/-! ## States -/

structure TransitionDefinition where
  toState : String
  when? : Option ConditionDefinition
  after : Option String

structure StateDefinition where
  action : Option ActionDefinition
  transitions : List TransitionDefinition
  terminal : Bool

structure FsmDefinition where
  name : String
  description : String
  kind : FsmKind
  initial : String
  states : AList fun _ : String => StateDefinition

/-! ## Validation -/

/-- Run a check on every element, with its index, up to the first error. -/
def forEnum {α ε : Type} (check : Nat → α → Except ε Unit) : Nat → List α → Except ε Unit
  | _, [] => .ok ()
  | i, a :: as => do
    check i a
    forEnum check (i + 1) as

/-- The name of a condition in an error text. -/
def conditionPlace (stateName : String) (transitionIdx : Nat) : String :=
  "state '" ++ stateName ++ "' transition " ++ toString transitionIdx

/-- The counter case of `validate_condition`. -/
def validateCounter (cc : CounterCondition) (stateName : String) (transitionIdx : Nat) :
    Except FsmError Unit := do
  if cc.rateAbove.isNone && cc.rateBelow.isNone && cc.totalAbove.isNone then
    throw (.invalidDefinition (conditionPlace stateName transitionIdx ++
      " counter condition must set at least one of rate_above, rate_below, total_above"))
  match cc.aggregate with
  | none | some "any" | some "all" | some "sum" => pure ()
  | some agg => throw (.invalidDefinition (conditionPlace stateName transitionIdx ++
      " invalid aggregate mode '" ++ agg ++ "' (use any/all/sum)"))
  match cc.field with
  | none | some "matches" | some "bytes" => pure ()
  | some field => throw (.invalidDefinition (conditionPlace stateName transitionIdx ++
      " invalid field '" ++ field ++ "' (use matches/bytes)"))
  match cc.forDuration with
  | none => pure ()
  | some dur =>
    match parseDuration dur with
    | .ok _ => pure ()
    | .error e => throw (.invalidDefinition (conditionPlace stateName transitionIdx ++
        " invalid for_duration '" ++ dur ++ "': " ++ e))

mutual

/-- `validate_condition`. -/
def validateCondition (stateName : String) (transitionIdx : Nat) :
    ConditionDefinition → Except FsmError Unit
  | .counter cc => validateCounter cc stateName transitionIdx
  | .simple _ => .ok ()
  | .compound and or not => do
    match and with
    | none => pure ()
    | some conditions => validateConditions stateName transitionIdx conditions
    match or with
    | none => pure ()
    | some conditions => validateConditions stateName transitionIdx conditions
    match not with
    | none => pure ()
    | some inner => validateCondition stateName transitionIdx inner

/-- The `for` loops of `validate_condition`. -/
def validateConditions (stateName : String) (transitionIdx : Nat) :
    List ConditionDefinition → Except FsmError Unit
  | [] => .ok ()
  | c :: cs => do
    validateCondition stateName transitionIdx c
    validateConditions stateName transitionIdx cs

end

/-- The checks `validate` makes on one transition in its first pass. -/
def FsmDefinition.validateTransition (d : FsmDefinition) (stateName : String)
    (t : TransitionDefinition) : Except FsmError Unit := do
  if (d.states.lookup t.toState).isNone then
    throw (.invalidDefinition ("state '" ++ stateName ++ "' has transition to unknown state '" ++
      t.toState ++ "'"))
  match t.after with
  | none => pure ()
  | some after =>
    match parseDuration after with
    | .ok _ => pure ()
    | .error e => throw (.invalidDefinition ("state '" ++ stateName ++
        "' has invalid duration '" ++ after ++ "': " ++ e))

/-- `FsmDefinition::validate`. -/
def FsmDefinition.validate (d : FsmDefinition) : Except FsmError Unit := do
  if (d.states.lookup d.initial).isNone then
    throw (.invalidDefinition ("initial state '" ++ d.initial ++ "' not found in states"))
  forEnum (fun _ s => do
    forEnum (fun _ t => d.validateTransition s.1 t) 0 s.2.transitions
    if s.2.terminal && !s.2.transitions.isEmpty then
      throw (.invalidDefinition ("terminal state '" ++ s.1 ++ "' must not have transitions")))
    0 d.states.entries
  forEnum (fun _ s => forEnum (fun ti t =>
      match t.when? with
      | none => pure ()
      | some cond => validateCondition s.1 ti cond) 0 s.2.transitions)
    0 d.states.entries
  if !d.states.entries.any fun s => s.2.terminal then
    throw (.invalidDefinition "FSM must have at least one terminal state")

end PaciNet

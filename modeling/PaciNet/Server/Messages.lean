import PaciNet.Storage.Trait

/-!
# Requests, replies and events

What travels between the clients, the controller and the agents. The bodies of the two REST
deploy requests list the fourteen compile options one by one, each copied to the message field
of the same name; here they carry the options as one record.
-/

set_option autoImplicit false

namespace PaciNet

/-! ## Controller and agent -/

structure DeployRulesRequest where
  rulesYaml : String
  options : Option CompileOptions
  deriving DecidableEq

structure DeployRulesResponse where
  success : Bool
  message : String
  warnings : List String
  deriving DecidableEq

structure RegisterNodeRequest where
  hostname : String
  agentAddress : String
  labels : Labels
  pacgateVersion : String
  capabilities : Labels
  deriving DecidableEq

structure RegisterNodeResponse where
  nodeId : String
  accepted : Bool
  message : String
  deriving DecidableEq

/-- The state travels as an `i32`. -/
structure HeartbeatRequest where
  nodeId : String
  state : Int
  uptimeSeconds : Nat
  deriving DecidableEq

/-! ## Management -/

structure DeployPolicyRequest where
  nodeId : String
  rulesYaml : String
  options : Option CompileOptions
  dryRun : Bool
  deriving DecidableEq

structure DryRunNodeInfo where
  nodeId : String
  hostname : String
  currentPolicyHash : String
  newPolicyHash : String
  policyChanged : Bool
  deriving DecidableEq

structure DryRunResult where
  valid : Bool
  validationErrors : List String
  targetNodes : List DryRunNodeInfo
  deriving DecidableEq

/-- The reply of both single deploys. -/
structure DeployPolicyResponse where
  success : Bool
  message : String
  warnings : List String
  dryRunResult : Option DryRunResult
  deriving DecidableEq

structure BatchDeployPolicyRequest where
  labelFilter : Labels
  rulesYaml : String
  options : Option CompileOptions
  dryRun : Bool
  deriving DecidableEq

structure NodeDeployResult where
  nodeId : String
  hostname : String
  success : Bool
  message : String
  warnings : List String
  deriving DecidableEq

structure BatchDeployPolicyResponse where
  totalNodes : Nat
  succeeded : Nat
  failed : Nat
  results : List NodeDeployResult
  deriving DecidableEq

/-- The reply of both rollbacks. -/
structure RollbackPolicyResponse where
  success : Bool
  message : String
  rolledBackToVersion : Nat
  deriving DecidableEq

/-- The reply of both node removals. -/
structure RemoveNodeResponse where
  success : Bool
  message : String
  deriving DecidableEq

/-! ## REST -/

inductive HttpStatus where
  | notFound
  | badRequest
  | conflict
  | internalServerError
  | serviceUnavailable
  deriving DecidableEq, Repr

/-- An error reply of a REST handler. -/
structure AppError where
  status : HttpStatus
  message : String
  deriving DecidableEq, Repr

/-- `From<tonic::Status> for AppError`. -/
def AppError.ofStatus (status : Status) : AppError where
  status := match status.code with
    | .notFound => .notFound
    | .invalidArgument => .badRequest
    | .alreadyExists => .conflict
    | _ => .internalServerError
  message := status.message

/-- Body of the REST deploy. -/
structure DeployRequest where
  nodeId : String
  rulesYaml : String
  options : CompileOptions
  dryRun : Bool
  deriving DecidableEq

/-- Body of the REST batch deploy. -/
structure BatchDeployRequest where
  labelFilter : Labels
  rulesYaml : String
  options : CompileOptions
  dryRun : Bool
  deriving DecidableEq

structure NodeDeployResultJson where
  nodeId : String
  hostname : String
  success : Bool
  message : String
  deriving DecidableEq

structure BatchDeployResultJson where
  totalNodes : Nat
  succeeded : Nat
  failed : Nat
  results : List NodeDeployResultJson
  deriving DecidableEq

/-! ## Events -/

inductive FsmEvent where
  | transition (instanceId definitionName fromState toState trigger message : String)
      (timestamp : DateTime)
  | deployProgress (instanceId definitionName : String)
      (deployedNodes failedNodes targetNodes : Nat) (timestamp : DateTime)
  | instanceCompleted (instanceId definitionName finalStatus : String) (timestamp : DateTime)
  deriving DecidableEq

inductive NodeEvent where
  | registered (nodeId hostname : String) (labels : Labels) (timestamp : DateTime)
  | stateChanged (nodeId hostname : String) (labels : Labels) (oldState newState : String)
      (timestamp : DateTime)
  | removed (nodeId hostname : String) (labels : Labels) (timestamp : DateTime)
  deriving DecidableEq

/-- Payload sent to a webhook. -/
structure WebhookPayload where
  event : String
  instanceId : String
  definitionName : String
  currentState : String
  message : String
  timestamp : DateTime
  deployedNodes : List String
  deriving DecidableEq

/-! ## The controller's tasks -/

/-- Everything the controller runs as a task of its own: the handlers of both protocols, the
    tasks they start, and the operations of the FSM engine. -/
inductive Request where
  | registerNode (req : RegisterNodeRequest)
  | heartbeat (req : HeartbeatRequest)
  | removeNode (nodeId : String)
  | deployPolicy (req : DeployPolicyRequest)
  | batchDeployPolicy (req : BatchDeployPolicyRequest)
  | rollbackPolicy (nodeId : String) (targetVersion : Nat)
  | restRemoveNode (id : String)
  | restDeployPolicy (body : DeployRequest)
  | restBatchDeployPolicy (body : BatchDeployRequest)
  | restRollbackPolicy (id : String) (targetVersion : Nat)
  | batchTask (joinSet : Nat) (req : DeployPolicyRequest) (node : Node)
  | recordAudit (entry : AuditEntry)
  | startInstance (defName rulesYaml : String) (compileOptions : Option CompileOptions)
  | startAdaptiveInstance (defName : String) (rulesYaml : Option String)
      (compileOptions : Option CompileOptions) (targetLabelFilter : Labels)
  | evaluateAll
  | advanceInstance (instanceId : String) (targetState : Option String)
  | cancelInstance (instanceId reason : String)

/-- What a task returns. -/
inductive Reply where
  | registerNode (r : Except Status RegisterNodeResponse)
  | heartbeat (r : Except Status Unit)
  | removeNode (r : Except Status RemoveNodeResponse)
  | deployPolicy (r : Except Status DeployPolicyResponse)
  | batchDeployPolicy (r : Except Status BatchDeployPolicyResponse)
  | rollbackPolicy (r : Except Status RollbackPolicyResponse)
  | restRemoveNode (r : Except AppError RemoveNodeResponse)
  | restDeployPolicy (r : Except AppError DeployPolicyResponse)
  | restBatchDeployPolicy (r : Except AppError BatchDeployResultJson)
  | restRollbackPolicy (r : Except AppError RollbackPolicyResponse)
  | task
  | startInstance (r : Except PaciNetError FsmInstance)
  | evaluateAll
  | advanceInstance (r : Except PaciNetError FsmInstance)
  | cancelInstance (r : Except PaciNetError Unit)

end PaciNet

import PaciNet.Server.Management

/-!
# The methods of `PaciNetManagement` and the REST endpoints

Every management request with the program that serves it. An empty text or a limit of zero in a
gRPC request stands for a field that was not given; the REST queries have optional fields, whose
defaults are filled in before the handler runs. The streams of events only subscribe.

The REST handlers that write look at the leader flag first; the gRPC methods do not look at it.
-/

set_option autoImplicit false

namespace PaciNet

open Lib

/-- What a management request is served with, besides the storage. -/
structure ManagementState where
  config : ControllerConfig
  /-- `fsm_engine.is_some()` in the gRPC service. -/
  fsmEngine : Bool
  /-- `api_key.is_some()`. -/
  apiKey : Bool
  uiTheme : String

/-- A field that is empty when it was not given. -/
def given (s : String) : Option String := if s = "" then none else some s

/-- A limit that is zero when it was not given. -/
def limitOr (limit default : Nat) : Nat := if limit = 0 then default else limit

section Grpc

variable [Extern] [Serde] (state : ManagementState)

/-! ## gRPC -/

/-- The clock is read for each node. -/
def describeNodes (policies : List (String × Policy)) : List Node → Proc (List NodeInfo)
  | [] => pure []
  | node :: nodes => do
    let now ← op .now
    let infos ← describeNodes policies nodes
    pure (nodeInfo now node (policies.lookup node.nodeId) :: infos)

def listNodes (labelFilter : Labels) : Proc (Except Status (List NodeInfo)) :=
  nodesAndPolicies grpc labelFilter fun nodes policies =>
    (describeNodes policies nodes).bind fun infos => pure (.ok infos)

structure GetPolicyResponse where
  nodeId : String
  rulesYaml : String
  policyHash : String
  deployedAt : DateTime

def getPolicy (nodeId : String) : Proc (Except Status GetPolicyResponse) :=
  readPolicy grpc nodeId fun p => ⟨p.nodeId, p.rulesYaml, p.policyHash, p.deployedAt⟩

structure PolicyVersionInfo where
  version : Nat
  nodeId : String
  policyHash : String
  deployedAt : DateTime
  rulesYaml : String

def getPolicyHistory (nodeId : String) (limit : Nat) :
    Proc (Except Status (List PolicyVersionInfo)) :=
  readPolicyHistory grpc nodeId (limitOr limit 10) fun v =>
    ⟨v.version, v.nodeId, v.policyHash, v.deployedAt, v.rulesYaml⟩

/-- A stream of events needs the event bus. -/
def watch : Proc (Except Status Unit) :=
  pure (if state.config.eventBus then .ok ()
    else .error ⟨.unavailable, "Event streaming not available"⟩)

/-- The methods that need the engine. -/
def withEngine {α : Type} (p : Proc α) : Proc (Except Status α) :=
  if state.fsmEngine then p.bind fun a => pure (.ok a)
  else pure (.error ⟨.internal, "FSM engine not available"⟩)

def createFsmDefinition (definitionYaml : String) : Proc (Except Status CreateResponse) :=
  storeDefinition grpc definitionYaml fun _ => pure ()

def deleteFsmDefinition (name : String) : Proc (Except Status SuccessResponse) :=
  eraseDefinition grpc name

def setNodeAnnotations (nodeId : String) (annotations : Labels) (removeKeys : List String) :
    Proc (Except Status SuccessResponse) :=
  annotateNode grpc nodeId annotations removeKeys (pure ())

/-- A method of `PaciNetManagement` with its request. -/
inductive GrpcRequest where
  | listNodes (labelFilter : Labels)
  | getNode (nodeId : String)
  | removeNode (nodeId : String)
  | deployPolicy (req : DeployPolicyRequest)
  | getPolicy (nodeId : String)
  | getNodeCounters (nodeId : String)
  | getAggregateCounters (labelFilter : Labels)
  | batchDeployPolicy (req : BatchDeployPolicyRequest)
  | getFleetStatus (labelFilter : Labels)
  | getPolicyHistory (nodeId : String) (limit : Nat)
  | getDeploymentHistory (nodeId : String) (limit : Nat)
  | rollbackPolicy (nodeId : String) (targetVersion : Nat)
  | watchFsmEvents (instanceId : String)
  | watchCounters (nodeId : String)
  | watchNodeEvents (labelFilter : Labels)
  | createFsmDefinition (definitionYaml : String)
  | getFsmDefinition (name : String)
  | listFsmDefinitions (kind : String)
  | deleteFsmDefinition (name : String)
  | startFsm (req : StartFsmRequest)
  | getFsmInstance (instanceId : String)
  | listFsmInstances (definitionName status : String)
  | advanceFsm (instanceId targetState : String)
  | cancelFsm (instanceId reason : String)
  | setNodeAnnotations (nodeId : String) (annotations : Labels) (removeKeys : List String)
  | queryAuditLog (action resourceType resourceId : String) (since : Option DateTime) (limit : Nat)
  | createPolicyTemplate (req : CreateTemplateRequest)
  | getPolicyTemplate (name : String)
  | listPolicyTemplates (tag : String)
  | deletePolicyTemplate (name : String)
  | queryWebhookDeliveries (instanceId : String) (limit : Nat)

/-- What a method replies with. -/
@[reducible] def GrpcRequest.Response : GrpcRequest → Type
  | listNodes _ => List NodeInfo
  | getNode _ => NodeInfo
  | removeNode _ => RemoveNodeResponse
  | deployPolicy _ => DeployPolicyResponse
  | getPolicy _ => GetPolicyResponse
  | getNodeCounters _ => CounterSet RuleCounter
  | getAggregateCounters _ => List (CounterSet RuleCounter)
  | batchDeployPolicy _ => BatchDeployPolicyResponse
  | getFleetStatus _ => FleetStatus
  | getPolicyHistory _ _ => List PolicyVersionInfo
  | getDeploymentHistory _ _ => List DeploymentRecord
  | rollbackPolicy _ _ => RollbackPolicyResponse
  | watchFsmEvents _ | watchCounters _ | watchNodeEvents _ => Unit
  | createFsmDefinition _ => CreateResponse
  | getFsmDefinition _ => FsmDefinitionInfo
  | listFsmDefinitions _ => List FsmDefinitionSummary
  | deleteFsmDefinition _ => SuccessResponse
  | startFsm _ => StartFsmResponse
  | getFsmInstance _ => FsmInstance
  | listFsmInstances _ _ => List FsmInstance
  | advanceFsm _ _ => AdvanceFsmResponse
  | cancelFsm _ _ => SuccessResponse
  | setNodeAnnotations _ _ _ => SuccessResponse
  | queryAuditLog _ _ _ _ _ => List AuditEntry
  | createPolicyTemplate _ => CreateResponse
  | getPolicyTemplate _ => PolicyTemplate
  | listPolicyTemplates _ => List PolicyTemplateSummary
  | deletePolicyTemplate _ => SuccessResponse
  | queryWebhookDeliveries _ _ => List WebhookDelivery

/-- The program of a method. -/
def serveGrpc : (q : GrpcRequest) → Proc (Except Status q.Response)
  | .listNodes labelFilter => listNodes labelFilter
  | .getNode nodeId => readNode grpc nodeId
  | .removeNode nodeId => removeNode state.config nodeId
  | .deployPolicy req => deployPolicy state.config req
  | .getPolicy nodeId => getPolicy nodeId
  | .getNodeCounters nodeId => readCounters grpc nodeId (storage (.getCounters nodeId))
  | .getAggregateCounters labelFilter =>
    readAggregate grpc labelFilter fun n => storage (.getCounters n)
  | .batchDeployPolicy req => batchDeployPolicy req
  | .getFleetStatus labelFilter => readFleetStatus grpc labelFilter
  | .getPolicyHistory nodeId limit => getPolicyHistory nodeId limit
  | .getDeploymentHistory nodeId limit => readDeploymentHistory grpc nodeId (limitOr limit 20)
  | .rollbackPolicy nodeId targetVersion => rollbackPolicy state.config nodeId targetVersion
  | .watchFsmEvents _ | .watchCounters _ | .watchNodeEvents _ => watch state
  | .createFsmDefinition definitionYaml => createFsmDefinition definitionYaml
  | .getFsmDefinition name => readFsmDefinition grpc name ("Failed to serialize: " ++ ·)
  | .listFsmDefinitions kind => readFsmDefinitions grpc (given kind)
  | .deleteFsmDefinition name => deleteFsmDefinition name
  | .startFsm req => withEngine state (startOnEngine state.config req)
  | .getFsmInstance instanceId => readFsmInstance grpc instanceId
  | .listFsmInstances definitionName status =>
    readFsmInstances grpc (given definitionName) (given status)
  | .advanceFsm instanceId targetState =>
    withEngine state (advanceOnEngine state.config instanceId (given targetState))
  | .cancelFsm instanceId reason => withEngine state (cancelOnEngine state.config instanceId reason)
  | .setNodeAnnotations nodeId annotations removeKeys =>
    setNodeAnnotations nodeId annotations removeKeys
  | .queryAuditLog action resourceType resourceId since limit =>
    readAuditLog grpc (given action) (given resourceType) (given resourceId) since
      (limitOr limit 50)
  | .createPolicyTemplate req => writeTemplate grpc req (CreateResponse.mk true req.name) (pure ())
  | .getPolicyTemplate name => readTemplate grpc name
  | .listPolicyTemplates tag => readTemplates grpc (given tag)
  | .deletePolicyTemplate name => eraseTemplate grpc name (pure ())
  | .queryWebhookDeliveries instanceId limit =>
    readWebhookDeliveries grpc (given instanceId) (limitOr limit 50)

end Grpc

section Rest

variable [Extern] [Serde] (state : ManagementState)

/-! ## REST -/

/-- `parse_label_filter`, on texts like `key=val,key2=val2`. -/
def parseLabelFilter (label : Option String) : Labels :=
  match label with
  | none => ∅
  | some s => (s.splitOn ",").foldl (fun map pair =>
      match pair.splitOn "=" with
      | k :: v :: vs => map.insert k ("=".intercalate (v :: vs))
      | _ => map) ∅

/-- The clock is read once for all nodes. -/
def restListNodes (label : Option String) : Proc (Except AppError (List NodeInfo)) :=
  nodesAndPolicies rest (parseLabelFilter label) fun nodes policies => do
    let now ← op .now
    pure (.ok (nodes.map fun node => nodeInfo now node (policies.lookup node.nodeId)))

/-- `set_ui_theme`: the theme it puts into the state of the application, and its reply. -/
def setUiTheme (theme : String) : Except AppError (String × SuccessResponse) :=
  let theme := asciiLowercase (.ofList (trim theme.toList))
  if theme != "dark" && theme != "light" then
    .error ⟨.badRequest, "theme must be 'dark' or 'light'"⟩
  else .ok (theme, ⟨true, "UI theme set to " ++ theme⟩)

structure HealthResponse where
  status : String
  authRequired : Bool
  role : String

def healthCheck : Proc HealthResponse := do
  let leader ← op .isLeader
  pure ⟨"ok", state.apiKey, if leader then "leader" else "standby"⟩

/-- `record_audit` for any type of resource. -/
def recordAuditOn (resourceType action resourceId details : String) : Proc Unit := do
  let id ← op .uuid
  let timestamp ← op .now
  op (.recordAudit {
    id := id
    timestamp := timestamp
    actor := "api"
    action := action
    resourceType := resourceType
    resourceId := resourceId
    details := details })

def restCreateFsmDefinition (definitionYaml : String) : Proc (Except AppError CreateResponse) :=
  requireLeader.orReturn fun () => storeDefinition rest definitionYaml fun name =>
    recordAuditOn "fsm_definition" "create_fsm_definition" name "\x7b\x7d"

def restDeleteFsmDefinition (name : String) : Proc (Except AppError SuccessResponse) :=
  requireLeader.orReturn fun () => eraseDefinition rest name

/-- The handlers that call the engine, which is always there. -/
def onEngine {α : Type} (p : Proc α) : Proc (Except AppError α) :=
  requireLeader.orReturn fun () => p.bind fun a => pure (.ok a)

def setAnnotations (id : String) (annotations : Labels) (removeKeys : List String) :
    Proc (Except AppError SuccessResponse) :=
  requireLeader.orReturn fun () => annotateNode rest id annotations removeKeys
    (recordAuditOn "node" "set_annotations" id (Serde.annotationsJson annotations removeKeys))

def createTemplate (req : CreateTemplateRequest) : Proc (Except AppError SuccessResponse) :=
  requireLeader.orReturn fun () => writeTemplate rest req (SuccessResponse.mk true)
    (recordAuditOn "template" "create_template" req.name "\x7b\x7d")

def deleteTemplate (name : String) : Proc (Except AppError SuccessResponse) :=
  requireLeader.orReturn fun () => eraseTemplate rest name
    (recordAuditOn "template" "delete_template" name "\x7b\x7d")

/-- `get_event_history`. -/
def getEventHistory (eventType source : Option String) (since until_ : Option DateTime)
    (limit : Nat) : Proc (Except AppError (List PersistentEvent)) :=
  ask rest (storage (.queryEvents eventType source since until_ limit)) .ok

/-- An endpoint with its request. A time is missing when its text does not parse. -/
inductive RestRequest where
  | healthCheck
  | listNodes (label : Option String)
  | getNode (id : String)
  | removeNode (id : String)
  | getPolicy (id : String)
  | getNodeCounters (id : String)
  | getNodeFlowCounters (id : String)
  | getPolicyHistory (id : String) (limit : Nat)
  | getDeploymentHistory (id : String) (limit : Nat)
  | rollbackPolicy (id : String) (targetVersion : Nat)
  | setAnnotations (id : String) (annotations : Labels) (removeKeys : List String)
  | getFleetStatus (label : Option String)
  | getUiTheme
  | setUiTheme (theme : String)
  | getAggregateCounters (label : Option String)
  | getAggregateFlowCounters (label : Option String)
  | deployPolicy (body : DeployRequest)
  | batchDeployPolicy (body : BatchDeployRequest)
  | listFsmDefinitions (kind : Option String)
  | createFsmDefinition (definitionYaml : String)
  | getFsmDefinition (name : String)
  | deleteFsmDefinition (name : String)
  | listFsmInstances (definition status : Option String)
  | startFsm (body : StartFsmRequest)
  | getFsmInstance (id : String)
  | advanceFsm (id : String) (targetState : Option String)
  | cancelFsm (id reason : String)
  | sseNodeEvents (label : Option String)
  | sseCounterEvents (node : Option String)
  | sseFsmEvents (instanceId : Option String)
  | getEventHistory (eventType source : Option String) (since until_ : Option DateTime)
      (limit : Nat)
  | getAuditLog (action resourceType resourceId : Option String) (since : Option DateTime)
      (limit : Nat)
  | listTemplates (tag : Option String)
  | createTemplate (body : CreateTemplateRequest)
  | getTemplate (name : String)
  | deleteTemplate (name : String)
  | getWebhookHistory (instanceId : Option String) (limit : Nat)

/-- What an endpoint replies with. -/
@[reducible] def RestRequest.Response : RestRequest → Type
  | healthCheck => HealthResponse
  | listNodes _ => List NodeInfo
  | getNode _ => NodeInfo
  | removeNode _ => RemoveNodeResponse
  | getPolicy _ => Policy
  | getNodeCounters _ => CounterSet RuleCounter
  | getNodeFlowCounters _ => CounterSet FlowCounter
  | getPolicyHistory _ _ => List PolicyVersion
  | getDeploymentHistory _ _ => List DeploymentRecord
  | rollbackPolicy _ _ => RollbackPolicyResponse
  | setAnnotations _ _ _ => SuccessResponse
  | getFleetStatus _ => FleetStatus
  | getUiTheme => String
  | setUiTheme _ => String × SuccessResponse
  | getAggregateCounters _ => List (CounterSet RuleCounter)
  | getAggregateFlowCounters _ => List (CounterSet FlowCounter)
  | deployPolicy _ => DeployPolicyResponse
  | batchDeployPolicy _ => BatchDeployResultJson
  | listFsmDefinitions _ => List FsmDefinitionSummary
  | createFsmDefinition _ => CreateResponse
  | getFsmDefinition _ => FsmDefinitionInfo
  | deleteFsmDefinition _ => SuccessResponse
  | listFsmInstances _ _ => List FsmInstance
  | startFsm _ => StartFsmResponse
  | getFsmInstance _ => FsmInstance
  | advanceFsm _ _ => AdvanceFsmResponse
  | cancelFsm _ _ => SuccessResponse
  | sseNodeEvents _ | sseCounterEvents _ | sseFsmEvents _ => Unit
  | getEventHistory _ _ _ _ _ => List PersistentEvent
  | getAuditLog _ _ _ _ _ => List AuditEntry
  | listTemplates _ => List PolicyTemplateSummary
  | createTemplate _ => SuccessResponse
  | getTemplate _ => PolicyTemplate
  | deleteTemplate _ => SuccessResponse
  | getWebhookHistory _ _ => List WebhookDelivery

/-- The program of an endpoint. -/
def serveRest : (q : RestRequest) → Proc (Except AppError q.Response)
  | .healthCheck => (healthCheck state).bind fun r => pure (.ok r)
  | .listNodes label => restListNodes label
  | .getNode id => readNode rest id
  | .removeNode id => restRemoveNode id
  | .getPolicy id => readPolicy rest id fun p => p
  | .getNodeCounters id => readCounters rest id (storage (.getCounters id))
  | .getNodeFlowCounters id => readCounters rest id (storage (.getFlowCounters id))
  | .getPolicyHistory id limit => readPolicyHistory rest id limit fun v => v
  | .getDeploymentHistory id limit => readDeploymentHistory rest id limit
  | .rollbackPolicy id targetVersion => restRollbackPolicy state.config id targetVersion
  | .setAnnotations id annotations removeKeys => setAnnotations id annotations removeKeys
  | .getFleetStatus label => readFleetStatus rest (parseLabelFilter label)
  | .getUiTheme => pure (.ok state.uiTheme)
  | .setUiTheme theme => pure (setUiTheme theme)
  | .getAggregateCounters label =>
    readAggregate rest (parseLabelFilter label) fun n => storage (.getCounters n)
  | .getAggregateFlowCounters label =>
    readAggregate rest (parseLabelFilter label) fun n => storage (.getFlowCounters n)
  | .deployPolicy body => restDeployPolicy state.config body
  | .batchDeployPolicy body => restBatchDeployPolicy state.config body
  | .listFsmDefinitions kind => readFsmDefinitions rest kind
  | .createFsmDefinition definitionYaml => restCreateFsmDefinition definitionYaml
  | .getFsmDefinition name => readFsmDefinition rest name fun e => e
  | .deleteFsmDefinition name => restDeleteFsmDefinition name
  | .listFsmInstances definition status => readFsmInstances rest definition status
  | .startFsm body => onEngine (startOnEngine state.config body)
  | .getFsmInstance id => readFsmInstance rest id
  | .advanceFsm id targetState => onEngine (advanceOnEngine state.config id targetState)
  | .cancelFsm id reason => onEngine (cancelOnEngine state.config id reason)
  | .sseNodeEvents _ | .sseCounterEvents _ | .sseFsmEvents _ => pure (.ok ())
  | .getEventHistory eventType source since until_ limit =>
    getEventHistory eventType source since until_ limit
  | .getAuditLog action resourceType resourceId since limit =>
    readAuditLog rest action resourceType resourceId since limit
  | .listTemplates tag => readTemplates rest tag
  | .createTemplate body => createTemplate body
  | .getTemplate name => readTemplate rest name
  | .deleteTemplate name => deleteTemplate name
  | .getWebhookHistory instanceId limit => readWebhookDeliveries rest instanceId limit

end Rest

end PaciNet

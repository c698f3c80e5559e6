import PaciNet.Server.FsmEngine
import PaciNet.Server.Rest

/-!
# The management API

The handlers of both protocols for everything but deploys and rollbacks. The two protocols serve
most of it alike and differ in the errors they answer with, so what they share is defined once,
for a `Protocol`.

Times, states and texts that hold JSON are carried in a reply as they are stored.
-/

set_option autoImplicit false

namespace PaciNet

open Lib

/-- `serde` on definitions, and on the details of an audit entry. -/
class Serde where
  /-- `serde_yaml::from_str::<FsmDefinition>`. -/
  fromYaml : String → Except String FsmDefinition
  /-- `serde_yaml::to_string`. -/
  toYaml : FsmDefinition → Except String String
  /-- The text of `json!` on the annotations that are set and the keys that are removed. -/
  annotationsJson : Labels → List String → String

/-- `FsmDefinition::from_yaml`. -/
def FsmDefinition.fromYaml [Serde] (yaml : String) : Except FsmError FsmDefinition :=
  (Serde.fromYaml yaml).mapError .yamlParse

/-! ## The two protocols -/

/-- The errors of a protocol. -/
structure Protocol (ε : Type) where
  ofError : PaciNetError → ε
  notFound : String → ε
  invalid : String → ε
  internal : String → ε

def grpc : Protocol Status where
  ofError e := e.toStatus
  notFound message := ⟨.notFound, message⟩
  invalid message := ⟨.invalidArgument, message⟩
  internal message := ⟨.internal, message⟩

def rest : Protocol AppError where
  ofError e := .ofStatus e.toStatus
  notFound message := ⟨.notFound, message⟩
  invalid message := ⟨.badRequest, message⟩
  internal message := ⟨.internalServerError, message⟩

section Protocol

variable {ε α β : Type} (P : Protocol ε)

/-- `blocking(..).await?`. -/
def blocking (p : Proc (StorageResult α)) (f : α → Proc (Except ε β)) : Proc (Except ε β) :=
  (p.bind fun r => .done (r.mapError P.ofError)).orReturn f

/-- `ok_or_else` with the protocol's error for what is not there. -/
def found (message : String) (a : Option α) : Except ε α :=
  match a with
  | some a => .ok a
  | none => .error (P.notFound message)

/-! ## Reading nodes -/

/-- What is told of a node. -/
structure NodeInfo where
  node : Node
  policyHash : String
  lastHeartbeatAge : Int

/-- `node_to_proto`, and the same in the REST handlers, at the instant `now`. -/
def nodeInfo (now : DateTime) (node : Node) (policy : Option Policy) : NodeInfo where
  node := node
  policyHash := (policy.map (·.policyHash)).getD ""
  lastHeartbeatAge := now - node.lastHeartbeat

/-- The nodes with the given labels, and their policies. -/
def nodesAndPolicies (labelFilter : Labels)
    (f : List Node → List (String × Policy) → Proc (Except ε β)) : Proc (Except ε β) :=
  blocking P (storage (.listNodes labelFilter)) fun nodes =>
    blocking P (storage (.getPoliciesForNodes (nodes.map Node.nodeId))) fun policies =>
      f nodes policies

/-- Both `get_node`. -/
def readNode (nodeId : String) : Proc (Except ε NodeInfo) :=
  blocking P (storage (.getNode nodeId)) fun node =>
    match found P ("Node " ++ nodeId ++ " not found") node with
    | .error e => pure (.error e)
    | .ok node =>
      blocking P (storage (.getPolicy nodeId)) fun policy => do
        let now ← op .now
        pure (.ok (nodeInfo now node policy))

/-- One node of the fleet. -/
structure FleetNode where
  nodeId : String
  hostname : String
  state : NodeState
  policyHash : String
  uptimeSeconds : Nat
  lastHeartbeatAge : Int
  lastDeployTime : Option DateTime

structure FleetStatus where
  totalNodes : Nat
  nodesByState : AList fun _ : String => Nat
  nodes : List FleetNode

/-- What is told of a node in the fleet. -/
def fleetNode (now : DateTime) (policies : List (String × Policy)) (node : Node) : FleetNode where
  nodeId := node.nodeId
  hostname := node.hostname
  state := node.state
  policyHash := ((policies.lookup node.nodeId).map (·.policyHash)).getD ""
  uptimeSeconds := node.uptimeSeconds
  lastHeartbeatAge := now - node.lastHeartbeat
  lastDeployTime := (policies.lookup node.nodeId).map (·.deployedAt)

/-- Both `get_fleet_status`. -/
def readFleetStatus (labelFilter : Labels) : Proc (Except ε FleetStatus) :=
  nodesAndPolicies P labelFilter fun nodes policies => do
    let now ← op .now
    pure (.ok {
      totalNodes := asU32 nodes.length
      nodesByState := nodes.foldl (fun m node =>
        m.insert node.state.toString ((m.lookup node.state.toString).getD 0 + 1)) ∅
      nodes := nodes.map (fleetNode now policies) })

/-! ## Reading counters -/

/-- The counters of a node. -/
structure CounterSet (α : Type) where
  nodeId : String
  counters : List α
  collectedAt : DateTime

/-- The counters of one node, `unwrap_or_default`. -/
def readCounters (nodeId : String) (counters : Proc (StorageResult (Option (List α)))) :
    Proc (Except ε (CounterSet α)) :=
  blocking P counters fun counters => do
    let now ← op .now
    pure (.ok ⟨nodeId, counters.getD [], now⟩)

/-- The counters of those nodes that have reported some. -/
def counterSets (counters : String → Proc (StorageResult (Option (List α)))) :
    List Node → Proc (Except ε (List (CounterSet α)))
  | [] => pure (.ok [])
  | node :: nodes =>
    blocking P (counters node.nodeId) fun
      | none => counterSets counters nodes
      | some cs => do
        let now ← op .now
        (counterSets counters nodes).orReturn fun sets => pure (.ok (⟨node.nodeId, cs, now⟩ :: sets))

/-- The counters of all nodes with the given labels. -/
def readAggregate (labelFilter : Labels)
    (counters : String → Proc (StorageResult (Option (List α)))) :
    Proc (Except ε (List (CounterSet α))) :=
  blocking P (storage (.listNodes labelFilter)) fun nodes => counterSets P counters nodes

/-! ## Reading single records -/

/-- A handler that reads once and replies with what it found. -/
def ask (p : Proc (StorageResult α)) (f : α → Except ε β) : Proc (Except ε β) :=
  blocking P p fun a => .done (f a)

/-- Both `get_policy`; the replies differ in how much they tell. -/
def readPolicy (nodeId : String) (f : Policy → β) : Proc (Except ε β) :=
  ask P (storage (.getPolicy nodeId)) fun policy =>
    (found P ("No policy for node " ++ nodeId) policy).map f

/-- Both `get_policy_history`. -/
def readPolicyHistory (nodeId : String) (limit : Nat) (f : PolicyVersion → β) :
    Proc (Except ε (List β)) :=
  ask P (storage (.getPolicyHistory nodeId limit)) fun versions => .ok (versions.map f)

/-- Both `get_deployment_history`. -/
def readDeploymentHistory (nodeId : String) (limit : Nat) :
    Proc (Except ε (List DeploymentRecord)) :=
  ask P (storage (.getDeployments nodeId limit)) .ok

structure FsmDefinitionInfo where
  name : String
  kind : FsmKind
  description : String
  definitionYaml : String

/-- The texts of definitions and instances that are not there. -/
def definitionNotFound (name : String) : String := "FSM definition '" ++ name ++ "' not found"

def instanceNotFound (id : String) : String := "FSM instance '" ++ id ++ "' not found"

/-- Both `get_fsm_definition`. -/
def readFsmDefinition [Serde] (name : String) (failed : String → String) :
    Proc (Except ε FsmDefinitionInfo) :=
  ask P (storage (.getFsmDefinition name)) fun d => do
    let d ← found P (definitionNotFound name) d
    match Serde.toYaml d with
    | .error e => .error (P.internal (failed e))
    | .ok yaml => .ok ⟨d.name, d.kind, d.description, yaml⟩

structure FsmDefinitionSummary where
  name : String
  kind : FsmKind
  description : String
  stateCount : Nat
  initialState : String

/-- `FsmKind::from_str`. -/
def FsmKind.fromStr (s : String) : Except String FsmKind :=
  match asciiLowercase s with
  | "deployment" => .ok .deployment
  | "adaptive_policy" => .ok .adaptivePolicy
  | _ => .error ("unknown FSM kind: " ++ s)

/-- `FsmInstanceStatus::from_str`. -/
def FsmInstanceStatus.fromStr (s : String) : Except String FsmInstanceStatus :=
  match asciiLowercase s with
  | "running" => .ok .running
  | "completed" => .ok .completed
  | "failed" => .ok .failed
  | "cancelled" => .ok .cancelled
  | _ => .error ("unknown FSM instance status: " ++ s)

/-- Parse a filter that may be missing, and go on with it. -/
def withFilter (parse : String → Except String α) (text : Option String)
    (f : Option α → Proc (Except ε β)) : Proc (Except ε β) :=
  match text with
  | none => f none
  | some s =>
    match parse s with
    | .error e => pure (.error (P.invalid e))
    | .ok a => f (some a)

/-- Both `list_fsm_definitions`. -/
def readFsmDefinitions (kind : Option String) : Proc (Except ε (List FsmDefinitionSummary)) :=
  withFilter P FsmKind.fromStr kind fun kind =>
    ask P (storage (.listFsmDefinitions kind)) fun ds => .ok (ds.map fun d =>
      ⟨d.name, d.kind, d.description, asU32 d.states.entries.length, d.initial⟩)

/-- Both `get_fsm_instance`. -/
def readFsmInstance (id : String) : Proc (Except ε FsmInstance) :=
  ask P (storage (.getFsmInstance id)) (found P (instanceNotFound id))

/-- Both `list_fsm_instances`. -/
def readFsmInstances (definitionName status : Option String) :
    Proc (Except ε (List FsmInstance)) :=
  withFilter P FsmInstanceStatus.fromStr status fun status =>
    ask P (storage (.listFsmInstances definitionName status)) .ok

/-- `query_audit_log` and `get_audit_log`. -/
def readAuditLog (action resourceType resourceId : Option String) (since : Option DateTime)
    (limit : Nat) : Proc (Except ε (List AuditEntry)) :=
  ask P (storage (.queryAudit action resourceType resourceId since limit)) .ok

/-- `get_policy_template` and `get_template`. -/
def readTemplate (name : String) : Proc (Except ε PolicyTemplate) :=
  ask P (storage (.getTemplate name)) (found P ("Template '" ++ name ++ "' not found"))

structure PolicyTemplateSummary where
  name : String
  description : String
  tags : List String
  createdAt : DateTime
  updatedAt : DateTime

/-- `list_policy_templates` and `list_templates`. -/
def readTemplates (tag : Option String) : Proc (Except ε (List PolicyTemplateSummary)) :=
  ask P (storage (.listTemplates tag)) fun ts =>
    .ok (ts.map fun t => ⟨t.name, t.description, t.tags, t.createdAt, t.updatedAt⟩)

/-- `query_webhook_deliveries` and `get_webhook_history`. -/
def readWebhookDeliveries (instanceId : Option String) (limit : Nat) :
    Proc (Except ε (List WebhookDelivery)) :=
  ask P (storage (.queryWebhookDeliveries instanceId limit)) .ok

/-! ## Writes -/

structure SuccessResponse where
  success : Bool
  message : String

structure CreateResponse where
  success : Bool
  name : String
  message : String

/-- Parse and check the text of a definition. -/
def parseDefinition [Serde] (yaml : String) : Except ε FsmDefinition :=
  match FsmDefinition.fromYaml yaml with
  | .error e => .error (P.invalid ("Invalid YAML: " ++ e.toString))
  | .ok d =>
    match d.validate with
    | .error e => .error (P.invalid ("Invalid definition: " ++ e.toString))
    | .ok () => .ok d

/-- What both `create_fsm_definition` do; `audit` is what follows the write. -/
def storeDefinition [Serde] (yaml : String) (audit : String → Proc Unit) :
    Proc (Except ε CreateResponse) :=
  match parseDefinition P yaml with
  | .error e => pure (.error e)
  | .ok d =>
    blocking P (storage (.storeFsmDefinition d)) fun () => do
      audit d.name
      pure (.ok ⟨true, d.name, "FSM definition '" ++ d.name ++ "' created"⟩)

/-- Both `delete_fsm_definition`. -/
def eraseDefinition (name : String) : Proc (Except ε SuccessResponse) :=
  ask P (storage (.deleteFsmDefinition name)) fun deleted => .ok ⟨deleted,
    if deleted then "FSM definition '" ++ name ++ "' deleted" else definitionNotFound name⟩

/-- `set_node_annotations` and `set_annotations`. -/
def annotateNode (nodeId : String) (set : Labels) (remove : List String) (audit : Proc Unit) :
    Proc (Except ε SuccessResponse) :=
  blocking P (storage (.updateAnnotations nodeId set remove)) fun () => do
    audit
    pure (.ok ⟨true, "Annotations updated"⟩)

/-- A request to create a template. -/
structure CreateTemplateRequest where
  name : String
  description : String
  rulesYaml : String
  tags : List String

/-- The template a request creates. -/
def CreateTemplateRequest.template (req : CreateTemplateRequest) (now : DateTime) :
    PolicyTemplate where
  name := req.name
  description := req.description
  rulesYaml := req.rulesYaml
  tags := req.tags
  createdAt := now
  updatedAt := now

/-- `create_policy_template` and `create_template`. -/
def writeTemplate (req : CreateTemplateRequest) (reply : String → β) (audit : Proc Unit) :
    Proc (Except ε β) := do
  let now ← op .now
  blocking P (storage (.storeTemplate (req.template now))) fun () => do
    audit
    pure (.ok (reply ("Template '" ++ req.name ++ "' created")))

/-- `delete_policy_template` and `delete_template`. -/
def eraseTemplate (name : String) (audit : Proc Unit) : Proc (Except ε SuccessResponse) :=
  blocking P (storage (.deleteTemplate name)) fun deleted => do
    if deleted then audit
    pure (.ok ⟨deleted,
      "Template '" ++ name ++ (if deleted then "' deleted" else "' not found")⟩)

end Protocol

/-! ## The engine -/

section Engine

variable [Extern] (cfg : ControllerConfig)

structure StartFsmRequest where
  definitionName : String
  rulesYaml : String
  options : Option CompileOptions
  targetLabelFilter : Labels

structure StartFsmResponse where
  success : Bool
  instanceId : String
  message : String

/-- Both `start_fsm`: with target labels the instance is adaptive. -/
def startOnEngine (req : StartFsmRequest) : Proc StartFsmResponse := do
  let result ←
    if req.targetLabelFilter.entries = [] then
      startInstance cfg req.definitionName req.rulesYaml req.options
    else
      startAdaptiveInstance cfg req.definitionName
        (if req.rulesYaml = "" then none else some req.rulesYaml) req.options
        req.targetLabelFilter
  match result with
  | .ok inst => pure ⟨true, inst.instanceId, "FSM instance started"⟩
  | .error e => pure ⟨false, "", e.toString⟩

structure AdvanceFsmResponse where
  success : Bool
  currentState : String
  message : String

/-- Both `advance_fsm`. -/
def advanceOnEngine (instanceId : String) (targetState : Option String) :
    Proc AdvanceFsmResponse := do
  match ← advanceInstance cfg instanceId targetState with
  | .ok inst => pure ⟨true, inst.currentState, "FSM advanced"⟩
  | .error e => pure ⟨false, "", e.toString⟩

/-- Both `cancel_fsm`. -/
def cancelOnEngine (instanceId reason : String) : Proc SuccessResponse := do
  match ← cancelInstance cfg instanceId reason with
  | .ok () => pure ⟨true, "FSM instance cancelled"⟩
  | .error e => pure ⟨false, e.toString⟩

end Engine

end PaciNet

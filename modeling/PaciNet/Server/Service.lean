import PaciNet.Server.Deploy

/-!
# The gRPC services

The handlers of the agent-facing service and of the management service that touch nodes and
policies. A storage error becomes a status on its way out of `blocking`, and the handlers pass
it on.
-/

set_option autoImplicit false

namespace PaciNet

variable [Extern] (cfg : ControllerConfig)

/-! ## Agent to controller -/

/-- Emit a node event on the event bus, if there is one. -/
def emitNode (e : DateTime → NodeEvent) : Proc Unit := do
  if cfg.eventBus then
    let now ← op .now
    op (.emitNode (e now))

def registerNode (req : RegisterNodeRequest) : Proc (Except Status RegisterNodeResponse) := do
  let now ← op .now
  let id ← op .uuid
  let node :=
    { Node.new now id req.hostname req.agentAddress req.labels req.pacgateVersion with
      capabilities := req.capabilities }
  match ← storage (.registerNode node) with
  | .error e => pure (.error e.toStatus)
  | .ok nodeId =>
    emitNode cfg (.registered nodeId req.hostname req.labels)
    pure (.ok ⟨nodeId, true, "Node registered"⟩)

/-- The node as it was before a request, `.await.ok().flatten()`. -/
def nodeBefore (nodeId : String) : Proc (Option Node) := do
  match ← storage (.getNode nodeId) with
  | .ok node => pure node
  | .error _ => pure none

/-- The node as it was before a request, read for the event only. -/
def nodeForEvent (nodeId : String) : Proc (Option Node) :=
  if cfg.eventBus then nodeBefore nodeId else pure none

/-- The state a heartbeat reports; a number that names no state counts as online. -/
def HeartbeatRequest.newState (req : HeartbeatRequest) : NodeState :=
  .ofProto ((ProtoNodeState.tryFrom req.state).getD .online)

def heartbeat (req : HeartbeatRequest) : Proc (Except Status Unit) := do
  let oldNode ← nodeForEvent cfg req.nodeId
  match ← storage (.updateHeartbeat req.nodeId req.newState req.uptimeSeconds) with
  | .error e => pure (.error e.toStatus)
  | .ok false => pure (.error ⟨.notFound, "Node not registered"⟩)
  | .ok true =>
    match oldNode with
    | none => pure ()
    | some node =>
      if node.state != req.newState then
        emitNode cfg (.stateChanged node.nodeId node.hostname node.labels node.state.toString
          req.newState.toString)
    pure (.ok ())

/-! ## Management -/

def removeNode (nodeId : String) : Proc (Except Status RemoveNodeResponse) := do
  let before ← nodeForEvent cfg nodeId
  match ← storage (.removeNode nodeId) with
  | .error e => pure (.error e.toStatus)
  | .ok false => pure (.ok ⟨false, "Node not found"⟩)
  | .ok true =>
    match before with
    | none => pure ()
    | some node => emitNode cfg (.removed node.nodeId node.hostname node.labels)
    pure (.ok ⟨true, "Node removed"⟩)

/-- `Status::not_found(format!("Node {} not found", node_id))`. -/
def nodeNotFound (nodeId : String) : Status := ⟨.notFound, "Node " ++ nodeId ++ " not found"⟩

/-- `do_deploy`. -/
def doDeploy (req : DeployPolicyRequest) (node : Node) : Proc DeployPolicyResponse := do
  let outcome ← deployToNode cfg node req.rulesYaml (req.options.getD .default)
  pure ⟨outcome.success, outcome.message, outcome.warnings, none⟩

/-- The gRPC `deploy_policy`. It does not look at `dry_run`. -/
def deployPolicy (req : DeployPolicyRequest) : Proc (Except Status DeployPolicyResponse) := do
  match ← storage (.getNode req.nodeId) with
  | .error e => pure (.error e.toStatus)
  | .ok none => pure (.error (nodeNotFound req.nodeId))
  | .ok (some node) =>
    match ← storage (.beginDeploy req.nodeId) with
    | .error e => pure (.error e.toStatus)
    | .ok () =>
      let response ← doDeploy cfg req node
      storage (.endDeploy req.nodeId)
      pure (.ok response)

/-- `deploy_single_node`. -/
def deploySingleNode (req : DeployPolicyRequest) (node : Node) :
    Proc (Except Status DeployPolicyResponse) := do
  match ← storage (.beginDeploy req.nodeId) with
  | .error e => pure (.error e.toStatus)
  | .ok () =>
    let outcome ← deployToNode cfg node req.rulesYaml (req.options.getD .default)
    storage (.endDeploy req.nodeId)
    pure (.ok ⟨outcome.success, outcome.message, outcome.warnings, none⟩)

/-- The task of one node of a batch. -/
def batchTask (joinSet : Nat) (req : DeployPolicyRequest) (node : Node) : Proc Unit := do
  match ← deploySingleNode cfg req node with
  | .ok resp =>
    op (.joinSetPut joinSet
      ⟨node.nodeId, node.hostname, resp.success, resp.message, resp.warnings⟩)
  | .error status =>
    op (.joinSetPut joinSet ⟨node.nodeId, node.hostname, false, status.message, []⟩)

/-- The request a batch makes for one of its nodes. -/
def BatchDeployPolicyRequest.single (req : BatchDeployPolicyRequest) (node : Node) :
    DeployPolicyRequest :=
  ⟨node.nodeId, req.rulesYaml, req.options, false⟩

/-- Start the task of each node. -/
def spawnAll (joinSet : Nat) (req : BatchDeployPolicyRequest) : List Node → Proc Unit
  | [] => pure ()
  | node :: nodes => do
    op (.joinSetSpawn joinSet (req.single node) node)
    spawnAll joinSet req nodes

/-- Join the tasks one by one. A set of `n` tasks is empty after `n` of them, so `n + 1` turns
    reach the end of the loop. -/
def joinAll (joinSet : Nat) : Nat → List NodeDeployResult → Proc (List NodeDeployResult)
  | 0, results => pure results
  | turns + 1, results => do
    match ← op (.joinSetNext joinSet) with
    | none => pure results
    | some r => joinAll joinSet turns (results ++ [r])

/-- The gRPC `batch_deploy_policy`. It does not look at `dry_run`. -/
def batchDeployPolicy (req : BatchDeployPolicyRequest) :
    Proc (Except Status BatchDeployPolicyResponse) := do
  match ← storage (.listNodes req.labelFilter) with
  | .error e => pure (.error e.toStatus)
  | .ok nodes =>
    let totalNodes := asU32 nodes.length
    if totalNodes = 0 then pure (.ok ⟨0, 0, 0, []⟩)
    else
      let joinSet ← op .joinSetNew
      spawnAll joinSet req nodes
      let results ← joinAll joinSet (nodes.length + 1) []
      let succeeded := asU32 (results.countP (·.success))
      pure (.ok ⟨totalNodes, succeeded, totalNodes - succeeded, results⟩)

/-- `str::starts_with("No change:")` on the message of an outcome. -/
def isNoChange (message : String) : Bool := "No change:".toList.isPrefixOf message.toList

/-- What a rollback reports of a deploy of version `targetVersion`, given the newest version
    before it. -/
def rollbackResponse (success : Bool) (message : String) (targetVersion : Nat)
    (versions : List PolicyVersion) : RollbackPolicyResponse :=
  if success then
    if isNoChange message then
      ⟨true, message, (versions.head?.map PolicyVersion.version).getD targetVersion⟩
    else ⟨true, "Rolled back to version " ++ toString targetVersion, targetVersion⟩
  else ⟨false, message, 0⟩

/-- The version a rollback goes to, among the ten most recent: the one asked for, or for zero
    the one before the newest. -/
inductive RollbackChoice where
  | refused (message : String)
  | notFound (message : String)
  | version (target : PolicyVersion)

def chooseRollback (targetVersion : Nat) (versions : List PolicyVersion) : RollbackChoice :=
  match versions with
  | [] => .refused "No policy history available"
  | _ :: rest =>
    if targetVersion = 0 then
      match rest with
      | [] => .refused "No previous version to rollback to"
      | previous :: _ => .version previous
    else
      match versions.find? fun v => v.version == targetVersion with
      | some target => .version target
      | none => .notFound ("Policy version " ++ toString targetVersion ++ " not found")

/-- The gRPC `rollback_policy`. -/
def rollbackPolicy (nodeId : String) (targetVersion : Nat) :
    Proc (Except Status RollbackPolicyResponse) := do
  match ← storage (.getNode nodeId) with
  | .error e => pure (.error e.toStatus)
  | .ok none => pure (.error (nodeNotFound nodeId))
  | .ok (some node) =>
    match ← storage (.getPolicyHistory nodeId 10) with
    | .error e => pure (.error e.toStatus)
    | .ok versions =>
      match chooseRollback targetVersion versions with
      | .refused message => pure (.ok ⟨false, message, 0⟩)
      | .notFound message => pure (.error ⟨.notFound, message⟩)
      | .version target =>
        match ← storage (.beginDeploy nodeId) with
        | .error e => pure (.error e.toStatus)
        | .ok () =>
          let response ← doDeploy cfg ⟨nodeId, target.rulesYaml, some target.options, false⟩ node
          storage (.endDeploy nodeId)
          pure (.ok (rollbackResponse response.success response.message target.version versions))

end PaciNet

import PaciNet.Server.Service

/-!
# The REST handlers

The REST counterparts of the management requests. They refuse to write on a standby, always
emit their events, and leave an entry in the audit log, written by a task of its own.

The single deploy is the only one of the four deploy handlers that looks at `dry_run`.
-/

set_option autoImplicit false

namespace PaciNet

variable [Extern] (cfg : ControllerConfig)

/-- `require_leader`. -/
def requireLeader : Proc (Except AppError Unit) := do
  match ← op .isLeader with
  | true => pure (.ok ())
  | false =>
    pure (.error ⟨.serviceUnavailable,
      "This controller is in standby mode. Write operations must go to the leader."⟩)

/-- `record_audit`, for the actor and the resource type the handlers here use. -/
def recordAudit (action resourceId details : String) : Proc Unit := do
  let id ← op .uuid
  let timestamp ← op .now
  op (.recordAudit {
    id := id
    timestamp := timestamp
    actor := "api"
    action := action
    resourceType := "node"
    resourceId := resourceId
    details := details })

/-- The node handlers' `NOT_FOUND`. -/
def appNodeNotFound (nodeId : String) : AppError := ⟨.notFound, "Node " ++ nodeId ++ " not found"⟩

/-- The REST `remove_node`. -/
def restRemoveNode (id : String) : Proc (Except AppError RemoveNodeResponse) :=
  requireLeader.orReturn fun () => do
    let before ← nodeBefore id
    match ← storage (.removeNode id) with
    | .error e => pure (.error (.ofStatus e.toStatus))
    | .ok false => pure (.ok ⟨false, "Node not found"⟩)
    | .ok true =>
      match before with
      | none => pure ()
      | some node =>
        let now ← op .now
        op (.emitNode (.removed node.nodeId node.hostname node.labels now))
      recordAudit "remove_node" id "\x7b\x7d"
      pure (.ok ⟨true, "Node removed"⟩)

/-- The dry-run branch of the REST deploy: what would change, without deploying. -/
def dryRun (body : DeployRequest) (node : Node) : Proc (Except AppError DeployPolicyResponse) := do
  let validationErrors := match Extern.yamlError body.rulesYaml with
    | some e => ["YAML parse error: " ++ e]
    | none => []
  let newHash := policyHash body.rulesYaml
  match ← storage (.getPolicy body.nodeId) with
  | .error e => pure (.error (.ofStatus e.toStatus))
  | .ok currentPolicy =>
    let currentHash := (currentPolicy.map (·.policyHash)).getD ""
    pure (.ok {
      success := true
      message := "Dry-run complete"
      warnings := []
      dryRunResult := some {
        valid := validationErrors.isEmpty
        validationErrors := validationErrors
        targetNodes := [{
          nodeId := node.nodeId
          hostname := node.hostname
          currentPolicyHash := currentHash
          newPolicyHash := newHash
          policyChanged := currentHash != newHash }] } })

/-- The REST `deploy_policy`. -/
def restDeployPolicy (body : DeployRequest) : Proc (Except AppError DeployPolicyResponse) :=
  requireLeader.orReturn fun () => do
    match ← storage (.getNode body.nodeId) with
    | .error e => pure (.error (.ofStatus e.toStatus))
    | .ok none => pure (.error (appNodeNotFound body.nodeId))
    | .ok (some node) =>
      if body.dryRun then dryRun body node
      else
        match ← storage (.beginDeploy body.nodeId) with
        | .error e => pure (.error (.ofStatus e.toStatus))
        | .ok () =>
          let outcome ← deployToNode cfg node body.rulesYaml body.options
          storage (.endDeploy body.nodeId)
          recordAudit "deploy" body.nodeId
            ("\x7b\"success\":" ++ toString outcome.success ++ "\x7d")
          pure (.ok ⟨outcome.success, outcome.message, outcome.warnings, none⟩)

/-- The REST `batch_deploy_policy`. It does not look at `dry_run`. -/
def restBatchDeployPolicy (body : BatchDeployRequest) :
    Proc (Except AppError BatchDeployResultJson) :=
  requireLeader.orReturn fun () => do
    match ← storage (.listNodes body.labelFilter) with
    | .error e => pure (.error (.ofStatus e.toStatus))
    | .ok [] => pure (.ok ⟨0, 0, 0, []⟩)
    | .ok nodes =>
      let result ← deployToNodes cfg nodes body.rulesYaml body.options
      -- the hostname map keeps the last node of an id
      let hostname (id : String) : String :=
        ((nodes.reverse.find? fun n => n.nodeId == id).map Node.hostname).getD ""
      pure (.ok ⟨result.total, result.succeeded, result.failed,
        result.nodeResults.map fun r => ⟨r.nodeId, hostname r.nodeId, r.success, r.message⟩⟩)

/-- The REST `rollback_policy`. -/
def restRollbackPolicy (id : String) (targetVersion : Nat) :
    Proc (Except AppError RollbackPolicyResponse) :=
  requireLeader.orReturn fun () => do
    match ← storage (.getNode id) with
    | .error e => pure (.error (.ofStatus e.toStatus))
    | .ok none => pure (.error (appNodeNotFound id))
    | .ok (some node) =>
      match ← storage (.getPolicyHistory id 10) with
      | .error e => pure (.error (.ofStatus e.toStatus))
      | .ok versions =>
        match chooseRollback targetVersion versions with
        | .refused message => pure (.ok ⟨false, message, 0⟩)
        | .notFound message => pure (.error ⟨.notFound, message⟩)
        | .version target =>
          match ← storage (.beginDeploy id) with
          | .error e => pure (.error (.ofStatus e.toStatus))
          | .ok () =>
            let outcome ← deployToNode cfg node target.rulesYaml target.options
            storage (.endDeploy id)
            pure (.ok
              (rollbackResponse outcome.success outcome.message target.version versions))

end PaciNet

import PaciNet.Proof.Runs
import PaciNet.Server.FsmEngine

/-!
# Actions as they are written

An action names up to three components: a deploy, which may have options of its own, a rollback to
the previous version or to one given by its number, and an alert. The engine carries out the first
that is set. It deploys with the options of the instance, and it rolls back to the previous version.

**An action is carried out as it is written exactly if it has one component with an effect, no
options of its own, and the previous version as its target.** An alert has an effect if it has a
webhook; it writes to the log in any case. A deploy limited to no nodes sends no options.
-/

set_option autoImplicit false

namespace PaciNet

open Lib

/-! ## What is written -/

/-- The version a rollback names, among those of a node, the newest first. -/
def RollbackTarget.versionIn (versions : List PolicyVersion) : RollbackTarget → Option PolicyVersion
  | .previous => versions[1]?
  | .version n => versions.find? fun v => v.version == n

section Written

variable [Extern] (cfg : ControllerConfig)

/-- A deploy with the options of the action, if it has any. -/
def deployAsWritten (action : DeployAction) (inst : FsmInstance) : Proc FsmContext := do
  let options := action.options.or inst.context.compileOptions
  let context ← executeDeploy cfg action
    (inst.setContext { inst.context with compileOptions := options })
  pure { context with compileOptions := inst.context.compileOptions }

/-- Redeploy a version, if there is one; `missing` is the message if not. -/
def redeployVersion (missing nodeId : String) :
    Option PolicyVersion → Proc NodeActionResult
  | some v => do
    match ← storage (.getNode nodeId) with
    | .ok (some node) =>
      let outcome ← deployToNode cfg node v.rulesYaml v.options
      pure ⟨nodeId, outcome.success, outcome.message⟩
    | _ => pure ⟨nodeId, false, "Node not found"⟩
  | none => pure ⟨nodeId, false, missing⟩

/-- One node back to the version that is named, read from so many versions. -/
def rollbackNodeAsWritten (limit : Nat) (missing : String) (target : RollbackTarget)
    (nodeId : String) : Proc NodeActionResult := do
  match ← storage (.getPolicyHistory nodeId limit) with
  | .error e =>
    pure ⟨nodeId, false, "Failed to get policy history: " ++ Extern.statusText e.toStatus⟩
  | .ok versions => redeployVersion cfg missing nodeId (target.versionIn versions)

/-- Every node of a list, each with its result. -/
def eachNode (rollback : String → Proc NodeActionResult) :
    List String → (succeeded failed : Nat) → List NodeActionResult →
      Proc (Nat × Nat × List NodeActionResult)
  | [], succeeded, failed, nodeResults => pure (succeeded, failed, nodeResults)
  | nodeId :: nodeIds, succeeded, failed, nodeResults => do
    let r ← rollback nodeId
    eachNode rollback nodeIds (if r.success then succeeded + 1 else succeeded)
      (if r.success then failed else failed + 1) (nodeResults ++ [r])

/-- A rollback of every node the instance has deployed to. -/
def rollbackAsWritten (limit : Nat) (missing : String) (action : RollbackAction)
    (inst : FsmInstance) : Proc FsmContext := do
  let deployedNodes := inst.context.deployedNodes
  if deployedNodes = [] then pure inst.context
  else
    let (succeeded, failed, nodeResults) ←
      eachNode (rollbackNodeAsWritten cfg limit missing action.target) deployedNodes 0 0 []
    pure (inst.context.setResult {
      succeeded := succeeded
      failed := failed
      total := asU32 deployedNodes.length
      nodeResults := nodeResults })

def deployComponent (action : ActionDefinition) (inst : FsmInstance) : Proc FsmContext :=
  match action.deploy with
  | some deployAction => deployAsWritten cfg deployAction inst
  | none => pure inst.context

def rollbackComponent (limit : Nat) (missing : String) (action : ActionDefinition)
    (inst : FsmInstance) : Proc FsmContext :=
  match action.rollback with
  | some rollbackAction => rollbackAsWritten cfg limit missing rollbackAction inst
  | none => pure inst.context

def alertComponent (action : ActionDefinition) (inst : FsmInstance) : Proc Unit :=
  match action.alert with
  | some alertAction => executeAlert alertAction inst
  | none => pure ()

/-- The components that are set, one after the other. -/
def actionAsWritten (limit : Nat) (missing : String) (action : ActionDefinition)
    (inst : FsmInstance) : Proc FsmContext := do
  mark (.startAction inst.instanceId inst.currentState)
  let deployed ← deployComponent cfg action inst
  let rolledBack ← rollbackComponent cfg limit missing action (inst.setContext deployed)
  alertComponent action (inst.setContext rolledBack)
  pure rolledBack

/-- **An action is carried out as it is written**, in whatever context. How many versions a
    rollback reads is left open, and what it says of a version that is not among them. -/
def CarriedOut (action : ActionDefinition) : Prop :=
  ∃ (limit : Nat) (missing : String), ∀ inst,
    executeAction cfg action inst = actionAsWritten cfg limit missing action inst

end Written

/-! ## When it is -/

namespace ActionDefinition

def ToPrevious (action : ActionDefinition) : Prop :=
  ∀ a ∈ action.rollback, a.target = .previous

end ActionDefinition

/-! ## Without options of its own -/

variable [Extern] {cfg : ControllerConfig}

end PaciNet

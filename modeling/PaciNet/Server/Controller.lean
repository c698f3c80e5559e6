import PaciNet.Lib.Pool
import PaciNet.Server.FsmEngine
import PaciNet.Server.Rest

/-!
# The controller

Every request with the program that serves it. The controller is the pool of these programs
over one world: any number of requests at a time, interleaved at their operations.
-/

set_option autoImplicit false

namespace PaciNet

/-- Turn the result of a program into the reply of its request. -/
def Proc.reply {α : Type} (p : Proc α) (f : α → Reply) : Proc Reply := p.bind fun a => .done (f a)

section

variable [Extern] (cfg : ControllerConfig)

/-- The program that serves a request. -/
def serve : Request → Proc Reply
  | .registerNode req => (registerNode cfg req).reply .registerNode
  | .heartbeat req => (heartbeat cfg req).reply .heartbeat
  | .removeNode nodeId => (removeNode cfg nodeId).reply .removeNode
  | .deployPolicy req => (deployPolicy cfg req).reply .deployPolicy
  | .batchDeployPolicy req => (batchDeployPolicy req).reply .batchDeployPolicy
  | .rollbackPolicy nodeId targetVersion =>
    (rollbackPolicy cfg nodeId targetVersion).reply .rollbackPolicy
  | .restRemoveNode id => (restRemoveNode id).reply .restRemoveNode
  | .restDeployPolicy body => (restDeployPolicy cfg body).reply .restDeployPolicy
  | .restBatchDeployPolicy body => (restBatchDeployPolicy cfg body).reply .restBatchDeployPolicy
  | .restRollbackPolicy id targetVersion =>
    (restRollbackPolicy cfg id targetVersion).reply .restRollbackPolicy
  | .batchTask joinSet req node => (batchTask cfg joinSet req node).reply fun () => .task
  | .recordAudit entry => (storage (.storeAudit entry)).bind fun _ => .done .task
  | .startInstance defName rulesYaml compileOptions =>
    (startInstance cfg defName rulesYaml compileOptions).reply .startInstance
  | .startAdaptiveInstance defName rulesYaml compileOptions targetLabelFilter =>
    (startAdaptiveInstance cfg defName rulesYaml compileOptions targetLabelFilter).reply
      .startInstance
  | .evaluateAll => (evaluateAll cfg).reply fun () => .evaluateAll
  | .advanceInstance instanceId targetState =>
    (advanceInstance cfg instanceId targetState).reply .advanceInstance
  | .cancelInstance instanceId reason =>
    (cancelInstance cfg instanceId reason).reply .cancelInstance

/-- The controller over a storage backend. -/
def controller (σ : Type) [Storage σ] : Lib.System Op Op.Res (World σ) Ext Request Reply where
  toMachine := machine σ
  prog := serve cfg

end

end PaciNet

import PaciNet.Lib.Dropping
import PaciNet.Proof.DeployGuard

/-!
# Handlers that are dropped

A handler is dropped when its client goes away, at whatever operation it is waiting for, and with
it the tasks of a batch it has spawned. What the handler was waiting for goes on: a storage call
runs to its end on a thread of its own. The statement that releases the guard of a node is then
never reached, so the guard stays in the set of deploys in progress, and every later deploy to the
node is refused.

**A guard is left behind only by a handler or task that is dropped while it holds the guard or
waits for `begin_deploy`.**
-/

set_option autoImplicit false

namespace PaciNet

open Lib

/-- The operations that are awaited. The others are plain statements, and so is `end_deploy`. -/
def Op.awaited : Op → Bool
  | .storage (.endDeploy _) => false
  | .storage _ | .deployRules _ _ | .joinSetNext _ => true
  | _ => false

/-- A storage call outlives its handler, a request to an agent may do so. -/
def Op.mayOutlive : Op → Bool → Bool
  | .storage _, goesOn => goesOn
  | .deployRules _ _, _ => true
  | _, goesOn => !goesOn

/-- The request is served by a handler of the two servers. The evaluation of the instances and the
    tasks of the controller are not. -/
def Request.isHandler : Request → Bool
  | .evaluateAll | .batchTask _ _ _ | .recordAudit _ => false
  | _ => true

/-- A controller whose handlers may be dropped. -/
abbrev DropPool := DropConfig Op Op.Res (World MemoryStorage) Request Reply

/-- A step of it. -/
abbrev DropStepLabel := DropLabel (World MemoryStorage) Ext Request

/-- The task is one of a batch whose handler has been dropped. -/
def DropPool.aborted (c : DropPool) : Request → Bool
  | .batchTask joinSet _ _ => c.gone.any fun i => (c.pool.threads[i]?).any fun t =>
      t.trace.any fun e => match e with
        | ⟨.joinSetNew, j⟩ => j == joinSet
        | _ => false
  | _ => false

/-- Requests arrive and tasks run in any order; handlers are dropped at any await point, and then
    also the tasks of their batches. -/
def disconnects (c : DropPool) : DropStepLabel → Bool
  | .pool l => interleaved c.pool l
  | .drop i goesOn => (c.pool.threads[i]?).any fun t =>
      (t.req.isHandler || c.aborted t.req) &&
        match t.prog with
        | .done _ => false
        | .call o _ => o.mayOutlive goesOn
  | .orphan _ _ => true

/-- No task is dropped that holds the guard of a node or waits for `begin_deploy`. -/
def DroppedOutsideDeploys (c : DropPool) (l : DropStepLabel) : Prop :=
  disconnects c l ∧ deployGuard.Gentle Request.Coherent c l

/-- Some `deploy_to_node` for the node is in progress: a task that is there is inside, or it holds
    the guard of the node and is about to enter or to call `end_deploy`. A task that has finished
    is not. -/
def DropPool.Deploying (c : DropPool) (nodeId : String) : Prop :=
  ∃ i t, c.Live i t ∧ deployGuard.AtWork t nodeId

/-- **No guard is leaked**, in the runs of a controller that starts without tasks and guards. -/
def NoLeakedGuard [Extern] (cfg : ControllerConfig) (C : DropPool → DropStepLabel → Prop) : Prop :=
  ∀ (p : Pool) (c : DropPool), p.threads = [] → p.shared.storage.deploying = ∅ →
    (controller cfg MemoryStorage).DropSteps Op.awaited C p.whole c →
    ∀ nodeId, ¬ c.Deploying nodeId → nodeId ∉ c.pool.shared.storage.deploying

theorem noLeakedGuard [Extern] (cfg : ControllerConfig) :
    NoLeakedGuard cfg DroppedOutsideDeploys := by
  intro p c hidle hfree hrun nodeId hnone hleaked
  have hgentle := System.DropSteps.mono (fun _ _ hl => hl.2) hrun
  have hheld : deployGuard.held c.pool.shared nodeId = true := decide_eq_true hleaked
  rcases deployGuard_lawful.liveAccounted (deployGuard_disciplined cfg) hidle hgentle hheld
    with hstart | hdeploying
  · have hmem : nodeId ∈ p.shared.storage.deploying := of_decide_eq_true hstart
    rw [hfree] at hmem
    exact absurd hmem (Finset.notMem_empty nodeId)
  · exact hnone hdeploying

/-! ## A client that goes away -/

/-- A controller with the node "n1". -/
abbrev Pool.registered : Pool where
  shared := .init (MemoryStorage.new.registerNode (.new 0 "n1" "host" "10.0.0.1:50052" ∅ "1.0")).2
  threads := []

/-- A client asks for a deploy, and the handler takes the guard of the node. -/
def deployStarted : List DropStepLabel :=
  .pool (.arrive deployToN1) :: (Label.turns 0 3 (.quiet 1 "")).map .pool

/-- The handler of a second client is dropped while it looks up the node; the guard is still
    that of the first. -/
theorem noLeakedGuard_second : ∃ c : DropPool,
    (@controller .sample plainConfig _ _).DropSteps Op.awaited DroppedOutsideDeploys
      Pool.registered.whole c ∧ c.gone = [1] ∧ c.Deploying "n1" := by
  obtain ⟨c, hrun, hc⟩ := System.exists_dropSteps (@controller .sample plainConfig _ _) Op.awaited
    Pool.registered.whole
    (fun c l (hl : disconnects c l && deployGuard.gentle Request.Coherent c l) =>
      have hboth := Bool.and_eq_true_iff.1 hl
      (⟨hboth.1, Guard.gentle_sound _ hboth.2⟩ : DroppedOutsideDeploys c l))
    (deployStarted ++ [.pool (.arrive deployToN1), .drop 1 true])
    (fun c => decide ("n1" ∈ c.pool.shared.storage.deploying ∧ c.gone = [1])) (by decide +kernel)
  obtain ⟨hleft, hgone⟩ := of_decide_eq_true hc
  refine ⟨c, hrun, hgone, ?_⟩
  by_contra hnone
  exact @noLeakedGuard .sample plainConfig Pool.registered c rfl rfl hrun "n1" hnone hleft

/-- The handler of the only client is dropped in the middle of its deploy. -/
theorem not_noLeakedGuard :
    ¬ @NoLeakedGuard .sample plainConfig fun c l => disconnects c l := by
  intro h
  obtain ⟨c, hrun, hc⟩ := System.exists_dropSteps (@controller .sample plainConfig _ _) Op.awaited
    Pool.registered.whole (fun c l (hl : disconnects c l) => hl) (deployStarted ++ [.drop 0 true])
    (fun c => decide ("n1" ∈ c.pool.shared.storage.deploying ∧ c.gone = [0] ∧
      c.pool.threads.length = 1)) (by decide +kernel)
  obtain ⟨hleft, hgone, hlength⟩ := of_decide_eq_true hc
  refine h Pool.registered c rfl rfl hrun "n1" ?_ hleft
  -- the only task has been dropped
  rintro ⟨i, t, ⟨ht, hlive⟩, -⟩
  have hlt : i < c.pool.threads.length := (List.getElem?_eq_some_iff.1 ht).1
  apply hlive
  rw [hgone, List.mem_singleton]
  omega

end PaciNet

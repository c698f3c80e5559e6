import PaciNet.Server.Controller

/-!
# What the programs are built from

Every program of the controller is a sequence of two kinds of things: executions of
`deploy_to_node`, most of them under the guard of their node and some in a task of their own, and
operations that have nothing to do with deploying. Here each program is taken apart into these
once. A proof about whole programs then has to look at the kinds of deploy and at single
operations only.

The programs that serve a request are told apart by whether they touch FSM instances: only those
of the engine do. They are taken apart into actions first, and the actions into deploys.
-/

set_option autoImplicit false

namespace PaciNet

open Lib

/-! ## Operations -/

/-- The operations of a deploy: the guard, the agent, what it writes, its marks, and the start of
    a task for it. -/
def Op.deploys : Op → Bool
  | .storage (.beginDeploy _) | .storage (.endDeploy _) | .storage (.storePolicy _)
  | .storage (.updateNodeState _ _) | .storage (.recordDeployment _)
  | .deployRules _ _ | .mark (.enterDeploy _) | .mark (.exitDeploy _)
  | .joinSetSpawn _ _ _ => true
  | _ => false

/-- The operations that read, write or act for FSM instances, or change their definitions. -/
def Op.touchesFsm : Op → Bool
  | .storage (.storeFsmInstance _) | .storage (.getFsmInstance _)
  | .storage (.updateFsmInstance _) | .storage (.listFsmInstances _ _)
  | .storage (.storeFsmDefinition _) | .storage (.deleteFsmDefinition _)
  | .mark (.startAction _ _) => true
  | _ => false

/-- The marks of an action. -/
def Mark.ofAction : Mark → Bool
  | .startAction _ _ | .batch _ _ _ _ | .passed _ _ _ => true
  | _ => false

/-- The marks of an action as operations. -/
def Op.marksAction : Op → Bool
  | .mark m => m.ofAction
  | _ => false

/-- The operation is not part of a deploy. -/
def Outside (o : Op) : Prop := o.deploys = false

/-- The operation is not part of a deploy and touches no instance. -/
def Aside (o : Op) : Prop := o.deploys = false ∧ o.touchesFsm = false

/-- The operation has nothing to do with deploys, instances or actions. -/
def Plain (o : Op) : Prop := Aside o ∧ o.marksAction = false

/-- The operation is not part of a deploy and marks no action. -/
def BetweenActions (o : Op) : Prop := Outside o ∧ o.marksAction = false

/-- The operations of a deploy to node `n`, other than its marks. -/
def DeployBodyOp (n : String) : Op → Prop
  | .storage c =>
    match c with
    | .getPolicy m | .updateNodeState m _ => m = n
    | .getPolicyHistory m limit => m = n ∧ limit = 1
    | .storePolicy p => p.nodeId = n
    | .recordDeployment d => d.nodeId = n
    | _ => False
  | .deployRules _ _ | .now | .uuid => True
  | _ => False

theorem DeployBodyOp.not_touches {n : String} {o : Op} (h : DeployBodyOp n o) :
    o.touchesFsm = false := by
  cases o with
  | storage c => cases c <;> first | rfl | exact h.elim
  | mark m => exact h.elim
  | _ => rfl

theorem DeployBodyOp.not_marks {n : String} {o : Op} (h : DeployBodyOp n o) :
    o.marksAction = false := by
  cases o with
  | mark m => exact h.elim
  | _ => rfl

/-! ## Deploys -/

section Deploy

variable [Extern] (cfg : ControllerConfig)

theorem skipRedeploy_calls (node : Node) (hash : String) :
    (skipRedeploy node hash).Calls (DeployBodyOp node.nodeId) := by
  simp only [skipRedeploy, Prog.bind_eq, calls_storage]
  refine ⟨⟨rfl, rfl⟩, fun r => ?_⟩
  cases r with
  | error e => trivial
  | ok versions => simp [DeployBodyOp]

theorem storeAndForward_calls (node : Node) (rulesYaml hash : String) (options : CompileOptions) :
    (storeAndForward cfg node rulesYaml hash options).Calls (DeployBodyOp node.nodeId) := by
  simp only [storeAndForward, Prog.bind_eq, calls_op, calls_storage]
  refine ⟨trivial, fun now => ⟨rfl, fun r => ?_⟩⟩
  cases r with
  | error e => trivial
  | ok version => simp [DeployBodyOp]

theorem deployToNodeBody_calls (node : Node) (rulesYaml : String) (options : CompileOptions) :
    (deployToNodeBody cfg node rulesYaml options).Calls (DeployBodyOp node.nodeId) := by
  simp only [deployToNodeBody, Prog.bind_eq]
  split
  · trivial
  · rw [calls_storage]
    refine ⟨rfl, fun r => ?_⟩
    cases r with
    | error e => trivial
    | ok currentPolicy =>
      simp only
      split
      · exact skipRedeploy_calls node _
      · exact storeAndForward_calls cfg node _ _ _

/-- A deploy waits for no task. -/
theorem deployToNode_waits (node : Node) (rulesYaml : String) (options : CompileOptions) :
    (deployToNode cfg node rulesYaml options).Calls
      fun o => ∀ joinSet, o ≠ .joinSetNext joinSet := by
  refine calls_mark.2 ⟨by simp, ?_⟩
  refine Prog.Calls.bind ((deployToNodeBody_calls cfg node rulesYaml options).mono ?_) fun _ =>
    calls_mark.2 ⟨by simp, trivial⟩
  intro o ho joinSet hjoin
  rw [hjoin] at ho
  exact ho

/-- A deploy under the guard of `n`. -/
def guardedDeploy (n : String) (node : Node) (rulesYaml : String) (options : CompileOptions) :
    Proc (Except PaciNetError DeployOutcome) := do
  match ← storage (.beginDeploy n) with
  | .error e => pure (.error e)
  | .ok () =>
    let outcome ← deployToNode cfg node rulesYaml options
    storage (.endDeploy n)
    pure (.ok outcome)

/-- The ways a program deploys to a node. -/
inductive DeployBlock : (β : Type) → Proc β → Prop
  | bare (node : Node) (rulesYaml : String) (options : CompileOptions) :
    DeployBlock _ (deployToNode cfg node rulesYaml options)
  | guarded (n : String) (node : Node) (rulesYaml : String) (options : CompileOptions) :
    DeployBlock _ (guardedDeploy cfg n node rulesYaml options)
  | spawned (joinSet : Nat) (req : BatchDeployPolicyRequest) (node : Node) :
    DeployBlock _ (op (.joinSetSpawn joinSet (req.single node) node))

theorem DeployBlock.not_touches {β : Type} {p : Proc β} (h : DeployBlock cfg β p) :
    p.Calls fun o => o.touchesFsm = false := by
  have bare (node : Node) (rulesYaml : String) (options : CompileOptions) :
      (deployToNode cfg node rulesYaml options).Calls fun o => o.touchesFsm = false :=
    calls_mark.2 ⟨rfl, .bind ((deployToNodeBody_calls cfg node rulesYaml options).mono
      fun _ h => h.not_touches) fun _ => calls_mark.2 ⟨rfl, trivial⟩⟩
  cases h with
  | bare node rulesYaml options => exact bare node rulesYaml options
  | guarded n node rulesYaml options =>
    refine calls_storage.2 ⟨rfl, fun r => ?_⟩
    cases r with
    | error e => trivial
    | ok u => exact .bind (bare node rulesYaml options) fun _ => calls_storage.2 ⟨rfl, fun _ => trivial⟩
  | spawned joinSet req node => exact ⟨rfl, fun _ => trivial⟩

/-- The shape in which a guarded deploy is written in the source: `k` goes on with the answer to
    `begin_deploy`. -/
theorem built_guarded {α : Type} {P : Op → Prop} {n : String} {node : Node} {rulesYaml : String}
    {options : CompileOptions} {k : StorageResult Unit → Proc α} {f : DeployOutcome → Proc α}
    (hk : k (.ok ()) = (deployToNode cfg node rulesYaml options).bind fun outcome =>
      (storage (.endDeploy n)).bind fun _ => f outcome)
    (herr : ∀ e, (k (.error e)).Built P (DeployBlock cfg))
    (hf : ∀ outcome, (f outcome).Built P (DeployBlock cfg)) :
    ((storage (.beginDeploy n)).bind k).Built P (DeployBlock cfg) := by
  have heq : (storage (.beginDeploy n)).bind k =
      (guardedDeploy cfg n node rulesYaml options).bind fun
        | .error e => k (.error e)
        | .ok outcome => f outcome := by
    refine congrArg (Prog.call _) (funext fun r => ?_)
    cases r with
    | error e => rfl
    | ok u =>
      show k (.ok ()) = ((deployToNode cfg node rulesYaml options).bind fun outcome =>
        (storage (.endDeploy n)).bind fun _ => .done (Except.ok outcome)).bind _
      rw [hk, Prog.bind_assoc]
      rfl
  rw [heq]
  refine .block (.guarded n node rulesYaml options) fun r => ?_
  cases r with
  | error e => exact herr e
  | ok outcome => exact hf outcome

/-- The program is built from deploys and operations that are not part of one. -/
abbrev BuiltOutside {α : Type} (p : Proc α) : Prop := p.Built Outside (DeployBlock cfg)

/-- The program is built from deploys and operations that touch no instance. -/
abbrev BuiltAside {α : Type} (p : Proc α) : Prop := p.Built Aside (DeployBlock cfg)

/-- The program is built from deploys and operations that have nothing to do with instances. -/
abbrev BuiltPlain {α : Type} (p : Proc α) : Prop := p.Built Plain (DeployBlock cfg)

variable {cfg}

theorem BuiltPlain.aside {α : Type} {p : Proc α} (h : BuiltPlain cfg p) : BuiltAside cfg p :=
  Prog.Built.mono (fun _ h => h.1) h

/-- Such a program touches no instance. -/
theorem BuiltAside.calls {α : Type} {p : Proc α} (h : BuiltAside cfg p) :
    p.Calls fun o => o.touchesFsm = false :=
  Prog.Built.calls (fun _ h => h.2) (fun _ _ h => h.not_touches) h

variable (cfg) in
theorem deployToNode_not_marks (node : Node) (rulesYaml : String) (options : CompileOptions) :
    (deployToNode cfg node rulesYaml options).Calls fun o => o.marksAction = false :=
  calls_mark.2 ⟨rfl, .bind ((deployToNodeBody_calls cfg node rulesYaml options).mono
    fun _ h => h.not_marks) fun _ => calls_mark.2 ⟨rfl, trivial⟩⟩

/-- What is built from deploys and plain operations marks no action. -/
theorem BuiltPlain.not_marks {α : Type} {p : Proc α} (h : BuiltPlain cfg p) :
    p.Calls fun o => o.marksAction = false := by
  refine Prog.Built.calls (fun _ h => h.2) (fun β p hp => ?_) h
  cases hp with
  | bare node rulesYaml options => exact deployToNode_not_marks cfg node rulesYaml options
  | guarded n node rulesYaml options =>
    refine calls_storage.2 ⟨rfl, fun r => ?_⟩
    cases r with
    | error e => trivial
    | ok u => exact .bind (deployToNode_not_marks cfg node rulesYaml options) fun _ =>
        calls_storage.2 ⟨rfl, fun _ => trivial⟩
  | spawned joinSet req node => exact ⟨rfl, fun _ => trivial⟩

theorem BuiltAside.outside {α : Type} {p : Proc α} (h : BuiltAside cfg p) : BuiltOutside cfg p :=
  Prog.Built.mono (fun _ h => h.1) h

end Deploy

/-! ## Requests that deploy nothing -/

section Plain

variable (cfg : ControllerConfig)

theorem emitNode_calls (e : DateTime → NodeEvent) : (emitNode cfg e).Calls Plain := by
  unfold emitNode
  split
  · exact ⟨⟨⟨rfl, rfl⟩, rfl⟩, fun now => ⟨⟨⟨rfl, rfl⟩, rfl⟩, fun _ => trivial⟩⟩
  · trivial

theorem emitFsm_calls (e : DateTime → FsmEvent) : (emitFsm cfg e).Calls Plain := by
  unfold emitFsm
  split
  · exact ⟨⟨⟨rfl, rfl⟩, rfl⟩, fun now => ⟨⟨⟨rfl, rfl⟩, rfl⟩, fun _ => trivial⟩⟩
  · trivial

theorem nodeBefore_calls (nodeId : String) : (nodeBefore nodeId).Calls Plain := by
  refine ⟨⟨⟨rfl, rfl⟩, rfl⟩, fun r => ?_⟩
  cases r <;> trivial

theorem nodeForEvent_calls (nodeId : String) : (nodeForEvent cfg nodeId).Calls Plain := by
  unfold nodeForEvent
  split
  · exact nodeBefore_calls nodeId
  · trivial

theorem requireLeader_calls : requireLeader.Calls Plain := by
  refine ⟨⟨⟨rfl, rfl⟩, rfl⟩, fun r => ?_⟩
  cases r <;> trivial

theorem recordAudit_calls (action resourceId details : String) :
    (recordAudit action resourceId details).Calls Plain :=
  ⟨⟨⟨rfl, rfl⟩, rfl⟩, fun _ => ⟨⟨⟨rfl, rfl⟩, rfl⟩, fun _ => ⟨⟨⟨rfl, rfl⟩, rfl⟩, fun _ => trivial⟩⟩⟩

theorem restRemoveNode_calls (id : String) : (restRemoveNode id).Calls Plain := by
  refine requireLeader_calls.orReturn fun _ => ?_
  refine (nodeBefore_calls id).bind fun before => ⟨⟨⟨rfl, rfl⟩, rfl⟩, fun r => ?_⟩
  rcases r with e | _ | _
  · trivial
  · trivial
  · cases before with
    | none => exact (recordAudit_calls "remove_node" id "\x7b\x7d").bind fun _ => trivial
    | some node =>
      exact ⟨⟨⟨rfl, rfl⟩, rfl⟩, fun now => ⟨⟨⟨rfl, rfl⟩, rfl⟩, fun _ =>
        (recordAudit_calls "remove_node" id "\x7b\x7d").bind fun _ => trivial⟩⟩

theorem joinAll_calls (joinSet turns : Nat) (results : List NodeDeployResult) :
    (joinAll joinSet turns results).Calls Plain := by
  induction turns generalizing results with
  | zero => trivial
  | succ turns ih =>
    refine ⟨⟨⟨rfl, rfl⟩, rfl⟩, fun r => ?_⟩
    cases r with
    | none => trivial
    | some r => exact ih _

theorem executeAlert_calls (action : AlertAction) (inst : FsmInstance) :
    (executeAlert action inst).Calls Plain := by
  unfold executeAlert
  split
  · trivial
  · exact ⟨⟨⟨rfl, rfl⟩, rfl⟩, fun now => ⟨⟨⟨rfl, rfl⟩, rfl⟩, fun _ => trivial⟩⟩

theorem registerNode_calls (req : RegisterNodeRequest) :
    (registerNode cfg req).Calls Plain := by
  refine ⟨⟨⟨rfl, rfl⟩, rfl⟩, fun now => ⟨⟨⟨rfl, rfl⟩, rfl⟩, fun id => ⟨⟨⟨rfl, rfl⟩, rfl⟩, ?_⟩⟩⟩
  intro r
  cases r with
  | error e => trivial
  | ok nodeId => exact (emitNode_calls cfg _).bind fun _ => trivial

theorem heartbeat_calls (req : HeartbeatRequest) : (heartbeat cfg req).Calls Plain := by
  refine (nodeForEvent_calls cfg _).bind fun oldNode => ⟨⟨⟨rfl, rfl⟩, rfl⟩, fun r => ?_⟩
  rcases r with e | _ | _
  · trivial
  · trivial
  · cases oldNode with
    | none => trivial
    | some node =>
      simp only [Prog.bind_eq, Prog.done_bind]
      split
      · exact (emitNode_calls cfg _).bind fun _ => trivial
      · trivial

theorem removeNode_calls (nodeId : String) : (removeNode cfg nodeId).Calls Plain := by
  refine (nodeForEvent_calls cfg _).bind fun before => ⟨⟨⟨rfl, rfl⟩, rfl⟩, fun r => ?_⟩
  rcases r with e | _ | _
  · trivial
  · trivial
  · cases before with
    | none => trivial
    | some node => exact (emitNode_calls cfg _).bind fun _ => trivial

end Plain

section Programs

variable [Extern] (cfg : ControllerConfig)

theorem dryRun_calls (body : DeployRequest) (node : Node) : (dryRun body node).Calls Plain := by
  refine ⟨⟨⟨rfl, rfl⟩, rfl⟩, fun r => ?_⟩
  cases r <;> trivial

theorem emitFsm_built (e : DateTime → FsmEvent) : BuiltPlain cfg (emitFsm cfg e) :=
  .of_calls (emitFsm_calls cfg e)

/-! ## Many nodes -/

theorem deployToNodesLoop_built (rulesYaml : String) (options : CompileOptions)
    (nodes : List Node) (s f : Nat) (rs : List NodeActionResult) :
    BuiltPlain cfg (deployToNodesLoop cfg rulesYaml options nodes s f rs) := by
  induction nodes generalizing s f rs with
  | nil => exact .done _
  | cons node nodes ih => exact built_guarded cfg rfl (fun e => ih _ _ _) fun outcome => ih _ _ _

theorem deployToNodes_built (nodes : List Node) (rulesYaml : String) (options : CompileOptions) :
    BuiltPlain cfg (deployToNodes cfg nodes rulesYaml options) :=
  (deployToNodesLoop_built cfg rulesYaml options nodes 0 0 []).bind fun _ => .done _

/-! ## Requests about nodes -/

theorem deployPolicy_built (req : DeployPolicyRequest) :
    BuiltPlain cfg (deployPolicy cfg req) := by
  refine .perform ⟨⟨rfl, rfl⟩, rfl⟩ fun r => ?_
  rcases r with e | _ | node
  · exact .done _
  · exact .done _
  · exact built_guarded cfg (Prog.bind_assoc _ _ _) (fun e => .done _) fun outcome => .done _

theorem batchTask_built (joinSet : Nat) (req : DeployPolicyRequest) (node : Node) :
    BuiltPlain cfg (batchTask cfg joinSet req node) := by
  refine .bind (built_guarded cfg rfl (fun e => .done _) fun outcome => .done _) fun r => ?_
  cases r <;> exact .perform ⟨⟨rfl, rfl⟩, rfl⟩ fun _ => .done _

theorem spawnAll_built (joinSet : Nat) (req : BatchDeployPolicyRequest) (nodes : List Node) :
    BuiltPlain cfg (spawnAll joinSet req nodes) := by
  induction nodes with
  | nil => exact .done _
  | cons node nodes ih => exact .block (.spawned joinSet req node) fun _ => ih

theorem batchDeployPolicy_built (req : BatchDeployPolicyRequest) :
    BuiltPlain cfg (batchDeployPolicy req) := by
  refine .perform ⟨⟨rfl, rfl⟩, rfl⟩ fun r => ?_
  cases r with
  | error e => exact .done _
  | ok nodes =>
    simp only [Prog.bind_eq]
    split
    · exact .done _
    · exact .perform ⟨⟨rfl, rfl⟩, rfl⟩ fun joinSet => (spawnAll_built cfg _ _ _).bind fun _ =>
        .bind (.of_calls (joinAll_calls _ _ _)) fun _ => .done _

theorem rollbackPolicy_built (nodeId : String) (targetVersion : Nat) :
    BuiltPlain cfg (rollbackPolicy cfg nodeId targetVersion) := by
  refine .perform ⟨⟨rfl, rfl⟩, rfl⟩ fun r => ?_
  rcases r with e | _ | node
  · exact .done _
  · exact .done _
  · refine .perform ⟨⟨rfl, rfl⟩, rfl⟩ fun r => ?_
    cases r with
    | error e => exact .done _
    | ok versions =>
      simp only
      split
      · exact .done _
      · exact .done _
      · exact built_guarded cfg (Prog.bind_assoc _ _ _) (fun e => .done _) fun outcome => .done _

theorem restDeployPolicy_built (body : DeployRequest) :
    BuiltPlain cfg (restDeployPolicy cfg body) := by
  refine (Prog.Built.of_calls requireLeader_calls).orReturn fun _ => .perform ⟨⟨rfl, rfl⟩, rfl⟩ fun r => ?_
  rcases r with e | _ | node
  · exact .done _
  · exact .done _
  · simp only
    split
    · exact .of_calls (dryRun_calls body node)
    · exact built_guarded cfg rfl (fun e => .done _) fun outcome =>
        .bind (.of_calls (recordAudit_calls _ _ _)) fun _ => .done _

theorem restBatchDeployPolicy_built (body : BatchDeployRequest) :
    BuiltPlain cfg (restBatchDeployPolicy cfg body) := by
  refine (Prog.Built.of_calls requireLeader_calls).orReturn fun _ => .perform ⟨⟨rfl, rfl⟩, rfl⟩ fun r => ?_
  rcases r with e | _ | ⟨node, nodes⟩
  · exact .done _
  · exact .done _
  · exact (deployToNodes_built cfg _ _ _).bind fun _ => .done _

theorem restRollbackPolicy_built (id : String) (targetVersion : Nat) :
    BuiltPlain cfg (restRollbackPolicy cfg id targetVersion) := by
  refine (Prog.Built.of_calls requireLeader_calls).orReturn fun _ => .perform ⟨⟨rfl, rfl⟩, rfl⟩ fun r => ?_
  rcases r with e | _ | node
  · exact .done _
  · exact .done _
  · refine .perform ⟨⟨rfl, rfl⟩, rfl⟩ fun r => ?_
    cases r with
    | error e => exact .done _
    | ok versions =>
      simp only
      split
      · exact .done _
      · exact .done _
      · exact built_guarded cfg rfl (fun e => .done _) fun outcome => .done _

/-! ## Actions -/

theorem deploySelected_built (inst : FsmInstance) (context : FsmContext) (selected : List Node)
    (rulesYaml : String) :
    BuiltAside cfg (deploySelected cfg inst context selected rulesYaml) :=
  (deployToNodes_built cfg _ _ _).aside.bind fun _ => .perform ⟨rfl, rfl⟩ fun _ =>
    (emitFsm_built cfg _).aside.bind fun _ => .done _

theorem deployBatch_built (inst : FsmInstance) (percent : Nat) (selected : List Node)
    (rulesYaml : String) : BuiltAside cfg (deployBatch cfg inst percent selected rulesYaml) := by
  refine .perform ⟨rfl, rfl⟩ fun _ => ?_
  simp only [Prog.pure_eq]
  split
  · exact .done _
  · exact deploySelected_built cfg _ _ _ _

theorem executeDeploy_built (action : DeployAction) (inst : FsmInstance) :
    BuiltAside cfg (executeDeploy cfg action inst) := by
  unfold executeDeploy
  split
  · exact .done _
  · refine .perform ⟨rfl, rfl⟩ fun r => ?_
    rcases r with e | _ | ⟨node, nodes⟩
    · exact .done _
    · exact .done _
    · simp only
      split
      · exact deploySelected_built cfg _ _ _ _
      · exact deployBatch_built cfg _ _ _ _

theorem rollbackNode_built (nodeId : String) : BuiltPlain cfg (rollbackNode cfg nodeId) := by
  refine .perform ⟨⟨rfl, rfl⟩, rfl⟩ fun r => ?_
  rcases r with e | _ | ⟨newest, _ | ⟨prev, rest⟩⟩
  · exact .done _
  · exact .done _
  · exact .done _
  · refine .perform ⟨⟨rfl, rfl⟩, rfl⟩ fun r => ?_
    rcases r with e | _ | node
    · exact .done _
    · exact .done _
    · -- the one deploy that is not under a guard
      exact .block (.bare node prev.rulesYaml prev.options) fun outcome => .done _

theorem rollbackLoop_built (nodeIds : List String) (s f : Nat) (rs : List NodeActionResult) :
    BuiltPlain cfg (rollbackLoop cfg nodeIds s f rs) := by
  induction nodeIds generalizing s f rs with
  | nil => exact .done _
  | cons nodeId nodeIds ih => exact (rollbackNode_built cfg nodeId).bind fun r => ih _ _ _

theorem executeRollback_built (action : RollbackAction) (inst : FsmInstance) :
    BuiltPlain cfg (executeRollback cfg action inst) := by
  simp only [executeRollback, Prog.bind_eq]
  split
  · exact .done _
  · exact (rollbackLoop_built cfg _ _ _ _).bind fun _ => .done _

/-- What an action does after its first mark. -/
theorem executeAction_eq (action : ActionDefinition) (inst : FsmInstance) :
    ∃ k : Proc FsmContext, BuiltAside cfg k ∧ executeAction cfg action inst =
      (mark (.startAction inst.instanceId inst.currentState)).bind fun _ => k := by
  refine ⟨_, ?_, rfl⟩
  split
  · exact executeDeploy_built cfg _ _
  · exact (executeRollback_built cfg _ _).aside
  · exact .bind (.of_calls ((executeAlert_calls _ _).mono fun _ h => h.1)) fun _ => .done _
  · exact .done _

/-- The one block of the engine is the execution of an action. -/
inductive ActionBlock : (β : Type) → Proc β → Prop
  | mk (action : ActionDefinition) (inst : FsmInstance) :
    ActionBlock _ (executeAction cfg action inst)

/-- The program is built from actions and operations between them. -/
abbrev BuiltActions {α : Type} (p : Proc α) : Prop := p.Built BetweenActions (ActionBlock cfg)

/-- Actions are built from deploys themselves. -/
theorem BuiltActions.outside {α : Type} {p : Proc α} (h : BuiltActions cfg p) :
    BuiltOutside cfg p := by
  refine Prog.Built.trans (fun _ h => h.1) (fun β p hp => ?_) h
  obtain ⟨action, inst⟩ := hp
  obtain ⟨k, hk, heq⟩ := executeAction_eq cfg action inst
  rw [heq]
  exact .perform rfl fun _ => hk.outside

/-! ## The engine -/

theorem emitFsm_builtActions (e : DateTime → FsmEvent) : BuiltActions cfg (emitFsm cfg e) := by
  unfold emitFsm
  split
  · exact .perform ⟨rfl, rfl⟩ fun now => .perform ⟨rfl, rfl⟩ fun _ => .done _
  · exact .done _

theorem executeActionOf_built (stateDef : StateDefinition) (inst : FsmInstance) :
    BuiltActions cfg (executeActionOf cfg stateDef inst) := by
  unfold executeActionOf
  split
  · exact .done _
  · rename_i action _
    rw [← Prog.bind_done (executeAction cfg action inst)]
    exact .block ⟨action, inst⟩ fun context => .done context

theorem enterState_built (stateDef : StateDefinition) (inst : FsmInstance) :
    BuiltActions cfg (enterState cfg stateDef inst) := by
  refine (executeActionOf_built cfg stateDef inst).bind fun context => ?_
  unfold completeIfTerminal
  split
  · exact (emitFsm_builtActions cfg _).bind fun _ => .done _
  · exact .done _

theorem fireTransition_built (inst : FsmInstance) (toState : String)
    (trigger : TransitionTrigger) (definition : FsmDefinition) :
    BuiltActions cfg (fireTransition cfg inst toState trigger definition) := by
  refine .perform ⟨rfl, rfl⟩ fun now => (emitFsm_builtActions cfg _).bind fun _ => ?_
  split
  · exact .done _
  · exact enterState_built cfg _ _

theorem shouldFire_built (currentState : String) (ti : Nat) (t : TransitionDefinition)
    (inst : FsmInstance) : BuiltActions cfg (shouldFire currentState ti t inst) := by
  unfold shouldFire
  split
  · exact .perform ⟨rfl, rfl⟩ fun obs => .done _
  · split
    · exact .perform ⟨rfl, rfl⟩ fun now => .done _
    · exact .done _
  · exact .done _

theorem evaluateTransitions_built (definition : FsmDefinition) (currentState : String) (ti : Nat)
    (ts : List TransitionDefinition) (inst : FsmInstance) :
    BuiltActions cfg (evaluateTransitions cfg definition currentState ti ts inst) := by
  induction ts generalizing ti inst with
  | nil => exact .perform ⟨rfl, rfl⟩ fun _ => .done _
  | cons t ts ih =>
    refine (shouldFire_built cfg currentState ti t inst).bind fun r => ?_
    simp only [Prog.bind_eq]
    split
    · exact .perform ⟨rfl, rfl⟩ fun _ => (fireTransition_built cfg _ _ _ _).bind fun inst' =>
        .perform ⟨rfl, rfl⟩ fun _ => .done _
    · exact ih _ _

theorem evaluateInstance_built (inst : FsmInstance) (definition : FsmDefinition) :
    BuiltActions cfg (evaluateInstance cfg inst definition) := by
  unfold evaluateInstance
  split
  · exact .done _
  · split
    · split
      · exact .perform ⟨rfl, rfl⟩ fun now => .perform ⟨rfl, rfl⟩ fun _ => .done _
      · exact .done _
    · exact evaluateTransitions_built cfg _ _ _ _ _

theorem evaluateEach_built (insts : List FsmInstance) :
    BuiltActions cfg (evaluateEach cfg insts) := by
  induction insts with
  | nil => exact .done _
  | cons inst insts ih =>
    refine .perform ⟨rfl, rfl⟩ fun r => ?_
    rcases r with e | _ | definition
    · exact ih
    · exact .perform ⟨rfl, rfl⟩ fun _ => ih
    · exact (evaluateInstance_built cfg inst definition).bind fun _ => ih

theorem evaluateAll_built : BuiltActions cfg (evaluateAll cfg) := by
  refine .perform ⟨rfl, rfl⟩ fun r => ?_
  cases r with
  | error e => exact .done _
  | ok insts => exact (evaluateEach_built cfg insts).bind fun _ => .perform ⟨rfl, rfl⟩ fun _ => .done _

theorem startFrom_built (defName : String) (definition : FsmDefinition) (context : FsmContext) :
    BuiltActions cfg (startFrom cfg defName definition context) := by
  simp only [startFrom, Prog.bind_eq, Prog.pure_eq]
  refine .perform ⟨rfl, rfl⟩ fun now => .perform ⟨rfl, rfl⟩ fun id => ?_
  split
  · rw [Prog.done_bind]
    refine .perform ⟨rfl, rfl⟩ fun r => ?_
    cases r <;> exact .done _
  · refine (executeActionOf_built cfg _ _).bind fun context' => .perform ⟨rfl, rfl⟩ fun r => ?_
    cases r <;> exact .done _

theorem startInstance_built (defName rulesYaml : String)
    (compileOptions : Option CompileOptions) :
    BuiltActions cfg (startInstance cfg defName rulesYaml compileOptions) := by
  refine .perform ⟨rfl, rfl⟩ fun r => ?_
  rcases r with e | _ | definition
  · exact .done _
  · exact .done _
  · exact startFrom_built cfg _ _ _

theorem startAdaptiveInstance_built (defName : String) (rulesYaml : Option String)
    (compileOptions : Option CompileOptions) (targetLabelFilter : Labels) :
    BuiltActions cfg
      (startAdaptiveInstance cfg defName rulesYaml compileOptions targetLabelFilter) := by
  refine .perform ⟨rfl, rfl⟩ fun r => ?_
  rcases r with e | _ | definition
  · exact .done _
  · exact .done _
  · refine .perform ⟨rfl, rfl⟩ fun r => ?_
    rcases r with e | _ | ⟨node, nodes⟩
    · exact .done _
    · exact .done _
    · exact startFrom_built cfg _ _ _

theorem advanceInstance_built (instanceId : String) (targetState : Option String) :
    BuiltActions cfg (advanceInstance cfg instanceId targetState) := by
  refine .perform ⟨rfl, rfl⟩ fun r => ?_
  rcases r with e | _ | inst
  · exact .done _
  · exact .done _
  · simp only
    split
    · exact .done _
    · refine .perform ⟨rfl, rfl⟩ fun r => ?_
      rcases r with e | _ | definition
      · exact .done _
      · exact .done _
      · simp only
        split
        · exact .done _
        · split
          · exact .done _
          · refine (fireTransition_built cfg _ _ _ _).bind fun inst' => .perform ⟨rfl, rfl⟩ fun r => ?_
            cases r <;> exact .done _

theorem cancelInstance_built (instanceId reason : String) :
    BuiltActions cfg (cancelInstance cfg instanceId reason) := by
  refine .perform ⟨rfl, rfl⟩ fun r => ?_
  rcases r with e | _ | inst
  · exact .done _
  · exact .done _
  · simp only
    split
    · exact .done _
    · refine .perform ⟨rfl, rfl⟩ fun updatedAt => .perform ⟨rfl, rfl⟩ fun timestamp => .perform ⟨rfl, rfl⟩ fun r => ?_
      cases r with
      | error e => exact .done _
      | ok u => exact (emitFsm_builtActions cfg _).bind fun _ => .done _

/-! ## Every request -/

/-- The operations of the engine, which do work on instances. -/
def Request.isEngine : Request → Bool
  | .startInstance _ _ _ | .startAdaptiveInstance _ _ _ _ | .evaluateAll
  | .advanceInstance _ _ | .cancelInstance _ _ => true
  | _ => false

/-- **Every request but those of the engine leaves the instances alone.** -/
theorem serve_plain {q : Request} (hq : q.isEngine = false) : BuiltPlain cfg (serve cfg q) := by
  cases q with
  | registerNode req => exact .bind (.of_calls (registerNode_calls cfg _)) fun _ => .done _
  | heartbeat req => exact .bind (.of_calls (heartbeat_calls cfg _)) fun _ => .done _
  | removeNode nodeId => exact .bind (.of_calls (removeNode_calls cfg _)) fun _ => .done _
  | deployPolicy req => exact (deployPolicy_built cfg _).bind fun _ => .done _
  | batchDeployPolicy req => exact (batchDeployPolicy_built cfg _).bind fun _ => .done _
  | rollbackPolicy nodeId targetVersion =>
    exact (rollbackPolicy_built cfg _ _).bind fun _ => .done _
  | restRemoveNode id => exact .bind (.of_calls (restRemoveNode_calls _)) fun _ => .done _
  | restDeployPolicy body => exact (restDeployPolicy_built cfg _).bind fun _ => .done _
  | restBatchDeployPolicy body =>
    exact (restBatchDeployPolicy_built cfg _).bind fun _ => .done _
  | restRollbackPolicy id targetVersion =>
    exact (restRollbackPolicy_built cfg _ _).bind fun _ => .done _
  | batchTask joinSet req node => exact (batchTask_built cfg _ _ _).bind fun _ => .done _
  | recordAudit entry => exact .perform ⟨⟨rfl, rfl⟩, rfl⟩ fun _ => .done _
  | _ => exact absurd hq (by simp [Request.isEngine])

/-- **The requests of the engine are built from actions and operations between them.** -/
theorem serve_actions {q : Request} (hq : q.isEngine) : BuiltActions cfg (serve cfg q) := by
  cases q with
  | startInstance defName rulesYaml compileOptions =>
    exact (startInstance_built cfg _ _ _).bind fun _ => .done _
  | startAdaptiveInstance defName rulesYaml compileOptions targetLabelFilter =>
    exact (startAdaptiveInstance_built cfg _ _ _ _).bind fun _ => .done _
  | evaluateAll => exact (evaluateAll_built cfg).bind fun _ => .done _
  | advanceInstance instanceId targetState =>
    exact (advanceInstance_built cfg _ _).bind fun _ => .done _
  | cancelInstance instanceId reason =>
    exact (cancelInstance_built cfg _ _).bind fun _ => .done _
  | _ => cases hq

/-- **Every request is built from deploys and operations that are not part of one.** -/
theorem serve_built (q : Request) : BuiltOutside cfg (serve cfg q) := by
  cases hq : q.isEngine with
  | false => exact (serve_plain cfg hq).aside.outside
  | true => exact (serve_actions cfg hq).outside

end Programs

end PaciNet

import PaciNet.Lib.Guard
import PaciNet.Proof.Blocks
import PaciNet.Proof.Runs

/-!
# One deploy to a node at a time

`deploy_to_node` does not protect itself: two executions for one node would race for the stored
policy, the state of the node and the agent. Its callers are to take the guard of the node with
`begin_deploy`, and all of them but one do, which is proved here of every program. The rollback
action of the FSM engine deploys without the guard, and `remove_node` clears the guard of a node
whoever holds it.

**At most one `deploy_to_node` is in progress for each node in every run in which the rollback
action does not start on a node that somebody is busy with, nobody takes the guard of a node that
a rollback action is busy with, and no guard that is held is cleared.** The deploys under a guard
are under no condition.
-/

set_option autoImplicit false

namespace PaciNet

open Lib

/-- The guards of the nodes, and what `deploy_to_node` does under them. Only the rollback action
    asks for the two newest versions of a node, and then deploys without the guard. -/
def deployGuard : Guard Op Op.Res (World MemoryStorage) String where
  held w n := decide (n ∈ w.storage.deploying)
  kind
    | .storage (.beginDeploy n) => .take n
    | .storage (.endDeploy n) => .free n
    | .storage (.removeNode n) => .clear n
    | .storage (.getPolicyHistory n limit) => if limit = 2 then .approach n else .none
    | .mark (.enterDeploy n) => .enter n
    | .mark (.exitDeploy n) => .leave n
    | _ => .none
  took o r := match o, r with
    | .storage (.beginDeploy _), .ok () => true
    | _, _ => false
  expect
    | .storage (.getNode n), r => ∀ node, r = .ok (some node) → node.nodeId = n
    | _, _ => True
  starts
    | .joinSetSpawn _ req node => req.nodeId = node.nodeId
    | _ => True

/-- What a storage call does to the guards. -/
theorem call_deploying (now : DateTime) (c : StorageCall) (s : MemoryStorage) :
    (Storage.call now c s).2.deploying =
      match c with
      | .beginDeploy n => insert n s.deploying
      | .endDeploy n | .removeNode n => s.deploying.erase n
      | _ => s.deploying := by
  rw [MemoryStorage.call_snd]
  cases c <;> rfl

/-- The guard was taken exactly if it was free. -/
theorem took_beginDeploy (now : DateTime) (n : String) (s : MemoryStorage) :
    deployGuard.took (.storage (.beginDeploy n)) (Storage.call now (.beginDeploy n) s).1 =
      decide (n ∉ s.deploying) := by
  show deployGuard.took (.storage (.beginDeploy n)) (s.beginDeploy n).1 = _
  unfold MemoryStorage.beginDeploy
  split <;> rename_i h <;> simp [deployGuard, h]

theorem deployGuard_lawful [Extern] : deployGuard.Lawful (machine MemoryStorage) where
  held := by
    intro x o w r w' new hx k
    have hs := (World.stepped_of_exec hx).storage
    cases o with
    | storage c =>
      have hc : w'.storage = (Storage.call x.now c w.storage).2 := congrArg Prod.snd hs
      have hr : r = (Storage.call x.now c w.storage).1 := congrArg Prod.fst hs
      show decide (k ∈ w'.storage.deploying) = _
      rw [hc, call_deploying]
      cases c with
      | beginDeploy n =>
        -- a guard that was not taken was held before
        rw [hr, took_beginDeploy]
        by_cases hn : n ∈ w.storage.deploying <;> by_cases hk : k = n <;>
          simp [Guard.heldAfter, deployGuard, hn, hk]
      | getPolicyHistory n limit =>
        by_cases hlimit : limit = 2 <;> simp [Guard.heldAfter, deployGuard, hlimit]
      | _ => simp [Guard.heldAfter, deployGuard]
    | mark m =>
      show decide (k ∈ w'.storage.deploying) = _
      rw [show w'.storage = w.storage from hs]
      cases m <;> rfl
    | _ => exact congrArg (fun s : MemoryStorage => decide (k ∈ s.deploying)) hs
  fresh := by
    intro x o w r w' new n hx hkind htook
    have hs := (World.stepped_of_exec hx).storage
    cases o with
    | storage c =>
      have hr : r = (Storage.call x.now c w.storage).1 := congrArg Prod.fst hs
      cases c with
      | beginDeploy m =>
        obtain rfl : m = n := GuardOp.take.inj hkind
        rw [hr, took_beginDeploy] at htook
        simpa [deployGuard] using htook
      | getPolicyHistory m limit =>
        by_cases hlimit : limit = 2 <;> simp [deployGuard, hlimit] at hkind
      | _ => cases hkind
    | mark m => cases m <;> cases hkind
    | _ => cases hkind

/-! ## The programs keep to it -/

/-- The program keeps to the guards, and holds none before and after. -/
abbrev KeepsGuards {α : Type} (p : Proc α) : Prop := p.Keeps deployGuard.monitor Stage.Idle

/-- An operation outside deploys is allowed where no guard is held. -/
theorem deployGuard_keeps {o : Op} (h : Outside o) : deployGuard.monitor.Keeps Stage.Idle o := by
  have none (hstarts : deployGuard.starts o) (hkind : deployGuard.kind o = .none) :
      deployGuard.monitor.Keeps Stage.Idle o := by
    intro st hst
    refine ⟨⟨hstarts, ?_⟩, fun r _ => ?_⟩
    · rw [hkind]
      exact .inl hst.1
    · show (st.step (deployGuard.kind o) _).Idle
      rw [hkind]
      exact hst
  cases o with
  | storage c =>
    cases c with
    | getPolicyHistory n limit =>
      by_cases hlimit : limit = 2
      · have hkind : deployGuard.kind (.storage (.getPolicyHistory n limit)) = .approach n :=
          if_pos hlimit
        intro st hst
        refine ⟨⟨trivial, ?_⟩, fun r _ => ?_⟩
        · rw [hkind]
          exact hst
        · show (st.step (deployGuard.kind _) _).Idle
          rw [hkind]
          exact hst
      · exact none trivial (if_neg hlimit)
    | removeNode n => exact fun st hst => ⟨⟨trivial, hst⟩, fun _ _ => hst⟩
    | _ => first | exact none trivial rfl | cases h
  | mark m => cases m <;> first | exact none trivial rfl | cases h
  | joinSetSpawn joinSet req node => cases h
  | _ => exact none trivial rfl

theorem keepsGuards_of_calls {α : Type} {p : Proc α} (h : p.Calls Plain) : KeepsGuards p :=
  .of_calls (h.mono fun _ ho => deployGuard_keeps ho.1.1)

/-- The guards mean nothing to the operations of `deploy_to_node` between its marks. -/
theorem deployGuard_body {n : String} {o : Op} (h : DeployBodyOp n o) :
    deployGuard.starts o ∧ deployGuard.kind o = .none := by
  cases o with
  | storage c =>
    cases c with
    | getPolicyHistory m limit =>
      obtain ⟨-, rfl⟩ := h
      exact ⟨trivial, rfl⟩
    | _ => first | exact ⟨trivial, rfl⟩ | exact h.elim
  | mark m => exact h.elim
  | joinSetSpawn joinSet req node => exact h.elim
  | _ => exact ⟨trivial, rfl⟩

section Programs

variable [Extern] (cfg : ControllerConfig)

/-- An execution of `deploy_to_node` is inside while it lasts. It may begin under the guard of the
    node, or where the task has turned to the node without it. -/
theorem deployToNode_stage (node : Node) (rulesYaml : String) (options : CompileOptions)
    {st : Stage String} (hinside : st.inside = none)
    (hkey : st.holds = some node.nodeId ∨ st.holds = none ∧ st.near = some node.nodeId) :
    (deployToNode cfg node rulesYaml options).wp deployGuard.monitor
      (fun st' _ => st' = ⟨st.holds, none, none⟩) st := by
  let work : Stage String := { st with inside := some node.nodeId }
  have hunder : work.holds = none ∨ work.holds = some node.nodeId := hkey.symm.imp_left And.left
  have hbody : (deployToNodeBody cfg node rulesYaml options).Keeps deployGuard.monitor (· = work) := by
    refine .of_calls ((deployToNodeBody_calls cfg node rulesYaml options).mono fun o ho => ?_)
    obtain ⟨hstarts, hkind⟩ := deployGuard_body ho
    rintro st' rfl
    refine ⟨⟨hstarts, ?_⟩, fun r _ => ?_⟩
    · rw [hkind]
      exact hunder.imp_right Eq.symm
    · show work.step (deployGuard.kind o) _ = work
      rw [hkind]
      rfl
  refine wp_mark.2 ⟨⟨trivial, hinside, hkey⟩, fun _ => Prog.wp_bind.2 ((hbody work rfl).mono ?_)⟩
  rintro st' outcome rfl
  exact wp_mark.2 ⟨⟨trivial, rfl, hunder⟩, fun _ => rfl⟩

/-- The shape in which a deploy under the guard of its node is written in the source: `k` goes on
    with the answer to `begin_deploy`. -/
theorem keepsGuards_guarded {α : Type} {n : String} {node : Node} (hnode : node.nodeId = n)
    {rulesYaml : String} {options : CompileOptions} {k : StorageResult Unit → Proc α}
    {f : DeployOutcome → Proc α}
    (hk : k (.ok ()) = (deployToNode cfg node rulesYaml options).bind fun outcome =>
      (storage (.endDeploy n)).bind fun _ => f outcome)
    (herr : ∀ e, KeepsGuards (k (.error e))) (hf : ∀ outcome, KeepsGuards (f outcome)) :
    KeepsGuards ((storage (.beginDeploy n)).bind k) := by
  subst hnode
  intro st hst
  refine wp_storage.2 ⟨⟨trivial, hst⟩, fun r _ => ?_⟩
  cases r with
  | error e => exact herr e st hst
  | ok u =>
    show (k (.ok ())).wp deployGuard.monitor _ _
    rw [hk]
    have hdeploy : (deployToNode cfg node rulesYaml options).wp deployGuard.monitor
        (fun st' _ => st' = ⟨some node.nodeId, none, none⟩) ⟨some node.nodeId, none, st.inside⟩ :=
      deployToNode_stage cfg node _ _ hst.2 (.inl rfl)
    refine Prog.wp_bind.2 (hdeploy.mono ?_)
    rintro st' outcome rfl
    exact wp_storage.2 ⟨⟨trivial, rfl, rfl⟩, fun _ _ => hf outcome _ ⟨rfl, rfl⟩⟩

/-! ### Deploys -/

theorem deployPolicy_keeps (req : DeployPolicyRequest) : KeepsGuards (deployPolicy cfg req) := by
  refine .perform (deployGuard_keeps rfl) ?_
  rintro (e | _ | node) hr
  · exact .done _
  · exact .done _
  · exact keepsGuards_guarded cfg (hr node rfl) (Prog.bind_assoc _ _ _) (fun e => .done _)
      fun outcome => .done _

/-- The task of a batch is for the node of its request. -/
theorem batchTask_keeps (joinSet : Nat) {req : DeployPolicyRequest} {node : Node}
    (hnode : req.nodeId = node.nodeId) : KeepsGuards (batchTask cfg joinSet req node) := by
  refine .bind (keepsGuards_guarded cfg hnode.symm rfl (fun e => .done _) fun outcome => .done _) ?_
  intro r
  cases r <;> exact .perform (deployGuard_keeps rfl) fun _ _ => .done _

omit [Extern] in
theorem spawnAll_keeps (joinSet : Nat) (req : BatchDeployPolicyRequest) (nodes : List Node) :
    KeepsGuards (spawnAll joinSet req nodes) := by
  induction nodes with
  | nil => exact .done _
  | cons node nodes ih =>
    exact .perform (fun st hst => ⟨⟨rfl, .inl hst.1⟩, fun _ _ => hst⟩) fun _ _ => ih

omit [Extern] in
theorem batchDeployPolicy_keeps (req : BatchDeployPolicyRequest) :
    KeepsGuards (batchDeployPolicy req) := by
  refine .perform (deployGuard_keeps rfl) fun r _ => ?_
  cases r with
  | error e => exact .done _
  | ok nodes =>
    simp only [Prog.bind_eq]
    split
    · exact .done _
    · refine .perform (deployGuard_keeps rfl) fun joinSet _ => (spawnAll_keeps _ _ _).bind fun _ => ?_
      exact (keepsGuards_of_calls (joinAll_calls _ _ _)).bind fun _ => .done _

theorem rollbackPolicy_keeps (nodeId : String) (targetVersion : Nat) :
    KeepsGuards (rollbackPolicy cfg nodeId targetVersion) := by
  refine .perform (deployGuard_keeps rfl) ?_
  rintro (e | _ | node) hr
  · exact .done _
  · exact .done _
  · refine .perform (deployGuard_keeps rfl) ?_
    rintro (e | versions) -
    · exact .done _
    · simp only
      split
      · exact .done _
      · exact .done _
      · exact keepsGuards_guarded cfg (hr node rfl) (Prog.bind_assoc _ _ _) (fun e => .done _)
          fun outcome => .done _

theorem restDeployPolicy_keeps (body : DeployRequest) :
    KeepsGuards (restDeployPolicy cfg body) := by
  refine (keepsGuards_of_calls requireLeader_calls).orReturn fun _ => ?_
  refine .perform (deployGuard_keeps rfl) ?_
  rintro (e | _ | node) hr
  · exact .done _
  · exact .done _
  · simp only
    split
    · exact keepsGuards_of_calls (dryRun_calls body node)
    · exact keepsGuards_guarded cfg (hr node rfl) rfl (fun e => .done _) fun outcome =>
        (keepsGuards_of_calls (recordAudit_calls _ _ _)).bind fun _ => .done _

theorem restRollbackPolicy_keeps (id : String) (targetVersion : Nat) :
    KeepsGuards (restRollbackPolicy cfg id targetVersion) := by
  refine (keepsGuards_of_calls requireLeader_calls).orReturn fun _ => ?_
  refine .perform (deployGuard_keeps rfl) ?_
  rintro (e | _ | node) hr
  · exact .done _
  · exact .done _
  · refine .perform (deployGuard_keeps rfl) ?_
    rintro (e | versions) -
    · exact .done _
    · simp only
      split
      · exact .done _
      · exact .done _
      · exact keepsGuards_guarded cfg (hr node rfl) rfl (fun e => .done _) fun outcome => .done _

/-- Each turn of `deploy_to_nodes` is under the guard of its node. -/
theorem deployToNodesLoop_keeps (rulesYaml : String) (options : CompileOptions)
    (nodes : List Node) (s f : Nat) (rs : List NodeActionResult) :
    KeepsGuards (deployToNodesLoop cfg rulesYaml options nodes s f rs) := by
  induction nodes generalizing s f rs with
  | nil => exact .done _
  | cons node nodes ih =>
    exact keepsGuards_guarded cfg rfl rfl (fun e => ih _ _ _) fun outcome => ih _ _ _

theorem deployToNodes_keeps (nodes : List Node) (rulesYaml : String) (options : CompileOptions) :
    KeepsGuards (deployToNodes cfg nodes rulesYaml options) :=
  (deployToNodesLoop_keeps cfg rulesYaml options nodes 0 0 []).bind fun _ => .done _

theorem restBatchDeployPolicy_keeps (body : BatchDeployRequest) :
    KeepsGuards (restBatchDeployPolicy cfg body) := by
  refine (keepsGuards_of_calls requireLeader_calls).orReturn fun _ => ?_
  refine .perform (deployGuard_keeps rfl) ?_
  rintro (e | _ | ⟨node, nodes⟩) -
  · exact .done _
  · exact .done _
  · exact (deployToNodes_keeps cfg _ _ _).bind fun _ => .done _

/-! ### Actions -/

theorem deploySelected_keeps (inst : FsmInstance) (context : FsmContext) (selected : List Node)
    (rulesYaml : String) : KeepsGuards (deploySelected cfg inst context selected rulesYaml) := by
  refine (deployToNodes_keeps cfg _ _ _).bind fun _ => .perform (deployGuard_keeps rfl) fun _ _ => ?_
  exact (keepsGuards_of_calls (emitFsm_calls cfg _)).bind fun _ => .done _

theorem executeDeploy_keeps (action : DeployAction) (inst : FsmInstance) :
    KeepsGuards (executeDeploy cfg action inst) := by
  unfold executeDeploy
  split
  · exact .done _
  · refine .perform (deployGuard_keeps rfl) ?_
    rintro (e | _ | ⟨node, nodes⟩) -
    · exact .done _
    · exact .done _
    · simp only
      split
      · exact deploySelected_keeps cfg _ _ _ _
      · refine .perform (deployGuard_keeps rfl) fun _ _ => ?_
        simp only [Prog.pure_eq]
        split
        · exact .done _
        · exact deploySelected_keeps cfg _ _ _ _

/-- One turn of the rollback action: it has turned to the node before it deploys to it. -/
theorem rollbackNode_keeps (nodeId : String) : KeepsGuards (rollbackNode cfg nodeId) := by
  intro st hst
  refine wp_storage.2 ⟨⟨trivial, hst⟩, ?_⟩
  rintro (e | _ | ⟨newest, _ | ⟨prev, rest⟩⟩) -
  · exact hst
  · exact hst
  · exact hst
  · refine wp_storage.2 ⟨⟨trivial, .inl hst.1⟩, ?_⟩
    rintro (e | _ | node) hr
    · exact hst
    · exact hst
    · have hnode : node.nodeId = nodeId := hr node rfl
      have hdeploy : (deployToNode cfg node prev.rulesYaml prev.options).wp deployGuard.monitor
          (fun st' _ => st' = ⟨st.holds, none, none⟩) ⟨st.holds, some nodeId, st.inside⟩ :=
        deployToNode_stage cfg node _ _ hst.2 (.inr ⟨hst.1, congrArg some hnode.symm⟩)
      refine Prog.wp_bind.2 (hdeploy.mono ?_)
      rintro st' outcome rfl
      exact ⟨hst.1, rfl⟩

theorem rollbackLoop_keeps (nodeIds : List String) (s f : Nat) (rs : List NodeActionResult) :
    KeepsGuards (rollbackLoop cfg nodeIds s f rs) := by
  induction nodeIds generalizing s f rs with
  | nil => exact .done _
  | cons nodeId nodeIds ih => exact (rollbackNode_keeps cfg nodeId).bind fun r => ih _ _ _

theorem executeRollback_keeps (action : RollbackAction) (inst : FsmInstance) :
    KeepsGuards (executeRollback cfg action inst) := by
  simp only [executeRollback, Prog.bind_eq]
  split
  · exact .done _
  · exact (rollbackLoop_keeps cfg _ _ _ _).bind fun _ => .done _

theorem executeAction_keeps (action : ActionDefinition) (inst : FsmInstance) :
    KeepsGuards (executeAction cfg action inst) := by
  refine .perform (deployGuard_keeps rfl) fun _ _ => ?_
  split
  · exact executeDeploy_keeps cfg _ _
  · exact executeRollback_keeps cfg _ _
  · exact (keepsGuards_of_calls (executeAlert_calls _ _)).bind fun _ => .done _
  · exact .done _

/-! ### Requests -/

/-- The request comes from outside, or it is a task of the controller: one of a batch is for the
    node of its request. -/
def Request.Coherent : Request → Prop
  | .batchTask _ req node => req.nodeId = node.nodeId
  | _ => True

instance : DecidablePred Request.Coherent := fun q => by
  unfold Request.Coherent
  split <;> infer_instance

/-- **Every request keeps to the guards.** -/
theorem serve_keeps {q : Request} (hq : q.Coherent) : KeepsGuards (serve cfg q) := by
  cases hengine : q.isEngine with
  | true =>
    refine (serve_actions cfg hengine).keeps (fun o ho => deployGuard_keeps ho.1) fun β p hp => ?_
    obtain ⟨action, inst⟩ := hp
    exact executeAction_keeps cfg action inst
  | false =>
    cases q with
    | registerNode req => exact (keepsGuards_of_calls (registerNode_calls cfg _)).bind fun _ => .done _
    | heartbeat req => exact (keepsGuards_of_calls (heartbeat_calls cfg _)).bind fun _ => .done _
    | removeNode nodeId => exact (keepsGuards_of_calls (removeNode_calls cfg _)).bind fun _ => .done _
    | deployPolicy req => exact (deployPolicy_keeps cfg _).bind fun _ => .done _
    | batchDeployPolicy req => exact (batchDeployPolicy_keeps _).bind fun _ => .done _
    | rollbackPolicy nodeId targetVersion => exact (rollbackPolicy_keeps cfg _ _).bind fun _ => .done _
    | restRemoveNode id => exact (keepsGuards_of_calls (restRemoveNode_calls _)).bind fun _ => .done _
    | restDeployPolicy body => exact (restDeployPolicy_keeps cfg _).bind fun _ => .done _
    | restBatchDeployPolicy body => exact (restBatchDeployPolicy_keeps cfg _).bind fun _ => .done _
    | restRollbackPolicy id targetVersion =>
      exact (restRollbackPolicy_keeps cfg _ _).bind fun _ => .done _
    | batchTask joinSet req node => exact (batchTask_keeps cfg _ hq).bind fun _ => .done _
    | recordAudit entry => exact .perform (deployGuard_keeps rfl) fun _ _ => .done _
    | _ => exact absurd hengine (by simp [Request.isEngine])

/-- **The controller keeps to the guards**: every request takes the guard of a node before it
    deploys to it, unless it is the rollback action, and releases what it has taken. -/
theorem deployGuard_disciplined :
    deployGuard.Disciplined (controller cfg MemoryStorage) Request.Coherent where
  prog q hq := serve_keeps cfg hq .out Stage.idle_out
  exec := by
    intro st x o w r w' new _ hallow hx
    have hs := World.stepped_of_exec hx
    refine ⟨trivial, ?_, fun q hq => ?_⟩
    · cases o with
      | storage c =>
        cases hx
        cases c with
        | getNode m =>
          intro node hnode
          exact Table.key_of_get? (Except.ok.inj hnode)
        | _ => trivial
      | _ => trivial
    · rw [hs.new] at hq
      cases o with
      | recordAudit entry =>
        obtain rfl := List.mem_singleton.1 hq
        trivial
      | joinSetSpawn joinSet req node =>
        obtain rfl := List.mem_singleton.1 hq
        exact hallow.1
      | _ => exact nomatch hq

end Programs

/-! ## At most one deploy -/

/-- An execution of `deploy_to_node` for the node is in progress in the task. -/
def DeployInProgress (t : Task) (nodeId : String) : Prop :=
  (deployGuard.stage t).inside = some nodeId

instance (t : Task) (nodeId : String) : Decidable (DeployInProgress t nodeId) :=
  inferInstanceAs (Decidable (_ = _))

/-- **At most one `deploy_to_node` is in progress for each node**, in the runs of a controller
    that starts without tasks. -/
def DeployExclusive [Extern] (cfg : ControllerConfig) (C : StepCondition) : Prop :=
  ∀ (c₀ c : Pool), c₀.threads = [] → (controller cfg MemoryStorage).Steps C c₀ c →
    ∀ (nodeId : String) (i j : Nat) (t u : Task), c.threads[i]? = some t →
      c.threads[j]? = some u → DeployInProgress t nodeId → DeployInProgress u nodeId → i = j

/-- A task is engaged with a node if it holds its guard or deploys to it. A rollback action starts
    its deploy to a node only when nobody is engaged with it; a guard that is free is not taken
    while a rollback action deploys to its node; and no guard that is held is cleared. A deploy that
    starts under its guard is under no condition. -/
abbrev GuardsRespected : StepCondition := deployGuard.Respectful Request.Coherent

theorem deployExclusive [Extern] (cfg : ControllerConfig) : DeployExclusive cfg GuardsRespected := by
  intro c₀ c hidle hrun nodeId i j t u ht hu hpt hpu
  have hsound := deployGuard_lawful.sound (deployGuard_disciplined cfg) hrun hidle
  exact hsound.exclusive ht hu (.inr hpt) (.inr hpu)

/-! ## The rollback action -/

/-- A rollout that can be taken back by hand. -/
def reversible : FsmDefinition where
  name := "reversible"
  description := ""
  kind := .deployment
  initial := "staged"
  states := (∅ : AList fun _ : String => StateDefinition)
    |>.insert "done" ⟨none, [], true⟩
    |>.insert "back" ⟨some ⟨none, some ⟨.previous⟩, none⟩, [⟨"done", none, some "10m"⟩], false⟩
    |>.insert "staged" ⟨none, [⟨"back", some (.simple ⟨none, none, some true⟩), none⟩], false⟩

example : reversible.validate = .ok () := by decide +kernel

/-- A controller with the node "n1", to which the second of two policies was deployed by the
    instance "i1" of the rollout. -/
def Pool.deployed : Pool where
  shared :=
    let s := (MemoryStorage.new.registerNode (.new 0 "n1" "host" "10.0.0.1:50052" ∅ "1.0")).2
    let s := (s.storePolicy (requestedPolicy "n1" "rules: [a]" "f3d8bc323877c964" 0 .default)).2
    let s := (s.storePolicy (requestedPolicy "n1" "rules: [b]" "d84905f2169d6cc5" 0 .default)).2
    let s := (s.storeFsmDefinition reversible).2
    .init (s.storeFsmInstance (.new 0 "i1" "reversible" "staged"
      { FsmContext.forDeployment "rules: [b]" none with
        targetNodes := ["n1"]
        deployedNodes := ["n1"] })).2
  threads := []

/-- A request to deploy to the node. -/
def deployToN1 : Request := .deployPolicy ⟨"n1", "rules: [a]", none, false⟩

/-- A second deploy to the node is refused while the first is in progress. -/
theorem deployExclusive_deployed :
    ∃ c : Pool, (@controller .sample plainConfig _ _).Steps GuardsRespected Pool.deployed c ∧
      (∃ t, c.threads[0]? = some t ∧ DeployInProgress t "n1") ∧
      ∀ j u, c.threads[j]? = some u → DeployInProgress u "n1" → 0 = j := by
  obtain ⟨c, _, hrun, -, hc⟩ := System.steps_of_runs (@controller .sample plainConfig _ _)
    Pool.deployed (deployGuard.respectful_sound Request.Coherent)
    (.arrive deployToN1 :: Label.turns 0 3 (.quiet 1 "") ++
      .arrive deployToN1 :: Label.turns 1 2 (.quiet 2 "")) []
    (fun (c _ : Pool) => c.threads[0]?.any fun t => decide (DeployInProgress t "n1"))
    (by decide +kernel)
  obtain ⟨t, ht, hpt⟩ := Option.any_eq_true _ _ |>.1 hc
  have hpt := of_decide_eq_true hpt
  exact ⟨c, hrun, ⟨t, ht, hpt⟩, fun j u hu hpu =>
    @deployExclusive .sample plainConfig Pool.deployed c rfl hrun "n1" 0 j t u ht hu hpt hpu⟩

/-- The rollback of a rollout deploys to a node while a request is deploying to it. -/
theorem not_deployExclusive : ¬ @DeployExclusive .sample plainConfig Interleaved := by
  intro h
  obtain ⟨c, _, hrun, -, hc⟩ := System.steps_of_runs (@controller .sample plainConfig _ _)
    Pool.deployed interleaved_sound
    (.arrive deployToN1 :: Label.turns 0 3 (.quiet 1 "") ++
      .arrive (.advanceInstance "i1" none) :: Label.turns 1 7 (.quiet 2 "")) []
    (fun (c _ : Pool) => (c.threads[0]?.any fun t => decide (DeployInProgress t "n1")) &&
      c.threads[1]?.any fun t => decide (DeployInProgress t "n1")) (by decide +kernel)
  simp only [Bool.and_eq_true, Option.any_eq_true, decide_eq_true_eq] at hc
  obtain ⟨⟨t, ht, hpt⟩, u, hu, hpu⟩ := hc
  exact absurd (h Pool.deployed c rfl hrun "n1" 0 1 t u ht hu hpt hpu) (by decide)

end PaciNet

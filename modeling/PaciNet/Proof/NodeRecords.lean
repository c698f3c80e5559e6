import PaciNet.Lib.Apart
import PaciNet.Proof.Serializable

/-!
# What a deploy does to the records of its node

`deploy_to_node` is given a record of its node, and of what is stored it reads and writes what is
stored about that node. Here it is a function: of these records, what it is asked for, and what
the agent answers (`NodeRecords.deploy`).

**A deploy does to the records of its node what the function says**, up to the ids it draws and
the times it reads off the clock, whatever goes on about other nodes.
-/

set_option autoImplicit false

namespace PaciNet

open Lib Prog

/-- What is stored about a node. -/
structure NodeRecords where
  node : Option Node
  policy : Option Policy
  versions : List PolicyVersion
  deployments : List DeploymentRecord
  counters : Option (List RuleCounter)
  flowCounters : Option (List FlowCounter)
  deploying : Bool
  deriving DecidableEq

/-- What is stored about the node. -/
def MemoryStorage.recordsOf (s : MemoryStorage) (n : String) : NodeRecords where
  node := s.nodes.get? n
  policy := s.policies.get? n
  versions := s.versionsOf n
  deployments := s.deployments.filter fun d => d.nodeId == n
  counters := s.counters.lookup n
  flowCounters := s.flowCounters.lookup n
  deploying := decide (n ∈ s.deploying)

theorem MemoryStorage.recordsOf_congr {s t : MemoryStorage} {n : String}
    (hnode : s.nodes.get? n = t.nodes.get? n) (hpolicy : s.policies.get? n = t.policies.get? n)
    (hversions : s.versionsOf n = t.versionsOf n)
    (hdeployments : (s.deployments.filter fun d => d.nodeId == n) =
      t.deployments.filter fun d => d.nodeId == n)
    (hcounters : s.counters.lookup n = t.counters.lookup n)
    (hflow : s.flowCounters.lookup n = t.flowCounters.lookup n)
    (hdeploying : n ∈ s.deploying ↔ n ∈ t.deploying) : s.recordsOf n = t.recordsOf n := by
  simp only [recordsOf, hnode, hpolicy, hversions, hdeployments, hcounters, hflow, hdeploying]

/-- What is stored about the node has not changed. -/
def KeepsRecords (n : String) (w w' : World MemoryStorage) : Prop :=
  w'.storage.recordsOf n = w.storage.recordsOf n

namespace NodeRecords

/-! ## Calls on the records -/

def storePolicy (v : NodeRecords) (policy : Policy) : NodeRecords :=
  { v with
    policy := some policy
    versions := v.versions ++ [{ policy with version := v.versions.length + 1 }] }

def updateNodeState (v : NodeRecords) (state : NodeState) : NodeRecords :=
  { v with
    node := v.node.map fun node =>
      if node.state.canTransitionTo state then { node with state := state } else node }

def recordDeployment (v : NodeRecords) (record : DeploymentRecord) : NodeRecords :=
  { v with deployments := v.deployments ++ [record] }

def setDeploying (v : NodeRecords) (deploying : Bool) : NodeRecords :=
  { v with deploying := deploying }

end NodeRecords

namespace MemoryStorage

variable (s : MemoryStorage)

theorem recordsOf_storePolicy (policy : Policy) : (s.storePolicy policy).2.recordsOf policy.nodeId =
    (s.recordsOf policy.nodeId).storePolicy policy := by
  simp only [recordsOf, versionsOf_storePolicy, NodeRecords.storePolicy, if_pos]
  rw [show (s.storePolicy policy).2.policies = s.policies.insert policy from rfl,
    Table.get?_insert_self]
  rfl

theorem recordsOf_updateNodeState (n : String) (state : NodeState) :
    (s.updateNodeState n state).2.recordsOf n = (s.recordsOf n).updateNodeState state := by
  rw [updateNodeState_snd]
  simp only [recordsOf, NodeRecords.updateNodeState, Table.get?_modify, if_pos]
  rfl

theorem recordsOf_recordDeployment (record : DeploymentRecord) :
    (s.recordDeployment record).2.recordsOf record.nodeId =
      (s.recordsOf record.nodeId).recordDeployment record := by
  have hfilter : [record].filter (fun d => d.nodeId == record.nodeId) = [record] := by simp
  simp only [recordsOf, NodeRecords.recordDeployment, recordDeployment, List.filter_append, hfilter]
  rfl

theorem recordsOf_beginDeploy (n : String) :
    (s.beginDeploy n).2.recordsOf n = (s.recordsOf n).setDeploying true := by
  rw [beginDeploy_snd]
  simp [recordsOf, NodeRecords.setDeploying, versionsOf]

theorem recordsOf_endDeploy (n : String) :
    (s.endDeploy n).2.recordsOf n = (s.recordsOf n).setDeploying false := by
  simp [recordsOf, NodeRecords.setDeploying, endDeploy, versionsOf]

end MemoryStorage

/-- The operations of the deploys to a node, with their guard, and of the task that does one. -/
def DeployTaskOp (n : String) : Op → Prop
  | .storage c =>
    match c with
    | .getPolicy m | .getPolicyHistory m _ | .updateNodeState m _ | .beginDeploy m
    | .endDeploy m => m = n
    | .storePolicy p => p.nodeId = n
    | .recordDeployment d => d.nodeId = n
    | _ => False
  | .joinSetPut _ r => r.nodeId = n
  | .deployRules _ _ | .now | .uuid | .mark _ => True
  | _ => False

theorem DeployBodyOp.deployTaskOp {n : String} {o : Op} (h : DeployBodyOp n o) :
    DeployTaskOp n o := by
  cases o with
  | storage c => cases c <;> first | exact h | exact h.1 | exact h.elim
  | mark m => exact h.elim
  | _ => trivial

/-- What is done for one node leaves the records of the others alone. -/
theorem keepsRecords_of_exec [Extern] {m n : String} (hne : m ≠ n) {o : Op} (ho : DeployTaskOp m o)
    {x : Ext} {w w' : World MemoryStorage} {r : o.Res} {new : List Request}
    (hx : World.exec x o w = some (r, w', new)) : KeepsRecords n w w' := by
  have hs := (World.stepped_of_exec hx).storage
  cases o with
  | storage c =>
    have hc : w'.storage = w.storage.after x.now c := by
      rw [← MemoryStorage.call_snd]
      exact congrArg Prod.snd hs
    rw [KeepsRecords, hc]
    cases c with
    | getPolicy k => rfl
    | getPolicyHistory k limit => rfl
    | updateNodeState k state =>
      obtain rfl : k = m := ho
      refine MemoryStorage.recordsOf_congr ?_ rfl rfl rfl rfl rfl Iff.rfl
      simp [MemoryStorage.after, Ne.symm hne]
    | beginDeploy k =>
      obtain rfl : k = m := ho
      refine MemoryStorage.recordsOf_congr rfl rfl rfl rfl rfl rfl ?_
      simp [MemoryStorage.after, Ne.symm hne]
    | endDeploy k =>
      obtain rfl : k = m := ho
      refine MemoryStorage.recordsOf_congr rfl rfl rfl rfl rfl rfl ?_
      simp [MemoryStorage.after, Ne.symm hne]
    | storePolicy p =>
      obtain rfl : p.nodeId = m := ho
      refine MemoryStorage.recordsOf_congr rfl ?_ ?_ rfl rfl rfl Iff.rfl
      · exact Table.get?_insert_ne (Ne.symm hne)
      · rw [MemoryStorage.after, versionsOf_storePolicy, if_neg (Ne.symm hne)]
    | recordDeployment d =>
      obtain rfl : d.nodeId = m := ho
      refine MemoryStorage.recordsOf_congr rfl rfl rfl ?_ rfl rfl Iff.rfl
      simp [MemoryStorage.after, hne]
    | _ => exact ho.elim
  | _ =>
    have hc : w'.storage = w.storage := hs
    rw [KeepsRecords, hc]

/-! ## Up to ids and times -/

def Policy.untimed (p : Policy) : Policy := { p with deployedAt := 0 }

def PolicyVersion.untimed (v : PolicyVersion) : PolicyVersion := { v with deployedAt := 0 }

def DeploymentRecord.untimed (d : DeploymentRecord) : DeploymentRecord :=
  { d with id := "", deployedAt := 0 }

namespace NodeRecords

/-- The records without the ids that were drawn and the times that were read for them. -/
def untimed (v : NodeRecords) : NodeRecords :=
  { v with
    policy := v.policy.map Policy.untimed
    versions := v.versions.map PolicyVersion.untimed
    deployments := v.deployments.map DeploymentRecord.untimed }

theorem untimed_storePolicy (v : NodeRecords) (policy : Policy) :
    (v.storePolicy policy).untimed = v.untimed.storePolicy policy.untimed := by
  simp [untimed, storePolicy, Policy.untimed, PolicyVersion.untimed]

theorem untimed_recordDeployment (v : NodeRecords) (record : DeploymentRecord) :
    (v.recordDeployment record).untimed = v.untimed.recordDeployment record.untimed := by
  simp [untimed, recordDeployment]

theorem untimed_setDeploying (v : NodeRecords) (deploying : Bool) :
    (v.setDeploying deploying).untimed = v.untimed.setDeploying deploying := rfl

/-! ## A deploy as a function -/

section Deploy

variable [Extern] (cfg : ControllerConfig)

/-- A deploy that finds its policy active. -/
def skip (v : NodeRecords) (nodeId hash : String) : DeployOutcome × NodeRecords :=
  let version := (v.versions.getLast?.map PolicyVersion.version).getD 0
  ({ success := true
     message := noChangeMessage
     warnings := []
     result := .success
     version := version },
   v.recordDeployment {
     id := ""
     nodeId := nodeId
     policyVersion := version
     policyHash := hash
     deployedAt := 0
     result := .success
     message := noChangeMessage })

/-- A deploy that stores its policy and asks the agent. -/
def forward (v : NodeRecords) (nodeId rulesYaml hash : String) (options : CompileOptions)
    (answer : AgentAnswer) : DeployOutcome × NodeRecords :=
  let version := v.versions.length + 1
  let (state, message, warnings, result) := concludeDeploy cfg answer
  ({ success := result == .success
     message := message
     warnings := warnings
     result := result
     version := version },
   ((((v.storePolicy (requestedPolicy nodeId rulesYaml hash 0 options)).updateNodeState
     .deploying).updateNodeState state).recordDeployment {
       id := ""
       nodeId := nodeId
       policyVersion := version
       policyHash := hash
       deployedAt := 0
       result := result
       message := message }))

/-- What a deploy reports and leaves, from the records of its node and the answer of the agent. -/
def deploy (v : NodeRecords) (node : Node) (rulesYaml : String) (options : CompileOptions)
    (answer : AgentAnswer) : DeployOutcome × NodeRecords :=
  let options := normalizeOptions options
  match ensureNodeCapabilities node options with
  | .error msg => (.rejected msg, v)
  | .ok () =>
    let hash := policyHash rulesYaml
    if node.state == .active &&
        v.policy.any (policyMatchesRequest · rulesYaml hash options) then
      v.skip node.nodeId hash
    else v.forward cfg node.nodeId rulesYaml hash options answer

/-- A deploy under the guard of its node: nothing if somebody else holds it. -/
def guardedDeploy (v : NodeRecords) (node : Node) (rulesYaml : String) (options : CompileOptions)
    (answer : AgentAnswer) : Option DeployOutcome × NodeRecords :=
  if v.deploying then (none, v)
  else
    let (outcome, v) := (v.setDeploying true).deploy cfg node rulesYaml options answer
    (some outcome, v.setDeploying false)

end Deploy

end NodeRecords

/-! ## The deploy does what the function says -/

/-- The agents that are asked answer so. -/
def answersAs (answer : AgentAnswer) : (o : Op) → o.Res → Bool
  | .deployRules _ _, r => decide (r = answer)
  | _, _ => true

section Restricted

variable [Extern] {ok : (o : Op) → o.Res → Bool}
  {R : World MemoryStorage → World MemoryStorage → Prop}
  {α : Type} {T : α → World MemoryStorage → Prop} {w : World MemoryStorage}

theorem restricted_op {o : Op} {f : o.Res → Proc α}
    (h : ∀ w₁, R w w₁ → ∀ x r w₂, World.exec x o w₁ = some (r, w₂, []) → ok o r = true →
      ((machine MemoryStorage).restrict ok).Ensures R (f r) T w₂) :
    ((machine MemoryStorage).restrict ok).Ensures R ((op o).bind f) T w := by
  intro w₁ hw₁ x r w₂ hx
  obtain ⟨hx, hok⟩ := Machine.restrict_exec.1 hx
  exact h w₁ hw₁ x r w₂ hx hok

theorem restricted_storage {c : StorageCall} {f : c.Res → Proc α}
    (h : ∀ w₁, R w w₁ → ∀ now, ((machine MemoryStorage).restrict ok).Ensures R
      (f (Storage.call now c w₁.storage).1) T
      { w₁ with storage := (Storage.call now c w₁.storage).2 }) :
    ((machine MemoryStorage).restrict ok).Ensures R
      (@Prog.bind Op Op.Res (no_index c.Res) α (storage c) f) T w := by
  intro w₁ hw₁ x r w₂ hx
  obtain ⟨hx, -⟩ := Machine.restrict_exec.1 hx
  cases hx
  exact h w₁ hw₁ x.now

theorem restricted_mark {m : Mark} {f : Unit → Proc α}
    (h : ∀ w₁, R w w₁ → ((machine MemoryStorage).restrict ok).Ensures R (f ()) T
      { w₁ with marks := w₁.marks ++ [m] }) :
    ((machine MemoryStorage).restrict ok).Ensures R ((mark m).bind f) T w := by
  intro w₁ hw₁ x r w₂ hx
  obtain ⟨hx, -⟩ := Machine.restrict_exec.1 hx
  cases hx
  exact h w₁ hw₁

end Restricted

theorem KeepsRecords.trans {n : String} {w w₁ w₂ : World MemoryStorage} (h : KeepsRecords n w w₁)
    (h' : KeepsRecords n w₁ w₂) : KeepsRecords n w w₂ := Eq.trans h' h

/-- The untimed records are what they were, too. -/
theorem KeepsRecords.untimed {n : String} {w w' : World MemoryStorage} {v : NodeRecords}
    (h : KeepsRecords n w w') (hw : (w.storage.recordsOf n).untimed = v) :
    (w'.storage.recordsOf n).untimed = v := by
  rw [h]
  exact hw

/-- The operation is a storage call. -/
def Op.isStorage : Op → Bool
  | .storage _ => true
  | _ => false

/-- What is no storage call keeps the records. -/
theorem keepsRecords_of_not_storage [Extern] {n : String} {o : Op} (ho : o.isStorage = false)
    {x : Ext} {w w' : World MemoryStorage} {r : o.Res} {new : List Request}
    (hx : World.exec x o w = some (r, w', new)) : KeepsRecords n w w' := by
  have hs := (World.stepped_of_exec hx).storage
  have hstorage : w'.storage = w.storage := by
    cases o with
    | storage c => cases ho
    | _ => exact hs
  rw [KeepsRecords, hstorage]

/-- A deploy came to its end with what the function says. -/
def EndsAs (n : String) (result : DeployOutcome × NodeRecords) (outcome : DeployOutcome)
    (w : World MemoryStorage) : Prop :=
  (outcome, (w.storage.recordsOf n).untimed) = result

section Deploys

variable [Extern] (cfg : ControllerConfig) {R : World MemoryStorage → World MemoryStorage → Prop}
  {n : String} {w : World MemoryStorage} {v : NodeRecords}

theorem skipRedeploy_ends (hR : ∀ w w', R w w' → KeepsRecords n w w')
    (hv : (w.storage.recordsOf n).untimed = v) {ok : (o : Op) → o.Res → Bool} {node : Node}
    (hn : node.nodeId = n) (hash : String) :
    ((machine MemoryStorage).restrict ok).Ensures R (skipRedeploy node hash)
      (EndsAs n (v.skip n hash)) w := by
  subst hn
  refine restricted_storage ?_
  intro w₁ hw₁ now
  have hversion : (((w₁.storage.versionsOf node.nodeId).reverse.take 1).head?.map
      PolicyVersion.version).getD 0 =
        (v.versions.getLast?.map PolicyVersion.version).getD 0 := by
    rw [← (hR _ _ hw₁).untimed hv]
    simp [MemoryStorage.recordsOf, NodeRecords.untimed, List.head?_take, List.getLast?_map]
    rfl
  refine restricted_op ?_
  intro w₂ hw₂ x id w₃ hx _
  refine restricted_op ?_
  intro w₄ hw₄ x' deployedAt w₅ hx' _
  refine restricted_storage ?_
  intro w₆ hw₆ now
  have hkeeps : KeepsRecords node.nodeId w w₆ :=
    ((((hR _ _ hw₁).trans (hR _ _ hw₂)).trans (keepsRecords_of_not_storage rfl hx)).trans
      ((hR _ _ hw₄).trans (keepsRecords_of_not_storage rfl hx'))).trans (hR _ _ hw₆)
  let version := (((w₁.storage.versionsOf node.nodeId).reverse.take 1).head?.map
    PolicyVersion.version).getD 0
  let record : DeploymentRecord :=
    ⟨id, node.nodeId, version, hash, deployedAt, .success, noChangeMessage⟩
  have hrecords : ((w₆.storage.recordDeployment record).2.recordsOf node.nodeId).untimed =
      v.recordDeployment record.untimed := by
    rw [← hkeeps.untimed hv, ← NodeRecords.untimed_recordDeployment]
    exact congrArg NodeRecords.untimed (w₆.storage.recordsOf_recordDeployment record)
  show (_, ((w₆.storage.recordDeployment record).2.recordsOf node.nodeId).untimed) = _
  rw [hrecords, NodeRecords.skip, ← hversion]
  rfl

theorem storeAndForward_ends (hR : ∀ w w', R w w' → KeepsRecords n w w')
    (hv : (w.storage.recordsOf n).untimed = v) {node : Node} (hn : node.nodeId = n)
    (rulesYaml hash : String) (options : CompileOptions) (answer : AgentAnswer) :
    ((machine MemoryStorage).restrict (answersAs answer)).Ensures R
      (storeAndForward cfg node rulesYaml hash options)
      (EndsAs n (v.forward cfg n rulesYaml hash options answer)) w := by
  subst hn
  refine restricted_op ?_
  intro w₁ hw₁ x deployedAt w₂ hx _
  refine restricted_storage ?_
  intro w₃ hw₃ now
  have h₃ : KeepsRecords node.nodeId w w₃ :=
    ((hR _ _ hw₁).trans (keepsRecords_of_not_storage rfl hx)).trans (hR _ _ hw₃)
  let n := node.nodeId
  let policy := requestedPolicy n rulesYaml hash deployedAt options
  have hversion : (w₃.storage.versionsOf n).length = v.versions.length := by
    show (w₃.storage.recordsOf n).versions.length = _
    rw [← hv, h₃]
    exact (List.length_map _).symm
  have hstored : ((w₃.storage.storePolicy policy).2.recordsOf n).untimed =
      v.storePolicy policy.untimed := by
    rw [← h₃.untimed hv, ← NodeRecords.untimed_storePolicy]
    exact congrArg NodeRecords.untimed (w₃.storage.recordsOf_storePolicy policy)
  -- the policy is stored, and the node is told to deploy
  refine restricted_storage ?_
  intro w₄ hw₄ now
  have h₄ := (hR _ _ hw₄).untimed hstored
  have hdeploying : ((w₄.storage.updateNodeState n .deploying).2.recordsOf n).untimed =
      (v.storePolicy policy.untimed).updateNodeState .deploying := by
    rw [← h₄, MemoryStorage.recordsOf_updateNodeState]
    rfl
  refine restricted_op ?_
  intro w₅ hw₅ x' answer' w₆ hx' hanswer
  obtain rfl : answer' = answer := of_decide_eq_true hanswer
  have h₆ := (keepsRecords_of_not_storage rfl hx').untimed ((hR _ _ hw₅).untimed hdeploying)
  -- the agent has answered, and the node is told the outcome
  refine restricted_storage ?_
  intro w₇ hw₇ now
  let state := (concludeDeploy cfg answer').1
  have h₇ := (hR _ _ hw₇).untimed h₆
  have hsettled : ((w₇.storage.updateNodeState n state).2.recordsOf n).untimed =
      ((v.storePolicy policy.untimed).updateNodeState .deploying).updateNodeState state := by
    rw [← h₇, MemoryStorage.recordsOf_updateNodeState]
    rfl
  refine restricted_op ?_
  intro w₈ hw₈ x'' id w₉ hx'' _
  have h₉ := (keepsRecords_of_not_storage rfl hx'').untimed ((hR _ _ hw₈).untimed hsettled)
  refine restricted_storage ?_
  intro w₁₀ hw₁₀ now
  let record : DeploymentRecord :=
    ⟨id, n, (w₃.storage.versionsOf n).length + 1, hash, deployedAt,
      (concludeDeploy cfg answer').2.2.2, (concludeDeploy cfg answer').2.1⟩
  have hrecorded : ((w₁₀.storage.recordDeployment record).2.recordsOf n).untimed =
      (((v.storePolicy policy.untimed).updateNodeState .deploying).updateNodeState
        state).recordDeployment record.untimed := by
    rw [← (hR _ _ hw₁₀).untimed h₉, ← NodeRecords.untimed_recordDeployment]
    exact congrArg NodeRecords.untimed (w₁₀.storage.recordsOf_recordDeployment record)
  show (_, ((w₁₀.storage.recordDeployment record).2.recordsOf n).untimed) = _
  rw [hrecorded, NodeRecords.forward, ← hversion]
  rfl

theorem deployToNode_ends (hR : ∀ w w', R w w' → KeepsRecords n w w')
    (hv : (w.storage.recordsOf n).untimed = v) {node : Node} (hn : node.nodeId = n)
    (rulesYaml : String) (options : CompileOptions) (answer : AgentAnswer) :
    ((machine MemoryStorage).restrict (answersAs answer)).Ensures R
      (deployToNode cfg node rulesYaml options)
      (EndsAs n (v.deploy cfg node rulesYaml options answer)) w := by
  refine restricted_mark ?_
  intro w₁ hw₁
  have h₁ := (hR _ _ hw₁).untimed hv
  refine Machine.ensures_bind.2 ?_
  refine Machine.Ensures.mono (Q := EndsAs n (v.deploy cfg node rulesYaml options answer)) ?_ ?_
  · cases hgate : ensureNodeCapabilities node (normalizeOptions options) with
    | error msg =>
      simp only [deployToNodeBody, NodeRecords.deploy, hgate]
      exact congrArg (Prod.mk _) h₁
    | ok u =>
      simp only [deployToNodeBody, NodeRecords.deploy, hgate]
      refine restricted_storage ?_
      intro w₂ hw₂ now
      have h₂ := (hR _ _ hw₂).untimed h₁
      -- whether the policy matches does not depend on when it was stored
      have hmatch : v.policy.any (policyMatchesRequest · rulesYaml (policyHash rulesYaml)
            (normalizeOptions options)) =
          (w₂.storage.policies.get? node.nodeId).any (policyMatchesRequest · rulesYaml
            (policyHash rulesYaml) (normalizeOptions options)) := by
        rw [← h₂, ← hn]
        show ((w₂.storage.policies.get? node.nodeId).map Policy.untimed).any _ = _
        rw [Option.any_map]
        rfl
      show ((machine MemoryStorage).restrict (answersAs answer)).Ensures R
        (if node.state == .active && (w₂.storage.policies.get? node.nodeId).any
            (policyMatchesRequest · rulesYaml (policyHash rulesYaml)
              (normalizeOptions options)) then
          skipRedeploy node (policyHash rulesYaml)
        else storeAndForward cfg node rulesYaml (policyHash rulesYaml) (normalizeOptions options))
        _ w₂
      rw [hmatch, hn]
      split
      · exact skipRedeploy_ends hR h₂ hn _
      · exact storeAndForward_ends cfg hR h₂ hn _ _ _ _
  · intro outcome w₂ hends
    refine restricted_mark ?_
    intro w₃ hw₃
    exact (congrArg (Prod.mk _) ((hR _ _ hw₃).untimed rfl)).trans hends

end Deploys

end PaciNet

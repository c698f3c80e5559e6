import PaciNet.Lib.Trace
import PaciNet.Proof.Runs
import PaciNet.Proof.Blocks

/-!
# The state a deploy leaves its node in

`deploy_to_node` tells its node that it is deploying and then, once the agent has answered, that
it is active or in error. Both updates go through the table of transitions, and what comes of them
is not looked at. Heartbeats and the reaper write the state of the node at any time, and a
heartbeat may set any state.

**Right after its last update the state agrees with the outcome exactly if the state before it was
one that the update may leave**: the state of the last heartbeat or stale mark to reach the node
since it was told to deploy, or else what the node was then.
-/

set_option autoImplicit false

namespace PaciNet

open Lib Machine

/-! ## Up to the last state update -/

/-- What `deploy_to_node` knows once it has updated the state of the node for the last time. -/
structure Settled where
  version : Nat
  hash : String
  deployedAt : DateTime
  message : String
  warnings : List String
  result : DeploymentResult

section Program

variable [Extern] (cfg : ControllerConfig)

/-- `storeAndForward` up to its last state update. -/
def forwardUntilSettled (node : Node) (rulesYaml hash : String) (options : CompileOptions) :
    Proc (Except DeployOutcome Settled) := do
  let deployedAt ← op .now
  match ← storage (.storePolicy (requestedPolicy node.nodeId rulesYaml hash deployedAt options)) with
  | .error e =>
    pure (.error (.rejected ("Failed to store policy: " ++ Extern.statusText e.toStatus)))
  | .ok version =>
    let _ ← storage (.updateNodeState node.nodeId .deploying)
    let answer ← op (.deployRules (agentUrl cfg node.agentAddress) ⟨rulesYaml, some options⟩)
    let (state, message, warnings, result) := concludeDeploy cfg answer
    let _ ← storage (.updateNodeState node.nodeId state)
    pure (.ok ⟨version, hash, deployedAt, message, warnings, result⟩)

/-- `deploy_to_node` up to its last state update, or to its end if it makes none. -/
def deployUntilSettled (node : Node) (rulesYaml : String) (options : CompileOptions) :
    Proc (Except DeployOutcome Settled) := do
  mark (.enterDeploy node.nodeId)
  let options := normalizeOptions options
  match ensureNodeCapabilities node options with
  | .error msg => pure (.error (.rejected msg))
  | .ok () =>
    let hash := policyHash rulesYaml
    match ← storage (.getPolicy node.nodeId) with
    | .error e =>
      pure (.error (.rejected ("Failed to read current policy: " ++ Extern.statusText e.toStatus)))
    | .ok currentPolicy =>
      if node.state == .active &&
          currentPolicy.any (policyMatchesRequest · rulesYaml hash options) then
        let outcome ← skipRedeploy node hash
        pure (.error outcome)
      else
        forwardUntilSettled cfg node rulesYaml hash options

/-- The rest of `deploy_to_node`. -/
def finishDeploy (node : Node) : Except DeployOutcome Settled → Proc DeployOutcome
  | .error outcome => do
    mark (.exitDeploy node.nodeId)
    pure outcome
  | .ok settled => do
    let id ← op .uuid
    let _ ← storage (.recordDeployment {
      id := id
      nodeId := node.nodeId
      policyVersion := settled.version
      policyHash := settled.hash
      deployedAt := settled.deployedAt
      result := settled.result
      message := settled.message })
    mark (.exitDeploy node.nodeId)
    pure {
      success := settled.result == .success
      message := settled.message
      warnings := settled.warnings
      result := settled.result
      version := settled.version }

/-- The two parts are `deploy_to_node`. -/
theorem deployToNode_eq (node : Node) (rulesYaml : String) (options : CompileOptions) :
    deployToNode cfg node rulesYaml options =
      (deployUntilSettled cfg node rulesYaml options).bind (finishDeploy node) := by
  simp only [deployToNode, deployUntilSettled, deployToNodeBody, Prog.bind_eq, Prog.bind_assoc]
  refine congrArg (Prog.call _) (funext fun _ => ?_)
  simp only [Prog.done_bind]
  cases hgate : ensureNodeCapabilities node (normalizeOptions options) with
  | error msg => rfl
  | ok u =>
    simp only [Prog.bind_assoc]
    refine congrArg (Prog.call _) (funext fun r => ?_)
    cases r with
    | error e => rfl
    | ok currentPolicy =>
      simp only [Prog.done_bind]
      split
      · rw [Prog.bind_assoc]
        rfl
      · refine congrArg (Prog.call _) (funext fun deployedAt => ?_)
        refine congrArg (Prog.call _) (funext fun r => ?_)
        cases r <;> rfl

end Program

/-! ## What reaches a node meanwhile -/

/-- A heartbeat, or the reaper marking stale nodes. -/
inductive Touch where
  | heartbeat (now : DateTime) (nodeId : String) (state : NodeState) (uptime : Nat)
  | markStale (now : DateTime) (threshold : Int)

/-- The storage call a touch comes down to. -/
def Touch.act (e : Touch) (w : World MemoryStorage) : World MemoryStorage :=
  { w with
    storage := match e with
      | .heartbeat now nodeId state uptime =>
        (Storage.call now (.updateHeartbeat nodeId state uptime) w.storage).2
      | .markStale now threshold => (Storage.call now (.markStaleNodes threshold) w.storage).2 }

/-- What a touch does to the record of a node. -/
def Touch.onNode : Touch → Node → Node
  | .heartbeat now nodeId state uptime, node =>
    if node.nodeId = nodeId then
      { node with lastHeartbeat := now, state := state, uptimeSeconds := uptime }
    else node
  | .markStale now threshold, node =>
    if MemoryStorage.isStale now threshold node then { node with state := .offline } else node

/-- What an operation of a deploy does to the record of a node. -/
def Op.onNode : Op → Node → Node
  | .storage (.updateNodeState nodeId state), node =>
    if node.nodeId = nodeId ∧ node.state.canTransitionTo state then { node with state := state }
    else node
  | _, node => node

theorem Op.onNode_nodeId (o : Op) (node : Node) : (o.onNode node).nodeId = node.nodeId := by
  unfold onNode
  split
  · split <;> rfl
  · rfl

/-- A trace of a deploy and what reached its node meanwhile. -/
abbrev DeployTrace := List (List Touch × Op)

/-- The record of a node after a trace. -/
def nodeAfter (t : DeployTrace) (node : Node) : Node := along Touch.onNode Op.onNode t node

/-- The record of a node just before the last operation of a trace. -/
def nodeBeforeLast (t : DeployTrace) (node : Node) : Node :=
  ((t.getLast?.map Prod.fst).getD []).foldl (fun n e => e.onNode n) (nodeAfter t.dropLast node)

theorem Touch.get?_act (e : Touch) (w : World MemoryStorage) (n : String) :
    (e.act w).storage.nodes.get? n = (w.storage.nodes.get? n).map e.onNode := by
  cases e with
  | heartbeat now nodeId state uptime =>
    simp only [act, MemoryStorage.call_snd, MemoryStorage.after, Table.get?_modify]
    cases hn : w.storage.nodes.get? n with
    | none => simp
    | some node =>
      have hid : node.nodeId = n := Table.key_of_get? hn
      by_cases h : n = nodeId <;> simp [h, onNode, hid]
  | markStale now threshold =>
    simp only [act, MemoryStorage.call_snd, MemoryStorage.after, MemoryStorage.markStaleNodes,
      Table.get?_mapAll]
    rfl

/-- An operation between the marks of a deploy, or one of the marks. -/
def DeployOp (n : String) (o : Op) : Prop :=
  DeployBodyOp n o ∨ o = .mark (.enterDeploy n) ∨ o = .mark (.exitDeploy n)

/-- Only `update_node_state` changes the record of a node. -/
theorem get?_of_deployOp [Extern] {k n : String} {o : Op} (ho : DeployOp k o) {x : Ext}
    {w w' : World MemoryStorage} {r : o.Res} (hx : World.exec x o w = some (r, w', [])) :
    w'.storage.nodes.get? n = (w.storage.nodes.get? n).map o.onNode := by
  have hs := (World.stepped_of_exec hx).storage
  have same : ∀ m : Option Node, m = m.map fun node => node := fun m => by simp
  rcases ho with ho | rfl | rfl
  · cases o with
    | storage c =>
      have hc : w'.storage = (Storage.call x.now c w.storage).2 := congrArg Prod.snd hs
      rw [MemoryStorage.call_snd] at hc
      rw [hc]
      cases c with
      | updateNodeState nodeId state =>
        simp only [MemoryStorage.after, Table.get?_modify]
        cases hn : w.storage.nodes.get? n with
        | none => simp
        | some node =>
          have hid : node.nodeId = n := Table.key_of_get? hn
          by_cases h : n = nodeId <;> simp [h, Op.onNode, hid]
      | getPolicy _ | getPolicyHistory _ _ | storePolicy _ | recordDeployment _ => exact same _
      | _ => exact ho.elim
    | mark m => exact ho.elim
    | _ =>
      have hc : w'.storage = w.storage := hs
      rw [hc]
      exact same _
  all_goals
    have hc : w'.storage = w.storage := hs
    rw [hc]
    exact same _

section Runs

variable [Extern] (cfg : ControllerConfig) {w w' : World MemoryStorage} {node : Node}
  {rulesYaml : String} {options : CompileOptions} {t : DeployTrace} {settled : Settled}

/-- A run of `deploy_to_node` up to its last state update, with what reached the nodes. -/
abbrev SettledRun (node : Node) (rulesYaml : String) (options : CompileOptions)
    (w : World MemoryStorage) (t : DeployTrace) (settled : Settled) (w' : World MemoryStorage) :
    Prop :=
  (machine MemoryStorage).Traced Touch.act (deployUntilSettled cfg node rulesYaml options) w t
    (.ok settled) w'

/-- What `deploy_to_node` performs, its first part performs. -/
theorem deployUntilSettled_calls :
    (deployUntilSettled cfg node rulesYaml options).Calls (DeployOp node.nodeId) := by
  have hall : (deployToNode cfg node rulesYaml options).Calls (DeployOp node.nodeId) :=
    calls_mark.2 ⟨.inr (.inl rfl), .bind ((deployToNodeBody_calls cfg node rulesYaml options).mono
      fun _ ho => .inl ho) fun _ => calls_mark.2 ⟨.inr (.inr rfl), trivial⟩⟩
  rw [deployToNode_eq] at hall
  exact hall.of_bind

/-- The state `deploy_to_node` writes for what came of the deploy. -/
def expectedState : DeploymentResult → NodeState
  | .success => .active
  | .agentFailure | .agentUnreachable | .timeout => .error

omit [Extern] in
theorem concludeDeploy_state (answer : AgentAnswer) :
    (concludeDeploy cfg answer).1 = expectedState (concludeDeploy cfg answer).2.2.2 := by
  cases answer with
  | response r => cases h : r.success <;> simp [concludeDeploy, h, expectedState]
  | failed err => rfl
  | elapsed => rfl

/-- The last operation of the run is the last state update. -/
theorem forwardUntilSettled_last {hash : String}
    (h : (machine MemoryStorage).Traced Touch.act
      (forwardUntilSettled cfg node rulesYaml hash options) w t (.ok settled) w') :
    ∃ t₀ es, t = t₀ ++ [(es, .storage (.updateNodeState node.nodeId
      (expectedState settled.result)))] := by
  obtain ⟨es₁, x₁, deployedAt, w₁, t₁, rfl, -, h⟩ := h.call_inv
  obtain ⟨es₂, x₂, r, w₂, t₂, rfl, -, h⟩ := h.call_inv
  cases r with
  | error e => exact nomatch h.done_inv.2.1
  | ok version =>
    obtain ⟨es₃, x₃, r₃, w₃, t₃, rfl, -, h⟩ := h.call_inv
    obtain ⟨es₄, x₄, answer, w₄, t₄, rfl, -, h⟩ := h.call_inv
    obtain ⟨es₅, x₅, r₅, w₅, t₅, rfl, -, h⟩ := h.call_inv
    obtain ⟨rfl, hsettled, -⟩ := h.done_inv
    have hresult : settled.result = (concludeDeploy cfg answer).2.2.2 :=
      congrArg Settled.result (Except.ok.inj hsettled)
    rw [hresult, ← concludeDeploy_state]
    exact ⟨[_, _, _, _], es₅, rfl⟩

theorem deployUntilSettled_last (h : SettledRun cfg node rulesYaml options w t settled w') :
    ∃ t₀ es, t = t₀ ++ [(es, .storage (.updateNodeState node.nodeId
      (expectedState settled.result)))] := by
  obtain ⟨es, x, r, w₁, t₁, rfl, -, h⟩ := h.call_inv
  simp only [Prog.done_bind] at h
  split at h
  · exact nomatch h.done_inv.2.1
  · obtain ⟨es', x', r', w₂, t₂, rfl, -, h⟩ := h.call_inv
    cases r' with
    | error e => exact nomatch h.done_inv.2.1
    | ok currentPolicy =>
      simp only [Prog.done_bind] at h
      split at h
      · obtain ⟨u₁, u₂, outcome, w₃, rfl, -, h⟩ := h.bind_inv
        exact nomatch h.done_inv.2.1
      · obtain ⟨t₀, es₀, rfl⟩ := forwardUntilSettled_last cfg h
        exact ⟨(es, _) :: (es', _) :: t₀, es₀, rfl⟩

end Runs

/-! ## The state after the last update -/

/-- The states that the last update may leave for what it writes, and what it writes. -/
def Ready : DeploymentResult → NodeState → Prop
  | .success, s => s = .deploying ∨ s = .active
  | _, s => s ≠ .registered ∧ s ≠ .offline

/-- An update writes its state or finds it there, exactly if the state before is ready for it. -/
theorem update_iff_ready (result : DeploymentResult) (s : NodeState) :
    (if s.canTransitionTo (expectedState result) then expectedState result else s) =
      expectedState result ↔ Ready result s := by
  cases result <;> cases s <;> simp [expectedState, Ready] <;> decide

/-- **The stored state agrees with the outcome right after the last update, if and only if the
    node is ready for it just before**: whatever its initial state, the agent's answer, and the
    heartbeats and stale marks that arrive. -/
theorem deployAgrees_iff [Extern] (cfg : ControllerConfig) {w w' : World MemoryStorage}
    {node node₀ : Node} {rulesYaml : String} {options : CompileOptions} {t : DeployTrace}
    {settled : Settled} (h : SettledRun cfg node rulesYaml options w t settled w')
    (hnode : w.storage.nodes.get? node.nodeId = some node₀) :
    (∃ n, w'.storage.nodes.get? node.nodeId = some n ∧ n.state = expectedState settled.result) ↔
      Ready settled.result (nodeBeforeLast t node₀).state := by
  have hview : w'.storage.nodes.get? node.nodeId = some (nodeAfter t node₀) := by
    rw [nodeAfter, ← along_some, ← hnode]
    exact h.view (fun w => w.storage.nodes.get? node.nodeId) _ _
      (fun e w => e.get?_act w node.nodeId) (fun o ho x w r w₂ hx => get?_of_deployOp ho hx)
      (deployUntilSettled_calls cfg)
  -- the run ends with the update, so the record after it is the update of the one before it
  obtain ⟨t₀, es, rfl⟩ := deployUntilSettled_last cfg h
  obtain ⟨n, hn⟩ : ∃ n, n = nodeBeforeLast (t₀ ++ [(es, .storage (.updateNodeState node.nodeId
    (expectedState settled.result)))]) node₀ := ⟨_, rfl⟩
  have hlast : nodeAfter (t₀ ++ [(es, .storage (.updateNodeState node.nodeId
      (expectedState settled.result)))]) node₀ =
      Op.onNode (.storage (.updateNodeState node.nodeId (expectedState settled.result))) n := by
    rw [hn]
    simp [nodeAfter, nodeBeforeLast]
  have hid : n.nodeId = node.nodeId := by
    rw [← Table.key_of_get? hview, hlast, Op.onNode_nodeId]
  rw [← hn, hview, hlast, ← update_iff_ready]
  simp only [Option.some.injEq, exists_eq_left', Op.onNode, hid, true_and]
  split <;> rfl

/-- A node "n1" that has registered, and its agent. -/
def registeredN1 : Node := .new 0 "n1" "host" "agent:1" ∅ "1.0"

/-- The controller once "n1" has registered, and its storage is as given. -/
def World.withAgent (storage : MemoryStorage) : World MemoryStorage :=
  { World.init storage with
    agents := (∅ : AList fun _ : String => AgentState).insert "http://agent:1" (.boot "n1") }

/-- The agent accepts; nothing reaches the node meanwhile. -/
def acceptedAlone : List (List Touch × Ext) :=
  List.replicate 7 ([], ⟨1, "d1", .answered (.ok ⟨true, "Compiled", []⟩)⟩)

instance : (result : DeploymentResult) → (s : NodeState) → Decidable (Ready result s)
  | .success, _ => inferInstanceAs (Decidable (_ ∨ _))
  | .agentFailure, _ | .agentUnreachable, _ | .timeout, _ => inferInstanceAs (Decidable (_ ∧ _))

/-- A node that has reported in is deployed to. -/
theorem deployAgrees_online :
    ∃ (t : DeployTrace) (settled : Settled) (w' : World MemoryStorage),
      @SettledRun .sample plainConfig registeredN1 "rules: [a]" .default
        (.withAgent ((MemoryStorage.new.registerNode registeredN1).2.updateHeartbeat
          0 "n1" .online 5).2) t settled w' ∧
      settled.result = .success ∧
      ∃ n, w'.storage.nodes.get? "n1" = some n ∧ n.state = expectedState settled.result := by
  obtain ⟨t, r, w', hrun, hcheck⟩ := exists_traced (@machine MemoryStorage .sample _) Touch.act
    acceptedAlone (@deployUntilSettled .sample plainConfig registeredN1 "rules: [a]" .default)
    (.withAgent ((MemoryStorage.new.registerNode registeredN1).2.updateHeartbeat 0 "n1" .online 5).2)
    (fun r => match r.2.1 with
      | .ok settled => decide (settled.result = .success ∧ Ready settled.result
          (nodeBeforeLast r.1 { registeredN1 with state := .online, uptimeSeconds := 5 }).state)
      | .error _ => false) (by decide +kernel)
  cases r with
  | error outcome => exact nomatch hcheck
  | ok settled =>
    obtain ⟨hresult, hready⟩ := of_decide_eq_true hcheck
    exact ⟨t, settled, w', hrun, hresult,
      (@deployAgrees_iff .sample plainConfig _ _ registeredN1 _ _ _ _ _ hrun rfl).2 hready⟩

/-- A node that has only registered is deployed to: its state stays what it was. -/
theorem not_deployAgrees : ¬ ∀ (w w' : World MemoryStorage) (node node₀ : Node) (t : DeployTrace)
    (settled : Settled), @SettledRun .sample plainConfig node "rules: [a]" .default w t settled w' →
      w.storage.nodes.get? node.nodeId = some node₀ →
      ∃ n, w'.storage.nodes.get? node.nodeId = some n ∧ n.state = expectedState settled.result := by
  intro h
  obtain ⟨t, r, w', hrun, hcheck⟩ := exists_traced (@machine MemoryStorage .sample _) Touch.act
    acceptedAlone (@deployUntilSettled .sample plainConfig registeredN1 "rules: [a]" .default)
    (.withAgent (MemoryStorage.new.registerNode registeredN1).2)
    (fun r => match r.2.1 with
      | .ok settled => decide (∀ n ∈ r.2.2.storage.nodes.get? "n1",
          n.state ≠ expectedState settled.result)
      | .error _ => false) (by decide +kernel)
  cases r with
  | error outcome => exact nomatch hcheck
  | ok settled =>
    obtain ⟨n, hn, hstate⟩ := h _ _ _ _ _ _ hrun rfl
    exact of_decide_eq_true hcheck n hn hstate

end PaciNet

import PaciNet.Lib.Mirror
import PaciNet.Proof.DryRun

/-!
# What a successful deploy says about the agent

`deploy_to_node` skips the agent when the node is active and its stored policy is the one that is
asked for. So the controller takes a node's state and stored policy for what its agent runs: a
mirror of the agents (`Lib.Mirror`). The two are written by different hands. A deploy stores the
policy before the agent answers, and whatever the answer, the agent's next heartbeat sets the
state to active if the agent runs anything at all.

**A deploy that reports success has its rules running** if heartbeats that report active come
from agents that run the stored policy, and no two nodes that are taken to run different things
share an agent.
-/

set_option autoImplicit false

namespace PaciNet

open Lib

/-! ## The mirror of the agents -/

/-- What the agent of a node is taken to run: a deploy of it is skipped. -/
def MemoryStorage.trusts (s : MemoryStorage) (node : Node) : Option DeployRulesRequest :=
  if node.state = .active then
    (s.policies.get? node.nodeId).map fun p => ⟨p.rulesYaml, some p.options⟩
  else none

/-- The nodes' beliefs about the agents at their addresses, and what those accepted last. -/
def World.mirror (cfg : ControllerConfig) (w : World MemoryStorage) :
    Mirror String String DeployRulesRequest where
  believed nodeId := (w.storage.nodes.get? nodeId).bind fun node =>
    (w.storage.trusts node).map fun req => (agentUrl cfg node.agentAddress, req)
  actual url := (w.agents.lookup url).bind AgentState.accepted

/-- The agent at the URL runs the rules: the last request it accepted carried them and these
    options. -/
def World.Runs (w : World MemoryStorage) (url : String) (req : DeployRulesRequest) : Prop :=
  ∃ a, w.agents.lookup url = some a ∧ a.activeRulesYaml = some req.rulesYaml ∧
    a.accepted = some req

/-- An agent's active rules are those of the last request it accepted. -/
def World.AgentsInStep (w : World MemoryStorage) : Prop :=
  ∀ url a, w.agents.lookup url = some a → a.activeRulesYaml = a.accepted.map (·.rulesYaml)

/-- An agent that accepted the request last runs its rules. -/
theorem World.AgentsInStep.runs {cfg : ControllerConfig} {w : World MemoryStorage} {url : String}
    {req : DeployRulesRequest} (h : w.AgentsInStep)
    (hactual : (w.mirror cfg).actual url = some req) : w.Runs url req := by
  obtain ⟨a, ha, haccepted⟩ := Option.bind_eq_some_iff.1 hactual
  refine ⟨a, ha, ?_, haccepted⟩
  rw [h url a ha, haccepted]
  rfl

/-! ### Agents -/

/-- The agents are as they were. -/
def Unmoved (w w' : World MemoryStorage) : Prop :=
  ∀ url, w'.agents.lookup url = w.agents.lookup url

/-- The agent at the URL accepted the request, and the others are as they were. -/
structure Accepts (w w' : World MemoryStorage) (url : String) (req : DeployRulesRequest) :
    Prop where
  runs : w'.Runs url req
  others : ∀ u, u ≠ url → w'.agents.lookup u = w.agents.lookup u

theorem Unmoved.actual {cfg : ControllerConfig} {w w' : World MemoryStorage} (h : Unmoved w w') :
    (w'.mirror cfg).actual = (w.mirror cfg).actual :=
  funext fun url => congrArg (fun a : Option AgentState => a.bind AgentState.accepted) (h url)

theorem Unmoved.inStep {w w' : World MemoryStorage} (h : Unmoved w w') (hw : w.AgentsInStep) :
    w'.AgentsInStep := fun url a ha => hw url a ((h url).symm.trans ha)

theorem Accepts.actual {cfg : ControllerConfig} {w w' : World MemoryStorage} {url : String}
    {req : DeployRulesRequest} (h : Accepts w w' url req) :
    (w'.mirror cfg).actual = Function.update (w.mirror cfg).actual url (some req) := by
  refine Function.eq_update_iff.2 ⟨?_, fun u hu => ?_⟩
  · obtain ⟨a, ha, -, haccepted⟩ := h.runs
    exact Option.bind_eq_some_iff.2 ⟨a, ha, haccepted⟩
  · exact congrArg (fun a : Option AgentState => a.bind AgentState.accepted) (h.others u hu)

theorem Accepts.inStep {w w' : World MemoryStorage} {url : String} {req : DeployRulesRequest}
    (h : Accepts w w' url req) (hw : w.AgentsInStep) : w'.AgentsInStep := by
  intro u a ha
  by_cases hu : u = url
  · subst hu
    obtain ⟨b, hb, hrules, haccepted⟩ := h.runs
    obtain rfl : a = b := Option.some.inj (ha.symm.trans hb)
    rw [hrules, haccepted]
    rfl
  · exact hw u a ((h.others u hu).symm.trans ha)

/-- An agent that is asked to deploy accepts the request or stays as it was. -/
theorem agentDeploys_cases [Extern] {w : World MemoryStorage} {url : String} {a : AgentState}
    (now : DateTime) (compile : Except String CompileResult) (req : DeployRulesRequest)
    (ha : w.agents.lookup url = some a) :
    ((w.agentDeploys now url a compile req).1.success = false ∧
        Unmoved w (w.agentDeploys now url a compile req).2) ∨
      ((w.agentDeploys now url a compile req).1.success = true ∧
        Accepts w (w.agentDeploys now url a compile req).2 url req) := by
  -- putting the agent back in its place moves nothing
  have hback : ∀ u, (w.agents.insert url a).lookup u = w.agents.lookup u := by
    intro u
    by_cases hu : u = url
    · rw [hu, AList.lookup_insert, ha]
    · exact AList.lookup_insert_ne hu
  cases compile with
  | error e => exact .inl ⟨rfl, hback⟩
  | ok result =>
    by_cases hresult : result.success = true
    · refine .inr ⟨hresult, ⟨⟨{ a with
          activePolicyHash := some (policyHash req.rulesYaml)
          activeRulesYaml := some req.rulesYaml
          deployedAt := some now
          accepted := some req }, ?_, rfl, rfl⟩, fun u hu => ?_⟩⟩
      · simp only [World.agentDeploys, AgentState.deployRules, if_pos hresult]
        exact AList.lookup_insert ..
      · simp only [World.agentDeploys, AgentState.deployRules, if_pos hresult]
        exact AList.lookup_insert_ne hu
    · refine .inl ⟨by simpa [World.agentDeploys, AgentState.deployRules] using hresult, ?_⟩
      simp only [World.agentDeploys, AgentState.deployRules, if_neg hresult]
      exact hback

/-! ### Storage -/

theorem World.believed_eq {cfg : ControllerConfig} {w w' : World MemoryStorage} {nodeId : String}
    (hnode : w'.storage.nodes.get? nodeId = w.storage.nodes.get? nodeId)
    (hpolicy : w'.storage.policies.get? nodeId = w.storage.policies.get? nodeId) :
    (w'.mirror cfg).believed nodeId = (w.mirror cfg).believed nodeId := by
  show (w'.storage.nodes.get? nodeId).bind _ = (w.storage.nodes.get? nodeId).bind _
  rw [hnode]
  refine Option.bind_congr fun node h => ?_
  have hid : node.nodeId = nodeId := Table.key_of_get? h
  simp only [MemoryStorage.trusts, hid, hpolicy]

/-- The mirror is about nodes, policies and agents. -/
theorem World.mirror_eq {cfg : ControllerConfig} {w w' : World MemoryStorage}
    (hnodes : w'.storage.nodes = w.storage.nodes)
    (hpolicies : w'.storage.policies = w.storage.policies) (h : Unmoved w w') :
    w'.mirror cfg = w.mirror cfg :=
  Mirror.ext (funext fun _ => World.believed_eq (by rw [hnodes]) (by rw [hpolicies])) h.actual

/-! ## One deploy -/

/-- A node that is told to deploy no longer counts as active, and it counts as active in the end
    only if it is told so. -/
theorem not_active_of_deploying (s t : NodeState) :
    let s₁ := if s.canTransitionTo .deploying then .deploying else s
    s₁ ≠ .active ∧ (t ≠ .active → (if s₁.canTransitionTo t then t else s₁) ≠ .active) := by
  cases s <;> cases t <;> decide

/-- The storage once a deploy has stored the policy and told the node to deploy and then to be in
    the state `t`. -/
def MemoryStorage.deployed (s : MemoryStorage) (policy : Policy) (t : NodeState) : MemoryStorage :=
  (((s.storePolicy policy).2.updateNodeState policy.nodeId .deploying).2.updateNodeState
    policy.nodeId t).2

theorem MemoryStorage.deployed_policies (s : MemoryStorage) (policy : Policy) (t : NodeState) :
    (s.deployed policy t).policies = s.policies.insert policy := by
  simp [deployed, updateNodeState_snd, storePolicy]

theorem MemoryStorage.deployed_other (s : MemoryStorage) {policy : Policy} {l : String}
    (t : NodeState) (h : l ≠ policy.nodeId) :
    (s.deployed policy t).nodes.get? l = s.nodes.get? l := by
  simp [deployed, updateNodeState_snd, storePolicy, h]

theorem MemoryStorage.deployed_self {s : MemoryStorage} {policy : Policy} {node : Node}
    (t : NodeState) (h : s.nodes.get? policy.nodeId = some node) :
    ∃ state, (s.deployed policy t).nodes.get? policy.nodeId = some { node with state := state } ∧
      (t ≠ .active → state ≠ .active) := by
  obtain ⟨-, hnot⟩ := not_active_of_deploying node.state t
  refine ⟨_, ?_, hnot⟩
  simp only [deployed, updateNodeState_snd, storePolicy, Table.get?_modify, if_pos, h,
    Option.map_some, Option.some.injEq]
  split <;> split <;> rfl

/-- What a deploy that has stored its policy makes of the nodes' beliefs. -/
theorem World.believed_deployed (cfg : ControllerConfig) {w w' : World MemoryStorage} {node : Node}
    (policy : Policy) (t : NodeState) (hnode : w.storage.nodes.get? policy.nodeId = some node)
    (hstorage : w'.storage = w.storage.deployed policy t) :
    (∀ l, l ≠ policy.nodeId → (w'.mirror cfg).believed l = (w.mirror cfg).believed l) ∧
      ((w'.mirror cfg).believed policy.nodeId = none ∨
        t = .active ∧ (w'.mirror cfg).believed policy.nodeId =
          some (agentUrl cfg node.agentAddress, ⟨policy.rulesYaml, some policy.options⟩)) := by
  constructor
  · intro l hl
    refine World.believed_eq (by rw [hstorage, MemoryStorage.deployed_other _ _ hl]) ?_
    rw [hstorage, MemoryStorage.deployed_policies, Table.get?_insert_ne hl]
  · obtain ⟨state, hget, hactive⟩ := MemoryStorage.deployed_self t hnode
    have hid : node.nodeId = policy.nodeId := Table.key_of_get? hnode
    have hbelieved : (w'.mirror cfg).believed policy.nodeId =
        if state = .active then
          some (agentUrl cfg node.agentAddress, ⟨policy.rulesYaml, some policy.options⟩)
        else none := by
      simp only [World.mirror, hstorage, hget, MemoryStorage.trusts, Option.bind_some, hid,
        MemoryStorage.deployed_policies, Table.get?_insert_self]
      split <;> rfl
    by_cases hstate : state = .active
    · exact .inr ⟨by_contra fun ht => hactive ht hstate, by rw [hbelieved, if_pos hstate]⟩
    · exact .inl (by rw [hbelieved, if_neg hstate])

/-- What a deploy to a node leaves behind. -/
inductive DeployEffect (cfg : ControllerConfig) (node : Node) (req : DeployRulesRequest)
    (w : World MemoryStorage) (success : Bool) (w' : World MemoryStorage) : Prop
  /-- It was refused, or skipped because the node is taken to run the rules. -/
  | skipped (hmirror : w'.mirror cfg = w.mirror cfg) (hagents : Unmoved w w')
      (hsuccess : success = true → (w.mirror cfg).believed node.nodeId =
        some (agentUrl cfg node.agentAddress, req))
  /-- It was not accepted, and nothing is taken for granted about the node. -/
  | failed (hbelieved : (w'.mirror cfg).believed node.nodeId = none)
      (hrest : ∀ l, l ≠ node.nodeId → (w'.mirror cfg).believed l = (w.mirror cfg).believed l)
      (hagents : Unmoved w w') (hfailed : success = false)
  /-- It was accepted. -/
  | accepted (hbelieved : (w'.mirror cfg).believed node.nodeId = none ∨
        (w'.mirror cfg).believed node.nodeId = some (agentUrl cfg node.agentAddress, req))
      (hrest : ∀ l, l ≠ node.nodeId → (w'.mirror cfg).believed l = (w.mirror cfg).believed l)
      (hagents : Accepts w w' (agentUrl cfg node.agentAddress) req)

section Deploy

variable [Extern] (cfg : ControllerConfig) {w : World MemoryStorage} {node : Node}

theorem skipRedeploy_effect {req : DeployRulesRequest} (hash : String)
    (hbelieved : (w.mirror cfg).believed node.nodeId =
      some (agentUrl cfg node.agentAddress, req)) :
    (machine MemoryStorage).Ensures Eq (skipRedeploy node hash)
      (fun outcome w' => DeployEffect cfg node req w outcome.success w') w := by
  refine ensures_storage.2 ?_
  rintro _ rfl now
  refine ensures_op.2 ?_
  rintro _ rfl x id w₂ hx
  simp only [World.exec] at hx
  split at hx
  · exact absurd hx (by simp)
  · cases hx
    refine ensures_op.2 ?_
    rintro _ rfl x at_ w₃ hx
    cases hx
    refine ensures_storage.2 ?_
    rintro _ rfl now
    exact .skipped rfl (fun _ => rfl) fun _ => hbelieved

/-- What the agent makes of a deploy, and what the deploy makes of the answer. -/
theorem concludeDeploy_effect {x : Ext} {url : String} {req : DeployRulesRequest}
    {answer : AgentAnswer} {w₂ : World MemoryStorage}
    (hx : World.exec x (.deployRules url req) w = some (answer, w₂, [])) :
    w₂.storage = w.storage ∧
      ((concludeDeploy cfg answer).1 ≠ .active ∧
          ((concludeDeploy cfg answer).2.2.2 == .success) = false ∧ Unmoved w w₂ ∨
        Accepts w w₂ url req) := by
  refine ⟨(World.stepped_of_exec hx).storage, ?_⟩
  have hstrand : ∀ reached, Unmoved w ((w.send url req).strand url req reached) := by
    intro reached u
    cases reached <;> rfl
  simp only [World.exec] at hx
  split at hx
  · rename_i compile _
    split at hx
    · exact absurd hx (by simp)
    · rename_i a ha
      cases hx
      rcases agentDeploys_cases x.now compile req ha with
        ⟨hfailed, hagents⟩ | ⟨-, hagents⟩
      · refine .inl ?_
        simp only [concludeDeploy, hfailed]
        exact ⟨NodeState.noConfusion, rfl, hagents⟩
      · exact .inr ⟨hagents.runs, hagents.others⟩
  · cases hx
    exact .inl ⟨by simp [concludeDeploy], rfl, hstrand _⟩
  · cases hx
    exact .inl ⟨by simp [concludeDeploy], rfl, hstrand _⟩

theorem storeAndForward_effect (hnode : w.storage.nodes.get? node.nodeId = some node)
    (rulesYaml hash : String) (options : CompileOptions) :
    (machine MemoryStorage).Ensures Eq (storeAndForward cfg node rulesYaml hash options)
      (fun outcome w' =>
        DeployEffect cfg node ⟨rulesYaml, some options⟩ w outcome.success w') w := by
  refine ensures_op.2 ?_
  rintro _ rfl x deployedAt w₁ hx
  cases hx
  refine ensures_storage.2 ?_
  rintro _ rfl now
  refine ensures_storage.2 ?_
  rintro _ rfl now
  refine ensures_op.2 ?_
  rintro _ rfl x' answer w₂ hx
  obtain ⟨hstorage, hanswer⟩ := concludeDeploy_effect cfg hx
  refine ensures_storage.2 ?_
  rintro _ rfl now
  refine ensures_op.2 ?_
  rintro _ rfl x'' id w₃ hx'
  simp only [World.exec] at hx'
  split at hx'
  · exact absurd hx' (by simp)
  · cases hx'
    refine ensures_storage.2 ?_
    rintro _ rfl now
    -- the storage after the two state updates, and what it makes of the beliefs
    let w₄ : World MemoryStorage := { w₂ with
      storage := (w₂.storage.updateNodeState node.nodeId (concludeDeploy cfg answer).1).2 }
    let policy := requestedPolicy node.nodeId rulesYaml hash x.now options
    have hstorage₄ : w₄.storage = w.storage.deployed policy (concludeDeploy cfg answer).1 := by
      show (w₂.storage.updateNodeState node.nodeId _).2 = _
      rw [hstorage]
      rfl
    obtain ⟨hrest, hself⟩ := World.believed_deployed cfg policy _ hnode hstorage₄
    rcases hanswer with ⟨hactive, hfailed, hagents⟩ | hagents
    · exact .failed (hself.resolve_right fun h => hactive h.1) hrest hagents hfailed
    · exact .accepted (hself.imp_right fun h => h.2) hrest ⟨hagents.runs, hagents.others⟩

theorem deployToNodeBody_effect (hnode : w.storage.nodes.get? node.nodeId = some node)
    (rulesYaml : String) (options : CompileOptions) :
    (machine MemoryStorage).Ensures Eq (deployToNodeBody cfg node rulesYaml options)
      (fun outcome w' => DeployEffect cfg node ⟨rulesYaml, some (normalizeOptions options)⟩ w
        outcome.success w') w := by
  have hsame : DeployEffect cfg node ⟨rulesYaml, some (normalizeOptions options)⟩ w false w :=
    .skipped rfl (fun _ => rfl) fun h => absurd h (by decide)
  simp only [deployToNodeBody]
  split
  · exact hsame
  · refine ensures_storage.2 ?_
    rintro _ rfl now
    show (machine MemoryStorage).Ensures Eq
      (if node.state == .active && (w.storage.policies.get? node.nodeId).any
          (policyMatchesRequest · rulesYaml (policyHash rulesYaml) (normalizeOptions options)) then
        skipRedeploy node (policyHash rulesYaml)
      else storeAndForward cfg node rulesYaml (policyHash rulesYaml) (normalizeOptions options)) _ w
    split
    · rename_i hsame
      obtain ⟨hactive, hmatches⟩ := Bool.and_eq_true_iff.1 hsame
      obtain ⟨policy, hpolicy, hmatches⟩ := (Option.any_eq_true _ _).1 hmatches
      obtain ⟨hrules, -, hoptions⟩ := policyMatchesRequest_iff.1 hmatches
      refine skipRedeploy_effect cfg _ ?_
      simp only [World.mirror, hnode, Option.bind_some, MemoryStorage.trusts, beq_iff_eq.1 hactive,
        if_pos, hpolicy, Option.map_some, hrules, hoptions]
    · exact storeAndForward_effect cfg hnode rulesYaml _ _

theorem deployToNode_effect (hnode : w.storage.nodes.get? node.nodeId = some node)
    (rulesYaml : String) (options : CompileOptions) :
    (machine MemoryStorage).Ensures Eq (deployToNode cfg node rulesYaml options)
      (fun outcome w' => DeployEffect cfg node ⟨rulesYaml, some (normalizeOptions options)⟩ w
        outcome.success w') w := by
  refine ensures_mark.2 ?_
  rintro _ rfl
  refine Machine.ensures_bind.2 (Machine.Ensures.mono
    (deployToNodeBody_effect cfg (w := { w with marks := w.marks ++ [.enterDeploy node.nodeId] })
      hnode rulesYaml options) fun outcome w₁ heffect => ?_)
  refine ensures_mark.2 ?_
  rintro _ rfl
  cases heffect with
  | skipped hmirror hagents hsuccess => exact .skipped hmirror hagents hsuccess
  | failed hbelieved hrest hagents hfailed => exact .failed hbelieved hrest hagents hfailed
  | accepted hbelieved hrest hagents =>
    exact .accepted hbelieved hrest ⟨hagents.runs, hagents.others⟩

end Deploy

/-- A deploy that reports success has its rules running, if the mirror was coherent before. -/
theorem DeployEffect.runs {cfg : ControllerConfig} {node : Node} {req : DeployRulesRequest}
    {w w' : World MemoryStorage} {success : Bool} (h : DeployEffect cfg node req w success w')
    (hcoherent : (w.mirror cfg).Coherent) (hagents : w.AgentsInStep) (hsuccess : success = true) :
    w'.Runs (agentUrl cfg node.agentAddress) req := by
  cases h with
  | skipped _ hunmoved hbelieved =>
    have hactual := hcoherent _ _ _ (hbelieved hsuccess)
    exact (hunmoved.inStep hagents).runs (hunmoved.actual ▸ hactual)
  | failed _ _ _ hfailed => exact absurd (hsuccess.symm.trans hfailed) (by decide)
  | accepted _ _ haccepts => exact haccepts.runs

/-- A deploy moves the mirror, if no other node at the address is taken to run something else. -/
theorem DeployEffect.steps {cfg : ControllerConfig} {node : Node} {req : DeployRulesRequest}
    {w w' : World MemoryStorage} {success : Bool} (h : DeployEffect cfg node req w success w')
    (hshared : ∀ l u, l ≠ node.nodeId →
      (w.mirror cfg).believed l = some (agentUrl cfg node.agentAddress, u) → u = req) :
    (w.mirror cfg).Steps (w'.mirror cfg) := by
  cases h with
  | skipped hmirror _ _ =>
    rw [hmirror]
  | failed hbelieved hrest hunmoved _ => exact .forgetting hbelieved hrest hunmoved.actual
  | accepted hbelieved hrest haccepts => exact .deploying hbelieved hrest haccepts.actual hshared

theorem DeployEffect.inStep {cfg : ControllerConfig} {node : Node} {req : DeployRulesRequest}
    {w w' : World MemoryStorage} {success : Bool} (h : DeployEffect cfg node req w success w')
    (hagents : w.AgentsInStep) : w'.AgentsInStep := by
  cases h with
  | skipped _ hunmoved _ => exact hunmoved.inStep hagents
  | failed _ _ hunmoved _ => exact hunmoved.inStep hagents
  | accepted _ _ haccepts => exact haccepts.inStep hagents

/-! ## Sequences of events -/

/-- What happens to a controller and its agents, one thing after the other. -/
inductive Event where
  /-- An agent registers and starts. -/
  | register (req : RegisterNodeRequest)
  /-- The agent at the URL sends a heartbeat. -/
  | heartbeat (url : String) (uptime : Nat)
  | deployPolicy (req : DeployPolicyRequest)
  | rollbackPolicy (nodeId : String) (targetVersion : Nat)
  /-- An agent completes a request whose answer did not come back in time. -/
  | complete (now : DateTime) (k : Nat) (compile : Except String CompileResult)

/-- The world after the event, given what the outside decides at each of its operations. -/
def Event.happen [Extern] (cfg : ControllerConfig) (xs : List Ext) (w : World MemoryStorage) :
    Event → Option (World MemoryStorage)
  | .register req =>
    match (machine MemoryStorage).eval xs (registerNode cfg req) w with
    | some (.ok resp, w') => some { w' with
        agents := w'.agents.insert (agentUrl cfg req.agentAddress) (.boot resp.nodeId) }
    | _ => none
  | .heartbeat url uptime =>
    (w.agents.lookup url).bind fun a =>
      ((machine MemoryStorage).eval xs (PaciNet.heartbeat cfg (a.heartbeat uptime)) w).map Prod.snd
  | .deployPolicy req =>
    ((machine MemoryStorage).eval xs (PaciNet.deployPolicy cfg req) w).map Prod.snd
  | .rollbackPolicy nodeId targetVersion =>
    ((machine MemoryStorage).eval xs (PaciNet.rollbackPolicy cfg nodeId targetVersion) w).map
      Prod.snd
  | .complete now k compile => some (w.completes now k compile)

/-- A sequence of events, each of which meets the condition in the state before it. -/
abbrev Sequence [Extern] (cfg : ControllerConfig) (C : World MemoryStorage → Event → Prop) :
    World MemoryStorage → World MemoryStorage → Prop :=
  Relation.ReflTransGen fun w w' => ∃ e xs, C w e ∧ e.happen cfg xs w = some w'

/-- **A deploy that reports success has its rules running** at its node's agent, in every state a
    sequence of events leads to. The node is the stored one, and any guards may be held. -/
def DeploySound [Extern] (cfg : ControllerConfig) (C : World MemoryStorage → Event → Prop) : Prop :=
  ∀ w, Sequence cfg C (.init .new) w →
    ∀ (deploying : Finset String) (node : Node) (rulesYaml : String) (options : CompileOptions)
      (outcome : DeployOutcome) (w' : World MemoryStorage),
      w.storage.nodes.get? node.nodeId = some node →
      (machine MemoryStorage).Exec Eq (deployToNode cfg node rulesYaml options)
        { w with storage := { w.storage with deploying := deploying } } outcome w' →
      outcome.success = true →
      w'.Runs (agentUrl cfg node.agentAddress) ⟨rulesYaml, some (normalizeOptions options)⟩

/-! ### The condition -/

/-- Every node at the URL, but the one with the given id, that is taken to run something is taken
    to run this. -/
def World.AgreedOn (cfg : ControllerConfig) (w : World MemoryStorage) (nodeId : Option String)
    (url : String) (req : DeployRulesRequest) : Prop :=
  ∀ node ∈ w.storage.nodes.rows, some node.nodeId ≠ nodeId → agentUrl cfg node.agentAddress = url →
    ∀ u ∈ w.storage.trusts node, u = req

/-- A deploy of these rules to the node is one its neighbours at the address agree on. -/
def World.Shares (cfg : ControllerConfig) (w : World MemoryStorage) (nodeId : String)
    (req : DeployRulesRequest) : Prop :=
  ∀ node ∈ w.storage.nodes.get? nodeId,
    w.AgreedOn cfg (some nodeId) (agentUrl cfg node.agentAddress) req

/-- The version a rollback goes to, if it goes to one. -/
def RollbackChoice.chosen : RollbackChoice → Option PolicyVersion
  | .version target => some target
  | _ => none

/-- What makes the controller's picture of the agents true also after the event. -/
def Faithful (cfg : ControllerConfig) (w : World MemoryStorage) : Event → Prop
  -- no node is taken to run anything at the address where a new agent starts
  | .register req => ∀ node ∈ w.storage.nodes.rows,
      agentUrl cfg node.agentAddress = agentUrl cfg req.agentAddress →
        w.storage.trusts node = none
  -- who reports active runs the policy that is stored for its node
  | .heartbeat url _ => ∀ a ∈ w.agents.lookup url, a.reportedState = .active →
      ∀ node ∈ w.storage.nodes.get? a.nodeId, ∀ policy ∈ w.storage.policies.get? a.nodeId,
        (w.mirror cfg).actual (agentUrl cfg node.agentAddress) =
          some ⟨policy.rulesYaml, some policy.options⟩
  | .deployPolicy req => w.Shares cfg req.nodeId
      ⟨req.rulesYaml, some (normalizeOptions (req.options.getD .default))⟩
  | .rollbackPolicy nodeId targetVersion =>
    ∀ target ∈ (chooseRollback targetVersion
        ((w.storage.versionsOf nodeId).reverse.take 10)).chosen,
      w.Shares cfg nodeId ⟨target.rulesYaml, some (normalizeOptions target.options)⟩
  -- a late success is one the nodes at the address agree on
  | .complete _ k compile => ∀ r ∈ w.inflight[k]?, compile.toOption.any CompileResult.success →
      w.AgreedOn cfg none r.1 r.2

theorem World.believed_iff {cfg : ControllerConfig} {w : World MemoryStorage} {l url : String}
    {u : DeployRulesRequest} : (w.mirror cfg).believed l = some (url, u) ↔
      ∃ node ∈ w.storage.nodes.rows, node.nodeId = l ∧ agentUrl cfg node.agentAddress = url ∧
        w.storage.trusts node = some u := by
  show (w.storage.nodes.get? l).bind _ = some (url, u) ↔ _
  rw [Option.bind_eq_some_iff]
  constructor
  · rintro ⟨node, hnode, htrusts⟩
    obtain ⟨hmem, hid⟩ := Table.get?_eq_some.1 hnode
    obtain ⟨v, hv, heq⟩ := Option.map_eq_some_iff.1 htrusts
    obtain ⟨rfl, rfl⟩ := Prod.mk.inj heq
    exact ⟨node, hmem, hid, rfl, hv⟩
  · rintro ⟨node, hmem, hid, rfl, hv⟩
    exact ⟨node, Table.get?_eq_some.2 ⟨hmem, hid⟩, Option.map_eq_some_iff.2 ⟨u, hv, rfl⟩⟩

/-! ### Every event moves the mirror -/

/-- The mirror moves, and the agents' rules stay those they accepted. -/
structure Follows (cfg : ControllerConfig) (w w' : World MemoryStorage) : Prop where
  steps : (w.mirror cfg).Steps (w'.mirror cfg)
  inStep : w.AgentsInStep → w'.AgentsInStep

theorem Follows.of_mirror_eq {cfg : ControllerConfig} {w w' : World MemoryStorage}
    (hmirror : w'.mirror cfg = w.mirror cfg) (h : Unmoved w w') : Follows cfg w w' :=
  ⟨hmirror ▸ .refl, h.inStep⟩

section Events

variable [Extern] (cfg : ControllerConfig) {w : World MemoryStorage}

/-- A deploy between taking and releasing a guard. -/
theorem deployToNode_follows {node : Node} {rulesYaml : String} {options : CompileOptions}
    (hnode : w.storage.nodes.get? node.nodeId = some node)
    (hshares : w.Shares cfg node.nodeId ⟨rulesYaml, some (normalizeOptions options)⟩) :
    (machine MemoryStorage).Ensures Eq (deployToNode cfg node rulesYaml options)
      (fun _ w' => Follows cfg w w') w := by
  refine (deployToNode_effect cfg hnode rulesYaml options).mono fun outcome w' heffect =>
    ⟨heffect.steps fun l u hl hu => ?_, heffect.inStep⟩
  obtain ⟨other, hmem, rfl, hurl, hu⟩ := World.believed_iff.1 hu
  exact hshares node hnode other hmem (fun h => hl (Option.some.inj h)) hurl u hu

/-- A call that only reads. -/
theorem ensures_read {α : Type} {T : α → World MemoryStorage → Prop} {c : StorageCall}
    {f : c.Res → Proc α} {r : c.Res}
    (hcall : ∀ now, Storage.call now c w.storage = (r, w.storage))
    (h : (machine MemoryStorage).Ensures Eq (f r) T w) :
    (machine MemoryStorage).Ensures Eq (@Prog.bind Op Op.Res (no_index c.Res) α (storage c) f) T w := by
  refine ensures_storage.2 ?_
  rintro _ rfl now
  rw [hcall now]
  exact h

/-- A deploy with its guard taken before it and released after it. -/
theorem guarded_follows {α : Type} {n rulesYaml : String} {node : Node} {options : CompileOptions}
    {k : StorageResult Unit → Proc α} {reply : DeployOutcome → α}
    (hnode : w.storage.nodes.get? n = some node)
    (hshares : w.Shares cfg n ⟨rulesYaml, some (normalizeOptions options)⟩)
    (hk : k (.ok ()) = (deployToNode cfg node rulesYaml options).bind fun outcome =>
      (storage (.endDeploy n)).bind fun _ => .done (reply outcome))
    (herr : ∀ e, ∃ a, k (.error e) = .done a) :
    (machine MemoryStorage).Ensures Eq ((storage (.beginDeploy n)).bind k)
      (fun _ w' => Follows cfg w w') w := by
  obtain rfl : node.nodeId = n := Table.key_of_get? hnode
  refine ensures_storage.2 ?_
  rintro _ rfl now
  show (machine MemoryStorage).Ensures Eq (k (w.storage.beginDeploy node.nodeId).1) _
    { w with storage := (w.storage.beginDeploy node.nodeId).2 }
  rw [MemoryStorage.beginDeploy_snd]
  cases (w.storage.beginDeploy node.nodeId).1 with
  | error e =>
    obtain ⟨a, ha⟩ := herr e
    rw [ha]
    exact .of_mirror_eq rfl fun _ => rfl
  | ok u =>
    rw [hk]
    refine Machine.ensures_bind.2 (Machine.Ensures.mono (deployToNode_follows cfg
      (w := { w with storage := { w.storage with
        deploying := insert node.nodeId w.storage.deploying } }) hnode hshares)
      fun outcome w' hw' => ensures_storage.2 ?_)
    rintro _ rfl now
    exact ⟨hw'.steps, hw'.inStep⟩

theorem deployPolicy_follows {req : DeployPolicyRequest}
    (h : w.Shares cfg req.nodeId
      ⟨req.rulesYaml, some (normalizeOptions (req.options.getD .default))⟩) :
    (machine MemoryStorage).Ensures Eq (deployPolicy cfg req) (fun _ w' => Follows cfg w w') w := by
  refine ensures_read (r := .ok (w.storage.nodes.get? req.nodeId)) (fun _ => rfl) ?_
  cases hnode : w.storage.nodes.get? req.nodeId with
  | none => exact .of_mirror_eq rfl fun _ => rfl
  | some node =>
    exact guarded_follows cfg hnode h (Prog.bind_assoc _ _ _) fun e => ⟨_, rfl⟩

theorem rollbackPolicy_follows {nodeId : String} {targetVersion : Nat}
    (h : Faithful cfg w (.rollbackPolicy nodeId targetVersion)) :
    (machine MemoryStorage).Ensures Eq (rollbackPolicy cfg nodeId targetVersion)
      (fun _ w' => Follows cfg w w') w := by
  have hsame : Follows cfg w w := .of_mirror_eq rfl fun _ => rfl
  refine ensures_read (r := .ok (w.storage.nodes.get? nodeId)) (fun _ => rfl) ?_
  cases hnode : w.storage.nodes.get? nodeId with
  | none => exact hsame
  | some node =>
    refine ensures_read (r := .ok ((w.storage.versionsOf nodeId).reverse.take 10))
      (fun _ => rfl) ?_
    dsimp only
    cases hchoice : chooseRollback targetVersion ((w.storage.versionsOf nodeId).reverse.take 10) with
    | refused message => exact hsame
    | notFound message => exact hsame
    | version target =>
      have hshares := h target (by rw [hchoice]; rfl)
      exact guarded_follows cfg hnode hshares (Prog.bind_assoc _ _ _) fun e => ⟨_, rfl⟩

/-- Emitting an event touches neither the storage nor an agent. -/
theorem emitNode_keeps (e : DateTime → NodeEvent) {w₀ : World MemoryStorage}
    (h : w.storage = w₀.storage ∧ w.agents = w₀.agents) :
    (machine MemoryStorage).Ensures Eq (emitNode cfg e)
      (fun _ w' => w'.storage = w₀.storage ∧ w'.agents = w₀.agents) w := by
  unfold emitNode
  split
  · refine ensures_op.2 ?_
    rintro _ rfl x now w₁ hx
    cases hx
    rintro _ rfl x r w₂ hx
    cases hx
    exact h
  · exact h

/-- What a registration leaves behind: only the new node's belief has changed, and it has none. -/
structure Registered (cfg : ControllerConfig) (w w' : World MemoryStorage) (nodeId : String) :
    Prop where
  unknown : (w'.mirror cfg).believed nodeId = none
  others : ∀ l, l ≠ nodeId → (w'.mirror cfg).believed l = (w.mirror cfg).believed l
  agents : Unmoved w w'

theorem registerNode_registered (req : RegisterNodeRequest) :
    (machine MemoryStorage).Ensures Eq (registerNode cfg req)
      (fun _ w' => ∃ nodeId, Registered cfg w w' nodeId) w := by
  refine ensures_op.2 ?_
  rintro _ rfl x now w₁ hx
  cases hx
  refine ensures_op.2 ?_
  rintro _ rfl x' id w₂ hx
  simp only [World.exec] at hx
  split at hx
  · exact absurd hx (by simp)
  · cases hx
    refine ensures_storage.2 ?_
    rintro _ rfl now
    refine Machine.ensures_bind.2 (Machine.Ensures.mono (emitNode_keeps cfg _ ⟨rfl, rfl⟩)
      fun _ w' hw' => ?_)
    obtain ⟨hstorage, hagents⟩ := hw'
    refine ⟨x'.uuid, ⟨?_, fun l hl => ?_, fun u => by rw [hagents]⟩⟩
    · -- a node that has just registered is not active
      show (w'.storage.nodes.get? x'.uuid).bind _ = none
      rw [hstorage]
      refine Option.bind_eq_none_iff.2 fun node hnode => ?_
      have hnew := (Table.get?_insert_self w.storage.nodes _).symm.trans hnode
      obtain rfl := Option.some.inj hnew
      rfl
    · refine World.believed_eq ?_ (by rw [hstorage]; rfl)
      rw [hstorage]
      exact Table.get?_insert_ne hl

omit [Extern] in
/-- The new agent starts with no rules, at an address nothing is believed of. -/
theorem Registered.follows {w₁ : World MemoryStorage} {req : RegisterNodeRequest}
    {nodeId id : String} (hregistered : Registered cfg w w₁ nodeId)
    (h : Faithful cfg w (.register req)) :
    Follows cfg w { w₁ with
      agents := w₁.agents.insert (agentUrl cfg req.agentAddress) (.boot id) } := by
  have hother : ∀ u, u ≠ agentUrl cfg req.agentAddress →
      (w₁.agents.insert (agentUrl cfg req.agentAddress) (.boot id)).lookup u =
        w₁.agents.lookup u := fun u hu => AList.lookup_insert_ne hu
  refine ⟨Relation.ReflTransGen.trans (b := w₁.mirror cfg)
    (Mirror.Steps.forgetting hregistered.unknown hregistered.others hregistered.agents.actual)
    (Mirror.Steps.replacing (i := agentUrl cfg req.agentAddress) (v := none) rfl ?_ ?_),
    fun hw url a ha => ?_⟩
  · refine Function.eq_update_iff.2 ⟨?_, fun u hu => ?_⟩
    · have hself := AList.lookup_insert (a := agentUrl cfg req.agentAddress)
        (b := AgentState.boot id) w₁.agents
      exact congrArg (fun a : Option AgentState => a.bind AgentState.accepted) hself
    · exact congrArg (fun a : Option AgentState => a.bind AgentState.accepted) (hother u hu)
  · intro l u hl
    have hne : l ≠ nodeId := fun hl' =>
      absurd (hl.symm.trans (hl' ▸ hregistered.unknown)) (Option.some_ne_none _)
    obtain ⟨node, hmem, -, hurl, hu⟩ :=
      World.believed_iff.1 ((hregistered.others l hne).symm.trans hl)
    exact absurd (hu.symm.trans (h node hmem hurl)) (Option.some_ne_none u)
  · by_cases hurl : url = agentUrl cfg req.agentAddress
    · subst hurl
      obtain rfl := Option.some.inj ((AList.lookup_insert _).symm.trans ha)
      rfl
    · exact hregistered.agents.inStep hw url a ((hother url hurl).symm.trans ha)

/-- Reading the node for the event changes nothing. -/
theorem nodeForEvent_keeps (nodeId : String) :
    (machine MemoryStorage).Ensures Eq (nodeForEvent cfg nodeId) (fun _ w' => w' = w) w := by
  unfold nodeForEvent
  split
  · exact ensures_read (r := .ok (w.storage.nodes.get? nodeId)) (fun _ => rfl) rfl
  · rfl

omit [Extern] in
/-- A heartbeat makes its node's belief true or gives it up. -/
theorem updateHeartbeat_follows (now : DateTime) {nodeId : String} {state : NodeState}
    (uptime : Nat) (h : state = .active → ∀ node ∈ w.storage.nodes.get? nodeId,
      ∀ policy ∈ w.storage.policies.get? nodeId,
        (w.mirror cfg).actual (agentUrl cfg node.agentAddress) =
          some ⟨policy.rulesYaml, some policy.options⟩) :
    Follows cfg w { w with storage := (w.storage.updateHeartbeat now nodeId state uptime).2 } := by
  rw [MemoryStorage.updateHeartbeat_snd]
  refine ⟨?_, id⟩
  have hrest : ∀ l, l ≠ nodeId → ({ w with storage := { w.storage with
      nodes := w.storage.nodes.modify nodeId (fun node =>
        { node with lastHeartbeat := now, state := state, uptimeSeconds := uptime })
        fun _ => rfl } }.mirror cfg).believed l = (w.mirror cfg).believed l :=
    fun l hl => World.believed_eq (by simp [hl]) rfl
  cases hnode : w.storage.nodes.get? nodeId with
  | none => exact .forgetting (by simp [World.mirror, hnode]) hrest rfl
  | some node =>
    have hid : node.nodeId = nodeId := Table.key_of_get? hnode
    by_cases hstate : state = .active
    · cases hpolicy : w.storage.policies.get? nodeId with
      | none =>
        refine .forgetting ?_ hrest rfl
        simp [World.mirror, MemoryStorage.trusts, hnode, hid, hpolicy]
      | some policy =>
        refine .confirming (i := agentUrl cfg node.agentAddress)
          (v := ⟨policy.rulesYaml, some policy.options⟩) ?_ hrest rfl
          (h hstate node hnode policy hpolicy)
        simp [World.mirror, MemoryStorage.trusts, hnode, hid, hpolicy, hstate]
    · refine .forgetting ?_ hrest rfl
      simp [World.mirror, MemoryStorage.trusts, hnode, hstate]

omit [Extern] in
theorem newState_heartbeat (a : AgentState) (uptime : Nat) :
    (a.heartbeat uptime).newState = .active ↔ a.reportedState = .active := by
  simp only [HeartbeatRequest.newState, AgentState.heartbeat, ProtoNodeState.tryFrom_toInt,
    Option.getD_some]
  cases a.reportedState <;> simp [NodeState.ofProto]

theorem heartbeat_follows {url : String} {uptime : Nat} {a : AgentState}
    (ha : w.agents.lookup url = some a) (h : Faithful cfg w (.heartbeat url uptime)) :
    (machine MemoryStorage).Ensures Eq (heartbeat cfg (a.heartbeat uptime))
      (fun _ w' => Follows cfg w w') w := by
  refine Machine.ensures_bind.2 ((nodeForEvent_keeps cfg _).mono fun oldNode w₁ hw₁ => ?_)
  subst hw₁
  refine ensures_storage.2 ?_
  rintro _ rfl now
  have hstep := updateHeartbeat_follows cfg now uptime
    fun hstate => h a ha ((newState_heartbeat a uptime).1 hstate)
  have hkeeps : ∀ w', w'.storage = (w₁.storage.updateHeartbeat now a.nodeId
      (a.heartbeat uptime).newState uptime).2 ∧ w'.agents = w₁.agents → Follows cfg w₁ w' := by
    rintro w' ⟨hstorage, hagents⟩
    refine ⟨?_, fun hw u b hb => hstep.inStep hw u b (hagents ▸ hb)⟩
    have hmirror : w'.mirror cfg = World.mirror cfg { w₁ with
        storage := (w₁.storage.updateHeartbeat now a.nodeId
          (a.heartbeat uptime).newState uptime).2 } :=
      World.mirror_eq (by rw [hstorage]) (by rw [hstorage]) fun u => by rw [hagents]
    rw [hmirror]
    exact hstep.steps
  split
  · exact hkeeps _ ⟨rfl, rfl⟩
  · exact hkeeps _ ⟨rfl, rfl⟩
  · cases oldNode with
    | none => exact hkeeps _ ⟨rfl, rfl⟩
    | some node =>
      dsimp only
      split
      · refine Machine.ensures_bind.2 (Machine.Ensures.mono (emitNode_keeps cfg _ ⟨rfl, rfl⟩)
          fun _ w' hw' => hkeeps w' hw')
      · exact hkeeps _ ⟨rfl, rfl⟩

theorem completes_follows {now : DateTime} {k : Nat} {compile : Except String CompileResult}
    (h : Faithful cfg w (.complete now k compile)) : Follows cfg w (w.completes now k compile) := by
  unfold World.completes
  cases hk : w.inflight[k]? with
  | none => exact .of_mirror_eq rfl fun _ => rfl
  | some r =>
    obtain ⟨url, req⟩ := r
    dsimp only
    split
    · exact .of_mirror_eq rfl fun _ => rfl
    · rename_i a ha
      let w₁ : World MemoryStorage := { w with inflight := w.inflight.eraseIdx k }
      have hstorage : (w₁.agentDeploys now url a compile req).2.storage = w.storage := rfl
      rcases agentDeploys_cases (w := w₁) now compile req ha with
        ⟨-, hagents⟩ | ⟨hsuccess, hagents⟩
      · exact .of_mirror_eq (World.mirror_eq rfl rfl hagents) hagents
      · -- the agents compiled the rules, so the nodes at the address agree on them
        have hagreed : w.AgreedOn cfg none url req := by
          refine h (url, req) hk ?_
          cases compile with
          | error e => exact absurd hsuccess (by simp [World.agentDeploys, AgentState.deployRules])
          | ok result => exact hsuccess
        refine ⟨.replacing rfl (Accepts.actual ⟨hagents.runs, hagents.others⟩) ?_,
          Accepts.inStep ⟨hagents.runs, hagents.others⟩⟩
        intro l u hl
        obtain ⟨node, hmem, -, hurl, hu⟩ := World.believed_iff.1 hl
        rw [hagreed node hmem (Option.some_ne_none _) hurl u hu]

/-- **Every event moves the mirror**, under the condition. -/
theorem Event.follows {e : Event} {xs : List Ext} {w' : World MemoryStorage} (h : Faithful cfg w e)
    (he : e.happen cfg xs w = some w') : Follows cfg w w' := by
  -- a handler that has run to completion has kept what it ensures
  have ended : ∀ {α : Type} {p : Proc α}, ((machine MemoryStorage).eval xs p w).map Prod.snd = some w' →
      (machine MemoryStorage).Ensures Eq p (fun _ w' => Follows cfg w w') w → Follows cfg w w' := by
    intro α p heval hensures
    obtain ⟨⟨a, v⟩, hrun, rfl⟩ := Option.map_eq_some_iff.1 heval
    exact (Machine.exec_of_eval (fun _ => rfl) hrun).ensures hensures
  cases e with
  | register req =>
    simp only [Event.happen] at he
    split at he
    · rename_i resp w₁ heval
      cases he
      obtain ⟨nodeId, hregistered⟩ := (Machine.exec_of_eval (fun _ => rfl) heval).ensures
        (registerNode_registered cfg req)
      exact hregistered.follows cfg h
    · exact absurd he (by simp)
  | heartbeat url uptime =>
    obtain ⟨a, ha, heval⟩ := Option.bind_eq_some_iff.1 he
    exact ended heval (heartbeat_follows cfg ha h)
  | deployPolicy req => exact ended he (deployPolicy_follows cfg h)
  | rollbackPolicy nodeId targetVersion => exact ended he (rollbackPolicy_follows cfg h)
  | complete now k compile =>
    cases he
    exact completes_follows cfg h

/-- The mirror is coherent after every sequence of events, under the condition. -/
theorem Sequence.coherent (hrun : Sequence cfg (Faithful cfg) (.init .new) w) :
    (w.mirror cfg).Coherent ∧ w.AgentsInStep := by
  have hfollows : Follows cfg (.init .new) w := by
    induction hrun with
    | refl => exact ⟨.refl, id⟩
    | tail _ hstep ih =>
      obtain ⟨e, xs, h, he⟩ := hstep
      have hnext := Event.follows cfg h he
      exact ⟨ih.steps.trans hnext.steps, hnext.inStep ∘ ih.inStep⟩
  -- at first no node is there, and no agent
  refine ⟨hfollows.steps.coherent fun l url u hl => ?_, hfollows.inStep fun url a ha => ?_⟩
  · exact absurd hl (Option.some_ne_none _).symm
  · exact absurd ha (Option.some_ne_none _).symm

end Events

theorem deploySound [Extern] (cfg : ControllerConfig) : DeploySound cfg (Faithful cfg) := by
  intro w hrun deploying node rulesYaml options outcome w' hnode hexec hsuccess
  obtain ⟨hcoherent, hagents⟩ := Sequence.coherent cfg hrun
  have heffect := hexec.ensures (deployToNode_effect cfg
    (w := { w with storage := { w.storage with deploying := deploying } }) hnode rulesYaml options)
  exact heffect.runs hcoherent hagents hsuccess

/-! ### Two sequences -/

instance (cfg : ControllerConfig) (w : World MemoryStorage) (nodeId : Option String) (url : String)
    (req : DeployRulesRequest) : Decidable (w.AgreedOn cfg nodeId url req) :=
  inferInstanceAs (Decidable (∀ node ∈ w.storage.nodes.rows, _))

instance (cfg : ControllerConfig) (w : World MemoryStorage) (nodeId : String)
    (req : DeployRulesRequest) : Decidable (w.Shares cfg nodeId req) :=
  inferInstanceAs (Decidable (∀ node ∈ w.storage.nodes.get? nodeId, _))

instance (cfg : ControllerConfig) (w : World MemoryStorage) (e : Event) :
    Decidable (Faithful cfg w e) :=
  match e with
  | .register _ => inferInstanceAs (Decidable (∀ node ∈ w.storage.nodes.rows, _))
  | .heartbeat _ _ => inferInstanceAs (Decidable (∀ a ∈ w.agents.lookup _, _))
  | .deployPolicy _ => inferInstanceAs (Decidable (w.Shares cfg _ _))
  | .rollbackPolicy _ _ => inferInstanceAs (Decidable (∀ target ∈ RollbackChoice.chosen _, _))
  | .complete _ k _ => inferInstanceAs (Decidable (∀ r ∈ w.inflight[k]?, _))

/-- Run a sequence of events, each with what the outside decides, and check the condition. -/
def runEvents [Extern] (cfg : ControllerConfig) (C : World MemoryStorage → Event → Prop)
    [∀ w e, Decidable (C w e)] :
    List (Event × List Ext) → World MemoryStorage → Option (World MemoryStorage)
  | [], w => some w
  | (e, xs) :: events, w =>
    if C w e then (e.happen cfg xs w).bind (runEvents cfg C events) else none

theorem sequence_of_runEvents [Extern] {cfg : ControllerConfig}
    {C : World MemoryStorage → Event → Prop} [∀ w e, Decidable (C w e)]
    {events : List (Event × List Ext)} {w w' : World MemoryStorage}
    (h : runEvents cfg C events w = some w') : Sequence cfg C w w' := by
  induction events generalizing w with
  | nil =>
    cases h
    exact .refl
  | cons event events ih =>
    obtain ⟨e, xs⟩ := event
    simp only [runEvents] at h
    split at h
    · rename_i hC
      obtain ⟨w₁, he, h⟩ := Option.bind_eq_some_iff.1 h
      exact (Relation.ReflTransGen.single ⟨e, xs, hC, he⟩).trans (ih h)
    · exact absurd h (by simp)

/-- A moment at which the agent compiles what it is sent, or fails to. -/
def Ext.compiling (uuid : String) (success : Bool) : Ext :=
  ⟨0, uuid, .answered (.ok ⟨success, "", []⟩)⟩

/-- The node "n1" registers, reports in, and has its first policy deployed. -/
def firstDeploy : List (Event × List Ext) :=
  [(.register ⟨"host", "10.0.0.1:50052", ∅, "1.0", ∅⟩, .replicate 3 (.quiet 0 "n1")),
    (.heartbeat "http://10.0.0.1:50052" 1, [.quiet 1 ""]),
    (.deployPolicy ⟨"n1", "rules: [a]", none, false⟩, .replicate 13 (.compiling "d1" true))]

/-- A second deploy of the same policy is skipped, and rightly so. -/
theorem deploySound_skipped : ∃ (w w' : World MemoryStorage) (node : Node) (outcome : DeployOutcome),
    @Sequence .sample plainConfig (Faithful plainConfig) (.init .new) w ∧
      (@machine MemoryStorage .sample _).Exec Eq
        (@deployToNode .sample plainConfig node "rules: [a]" .default) w outcome w' ∧
      outcome.message = noChangeMessage ∧
      w'.Runs (agentUrl plainConfig node.agentAddress)
        ⟨"rules: [a]", some (normalizeOptions .default)⟩ := by
  have hrun : (@runEvents .sample plainConfig (Faithful plainConfig) _
      (firstDeploy ++ [(.heartbeat "http://10.0.0.1:50052" 2, [.quiet 2 ""])]) (.init .new)).any
      fun w => (w.storage.nodes.get? "n1").any fun node =>
        ((@machine MemoryStorage .sample _).eval (.replicate 7 (.quiet 3 "d2"))
          (@deployToNode .sample plainConfig node "rules: [a]" .default) w).any fun r =>
            r.1.success && r.1.message == noChangeMessage := by decide +kernel
  obtain ⟨w, hw, hrun⟩ := (Option.any_eq_true _ _).1 hrun
  obtain ⟨node, hnode, hrun⟩ := (Option.any_eq_true _ _).1 hrun
  obtain ⟨⟨outcome, w'⟩, heval, hrun⟩ := (Option.any_eq_true _ _).1 hrun
  obtain ⟨hsuccess, hmessage⟩ := Bool.and_eq_true_iff.1 hrun
  have hid : node.nodeId = "n1" := Table.key_of_get? hnode
  have hsequence := @sequence_of_runEvents .sample plainConfig _ _ _ _ _ hw
  have hexec := Machine.exec_of_eval (R := Eq) (fun _ => rfl) heval
  exact ⟨w, w', node, outcome, hsequence, hexec, beq_iff_eq.1 hmessage,
    @deploySound .sample plainConfig w hsequence w.storage.deploying node "rules: [a]" .default
      outcome w' (hid ▸ hnode) hexec hsuccess⟩

/-- A deploy whose rules do not compile is stored all the same, the next heartbeat reports active,
    and then a second deploy of these rules is skipped as successful. -/
theorem not_deploySound : ¬ @DeploySound .sample plainConfig fun _ _ => True := by
  intro h
  have hrun : (@runEvents .sample plainConfig (fun _ _ => True) _
      (firstDeploy ++
        [(.deployPolicy ⟨"n1", "rules: [b]", none, false⟩, .replicate 13 (.compiling "d2" false)),
          (.heartbeat "http://10.0.0.1:50052" 2, [.quiet 2 ""])]) (.init .new)).any
      fun w => (w.storage.nodes.get? "n1").any fun node =>
        ((@machine MemoryStorage .sample _).eval (.replicate 7 (.quiet 3 "d3"))
          (@deployToNode .sample plainConfig node "rules: [b]" .default) w).any fun r =>
            r.1.success && (r.2.agents.lookup (agentUrl plainConfig node.agentAddress)).all
              fun a => a.activeRulesYaml == some "rules: [a]" := by decide +kernel
  obtain ⟨w, hw, hrun⟩ := (Option.any_eq_true _ _).1 hrun
  obtain ⟨node, hnode, hrun⟩ := (Option.any_eq_true _ _).1 hrun
  obtain ⟨⟨outcome, w'⟩, heval, hrun⟩ := (Option.any_eq_true _ _).1 hrun
  obtain ⟨hsuccess, hrules⟩ := Bool.and_eq_true_iff.1 hrun
  have hid : node.nodeId = "n1" := Table.key_of_get? hnode
  obtain ⟨a, ha, hactive, -⟩ := h w (@sequence_of_runEvents .sample plainConfig _ _ _ _ _ hw)
    w.storage.deploying node "rules: [b]" .default outcome w' (hid ▸ hnode)
    (Machine.exec_of_eval (fun _ => rfl) heval) hsuccess
  rw [ha, Option.all_some, hactive] at hrules
  exact absurd hrules (by decide)

end PaciNet

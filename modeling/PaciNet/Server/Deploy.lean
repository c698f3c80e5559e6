import PaciNet.Server.World

/-!
# Deploying to nodes

`deploy_to_node` and the loop over it. Deploying to one node reads the stored policy, and then
either stops because the node already runs it, or stores the new policy *before* it asks the
agent, and brings the node's state in line with the answer.

The guard of a node is not taken here. `deploy_to_nodes` takes it around each call; the other
callers have to do the same.
-/

set_option autoImplicit false

namespace PaciNet

/-- What the controller's tasks read of its configuration. -/
structure ControllerConfig where
  /-- `deploy_timeout`, in seconds. -/
  deployTimeout : Nat
  /-- `tls_config.is_some()`. -/
  tls : Bool
  /-- `event_bus.is_some()`. -/
  eventBus : Bool

/-- Outcome of deploying to a single node. -/
structure DeployOutcome where
  success : Bool
  message : String
  warnings : List String
  result : DeploymentResult
  version : Nat
  deriving DecidableEq

/-- The outcome of a deploy that did not get as far as storing the policy. -/
def DeployOutcome.rejected (message : String) : DeployOutcome where
  success := false
  message := message
  warnings := []
  result := .agentFailure
  version := 0

/-! ## Options and capabilities -/

def normalizeOptions (o : CompileOptions) : CompileOptions :=
  { o with
    ports := if o.ports = 0 then 1 else o.ports
    dynamicEntries := if o.dynamicEntries = 0 then 16 else o.dynamicEntries
    width := if o.width = 0 then 8 else o.width
    rssQueues := if o.rssQueues = 0 then 4 else o.rssQueues
    target := if o.target = "" then "standalone" else o.target }

/-- Normalizing twice is normalizing once. -/
@[simp] theorem normalizeOptions_idem (o : CompileOptions) :
    normalizeOptions (normalizeOptions o) = normalizeOptions o := by
  simp only [normalizeOptions, CompileOptions.mk.injEq, true_and, and_true]
  refine ⟨?_, ?_, ?_, ?_, ?_⟩ <;> split <;> simp_all

def capabilityTrue (node : Node) (key : String) : Bool :=
  (node.capabilities.lookup key).any fun v => asciiLowercase v == "true"

/-- The error of a missing capability. -/
def missingCapability (node : Node) (key : String) : String :=
  "Node '" ++ node.nodeId ++ "' does not advertise " ++ key ++ " capability"

/-- What each option that needs a capability asks for, in the order it is checked. -/
def requiredCapabilities (o : CompileOptions) : List (Bool × String) :=
  [(o.axi, "compile.axi"),
   (o.ports > 1, "compile.ports"),
   (o.dynamic, "compile.dynamic"),
   (o.width > 8, "compile.width"),
   (o.target != "" && o.target != "standalone", "compile.target"),
   (o.ptp, "compile.ptp"),
   (o.rss, "compile.rss"),
   (o.rssQueues != 4, "compile.rss_queues"),
   (o.intEnabled, "compile.int"),
   (o.intSwitchId != 0, "compile.int_switch_id")]

def ensureNodeCapabilities (node : Node) (options : CompileOptions) : Except String Unit :=
  match (requiredCapabilities options).find? fun r => r.1 && !capabilityTrue node r.2 with
  | some r => .error (missingCapability node r.2)
  | none => .ok ()

def policyMatchesRequest (current : Policy) (rulesYaml policyHash : String)
    (options : CompileOptions) : Bool :=
  current.rulesYaml == rulesYaml
    && current.policyHash == policyHash
    && current.countersEnabled == options.counters
    && current.rateLimitEnabled == options.rateLimit
    && current.conntrackEnabled == options.conntrack
    && current.axiEnabled == options.axi
    && current.ports == options.ports
    && current.target == options.target
    && current.dynamic == options.dynamic
    && current.dynamicEntries == options.dynamicEntries
    && current.width == options.width
    && current.ptp == options.ptp
    && current.rss == options.rss
    && current.rssQueues == options.rssQueues
    && current.int == options.intEnabled
    && current.intSwitchId == options.intSwitchId

/-- The comparison of the sixteen fields is the comparison of the rules, the hash and the
    options as a record. -/
theorem policyMatchesRequest_iff {p : Policy} {rulesYaml hash : String}
    {options : CompileOptions} :
    policyMatchesRequest p rulesYaml hash options ↔
      p.rulesYaml = rulesYaml ∧ p.policyHash = hash ∧ p.options = options := by
  simp only [policyMatchesRequest, Policy.options, Bool.and_eq_true, beq_iff_eq, and_assoc,
    CompileOptions.ext_iff]

/-- The policy a request stores. -/
def requestedPolicy (nodeId rulesYaml policyHash : String) (deployedAt : DateTime)
    (options : CompileOptions) : Policy where
  nodeId := nodeId
  rulesYaml := rulesYaml
  policyHash := policyHash
  deployedAt := deployedAt
  countersEnabled := options.counters
  rateLimitEnabled := options.rateLimit
  conntrackEnabled := options.conntrack
  axiEnabled := options.axi
  ports := options.ports
  target := options.target
  dynamic := options.dynamic
  dynamicEntries := options.dynamicEntries
  width := options.width
  ptp := options.ptp
  rss := options.rss
  rssQueues := options.rssQueues
  int := options.intEnabled
  intSwitchId := options.intSwitchId

@[simp] theorem requestedPolicy_options (nodeId rulesYaml hash : String) (deployedAt : DateTime)
    (options : CompileOptions) :
    (requestedPolicy nodeId rulesYaml hash deployedAt options).options = options := rfl

/-! ## One node -/

/-- The URL `deploy_to_node` reaches an agent at. -/
def agentUrl (cfg : ControllerConfig) (agentAddress : String) : String :=
  (if cfg.tls then "https" else "http") ++ "://" ++ agentAddress

def noChangeMessage : String :=
  "No change: identical policy and options already active; skipped redeploy"

section OneNode

variable [Extern] (cfg : ControllerConfig)

/-- The no-op branch of `deploy_to_node`: an identical policy is already active. -/
def skipRedeploy (node : Node) (hash : String) : Proc DeployOutcome := do
  match ← storage (.getPolicyHistory node.nodeId 1) with
  | .error e =>
    pure (.rejected ("Failed to read policy history: " ++ Extern.statusText e.toStatus))
  | .ok versions =>
    let currentVersion := (versions.head?.map PolicyVersion.version).getD 0
    let id ← op .uuid
    let deployedAt ← op .now
    let _ ← storage (.recordDeployment {
      id := id
      nodeId := node.nodeId
      policyVersion := currentVersion
      policyHash := hash
      deployedAt := deployedAt
      result := .success
      message := noChangeMessage })
    pure {
      success := true
      message := noChangeMessage
      warnings := []
      result := .success
      version := currentVersion }

/-- What `deploy_to_node` makes of the agent's answer: the state it writes for the node, and the
    message, warnings and result it reports. -/
def concludeDeploy : AgentAnswer → NodeState × String × List String × DeploymentResult
  | .response response =>
    if response.success then (.active, response.message, response.warnings, .success)
    else (.error, response.message, response.warnings, .agentFailure)
  | .failed err =>
    (.error, "Failed to reach agent: " ++ err,
      ["Policy stored locally but agent unreachable"], .agentUnreachable)
  | .elapsed =>
    (.error, "Agent communication timed out (" ++ toString cfg.deployTimeout ++ "s)",
      ["Policy stored locally but agent timed out"], .timeout)

/-- `deploy_to_node` from where it has decided to store the policy. -/
def storeAndForward (node : Node) (rulesYaml hash : String) (options : CompileOptions) :
    Proc DeployOutcome := do
  let deployedAt ← op .now
  match ← storage (.storePolicy (requestedPolicy node.nodeId rulesYaml hash deployedAt options)) with
  | .error e => pure (.rejected ("Failed to store policy: " ++ Extern.statusText e.toStatus))
  | .ok version =>
    let _ ← storage (.updateNodeState node.nodeId .deploying)
    let answer ← op (.deployRules (agentUrl cfg node.agentAddress) ⟨rulesYaml, some options⟩)
    let (state, message, warnings, result) := concludeDeploy cfg answer
    let _ ← storage (.updateNodeState node.nodeId state)
    let id ← op .uuid
    let _ ← storage (.recordDeployment {
      id := id
      nodeId := node.nodeId
      policyVersion := version
      policyHash := hash
      deployedAt := deployedAt
      result := result
      message := message })
    pure {
      success := result == .success
      message := message
      warnings := warnings
      result := result
      version := version }

/-- The body of `deploy_to_node`. -/
def deployToNodeBody (node : Node) (rulesYaml : String) (options : CompileOptions) :
    Proc DeployOutcome := do
  let options := normalizeOptions options
  match ensureNodeCapabilities node options with
  | .error msg => pure (.rejected msg)
  | .ok () =>
    let hash := policyHash rulesYaml
    match ← storage (.getPolicy node.nodeId) with
    | .error e =>
      pure (.rejected ("Failed to read current policy: " ++ Extern.statusText e.toStatus))
    | .ok currentPolicy =>
      if node.state == .active &&
          currentPolicy.any (policyMatchesRequest · rulesYaml hash options) then
        skipRedeploy node hash
      else
        storeAndForward cfg node rulesYaml hash options

/-- `deploy_to_node`, between the marks that say it is in progress. -/
def deployToNode (node : Node) (rulesYaml : String) (options : CompileOptions) :
    Proc DeployOutcome := do
  mark (.enterDeploy node.nodeId)
  let outcome ← deployToNodeBody cfg node rulesYaml options
  mark (.exitDeploy node.nodeId)
  pure outcome

/-! ## Many nodes -/

/-- The loop of `deploy_to_nodes` with its three accumulators. The two counters are `u32`s, which
    count as these do up to 2^32 - 1 nodes. -/
def deployToNodesLoop (rulesYaml : String) (options : CompileOptions) :
    List Node → (succeeded failed : Nat) → List NodeActionResult →
      Proc (Nat × Nat × List NodeActionResult)
  | [], succeeded, failed, nodeResults => pure (succeeded, failed, nodeResults)
  | node :: nodes, succeeded, failed, nodeResults => do
    match ← storage (.beginDeploy node.nodeId) with
    | .error _ =>
      deployToNodesLoop rulesYaml options nodes succeeded (failed + 1)
        (nodeResults ++ [⟨node.nodeId, false, "Concurrent deploy in progress"⟩])
    | .ok () =>
      let outcome ← deployToNode cfg node rulesYaml options
      storage (.endDeploy node.nodeId)
      deployToNodesLoop rulesYaml options nodes
        (if outcome.success then succeeded + 1 else succeeded)
        (if outcome.success then failed else failed + 1)
        (nodeResults ++ [⟨node.nodeId, outcome.success, outcome.message⟩])

/-- `deploy_to_nodes`. -/
def deployToNodes (nodes : List Node) (rulesYaml : String) (options : CompileOptions) :
    Proc ActionResult := do
  let (succeeded, failed, nodeResults) ← deployToNodesLoop cfg rulesYaml options nodes 0 0 []
  pure {
    succeeded := succeeded
    failed := failed
    total := asU32 nodes.length
    nodeResults := nodeResults }

end OneNode

end PaciNet

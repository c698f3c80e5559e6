import PaciNet.Agent.Runner
import PaciNet.Lib.Pool

/-!
# The agent process

The handlers of an agent and the part of its main program that reads the state for a heartbeat.
Any number of them run at a time, interleaved at their operations, over one state behind a lock
and one directory for temporary files.

What `pacgate` answers, how the file operations end, and which handlers are dropped is decided
outside and read off `AgentExt`. The lock admits any number of readers or one writer. Who waits for
it longest is not told: more interleavings are admitted than a fair lock has.

`runs` and `deploys` are logs that nothing reads. The first tells which processes have ended and
what stood in the file they were given; the second is written by an operation that is not one of the
source, while the write lock is held, and tells which deploys the state has taken over.
-/

set_option autoImplicit false

namespace PaciNet

structure GetStatusResponse where
  state : Int
  pacgateVersion : String
  activePolicyHash : String
  uptimeSeconds : Nat
  deriving DecidableEq

/-! ## Handlers -/

section Handlers

variable [Extern] [SerdeJsonText]

/-- What `deploy_rules` does under the write lock. -/
def takeOver (req : DeployRulesRequest) (result : CompileResult) : AgentProc Unit := do
  agentOp (.setActivePolicyHash (policyHash req.rulesYaml))
  agentOp (.setActiveRulesYaml req.rulesYaml)
  let time ← agentOp .now
  agentOp (.setDeployedAt time)
  agentOp (.deployed req result time)

/-- `deploy_rules`. Nothing is answered by a handler that is dropped. -/
def agentDeployRules (req : DeployRulesRequest) : AgentProc (Option DeployRulesResponse) := do
  let options := req.options.getD .default
  match ← agentOp .readLock with
  | none => return none
  | some permit =>
    let compileResult ← compileRules req.rulesYaml options
    agentOp (.readUnlock permit)
    match compileResult with
    | .error .dropped => return none
    | .error (.failed e) => return some ⟨false, "PacGate error: " ++ e, []⟩
    | .ok result =>
      if result.success then
        match ← agentOp .writeLock with
        | none => return none
        | some () =>
          takeOver req result
          agentOp .writeUnlock
          return some ⟨result.success, result.message, result.warnings⟩
      else return some ⟨result.success, result.message, result.warnings⟩

/-- `get_status`. -/
def getStatus (pacgateVersion : String) : AgentProc (Option GetStatusResponse) := do
  match ← agentOp .readLock with
  | none => return none
  | some permit =>
    let uptime ← agentOp .uptime
    let active ← agentOp .activePolicyHash
    let nodeState : ProtoNodeState := if active.isSome then .active else .online
    let hash ← agentOp .activePolicyHash
    agentOp (.readUnlock permit)
    return some ⟨nodeState.toInt, pacgateVersion, hash.getD "", uptime⟩

/-- The request `heartbeat_loop` sends. -/
def heartbeatRequest (nodeId : String) : AgentProc (Option HeartbeatRequest) := do
  match ← agentOp .readLock with
  | none => return none
  | some permit =>
    let uptime ← agentOp .uptime
    let active ← agentOp .activePolicyHash
    let nodeState : ProtoNodeState := if active.isSome then .active else .online
    agentOp (.readUnlock permit)
    return some ⟨nodeId, nodeState.toInt, uptime⟩

end Handlers

/-! ## The process -/

/-- A run of `pacgate` that has ended: its arguments, what stood in the file its second argument
    names, and what it left. -/
structure PacgateRun where
  args : List String
  input : Option String
  output : Output
  deriving DecidableEq

/-- A deploy the state has taken over. -/
structure Deploy where
  req : DeployRulesRequest
  result : CompileResult
  time : DateTime
  deriving DecidableEq

structure AgentWorld where
  agent : AgentState
  permits : List Nat
  nextPermit : Nat
  writing : Bool
  files : AList fun _ : String => String
  drawn : List String
  runs : List PacgateRun
  deploys : List Deploy

/-- What is decided outside the agent while one operation runs. `left` is what a file operation
    that fails, or that nobody waits for any more, leaves in the file. -/
structure AgentExt where
  now : DateTime
  uptime : Nat
  uuid : String
  dropped : Bool
  io : Except String Unit
  left : Option String
  output : Except String Output

namespace AgentWorld

/-- An agent that has just registered. -/
def boot (nodeId : String) : AgentWorld where
  agent := .boot nodeId
  permits := []
  nextPermit := 0
  writing := false
  files := ∅
  drawn := []
  runs := []
  deploys := []

/-- What stands in the file after an operation on it has not ended well. -/
def leave (w : AgentWorld) (path : String) (left : Option String) : AgentWorld :=
  { w with files := left.elim (w.files.erase path) (w.files.insert path) }

/-- What one operation does. -/
def exec (x : AgentExt) : (o : AgentOp) → AgentWorld → Option (o.Res × AgentWorld)
  | .readLock, w =>
    if x.dropped then some (none, w)
    else if w.writing then none
    else some (some w.nextPermit,
      { w with permits := w.nextPermit :: w.permits, nextPermit := w.nextPermit + 1 })
  | .readUnlock permit, w => some ((), { w with permits := w.permits.erase permit })
  | .writeLock, w =>
    if x.dropped then some (none, w)
    else if w.writing || !w.permits.isEmpty then none
    else some (some (), { w with writing := true })
  | .writeUnlock, w => some ((), { w with writing := false })
  | .uuid, w =>
    if x.uuid ∈ w.drawn then none
    else some (x.uuid, { w with drawn := x.uuid :: w.drawn })
  | .writeFile path text, w =>
    if x.dropped then some (none, w.leave path x.left)
    else match x.io with
      | .ok () => some (some (.ok ()), { w with files := w.files.insert path text })
      | .error e => some (some (.error e), w.leave path x.left)
  | .removeFile path, w =>
    if x.dropped then some (none, w.leave path (x.left.bind fun _ => w.files.lookup path))
    else match x.io with
      | .ok () => some (some (.ok ()), { w with files := w.files.erase path })
      | .error e => some (some (.error e), w)
  | .pacgate args, w =>
    if x.dropped then some (none, w)
    else match x.output with
      | .ok output => some (some (.ok output), { w with
          runs := w.runs ++ [⟨args, args[1]?.bind fun path => w.files.lookup path, output⟩] })
      | .error e => some (some (.error e), w)
  | .now, w => some (x.now, w)
  | .uptime, w => some (x.uptime, w)
  | .activePolicyHash, w => some (w.agent.activePolicyHash, w)
  | .setActivePolicyHash hash, w =>
    some ((), { w with agent := { w.agent with activePolicyHash := some hash } })
  | .setActiveRulesYaml rulesYaml, w =>
    some ((), { w with agent := { w.agent with activeRulesYaml := some rulesYaml } })
  | .setDeployedAt time, w =>
    some ((), { w with agent := { w.agent with deployedAt := some time } })
  | .deployed req result time, w => some ((), { w with
      agent := { w.agent with accepted := some req }
      deploys := w.deploys ++ [⟨req, result, time⟩] })

end AgentWorld

inductive AgentRequest where
  | deployRules (req : DeployRulesRequest)
  | getStatus
  | heartbeat
  deriving DecidableEq

/-- What a request is answered with; `none` when its handler was dropped. -/
inductive AgentReply where
  | deployRules (r : Option DeployRulesResponse)
  | getStatus (r : Option GetStatusResponse)
  | heartbeat (r : Option HeartbeatRequest)

/-- The agent process. -/
def agent [Extern] [SerdeJsonText] (nodeId pacgateVersion : String) :
    Lib.System AgentOp AgentOp.Res AgentWorld AgentExt AgentRequest AgentReply where
  exec x o w := (AgentWorld.exec x o w).map fun (r, w) => (r, w, [])
  prog
    | .deployRules req => (agentDeployRules req).bind fun r => .done (.deployRules r)
    | .getStatus => (getStatus pacgateVersion).bind fun r => .done (.getStatus r)
    | .heartbeat => (heartbeatRequest nodeId).bind fun r => .done (.heartbeat r)

end PaciNet

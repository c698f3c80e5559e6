import Mathlib.Data.Fintype.EquivFin
import PaciNet.Lib.Machine
import PaciNet.Server.Messages

/-!
# The world a controller runs in

The operations a controller's code is cut into, and what each of them does to the world: the
storage, the counter cache, the agents behind their addresses, the event bus, and the sets of
tasks a batch waits for.

Three things are decided outside and read off `Ext`: the clock, the id `Uuid::new_v4` draws
(never one that was drawn before), and what becomes of a request to an agent. A request that is
not answered in time may still have reached the agent; it then stays in flight, to be completed
at any later moment or never (`World.completes`).

A `Mark` is not an operation of the source. It records, in a log that nothing reads, where in
its code a task is, so that statements about runs can speak about it.
-/

set_option autoImplicit false

namespace PaciNet

/-- Code outside the repository whose result the controller's code uses. -/
class Extern where
  /-- The finished `DefaultHasher` of a text. -/
  hash : String → Nat
  /-- `Display` of `tonic::Status`. -/
  statusText : Status → String
  /-- The error of `serde_yaml::from_str::<Value>` on a text, if there is one. -/
  yamlError : String → Option String

/-- An instance to evaluate the model on, with the hashes of two texts. The runs it is used in
    parse their texts and write no status. -/
@[reducible] def Extern.sample : Extern where
  hash content :=
    if content = "rules: [a]" then 0xf3d8bc323877c964
    else if content = "rules: [b]" then 0xd84905f2169d6cc5
    else 0
  statusText s := s.message
  yamlError _ := none

/-- `policy_hash`: the hash in lower-case hexadecimal. -/
def policyHash [Extern] (content : String) : String := .ofList (Nat.toDigits 16 (Extern.hash content))

/-! ## The agent -/

/-- What `PacGateBackend::compile` returns. -/
structure CompileResult where
  success : Bool
  message : String
  warnings : List String
  deriving DecidableEq

/-- The state of an agent process. `accepted` is the request that set the active rules; the
    source keeps only its rules and their hash. -/
structure AgentState where
  nodeId : String
  activePolicyHash : Option String
  activeRulesYaml : Option String
  deployedAt : Option DateTime
  accepted : Option DeployRulesRequest
  deriving DecidableEq

namespace AgentState

/-- The state of an agent that has just registered. -/
def boot (nodeId : String) : AgentState := ⟨nodeId, none, none, none, none⟩

/-- The agent's `deploy_rules`, given what the compiler returned. -/
def deployRules [Extern] (a : AgentState) (now : DateTime) (compile : Except String CompileResult)
    (req : DeployRulesRequest) : DeployRulesResponse × AgentState :=
  match compile with
  | .ok result =>
    (⟨result.success, result.message, result.warnings⟩,
      if result.success then
        { a with
          activePolicyHash := some (policyHash req.rulesYaml)
          activeRulesYaml := some req.rulesYaml
          deployedAt := some now
          accepted := some req }
      else a)
  | .error e => (⟨false, "PacGate error: " ++ e, []⟩, a)

/-- The state the heartbeat loop and `get_status` report. -/
def reportedState (a : AgentState) : ProtoNodeState :=
  if a.activePolicyHash.isSome then .active else .online

/-- The request the heartbeat loop sends. -/
def heartbeat (a : AgentState) (uptime : Nat) : HeartbeatRequest :=
  ⟨a.nodeId, a.reportedState.toInt, uptime⟩

end AgentState

/-! ## Operations -/

/-- The counter cache: the snapshots of each node, oldest first. -/
abbrev CounterCache := AList fun _ : String => List CounterSnapshot

/-- What one synchronous evaluation sees: it never yields, so one cache and one clock reading. -/
structure Observation where
  cache : CounterCache
  now : DateTime

/-- What a request to an agent comes back with. -/
inductive AgentAnswer where
  | response (r : DeployRulesResponse)
  | failed (err : String)
  | elapsed
  deriving DecidableEq

/-- Where a task is in its code. -/
inductive Mark where
  | enterDeploy (nodeId : String)
  | exitDeploy (nodeId : String)
  | startAction (instanceId state : String)
  | batch (instanceId state : String) (cursor : Nat) (selected : List String)
  | passed (instanceId state : String) (results : List NodeActionResult)
  | fire (inst : FsmInstance) (transitionIdx : Nat)
  deriving DecidableEq

/-- The operations the controller's tasks perform. -/
inductive Op where
  | storage (c : StorageCall)
  | deployRules (agentAddr : String) (req : DeployRulesRequest)
  | now
  | uuid
  | observe
  | isLeader
  | emitFsm (e : FsmEvent)
  | emitNode (e : NodeEvent)
  | webhook (config : WebhookConfig) (payload : WebhookPayload)
  | recordAudit (entry : AuditEntry)
  | joinSetNew
  | joinSetSpawn (joinSet : Nat) (req : DeployPolicyRequest) (node : Node)
  | joinSetPut (joinSet : Nat) (r : NodeDeployResult)
  | joinSetNext (joinSet : Nat)
  | mark (m : Mark)

/-- What an operation returns. -/
@[reducible] def Op.Res : Op → Type
  | storage c => c.Res
  | deployRules _ _ => AgentAnswer
  | now => DateTime
  | uuid => String
  | observe => Observation
  | isLeader => Bool
  | emitFsm _ | emitNode _ | webhook _ _ | recordAudit _ => Unit
  | joinSetNew => Nat
  | joinSetSpawn _ _ _ | joinSetPut _ _ => Unit
  | joinSetNext _ => Option NodeDeployResult
  | mark _ => Unit

/-! ## The world -/

/-- The tasks of a `JoinSet`: how many have not been joined, and the results of those that have
    finished, in the order they finished. -/
structure JoinSet where
  pending : Nat
  finished : List NodeDeployResult
  deriving DecidableEq

structure World (σ : Type) where
  storage : σ
  cache : CounterCache
  agents : AList fun _ : String => AgentState
  inflight : List (String × DeployRulesRequest)
  sent : List (String × DeployRulesRequest)
  issued : List String
  leader : Bool
  fsmEvents : List FsmEvent
  nodeEvents : List NodeEvent
  webhooks : List (WebhookConfig × WebhookPayload)
  joinSets : List JoinSet
  marks : List Mark

/-- What becomes of a request to an agent. -/
inductive Delivery where
  | answered (compile : Except String CompileResult)
  | failed (err : String) (reached : Bool)
  | elapsed (reached : Bool)

/-- What is decided outside the controller while one operation runs. -/
structure Ext where
  now : DateTime
  uuid : String
  delivery : Delivery

/-- A moment at which the agents stay silent. -/
def Ext.quiet (now : DateTime) (uuid : String) : Ext := ⟨now, uuid, .elapsed false⟩

namespace World

variable {σ : Type}

/-- A world with the given storage in which nothing has happened yet. -/
def init (storage : σ) : World σ where
  storage := storage
  cache := ∅
  agents := ∅
  inflight := []
  sent := []
  issued := []
  leader := true
  fsmEvents := []
  nodeEvents := []
  webhooks := []
  joinSets := []
  marks := []

/-- The agent at an address runs its `deploy_rules`. -/
def agentDeploys [Extern] (w : World σ) (now : DateTime) (addr : String) (a : AgentState)
    (compile : Except String CompileResult) (req : DeployRulesRequest) :
    DeployRulesResponse × World σ :=
  ((a.deployRules now compile req).1,
    { w with agents := w.agents.insert addr (a.deployRules now compile req).2 })

/-- The request leaves the controller, whatever becomes of it. -/
def send (w : World σ) (addr : String) (req : DeployRulesRequest) : World σ :=
  { w with sent := w.sent ++ [(addr, req)] }

/-- The request reached the agent but its answer did not come back in time. -/
def strand (w : World σ) (addr : String) (req : DeployRulesRequest) (reached : Bool) : World σ :=
  if reached then { w with inflight := w.inflight ++ [(addr, req)] } else w

/-- Apply `f` to the `JoinSet` of a batch. -/
def updateJoinSet (w : World σ) (joinSet : Nat) (f : JoinSet → JoinSet) : World σ :=
  { w with joinSets := w.joinSets.modify joinSet f }

/-- What one operation does. -/
def exec [Extern] [Storage σ] (x : Ext) :
    (o : Op) → World σ → Option (o.Res × World σ × List Request)
  | .storage c, w =>
    let (r, s) := Storage.call x.now c w.storage
    some (r, { w with storage := s }, [])
  | .deployRules addr req, w =>
    let w := w.send addr req
    match x.delivery with
    | .answered compile =>
      match w.agents.lookup addr with
      | none => none
      | some a =>
        let (r, w) := w.agentDeploys x.now addr a compile req
        some (.response r, w, [])
    | .failed err reached => some (.failed err, w.strand addr req reached, [])
    | .elapsed reached => some (.elapsed, w.strand addr req reached, [])
  | .now, w => some (x.now, w, [])
  | .uuid, w =>
    if x.uuid ∈ w.issued then none
    else some (x.uuid, { w with issued := x.uuid :: w.issued }, [])
  | .observe, w => some (⟨w.cache, x.now⟩, w, [])
  | .isLeader, w => some (w.leader, w, [])
  | .emitFsm e, w => some ((), { w with fsmEvents := w.fsmEvents ++ [e] }, [])
  | .emitNode e, w => some ((), { w with nodeEvents := w.nodeEvents ++ [e] }, [])
  | .webhook config payload, w =>
    some ((), { w with webhooks := w.webhooks ++ [(config, payload)] }, [])
  | .recordAudit entry, w => some ((), w, [.recordAudit entry])
  | .joinSetNew, w =>
    some (w.joinSets.length, { w with joinSets := w.joinSets ++ [⟨0, []⟩] }, [])
  | .joinSetSpawn joinSet req node, w =>
    some ((), w.updateJoinSet joinSet fun j => { j with pending := j.pending + 1 },
      [.batchTask joinSet req node])
  | .joinSetPut joinSet r, w =>
    some ((), w.updateJoinSet joinSet fun j => { j with finished := j.finished ++ [r] }, [])
  | .joinSetNext joinSet, w =>
    match w.joinSets[joinSet]? with
    | none => none
    | some j =>
      match j.pending, j.finished with
      | 0, _ => some (none, w, [])
      | _ + 1, [] => none
      | n + 1, r :: rest => some (some r, w.updateJoinSet joinSet fun _ => ⟨n, rest⟩, [])
  | .mark m, w => some ((), { w with marks := w.marks ++ [m] }, [])

/-- The `k`-th request in flight is completed by its agent, if that is still there. -/
def completes [Extern] (w : World σ) (now : DateTime) (k : Nat)
    (compile : Except String CompileResult) : World σ :=
  match w.inflight[k]? with
  | none => w
  | some (addr, req) =>
    let w := { w with inflight := w.inflight.eraseIdx k }
    match w.agents.lookup addr with
    | none => w
    | some a => (w.agentDeploys now addr a compile req).2

/-- There is always an id that `Uuid::new_v4` has not drawn yet. -/
theorem exists_fresh (issued : List String) : ∃ uuid, uuid ∉ issued := by
  have hinj : Function.Injective fun n : Nat => String.ofList (List.replicate n 'a') := by
    intro m n h
    simpa using congrArg String.length h
  have := Infinite.of_injective _ hinj
  obtain ⟨uuid, h⟩ := Infinite.exists_notMem_finset issued.toFinset
  exact ⟨uuid, by simpa using h⟩

/-! ### What an operation leaves alone -/

/-- The mark an operation leaves. -/
def marksOf : Op → List Mark
  | .mark m => [m]
  | _ => []

/-- What an operation sends to an agent. -/
def sendsOf : Op → List (String × DeployRulesRequest)
  | .deployRules addr req => [(addr, req)]
  | _ => []

/-- The tasks an operation starts. -/
def spawnsOf : Op → List Request
  | .recordAudit entry => [.recordAudit entry]
  | .joinSetSpawn joinSet req node => [.batchTask joinSet req node]
  | _ => []

/-- What every operation does to the storage, the marks and the log of sent requests, and the
    tasks it starts. No operation changes who leads. -/
structure Stepped [Storage σ] (now : DateTime) (o : Op) (w : World σ) (r : o.Res) (w' : World σ)
    (new : List Request) : Prop where
  storage : match o, r with
    | .storage c, r => (r, w'.storage) = Storage.call now c w.storage
    | _, _ => w'.storage = w.storage
  marks : w'.marks = w.marks ++ marksOf o
  sent : w'.sent = w.sent ++ sendsOf o
  leader : w'.leader = w.leader
  new : new = spawnsOf o

@[simp] theorem strand_fields (w : World σ) (addr : String) (req : DeployRulesRequest)
    (reached : Bool) : (w.strand addr req reached).storage = w.storage ∧
      (w.strand addr req reached).marks = w.marks ∧
      (w.strand addr req reached).sent = w.sent ∧
      (w.strand addr req reached).leader = w.leader := by
  cases reached <;> exact ⟨rfl, rfl, rfl, rfl⟩

theorem stepped_of_exec [Extern] [Storage σ] {x : Ext} {o : Op} {w w' : World σ} {r : o.Res}
    {new : List Request} (h : exec x o w = some (r, w', new)) : Stepped x.now o w r w' new := by
  cases o with
  | deployRules addr req =>
    simp only [exec] at h
    split at h
    · split at h
      · exact absurd h (by simp)
      · cases h
        exact ⟨rfl, by simp [agentDeploys, send, marksOf], rfl, rfl, rfl⟩
    · cases h
      exact ⟨by simp [send], by simp [send, marksOf], by simp [send, sendsOf], by simp [send], rfl⟩
    · cases h
      exact ⟨by simp [send], by simp [send, marksOf], by simp [send, sendsOf], by simp [send], rfl⟩
  | uuid =>
    simp only [exec] at h
    split at h
    · exact absurd h (by simp)
    · cases h
      exact ⟨rfl, by simp [marksOf], by simp [sendsOf], rfl, rfl⟩
  | joinSetNext joinSet =>
    simp only [exec] at h
    split at h
    · exact absurd h (by simp)
    · split at h
      · cases h
        exact ⟨rfl, by simp [marksOf], by simp [sendsOf], rfl, rfl⟩
      · exact absurd h (by simp)
      · cases h
        exact ⟨rfl, by simp [updateJoinSet, marksOf], by simp [updateJoinSet, sendsOf], rfl, rfl⟩
  | _ =>
    cases h
    exact ⟨rfl, by simp [updateJoinSet, marksOf], by simp [updateJoinSet, sendsOf], rfl, rfl⟩

end World

/-- The machine the controller's programs run on. -/
def machine (σ : Type) [Extern] [Storage σ] : Lib.Machine Op Op.Res (World σ) Ext Request where
  exec x o w := World.exec x o w

/-- A program of the controller. -/
abbrev Proc (α : Type) := Lib.Prog Op Op.Res α

/-- Perform one storage call. -/
def storage (c : StorageCall) : Proc c.Res := Lib.Prog.perform (Op.storage c)

/-- Perform one operation. -/
def op (o : Op) : Proc o.Res := Lib.Prog.perform o

/-- Record where the task is. -/
def mark (m : Mark) : Proc Unit := Lib.Prog.perform (Op.mark m)

/-! ## Rules

The rules of `Calls`, `wp` and `Ensures` for the three ways a program performs an operation.
-/

section Rules

open Lib

variable {α S : Type} {P : Op → Prop} {M : Monitor Op Op.Res S} {Q : S → α → Prop} {s : S}

@[simp] theorem calls_storage {c : StorageCall} {f : c.Res → Proc α} :
    (@Prog.bind Op Op.Res (no_index c.Res) α (storage c) f).Calls P ↔ P (.storage c) ∧ ∀ r, (f r).Calls P := Iff.rfl

@[simp] theorem calls_op {o : Op} {f : o.Res → Proc α} :
    (@Prog.bind Op Op.Res (no_index o.Res) α (op o) f).Calls P ↔ P o ∧ ∀ r, (f r).Calls P := Iff.rfl

@[simp] theorem calls_mark {m : Mark} {f : Unit → Proc α} :
    ((mark m).bind f).Calls P ↔ P (.mark m) ∧ (f ()).Calls P :=
  ⟨fun h => ⟨h.1, h.2 ()⟩, fun h => ⟨h.1, fun _ => h.2⟩⟩

@[simp] theorem calls_op_last {o : Op} : (@Prog.Calls Op Op.Res (no_index o.Res) P (op o)) ↔ P o :=
  Prog.calls_perform

@[simp] theorem wp_storage {c : StorageCall} {f : c.Res → Proc α} :
    (@Prog.bind Op Op.Res (no_index c.Res) α (storage c) f).wp M Q s ↔ M.allow s (.storage c) ∧
      ∀ r : c.Res, M.expect (.storage c) r → (f r).wp M Q (M.next s (.storage c) r) := Iff.rfl

@[simp] theorem wp_op {o : Op} {f : o.Res → Proc α} :
    (@Prog.bind Op Op.Res (no_index o.Res) α (op o) f).wp M Q s ↔
      M.allow s o ∧ ∀ r, M.expect o r → (f r).wp M Q (M.next s o r) := Iff.rfl

@[simp] theorem wp_mark {m : Mark} {f : Unit → Proc α} :
    ((mark m).bind f).wp M Q s ↔ M.allow s (.mark m) ∧
      (M.expect (.mark m) () → (f ()).wp M Q (M.next s (.mark m) ())) :=
  ⟨fun h => ⟨h.1, h.2 ()⟩, fun h => ⟨h.1, fun _ => h.2⟩⟩

/-- Stepping over a storage call the monitor does not react to. -/
theorem wp_storage_silent {c : StorageCall} {f : c.Res → Proc α} (hc : M.Silent (.storage c))
    (hf : ∀ r, (f r).wp M Q s) : ((storage c).bind f).wp M Q s := Prog.wp_of_silent hc hf

/-- Stepping over an operation the monitor does not react to. -/
theorem wp_op_silent {o : Op} {f : o.Res → Proc α} (ho : M.Silent o)
    (hf : ∀ r, (f r).wp M Q s) : ((op o).bind f).wp M Q s := Prog.wp_of_silent ho hf

/-- Stepping over a mark the monitor does not react to. -/
theorem wp_mark_silent {m : Mark} {f : Unit → Proc α} (hm : M.Silent (.mark m))
    (hf : (f ()).wp M Q s) : ((mark m).bind f).wp M Q s := Prog.wp_of_silent hm fun _ => hf

variable {σ : Type} [Extern] [Storage σ] {R : World σ → World σ → Prop}
  {T : α → World σ → Prop} {w : World σ}

@[simp] theorem ensures_op {o : Op} {f : o.Res → Proc α} :
    (machine σ).Ensures R (@Prog.bind Op Op.Res (no_index o.Res) α (op o) f) T w ↔ ∀ w₁, R w w₁ → ∀ x r w₂,
      World.exec x o w₁ = some (r, w₂, []) → (machine σ).Ensures R (f r) T w₂ := Iff.rfl

/-- A storage call is answered by the backend and changes the storage only. -/
@[simp] theorem ensures_storage {c : StorageCall} {f : c.Res → Proc α} :
    (machine σ).Ensures R (@Prog.bind Op Op.Res (no_index c.Res) α (storage c) f) T w ↔ ∀ w₁, R w w₁ → ∀ now,
      (machine σ).Ensures R (f (Storage.call now c w₁.storage).1) T
        { w₁ with storage := (Storage.call now c w₁.storage).2 } := by
  constructor
  · intro h w₁ hw₁ now
    exact h w₁ hw₁ ⟨now, "", .elapsed false⟩ _ _ rfl
  · intro h w₁ hw₁ x r w₂ hx
    cases hx
    exact h w₁ hw₁ x.now

@[simp] theorem ensures_mark {m : Mark} {f : Unit → Proc α} :
    (machine σ).Ensures R ((mark m).bind f) T w ↔ ∀ w₁, R w w₁ →
      (machine σ).Ensures R (f ()) T { w₁ with marks := w₁.marks ++ [m] } := by
  constructor
  · intro h w₁ hw₁
    exact h w₁ hw₁ ⟨0, "", .elapsed false⟩ _ _ rfl
  · intro h w₁ hw₁ x r w₂ hx
    cases hx
    exact h w₁ hw₁

/-- A storage call that is answered with `r`. -/
theorem can_storage {D : World σ → Prop} {c : StorageCall} {f : c.Res → Proc α} {r : c.Res}
    {t : σ} (now : DateTime) (hc : Storage.call now c w.storage = (r, t))
    (h : (machine σ).Can D (f r) { w with storage := t }) :
    (machine σ).Can D (@Prog.bind Op Op.Res (no_index c.Res) α (storage c) f) w := by
  have hx : World.exec ⟨now, "", .elapsed false⟩ (.storage c) w =
      some (r, { w with storage := t }, []) := by
    simp only [World.exec, hc]
  exact .perform _ hx h

end Rules

end PaciNet

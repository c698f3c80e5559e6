import Mathlib.Algebra.Ring.Nat
import Mathlib.Algebra.Ring.Int.Defs
import Mathlib.Data.List.AList
import Mathlib.Data.Rat.Defs

/-!
# The data model

The records the controller keeps, with the source's field names. A `HashMap` is an `AList`:
keys are unique by construction and the order of the entries is the map's iteration order.
Instants and durations are whole nanoseconds.

`f64` appears only as a threshold and as a rate. It is an exact rational, an infinity or a NaN:
what a comparison does with each of them is the IEEE one, the rounding of a quotient is left
out.
-/

set_option autoImplicit false

namespace PaciNet

/-- An instant in UTC, in nanoseconds since the epoch. -/
abbrev DateTime := Int

/-- `HashMap<String, String>`. -/
abbrev Labels := AList fun _ : String => String

/-- Maps are compared by their entries, a comparison that computes. -/
instance : DecidableEq Labels := fun a b =>
  decidable_of_iff (a.entries = b.entries) AList.ext_iff.symm

/-- `n as u32`. -/
def asU32 (n : Nat) : Nat := n % 2 ^ 32

/-- `str::to_ascii_lowercase`. Where the source lowers with `to_lowercase` it compares with ASCII
    words without a `k`, and no letter outside ASCII lowers to any other ASCII letter. -/
def asciiLowercase (s : String) : String := .ofList (s.toList.map Char.toLower)

/-! ## Floating point values -/

inductive F64 where
  | finite (q : Rat)
  | inf
  | negInf
  | nan
  deriving DecidableEq

namespace F64

def isFinite : F64 → Bool
  | .finite _ => true
  | _ => false

/-- `a <= b`; every comparison with a NaN is false. -/
def le : F64 → F64 → Bool
  | .nan, _ | _, .nan => false
  | .negInf, _ | _, .inf => true
  | .finite a, .finite b => a ≤ b
  | _, _ => false

def add : F64 → F64 → F64
  | .nan, _ | _, .nan => .nan
  | .inf, .negInf | .negInf, .inf => .nan
  | .inf, _ | _, .inf => .inf
  | .negInf, _ | _, .negInf => .negInf
  | .finite a, .finite b => .finite (a + b)

end F64

/-! ## Nodes -/

/-- State of a node in the network. -/
inductive NodeState where
  | registered
  | online
  | deploying
  | active
  | error
  | offline
  deriving DecidableEq, Repr

namespace NodeState

/-- The valid target states of a state. -/
def validTransitions : NodeState → List NodeState
  | .registered => [.online, .offline]
  | .online => [.deploying, .error, .offline]
  | .deploying => [.active, .error, .offline]
  | .active => [.deploying, .error, .offline]
  | .error => [.online, .deploying, .offline]
  | .offline => [.online]

def canTransitionTo (s target : NodeState) : Bool := s.validTransitions.contains target

protected def toString : NodeState → String
  | .registered => "registered"
  | .online => "online"
  | .deploying => "deploying"
  | .active => "active"
  | .error => "error"
  | .offline => "offline"

def fromStr (s : String) : Except String NodeState :=
  match asciiLowercase s with
  | "registered" => .ok .registered
  | "online" => .ok .online
  | "deploying" => .ok .deploying
  | "active" => .ok .active
  | "error" => .ok .error
  | "offline" => .ok .offline
  | _ => .error ("unknown node state: " ++ s)

/-- The stored text of a state reads back as that state. -/
@[simp] theorem fromStr_toString (s : NodeState) : fromStr s.toString = .ok s := by
  cases s <;> rfl

end NodeState

/-- The node state as it travels in a protobuf message. -/
inductive ProtoNodeState where
  | unspecified
  | registered
  | online
  | deploying
  | active
  | error
  | offline
  deriving DecidableEq, Repr

/-- `NodeState::try_from(i32)`. -/
def ProtoNodeState.tryFrom : Int → Option ProtoNodeState
  | 0 => some .unspecified
  | 1 => some .registered
  | 2 => some .online
  | 3 => some .deploying
  | 4 => some .active
  | 5 => some .error
  | 6 => some .offline
  | _ => none

/-- `self as i32`. -/
def ProtoNodeState.toInt : ProtoNodeState → Int
  | .unspecified => 0
  | .registered => 1
  | .online => 2
  | .deploying => 3
  | .active => 4
  | .error => 5
  | .offline => 6

@[simp] theorem ProtoNodeState.tryFrom_toInt (s : ProtoNodeState) :
    tryFrom s.toInt = some s := by
  cases s <;> rfl

/-- `From<pacinet_proto::NodeState>`. -/
def NodeState.ofProto : ProtoNodeState → NodeState
  | .unspecified => .offline
  | .registered => .registered
  | .online => .online
  | .deploying => .deploying
  | .active => .active
  | .error => .error
  | .offline => .offline

/-- A node managed by the controller. -/
structure Node where
  nodeId : String
  hostname : String
  agentAddress : String
  labels : Labels
  capabilities : Labels
  state : NodeState
  registeredAt : DateTime
  lastHeartbeat : DateTime
  pacgateVersion : String
  uptimeSeconds : Nat
  annotations : Labels
  deriving DecidableEq

/-- `Node::new`, given the clock reading and the fresh id it draws. -/
def Node.new (now : DateTime) (uuid hostname agentAddress : String) (labels : Labels)
    (pacgateVersion : String) : Node where
  nodeId := uuid
  hostname := hostname
  agentAddress := agentAddress
  labels := labels
  capabilities := ∅
  state := .registered
  registeredAt := now
  lastHeartbeat := now
  pacgateVersion := pacgateVersion
  uptimeSeconds := 0
  annotations := ∅

/-! ## Policies -/

/-- The compile options of a request; the same fourteen fields in the protobuf message, in a
    deployed policy and in the FSM's own options (where `intEnabled` is called `int`). -/
@[ext] structure CompileOptions where
  counters : Bool
  rateLimit : Bool
  conntrack : Bool
  axi : Bool
  ports : Nat
  target : String
  dynamic : Bool
  dynamicEntries : Nat
  width : Nat
  ptp : Bool
  rss : Bool
  rssQueues : Nat
  intEnabled : Bool
  intSwitchId : Nat
  deriving DecidableEq

/-- The protobuf default, `CompileOptions::default()`. -/
def CompileOptions.default : CompileOptions where
  counters := false
  rateLimit := false
  conntrack := false
  axi := false
  ports := 0
  target := ""
  dynamic := false
  dynamicEntries := 0
  width := 0
  ptp := false
  rss := false
  rssQueues := 0
  intEnabled := false
  intSwitchId := 0

/-- The policy stored for a node. -/
structure Policy where
  nodeId : String
  rulesYaml : String
  policyHash : String
  deployedAt : DateTime
  countersEnabled : Bool
  rateLimitEnabled : Bool
  conntrackEnabled : Bool
  axiEnabled : Bool
  ports : Nat
  target : String
  dynamic : Bool
  dynamicEntries : Nat
  width : Nat
  ptp : Bool
  rss : Bool
  rssQueues : Nat
  int : Bool
  intSwitchId : Nat
  deriving DecidableEq

/-- A numbered snapshot of a stored policy. -/
structure PolicyVersion extends Policy where
  version : Nat
  deriving DecidableEq

/-- The options a stored policy was compiled with, as the rollback paths rebuild them. -/
def Policy.options (p : Policy) : CompileOptions where
  counters := p.countersEnabled
  rateLimit := p.rateLimitEnabled
  conntrack := p.conntrackEnabled
  axi := p.axiEnabled
  ports := p.ports
  target := p.target
  dynamic := p.dynamic
  dynamicEntries := p.dynamicEntries
  width := p.width
  ptp := p.ptp
  rss := p.rss
  rssQueues := p.rssQueues
  intEnabled := p.int
  intSwitchId := p.intSwitchId

/-! ## Deployments -/

inductive DeploymentResult where
  | success
  | agentFailure
  | agentUnreachable
  | timeout
  deriving DecidableEq, Repr

namespace DeploymentResult

protected def toString : DeploymentResult → String
  | .success => "success"
  | .agentFailure => "agent_failure"
  | .agentUnreachable => "agent_unreachable"
  | .timeout => "timeout"

def fromStr (s : String) : Except String DeploymentResult :=
  match asciiLowercase s with
  | "success" => .ok .success
  | "agent_failure" => .ok .agentFailure
  | "agent_unreachable" => .ok .agentUnreachable
  | "timeout" => .ok .timeout
  | _ => .error ("unknown deployment result: " ++ s)

@[simp] theorem fromStr_toString (r : DeploymentResult) : fromStr r.toString = .ok r := by
  cases r <;> rfl

end DeploymentResult

/-- Audit trail of one deployment. -/
structure DeploymentRecord where
  id : String
  nodeId : String
  policyVersion : Nat
  policyHash : String
  deployedAt : DateTime
  result : DeploymentResult
  message : String
  deriving DecidableEq

/-! ## Counters -/

structure RuleCounter where
  ruleName : String
  matchCount : Nat
  byteCount : Nat
  deriving DecidableEq

structure FlowCounter where
  flowKey : String
  packetCount : Nat
  byteCount : Nat
  state : String
  deriving DecidableEq

/-- Counters of a node at an instant. -/
structure CounterSnapshot where
  nodeId : String
  collectedAt : DateTime
  counters : List RuleCounter
  deriving DecidableEq

/-! ## Logs -/

structure PersistentEvent where
  id : String
  eventType : String
  source : String
  payload : String
  timestamp : DateTime
  deriving DecidableEq

structure AuditEntry where
  id : String
  timestamp : DateTime
  actor : String
  action : String
  resourceType : String
  resourceId : String
  details : String
  deriving DecidableEq

structure PolicyTemplate where
  name : String
  description : String
  rulesYaml : String
  tags : List String
  createdAt : DateTime
  updatedAt : DateTime
  deriving DecidableEq

structure WebhookDelivery where
  id : String
  instanceId : String
  url : String
  method : String
  statusCode : Option Nat
  success : Bool
  durationMs : Nat
  error : Option String
  attempt : Nat
  timestamp : DateTime
  deriving DecidableEq

end PaciNet

import PaciNet.Lib.Broadcast
import PaciNet.Server.Counters
import PaciNet.Server.Methods
import PaciNet.Storage.Timestamps

/-!
# Events

The event bus has a channel for each kind of event. What is published on a channel is streamed to
clients of the REST API as JSON and to those of the gRPC API as messages, and written to the event
log. This file has the events, the filters a client may ask for, and the three forms an event is
given. Each form is a function of the event alone, but for the id of a log entry.

The handlers publish the node events of `Server/Messages.lean`; `HeartbeatStale` is published by the
task that looks for stale nodes only.
-/

set_option autoImplicit false

namespace PaciNet

open Lib

/-! ## Channels -/

/-- `NodeEvent`, with the variant that no handler publishes. -/
inductive PublishedNodeEvent where
  | handled (e : NodeEvent)
  | heartbeatStale (nodeId hostname : String) (labels : Labels) (timestamp : DateTime)
  deriving DecidableEq

/-- The channels of the event bus. -/
inductive Channel where
  | fsm
  | counter
  | node
  deriving DecidableEq, Repr

/-- What travels on a channel. -/
@[reducible] def Channel.Event : Channel → Type
  | fsm => FsmEvent
  | counter => CounterEvent
  | node => PublishedNodeEvent

/-- `EventBus`: what was ever sent on each channel. -/
abbrev EventBus := (c : Channel) → List c.Event

namespace EventBus

/-- The buffer size `main` gives to each channel. -/
def bufferSize : Nat := 256

def new : EventBus := fun _ => []

/-- `emit_fsm`, `emit_counter` and `emit_node`. -/
def emit (bus : EventBus) (c : Channel) (e : c.Event) : EventBus :=
  fun d => if h : c = d then bus d ++ [h ▸ e] else bus d

@[simp] theorem emit_self (bus : EventBus) (c : Channel) (e : c.Event) :
    bus.emit c e c = bus c ++ [e] := by
  simp [emit]

theorem emit_ne (bus : EventBus) {c d : Channel} (e : c.Event) (h : c ≠ d) :
    bus.emit c e d = bus d := by
  simp [emit, h]

/-- A channel only ever grows. -/
theorem prefix_emit (bus : EventBus) (c : Channel) (e : c.Event) (d : Channel) :
    bus d <+: bus.emit c e d := by
  by_cases h : c = d
  · subst h
    rw [emit_self]
    exact List.prefix_append _ _
  · rw [emit_ne bus e h]

end EventBus

/-! ## What an event is about -/

/-- `FsmEvent::instance_id`. -/
def FsmEvent.instanceId : FsmEvent → String
  | transition instanceId _ _ _ _ _ _ | deployProgress instanceId _ _ _ _ _
  | instanceCompleted instanceId _ _ _ => instanceId

def NodeEvent.nodeId : NodeEvent → String
  | registered nodeId _ _ _ | stateChanged nodeId _ _ _ _ _ | removed nodeId _ _ _ => nodeId

def NodeEvent.labels : NodeEvent → Labels
  | registered _ _ labels _ | stateChanged _ _ labels _ _ _ | removed _ _ labels _ => labels

namespace PublishedNodeEvent

/-- `NodeEvent::node_id`. -/
def nodeId : PublishedNodeEvent → String
  | handled e => e.nodeId
  | heartbeatStale nodeId _ _ _ => nodeId

/-- `NodeEvent::labels`. -/
def labels : PublishedNodeEvent → Labels
  | handled e => e.labels
  | heartbeatStale _ _ labels _ => labels

/-- An event has every label of the filter. -/
def matchesLabels (filter : Labels) (e : PublishedNodeEvent) : Bool :=
  filter.entries.all fun l => e.labels.lookup l.1 == some l.2

end PublishedNodeEvent

/-! ## JSON -/

/-- `to_rfc3339`. -/
def rfc3339 (t : DateTime) : String := (UtcInstant.ofDateTime t).toRfc3339

structure NodeEventJson where
  eventType : String
  nodeId : String
  hostname : String
  labels : Labels
  oldState : String
  newState : String
  timestamp : String
  deriving DecidableEq

def nodeEventToJson : PublishedNodeEvent → NodeEventJson
  | .handled (.registered nodeId hostname labels timestamp) =>
    ⟨"registered", nodeId, hostname, labels, "", "registered", rfc3339 timestamp⟩
  | .handled (.stateChanged nodeId hostname labels oldState newState timestamp) =>
    ⟨"state_changed", nodeId, hostname, labels, oldState, newState, rfc3339 timestamp⟩
  | .heartbeatStale nodeId hostname labels timestamp =>
    ⟨"heartbeat_stale", nodeId, hostname, labels, "", "offline", rfc3339 timestamp⟩
  | .handled (.removed nodeId hostname labels timestamp) =>
    ⟨"removed", nodeId, hostname, labels, "", "", rfc3339 timestamp⟩

/-- `CounterEventJson`; its counters have the fields of `CounterRateData`. -/
structure CounterEventJson where
  nodeId : String
  counters : List CounterRateData
  collectedAt : String

def counterEventToJson (e : CounterEvent) : CounterEventJson :=
  ⟨e.nodeId, e.counters, rfc3339 e.collectedAt⟩

structure FsmEventJson where
  eventType : String
  instanceId : String
  definitionName : String
  fromState : String
  toState : String
  trigger : String
  message : String
  deployedNodes : Option Nat
  failedNodes : Option Nat
  targetNodes : Option Nat
  finalStatus : Option String
  timestamp : String
  deriving DecidableEq

def fsmEventToJson : FsmEvent → FsmEventJson
  | .transition instanceId definitionName fromState toState trigger message timestamp =>
    ⟨"transition", instanceId, definitionName, fromState, toState, trigger, message, none, none,
      none, none, rfc3339 timestamp⟩
  | .deployProgress instanceId definitionName deployed failed target timestamp =>
    ⟨"deploy_progress", instanceId, definitionName, "", "", "", "", some deployed, some failed,
      some target, none, rfc3339 timestamp⟩
  | .instanceCompleted instanceId definitionName finalStatus timestamp =>
    ⟨"instance_completed", instanceId, definitionName, "", "", "", "", none, none, none,
      some finalStatus, rfc3339 timestamp⟩

/-- What `serde_json::to_string` writes, where it does not fail. -/
class WriteJson where
  nodeEvent : NodeEventJson → Option String
  counterEvent : CounterEventJson → Option String
  fsmEvent : FsmEventJson → Option String
  /-- The text of an event as it is. -/
  payload : (c : Channel) → c.Event → Option String

/-- An instance to evaluate the model on: it tells events apart by their kind and what they are
    about. -/
@[reducible] def WriteJson.sample : WriteJson where
  nodeEvent e := some (e.eventType ++ " " ++ e.nodeId)
  counterEvent e := some ("counters " ++ e.nodeId)
  fsmEvent e := some (e.eventType ++ " " ++ e.instanceId)
  payload
    | .fsm, e => some e.instanceId
    | .counter, e => some e.nodeId
    | .node, e => some e.nodeId

/-! ## Messages -/

/-- The timestamp of an event in a message: its seconds. -/
def protoTimestamp (t : DateTime) : Timestamp := ⟨t / 10 ^ 9, 0⟩

/-- `FsmEventType`. -/
inductive FsmEventType where
  | unspecified
  | transition
  | deployProgress
  | instanceCompleted
  deriving DecidableEq, Repr

/-- `pacinet_proto::FsmEvent`. -/
structure FsmEventMessage where
  eventType : FsmEventType
  instanceId : String
  definitionName : String
  fromState : String
  toState : String
  trigger : String
  message : String
  deployedNodes : Nat
  failedNodes : Nat
  targetNodes : Nat
  finalStatus : String
  timestamp : Option Timestamp
  deriving DecidableEq

def domainFsmToProto : FsmEvent → FsmEventMessage
  | .transition instanceId definitionName fromState toState trigger message timestamp =>
    ⟨.transition, instanceId, definitionName, fromState, toState, trigger, message, 0, 0, 0, "",
      some (protoTimestamp timestamp)⟩
  | .deployProgress instanceId definitionName deployed failed target timestamp =>
    ⟨.deployProgress, instanceId, definitionName, "", "", "", "", deployed, failed, target, "",
      some (protoTimestamp timestamp)⟩
  | .instanceCompleted instanceId definitionName finalStatus timestamp =>
    ⟨.instanceCompleted, instanceId, definitionName, "", "", "", "", 0, 0, 0, finalStatus,
      some (protoTimestamp timestamp)⟩

structure CounterUpdate where
  nodeId : String
  counters : List CounterRateData
  collectedAt : Option Timestamp

def domainCounterToProto (e : CounterEvent) : CounterUpdate :=
  ⟨e.nodeId, e.counters, some (protoTimestamp e.collectedAt)⟩

/-- `NodeEventType`. -/
inductive NodeEventType where
  | unspecified
  | registered
  | stateChanged
  | heartbeatStale
  | removed
  deriving DecidableEq, Repr

/-- `pacinet_proto::NodeEvent`. -/
structure NodeEventMessage where
  eventType : NodeEventType
  nodeId : String
  hostname : String
  labels : Labels
  oldState : Int
  newState : Int
  timestamp : Option Timestamp
  deriving DecidableEq

/-- `From<NodeState> for pacinet_proto::NodeState`. -/
def NodeState.toProto : NodeState → ProtoNodeState
  | .registered => .registered
  | .online => .online
  | .deploying => .deploying
  | .active => .active
  | .error => .error
  | .offline => .offline

/-- The number of the state with the given name, zero if there is none. -/
def stateNumber (name : String) : Int :=
  match NodeState.fromStr name with
  | .ok s => s.toProto.toInt
  | .error _ => 0

def domainNodeToProto : PublishedNodeEvent → NodeEventMessage
  | .handled (.registered nodeId hostname labels timestamp) =>
    ⟨.registered, nodeId, hostname, labels, ProtoNodeState.unspecified.toInt,
      ProtoNodeState.registered.toInt, some (protoTimestamp timestamp)⟩
  | .handled (.stateChanged nodeId hostname labels oldState newState timestamp) =>
    ⟨.stateChanged, nodeId, hostname, labels, stateNumber oldState, stateNumber newState,
      some (protoTimestamp timestamp)⟩
  | .heartbeatStale nodeId hostname labels timestamp =>
    ⟨.heartbeatStale, nodeId, hostname, labels, ProtoNodeState.unspecified.toInt,
      ProtoNodeState.offline.toInt, some (protoTimestamp timestamp)⟩
  | .handled (.removed nodeId hostname labels timestamp) =>
    ⟨.removed, nodeId, hostname, labels, ProtoNodeState.unspecified.toInt,
      ProtoNodeState.unspecified.toInt, some (protoTimestamp timestamp)⟩

/-! ## Log entries -/

/-- The type, the source and the time of the log entry of an event. -/
def Channel.entryOf : (c : Channel) → c.Event → String × String × DateTime
  | .fsm, .transition instanceId _ _ _ _ _ timestamp => ("fsm.transition", instanceId, timestamp)
  | .fsm, .deployProgress instanceId _ _ _ _ timestamp =>
    ("fsm.deploy_progress", instanceId, timestamp)
  | .fsm, .instanceCompleted instanceId _ _ timestamp => ("fsm.completed", instanceId, timestamp)
  | .counter, e => ("counter.update", e.nodeId, e.collectedAt)
  | .node, .handled (.registered nodeId _ _ timestamp) => ("node.registered", nodeId, timestamp)
  | .node, .handled (.stateChanged nodeId _ _ _ _ timestamp) =>
    ("node.state_changed", nodeId, timestamp)
  | .node, .heartbeatStale nodeId _ _ timestamp => ("node.heartbeat_stale", nodeId, timestamp)
  | .node, .handled (.removed nodeId _ _ timestamp) => ("node.removed", nodeId, timestamp)

/-- `to_persistent` of the three kinds of events, with the id it draws. -/
def toPersistent [WriteJson] (c : Channel) (e : c.Event) (id : String) : PersistentEvent where
  id := id
  eventType := (c.entryOf e).1
  source := (c.entryOf e).2.1
  payload := (WriteJson.payload c e).getD ""
  timestamp := (c.entryOf e).2.2

end PaciNet

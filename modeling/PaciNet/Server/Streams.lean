import PaciNet.Server.Events

/-!
# The server process

Beside its handlers the process runs tasks of its own, and streams events to whoever asks for them.
This file puts these beside the controller: the six event streams of the two APIs, the task that
writes events to the event log, and the task that looks for stale nodes. They act on the event bus,
which takes note of what the handlers publish.

A stream goes on until its client is gone, and a task until the process ends. Either happens while
something is awaited, and the answer of an operation that is awaited says whether it did (`none`).
The loops are read for a number of turns that is given with the request, which may be any.

The metrics are left out.
-/

set_option autoImplicit false

namespace PaciNet

open Lib Lib.Broadcast

/-! ## Operations -/

/-- What a stream yields. -/
inductive Streamed where
  | data (text : String)
  | fsm (m : FsmEventMessage)
  | counters (m : CounterUpdate)
  | node (m : NodeEventMessage)

/-- The operations on the event bus. `select` awaits the receivers of the channels that are enabled.
    The only event these tasks publish is `HeartbeatStale`. -/
inductive BusOp where
  | subscribe (c : Channel)
  | recv (c : Channel) (next : Nat)
  | select (next : Channel → Nat) (enabled : Channel → Bool)
  | emitStale (nodeId hostname : String) (labels : Labels) (timestamp : DateTime)
  | yieldItem (item : Streamed)

/-- What a channel gives its receiver, and where the receiver is then. -/
abbrev Given := (c : Channel) × Received c.Event × Nat

@[reducible] def BusOp.Res : BusOp → Type
  | subscribe _ => Nat
  | recv c _ => Option (Received c.Event × Nat)
  | select _ _ => Option Given
  | emitStale _ _ _ _ => Unit
  | yieldItem _ => Option Unit

/-- What is decided outside while one of these operations runs. -/
structure BusExt where
  dropped : Bool
  polled : Channel

/-- What the operations do. -/
def BusOp.exec (x : BusExt) : (o : BusOp) → EventBus → Option (o.Res × EventBus)
  | .subscribe c, bus => some ((bus c).length, bus)
  | .recv c next, bus =>
    if x.dropped then some (none, bus)
    else (Broadcast.recv EventBus.bufferSize (bus c) next).map fun got => (some got, bus)
  | .select next enabled, bus =>
    if x.dropped then some (none, bus)
    else if enabled x.polled then
      (Broadcast.recv EventBus.bufferSize (bus x.polled) (next x.polled)).map fun got =>
        (some ⟨x.polled, got⟩, bus)
    else none
  | .emitStale nodeId hostname labels timestamp, bus =>
    some ((), bus.emit .node (.heartbeatStale nodeId hostname labels timestamp))
  | .yieldItem _, bus => some (if x.dropped then none else some (), bus)

/-- What the operations of the controller publish. -/
def published : CountingOp → EventBus → EventBus
  | .inl (.emitFsm e), bus => bus.emit .fsm e
  | .inl (.emitNode e), bus => bus.emit .node (.handled e)
  | .inr (.emitCounter e), bus => bus.emit .counter e
  | _, bus => bus

/-- An operation of the process. -/
abbrev ServerOp := CountingOp ⊕ BusOp

@[reducible] def ServerOp.Res : ServerOp → Type :=
  BothRes (BothRes Op.Res CounterOp.Res) BusOp.Res

/-- A program of the process. -/
abbrev ServerProc (α : Type) := Prog ServerOp ServerOp.Res α

def busOp (o : BusOp) : ServerProc o.Res := Prog.perform (.inr o : ServerOp)

/-- An operation of the controller. -/
def serverOp (o : Op) : ServerProc o.Res := Prog.perform (.inl (.inl o) : ServerOp)

/-! ## Streams -/

/-- What tells a stream from the others: the events its client wants, and what it makes of them. -/
structure EventStream (c : Channel) where
  keep : c.Event → Bool
  item : c.Event → Option Streamed

/-- What the stream yields for an event, if anything. -/
def EventStream.yields {c : Channel} (s : EventStream c) (e : c.Event) : Option Streamed :=
  if s.keep e then s.item e else none

/-- Yield an item, if there is one, and go on. -/
def yieldThen (item : Option Streamed) (rest : ServerProc Unit) : ServerProc Unit :=
  match item with
  | none => rest
  | some item => do
    match ← busOp (.yieldItem item) with
    | none => pure ()
    | some () => rest

/-- The loop of a stream. A gap is logged and passed over. -/
def readStream {c : Channel} (s : EventStream c) : Nat → Nat → ServerProc Unit
  | 0, _ => pure ()
  | turns + 1, next => do
    match ← busOp (.recv c next) with
    | none => pure ()
    | some (.lagged _, next) => readStream s turns next
    | some (.event e, next) => yieldThen (s.yields e) (readStream s turns next)

def serveStream {c : Channel} (s : EventStream c) (turns : Nat) : ServerProc Unit := do
  let next ← busOp (.subscribe c)
  readStream s turns next

section Streams

variable [WriteJson]

def sseNodeEvents (label : Option String) : EventStream .node where
  keep e := (parseLabelFilter label).entries.isEmpty || e.matchesLabels (parseLabelFilter label)
  item e := (WriteJson.nodeEvent (nodeEventToJson e)).map .data

def sseCounterEvents (node : Option String) : EventStream .counter where
  keep e := node.all fun id => e.nodeId == id
  item e := (WriteJson.counterEvent (counterEventToJson e)).map .data

def sseFsmEvents (instanceId : Option String) : EventStream .fsm where
  keep e := instanceId.all fun id => e.instanceId == id
  item e := (WriteJson.fsmEvent (fsmEventToJson e)).map .data

omit [WriteJson] in
/-- An empty filter of a gRPC stream asks for everything. -/
def filterOf (id : String) : Option String := if id = "" then none else some id

def watchFsmEvents (instanceId : String) : EventStream .fsm where
  keep e := (filterOf instanceId).all fun id => e.instanceId == id
  item e := some (.fsm (domainFsmToProto e))

def watchCounters (nodeId : String) : EventStream .counter where
  keep e := (filterOf nodeId).all fun id => e.nodeId == id
  item e := some (.counters (domainCounterToProto e))

def watchNodeEvents (labelFilter : Labels) : EventStream .node where
  keep e := labelFilter.entries.isEmpty || e.matchesLabels labelFilter
  item e := some (.node (domainNodeToProto e))

/-- A request for a stream. -/
inductive StreamRequest where
  | sseNodeEvents (label : Option String)
  | sseCounterEvents (node : Option String)
  | sseFsmEvents (instanceId : Option String)
  | watchFsmEvents (instanceId : String)
  | watchCounters (nodeId : String)
  | watchNodeEvents (labelFilter : Labels)
  deriving DecidableEq

namespace StreamRequest

/-- The channel a stream is about. -/
@[reducible] def channel : StreamRequest → Channel
  | sseNodeEvents _ | watchNodeEvents _ => .node
  | sseCounterEvents _ | watchCounters _ => .counter
  | sseFsmEvents _ | watchFsmEvents _ => .fsm

def stream : (q : StreamRequest) → EventStream q.channel
  | sseNodeEvents label => PaciNet.sseNodeEvents label
  | sseCounterEvents node => PaciNet.sseCounterEvents node
  | sseFsmEvents instanceId => PaciNet.sseFsmEvents instanceId
  | watchFsmEvents instanceId => PaciNet.watchFsmEvents instanceId
  | watchCounters nodeId => PaciNet.watchCounters nodeId
  | watchNodeEvents labelFilter => PaciNet.watchNodeEvents labelFilter

omit [WriteJson] in
/-- The gRPC service may have been built without an event bus. -/
def available (cfg : ControllerConfig) : StreamRequest → Bool
  | sseNodeEvents _ | sseCounterEvents _ | sseFsmEvents _ => true
  | watchFsmEvents _ | watchCounters _ | watchNodeEvents _ => cfg.eventBus

end StreamRequest

def serveStreamRequest (cfg : ControllerConfig) (q : StreamRequest) (turns : Nat) :
    ServerProc (Except Status Unit) := do
  if q.available cfg then
    serveStream q.stream turns
    pure (.ok ())
  else pure (.error ⟨.unavailable, "Event streaming not available"⟩)

end Streams

/-! ## The event log -/

/-- Put the receiver of a channel where it is now. -/
def advance (next : Channel → Nat) (c : Channel) (n : Nat) : Channel → Nat :=
  fun d => if d = c then n else next d

/-- The positions of three receivers. -/
def receivers (fsm counter node : Nat) : Channel → Nat
  | .fsm => fsm
  | .counter => counter
  | .node => node

/-- The branches of a `select` after one of them did not match. -/
def disable (enabled : Channel → Bool) (c : Channel) : Channel → Bool :=
  fun d => d != c && enabled d

/-- Every branch of a new `select`. -/
def allEnabled : Channel → Bool := fun _ => true

section EventLog

variable [WriteJson]

/-- What the task does with an event. -/
def persistEvent (persistCounterEvents : Bool) (c : Channel) (e : c.Event) : ServerProc Unit := do
  if c = .counter && !persistCounterEvents then pure ()
  else if ← serverOp .isLeader then
    let id ← serverOp .uuid
    let _ ← serverOp (.storage (.storeEvent (toPersistent c e id)))
    pure ()
  else pure ()

/-- The loop of the task. A gap does not match `Ok(event)`, which disables the branch until the
    `select` is over; when no branch is left, so is the loop. The result says whether that is how it
    ended. -/
def persistLoop (persistCounterEvents : Bool) :
    Nat → (Channel → Nat) → (Channel → Bool) → ServerProc Bool
  | 0, _, _ => pure false
  | turns + 1, next, enabled =>
    if enabled .fsm || enabled .counter || enabled .node then do
      match ← busOp (.select next enabled) with
      | none => pure false
      | some ⟨c, .lagged _, n⟩ =>
        persistLoop persistCounterEvents turns (advance next c n) (disable enabled c)
      | some ⟨c, .event e, n⟩ =>
        persistEvent persistCounterEvents c e
        persistLoop persistCounterEvents turns (advance next c n) allEnabled
    else pure true

/-- The task, with the subscriptions `main` makes for it. -/
def persistEvents (persistCounterEvents : Bool) (turns : Nat) : ServerProc Bool := do
  let fsm ← busOp (.subscribe .fsm)
  let counter ← busOp (.subscribe .counter)
  let node ← busOp (.subscribe .node)
  persistLoop persistCounterEvents turns (receivers fsm counter node) allEnabled

end EventLog

/-! ## Stale nodes -/

/-- What the reaper is configured with: `stale_threshold()`, and the age in days at which events are
    pruned. -/
structure ReaperConfig where
  staleThreshold : Int
  eventMaxAgeDays : Nat
  deriving DecidableEq

/-- Publish that the node has been marked, if it is still there. -/
def emitStale (id : String) : ServerProc Unit := do
  match ← serverOp (.storage (.getNode id)) with
  | .ok (some node) => do
    let timestamp ← serverOp .now
    busOp (.emitStale node.nodeId node.hostname node.labels timestamp)
  | _ => pure ()

def emitAllStale : List String → ServerProc Unit
  | [] => pure ()
  | id :: ids => do
    emitStale id
    emitAllStale ids

/-- What the reaper does with the nodes that have been marked. -/
def emitMarked : StorageResult (List String) → ServerProc Unit
  | .ok staleIds => emitAllStale staleIds
  | .error _ => pure ()

def pruneOld (eventMaxAgeDays : Nat) : ServerProc Unit := do
  if 0 < eventMaxAgeDays then
    let now ← serverOp .now
    let _ ← serverOp (.storage (.pruneEvents (now - eventMaxAgeDays * (86400 * 10 ^ 9))))
    pure ()
  else pure ()

/-- One turn of the reaper. -/
def reaperTick (cfg : ReaperConfig) : ServerProc Unit := do
  Prog.perform (.inl (.inr .evictExpired) : ServerOp)
  if ← serverOp .isLeader then
    let _ ← serverOp (.storage .statusSummary)
    let marked ← serverOp (.storage (.markStaleNodes cfg.staleThreshold))
    emitMarked marked
    pruneOld cfg.eventMaxAgeDays
  else pure ()

/-! ## The process -/

/-- What the process runs beside the handlers of the controller. -/
inductive ServerRequest where
  | stream (q : StreamRequest) (turns : Nat)
  | persistEvents (persistCounterEvents : Bool) (turns : Nat)
  | reaperTick (cfg : ReaperConfig)
  deriving DecidableEq

inductive ServerReply where
  | stream (r : Except Status Unit)
  | persistEvents (left : Bool)
  | task

/-- Everything the process runs. -/
abbrev ServerTask := (Request ⊕ CounterRequest) ⊕ ServerRequest

/-- What it returns. -/
abbrev ServerResult := (Reply ⊕ CounterReply) ⊕ ServerReply

section

variable [FromTimestamp] [WriteJson] (cfg : ControllerConfig)

def serveServer : ServerRequest → ServerProc ServerReply
  | .stream q turns => (serveStreamRequest cfg q turns).bind fun r => .done (.stream r)
  | .persistEvents persistCounterEvents turns =>
    (persistEvents persistCounterEvents turns).bind fun left => .done (.persistEvents left)
  | .reaperTick reaperCfg => (reaperTick reaperCfg).bind fun () => .done .task

/-- The server process over a storage backend. -/
def server [Extern] (cacheCfg : CacheConfig) (σ : Type) [Storage σ] :
    System ServerOp ServerOp.Res (World σ × EventBus) (Ext × BusExt) ServerTask ServerResult :=
  (countingController cfg cacheCfg σ).host published BusOp.exec (serveServer cfg)

end

end PaciNet

import PaciNet.Lib.Extend
import PaciNet.Server.Controller

/-!
# Counter reports

Agents report the counters of their rules. The controller keeps the last reports of each node in a
cache of its own, from which the rates in counter conditions are calculated, and stores the newest
counters. The two are written one after the other, the cache first, and the storage may refuse
what the cache has taken.

The operations on the cache stand beside those of the controller. `CounterSnapshotCache` also has
a `remove_node`, which no request uses.
-/

set_option autoImplicit false

namespace PaciNet

open Lib

/-- `chrono::DateTime::from_timestamp(seconds, 0)`. -/
class FromTimestamp where
  fromTimestamp : Int → Option DateTime

/-- The instants of the years that chrono can represent, and more. -/
@[reducible] def FromTimestamp.sample : FromTimestamp where
  fromTimestamp seconds := some (seconds * 10 ^ 9)

/-! ## The cache -/

/-- The parameters of `CounterSnapshotCache::new`. -/
structure CacheConfig where
  retention : Int
  maxPerNode : Nat
  deriving DecidableEq, Repr

namespace CounterCache

/-- Record a new snapshot of a node; the oldest ones give way. -/
def record (cfg : CacheConfig) (snapshot : CounterSnapshot) (cache : CounterCache) :
    CounterCache :=
  let deque := (cache.lookup snapshot.nodeId).getD [] ++ [snapshot]
  cache.insert snapshot.nodeId (deque.drop (deque.length - cfg.maxPerNode))

/-- The snapshots of a deque from the first that has not expired. -/
def unexpired (cfg : CacheConfig) (now : DateTime) (deque : List CounterSnapshot) :
    List CounterSnapshot :=
  deque.dropWhile fun s => s.collectedAt < now - cfg.retention

/-- Evict what is older than the retention period, and then the nodes without a snapshot. -/
def evictExpired (cfg : CacheConfig) (now : DateTime) (cache : CounterCache) : CounterCache where
  entries := (cache.entries.map fun e => ⟨e.1, unexpired cfg now e.2⟩).filter fun e => !e.2.isEmpty
  nodupKeys := by
    have hkeys : (cache.entries.map fun e =>
        (⟨e.1, unexpired cfg now e.2⟩ : Sigma fun _ : String => List CounterSnapshot)).keys =
          cache.entries.keys := by
      simp [List.keys, Function.comp_def]
    have hmap : (cache.entries.map fun e =>
        (⟨e.1, unexpired cfg now e.2⟩ : Sigma fun _ : String => List CounterSnapshot)).NodupKeys := by
      rw [List.NodupKeys, hkeys]
      exact cache.nodupKeys
    exact hmap.sublist List.filter_sublist

end CounterCache

/-! ## Reports -/

structure ReportCountersRequest where
  nodeId : String
  counters : List RuleCounter
  /-- The seconds of the timestamp; its nanoseconds are not looked at. -/
  collectedAt : Option Int
  flowCounters : List FlowCounter
  deriving DecidableEq

/-- A timestamp of the protocol. -/
structure Timestamp where
  seconds : Int
  nanos : Int
  deriving DecidableEq, Repr

/-- The instant a timestamp names. -/
def Timestamp.instant (t : Timestamp) : DateTime := t.seconds * 10 ^ 9 + t.nanos

/-- The seconds a timestamp may have, those of the years 1 to 9999. -/
def Timestamp.InRange (t : Timestamp) : Prop :=
  -62135596800 ≤ t.seconds ∧ t.seconds ≤ 253402300799

/-- What is relied on of the conversion: each of these seconds is the instant it says. -/
def FromTimestamp.Lawful [FromTimestamp] : Prop :=
  ∀ t : Timestamp, t.InRange → fromTimestamp t.seconds = some (t.seconds * 10 ^ 9)

theorem FromTimestamp.lawful_sample : @Lawful .sample := fun _ _ => rfl

/-- A report as an agent sends it. -/
structure CounterReport where
  nodeId : String
  counters : List RuleCounter
  collectedAt : Option Timestamp
  flowCounters : List FlowCounter
  deriving DecidableEq

/-- What the controller looks at of a report. -/
def CounterReport.request (report : CounterReport) : ReportCountersRequest :=
  ⟨report.nodeId, report.counters, report.collectedAt.map Timestamp.seconds, report.flowCounters⟩

structure CounterRateData where
  ruleName : String
  matchCount : Nat
  byteCount : Nat
  matchesPerSecond : F64
  bytesPerSecond : F64

structure CounterEvent where
  nodeId : String
  counters : List CounterRateData
  collectedAt : DateTime

/-- A counter with its rate, if there is one. -/
def RuleCounter.rateData (c : RuleCounter) (pair : Option (CounterSnapshot × CounterSnapshot)) :
    CounterRateData :=
  let rate := pair.bind fun p => calculateRate p.1 p.2 c.ruleName
  { ruleName := c.ruleName
    matchCount := c.matchCount
    byteCount := c.byteCount
    matchesPerSecond := (rate.map CounterRate.matchesPerSecond).getD (.finite 0)
    bytesPerSecond := (rate.map CounterRate.bytesPerSecond).getD (.finite 0) }

/-- The operations on the cache and on the stream of counter events. -/
inductive CounterOp where
  | record (snapshot : CounterSnapshot)
  | latestPair (nodeId : String)
  | evictExpired
  | emitCounter (e : CounterEvent)

@[reducible] def CounterOp.Res : CounterOp → Type
  | latestPair _ => Option (CounterSnapshot × CounterSnapshot)
  | record _ | evictExpired | emitCounter _ => Unit

/-- An operation of the controller with counter reports. -/
abbrev CountingOp := Op ⊕ CounterOp

/-- A program of the controller with counter reports. -/
abbrev CountingProc (α : Type) := Prog CountingOp (BothRes Op.Res CounterOp.Res) α

/-- The requests around counters: a report, and the turn of the reaper that evicts. -/
inductive CounterRequest where
  | reportCounters (req : ReportCountersRequest)
  | evictExpired

inductive CounterReply where
  | reportCounters (r : Except Status Unit)
  | task

section

variable [FromTimestamp] (cfg : ControllerConfig)

def counterOp (o : CounterOp) : CountingProc o.Res := Prog.perform (.inr o : CountingOp)

def countingStorage (c : StorageCall) : CountingProc c.Res :=
  Prog.perform (.inl (.storage c) : CountingOp)

/-- The instant of a report, or the current one where it says none. -/
def ReportCountersRequest.instant (req : ReportCountersRequest) : CountingProc DateTime :=
  match req.collectedAt.bind FromTimestamp.fromTimestamp with
  | some collectedAt => pure collectedAt
  | none => Prog.perform (.inl .now : CountingOp)

/-- The part of `report_counters` about the cache. -/
def recordReport (req : ReportCountersRequest) : CountingProc Unit := do
  let collectedAt ← req.instant
  counterOp (.record ⟨req.nodeId, collectedAt, req.counters⟩)
  if cfg.eventBus then
    let pair ← counterOp (.latestPair req.nodeId)
    counterOp (.emitCounter ⟨req.nodeId, req.counters.map (·.rateData pair), collectedAt⟩)

def reportCounters (req : ReportCountersRequest) : CountingProc (Except Status Unit) := do
  recordReport cfg req
  match ← countingStorage (.storeCounters req.nodeId req.counters) with
  | .error e => pure (.error e.toStatus)
  | .ok () =>
    match ← countingStorage (.storeFlowCounters req.nodeId req.flowCounters) with
    | .error e => pure (.error e.toStatus)
    | .ok () => pure (.ok ())

def serveCounters : CounterRequest → CountingProc CounterReply
  | .reportCounters req => (reportCounters cfg req).bind fun r => .done (.reportCounters r)
  | .evictExpired => (counterOp .evictExpired).bind fun _ => .done .task

/-- What the operations do. -/
def CounterOp.exec {σ : Type} (cacheCfg : CacheConfig) (x : Ext) :
    (o : CounterOp) → World σ → Option (o.Res × World σ)
  | .record snapshot, w => some ((), { w with cache := w.cache.record cacheCfg snapshot })
  | .latestPair nodeId, w => some (w.cache.latestPair nodeId, w)
  | .evictExpired, w => some ((), { w with cache := w.cache.evictExpired cacheCfg x.now })
  | .emitCounter _, w => some ((), w)

/-- The controller with counter reports. -/
def countingController [Extern] (cacheCfg : CacheConfig) (σ : Type) [Storage σ] :
    System CountingOp (BothRes Op.Res CounterOp.Res) (World σ) Ext (Request ⊕ CounterRequest)
      (Reply ⊕ CounterReply) :=
  (controller cfg σ).extend (CounterOp.exec cacheCfg) (serveCounters cfg)

end

end PaciNet

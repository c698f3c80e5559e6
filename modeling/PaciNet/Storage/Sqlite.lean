import PaciNet.Lib.Table
import PaciNet.Storage.Memory

/-!
# `SqliteStorage`

What the SQLite backend does where it is not the in-memory one over again: here its table of
leases, which only it has, and its table of nodes, which it writes by other routes. A table with a
primary key is a `Table`; a method holds the connection from its first statement to its last.

Instants are stored as RFC 3339 text with all their digits and read back as written, unless the
year does not have four digits: chrono prints such a year and refuses to read it.
-/

set_option autoImplicit false

namespace PaciNet

open Lib

/-! ## Instants and durations -/

/-- A second, in nanoseconds. -/
def second : Int := 10 ^ 9

/-- `n as i64`. -/
def asI64 (n : Nat) : Int := Int.bmod n (2 ^ 64)

/-- A number of seconds that is one as an `i64` too. -/
theorem asI64_of_lt {n : Nat} (h : n < 2 ^ 63) : asI64 n = n := by
  unfold asI64
  rw [Int.bmod_eq_of_le] <;> omega

/-- `chrono::Duration::seconds`, which panics on more milliseconds than an `i64` counts. -/
def durationSeconds (secs : Int) : Option Int :=
  if secs.natAbs ≤ (2 ^ 63 - 1) / 1000 then some (secs * second) else none

/-- The instants of `DateTime<Utc>`, from the year -262143 to the year 262142. -/
def isDateTime (t : DateTime) : Bool :=
  -8334601315200 * second ≤ t && t < 8210266876800 * second

/-- `now + duration`, which panics when it leaves the range. -/
def addDuration (now : DateTime) (duration : Int) : Option DateTime :=
  if isDateTime (now + duration) then some (now + duration) else none

/-- Whether the text of an instant reads back: its year has four digits. -/
def isRfc3339 (t : DateTime) : Bool := -62167219200 * second ≤ t && t < 253402300800 * second

/-- `DateTime::parse_from_rfc3339` on the text of an instant. -/
def parseFromRfc3339 (t : DateTime) : StorageResult DateTime :=
  if isRfc3339 t then .ok t else .error (.internal "input contains invalid characters")

/-! ## The leader's lease -/

/-- A row of `leader_lease`. -/
structure LeaderLease where
  id : Nat
  controllerId : String
  leaseExpiresAt : DateTime
  acquiredAt : DateTime
  deriving DecidableEq

abbrev LeaseTable := Table LeaderLease.id

/-- `UPDATE leader_lease SET ... WHERE id = 1`. -/
def LeaseTable.update (t : LeaseTable) (f : LeaderLease → LeaderLease)
    (hf : ∀ row, (f row).id = row.id) : LeaseTable := t.modify 1 f hf

/-- `try_acquire_lease` at the instant `now`. `none` is a panic, before the transaction begins. -/
def tryAcquireLease (now : DateTime) (controllerId : String) (durationSecs : Nat)
    (t : LeaseTable) : Option (StorageResult Bool × LeaseTable) := do
  let duration ← durationSeconds (asI64 durationSecs)
  let expiresAt ← addDuration now duration
  match t.get? 1 with
  | none =>
    -- no lease exists
    pure (.ok true, t.insert ⟨1, controllerId, expiresAt, now⟩)
  | some existing =>
    if existing.controllerId = controllerId then
      -- renewed by its holder
      pure (.ok true, t.update
        (fun row => { row with leaseExpiresAt := expiresAt, acquiredAt := now }) fun _ => rfl)
    else
      match parseFromRfc3339 existing.leaseExpiresAt with
      | .error e => pure (.error e, t)
      | .ok leaseExpires =>
        if now > leaseExpires then
          -- expired, and taken over
          pure (.ok true, t.update
            (fun row => { row with
              controllerId := controllerId
              leaseExpiresAt := expiresAt
              acquiredAt := now })
            fun _ => rfl)
        else pure (.ok false, t)

/-! ## Nodes

A map is stored as JSON text and reads back as it was. The state is stored as its name, and what
is read from the column is parsed. -/

/-- A row of `nodes`. -/
structure NodeRow where
  nodeId : String
  hostname : String
  agentAddress : String
  labels : Labels
  capabilities : Labels
  state : String
  registeredAt : DateTime
  lastHeartbeat : DateTime
  pacgateVersion : String
  uptimeSeconds : Int
  annotations : Labels

abbrev NodesTable := Table NodeRow.nodeId

/-- The parameters of `INSERT INTO nodes`. -/
def NodeRow.ofNode (node : Node) : NodeRow where
  nodeId := node.nodeId
  hostname := node.hostname
  agentAddress := node.agentAddress
  labels := node.labels
  capabilities := node.capabilities
  state := node.state.toString
  registeredAt := node.registeredAt
  lastHeartbeat := node.lastHeartbeat
  pacgateVersion := node.pacgateVersion
  uptimeSeconds := asI64 node.uptimeSeconds
  annotations := node.annotations

/-- `n as u64`. -/
def asUInt64 (n : Int) : Nat := (n % 2 ^ 64).toNat

/-- `state_str.parse()`. -/
def parseState (text : String) : StorageResult NodeState :=
  match NodeState.fromStr text with
  | .ok state => .ok state
  | .error e => .error (.internal e)

/-- `row_to_node`. -/
def rowToNode (row : NodeRow) : StorageResult Node := do
  let state ← parseState row.state
  let registeredAt ← parseFromRfc3339 row.registeredAt
  let lastHeartbeat ← parseFromRfc3339 row.lastHeartbeat
  pure
    { nodeId := row.nodeId
      hostname := row.hostname
      agentAddress := row.agentAddress
      labels := row.labels
      capabilities := row.capabilities
      state := state
      registeredAt := registeredAt
      lastHeartbeat := lastHeartbeat
      pacgateVersion := row.pacgateVersion
      uptimeSeconds := asUInt64 row.uptimeSeconds
      annotations := row.annotations }

/-- How the texts of two instants compare: as the instants do, if both years have four digits. -/
class Rfc3339 where
  lt : DateTime → DateTime → Bool
  lt_eq : ∀ t u, isRfc3339 t = true → isRfc3339 u = true → lt t u = decide (t < u)

/-- The texts of instants with years of four digits, compared as SQLite does. -/
@[reducible] def Rfc3339.sample : Rfc3339 where
  lt t u := t < u
  lt_eq _ _ _ _ := rfl

namespace NodesTable

variable (t : NodesTable)

def registerNode (node : Node) : StorageResult String × NodesTable :=
  if t.contains node.nodeId then
    (.error (.internal "Failed to insert node: UNIQUE constraint failed: nodes.node_id"), t)
  else (.ok node.nodeId, t.insert (.ofNode node))

def getNode (nodeId : String) : StorageResult (Option Node) :=
  match t.get? nodeId with
  | some row => (rowToNode row).map some
  | none => .ok none

def removeNode (nodeId : String) : StorageResult Bool × NodesTable :=
  (.ok (t.contains nodeId), t.erase nodeId)

/-- The state is written whatever the row holds. -/
def updateHeartbeat (now : DateTime) (nodeId : String) (state : NodeState) (uptime : Nat) :
    StorageResult Bool × NodesTable :=
  (.ok (t.contains nodeId),
    t.modify nodeId
      (fun row => { row with
        lastHeartbeat := now
        state := state.toString
        uptimeSeconds := asI64 uptime })
      fun _ => rfl)

def updateNodeState (nodeId : String) (state : NodeState) : StorageResult Bool × NodesTable :=
  match t.get? nodeId with
  | none => (.ok false, t)
  | some row =>
    match parseState row.state with
    | .error e => (.error e, t)
    | .ok current =>
      if !current.canTransitionTo state then
        (.error (.invalidStateTransition current.toString state.toString), t)
      else
        (.ok true, t.modify nodeId (fun row => { row with state := state.toString }) fun _ => rfl)

/-- `none` is a panic, and the lock of the connection is poisoned by it. -/
def markStaleNodes [Rfc3339] (now : DateTime) (threshold : Int) :
    Option (StorageResult (List String) × NodesTable) := do
  let cutoff ← addDuration now (-threshold)
  let staleIds := (t.rows.filter fun row =>
    row.state != "offline" && row.state != "registered" && Rfc3339.lt row.lastHeartbeat cutoff).map
      NodeRow.nodeId
  pure (.ok staleIds, staleIds.foldl
    (fun t id => t.modify id (fun row => { row with state := "offline" }) fun _ => rfl) t)

def updateAnnotations (nodeId : String) (set : Labels) (remove : List String) :
    StorageResult Unit × NodesTable :=
  match t.get? nodeId with
  | none => (.error (.nodeNotFound nodeId), t)
  | some row =>
    let annotations := MemoryStorage.annotate row.annotations set remove
    (.ok (), t.modify nodeId (fun row => { row with annotations := annotations }) fun _ => rfl)

/-- The table after a call of the trait; the calls not named here do not write to it. -/
def after [Rfc3339] (now : DateTime) : StorageCall → Option NodesTable
  | .registerNode node => some (t.registerNode node).2
  | .removeNode nodeId => some (t.removeNode nodeId).2
  | .updateHeartbeat nodeId state uptime => some (t.updateHeartbeat now nodeId state uptime).2
  | .updateNodeState nodeId state => some (t.updateNodeState nodeId state).2
  | .markStaleNodes threshold => (t.markStaleNodes now threshold).map Prod.snd
  | .updateAnnotations nodeId set remove => some (t.updateAnnotations nodeId set remove).2
  | _ => some t

end NodesTable

/-! ## What a row reads back as -/

/-- A count that is one as a `u64` survives the column. -/
theorem asUInt64_asI64 {n : Nat} (h : n < 2 ^ 64) : asUInt64 (asI64 n) = n := by
  have hmod : asI64 n % (2 ^ 64 : Nat) = n % (2 ^ 64 : Nat) := Int.bmod_emod
  unfold asUInt64
  rw [show ((2 : Int) ^ 64) = ((2 ^ 64 : Nat) : Int) from rfl, hmod]
  omega

@[simp] theorem parseState_toString (s : NodeState) : parseState s.toString = .ok s := by
  rw [parseState, NodeState.fromStr_toString]

/-- A node reads back as it was registered, unless the year of one of its instants does not. -/
theorem rowToNode_ofNode {node : Node} (hr : isRfc3339 node.registeredAt = true)
    (hh : isRfc3339 node.lastHeartbeat = true) (hu : node.uptimeSeconds < 2 ^ 64) :
    rowToNode (.ofNode node) = .ok node := by
  simp only [rowToNode, NodeRow.ofNode, parseState_toString, parseFromRfc3339, hr, hh, if_true,
    asUInt64_asI64 hu]
  rfl

end PaciNet

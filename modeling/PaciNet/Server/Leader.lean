import PaciNet.Storage.Sqlite

/-!
# Leader election

`LeaderElection`, the part of `main` that wires it to the configuration, and controllers that
share a database.

The two `is_leader` flags of a controller are `Arc<AtomicBool>`s. A process's memory here is the
list of its flags, and an `Arc` is the place of one in it, so a clone of an `Arc` is the same
place and `AtomicBool::new` a new one.
-/

set_option autoImplicit false

namespace PaciNet

open Lib

/-- An `Arc<AtomicBool>`. -/
abbrev FlagRef := Nat

/-- The `AtomicBool`s of a process. -/
abbrev Flags := List Bool

namespace Flags

/-- `Arc::new(AtomicBool::new(value))`. -/
def alloc (flags : Flags) (value : Bool) : FlagRef × Flags := (flags.length, flags ++ [value])

def load (flags : Flags) (flag : FlagRef) : Bool := flags.getD flag false

def store (flags : Flags) (flag : FlagRef) (value : Bool) : Flags := flags.set flag value

end Flags

/-- `LeaderElection`, less its storage. The lease duration is in seconds. -/
structure LeaderElection where
  controllerId : String
  leaseDuration : Nat
  isLeader : FlagRef
  deriving DecidableEq

namespace LeaderElection

def new (controllerId : String) (leaseDuration : Nat) (flags : Flags) : LeaderElection × Flags :=
  let (isLeader, flags) := flags.alloc false
  (⟨controllerId, leaseDuration, isLeader⟩, flags)

/-- `is_leader_flag`. -/
def isLeaderFlag (leader : LeaderElection) : FlagRef := leader.isLeader

/-- A renewal tick's storage call at the instant `now`. `none`: it panics. A failure of the
    database is given from outside. -/
def acquire (leader : LeaderElection) (now : DateTime) (failure : Option PaciNetError)
    (t : LeaseTable) : Option (StorageResult Bool × LeaseTable) :=
  match failure with
  | some e => some (.error e, t)
  | none => tryAcquireLease now leader.controllerId leader.leaseDuration t

/-- What a renewal tick makes of the result. An error leaves the flag as it is. -/
def settle (leader : LeaderElection) (result : StorageResult Bool) (flags : Flags) : Flags :=
  match result with
  | .ok acquired => flags.store leader.isLeader acquired
  | .error _ => flags

end LeaderElection

/-- A controller process in HA mode. `tick` is the result of a renewal tick whose storage call
    has returned and whose flag has not been set yet. -/
structure HaController where
  flags : Flags
  /-- `ControllerConfig::is_leader`. -/
  config : FlagRef
  leader : LeaderElection
  tick : Option (StorageResult Bool)
  deriving DecidableEq

namespace HaController

/-- What `main` does with `--cluster-id`. -/
def start (clusterId : String) (leaseDuration : Nat) : HaController :=
  -- `ControllerConfig::default()`
  let (config, flags) := Flags.alloc [] true
  let (leader, flags) := LeaderElection.new clusterId leaseDuration flags
  -- "share the is_leader flag with config": both clones are dropped unused
  let _isLeaderFlag := leader.isLeaderFlag
  let flags := flags.store config false
  let _configFlag := config
  ⟨flags, config, leader, none⟩

def id (c : HaController) : String := c.leader.controllerId

/-- `ControllerConfig::is_leader()`. -/
def configIsLeader (c : HaController) : Bool := c.flags.load c.config

/-- `LeaderElection::is_leader()`. -/
def electionIsLeader (c : HaController) : Bool := c.flags.load c.leader.isLeader

/-- The end of a renewal tick. -/
def settle (c : HaController) : HaController :=
  match c.tick with
  | none => c
  | some result => { c with flags := c.leader.settle result c.flags, tick := none }

@[simp] theorem settle_id (c : HaController) : c.settle.id = c.id := by
  unfold settle
  split <;> rfl

end HaController

/-! ## Controllers on one database -/

/-- Controllers with distinct ids, their shared clock and database. -/
structure Cluster where
  clock : DateTime
  lease : LeaseTable
  controllers : Table HaController.id

/-- What happens in a cluster. A renewal tick is two steps, so anything may come between its
    storage call and the moment it sets the flag. -/
inductive ClusterLabel where
  | advance (now : DateTime)
  | acquire (id : String) (failure : Option PaciNetError)
  | settle (id : String)
  deriving DecidableEq

namespace Cluster

def step (s : Cluster) : ClusterLabel → Option Cluster
  | .advance now => if s.clock ≤ now then some { s with clock := now } else none
  | .acquire id failure =>
    match s.controllers.get? id with
    | none => none
    | some c =>
      -- one tick at a time, and none at all if the interval is zero, which panics
      if c.tick.isSome || c.leader.leaseDuration = 0 then none
      else
        match c.leader.acquire s.clock failure s.lease with
        | none => some s
        | some (result, lease) => some { s with
            lease := lease
            controllers := s.controllers.modify id (fun c => { c with tick := some result })
              fun _ => rfl }
  | .settle id =>
    match s.controllers.get? id with
    | none => none
    | some _ => some { s with
        controllers := s.controllers.modify id HaController.settle HaController.settle_id }

end Cluster

end PaciNet

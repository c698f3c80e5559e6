import PaciNet.Storage.Sqlite

/-!
# Rows of the other tables

What a policy, a version, a deployment and an FSM become in their tables, and what is read back.
A `bool` is stored as an `i32`, a `u32` and a `u64` as an `i64`, an enumeration as its name, an
instant as its text. The two conversions are written apart in the source, column by column, and
**a row reads back as what it was made from** when its instant does.

A definition and an instance are stored whole, as JSON. What `serde_json` makes of its own text is
left open here: it reads a number without a fraction, a text or a list back as it was, but not
every `f64`.
-/

set_option autoImplicit false

namespace PaciNet

open Lib

/-! ## Casts -/

/-- `b as i32`. -/
def boolAsI32 (b : Bool) : Int := if b then 1 else 0

/-- `n as u32`. -/
def asUInt32 (n : Int) : Nat := (n % 2 ^ 32).toNat

@[simp] theorem boolAsI32_ne_zero (b : Bool) : (boolAsI32 b != 0) = b := by
  cases b <;> rfl

/-- A count that is one as a `u32` survives its column. -/
theorem asUInt32_natCast {n : Nat} (h : n < 2 ^ 32) : asUInt32 n = n := by
  unfold asUInt32
  omega

/-! ## Policies -/

/-- A row of `policies`. -/
structure PolicyRow where
  nodeId : String
  rulesYaml : String
  policyHash : String
  deployedAt : DateTime
  countersEnabled : Int
  rateLimitEnabled : Int
  conntrackEnabled : Int
  axiEnabled : Int
  ports : Int
  target : String
  dynamic : Int
  dynamicEntries : Int
  width : Int
  ptp : Int
  rss : Int
  rssQueues : Int
  intEnabled : Int
  intSwitchId : Int
  deriving DecidableEq

/-- A row of `policy_versions`. No statement reads the id the table counts up. -/
structure PolicyVersionRow extends PolicyRow where
  version : Int
  deriving DecidableEq

/-- The parameters of `INSERT OR REPLACE INTO policies`. -/
def PolicyRow.ofPolicy (policy : Policy) : PolicyRow where
  nodeId := policy.nodeId
  rulesYaml := policy.rulesYaml
  policyHash := policy.policyHash
  deployedAt := policy.deployedAt
  countersEnabled := boolAsI32 policy.countersEnabled
  rateLimitEnabled := boolAsI32 policy.rateLimitEnabled
  conntrackEnabled := boolAsI32 policy.conntrackEnabled
  axiEnabled := boolAsI32 policy.axiEnabled
  ports := policy.ports
  target := policy.target
  dynamic := boolAsI32 policy.dynamic
  dynamicEntries := policy.dynamicEntries
  width := policy.width
  ptp := boolAsI32 policy.ptp
  rss := boolAsI32 policy.rss
  rssQueues := policy.rssQueues
  intEnabled := boolAsI32 policy.int
  intSwitchId := policy.intSwitchId

/-- The parameters of `INSERT INTO policy_versions`. -/
def PolicyVersionRow.ofPolicy (policy : Policy) (version : Nat) : PolicyVersionRow where
  toPolicyRow := .ofPolicy policy
  version := asI64 version

theorem PolicyVersionRow.version_ofPolicy (policy : Policy) (version : Nat) :
    (ofPolicy policy version).version = asI64 version := by
  rw [ofPolicy]

/-- `row_to_policy`. -/
def rowToPolicy (row : PolicyRow) : StorageResult Policy := do
  let deployedAt ← parseFromRfc3339 row.deployedAt
  pure
    { nodeId := row.nodeId
      rulesYaml := row.rulesYaml
      policyHash := row.policyHash
      deployedAt := deployedAt
      countersEnabled := row.countersEnabled != 0
      rateLimitEnabled := row.rateLimitEnabled != 0
      conntrackEnabled := row.conntrackEnabled != 0
      axiEnabled := row.axiEnabled != 0
      ports := asUInt32 row.ports
      target := row.target
      dynamic := row.dynamic != 0
      dynamicEntries := asUInt32 row.dynamicEntries
      width := asUInt32 row.width
      ptp := row.ptp != 0
      rss := row.rss != 0
      rssQueues := asUInt32 row.rssQueues
      int := row.intEnabled != 0
      intSwitchId := asUInt32 row.intSwitchId }

/-- `row_to_policy_version`, which reads the columns of a policy as `row_to_policy` does. -/
def rowToPolicyVersion (row : PolicyVersionRow) : StorageResult PolicyVersion := do
  let policy ← rowToPolicy row.toPolicyRow
  pure { policy with version := asUInt64 row.version }

/-- A policy to evaluate the model on. -/
def Policy.sample (nodeId rulesYaml : String) : Policy where
  nodeId := nodeId
  rulesYaml := rulesYaml
  policyHash := ""
  deployedAt := 0
  countersEnabled := false
  rateLimitEnabled := false
  conntrackEnabled := false
  axiEnabled := false
  ports := 1
  target := "standalone"
  dynamic := false
  dynamicEntries := 16
  width := 8
  ptp := false
  rss := false
  rssQueues := 4
  int := false
  intSwitchId := 0

/-- The counts of a policy are `u32`s. -/
def Policy.Ranged (policy : Policy) : Prop :=
  policy.ports < 2 ^ 32 ∧ policy.dynamicEntries < 2 ^ 32 ∧ policy.width < 2 ^ 32 ∧
    policy.rssQueues < 2 ^ 32 ∧ policy.intSwitchId < 2 ^ 32

instance (policy : Policy) : Decidable policy.Ranged := inferInstanceAs (Decidable (_ ∧ _))

/-- A policy reads back as it was stored, unless the year of its instant does not. -/
theorem rowToPolicy_ofPolicy {policy : Policy} (hr : policy.Ranged)
    (hd : isRfc3339 policy.deployedAt = true) : rowToPolicy (.ofPolicy policy) = .ok policy := by
  obtain ⟨hports, hentries, hwidth, hqueues, hswitch⟩ := hr
  simp only [rowToPolicy, PolicyRow.ofPolicy, parseFromRfc3339, hd, if_true, boolAsI32_ne_zero,
    asUInt32_natCast hports, asUInt32_natCast hentries, asUInt32_natCast hwidth,
    asUInt32_natCast hqueues, asUInt32_natCast hswitch]
  rfl

/-- So does a version of it, with its number. -/
theorem rowToPolicyVersion_ofPolicy {policy : Policy} {version : Nat} (hr : policy.Ranged)
    (hd : isRfc3339 policy.deployedAt = true) (hv : version < 2 ^ 64) :
    rowToPolicyVersion (.ofPolicy policy version) = .ok { policy with version := version } := by
  have hpolicy := rowToPolicy_ofPolicy hr hd
  unfold rowToPolicyVersion PolicyVersionRow.ofPolicy
  dsimp only
  rw [hpolicy, asUInt64_asI64 hv]
  rfl

/-! ## Deployments -/

/-- A row of `deployments`. -/
structure DeploymentRow where
  id : String
  nodeId : String
  policyVersion : Int
  policyHash : String
  deployedAt : DateTime
  result : String
  message : String
  deriving DecidableEq

/-- The parameters of `INSERT INTO deployments`. -/
def DeploymentRow.ofRecord (record : DeploymentRecord) : DeploymentRow where
  id := record.id
  nodeId := record.nodeId
  policyVersion := asI64 record.policyVersion
  policyHash := record.policyHash
  deployedAt := record.deployedAt
  result := record.result.toString
  message := record.message

/-- `result_str.parse()`. -/
def parseResult (text : String) : StorageResult DeploymentResult :=
  match DeploymentResult.fromStr text with
  | .ok result => .ok result
  | .error e => .error (.internal e)

/-- `row_to_deployment`. -/
def rowToDeployment (row : DeploymentRow) : StorageResult DeploymentRecord := do
  let deployedAt ← parseFromRfc3339 row.deployedAt
  let result ← parseResult row.result
  pure
    { id := row.id
      nodeId := row.nodeId
      policyVersion := asUInt64 row.policyVersion
      policyHash := row.policyHash
      deployedAt := deployedAt
      result := result
      message := row.message }

theorem rowToDeployment_ofRecord {record : DeploymentRecord}
    (hd : isRfc3339 record.deployedAt = true) (hv : record.policyVersion < 2 ^ 64) :
    rowToDeployment (.ofRecord record) = .ok record := by
  simp only [rowToDeployment, DeploymentRow.ofRecord, parseFromRfc3339, hd, if_true, parseResult,
    DeploymentResult.fromStr_toString, asUInt64_asI64 hv]
  rfl

/-! ## FSMs -/

/-- `serde_json::from_str` on the text `serde_json::to_string` wrote. -/
class SerdeJson where
  readDefinition : FsmDefinition → StorageResult FsmDefinition
  readInstance : FsmInstance → StorageResult FsmInstance

/-- Both read back as they were. -/
@[reducible] def SerdeJson.sample : SerdeJson where
  readDefinition d := .ok d
  readInstance inst := .ok inst

/-- A row of `fsm_definitions`; its JSON is told by what it was written from. -/
structure FsmDefinitionRow where
  name : String
  kind : String
  definitionJson : FsmDefinition
  createdAt : DateTime

/-- A row of `fsm_instances`. -/
structure FsmInstanceRow where
  instanceId : String
  definitionName : String
  status : String
  instanceJson : FsmInstance
  createdAt : DateTime
  updatedAt : DateTime

/-- The parameters of `INSERT INTO fsm_instances`. -/
def FsmInstanceRow.ofInstance (inst : FsmInstance) : FsmInstanceRow where
  instanceId := inst.instanceId
  definitionName := inst.definitionName
  status := inst.status.toString
  instanceJson := inst
  createdAt := inst.createdAt
  updatedAt := inst.updatedAt

end PaciNet

import PaciNet.Lib.Twins
import PaciNet.Proof.StoredTimestamps

/-!
# Twin backends

The in-memory backend and the SQLite one as one design at two levels: what the first keeps in maps
and lists the second keeps in tables, as rows whose columns are read back. They are *twins* when
every row is the record of the other side and reads back as it, in the same order, and when the
second holds of the deployments those of nodes that are registered.

`KeepsTwins` says which calls the two answer in the same way from there, **in the terms of the
call and of the in-memory state**: what the columns can hold, what the constraints of the schema
let in, and which instants follow one another. The calls themselves are in `Proof/TwinNodes.lean`
and `Proof/TwinRecords.lean`.
-/

set_option autoImplicit false

namespace PaciNet

open Lib

/-! ## Rows and records -/

/-- The columns hold it: the instants have years of four digits, the count is a `u64`. -/
def Node.Storable (node : Node) : Prop :=
  isRfc3339 node.registeredAt = true ∧ isRfc3339 node.lastHeartbeat = true ∧
    node.uptimeSeconds < 2 ^ 64

def DeploymentRecord.Storable (record : DeploymentRecord) : Prop :=
  isRfc3339 record.deployedAt = true ∧ record.policyVersion < 2 ^ 64

instance (node : Node) : Decidable node.Storable := inferInstanceAs (Decidable (_ ∧ _ ∧ _))

instance (record : DeploymentRecord) : Decidable record.Storable :=
  inferInstanceAs (Decidable (_ ∧ _))

/-- The row is made from the node, and reads back. -/
def NodeRow.Shows (row : NodeRow) (node : Node) : Prop := row = .ofNode node ∧ node.Storable

def DeploymentRow.Shows (row : DeploymentRow) (record : DeploymentRecord) : Prop :=
  row = .ofRecord record ∧ record.Storable

/-- The JSON of the row reads back as the definition. -/
def FsmDefinitionRow.Shows [SerdeJson] (row : FsmDefinitionRow) (d : FsmDefinition) : Prop :=
  row.name = d.name ∧ row.kind = d.kind.toString ∧ row.definitionJson = d ∧
    SerdeJson.readDefinition d = .ok d

def FsmInstanceRow.Shows [SerdeJson] (row : FsmInstanceRow) (inst : FsmInstance) : Prop :=
  row.instanceId = inst.instanceId ∧ row.definitionName = inst.definitionName ∧
    row.status = inst.status.toString ∧ row.instanceJson = inst ∧
    SerdeJson.readInstance inst = .ok inst

/-- The row is the template, and both its instants read back. -/
def PolicyTemplate.Shows (row template : PolicyTemplate) : Prop :=
  row = template ∧ isRfc3339 template.createdAt = true ∧ isRfc3339 template.updatedAt = true

/-- A log whose entries follow one another, and read back. -/
def InOrder {α : Type} (column : α → DateTime) (log : List α) : Prop :=
  log.Pairwise (fun a b => column a < column b) ∧ ∀ a ∈ log, isRfc3339 (column a) = true

/-! ## Twins -/

/-- The node is registered. -/
def MemoryStorage.Registered (m : MemoryStorage) (nodeId : String) : Prop :=
  (m.nodes.get? nodeId).isSome = true

instance (m : MemoryStorage) (nodeId : String) : Decidable (m.Registered nodeId) :=
  inferInstanceAs (Decidable (_ = true))

/-- The deployments of the nodes that are registered. -/
def MemoryStorage.liveDeployments (m : MemoryStorage) : List DeploymentRecord :=
  m.deployments.filter fun d => decide (m.Registered d.nodeId)

/-- **The twins**: the database holds what the in-memory state does. -/
structure Twins [SerdeJson] (m : MemoryStorage) (s : SqliteStorage) : Prop where
  sound : s.poisoned = false
  deploying : s.deploying = m.deploying
  nodes : Table.Twin NodeRow.Shows s.conn.nodes m.nodes
  policies : ∀ n, ∃ policies, m.Holds n policies ∧ s.Holds n policies ∧
    (policies ≠ [] → m.Registered n)
  counters : ∀ n, s.conn.counters.lookup n = m.counters.lookup n
  countersKnown : ∀ n, m.counters.lookup n ≠ none → m.Registered n
  flowCounters : ∀ n, s.conn.flowCounters.lookup n = m.flowCounters.lookup n
  flowCountersKnown : ∀ n, m.flowCounters.lookup n ≠ none → m.Registered n
  deployments : List.Forall₂ DeploymentRow.Shows s.conn.deployments.rows m.liveDeployments
  deploymentsInOrder : m.deployments.Pairwise fun a b =>
    a.nodeId = b.nodeId → a.deployedAt < b.deployedAt
  fsmDefinitions : Table.Twin FsmDefinitionRow.Shows s.conn.fsmDefinitions m.fsmDefinitions
  fsmInstances : Table.Twin FsmInstanceRow.Shows s.conn.fsmInstances m.fsmInstances
  events : s.conn.events.rows = m.events
  eventsInOrder : InOrder PersistentEvent.timestamp m.events
  auditLog : s.conn.auditLog.rows = m.auditLog
  auditInOrder : InOrder AuditEntry.timestamp m.auditLog
  webhooks : s.conn.webhookDeliveries.rows = m.webhookDeliveries
  webhooksInOrder : InOrder WebhookDelivery.timestamp m.webhookDeliveries
  templates : Table.Twin PolicyTemplate.Shows s.conn.policyTemplates m.templates

/-- The same list, in some order. -/
def SameList {α : Type} (r r' : StorageResult (List α)) : Prop :=
  ∃ l l', r = .ok l ∧ r' = .ok l' ∧ l.Perm l'

/-- The answers are the same; what comes from a map comes in any order. -/
def SameAnswer : (c : StorageCall) → c.Res → c.Res → Prop
  | .listNodes _ => SameList
  | .getPoliciesForNodes _ => SameList
  | .markStaleNodes _ => SameList
  | .listFsmDefinitions _ => SameList
  | .listFsmInstances _ _ => SameList
  | .listTemplates _ => SameList
  | _ => Eq

/-- The in-memory backend and the SQLite one answer a call alike and are twins after it. -/
def StayTwins [Rfc3339] [SerdeJson] (now : DateTime) (c : StorageCall) (m : MemoryStorage)
    (s : SqliteStorage) : Prop :=
  SameAnswer c (Storage.call now c m).1 (Storage.call now c s).1 ∧
    Twins (Storage.call now c m).2 (Storage.call now c s).2

theorem StayTwins.intro [Rfc3339] [SerdeJson] {now : DateTime} {c : StorageCall}
    {m m' : MemoryStorage} {s s' : SqliteStorage} {r r' : c.Res}
    (hm : Storage.call now c m = (r, m')) (hs : Storage.call now c s = (r', s'))
    (hsame : SameAnswer c r r') (htwins : Twins m' s') : StayTwins now c m s := by
  rw [StayTwins, hm, hs]
  exact ⟨hsame, htwins⟩

theorem StayTwins.after [Rfc3339] [SerdeJson] {now : DateTime} {c : StorageCall}
    {m : MemoryStorage} {s s' : SqliteStorage} {r : c.Res}
    (hs : Storage.call now c s = (r, s')) (hsame : SameAnswer c (Storage.call now c m).1 r)
    (htwins : Twins (m.after now c) s') : StayTwins now c m s := by
  rw [StayTwins, m.call_snd now c, hs]
  exact ⟨hsame, htwins⟩

/-- The call finds what it needs to be answered alike. -/
def KeepsTwins [SerdeJson] (now : DateTime) (m : MemoryStorage) : StorageCall → Prop
  | .registerNode node =>
    ¬ m.Registered node.nodeId ∧ (∀ d ∈ m.deployments, d.nodeId ≠ node.nodeId) ∧ node.Storable
  | .updateHeartbeat _ _ uptime => isRfc3339 now = true ∧ uptime < 2 ^ 64
  | .storeCounters nodeId _ | .storeFlowCounters nodeId _ => m.Registered nodeId
  | .storePolicy p => m.Registered p.nodeId ∧ p.Ranged ∧ isRfc3339 p.deployedAt = true ∧
      (m.versionsOf p.nodeId).length + 1 < 2 ^ 63
  | .getPoliciesForNodes nodeIds => nodeIds.length ≤ maxVariableNumber
  | .recordDeployment record =>
    m.Registered record.nodeId ∧ record.Storable ∧
      (∀ d ∈ m.liveDeployments, d.id ≠ record.id) ∧
      ∀ d ∈ m.deployments, d.nodeId = record.nodeId → d.deployedAt < record.deployedAt
  | .getDeployments nodeId _ => m.Registered nodeId ∨ ∀ d ∈ m.deployments, d.nodeId ≠ nodeId
  | .markStaleNodes threshold =>
    ∃ cutoff, addDuration now (-threshold) = some cutoff ∧ isRfc3339 cutoff = true
  | .storeFsmDefinition d => SerdeJson.readDefinition d = .ok d
  | .storeFsmInstance inst =>
    (m.fsmInstances.get? inst.instanceId).isSome = false ∧ SerdeJson.readInstance inst = .ok inst
  | .updateFsmInstance inst => ∀ stored ∈ m.fsmInstances.get? inst.instanceId,
      stored.definitionName = inst.definitionName ∧ SerdeJson.readInstance inst = .ok inst
  | .storeEvent event => isRfc3339 event.timestamp = true ∧ m.events.length < maxMemoryEvents ∧
      ∀ e ∈ m.events, e.id ≠ event.id ∧ e.timestamp < event.timestamp
  | .queryEvents _ _ since until_ _ =>
    (∀ t ∈ since, isRfc3339 t = true) ∧ ∀ t ∈ until_, isRfc3339 t = true
  | .pruneEvents olderThan => isRfc3339 olderThan = true
  | .storeAudit entry => isRfc3339 entry.timestamp = true ∧ m.auditLog.length < maxMemoryAudit ∧
      ∀ e ∈ m.auditLog, e.id ≠ entry.id ∧ e.timestamp < entry.timestamp
  | .queryAudit _ _ _ since _ => ∀ t ∈ since, isRfc3339 t = true
  | .storeTemplate template =>
    isRfc3339 template.createdAt = true ∧ isRfc3339 template.updatedAt = true
  | .storeWebhookDelivery delivery => isRfc3339 delivery.timestamp = true ∧
      ∀ d ∈ m.webhookDeliveries, d.id ≠ delivery.id ∧ d.timestamp < delivery.timestamp
  | _ => True

end PaciNet

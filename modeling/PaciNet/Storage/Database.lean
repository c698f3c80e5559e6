import Mathlib.Data.List.Sort
import PaciNet.Lib.Script
import PaciNet.Storage.Rows

/-!
# `SqliteStorage`, method by method

The database is its tables; a method holds the connection, and runs one statement or several. The
schema declares foreign keys and turns them on: a row of a policy, a version, counters or a
deployment needs the node it names, and goes when the node goes.

The methods that run several statements are scripts, so that what is left behind when a statement
fails can be told. Run without a fault, a script is the method.

The order of rows is the order they were inserted in, where a statement does not order them. A row
that does not read back is dropped from a list. The texts of SQLite's own errors are the engine's.
-/

set_option autoImplicit false

namespace PaciNet

open Lib

/-- The number of variables of a statement, if `SQLITE_MAX_VARIABLE_NUMBER` is not set. -/
def maxVariableNumber : Nat := 32766

/-- The tables of the schema, without the lease. -/
structure Database where
  nodes : NodesTable
  policies : Table PolicyRow.nodeId
  policyVersions : List PolicyVersionRow
  counters : AList fun _ : String => List RuleCounter
  flowCounters : AList fun _ : String => List FlowCounter
  deployments : Table DeploymentRow.id
  fsmDefinitions : Table FsmDefinitionRow.name
  fsmInstances : Table FsmInstanceRow.instanceId
  events : Table PersistentEvent.id
  auditLog : Table AuditEntry.id
  policyTemplates : Table PolicyTemplate.name
  webhookDeliveries : Table WebhookDelivery.id

/-- `ORDER BY`, where `before` says which rows may come first. -/
def orderBy {α : Type} (before : α → α → Bool) (rows : List α) : List α :=
  rows.insertionSort fun a b => before a b = true

/-- `filter_map(|r| r.ok())`. -/
def readable {α β : Type} (read : α → StorageResult β) (rows : List α) : List β :=
  rows.filterMap fun row => (read row).toOption

def foreignKeyFailed : PaciNetError := .internal "FOREIGN KEY constraint failed"

/-! ## Statements -/

/-- The statements of the methods that run more than one. -/
inductive Statement where
  | selectMaxVersion (nodeId : String)
  | insertPolicyVersion (row : PolicyVersionRow)
  | replacePolicy (row : PolicyRow)
  | selectState (nodeId : String)
  | updateState (nodeId : String) (state : String)
  | selectStale (cutoff : DateTime)
  | selectAnnotations (nodeId : String)
  | updateAnnotations (nodeId : String) (annotations : Labels)

@[reducible] def Statement.Res : Statement → Type
  | selectMaxVersion _ => Option Int
  | insertPolicyVersion _ => Unit
  | replacePolicy _ => Unit
  | selectState _ => Option String
  | updateState _ _ => Unit
  | selectStale _ => List String
  | selectAnnotations _ => Option Labels
  | updateAnnotations _ _ => Unit

/-- What a statement meets with. A step that fails while rows are read ends the reading, without
    an error. -/
inductive Fault where
  | none
  | fails (e : PaciNetError)
  | stops (rows : Nat)
  deriving DecidableEq

/-- The rows that were read before a step failed. -/
def Fault.read {α : Type} : Fault → List α → List α
  | .stops n, rows => rows.take n
  | _, rows => rows

namespace Database

variable (db : Database)

/-- Carry a change of the nodes to the database. -/
def onNodes {α : Type} (r : α × NodesTable) : α × Database := (r.1, { db with nodes := r.2 })

/-- `SELECT MAX(version) FROM policy_versions WHERE node_id = ?1`. -/
def maxVersion (nodeId : String) : Option Int :=
  ((db.policyVersions.filter fun row => row.nodeId == nodeId).map PolicyVersionRow.version).max?

/-- A node that is stale at the cutoff. -/
def isStale [Rfc3339] (cutoff : DateTime) (row : NodeRow) : Bool :=
  row.state != "offline" && row.state != "registered" && Rfc3339.lt row.lastHeartbeat cutoff

/-- What a statement does that meets with no failure of the engine. -/
def execute [Rfc3339] (fault : Fault) : (o : Statement) → StorageResult (o.Res × Database)
  | .selectMaxVersion nodeId => .ok (db.maxVersion nodeId, db)
  | .insertPolicyVersion row =>
    if db.nodes.contains row.nodeId then
      .ok ((), { db with policyVersions := db.policyVersions ++ [row] })
    else .error foreignKeyFailed
  | .replacePolicy row =>
    if db.nodes.contains row.nodeId then .ok ((), { db with policies := db.policies.insert row })
    else .error foreignKeyFailed
  | .selectState nodeId => .ok ((db.nodes.get? nodeId).map NodeRow.state, db)
  | .updateState nodeId state =>
    .ok ((), { db with
      nodes := db.nodes.modify nodeId (fun row => { row with state := state }) fun _ => rfl })
  | .selectStale cutoff =>
    .ok (fault.read ((db.nodes.rows.filter (isStale cutoff)).map NodeRow.nodeId), db)
  | .selectAnnotations nodeId => .ok ((db.nodes.get? nodeId).map NodeRow.annotations, db)
  | .updateAnnotations nodeId annotations =>
    .ok ((), { db with
      nodes := db.nodes.modify nodeId (fun row => { row with annotations := annotations })
        fun _ => rfl })

end Database

/-- The connection: each statement is a transaction of its own. -/
def connection [Rfc3339] :
    Engine Statement Statement.Res Database PaciNetError Fault where
  exec fault o db :=
    match fault with
    | .fails e => .error e
    | _ => db.execute fault o

/-- A method that runs several statements. -/
abbrev Sql := Prog Statement Statement.Res

namespace Sql

/-- `store_policy`. -/
def storePolicy (policy : Policy) : Sql (StorageResult Nat) := do
  let max : Option Int ← Prog.perform (Statement.selectMaxVersion policy.nodeId)
  let version := asUInt64 (max.getD 0 + 1)
  let _ ← Prog.perform (Statement.insertPolicyVersion (.ofPolicy policy version))
  let _ ← Prog.perform (Statement.replacePolicy (.ofPolicy policy))
  pure (.ok version)

/-- `update_node_state`. -/
def updateNodeState (nodeId : String) (state : NodeState) : Sql (StorageResult Bool) := do
  let current : Option String ← Prog.perform (Statement.selectState nodeId)
  match current with
  | none => pure (.ok false)
  | some text =>
    match parseState text with
    | .error e => pure (.error e)
    | .ok current =>
      if !current.canTransitionTo state then
        pure (.error (.invalidStateTransition current.toString state.toString))
      else do
        let _ ← Prog.perform (Statement.updateState nodeId state.toString)
        pure (.ok true)

/-- The loop of `mark_stale_nodes`, on the way to its answer. -/
def setOffline (staleIds : List String) (ids : List String) : Sql (StorageResult (List String)) :=
  Engine.forEach (fun id => Statement.updateState id "offline") (.done (.ok staleIds)) ids

/-- `mark_stale_nodes`. `none` is a panic, before the first statement. -/
def markStaleNodes (now : DateTime) (threshold : Int) :
    Option (Sql (StorageResult (List String))) := do
  let cutoff ← addDuration now (-threshold)
  pure do
    let staleIds : List String ← Prog.perform (Statement.selectStale cutoff)
    setOffline staleIds staleIds

/-- `update_annotations`. -/
def updateAnnotations (nodeId : String) (set : Labels) (remove : List String) :
    Sql (StorageResult Unit) := do
  let annotations : Option Labels ← Prog.perform (Statement.selectAnnotations nodeId)
  match annotations with
  | none => pure (.error (.nodeNotFound nodeId))
  | some annotations => do
    let _ ← Prog.perform
      (Statement.updateAnnotations nodeId (MemoryStorage.annotate annotations set remove))
    pure (.ok ())

/-- The method when no statement fails but by a constraint. -/
def run [Rfc3339] {α : Type} (p : Sql (StorageResult α)) (db : Database) : StorageResult α × Database :=
  connection.run p (fun _ => .none) db

end Sql

/-! ## What the scripts do without a fault

The nodes are changed as their table says on its own. -/

/-- The method panics where the cutoff is no instant, and nowhere else. -/
theorem Sql.isSome_markStaleNodes (now : DateTime) (threshold : Int) :
    (Sql.markStaleNodes now threshold).isSome = (addDuration now (-threshold)).isSome := by
  unfold Sql.markStaleNodes
  cases addDuration now (-threshold) with
  | none => rfl
  | some cutoff => rfl

section Faultless

variable [Rfc3339] (db : Database)

/-- A statement that succeeds, in a script without faults. -/
theorem Sql.run_call {α : Type} {o : Statement} {k : o.Res → Sql (StorageResult α)} {r : o.Res}
    {db db' : Database} (h : db.execute .none o = .ok (r, db')) :
    Sql.run (.call o k) db = (k r).run db' :=
  Engine.run_call_of_ok h

/-- The version a policy is stored under: one more than the greatest of its node. -/
def Database.nextVersion (nodeId : String) : Nat := asUInt64 ((db.maxVersion nodeId).getD 0 + 1)

/-- An insert of a row whose node is there. -/
theorem Database.execute_insertPolicyVersion {row : PolicyVersionRow} (fault : Fault)
    (h : db.nodes.contains row.nodeId = true) :
    db.execute fault (.insertPolicyVersion row) =
      .ok ((), { db with policyVersions := db.policyVersions ++ [row] }) :=
  if_pos h

theorem Database.execute_replacePolicy {row : PolicyRow} (fault : Fault)
    (h : db.nodes.contains row.nodeId = true) :
    db.execute fault (.replacePolicy row) =
      .ok ((), { db with policies := db.policies.insert row }) :=
  if_pos h

/-- An insert of a row whose node is not. -/
theorem Database.execute_insertPolicyVersion_error {row : PolicyVersionRow} (fault : Fault)
    (h : ¬ db.nodes.contains row.nodeId = true) :
    db.execute fault (.insertPolicyVersion row) = .error foreignKeyFailed :=
  if_neg h

theorem Sql.run_storePolicy (policy : Policy) :
    (Sql.storePolicy policy).run db =
      if db.nodes.contains policy.nodeId then
        (.ok (db.nextVersion policy.nodeId),
          { db with
            policyVersions :=
              db.policyVersions ++ [.ofPolicy policy (db.nextVersion policy.nodeId)]
            policies := db.policies.insert (.ofPolicy policy) })
      else (.error foreignKeyFailed, db) := by
  unfold Sql.storePolicy
  simp only [Prog.bind_eq, Prog.perform_bind]
  rw [Sql.run_call rfl]
  by_cases hnode : db.nodes.contains policy.nodeId = true
  · rw [if_pos hnode, Sql.run_call (Database.execute_insertPolicyVersion _ _ hnode),
      Sql.run_call (Database.execute_replacePolicy _ _ hnode)]
    rfl
  · rw [if_neg hnode]
    exact Engine.run_call_of_error (Database.execute_insertPolicyVersion_error _ .none hnode)

theorem Sql.run_updateNodeState (nodeId : String) (state : NodeState) :
    (Sql.updateNodeState nodeId state).run db =
      db.onNodes (db.nodes.updateNodeState nodeId state) := by
  unfold Sql.updateNodeState NodesTable.updateNodeState
  simp only [Prog.bind_eq, Prog.perform_bind]
  rw [Sql.run_call rfl]
  cases db.nodes.get? nodeId with
  | none => rfl
  | some row =>
    dsimp only [Option.map_some]
    cases parseState row.state with
    | error e => rfl
    | ok current =>
      dsimp only
      by_cases hcan : (!current.canTransitionTo state) = true
      · rw [if_pos hcan, if_pos hcan]
        rfl
      · rw [if_neg hcan, if_neg hcan]
        rfl

theorem Sql.run_updateAnnotations (nodeId : String) (set : Labels) (remove : List String) :
    (Sql.updateAnnotations nodeId set remove).run db =
      db.onNodes (db.nodes.updateAnnotations nodeId set remove) := by
  unfold Sql.updateAnnotations NodesTable.updateAnnotations
  simp only [Prog.bind_eq, Prog.perform_bind]
  rw [Sql.run_call rfl]
  cases db.nodes.get? nodeId with
  | none => rfl
  | some row => rfl

/-- The loop sets every row it is given to `offline`. -/
theorem Sql.run_setOffline (staleIds ids : List String) :
    (Sql.setOffline staleIds ids).run db =
      (.ok staleIds, { db with
        nodes := ids.foldl
          (fun t id => t.modify id (fun row => { row with state := "offline" }) fun _ => rfl)
          db.nodes }) := by
  induction ids generalizing db with
  | nil => rfl
  | cons id ids ih =>
    unfold Sql.setOffline at ih ⊢
    rw [Engine.forEach, Sql.run_call rfl, ih]
    rfl

theorem Sql.run_markStaleNodes (now : DateTime) (threshold : Int) :
    ((Sql.markStaleNodes now threshold).map fun method => method.run db) =
      (db.nodes.markStaleNodes now threshold).map db.onNodes := by
  unfold Sql.markStaleNodes NodesTable.markStaleNodes
  cases addDuration now (-threshold) with
  | none => rfl
  | some cutoff =>
    simp only [Option.bind_eq_bind, Option.bind_some, Option.pure_def, Option.map_some,
      Prog.bind_eq, Prog.perform_bind]
    rw [Sql.run_call rfl]
    exact congrArg some (Sql.run_setOffline _ _ _)

theorem Sql.run_of_markStaleNodes {now : DateTime} {threshold : Int}
    {method : Sql (StorageResult (List String))}
    (h : Sql.markStaleNodes now threshold = some method) :
    ∃ r, db.nodes.markStaleNodes now threshold = some r ∧ method.run db = db.onNodes r := by
  have hrun := Sql.run_markStaleNodes db now threshold
  rw [h, Option.map_some] at hrun
  obtain ⟨r, hr, hmethod⟩ := Option.map_eq_some_iff.1 hrun.symm
  exact ⟨r, hr, hmethod.symm⟩

end Faultless

namespace Database

variable (db : Database)

/-! ## Nodes -/

def listNodes (labelFilter : Labels) : StorageResult (List Node) :=
  .ok ((readable rowToNode db.nodes.rows).filter fun node => node.matchesLabels labelFilter)

/-- The rows that reference a node go with it. -/
def removeNode (nodeId : String) : StorageResult Bool × Database :=
  if db.nodes.contains nodeId then
    (.ok true,
      { db with
        nodes := db.nodes.erase nodeId
        policies := db.policies.erase nodeId
        policyVersions := db.policyVersions.filter fun row => row.nodeId != nodeId
        counters := db.counters.erase nodeId
        flowCounters := db.flowCounters.erase nodeId
        deployments := db.deployments.filter fun row => row.nodeId != nodeId })
  else (.ok false, db)

/-! ## Counters -/

def storeCounters (nodeId : String) (counters : List RuleCounter) :
    StorageResult Unit × Database :=
  if db.nodes.contains nodeId then
    (.ok (), { db with counters := db.counters.insert nodeId counters })
  else (.error foreignKeyFailed, db)

def getCounters (nodeId : String) : StorageResult (Option (List RuleCounter)) :=
  .ok (db.counters.lookup nodeId)

def storeFlowCounters (nodeId : String) (counters : List FlowCounter) :
    StorageResult Unit × Database :=
  if db.nodes.contains nodeId then
    (.ok (), { db with flowCounters := db.flowCounters.insert nodeId counters })
  else (.error foreignKeyFailed, db)

def getFlowCounters (nodeId : String) : StorageResult (Option (List FlowCounter)) :=
  .ok (db.flowCounters.lookup nodeId)

/-! ## Policies -/

def getPolicy (nodeId : String) : StorageResult (Option Policy) :=
  match db.policies.get? nodeId with
  | some row => (rowToPolicy row).map some
  | none => .ok none

def getPolicyHistory (nodeId : String) (limit : Nat) : StorageResult (List PolicyVersion) :=
  let rows := db.policyVersions.filter fun row => row.nodeId == nodeId
  .ok (readable rowToPolicyVersion
    ((orderBy (fun a b => decide (b.version ≤ a.version)) rows).take limit))

def getPoliciesForNodes (nodeIds : List String) : StorageResult (List (String × Policy)) :=
  if nodeIds.length > maxVariableNumber then
    .error (.internal "variable number must be between ?1 and ?32766")
  else
    let rows := db.policies.rows.filter fun row => nodeIds.contains row.nodeId
    .ok ((readable rowToPolicy rows).map fun p => (p.nodeId, p))

/-! ## Deployments -/

def recordDeployment (record : DeploymentRecord) : StorageResult Unit × Database :=
  if db.deployments.contains record.id then
    (.error (.internal "UNIQUE constraint failed: deployments.id"), db)
  else if !db.nodes.contains record.nodeId then (.error foreignKeyFailed, db)
  else (.ok (), { db with deployments := db.deployments.insert (.ofRecord record) })

def getDeployments [Rfc3339] (nodeId : String) (limit : Nat) :
    StorageResult (List DeploymentRecord) :=
  let rows := db.deployments.rows.filter fun row => row.nodeId == nodeId
  .ok (readable rowToDeployment
    ((orderBy (fun a b => !Rfc3339.lt a.deployedAt b.deployedAt) rows).take limit))

/-! ## The summary -/

/-- `MIN` of a column of instants. -/
def minText [Rfc3339] (column : List DateTime) : Option DateTime :=
  column.foldl (fun oldest t =>
    match oldest with
    | none => some t
    | some prev => some (if Rfc3339.lt t prev then t else prev)) none

def statusSummary [Rfc3339] : StorageResult StatusSummary :=
  .ok {
    total := db.nodes.rows.length
    byState := db.nodes.rows.foldl (fun m row =>
      m.insert row.state ((m.lookup row.state).getD 0 + 1)) ∅
    oldest := (minText (db.nodes.rows.map NodeRow.lastHeartbeat)).bind fun t =>
      (parseFromRfc3339 t).toOption }

/-! ## FSM -/

def storeFsmDefinition (now : DateTime) (d : FsmDefinition) : StorageResult Unit × Database :=
  (.ok (),
    { db with fsmDefinitions := db.fsmDefinitions.insert ⟨d.name, d.kind.toString, d, now⟩ })

def getFsmDefinition [SerdeJson] (name : String) : StorageResult (Option FsmDefinition) :=
  match db.fsmDefinitions.get? name with
  | some row => (SerdeJson.readDefinition row.definitionJson).map some
  | none => .ok none

def listFsmDefinitions [SerdeJson] (kind : Option FsmKind) : StorageResult (List FsmDefinition) :=
  let rows := db.fsmDefinitions.rows.filter fun row => kind.all fun k => row.kind == k.toString
  .ok (readable (fun row => SerdeJson.readDefinition row.definitionJson) rows)

def deleteFsmDefinition (name : String) : StorageResult Bool × Database :=
  (.ok (db.fsmDefinitions.contains name),
    { db with fsmDefinitions := db.fsmDefinitions.erase name })

def storeFsmInstance (inst : FsmInstance) : StorageResult Unit × Database :=
  if db.fsmInstances.contains inst.instanceId then
    (.error (.internal
      "Failed to store FSM instance: UNIQUE constraint failed: fsm_instances.instance_id"), db)
  else (.ok (), { db with fsmInstances := db.fsmInstances.insert (.ofInstance inst) })

def getFsmInstance [SerdeJson] (id : String) : StorageResult (Option FsmInstance) :=
  match db.fsmInstances.get? id with
  | some row => (SerdeJson.readInstance row.instanceJson).map some
  | none => .ok none

/-- The name of the definition and the instant of creation are columns it does not write. -/
def updateFsmInstance (inst : FsmInstance) : StorageResult Unit × Database :=
  if db.fsmInstances.contains inst.instanceId then
    (.ok (),
      { db with
        fsmInstances := db.fsmInstances.modify inst.instanceId
          (fun row => { row with
            status := inst.status.toString
            instanceJson := inst
            updatedAt := inst.updatedAt })
          fun _ => rfl })
  else (.error (.fsm (.instanceNotFound inst.instanceId)), db)

def listFsmInstances [Rfc3339] [SerdeJson] (defName : Option String)
    (status : Option FsmInstanceStatus) : StorageResult (List FsmInstance) :=
  let rows := db.fsmInstances.rows.filter fun row =>
    defName.all (row.definitionName == ·) && status.all fun s => row.status == s.toString
  .ok (readable (fun row => SerdeJson.readInstance row.instanceJson)
    (orderBy (fun a b => !Rfc3339.lt a.createdAt b.createdAt) rows))

/-! ## Events -/

def storeEvent (event : PersistentEvent) : StorageResult Unit × Database :=
  if db.events.contains event.id then
    (.error (.internal "Failed to store event: UNIQUE constraint failed: events.id"), db)
  else (.ok (), { db with events := db.events.insert event })

/-- An instant of a row that reads back. -/
def readAt {α : Type} (at_ : α → DateTime) (row : α) : StorageResult α :=
  (parseFromRfc3339 (at_ row)).map fun _ => row

def queryEvents [Rfc3339] (eventType source : Option String) (since until_ : Option DateTime)
    (limit : Nat) : StorageResult (List PersistentEvent) :=
  let rows := db.events.rows.filter fun e =>
    eventType.all (e.eventType == ·) && source.all (e.source == ·) &&
      since.all (fun s => !Rfc3339.lt e.timestamp s) &&
      until_.all (fun u => !Rfc3339.lt u e.timestamp)
  .ok (readable (readAt PersistentEvent.timestamp)
    ((orderBy (fun a b => !Rfc3339.lt a.timestamp b.timestamp) rows).take limit))

def pruneEvents [Rfc3339] (olderThan : DateTime) : StorageResult Nat × Database :=
  let kept := db.events.filter fun e => !Rfc3339.lt e.timestamp olderThan
  (.ok (db.events.rows.length - kept.rows.length), { db with events := kept })

def countEvents : StorageResult Nat := .ok db.events.rows.length

/-! ## Audit, templates, webhooks -/

def storeAudit (entry : AuditEntry) : StorageResult Unit × Database :=
  if db.auditLog.contains entry.id then
    (.error (.internal "Failed to store audit entry: UNIQUE constraint failed: audit_log.id"), db)
  else (.ok (), { db with auditLog := db.auditLog.insert entry })

def queryAudit [Rfc3339] (action resourceType resourceId : Option String)
    (since : Option DateTime) (limit : Nat) : StorageResult (List AuditEntry) :=
  let rows := db.auditLog.rows.filter fun e =>
    action.all (e.action == ·) && resourceType.all (e.resourceType == ·) &&
      resourceId.all (e.resourceId == ·) && since.all (fun s => !Rfc3339.lt e.timestamp s)
  .ok (readable (readAt AuditEntry.timestamp)
    ((orderBy (fun a b => !Rfc3339.lt a.timestamp b.timestamp) rows).take limit))

def storeTemplate (template : PolicyTemplate) : StorageResult Unit × Database :=
  (.ok (), { db with policyTemplates := db.policyTemplates.insert template })

/-- The template of a row: both its instants have to read back. -/
def readTemplate (row : PolicyTemplate) : StorageResult PolicyTemplate := do
  let createdAt ← parseFromRfc3339 row.createdAt
  let updatedAt ← parseFromRfc3339 row.updatedAt
  pure { row with createdAt := createdAt, updatedAt := updatedAt }

def getTemplate (name : String) : StorageResult (Option PolicyTemplate) :=
  match db.policyTemplates.get? name with
  | some row => (readTemplate row).map some
  | none => .ok none

def listTemplates (tag : Option String) : StorageResult (List PolicyTemplate) :=
  .ok ((readable readTemplate
    (orderBy (fun a b => decide (a.name ≤ b.name)) db.policyTemplates.rows)).filter fun t =>
      tag.all t.tags.contains)

def deleteTemplate (name : String) : StorageResult Bool × Database :=
  (.ok (db.policyTemplates.contains name),
    { db with policyTemplates := db.policyTemplates.erase name })

def storeWebhookDelivery (delivery : WebhookDelivery) : StorageResult Unit × Database :=
  if db.webhookDeliveries.contains delivery.id then
    (.error (.internal
      "Failed to store webhook delivery: UNIQUE constraint failed: webhook_deliveries.id"), db)
  else (.ok (), { db with webhookDeliveries := db.webhookDeliveries.insert delivery })

def queryWebhookDeliveries [Rfc3339] (instanceId : Option String) (limit : Nat) :
    StorageResult (List WebhookDelivery) :=
  let rows := db.webhookDeliveries.rows.filter fun d => instanceId.all (d.instanceId == ·)
  .ok (readable (readAt WebhookDelivery.timestamp)
    ((orderBy (fun a b => !Rfc3339.lt a.timestamp b.timestamp) rows).take limit))

end Database

/-! ## The backend -/

/-- The connection behind its lock, and the set of nodes a deploy holds. -/
structure SqliteStorage where
  conn : Database
  poisoned : Bool
  deploying : Finset String

namespace SqliteStorage

/-- `SqliteStorage::in_memory`. -/
def inMemory : SqliteStorage where
  conn :=
    { nodes := .empty
      policies := .empty
      policyVersions := []
      counters := ∅
      flowCounters := ∅
      deployments := .empty
      fsmDefinitions := .empty
      fsmInstances := .empty
      events := .empty
      auditLog := .empty
      policyTemplates := .empty
      webhookDeliveries := .empty }
  poisoned := false
  deploying := ∅

/-- A panic has no answer, it is told as this error. -/
def panicked : PaciNetError := .internal "panicked"

variable (s : SqliteStorage) {α : Type}

/-- A method under the lock of the connection; taking a poisoned lock panics. -/
def locked (f : Database → StorageResult α × Database) : StorageResult α × SqliteStorage :=
  if s.poisoned then (.error panicked, s)
  else ((f s.conn).1, { s with conn := (f s.conn).2 })

/-- A method that only reads. -/
def reading (f : Database → StorageResult α) : StorageResult α × SqliteStorage :=
  s.locked fun db => (f db, db)

def removeNode (nodeId : String) : StorageResult Bool × SqliteStorage :=
  let (r, s') := s.locked fun db => db.removeNode nodeId
  (r, if s.poisoned then s' else { s' with deploying := s'.deploying.erase nodeId })

/-- An empty list of ids is answered without the connection. -/
def getPoliciesForNodes (nodeIds : List String) :
    StorageResult (List (String × Policy)) × SqliteStorage :=
  if nodeIds.isEmpty then (.ok [], s) else s.reading fun db => db.getPoliciesForNodes nodeIds

def beginDeploy (nodeId : String) : StorageResult Unit × SqliteStorage :=
  if nodeId ∈ s.deploying then (.error (.concurrentDeploy nodeId), s)
  else (.ok (), { s with deploying := insert nodeId s.deploying })

def endDeploy (nodeId : String) : Unit × SqliteStorage :=
  ((), { s with deploying := s.deploying.erase nodeId })

/-- The panic of a cutoff that is no instant comes under the lock, and poisons it. -/
def markStaleNodes [Rfc3339] (now : DateTime) (threshold : Int) :
    StorageResult (List String) × SqliteStorage :=
  match Sql.markStaleNodes now threshold with
  | none => (.error panicked, { s with poisoned := true })
  | some method => s.locked method.run

end SqliteStorage

/-- `impl Storage for SqliteStorage`. -/
instance SqliteStorage.instStorage [Rfc3339] [SerdeJson] : Storage SqliteStorage where
  call now c s :=
    match c with
    | .registerNode node => s.locked fun db => db.onNodes (db.nodes.registerNode node)
    | .getNode nodeId => s.reading fun db => db.nodes.getNode nodeId
    | .listNodes labelFilter => s.reading fun db => db.listNodes labelFilter
    | .removeNode nodeId => s.removeNode nodeId
    | .updateHeartbeat nodeId state uptime =>
        s.locked fun db => db.onNodes (db.nodes.updateHeartbeat now nodeId state uptime)
    | .updateNodeState nodeId state => s.locked (Sql.updateNodeState nodeId state).run
    | .storeCounters nodeId counters => s.locked fun db => db.storeCounters nodeId counters
    | .getCounters nodeId => s.reading fun db => db.getCounters nodeId
    | .storeFlowCounters nodeId counters =>
        s.locked fun db => db.storeFlowCounters nodeId counters
    | .getFlowCounters nodeId => s.reading fun db => db.getFlowCounters nodeId
    | .storePolicy policy => s.locked (Sql.storePolicy policy).run
    | .getPolicy nodeId => s.reading fun db => db.getPolicy nodeId
    | .getPolicyHistory nodeId limit => s.reading fun db => db.getPolicyHistory nodeId limit
    | .getPoliciesForNodes nodeIds => s.getPoliciesForNodes nodeIds
    | .recordDeployment record => s.locked fun db => db.recordDeployment record
    | .getDeployments nodeId limit => s.reading fun db => db.getDeployments nodeId limit
    | .beginDeploy nodeId => s.beginDeploy nodeId
    | .endDeploy nodeId => s.endDeploy nodeId
    | .markStaleNodes threshold => s.markStaleNodes now threshold
    | .statusSummary => s.reading fun db => db.statusSummary
    | .storeFsmDefinition d => s.locked fun db => db.storeFsmDefinition now d
    | .getFsmDefinition name => s.reading fun db => db.getFsmDefinition name
    | .listFsmDefinitions kind => s.reading fun db => db.listFsmDefinitions kind
    | .deleteFsmDefinition name => s.locked fun db => db.deleteFsmDefinition name
    | .storeFsmInstance inst => s.locked fun db => db.storeFsmInstance inst
    | .getFsmInstance id => s.reading fun db => db.getFsmInstance id
    | .updateFsmInstance inst => s.locked fun db => db.updateFsmInstance inst
    | .listFsmInstances defName status => s.reading fun db => db.listFsmInstances defName status
    | .storeEvent event => s.locked fun db => db.storeEvent event
    | .queryEvents eventType source since until_ limit =>
        s.reading fun db => db.queryEvents eventType source since until_ limit
    | .pruneEvents olderThan => s.locked fun db => db.pruneEvents olderThan
    | .countEvents => s.reading fun db => db.countEvents
    | .updateAnnotations nodeId set remove =>
        s.locked (Sql.updateAnnotations nodeId set remove).run
    | .storeAudit entry => s.locked fun db => db.storeAudit entry
    | .queryAudit action resourceType resourceId since limit =>
        s.reading fun db => db.queryAudit action resourceType resourceId since limit
    | .storeTemplate template => s.locked fun db => db.storeTemplate template
    | .getTemplate name => s.reading fun db => db.getTemplate name
    | .listTemplates tag => s.reading fun db => db.listTemplates tag
    | .deleteTemplate name => s.locked fun db => db.deleteTemplate name
    | .storeWebhookDelivery delivery => s.locked fun db => db.storeWebhookDelivery delivery
    | .queryWebhookDeliveries instanceId limit =>
        s.reading fun db => db.queryWebhookDeliveries instanceId limit

/-! ## What the lock leaves -/

namespace SqliteStorage

variable {s : SqliteStorage} {α β : Type}

/-- Under a lock that is not poisoned a method is what it does to the database. -/
theorem locked_eq (h : s.poisoned = false) (f : Database → StorageResult α × Database) :
    s.locked f = ((f s.conn).1, { s with conn := (f s.conn).2 }) := by
  rw [locked, h]
  rfl

theorem reading_eq (h : s.poisoned = false) (f : Database → StorageResult α) :
    s.reading f = (f s.conn, s) := by
  rw [reading, locked_eq h]

@[simp] theorem reading_snd (f : Database → StorageResult α) : (s.reading f).2 = s := by
  unfold reading locked
  split <;> rfl

@[simp] theorem poisoned_locked (f : Database → StorageResult α × Database) :
    (s.locked f).2.poisoned = s.poisoned := by
  unfold locked
  split <;> rfl

/-- What a method leaves alone it leaves alone under the lock. -/
theorem locked_keeps {view : Database → β} {f : Database → StorageResult α × Database}
    (hf : ∀ db, view (f db).2 = view db) : view (s.locked f).2.conn = view s.conn := by
  unfold locked
  split
  · rfl
  · exact hf s.conn

@[simp] theorem getPoliciesForNodes_snd (nodeIds : List String) :
    (s.getPoliciesForNodes nodeIds).2 = s := by
  unfold getPoliciesForNodes
  split
  · rfl
  · exact reading_snd _

theorem removeNode_eq (h : s.poisoned = false) (nodeId : String) :
    s.removeNode nodeId =
      ((s.conn.removeNode nodeId).1,
        { s with
          conn := (s.conn.removeNode nodeId).2
          deploying := s.deploying.erase nodeId }) := by
  unfold removeNode
  rw [locked_eq h, h]
  rfl

end SqliteStorage

end PaciNet

import Mathlib.Data.Finset.Basic
import PaciNet.Lib.Table
import PaciNet.Storage.Trait

/-!
# `MemoryStorage`

One definition for each method of the trait, under its name. A call is one step: the methods
hold their locks over what they read and write (`remove_node` releases each map's lock before it
takes the next, and nothing here looks at a node between two of its maps). A map whose key is a
field of its values is a `Table`, which carries the agreement of the two; the others are
association lists.
-/

set_option autoImplicit false

namespace PaciNet

open Lib

def maxMemoryEvents : Nat := 10000
def maxMemoryAudit : Nat := 10000

/-- The in-memory backend. -/
structure MemoryStorage where
  nodes : Table Node.nodeId
  policies : Table Policy.nodeId
  counters : AList fun _ : String => List RuleCounter
  flowCounters : AList fun _ : String => List FlowCounter
  policyVersions : AList fun _ : String => List PolicyVersion
  deployments : List DeploymentRecord
  deploying : Finset String
  fsmDefinitions : Table FsmDefinition.name
  fsmInstances : Table FsmInstance.instanceId
  events : List PersistentEvent
  auditLog : List AuditEntry
  templates : Table PolicyTemplate.name
  webhookDeliveries : List WebhookDelivery

namespace MemoryStorage

/-- `MemoryStorage::new`. -/
def new : MemoryStorage where
  nodes := .empty
  policies := .empty
  counters := ∅
  flowCounters := ∅
  policyVersions := ∅
  deployments := []
  deploying := ∅
  fsmDefinitions := .empty
  fsmInstances := .empty
  events := []
  auditLog := []
  templates := .empty
  webhookDeliveries := []

/-- The most recent entries of a log that satisfy a filter, newest first. -/
def latest {α : Type} (p : α → Bool) (limit : Nat) (log : List α) : List α :=
  (log.reverse.filter p).take limit

/-- A log after draining it from the front down to `limit` entries. -/
def keepLast {α : Type} (limit : Nat) (log : List α) : List α := (log.reverse.take limit).reverse

theorem keepLast_of_le {α : Type} {limit : Nat} {log : List α} (h : log.length ≤ limit) :
    keepLast limit log = log := by
  rw [keepLast, List.take_of_length_le (by rw [List.length_reverse]; exact h),
    List.reverse_reverse]

variable (s : MemoryStorage)

/-! ## Nodes -/

def registerNode (node : Node) : StorageResult String × MemoryStorage :=
  (.ok node.nodeId, { s with nodes := s.nodes.insert node })

def getNode (nodeId : String) : StorageResult (Option Node) :=
  .ok (s.nodes.get? nodeId)

def listNodes (labelFilter : Labels) : StorageResult (List Node) :=
  .ok (s.nodes.rows.filter fun node => node.matchesLabels labelFilter)

def removeNode (nodeId : String) : StorageResult Bool × MemoryStorage :=
  (.ok (s.nodes.get? nodeId).isSome,
    { s with
      policies := s.policies.erase nodeId
      counters := s.counters.erase nodeId
      flowCounters := s.flowCounters.erase nodeId
      policyVersions := s.policyVersions.erase nodeId
      deploying := s.deploying.erase nodeId
      nodes := s.nodes.erase nodeId })

def updateHeartbeat (now : DateTime) (nodeId : String) (state : NodeState) (uptime : Nat) :
    StorageResult Bool × MemoryStorage :=
  if (s.nodes.get? nodeId).isSome then
    (.ok true,
      { s with
        nodes := s.nodes.modify nodeId
          (fun node => { node with lastHeartbeat := now, state := state, uptimeSeconds := uptime })
          fun _ => rfl })
  else (.ok false, s)

def updateNodeState (nodeId : String) (state : NodeState) :
    StorageResult Bool × MemoryStorage :=
  match s.nodes.get? nodeId with
  | some node =>
    if node.state.canTransitionTo state then
      (.ok true,
        { s with
          nodes := s.nodes.modify nodeId (fun node => { node with state := state }) fun _ => rfl })
    else (.error (.invalidStateTransition node.state.toString state.toString), s)
  | none => (.ok false, s)

/-! ## Counters -/

def storeCounters (nodeId : String) (counters : List RuleCounter) :
    StorageResult Unit × MemoryStorage :=
  (.ok (), { s with counters := s.counters.insert nodeId counters })

def getCounters (nodeId : String) : StorageResult (Option (List RuleCounter)) :=
  .ok (s.counters.lookup nodeId)

def storeFlowCounters (nodeId : String) (counters : List FlowCounter) :
    StorageResult Unit × MemoryStorage :=
  (.ok (), { s with flowCounters := s.flowCounters.insert nodeId counters })

def getFlowCounters (nodeId : String) : StorageResult (Option (List FlowCounter)) :=
  .ok (s.flowCounters.lookup nodeId)

/-! ## Policies -/

/-- The versions stored for a node, oldest first. -/
def versionsOf (nodeId : String) : List PolicyVersion :=
  (s.policyVersions.lookup nodeId).getD []

def storePolicy (policy : Policy) : StorageResult Nat × MemoryStorage :=
  let history := s.versionsOf policy.nodeId
  let version := history.length + 1
  (.ok version,
    { s with
      policyVersions :=
        s.policyVersions.insert policy.nodeId (history ++ [{ policy with version := version }])
      policies := s.policies.insert policy })

def getPolicy (nodeId : String) : StorageResult (Option Policy) :=
  .ok (s.policies.get? nodeId)

def getPolicyHistory (nodeId : String) (limit : Nat) : StorageResult (List PolicyVersion) :=
  .ok ((s.versionsOf nodeId).reverse.take limit)

def getPoliciesForNodes (nodeIds : List String) : StorageResult (List (String × Policy)) :=
  .ok (nodeIds.dedup.filterMap fun id => (s.policies.get? id).map fun p => (id, p))

/-! ## Deployments -/

def recordDeployment (record : DeploymentRecord) : StorageResult Unit × MemoryStorage :=
  (.ok (), { s with deployments := s.deployments ++ [record] })

def getDeployments (nodeId : String) (limit : Nat) : StorageResult (List DeploymentRecord) :=
  .ok (latest (fun d => d.nodeId == nodeId) limit s.deployments)

def beginDeploy (nodeId : String) : StorageResult Unit × MemoryStorage :=
  if nodeId ∈ s.deploying then (.error (.concurrentDeploy nodeId), s)
  else (.ok (), { s with deploying := insert nodeId s.deploying })

def endDeploy (nodeId : String) : Unit × MemoryStorage :=
  ((), { s with deploying := s.deploying.erase nodeId })

/-! ## Stale nodes and the summary -/

/-- A node `mark_stale_nodes` takes offline. -/
def isStale (now : DateTime) (threshold : Int) (node : Node) : Bool :=
  node.state != .offline && node.state != .registered && now - node.lastHeartbeat > threshold

def markStaleNodes (now : DateTime) (threshold : Int) :
    StorageResult (List String) × MemoryStorage :=
  (.ok ((s.nodes.rows.filter (isStale now threshold)).map Node.nodeId),
    { s with
      nodes := s.nodes.mapAll
        (fun node => if isStale now threshold node then { node with state := .offline } else node)
        fun node => by split <;> rfl })

def statusSummary : StorageResult StatusSummary :=
  .ok {
    total := s.nodes.rows.length
    byState := s.nodes.rows.foldl (fun m node =>
      m.insert node.state.toString ((m.lookup node.state.toString).getD 0 + 1)) ∅
    oldest := s.nodes.rows.foldl (fun oldest node =>
      match oldest with
      | none => some node.lastHeartbeat
      | some prev => some (if node.lastHeartbeat < prev then node.lastHeartbeat else prev)) none }

/-! ## FSM -/

def storeFsmDefinition (d : FsmDefinition) : StorageResult Unit × MemoryStorage :=
  (.ok (), { s with fsmDefinitions := s.fsmDefinitions.insert d })

def getFsmDefinition (name : String) : StorageResult (Option FsmDefinition) :=
  .ok (s.fsmDefinitions.get? name)

def listFsmDefinitions (kind : Option FsmKind) : StorageResult (List FsmDefinition) :=
  .ok (s.fsmDefinitions.rows.filter fun d => kind.all (d.kind == ·))

def deleteFsmDefinition (name : String) : StorageResult Bool × MemoryStorage :=
  (.ok (s.fsmDefinitions.get? name).isSome,
    { s with fsmDefinitions := s.fsmDefinitions.erase name })

def storeFsmInstance (inst : FsmInstance) : StorageResult Unit × MemoryStorage :=
  (.ok (), { s with fsmInstances := s.fsmInstances.insert inst })

def getFsmInstance (id : String) : StorageResult (Option FsmInstance) :=
  .ok (s.fsmInstances.get? id)

def updateFsmInstance (inst : FsmInstance) : StorageResult Unit × MemoryStorage :=
  if (s.fsmInstances.get? inst.instanceId).isSome then
    (.ok (), { s with fsmInstances := s.fsmInstances.insert inst })
  else (.error (.fsm (.instanceNotFound inst.instanceId)), s)

def listFsmInstances (defName : Option String) (status : Option FsmInstanceStatus) :
    StorageResult (List FsmInstance) :=
  .ok (s.fsmInstances.rows.filter fun i =>
    defName.all (i.definitionName == ·) && status.all (i.status == ·))

/-! ## Events -/

def storeEvent (event : PersistentEvent) : StorageResult Unit × MemoryStorage :=
  (.ok (), { s with events := keepLast maxMemoryEvents (s.events ++ [event]) })

def queryEvents (eventType source : Option String) (since until_ : Option DateTime)
    (limit : Nat) : StorageResult (List PersistentEvent) :=
  .ok (latest (fun e => eventType.all (e.eventType == ·) && source.all (e.source == ·) &&
    since.all (e.timestamp ≥ ·) && until_.all (e.timestamp ≤ ·)) limit s.events)

def pruneEvents (olderThan : DateTime) : StorageResult Nat × MemoryStorage :=
  let kept := s.events.filter fun e => e.timestamp ≥ olderThan
  (.ok (s.events.length - kept.length), { s with events := kept })

def countEvents : StorageResult Nat := .ok s.events.length

/-! ## Annotations, audit, templates, webhooks -/

/-- Remove the keys, then set the entries. -/
def annotate (annotations set : Labels) (remove : List String) : Labels :=
  set.entries.foldl (fun m e => m.insert e.1 e.2) (remove.foldl (fun m k => m.erase k) annotations)

def updateAnnotations (nodeId : String) (set : Labels) (remove : List String) :
    StorageResult Unit × MemoryStorage :=
  if (s.nodes.get? nodeId).isSome then
    (.ok (),
      { s with
        nodes := s.nodes.modify nodeId
          (fun node => { node with annotations := annotate node.annotations set remove })
          fun _ => rfl })
  else (.error (.nodeNotFound nodeId), s)

def storeAudit (entry : AuditEntry) : StorageResult Unit × MemoryStorage :=
  (.ok (), { s with auditLog := keepLast maxMemoryAudit (s.auditLog ++ [entry]) })

def queryAudit (action resourceType resourceId : Option String) (since : Option DateTime)
    (limit : Nat) : StorageResult (List AuditEntry) :=
  .ok (latest (fun e => action.all (e.action == ·) && resourceType.all (e.resourceType == ·) &&
    resourceId.all (e.resourceId == ·) && since.all (e.timestamp ≥ ·)) limit s.auditLog)

def storeTemplate (template : PolicyTemplate) : StorageResult Unit × MemoryStorage :=
  (.ok (), { s with templates := s.templates.insert template })

def getTemplate (name : String) : StorageResult (Option PolicyTemplate) :=
  .ok (s.templates.get? name)

def listTemplates (tag : Option String) : StorageResult (List PolicyTemplate) :=
  .ok (s.templates.rows.filter fun t => tag.all t.tags.contains)

def deleteTemplate (name : String) : StorageResult Bool × MemoryStorage :=
  (.ok (s.templates.get? name).isSome, { s with templates := s.templates.erase name })

def storeWebhookDelivery (delivery : WebhookDelivery) : StorageResult Unit × MemoryStorage :=
  (.ok (), { s with webhookDeliveries := s.webhookDeliveries ++ [delivery] })

def queryWebhookDeliveries (instanceId : Option String) (limit : Nat) :
    StorageResult (List WebhookDelivery) :=
  .ok (latest (fun d => instanceId.all (d.instanceId == ·)) limit s.webhookDeliveries)

/-! ## What the guarded updates leave

An update that is refused, and one of a row that is not there, both change nothing. -/

theorem updateHeartbeat_snd (now : DateTime) (nodeId : String) (state : NodeState) (uptime : Nat) :
    (s.updateHeartbeat now nodeId state uptime).2 =
      { s with
        nodes := s.nodes.modify nodeId
          (fun node => { node with lastHeartbeat := now, state := state, uptimeSeconds := uptime })
          fun _ => rfl } := by
  unfold updateHeartbeat
  split
  · rfl
  · rename_i h
    rw [Table.modify_eq_self _ fun v hv => absurd (hv ▸ rfl) h]

theorem updateNodeState_snd (nodeId : String) (state : NodeState) :
    (s.updateNodeState nodeId state).2 =
      { s with
        nodes := s.nodes.modify nodeId
          (fun node => if node.state.canTransitionTo state then { node with state := state } else node)
          fun node => by split <;> rfl } := by
  unfold updateNodeState
  split
  · rename_i node hnode
    split
    · rename_i hcan
      simp only [MemoryStorage.mk.injEq, and_true]
      refine Table.ext (List.map_congr_left fun v hv => ?_)
      by_cases hv' : v.nodeId = nodeId
      · obtain rfl : v = node := Option.some.inj ((Table.get?_eq_some.2 ⟨hv, hv'⟩).symm.trans hnode)
        simp [hcan]
      · simp [hv']
    · rename_i hcan
      rw [Table.modify_eq_self _ fun v hv => ?_]
      obtain rfl : node = v := Option.some.inj (hnode.symm.trans hv)
      exact if_neg hcan
  · rename_i h
    rw [Table.modify_eq_self _ fun v hv => absurd (h.symm.trans hv) (by simp)]

theorem beginDeploy_snd (nodeId : String) :
    (s.beginDeploy nodeId).2 = { s with deploying := insert nodeId s.deploying } := by
  unfold beginDeploy
  split
  · rename_i h
    rw [Finset.insert_eq_of_mem h]
  · rfl

theorem updateFsmInstance_snd (inst : FsmInstance) :
    (s.updateFsmInstance inst).2 =
      { s with
        fsmInstances := if (s.fsmInstances.get? inst.instanceId).isSome
          then s.fsmInstances.insert inst else s.fsmInstances } := by
  unfold updateFsmInstance
  split
  · rfl
  · rfl

theorem updateAnnotations_snd (nodeId : String) (set : Labels) (remove : List String) :
    (s.updateAnnotations nodeId set remove).2 =
      { s with
        nodes := s.nodes.modify nodeId
          (fun node => { node with annotations := annotate node.annotations set remove })
          fun _ => rfl } := by
  unfold updateAnnotations
  split
  · rfl
  · rename_i h
    rw [Table.modify_eq_self _ fun v hv => absurd (hv ▸ rfl) h]

end MemoryStorage

/-- `impl Storage for MemoryStorage`. -/
instance : Storage MemoryStorage where
  call now c s :=
    match c with
    | .registerNode node => s.registerNode node
    | .getNode nodeId => (s.getNode nodeId, s)
    | .listNodes labelFilter => (s.listNodes labelFilter, s)
    | .removeNode nodeId => s.removeNode nodeId
    | .updateHeartbeat nodeId state uptime => s.updateHeartbeat now nodeId state uptime
    | .updateNodeState nodeId state => s.updateNodeState nodeId state
    | .storeCounters nodeId counters => s.storeCounters nodeId counters
    | .getCounters nodeId => (s.getCounters nodeId, s)
    | .storeFlowCounters nodeId counters => s.storeFlowCounters nodeId counters
    | .getFlowCounters nodeId => (s.getFlowCounters nodeId, s)
    | .storePolicy policy => s.storePolicy policy
    | .getPolicy nodeId => (s.getPolicy nodeId, s)
    | .getPolicyHistory nodeId limit => (s.getPolicyHistory nodeId limit, s)
    | .getPoliciesForNodes nodeIds => (s.getPoliciesForNodes nodeIds, s)
    | .recordDeployment record => s.recordDeployment record
    | .getDeployments nodeId limit => (s.getDeployments nodeId limit, s)
    | .beginDeploy nodeId => s.beginDeploy nodeId
    | .endDeploy nodeId => s.endDeploy nodeId
    | .markStaleNodes threshold => s.markStaleNodes now threshold
    | .statusSummary => (s.statusSummary, s)
    | .storeFsmDefinition d => s.storeFsmDefinition d
    | .getFsmDefinition name => (s.getFsmDefinition name, s)
    | .listFsmDefinitions kind => (s.listFsmDefinitions kind, s)
    | .deleteFsmDefinition name => s.deleteFsmDefinition name
    | .storeFsmInstance inst => s.storeFsmInstance inst
    | .getFsmInstance id => (s.getFsmInstance id, s)
    | .updateFsmInstance inst => s.updateFsmInstance inst
    | .listFsmInstances defName status => (s.listFsmInstances defName status, s)
    | .storeEvent event => s.storeEvent event
    | .queryEvents eventType source since until_ limit =>
        (s.queryEvents eventType source since until_ limit, s)
    | .pruneEvents olderThan => s.pruneEvents olderThan
    | .countEvents => (s.countEvents, s)
    | .updateAnnotations nodeId set remove => s.updateAnnotations nodeId set remove
    | .storeAudit entry => s.storeAudit entry
    | .queryAudit action resourceType resourceId since limit =>
        (s.queryAudit action resourceType resourceId since limit, s)
    | .storeTemplate template => s.storeTemplate template
    | .getTemplate name => (s.getTemplate name, s)
    | .listTemplates tag => (s.listTemplates tag, s)
    | .deleteTemplate name => s.deleteTemplate name
    | .storeWebhookDelivery delivery => s.storeWebhookDelivery delivery
    | .queryWebhookDeliveries instanceId limit => (s.queryWebhookDeliveries instanceId limit, s)

namespace MemoryStorage

/-- The state after a call, whatever its answer: each call changes the fields named here. -/
def after (s : MemoryStorage) (now : DateTime) : StorageCall → MemoryStorage
  | .registerNode node => { s with nodes := s.nodes.insert node }
  | .removeNode nodeId => (s.removeNode nodeId).2
  | .updateHeartbeat nodeId state uptime =>
    { s with
      nodes := s.nodes.modify nodeId
        (fun node => { node with lastHeartbeat := now, state := state, uptimeSeconds := uptime })
        fun _ => rfl }
  | .updateNodeState nodeId state =>
    { s with
      nodes := s.nodes.modify nodeId
        (fun node => if node.state.canTransitionTo state then { node with state := state } else node)
        fun node => by split <;> rfl }
  | .storeCounters nodeId counters => { s with counters := s.counters.insert nodeId counters }
  | .storeFlowCounters nodeId counters =>
    { s with flowCounters := s.flowCounters.insert nodeId counters }
  | .storePolicy policy => (s.storePolicy policy).2
  | .recordDeployment record => { s with deployments := s.deployments ++ [record] }
  | .beginDeploy nodeId => { s with deploying := insert nodeId s.deploying }
  | .endDeploy nodeId => { s with deploying := s.deploying.erase nodeId }
  | .markStaleNodes threshold => (s.markStaleNodes now threshold).2
  | .storeFsmDefinition d => { s with fsmDefinitions := s.fsmDefinitions.insert d }
  | .deleteFsmDefinition name => { s with fsmDefinitions := s.fsmDefinitions.erase name }
  | .storeFsmInstance inst => { s with fsmInstances := s.fsmInstances.insert inst }
  | .updateFsmInstance inst =>
    { s with
      fsmInstances := if (s.fsmInstances.get? inst.instanceId).isSome
        then s.fsmInstances.insert inst else s.fsmInstances }
  | .updateAnnotations nodeId set remove =>
    { s with
      nodes := s.nodes.modify nodeId
        (fun node => { node with annotations := annotate node.annotations set remove })
        fun _ => rfl }
  | .storeEvent event => (s.storeEvent event).2
  | .pruneEvents olderThan => (s.pruneEvents olderThan).2
  | .storeAudit entry => (s.storeAudit entry).2
  | .storeTemplate template => { s with templates := s.templates.insert template }
  | .deleteTemplate name => { s with templates := s.templates.erase name }
  | .storeWebhookDelivery delivery =>
    { s with webhookDeliveries := s.webhookDeliveries ++ [delivery] }
  | _ => s

theorem call_snd (now : DateTime) (c : StorageCall) (s : MemoryStorage) :
    (Storage.call now c s).2 = s.after now c := by
  cases c with
  | updateHeartbeat nodeId state uptime => exact s.updateHeartbeat_snd now nodeId state uptime
  | updateNodeState nodeId state => exact s.updateNodeState_snd nodeId state
  | beginDeploy nodeId => exact s.beginDeploy_snd nodeId
  | updateFsmInstance inst => exact s.updateFsmInstance_snd inst
  | updateAnnotations nodeId set remove => exact s.updateAnnotations_snd nodeId set remove
  | _ => rfl

end MemoryStorage

/-- What a storage call does to the stored instances. -/
theorem call_fsmInstances (now : DateTime) (c : StorageCall) (s : MemoryStorage) :
    (Storage.call now c s).2.fsmInstances =
      match c with
      | .storeFsmInstance inst => s.fsmInstances.insert inst
      | .updateFsmInstance inst =>
        if (s.fsmInstances.get? inst.instanceId).isSome then s.fsmInstances.insert inst
        else s.fsmInstances
      | _ => s.fsmInstances := by
  rw [MemoryStorage.call_snd]
  cases c <;> rfl

/-- What a storage call does to the stored definitions. -/
theorem call_fsmDefinitions (now : DateTime) (c : StorageCall) (s : MemoryStorage) :
    (Storage.call now c s).2.fsmDefinitions =
      match c with
      | .storeFsmDefinition d => s.fsmDefinitions.insert d
      | .deleteFsmDefinition name => s.fsmDefinitions.erase name
      | _ => s.fsmDefinitions := by
  rw [MemoryStorage.call_snd]
  cases c <;> rfl

end PaciNet

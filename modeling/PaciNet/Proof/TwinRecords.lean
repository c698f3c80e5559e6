import PaciNet.Proof.TwinNodes

/-!
# Twins and the calls about deployments, FSMs and logs

A log whose entries are ordered by time is read from its end, and that is what `ORDER BY` and
`LIMIT` make of the rows (`orderBy_inOrder`). What is stored as JSON is read back whole.
-/

set_option autoImplicit false

namespace PaciNet

open Lib

/-! ## Logs -/

theorem InOrder.filter {α : Type} {column : α → DateTime} {log : List α} (h : InOrder column log)
    (p : α → Bool) : InOrder column (log.filter p) :=
  ⟨h.1.sublist List.filter_sublist, fun a ha => h.2 a (List.mem_filter.1 ha).1⟩

theorem InOrder.concat {α : Type} {column : α → DateTime} {log : List α} {a : α}
    (h : InOrder column log) (ha : isRfc3339 (column a) = true)
    (hlast : ∀ b ∈ log, column b < column a) : InOrder column (log ++ [a]) := by
  refine ⟨List.pairwise_append.2 ⟨h.1, List.pairwise_singleton _ _, ?_⟩, ?_⟩
  · intro b hb c hc
    rw [List.mem_singleton.1 hc]
    exact hlast b hb
  · intro b hb
    rcases List.mem_append.1 hb with hb | hb
    · exact h.2 b hb
    · rw [List.mem_singleton.1 hb]
      exact ha

/-- Rows that are ordered by time come out newest first. -/
theorem orderBy_inOrder {α : Type} {column : α → DateTime} {log : List α}
    (h : InOrder column log) : orderBy (newestFirst column) log = log.reverse := by
  refine orderBy_eq_reverse (h.1.imp fun {a b} hab => ?_)
  exact decide_eq_false (not_le.2 hab)

theorem latest_eq {α : Type} (p : α → Bool) (limit : Nat) (log : List α) :
    MemoryStorage.latest p limit log = (log.filter p).reverse.take limit := by
  rw [MemoryStorage.latest, List.filter_reverse]

/-- A filter by name, where names are told apart. -/
theorem all_name_eq {α : Type} [DecidableEq α] {name : α → String}
    (hname : ∀ {a b}, name a = name b ↔ a = b) (filter : Option α) (a : α) :
    (filter.all fun b => name a == name b) = filter.all (a == ·) := by
  cases filter with
  | none => rfl
  | some b =>
    show (name a == name b) = (a == b)
    rw [Bool.eq_iff_iff, beq_iff_eq, beq_iff_eq]
    exact hname

theorem readable_perm {α β : Type} {read : α → StorageResult β} {before : α → α → Bool}
    (rows : List α) : (readable read rows).Perm (readable read (orderBy before rows)) :=
  (List.perm_insertionSort _ rows).symm.filterMap _

/-! ## Rows of FSMs -/

theorem FsmKind.toString_inj {k l : FsmKind} : k.toString = l.toString ↔ k = l := by
  cases k <;> cases l <;> simp [FsmKind.toString]

theorem FsmInstanceStatus.toString_inj {k l : FsmInstanceStatus} :
    k.toString = l.toString ↔ k = l := by
  cases k <;> cases l <;> simp [FsmInstanceStatus.toString]

section Rows

variable [SerdeJson]

theorem FsmDefinitionRow.Shows.key (row : FsmDefinitionRow) (d : FsmDefinition)
    (h : row.Shows d) : row.name = d.name :=
  h.1

theorem FsmDefinitionRow.Shows.read {row : FsmDefinitionRow} {d : FsmDefinition}
    (h : row.Shows d) : SerdeJson.readDefinition row.definitionJson = .ok d := by
  rw [h.2.2.1]
  exact h.2.2.2

theorem FsmInstanceRow.Shows.key (row : FsmInstanceRow) (inst : FsmInstance)
    (h : row.Shows inst) : row.instanceId = inst.instanceId :=
  h.1

theorem FsmInstanceRow.Shows.read {row : FsmInstanceRow} {inst : FsmInstance}
    (h : row.Shows inst) : SerdeJson.readInstance row.instanceJson = .ok inst := by
  rw [h.2.2.2.1]
  exact h.2.2.2.2

end Rows

theorem PolicyTemplate.Shows.key (row template : PolicyTemplate) (h : row.Shows template) :
    row.name = template.name :=
  congrArg PolicyTemplate.name h.1

theorem PolicyTemplate.Shows.read {row template : PolicyTemplate} (h : row.Shows template) :
    Database.readTemplate row = .ok template := by
  obtain ⟨rfl, hcreated, hupdated⟩ := h
  unfold Database.readTemplate parseFromRfc3339
  rw [if_pos hcreated, if_pos hupdated]
  rfl

namespace Twins

variable [SerdeJson] {m : MemoryStorage} {s : SqliteStorage} [Rfc3339] {now : DateTime}

/-! ## Deployments -/

omit [SerdeJson] [Rfc3339] in
/-- A record more, about a node that is registered. -/
theorem liveDeployments_concat {record : DeploymentRecord} (hnode : m.Registered record.nodeId) :
    MemoryStorage.liveDeployments { m with deployments := m.deployments ++ [record] } =
      m.liveDeployments ++ [record] := by
  have hlast : [record].filter (fun d => decide (m.Registered d.nodeId)) = [record] :=
    List.filter_cons_of_pos (decide_eq_true hnode)
  show (m.deployments ++ [record]).filter _ = _
  rw [List.filter_append]
  exact congrArg _ hlast

theorem recordDeployment (h : Twins m s) {record : DeploymentRecord}
    (hc : KeepsTwins now m (.recordDeployment record)) :
    StayTwins now (.recordDeployment record) m s := by
  obtain ⟨hnode, hstorable, hfresh, hlast⟩ := hc
  obtain ⟨hrows, -⟩ := rows_of_shows h.deployments
  have hnew : ¬ s.conn.deployments.contains record.id = true := by
    intro hid
    obtain ⟨row, hrow, hkey⟩ := List.any_eq_true.1 hid
    rw [hrows] at hrow
    obtain ⟨d, hd, rfl⟩ := List.mem_map.1 hrow
    exact hfresh d hd (of_decide_eq_true hkey)
  have hs : s.conn.recordDeployment record = (.ok (), { s.conn with
      deployments := s.conn.deployments.insert (.ofRecord record) }) := by
    rw [Database.recordDeployment, if_neg hnew, h.contains_of_registered hnode]
    rfl
  refine .intro rfl (SqliteStorage.locked_of h.sound hs) rfl { h with
    policies := h.stillHeld rfl rfl rfl rfl rfl fun _ hn => hn
    deployments := ?_
    deploymentsInOrder := ?_ }
  · show List.Forall₂ _ (s.conn.deployments.insert (.ofRecord record)).rows _
    rw [Table.rows_insert_of_new hnew, liveDeployments_concat hnode]
    exact List.rel_append h.deployments (.cons ⟨rfl, hstorable⟩ .nil)
  · refine List.pairwise_append.2 ⟨h.deploymentsInOrder, List.pairwise_singleton _ _, ?_⟩
    intro d hd e he
    rw [List.mem_singleton.1 he]
    exact hlast d hd

/-- Deployments that are listed are those of a node that is registered, if there are any. -/
theorem getDeployments (h : Twins m s) {nodeId : String} {limit : Nat}
    (hc : KeepsTwins now m (.getDeployments nodeId limit)) :
    StayTwins now (.getDeployments nodeId limit) m s := by
  refine .intro rfl (SqliteStorage.reading_eq h.sound _) ?_ h
  show m.getDeployments nodeId limit = s.conn.getDeployments nodeId limit
  obtain ⟨hrows, hstorable⟩ := rows_of_shows h.deployments
  have hlive : (m.deployments.filter fun d => d.nodeId == nodeId) =
      m.liveDeployments.filter fun d => d.nodeId == nodeId := by
    rw [MemoryStorage.liveDeployments, List.filter_filter]
    refine List.filter_congr fun d hd => ?_
    by_cases hn : d.nodeId = nodeId
    · rcases hc with hreg | hnone
      · simp [hn, hreg]
      · exact absurd hn (hnone d hd)
    · simp [hn]
  have horder : InOrder DeploymentRow.deployedAt
      ((m.liveDeployments.filter fun d => d.nodeId == nodeId).map .ofRecord) := by
    have hnode (d : DeploymentRecord)
        (hd : d ∈ m.liveDeployments.filter fun d => d.nodeId == nodeId) : d.nodeId = nodeId :=
      beq_iff_eq.1 (List.mem_filter.1 hd).2
    have hsub : (m.liveDeployments.filter fun d => d.nodeId == nodeId).Sublist m.deployments :=
      List.filter_sublist.trans List.filter_sublist
    refine ⟨List.pairwise_map.2 ((h.deploymentsInOrder.sublist hsub).imp_of_mem
      fun {d e} hd he hlt => ?_), fun row hrow => ?_⟩
    · exact hlt ((hnode d hd).trans (hnode e he).symm)
    · obtain ⟨d, hd, rfl⟩ := List.mem_map.1 hrow
      exact (hstorable d (List.mem_filter.1 hd).1).1
  have hfilter : (s.conn.deployments.rows.filter fun row => row.nodeId == nodeId) =
      (m.liveDeployments.filter fun d => d.nodeId == nodeId).map .ofRecord := by
    rw [hrows, List.filter_map]
    rfl
  unfold MemoryStorage.getDeployments Database.getDeployments
  dsimp only
  rw [latest_eq, hlive, hfilter, ordersAlike DeploymentRow.deployedAt _ horder.2,
    orderBy_inOrder horder, ← List.map_reverse, ← List.map_take, readable_map (g := id),
    List.map_id]
  intro d hd
  have hmem := List.mem_reverse.1 (List.mem_of_mem_take hd)
  obtain ⟨hdeployed, hversion⟩ := hstorable d (List.mem_filter.1 hmem).1
  exact rowToDeployment_ofRecord hdeployed hversion

/-! ## FSMs -/

theorem storeFsmDefinition (h : Twins m s) {d : FsmDefinition}
    (hc : KeepsTwins now m (.storeFsmDefinition d)) :
    StayTwins now (.storeFsmDefinition d) m s :=
  .intro rfl (SqliteStorage.locked_eq h.sound _) rfl { h with
    policies := h.stillHeld rfl rfl rfl rfl rfl fun _ hn => hn
    fsmDefinitions := h.fsmDefinitions.put FsmDefinitionRow.Shows.key ⟨rfl, rfl, rfl, hc⟩ }

theorem getFsmDefinition (h : Twins m s) (name : String) :
    StayTwins now (.getFsmDefinition name) m s := by
  refine .intro rfl (SqliteStorage.reading_eq h.sound _) ?_ h
  show m.getFsmDefinition name = s.conn.getFsmDefinition name
  unfold MemoryStorage.getFsmDefinition Database.getFsmDefinition
  cases hd : m.fsmDefinitions.get? name with
  | none => rw [h.fsmDefinitions.find_none FsmDefinitionRow.Shows.key hd]
  | some d =>
    obtain ⟨row, hrow, hshow⟩ := h.fsmDefinitions.find_some FsmDefinitionRow.Shows.key hd
    rw [hrow]
    dsimp only
    rw [hshow.read]
    rfl

theorem listFsmDefinitions (h : Twins m s) (kind : Option FsmKind) :
    StayTwins now (.listFsmDefinitions kind) m s := by
  refine .intro rfl (SqliteStorage.reading_eq h.sound _) ⟨_, _, rfl, rfl, .of_eq ?_⟩ h
  refine (readable_shows (fun _ _ hshow => hshow.read)
    (h.fsmDefinitions.keep fun row d hshow => ?_)).symm
  rw [hshow.2.1, all_name_eq FsmKind.toString_inj]

theorem deleteFsmDefinition (h : Twins m s) (name : String) :
    StayTwins now (.deleteFsmDefinition name) m s :=
  .intro rfl (SqliteStorage.locked_eq h.sound _)
    (congrArg Except.ok (h.fsmDefinitions.contains FsmDefinitionRow.Shows.key name).symm) { h with
      policies := h.stillHeld rfl rfl rfl rfl rfl fun _ hn => hn
      fsmDefinitions := h.fsmDefinitions.erase FsmDefinitionRow.Shows.key name }

theorem storeFsmInstance (h : Twins m s) {inst : FsmInstance}
    (hc : KeepsTwins now m (.storeFsmInstance inst)) :
    StayTwins now (.storeFsmInstance inst) m s := by
  have hs : s.conn.storeFsmInstance inst = (.ok (), { s.conn with
      fsmInstances := s.conn.fsmInstances.insert (.ofInstance inst) }) := by
    refine if_neg ?_
    rw [h.fsmInstances.contains FsmInstanceRow.Shows.key, hc.1]
    exact Bool.false_ne_true
  exact .intro rfl (SqliteStorage.locked_of h.sound hs) rfl { h with
    policies := h.stillHeld rfl rfl rfl rfl rfl fun _ hn => hn
    fsmInstances := h.fsmInstances.put FsmInstanceRow.Shows.key ⟨rfl, rfl, rfl, rfl, hc.2⟩ }

theorem getFsmInstance (h : Twins m s) (id : String) :
    StayTwins now (.getFsmInstance id) m s := by
  refine .intro rfl (SqliteStorage.reading_eq h.sound _) ?_ h
  show m.getFsmInstance id = s.conn.getFsmInstance id
  unfold MemoryStorage.getFsmInstance Database.getFsmInstance
  cases hinst : m.fsmInstances.get? id with
  | none => rw [h.fsmInstances.find_none FsmInstanceRow.Shows.key hinst]
  | some inst =>
    obtain ⟨row, hrow, hshow⟩ := h.fsmInstances.find_some FsmInstanceRow.Shows.key hinst
    rw [hrow]
    dsimp only
    rw [hshow.read]
    rfl

/-- The name of the definition is a column that an update does not write. -/
theorem updateFsmInstance (h : Twins m s) {inst : FsmInstance}
    (hc : KeepsTwins now m (.updateFsmInstance inst)) :
    StayTwins now (.updateFsmInstance inst) m s := by
  have hcontains := h.fsmInstances.contains FsmInstanceRow.Shows.key inst.instanceId
  cases hstored : m.fsmInstances.get? inst.instanceId with
  | none =>
    rw [hstored] at hcontains
    have hm : m.updateFsmInstance inst =
        (.error (.fsm (.instanceNotFound inst.instanceId)), m) := by
      rw [MemoryStorage.updateFsmInstance, hstored]
      rfl
    have hs : s.conn.updateFsmInstance inst =
        (.error (.fsm (.instanceNotFound inst.instanceId)), s.conn) := by
      rw [Database.updateFsmInstance, hcontains]
      rfl
    exact .intro hm (SqliteStorage.locked_of h.sound hs) rfl h
  | some stored =>
    rw [hstored] at hcontains
    obtain ⟨hname, hread⟩ := hc stored hstored
    have hm : m.updateFsmInstance inst =
        (.ok (), { m with fsmInstances := m.fsmInstances.insert inst }) := by
      rw [MemoryStorage.updateFsmInstance, hstored]
      rfl
    have hs : s.conn.updateFsmInstance inst = (.ok (), { s.conn with
        fsmInstances := s.conn.fsmInstances.modify inst.instanceId
          (fun row => { row with
            status := inst.status.toString
            instanceJson := inst
            updatedAt := inst.updatedAt }) fun _ => rfl }) := by
      rw [Database.updateFsmInstance, hcontains]
      rfl
    refine .intro hm (SqliteStorage.locked_of h.sound hs) rfl { h with
      policies := h.stillHeld rfl rfl rfl rfl rfl fun _ hn => hn
      fsmInstances := ?_ }
    have hcontained : m.fsmInstances.contains inst.instanceId = true := by
      rw [Table.contains_eq, hstored]
      rfl
    apply h.fsmInstances.modify_put FsmInstanceRow.Shows.key (fun row => by rfl) hcontained
    intro row hrow
    obtain ⟨row', hrow', hshow⟩ := h.fsmInstances.find_some FsmInstanceRow.Shows.key hstored
    obtain rfl := Option.some.inj (hrow.symm.trans hrow')
    exact ⟨hshow.1.trans (Table.key_of_get? hstored), hshow.2.1.trans hname, rfl, rfl, hread⟩

theorem listFsmInstances (h : Twins m s) (defName : Option String)
    (status : Option FsmInstanceStatus) :
    StayTwins now (.listFsmInstances defName status) m s := by
  refine .intro rfl (SqliteStorage.reading_eq h.sound _) ⟨_, _, rfl, rfl, ?_⟩ h
  refine (List.Perm.of_eq ?_).trans (readable_perm _)
  refine (readable_shows (fun _ _ hshow => hshow.read)
    (h.fsmInstances.keep fun row inst hshow => ?_)).symm
  rw [hshow.2.1, hshow.2.2.1, all_name_eq FsmInstanceStatus.toString_inj]

/-! ## Events -/

theorem storeEvent (h : Twins m s) {event : PersistentEvent}
    (hc : KeepsTwins now m (.storeEvent event)) : StayTwins now (.storeEvent event) m s := by
  obtain ⟨hread, hfew, hlast⟩ := hc
  have hnew : ¬ s.conn.events.contains event.id = true := by
    intro hid
    obtain ⟨e, he, hkey⟩ := List.any_eq_true.1 hid
    rw [h.events] at he
    exact (hlast e he).1 (of_decide_eq_true hkey)
  have hkeep : MemoryStorage.keepLast maxMemoryEvents (m.events ++ [event]) =
      m.events ++ [event] := by
    refine MemoryStorage.keepLast_of_le ?_
    rw [List.length_append]
    exact hfew
  refine .intro rfl (SqliteStorage.locked_of h.sound (if_neg hnew)) rfl { h with
    policies := h.stillHeld rfl rfl rfl rfl rfl fun _ hn => hn
    events := ?_
    eventsInOrder := ?_ }
  · show (s.conn.events.insert event).rows = MemoryStorage.keepLast _ _
    rw [Table.rows_insert_of_new hnew, hkeep, h.events]
  · show InOrder _ (MemoryStorage.keepLast _ _)
    rw [hkeep]
    exact h.eventsInOrder.concat hread fun e he => (hlast e he).2

theorem queryEvents (h : Twins m s) {eventType source : Option String}
    {since until_ : Option DateTime} {limit : Nat}
    (hc : KeepsTwins now m (.queryEvents eventType source since until_ limit)) :
    StayTwins now (.queryEvents eventType source since until_ limit) m s := by
  obtain ⟨hs, hm⟩ := (selectsAlike h.holdsSame).events eventType source since until_ limit hc.1 hc.2
  refine .intro rfl (SqliteStorage.reading_eq h.sound _) ?_ h
  refine hm.trans (Eq.trans ?_ hs.symm)
  rw [latest_eq, orderBy_inOrder (h.eventsInOrder.filter _)]

theorem pruneEvents (h : Twins m s) {olderThan : DateTime}
    (hc : KeepsTwins now m (.pruneEvents olderThan)) :
    StayTwins now (.pruneEvents olderThan) m s := by
  obtain ⟨hanswer, hrows⟩ := (selectsAlike h.holdsSame).pruned olderThan hc
  exact .intro rfl (SqliteStorage.locked_eq h.sound _) hanswer.symm { h with
    policies := h.stillHeld rfl rfl rfl rfl rfl fun _ hn => hn
    events := hrows
    eventsInOrder := h.eventsInOrder.filter _ }

theorem countEvents (h : Twins m s) : StayTwins now .countEvents m s := by
  refine .intro rfl (SqliteStorage.reading_eq h.sound _) ?_ h
  show Except.ok m.events.length = .ok s.conn.events.rows.length
  rw [h.events]

/-! ## The audit log -/

theorem storeAudit (h : Twins m s) {entry : AuditEntry}
    (hc : KeepsTwins now m (.storeAudit entry)) : StayTwins now (.storeAudit entry) m s := by
  obtain ⟨hread, hfew, hlast⟩ := hc
  have hnew : ¬ s.conn.auditLog.contains entry.id = true := by
    intro hid
    obtain ⟨e, he, hkey⟩ := List.any_eq_true.1 hid
    rw [h.auditLog] at he
    exact (hlast e he).1 (of_decide_eq_true hkey)
  have hkeep : MemoryStorage.keepLast maxMemoryAudit (m.auditLog ++ [entry]) =
      m.auditLog ++ [entry] := by
    refine MemoryStorage.keepLast_of_le ?_
    rw [List.length_append]
    exact hfew
  refine .intro rfl (SqliteStorage.locked_of h.sound (if_neg hnew)) rfl { h with
    policies := h.stillHeld rfl rfl rfl rfl rfl fun _ hn => hn
    auditLog := ?_
    auditInOrder := ?_ }
  · show (s.conn.auditLog.insert entry).rows = MemoryStorage.keepLast _ _
    rw [Table.rows_insert_of_new hnew, hkeep, h.auditLog]
  · show InOrder _ (MemoryStorage.keepLast _ _)
    rw [hkeep]
    exact h.auditInOrder.concat hread fun e he => (hlast e he).2

theorem queryAudit (h : Twins m s) {action resourceType resourceId : Option String}
    {since : Option DateTime} {limit : Nat}
    (hc : KeepsTwins now m (.queryAudit action resourceType resourceId since limit)) :
    StayTwins now (.queryAudit action resourceType resourceId since limit) m s := by
  obtain ⟨hs, hm⟩ :=
    (selectsAlike h.holdsSame).audit action resourceType resourceId since limit hc
  refine .intro rfl (SqliteStorage.reading_eq h.sound _) ?_ h
  refine hm.trans (Eq.trans ?_ hs.symm)
  rw [latest_eq, orderBy_inOrder (h.auditInOrder.filter _)]

/-! ## Templates -/

theorem storeTemplate (h : Twins m s) {template : PolicyTemplate}
    (hc : KeepsTwins now m (.storeTemplate template)) :
    StayTwins now (.storeTemplate template) m s :=
  .intro rfl (SqliteStorage.locked_eq h.sound _) rfl { h with
    policies := h.stillHeld rfl rfl rfl rfl rfl fun _ hn => hn
    templates := h.templates.put PolicyTemplate.Shows.key ⟨rfl, hc⟩ }

theorem getTemplate (h : Twins m s) (name : String) :
    StayTwins now (.getTemplate name) m s := by
  refine .intro rfl (SqliteStorage.reading_eq h.sound _) ?_ h
  show m.getTemplate name = s.conn.getTemplate name
  unfold MemoryStorage.getTemplate Database.getTemplate
  cases htemplate : m.templates.get? name with
  | none => rw [h.templates.find_none PolicyTemplate.Shows.key htemplate]
  | some template =>
    obtain ⟨row, hrow, hshow⟩ := h.templates.find_some PolicyTemplate.Shows.key htemplate
    rw [hrow]
    dsimp only
    rw [hshow.read]
    rfl

theorem listTemplates (h : Twins m s) (tag : Option String) :
    StayTwins now (.listTemplates tag) m s := by
  refine .intro rfl (SqliteStorage.reading_eq h.sound _) ⟨_, _, rfl, rfl, ?_⟩ h
  have hread : readable Database.readTemplate s.conn.policyTemplates.rows = m.templates.rows :=
    readable_shows (fun _ _ hshow => hshow.read) h.templates
  rw [← hread]
  exact (readable_perm _).filter _

theorem deleteTemplate (h : Twins m s) (name : String) :
    StayTwins now (.deleteTemplate name) m s :=
  .intro rfl (SqliteStorage.locked_eq h.sound _)
    (congrArg Except.ok (h.templates.contains PolicyTemplate.Shows.key name).symm) { h with
      policies := h.stillHeld rfl rfl rfl rfl rfl fun _ hn => hn
      templates := h.templates.erase PolicyTemplate.Shows.key name }

/-! ## Webhooks -/

theorem storeWebhookDelivery (h : Twins m s) {delivery : WebhookDelivery}
    (hc : KeepsTwins now m (.storeWebhookDelivery delivery)) :
    StayTwins now (.storeWebhookDelivery delivery) m s := by
  obtain ⟨hread, hlast⟩ := hc
  have hnew : ¬ s.conn.webhookDeliveries.contains delivery.id = true := by
    intro hid
    obtain ⟨d, hd, hkey⟩ := List.any_eq_true.1 hid
    rw [h.webhooks] at hd
    exact (hlast d hd).1 (of_decide_eq_true hkey)
  refine .intro rfl (SqliteStorage.locked_of h.sound (if_neg hnew)) rfl { h with
    policies := h.stillHeld rfl rfl rfl rfl rfl fun _ hn => hn
    webhooks := ?_
    webhooksInOrder := h.webhooksInOrder.concat hread fun d hd => (hlast d hd).2 }
  show (s.conn.webhookDeliveries.insert delivery).rows = m.webhookDeliveries ++ [delivery]
  rw [Table.rows_insert_of_new hnew, h.webhooks]

theorem queryWebhookDeliveries (h : Twins m s) (instanceId : Option String) (limit : Nat) :
    StayTwins now (.queryWebhookDeliveries instanceId limit) m s := by
  refine .intro rfl (SqliteStorage.reading_eq h.sound _) ?_ h
  show m.queryWebhookDeliveries instanceId limit =
    s.conn.queryWebhookDeliveries instanceId limit
  have horder := h.webhooksInOrder.filter fun d => instanceId.all (d.instanceId == ·)
  unfold MemoryStorage.queryWebhookDeliveries Database.queryWebhookDeliveries
  dsimp only
  rw [h.webhooks, readable_orderBy limit horder.2, orderBy_inOrder horder, latest_eq]

end Twins

end PaciNet

import PaciNet.Proof.TwinStates
import PaciNet.Proof.VersionRollbacks

/-!
# Twins and the calls about nodes

Whatever is changed of the nodes, counters and policies of the in-memory backend is changed of the
tables, row by row: **a call that finds what it needs leads from twins to twins, with the same
answer** (`KeepsTwins`, `StayTwins`). What a method does not write is carried over by `withNodes`
and `stillHeld`.
-/

set_option autoImplicit false

namespace PaciNet

open Lib

/-! ## Rows of nodes -/

theorem NodeRow.Shows.key (row : NodeRow) (node : Node) (h : row.Shows node) :
    row.nodeId = node.nodeId := by
  rw [h.1]
  rfl

theorem NodeRow.Shows.read {row : NodeRow} {node : Node} (h : row.Shows node) :
    rowToNode row = .ok node := by
  rw [h.1]
  exact rowToNode_ofNode h.2.1 h.2.2.1 h.2.2.2

/-- Rows that show records are read as these records. -/
theorem readable_shows {α β : Type} {Shows : α → β → Prop} {read : α → StorageResult β}
    (hread : ∀ a b, Shows a b → read a = .ok b) {rows : List α} {records : List β}
    (h : List.Forall₂ Shows rows records) : readable read rows = records := by
  unfold readable
  induction h with
  | nil => rfl
  | cons hab _ ih =>
    rw [List.filterMap_cons, hread _ _ hab, ih]
    rfl

/-- A method under a lock that is not poisoned. -/
theorem SqliteStorage.locked_of {α : Type} {s : SqliteStorage} (hsound : s.poisoned = false)
    {f : Database → StorageResult α × Database} {r : StorageResult α} {db : Database}
    (h : f s.conn = (r, db)) : s.locked f = (r, { s with conn := db }) := by
  rw [locked_eq hsound, h]

namespace MemoryStorage

variable (m : MemoryStorage) (nodeId : String)

/-- What is still registered when a node is gone. -/
theorem registered_removeNode (n : String) :
    (m.removeNode nodeId).2.Registered n ↔ n ≠ nodeId ∧ m.Registered n := by
  show ((m.nodes.erase nodeId).get? n).isSome = true ↔ _
  rw [Table.get?_erase]
  by_cases hn : n = nodeId
  · simp [hn]
  · simp [hn, Registered]

theorem liveDeployments_removeNode :
    (m.removeNode nodeId).2.liveDeployments =
      m.liveDeployments.filter fun d => d.nodeId != nodeId := by
  show m.deployments.filter _ = (m.deployments.filter _).filter _
  rw [List.filter_filter]
  refine List.filter_congr fun d _ => ?_
  rw [Bool.eq_iff_iff, Bool.and_eq_true, decide_eq_true_iff, decide_eq_true_iff, bne_iff_ne]
  exact m.registered_removeNode nodeId d.nodeId

theorem registered_of_lookup_erase {α : Type} {t : AList fun _ : String => α} {m : MemoryStorage}
    {nodeId : String} (hknown : ∀ n, t.lookup n ≠ none → m.Registered n) (n : String)
    (hn : (t.erase nodeId).lookup n ≠ none) : (m.removeNode nodeId).2.Registered n := by
  rw [registered_removeNode]
  by_cases hne : n = nodeId
  · exact absurd (hne ▸ AList.lookup_erase nodeId t) hn
  · rw [AList.lookup_erase_ne hne] at hn
    exact ⟨hne, hknown n hn⟩

end MemoryStorage

/-- Lookups that agree still do without a key. -/
theorem lookup_erase_congr {α : Type} {t u : AList fun _ : String => α}
    (h : ∀ k, t.lookup k = u.lookup k) (k l : String) :
    (t.erase k).lookup l = (u.erase k).lookup l := by
  by_cases hl : l = k
  · rw [hl, AList.lookup_erase, AList.lookup_erase]
  · rw [AList.lookup_erase_ne hl, AList.lookup_erase_ne hl, h]

/-- And with a key more. -/
theorem lookup_insert_congr {α : Type} {t u : AList fun _ : String => α}
    (h : ∀ k, t.lookup k = u.lookup k) (k : String) (v : α) (l : String) :
    (t.insert k v).lookup l = (u.insert k v).lookup l := by
  by_cases hl : l = k
  · rw [hl, AList.lookup_insert, AList.lookup_insert]
  · rw [AList.lookup_insert_ne hl, AList.lookup_insert_ne hl, h]

theorem known_insert {α : Type} {t : AList fun _ : String => α} {P : String → Prop}
    (hknown : ∀ k, t.lookup k ≠ none → P k) {k : String} (hk : P k) {v : α} (l : String)
    (hl : (t.insert k v).lookup l ≠ none) : P l := by
  by_cases heq : l = k
  · exact heq ▸ hk
  · rw [AList.lookup_insert_ne heq] at hl
    exact hknown l hl

/-- A key that is not there need not be erased. -/
theorem lookup_erase_of_none {α : Type} {t : AList fun _ : String => α} {k : String}
    (h : t.lookup k = none) (l : String) : (t.erase k).lookup l = t.lookup l := by
  by_cases hl : l = k
  · rw [hl, AList.lookup_erase, h]
  · rw [AList.lookup_erase_ne hl]

/-- One stale node after the other is set offline, so all of them are. -/
theorem NodesTable.markStaleNodes_eq [Rfc3339] {t : NodesTable} {now cutoff : DateTime}
    {threshold : Int} (hcutoff : addDuration now (-threshold) = some cutoff) :
    t.markStaleNodes now threshold =
      some (.ok ((t.rows.filter (Database.isStale cutoff)).map NodeRow.nodeId),
        t.mapAll (fun row =>
            if Database.isStale cutoff row then { row with state := "offline" } else row)
          fun row => by split <;> rfl) := by
  unfold markStaleNodes
  rw [hcutoff]
  refine congrArg some (Prod.ext rfl (Table.ext ?_))
  refine (Table.rows_foldl_modify t _ (f := fun row => { row with state := "offline" })
    (fun _ => rfl) fun _ => rfl).trans ?_
  refine List.map_congr_left fun row hrow => ?_
  have hmem : row.nodeId ∈ (t.rows.filter (Database.isStale cutoff)).map NodeRow.nodeId ↔
      Database.isStale cutoff row = true := Table.key_mem_filter hrow
  exact if_congr hmem rfl rfl

/-- The rows that show records, written out. -/
theorem rows_of_shows {α β : Type} {f : β → α} {P : β → Prop} {rows : List α} {records : List β}
    (h : List.Forall₂ (fun a b => a = f b ∧ P b) rows records) :
    rows = records.map f ∧ ∀ b ∈ records, P b := by
  induction h with
  | nil => exact ⟨rfl, fun _ hb => absurd hb List.not_mem_nil⟩
  | cons hab _ ih =>
    obtain ⟨rfl, hP⟩ := hab
    refine ⟨congrArg _ ih.1, ?_⟩
    rw [List.forall_mem_cons]
    exact ⟨hP, ih.2⟩

theorem exists_map_of_forall {α β : Type} {f : β → α} {P : β → Prop} {rows : List α}
    (h : ∀ a ∈ rows, ∃ b, a = f b ∧ P b) :
    ∃ records : List β, rows = records.map f ∧ ∀ b ∈ records, P b := by
  induction rows with
  | nil => exact ⟨[], rfl, fun _ hb => absurd hb List.not_mem_nil⟩
  | cons a rows ih =>
    rw [List.forall_mem_cons] at h
    obtain ⟨⟨b, rfl, hb⟩, h⟩ := h
    obtain ⟨records, rfl, hrecords⟩ := ih h
    exact ⟨b :: records, rfl, List.forall_mem_cons.2 ⟨hb, hrecords⟩⟩

namespace Twins

variable [SerdeJson] {m : MemoryStorage} {s : SqliteStorage}

/-- The row of a node that is registered. -/
theorem row (h : Twins m s) {nodeId : String} {node : Node}
    (hnode : m.nodes.get? nodeId = some node) :
    s.conn.nodes.get? nodeId = some (.ofNode node) ∧ node.Storable := by
  obtain ⟨row, hrow, rfl, hnode⟩ := h.nodes.find_some NodeRow.Shows.key hnode
  exact ⟨hrow, hnode⟩

theorem noRow (h : Twins m s) {nodeId : String} (hnode : m.nodes.get? nodeId = none) :
    s.conn.nodes.get? nodeId = none :=
  h.nodes.find_none NodeRow.Shows.key hnode

theorem contains (h : Twins m s) (nodeId : String) :
    s.conn.nodes.contains nodeId = (m.nodes.get? nodeId).isSome :=
  h.nodes.contains NodeRow.Shows.key nodeId

theorem contains_of_registered (h : Twins m s) {nodeId : String} (hnode : m.Registered nodeId) :
    s.conn.nodes.contains nodeId = true :=
  (h.contains nodeId).trans hnode

/-- Policies are held as before by states that have the same ones. -/
theorem stillHeld (h : Twins m s) {m' : MemoryStorage} {s' : SqliteStorage}
    (hversions : m'.policyVersions = m.policyVersions) (hpolicies : m'.policies = m.policies)
    (hrows : s'.conn.policyVersions = s.conn.policyVersions)
    (hcurrent : s'.conn.policies = s.conn.policies) (hsound : s'.poisoned = s.poisoned)
    (hreg : ∀ n, m.Registered n → m'.Registered n) (n : String) :
    ∃ policies, m'.Holds n policies ∧ s'.Holds n policies ∧
      (policies ≠ [] → m'.Registered n) := by
  obtain ⟨policies, hm, hs, hknown⟩ := h.policies n
  refine ⟨policies, ⟨?_, ?_⟩, ⟨hsound.trans hs.sound, ?_, hs.reads, hs.few⟩, fun hne =>
    hreg n (hknown hne)⟩
  · rw [← hm.versions, MemoryStorage.versionsOf, hversions]
    rfl
  · rw [hpolicies, hm.current]
  · rw [← hs.tables, Database.policiesOf, hrows, hcurrent]
    rfl

/-- Nodes that are changed in their places, or put behind the others. -/
theorem withNodes (h : Twins m s) {t : Table Node.nodeId} {rows : NodesTable}
    (hnodes : Table.Twin NodeRow.Shows rows t)
    (hreg : ∀ n, m.Registered n → (t.get? n).isSome = true)
    (hnew : ∀ d ∈ m.deployments, (t.get? d.nodeId).isSome = true → m.Registered d.nodeId) :
    Twins { m with nodes := t } { s with conn := { s.conn with nodes := rows } } := by
  refine { h with
    nodes := hnodes
    policies := h.stillHeld rfl rfl rfl rfl rfl hreg
    countersKnown := fun n hn => hreg n (h.countersKnown n hn)
    flowCountersKnown := fun n hn => hreg n (h.flowCountersKnown n hn)
    deployments := ?_ }
  have hlive : MemoryStorage.liveDeployments { m with nodes := t } = m.liveDeployments :=
    List.filter_congr fun d hd => decide_eq_decide.2 ⟨hnew d hd, hreg d.nodeId⟩
  rw [hlive]
  exact h.deployments

/-- Nodes that are changed in their places. -/
theorem withNodesMapped (h : Twins m s) {f : Node → Node} {g : NodeRow → NodeRow}
    (hf : ∀ node, (f node).nodeId = node.nodeId) (hg : ∀ row, (g row).nodeId = row.nodeId)
    {nodeId : String} (hfg : ∀ row node, NodeRow.Shows row node →
      s.conn.nodes.get? nodeId = some row → NodeRow.Shows (g row) (f node)) :
    Twins { m with nodes := m.nodes.modify nodeId f hf }
      { s with conn := { s.conn with nodes := s.conn.nodes.modify nodeId g hg } } := by
  refine h.withNodes (h.nodes.modify NodeRow.Shows.key hg hf hfg) ?_ ?_
  · intro n hn
    rw [Table.isSome_get?_modify]
    exact hn
  · intro d _ hd
    rw [Table.isSome_get?_modify] at hd
    exact hd

theorem readNodes (h : Twins m s) : readable rowToNode s.conn.nodes.rows = m.nodes.rows :=
  readable_shows (fun _ _ hshow => hshow.read) h.nodes

/-! ## Registration -/

variable [Rfc3339] {now : DateTime}

theorem registerNode (h : Twins m s) {node : Node} (hc : KeepsTwins now m (.registerNode node)) :
    StayTwins now (.registerNode node) m s := by
  obtain ⟨hfresh, hnone, hstorable⟩ := hc
  have hrow : ¬ s.conn.nodes.contains node.nodeId = true := by
    rw [h.contains]
    exact hfresh
  refine .intro rfl (SqliteStorage.locked_eq h.sound _) ?_ ?_
  · rw [NodesTable.registerNode, if_neg hrow]
    rfl
  · rw [NodesTable.registerNode, if_neg hrow]
    refine h.withNodes (h.nodes.put NodeRow.Shows.key ⟨rfl, hstorable⟩) ?_ ?_
    · intro n hn
      rw [Table.get?_insert]
      by_cases heq : n = node.nodeId
      · simp [heq]
      · rw [if_neg heq]
        exact hn
    · intro d hd hreg
      rw [Table.get?_insert, if_neg (hnone d hd)] at hreg
      exact hreg

theorem getNode (h : Twins m s) (nodeId : String) : StayTwins now (.getNode nodeId) m s := by
  refine .intro rfl (SqliteStorage.reading_eq h.sound _) ?_ h
  show m.getNode nodeId = s.conn.nodes.getNode nodeId
  unfold MemoryStorage.getNode NodesTable.getNode
  cases hnode : m.nodes.get? nodeId with
  | none =>
    rw [h.noRow hnode]
  | some node =>
    obtain ⟨hrow, hstorable⟩ := h.row hnode
    rw [hrow]
    show _ = (rowToNode (.ofNode node)).map some
    rw [NodeRow.Shows.read ⟨rfl, hstorable⟩]
    rfl

theorem listNodes (h : Twins m s) (labelFilter : Labels) :
    StayTwins now (.listNodes labelFilter) m s := by
  refine .intro rfl (SqliteStorage.reading_eq h.sound _) ⟨_, _, rfl, rfl, ?_⟩ h
  rw [h.readNodes]

/-! ## Removal -/

/-- The policies of a node go with it. -/
theorem removeNode_policies (h : Twins m s) (nodeId n : String) :
    ∃ policies, (m.removeNode nodeId).2.Holds n policies ∧
      (s.removeNode nodeId).2.Holds n policies ∧
        (policies ≠ [] → (m.removeNode nodeId).2.Registered n) := by
  obtain ⟨policies, hm, hs, hknown⟩ := h.policies n
  by_cases hn : n = nodeId
  · refine ⟨[], hn ▸ .removeNode n, ?_, fun hne => absurd rfl hne⟩
    rw [SqliteStorage.removeNode_eq h.sound]
    refine ⟨h.sound, ?_, fun _ hp => absurd hp List.not_mem_nil, Nat.two_pow_pos 63⟩
    show (s.conn.removeNode nodeId).2.policiesOf n = _
    by_cases hnode : m.Registered n
    · rw [hn] at hnode ⊢
      exact Database.policiesOf_removeNode_self (h.contains_of_registered hnode)
    · have hnone : policies = [] := not_not.1 fun hne => hnode (hknown hne)
      have hrow : ¬ s.conn.nodes.contains nodeId = true := by
        rw [h.contains, ← hn]
        exact hnode
      rw [Database.removeNode, if_neg hrow, hs.tables, hnone]
  · have hleaves : (StorageCall.removeNode nodeId).LeavesPolicies n := Ne.symm hn
    exact ⟨policies, hm.call_leaves 0 hleaves, hs.call_leaves 0 hleaves trivial,
      fun hne => (m.registered_removeNode nodeId n).2 ⟨hn, hknown hne⟩⟩

/-- What is stored of a node goes with it, and a node that is not registered has nothing stored. -/
theorem removeNode (h : Twins m s) (nodeId : String) : StayTwins now (.removeNode nodeId) m s := by
  have hs := SqliteStorage.removeNode_eq h.sound nodeId
  have hpolicies (n : String) := h.removeNode_policies nodeId n
  by_cases hnode : m.Registered nodeId
  · rw [Database.removeNode, if_pos (h.contains_of_registered hnode)] at hs
    simp only [hs] at hpolicies
    refine .intro rfl hs (congrArg Except.ok hnode) { h with
      nodes := h.nodes.erase NodeRow.Shows.key nodeId
      policies := hpolicies
      deploying := congrArg (Finset.erase · nodeId) h.deploying
      counters := lookup_erase_congr h.counters nodeId
      countersKnown := MemoryStorage.registered_of_lookup_erase h.countersKnown
      flowCounters := lookup_erase_congr h.flowCounters nodeId
      flowCountersKnown := MemoryStorage.registered_of_lookup_erase h.flowCountersKnown
      deployments := ?_ }
    show List.Forall₂ _ _ (m.removeNode nodeId).2.liveDeployments
    rw [m.liveDeployments_removeNode nodeId]
    refine List.rel_filter (fun {row record} hshow => ?_) h.deployments
    rw [hshow.1]
    rfl
  · have hrow : ¬ s.conn.nodes.contains nodeId = true := by
      rw [h.contains]
      exact hnode
    rw [Database.removeNode, if_neg hrow] at hs
    simp only [hs] at hpolicies
    have hnodes : m.nodes.erase nodeId = m.nodes := by
      refine Table.ext (List.filter_eq_self.2 fun node hmem => ?_)
      rw [decide_eq_true_iff]
      rintro rfl
      exact hnode (by rw [MemoryStorage.Registered, Table.mem_rows_iff.1 hmem]; rfl)
    have hnone {α : Type} {t : AList fun _ : String => α}
        (hknown : ∀ n, t.lookup n ≠ none → m.Registered n) : t.lookup nodeId = none :=
      not_not.1 fun hne => hnode (hknown nodeId hne)
    refine .intro rfl hs (congrArg Except.ok (Bool.not_eq_true _ ▸ hnode)) { h with
      nodes := ?_
      policies := hpolicies
      deploying := congrArg (Finset.erase · nodeId) h.deploying
      counters := fun n =>
        (h.counters n).trans (lookup_erase_of_none (hnone h.countersKnown) n).symm
      countersKnown := MemoryStorage.registered_of_lookup_erase h.countersKnown
      flowCounters := fun n =>
        (h.flowCounters n).trans (lookup_erase_of_none (hnone h.flowCountersKnown) n).symm
      flowCountersKnown := MemoryStorage.registered_of_lookup_erase h.flowCountersKnown
      deployments := ?_ }
    · show Table.Twin _ _ (m.nodes.erase nodeId)
      rw [hnodes]
      exact h.nodes
    · show List.Forall₂ _ _ (m.removeNode nodeId).2.liveDeployments
      rw [m.liveDeployments_removeNode nodeId, List.filter_eq_self.2]
      · exact h.deployments
      · intro d hd
        rw [bne_iff_ne]
        rintro rfl
        exact hnode (of_decide_eq_true (List.mem_filter.1 hd).2)

/-! ## Changes of nodes -/

theorem updateHeartbeat (h : Twins m s) {nodeId : String} {state : NodeState} {uptime : Nat}
    (hc : KeepsTwins now m (.updateHeartbeat nodeId state uptime)) :
    StayTwins now (.updateHeartbeat nodeId state uptime) m s := by
  have hs : s.conn.onNodes (s.conn.nodes.updateHeartbeat now nodeId state uptime) =
      (.ok (m.nodes.get? nodeId).isSome, { s.conn with
        nodes := s.conn.nodes.modify nodeId (fun row => { row with
          lastHeartbeat := now
          state := state.toString
          uptimeSeconds := asI64 uptime }) fun _ => rfl }) := by
    rw [← h.contains]
    rfl
  refine .after (SqliteStorage.locked_of h.sound hs) ?_ (h.withNodesMapped _ _ ?_)
  · show (m.updateHeartbeat now nodeId state uptime).1 = _
    unfold MemoryStorage.updateHeartbeat
    by_cases hnode : (m.nodes.get? nodeId).isSome = true
    · rw [if_pos hnode, hnode]
    · rw [if_neg hnode, Bool.eq_false_iff.2 hnode]
  · intro row node hshow _
    refine ⟨?_, hshow.2.1, hc.1, hc.2⟩
    rw [hshow.1, NodeRow.ofNode, NodeRow.ofNode]

theorem updateNodeState (h : Twins m s) (nodeId : String) (state : NodeState) :
    StayTwins now (.updateNodeState nodeId state) m s := by
  have hrun := Sql.run_updateNodeState s.conn nodeId state
  cases hnode : m.nodes.get? nodeId with
  | none =>
    have hm : m.updateNodeState nodeId state = (.ok false, m) := by
      rw [MemoryStorage.updateNodeState, hnode]
    rw [NodesTable.updateNodeState, h.noRow hnode] at hrun
    exact .intro hm (SqliteStorage.locked_of h.sound hrun) rfl h
  | some node =>
    rw [NodesTable.updateNodeState, (h.row hnode).1] at hrun
    by_cases hcan : node.state.canTransitionTo state = true
    · have hm : m.updateNodeState nodeId state = (.ok true, { m with
          nodes := m.nodes.modify nodeId (fun node => { node with state := state })
            fun _ => rfl }) := by
        simp only [MemoryStorage.updateNodeState, hnode, if_pos hcan]
      have hs : (Sql.updateNodeState nodeId state).run s.conn = (.ok true, { s.conn with
          nodes := s.conn.nodes.modify nodeId (fun row => { row with state := state.toString })
            fun _ => rfl }) := by
        rw [hrun]
        simp only [NodeRow.ofNode, parseState_toString, hcan, Bool.not_true, Bool.false_eq_true,
          if_false]
        rfl
      refine .intro hm (SqliteStorage.locked_of h.sound hs) rfl (h.withNodesMapped _ _ ?_)
      intro row node hshow _
      refine ⟨?_, hshow.2⟩
      rw [hshow.1, NodeRow.ofNode, NodeRow.ofNode]
    · have hm : m.updateNodeState nodeId state =
          (.error (.invalidStateTransition node.state.toString state.toString), m) := by
        simp only [MemoryStorage.updateNodeState, hnode, if_neg hcan]
      simp only [NodeRow.ofNode, parseState_toString, hcan, Bool.not_false, if_true] at hrun
      exact .intro hm (SqliteStorage.locked_of h.sound hrun) rfl h

theorem updateAnnotations (h : Twins m s) (nodeId : String) (set : Labels)
    (remove : List String) : StayTwins now (.updateAnnotations nodeId set remove) m s := by
  cases hnode : m.nodes.get? nodeId with
  | none =>
    have hm : m.updateAnnotations nodeId set remove = (.error (.nodeNotFound nodeId), m) := by
      rw [MemoryStorage.updateAnnotations, hnode]
      rfl
    have hs : (Sql.updateAnnotations nodeId set remove).run s.conn =
        (.error (.nodeNotFound nodeId), s.conn) := by
      rw [Sql.run_updateAnnotations, NodesTable.updateAnnotations, h.noRow hnode]
      rfl
    exact .intro hm (SqliteStorage.locked_of h.sound hs) rfl h
  | some node =>
    obtain ⟨hrow, -⟩ := h.row hnode
    have hm : m.updateAnnotations nodeId set remove = (.ok (), { m with
        nodes := m.nodes.modify nodeId (fun node =>
          { node with annotations := MemoryStorage.annotate node.annotations set remove })
            fun _ => rfl }) := by
      rw [MemoryStorage.updateAnnotations, hnode]
      rfl
    have hs : (Sql.updateAnnotations nodeId set remove).run s.conn = (.ok (), { s.conn with
        nodes := s.conn.nodes.modify nodeId (fun row =>
          { row with annotations := MemoryStorage.annotate node.annotations set remove })
            fun _ => rfl }) := by
      rw [Sql.run_updateAnnotations, NodesTable.updateAnnotations, hrow]
      rfl
    refine .intro hm (SqliteStorage.locked_of h.sound hs) rfl
      (h.withNodesMapped _ _ ?_)
    -- what is written was made of the row that was read, and that is the row it is written to
    intro row node' hshow hfound
    obtain rfl := Option.some.inj (hrow.symm.trans hfound)
    have hsame : node.annotations = node'.annotations := congrArg NodeRow.annotations hshow.1
    refine ⟨?_, hshow.2⟩
    rw [hshow.1, hsame, NodeRow.ofNode, NodeRow.ofNode]

/-! ## Counters -/

theorem storeCounters (h : Twins m s) {nodeId : String} {counters : List RuleCounter}
    (hc : m.Registered nodeId) : StayTwins now (.storeCounters nodeId counters) m s := by
  refine .intro rfl (SqliteStorage.locked_of h.sound
    (if_pos (h.contains_of_registered hc))) rfl { h with
      policies := h.stillHeld rfl rfl rfl rfl rfl fun _ hn => hn
      counters := lookup_insert_congr h.counters nodeId counters
      countersKnown := known_insert h.countersKnown hc }

theorem storeFlowCounters (h : Twins m s) {nodeId : String} {counters : List FlowCounter}
    (hc : m.Registered nodeId) : StayTwins now (.storeFlowCounters nodeId counters) m s := by
  refine .intro rfl (SqliteStorage.locked_of h.sound
    (if_pos (h.contains_of_registered hc))) rfl { h with
      policies := h.stillHeld rfl rfl rfl rfl rfl fun _ hn => hn
      flowCounters := lookup_insert_congr h.flowCounters nodeId counters
      flowCountersKnown := known_insert h.flowCountersKnown hc }

theorem getCounters (h : Twins m s) (nodeId : String) :
    StayTwins now (.getCounters nodeId) m s :=
  .intro rfl (SqliteStorage.reading_eq h.sound _) (congrArg Except.ok (h.counters nodeId).symm) h

theorem getFlowCounters (h : Twins m s) (nodeId : String) :
    StayTwins now (.getFlowCounters nodeId) m s :=
  .intro rfl (SqliteStorage.reading_eq h.sound _)
    (congrArg Except.ok (h.flowCounters nodeId).symm) h

/-! ## Stale nodes and the summary -/

omit [Rfc3339] in
theorem holdsSame (h : Twins m s) : HoldsSame s.conn m where
  nodes := (rows_of_shows h.nodes).1
  events := h.events
  audit := h.auditLog
  heartbeats node hnode := ((rows_of_shows h.nodes).2 node hnode).2.1
  eventTimes := h.eventsInOrder.2
  auditTimes := h.auditInOrder.2

/-- SQLite sets one node after the other offline, and they are those that the in-memory backend
    sets offline in one go. -/
theorem markStaleNodes (h : Twins m s) {threshold : Int}
    (hc : KeepsTwins now m (.markStaleNodes threshold)) :
    StayTwins now (.markStaleNodes threshold) m s := by
  obtain ⟨cutoff, hcutoff, hc⟩ := hc
  have hids := (selectsAlike h.holdsSame).stale now cutoff threshold hcutoff hc
  obtain ⟨method, hmethod⟩ := Option.isSome_iff_exists.1
    ((Sql.isSome_markStaleNodes now threshold).trans (congrArg Option.isSome hcutoff))
  obtain ⟨r, hr, hrun⟩ := Sql.run_of_markStaleNodes s.conn hmethod
  rw [NodesTable.markStaleNodes_eq hcutoff] at hr
  obtain rfl := Option.some.inj hr
  have hs : s.markStaleNodes now threshold = s.locked method.run := by
    rw [SqliteStorage.markStaleNodes, hmethod]
  refine .intro rfl (hs.trans (SqliteStorage.locked_of h.sound hrun))
    ⟨_, _, rfl, rfl, .of_eq hids.symm⟩ (h.withNodes (h.nodes.mapAll
      (fun row => by split <;> rfl) (fun node => by split <;> rfl) ?_) ?_ ?_)
  · intro row node _ hshow
    have hsame : Database.isStale cutoff row = MemoryStorage.isStale now threshold node := by
      rw [hshow.1]
      exact isStale_ofNode hcutoff hc hshow.2.2.1
    rw [hsame]
    by_cases hstale : MemoryStorage.isStale now threshold node = true
    · rw [if_pos hstale, if_pos hstale]
      refine ⟨?_, hshow.2⟩
      rw [hshow.1, NodeRow.ofNode, NodeRow.ofNode, NodeState.toString]
    · rw [if_neg hstale, if_neg hstale]
      exact hshow
  · intro n hn
    rw [Table.isSome_get?_mapAll]
    exact hn
  · intro d _ hd
    rw [Table.isSome_get?_mapAll] at hd
    exact hd

theorem statusSummary (h : Twins m s) : StayTwins now .statusSummary m s := by
  refine .intro rfl (SqliteStorage.reading_eq h.sound _) ?_ h
  obtain ⟨hrows, -⟩ := rows_of_shows h.nodes
  have holdest := Except.ok.inj (oldest_eq h.holdsSame)
  refine congrArg Except.ok (StatusSummary.mk.injEq .. ▸ ⟨?_, ?_, holdest.symm⟩)
  · rw [hrows, List.length_map]
  · rw [hrows, List.foldl_map]
    rfl

/-! ## Policies -/

theorem storePolicy (h : Twins m s) {p : Policy} (hc : KeepsTwins now m (.storePolicy p)) :
    StayTwins now (.storePolicy p) m s := by
  obtain ⟨hnode, hranged, hdeployed, hfew⟩ := hc
  have hrow := h.contains_of_registered hnode
  obtain ⟨policies, hm, hs, -⟩ := h.policies p.nodeId
  rw [hm.versions, length_numbered] at hfew
  obtain ⟨hanswer, hholds⟩ := hm.storePolicy
  obtain ⟨hrun, hrows⟩ := hs.storePolicy hrow hranged hdeployed hfew
  have hlocked : s.locked (Sql.storePolicy p).run = _ :=
    SqliteStorage.locked_of h.sound ((Sql.run_storePolicy s.conn p).trans (if_pos hrow))
  have hpolicies (n : String) : ∃ policies, (m.storePolicy p).2.Holds n policies ∧
      (s.locked (Sql.storePolicy p).run).2.Holds n policies ∧
        (policies ≠ [] → (m.storePolicy p).2.Registered n) := by
    by_cases hn : n = p.nodeId
    · exact ⟨_, hn ▸ hholds, hn ▸ hrows, fun _ => hn ▸ hnode⟩
    · obtain ⟨policies, hm, hs, hknown⟩ := h.policies n
      have hleaves : (StorageCall.storePolicy p).LeavesPolicies n := Ne.symm hn
      exact ⟨policies, hm.call_leaves now hleaves, hs.call_leaves now hleaves trivial, hknown⟩
  rw [hlocked] at hpolicies
  refine .intro rfl hlocked ?_ { h with policies := hpolicies }
  rw [hlocked] at hrun
  exact hanswer.trans (congrArg Prod.fst hrun).symm

theorem getPolicy (h : Twins m s) (nodeId : String) : StayTwins now (.getPolicy nodeId) m s := by
  obtain ⟨policies, hm, hs, -⟩ := h.policies nodeId
  refine .intro rfl (SqliteStorage.reading_eq h.sound _) ?_ h
  exact hm.getPolicy.trans hs.getPolicy.symm

theorem getPolicyHistory (h : Twins m s) (nodeId : String) (limit : Nat) :
    StayTwins now (.getPolicyHistory nodeId limit) m s := by
  obtain ⟨policies, hm, hs, -⟩ := h.policies nodeId
  refine .intro rfl (SqliteStorage.reading_eq h.sound _) ?_ h
  exact (hm.getPolicyHistory limit).trans (hs.getPolicyHistory limit).symm

omit [Rfc3339] in
/-- The row of the current policy. -/
theorem policyRow (h : Twins m s) (nodeId : String) :
    s.conn.policies.get? nodeId = (m.policies.get? nodeId).map .ofPolicy ∧
      ∀ p ∈ m.policies.get? nodeId, rowToPolicy (.ofPolicy p) = .ok p := by
  obtain ⟨policies, hm, hs, -⟩ := h.policies nodeId
  have hcurrent := congrArg Prod.fst hs.tables
  rw [hm.current]
  refine ⟨hcurrent, fun p hp => ?_⟩
  obtain ⟨hranged, hdeployed⟩ := hs.reads p (List.mem_of_getLast? hp)
  exact rowToPolicy_ofPolicy hranged hdeployed

omit [Rfc3339] in
/-- The rows of the current policies, in the order of their table. -/
theorem policyRows (h : Twins m s) : ∃ policies : List Policy,
    s.conn.policies.rows = policies.map .ofPolicy ∧ (policies.map Policy.nodeId).Nodup ∧
      (∀ p ∈ policies, rowToPolicy (.ofPolicy p) = .ok p) ∧
        ∀ p, p ∈ policies ↔ m.policies.get? p.nodeId = some p := by
  have hrow : ∀ row ∈ s.conn.policies.rows, ∃ p, row = .ofPolicy p ∧
      m.policies.get? p.nodeId = some p := by
    intro row hrow
    obtain ⟨hshow, -⟩ := h.policyRow row.nodeId
    rw [Table.mem_rows_iff.1 hrow] at hshow
    obtain ⟨p, hp, rfl⟩ := Option.map_eq_some_iff.1 hshow.symm
    exact ⟨p, rfl, hp⟩
  obtain ⟨policies, hrows, hall⟩ := exists_map_of_forall hrow
  have hread (p : Policy) (hp : m.policies.get? p.nodeId = some p) :
      rowToPolicy (.ofPolicy p) = .ok p := (h.policyRow p.nodeId).2 p hp
  refine ⟨policies, hrows, ?_, fun p hp => hread p (hall p hp), fun p => ⟨hall p, ?_⟩⟩
  · have hnodup := s.conn.policies.nodup
    rw [hrows, List.map_map] at hnodup
    exact hnodup
  · intro hp
    have hmem : PolicyRow.ofPolicy p ∈ s.conn.policies.rows := by
      refine Table.mem_rows_iff.2 ?_
      show s.conn.policies.get? p.nodeId = _
      rw [(h.policyRow p.nodeId).1, hp]
      rfl
    rw [hrows] at hmem
    obtain ⟨q, hq, hsame⟩ := List.mem_map.1 hmem
    have hback := (hread q (hall q hq)).symm.trans ((congrArg rowToPolicy hsame).trans (hread p hp))
    rw [← Except.ok.inj hback]
    exact hq

theorem getPoliciesForNodes (h : Twins m s) {nodeIds : List String}
    (hc : KeepsTwins now m (.getPoliciesForNodes nodeIds)) :
    StayTwins now (.getPoliciesForNodes nodeIds) m s := by
  by_cases hids : nodeIds = []
  · subst hids
    exact .intro rfl rfl ⟨_, _, rfl, rfl, .refl _⟩ h
  obtain ⟨policies, hrows, hnodup, hread, hmem⟩ := h.policyRows
  have hs : s.conn.getPoliciesForNodes nodeIds =
      .ok ((policies.filter fun p => nodeIds.contains p.nodeId).map fun p => (p.nodeId, p)) := by
    rw [Database.getPoliciesForNodes, if_neg (Nat.not_lt.2 hc), hrows, List.filter_map]
    dsimp only
    rw [readable_map (g := id) fun p hp => hread p (List.mem_filter.1 hp).1, List.map_id]
    rfl
  have hanswer : s.getPoliciesForNodes nodeIds = (s.conn.getPoliciesForNodes nodeIds, s) := by
    rw [SqliteStorage.getPoliciesForNodes, if_neg (by simpa using hids),
      SqliteStorage.reading_eq h.sound]
  refine .intro rfl (hanswer.trans (Prod.ext hs rfl)) ⟨_, _, rfl, rfl, ?_⟩ h
  refine (List.perm_ext_iff_of_nodup ?_ ?_).2 fun e => ?_
  · refine (List.nodup_dedup nodeIds).filterMap fun id id' e he he' => ?_
    obtain ⟨p, -, rfl⟩ := Option.map_eq_some_iff.1 he
    obtain ⟨p', -, heq⟩ := Option.map_eq_some_iff.1 he'
    exact (congrArg Prod.fst heq).symm
  · refine List.Nodup.map (fun p p' heq => ?_) (List.Nodup.filter _ (List.Nodup.of_map _ hnodup))
    exact congrArg Prod.snd heq
  · rw [List.mem_filterMap, List.mem_map]
    constructor
    · rintro ⟨id, hid, he⟩
      obtain ⟨p, hp, rfl⟩ := Option.map_eq_some_iff.1 he
      obtain rfl := Table.key_of_get? hp
      refine ⟨p, List.mem_filter.2 ⟨(hmem p).2 hp, ?_⟩, rfl⟩
      exact List.contains_iff_mem.2 (List.mem_dedup.1 hid)
    · rintro ⟨p, hp, rfl⟩
      obtain ⟨hp, hid⟩ := List.mem_filter.1 hp
      refine ⟨p.nodeId, List.mem_dedup.2 (List.contains_iff_mem.1 hid), ?_⟩
      rw [(hmem p).1 hp]
      rfl

/-! ## The guard -/

theorem beginDeploy (h : Twins m s) (nodeId : String) :
    StayTwins now (.beginDeploy nodeId) m s := by
  have hs : s.beginDeploy nodeId =
      ((m.beginDeploy nodeId).1, { s with deploying := insert nodeId s.deploying }) := by
    unfold SqliteStorage.beginDeploy MemoryStorage.beginDeploy
    rw [h.deploying]
    by_cases hmem : nodeId ∈ m.deploying
    · rw [if_pos hmem, if_pos hmem, Finset.insert_eq_of_mem hmem, ← h.deploying]
    · rw [if_neg hmem, if_neg hmem]
  refine .after hs rfl { h with
    policies := h.stillHeld rfl rfl rfl rfl rfl fun _ hn => hn
    deploying := congrArg (insert nodeId) h.deploying }

theorem endDeploy (h : Twins m s) (nodeId : String) : StayTwins now (.endDeploy nodeId) m s :=
  .intro rfl rfl rfl { h with
    policies := h.stillHeld rfl rfl rfl rfl rfl fun _ hn => hn
    deploying := congrArg (Finset.erase · nodeId) h.deploying }

end Twins

end PaciNet

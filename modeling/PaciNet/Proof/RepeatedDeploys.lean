import PaciNet.Lib.Alone
import PaciNet.Lib.Apart
import PaciNet.Proof.DeployOutcome
import PaciNet.Proof.PolicyStore

/-!
# Deploying again

A deploy writes the normalized options into a policy, field by field, and the backend writes the
policy into its tables. The next deploy reads the policy back and compares its fields with those of
its own request. **If a deploy succeeded and left its node active, the same deploy again finds its
own policy**: it reports the same version, asks no agent and stores nothing, and it does so for any
request whose normalized options are the same.

What the two deploys rely on is the same for both backends (`PolicyStore`). SQLite keeps a count
that is a `u32` and an instant whose year has four digits, and numbers a version above every other
as long as the numbers are not used up.
-/

set_option autoImplicit false

namespace PaciNet

open Lib

/-! ## The law -/

/-- The counts of the options are `u32`s. -/
def CompileOptions.Ranged (o : CompileOptions) : Prop :=
  o.ports < 2 ^ 32 ∧ o.dynamicEntries < 2 ^ 32 ∧ o.width < 2 ^ 32 ∧ o.rssQueues < 2 ^ 32 ∧
    o.intSwitchId < 2 ^ 32

/-- The clock shows such instants only. -/
def clockShows (clock : DateTime → Bool) : (o : Op) → o.Res → Bool
  | .now, t => clock t
  | _, _ => true

/-- The machine with such a clock. -/
abbrev clocked (σ : Type) [Extern] [Storage σ] (clock : DateTime → Bool) :
    Machine Op Op.Res (World σ) Ext Request :=
  (machine σ).restrict (clockShows clock)

/-- The node is registered, with the capabilities it is known by. -/
def KnownNode {σ : Type} [Storage σ] (s : σ) (node : Node) : Prop :=
  ∃ now stored, (Storage.call now (.getNode node.nodeId) s).1 = .ok (some stored) ∧
    stored.capabilities = node.capabilities

/-- **Deploying is idempotent**: after a deploy that succeeded, if the node reads back active, a
    deploy of the same rules with the same normalized options comes to its end and succeeds with
    the same version, asks no agent, and leaves what is stored of policies as it was. -/
def DeployIdempotent {σ β : Type} [Extern] [Storage σ] (clock : DateTime → Bool)
    (storedPolicies : σ → β) (cfg : ControllerConfig) (w : World σ) : Prop :=
  ∀ (node node' : Node) (rulesYaml : String) (o o' : CompileOptions) (first : DeployOutcome)
    (w₁ : World σ) (now : DateTime), o.Ranged → normalizeOptions o' = normalizeOptions o →
    KnownNode w.storage node →
    (clocked σ clock).RunsTo (deployToNode cfg node rulesYaml o) w first w₁ →
    first.success = true →
    (Storage.call now (.getNode node.nodeId) w₁.storage).1 = .ok (some node') →
    node'.state = .active →
      (∃ second w₂, (clocked σ clock).RunsTo (deployToNode cfg node' rulesYaml o') w₁ second w₂) ∧
        ∀ second w₂, (clocked σ clock).RunsTo (deployToNode cfg node' rulesYaml o') w₁ second w₂ →
          second.success = true ∧ second.version = first.version ∧ w₂.sent = w₁.sent ∧
            storedPolicies w₂.storage = storedPolicies w₁.storage

/-! ## What the deploys rely on -/

/-- The calls of a deploy that write. -/
def StorageCall.afterDeploy : StorageCall → Bool
  | .updateNodeState _ _ | .recordDeployment _ => true
  | _ => false

/-- A backend, as a deploy sees it. What it stores of policies is `stored`, and what it reads of
    it does not depend on the rest. -/
structure PolicyStore (σ β : Type) [Storage σ] where
  stored : σ → β
  policy : β → String → StorageResult (Option Policy)
  history : β → String → Nat → StorageResult (List PolicyVersion)
  /-- What the node was registered with. -/
  capabilities : σ → String → Option Labels
  /-- The instants that read back. -/
  clock : DateTime → Bool
  /-- A version can be numbered above the others. -/
  Room : σ → Prop
  getPolicy : ∀ now n s, Storage.call now (.getPolicy n) s = (policy (stored s) n, s)
  getPolicyHistory : ∀ now n limit s,
    Storage.call now (.getPolicyHistory n limit) s = (history (stored s) n limit, s)
  getNode : ∀ {now n s node}, (Storage.call now (.getNode n) s).1 = .ok (some node) →
    node.nodeId = n ∧ capabilities s n = some node.capabilities
  storePolicy : ∀ {now p s v}, Room s → p.Ranged → clock p.deployedAt = true →
    (Storage.call now (.storePolicy p) s).1 = .ok v →
      policy (stored (Storage.call now (.storePolicy p) s).2) p.nodeId = .ok (some p) ∧
        history (stored (Storage.call now (.storePolicy p) s).2) p.nodeId 1 =
          .ok [{ p with version := v }]
  leaves : ∀ {c} now s, c.afterDeploy = true → stored (Storage.call now c s).2 = stored s
  keeps : ∀ {c} now n s, c.afterDeploy = true ∨ (∃ p, c = .storePolicy p) →
    capabilities (Storage.call now c s).2 n = capabilities s n
  /-- The clock can be read. -/
  instant : ∃ t, clock t = true

/-! ## In memory -/

/-- The tables of policies and versions. -/
def MemoryStorage.storedPolicies (s : MemoryStorage) :
    Table Policy.nodeId × AList fun _ : String => List PolicyVersion :=
  (s.policies, s.policyVersions)

/-- The in-memory backend keeps every policy. -/
def MemoryStorage.policyStore : PolicyStore MemoryStorage
    (Table Policy.nodeId × AList fun _ : String => List PolicyVersion) where
  stored := storedPolicies
  policy tables n := .ok (tables.1.get? n)
  history tables n limit := .ok (((tables.2.lookup n).getD []).reverse.take limit)
  capabilities s n := (s.nodes.get? n).map Node.capabilities
  clock _ := true
  Room _ := True
  getPolicy _ _ _ := rfl
  getPolicyHistory _ _ _ _ := rfl
  getNode {_ _ s _} h := by
    have hfound := Except.ok.inj h
    refine ⟨Table.key_of_get? hfound, ?_⟩
    rw [hfound]
    rfl
  storePolicy {_ p s v} _ _ _ h := by
    have hv : v = (s.versionsOf p.nodeId).length + 1 := (Except.ok.inj h).symm
    refine ⟨?_, ?_⟩
    · show Except.ok ((s.policies.insert p).get? p.nodeId) = _
      rw [Table.get?_insert_self]
    · show Except.ok ((((s.policyVersions.insert p.nodeId _).lookup p.nodeId).getD
        []).reverse.take 1) = _
      rw [AList.lookup_insert, Option.getD_some, List.reverse_append, hv]
      rfl
  leaves {c} now s hc := by
    rw [call_snd]
    cases c with
    | updateNodeState | recordDeployment => rfl
    | _ => cases hc
  keeps {c} now n s hc := by
    rw [call_snd]
    cases c with
    | updateNodeState m state =>
      refine s.nodes.map_get?_modify (fun node => ?_) (fun node => ?_) m n
      · split <;> rfl
      · split <;> rfl
    | storePolicy | recordDeployment => rfl
    | _ => simp [StorageCall.afterDeploy] at hc
  instant := ⟨0, rfl⟩

/-! ## In SQLite -/

/-- What is read of a row that reads back. -/
theorem rowToNode_ok {row : NodeRow} {node : Node} (h : rowToNode row = .ok node) :
    node.nodeId = row.nodeId ∧ node.capabilities = row.capabilities := by
  unfold rowToNode at h
  cases hstate : parseState row.state with
  | error e =>
    rw [hstate] at h
    cases h
  | ok state =>
    cases hregistered : parseFromRfc3339 row.registeredAt with
    | error e =>
      rw [hstate, hregistered] at h
      cases h
    | ok registeredAt =>
      cases hheartbeat : parseFromRfc3339 row.lastHeartbeat with
      | error e =>
        rw [hstate, hregistered, hheartbeat] at h
        cases h
      | ok lastHeartbeat =>
        rw [hstate, hregistered, hheartbeat] at h
        obtain rfl := Except.ok.inj h
        exact ⟨rfl, rfl⟩

/-- A row that comes before the others is the first. -/
theorem orderBy_concat {α : Type} {before : α → α → Bool} {rows : List α} {a : α}
    (h : ∀ b ∈ rows, before b a = false) : orderBy before (rows ++ [a]) = a :: orderBy before rows := by
  unfold orderBy
  induction rows with
  | nil => rfl
  | cons b rows ih =>
    have hb : ¬ before b a = true := by
      rw [h b List.mem_cons_self]
      exact Bool.false_ne_true
    rw [List.cons_append, List.insertionSort_cons, List.insertionSort_cons,
      ih fun c hc => h c (List.mem_cons_of_mem b hc)]
    exact List.orderedInsert_of_not_le _ _ hb

theorem Database.nextVersion_lt (db : Database) (nodeId : String) :
    db.nextVersion nodeId < 2 ^ 64 := by
  unfold nextVersion asUInt64
  omega

/-- A change of its state leaves what a node was registered with. -/
theorem NodesTable.map_capabilities_updateNodeState (t : NodesTable) (m : String)
    (state : NodeState) (n : String) :
    ((t.updateNodeState m state).2.get? n).map NodeRow.capabilities =
      (t.get? n).map NodeRow.capabilities := by
  unfold updateNodeState
  split
  · rfl
  · split
    · rfl
    · split
      · rfl
      · refine Table.map_get?_modify t ?_ (fun _ => ?_) m n
        · exact fun _ => rfl
        · rfl

/-- The tables of policies and versions. -/
def Database.policyTables (db : Database) : Table PolicyRow.nodeId × List PolicyVersionRow :=
  (db.policies, db.policyVersions)

/-- What a node was registered with. -/
def Database.capabilitiesOf (n : String) (db : Database) : Option Labels :=
  (db.nodes.get? n).map NodeRow.capabilities

namespace SqliteStorage

variable [Rfc3339] [SerdeJson] {s : SqliteStorage}

/-- The tables of policies and versions, and whether they can be reached. -/
def storedPolicies (s : SqliteStorage) : Bool × Table PolicyRow.nodeId × List PolicyVersionRow :=
  (s.poisoned, s.conn.policyTables)

/-- A backend of these tables and no others. -/
def ofTables (t : Bool × Table PolicyRow.nodeId × List PolicyVersionRow) : SqliteStorage where
  conn := { inMemory.conn with policies := t.2.1, policyVersions := t.2.2 }
  poisoned := t.1
  deploying := ∅

/-- The next version of a node has a greater number than any that is stored. -/
def HasRoom (s : SqliteStorage) : Prop :=
  ∀ row ∈ s.conn.policyVersions, row.version < asI64 (s.conn.nextVersion row.nodeId)

omit [Rfc3339] [SerdeJson] in
/-- A method that succeeds has taken the lock. -/
theorem sound_of_ok {α : Type} {f : Database → StorageResult α × Database} {a : α}
    (h : (s.locked f).1 = .ok a) : s.poisoned = false := by
  rw [← Bool.not_eq_true]
  intro hpoisoned
  rw [locked, if_pos hpoisoned] at h
  cases h

omit [SerdeJson] in
theorem storePolicy_ok {p : Policy} {v : Nat} (h : (s.locked (Sql.storePolicy p).run).1 = .ok v) :
    v = s.conn.nextVersion p.nodeId ∧
      (s.locked (Sql.storePolicy p).run).2 = { s with
        conn := { s.conn with
          policyVersions := s.conn.policyVersions ++ [.ofPolicy p v]
          policies := s.conn.policies.insert (.ofPolicy p) } } := by
  have hsound := sound_of_ok h
  rw [locked_eq hsound, Sql.run_storePolicy] at h ⊢
  split at h
  · rename_i hnode
    obtain rfl := Except.ok.inj h
    rw [if_pos hnode]
    exact ⟨rfl, rfl⟩
  · cases h

omit [Rfc3339] [SerdeJson] in
/-- The policy that was stored last is read. -/
theorem getPolicy_stored {p : Policy} {db : Database} (hranged : p.Ranged)
    (hdeployed : isRfc3339 p.deployedAt = true)
    (h : db.policies.get? p.nodeId = some (.ofPolicy p)) : db.getPolicy p.nodeId = .ok (some p) := by
  rw [Database.getPolicy, h]
  show (rowToPolicy _).map some = _
  rw [rowToPolicy_ofPolicy hranged hdeployed]
  rfl

omit [Rfc3339] [SerdeJson] in
/-- Its version is the newest. -/
theorem getPolicyHistory_stored {p : Policy} {v : Nat} {db : Database} (hranged : p.Ranged)
    (hdeployed : isRfc3339 p.deployedAt = true) (hv : v < 2 ^ 64) {rows : List PolicyVersionRow}
    (hrows : db.policyVersions = rows ++ [.ofPolicy p v])
    (hgreatest : ∀ row ∈ rows, row.nodeId = p.nodeId → row.version < asI64 v) :
    db.getPolicyHistory p.nodeId 1 = .ok [{ p with version := v }] := by
  have hlast : [PolicyVersionRow.ofPolicy p v].filter (fun row => row.nodeId == p.nodeId) =
      [PolicyVersionRow.ofPolicy p v] := List.filter_cons_of_pos (beq_self_eq_true p.nodeId)
  unfold Database.getPolicyHistory
  dsimp only
  rw [hrows, List.filter_append, hlast, orderBy_concat]
  · rw [List.take_succ_cons, List.take_zero, readable, List.filterMap_cons,
      rowToPolicyVersion_ofPolicy hranged hdeployed hv]
    rfl
  · intro row hrow
    obtain ⟨hmem, hid⟩ := List.mem_filter.1 hrow
    rw [PolicyVersionRow.version_ofPolicy]
    exact decide_eq_false (not_le.2 (hgreatest row hmem (beq_iff_eq.1 hid)))

/-- SQLite keeps a policy of `u32` counts that was deployed in a year of four digits. -/
def policyStore : PolicyStore SqliteStorage
    (Bool × Table PolicyRow.nodeId × List PolicyVersionRow) where
  stored := storedPolicies
  policy tables n := ((ofTables tables).reading fun db => db.getPolicy n).1
  history tables n limit := ((ofTables tables).reading fun db => db.getPolicyHistory n limit).1
  capabilities s n := s.conn.capabilitiesOf n
  clock := isRfc3339
  Room := HasRoom
  getPolicy now n s := by
    refine Prod.ext ?_ (reading_snd _)
    show (s.reading fun db => db.getPolicy n).1 = _
    unfold reading locked ofTables storedPolicies
    dsimp only
    split <;> rfl
  getPolicyHistory now n limit s := by
    refine Prod.ext ?_ (reading_snd _)
    show (s.reading fun db => db.getPolicyHistory n limit).1 = _
    unfold reading locked ofTables storedPolicies
    dsimp only
    split <;> rfl
  getNode {now n s node} h := by
    replace h : (s.reading fun db => db.nodes.getNode n).1 = .ok (some node) := h
    rw [reading_eq (sound_of_ok h)] at h
    cases hrow : s.conn.nodes.get? n with
    | none =>
      rw [NodesTable.getNode, hrow] at h
      cases h
    | some row =>
      rw [NodesTable.getNode, hrow] at h
      replace h : (rowToNode row).map some = .ok (some node) := h
      cases hread : rowToNode row with
      | error e =>
        rw [hread] at h
        cases h
      | ok read =>
        rw [hread] at h
        obtain rfl := Option.some.inj (Except.ok.inj h)
        obtain ⟨hid, hcapabilities⟩ := rowToNode_ok hread
        have hcaps : (s.conn.nodes.get? n).map NodeRow.capabilities = some row.capabilities := by
          rw [hrow]
          rfl
        rw [hid, hcapabilities]
        exact ⟨Table.key_of_get? hrow, hcaps⟩
  storePolicy {now p s v} hroom hranged hdeployed h := by
    have hsound := sound_of_ok h
    obtain ⟨hv, hafter⟩ := storePolicy_ok h
    have hstate : (Storage.call now (.storePolicy p) s).2 = _ := hafter
    have hlt : v < 2 ^ 64 := by
      rw [hv]
      exact Database.nextVersion_lt _ _
    rw [hstate]
    refine ⟨?_, ?_⟩
    · show ((ofTables (s.poisoned, _, _)).reading _).1 = _
      rw [hsound, reading_eq rfl]
      refine getPolicy_stored hranged hdeployed ?_
      exact Table.get?_insert_self s.conn.policies (PolicyRow.ofPolicy p)
    · show ((ofTables (s.poisoned, _, _)).reading _).1 = _
      rw [hsound, reading_eq rfl]
      refine getPolicyHistory_stored hranged hdeployed hlt rfl fun row hrow hid => ?_
      rw [hv, ← hid]
      exact hroom row hrow
  leaves {c} now s hc := by
    cases c with
    | recordDeployment record =>
      obtain ⟨hcore, hpoisoned⟩ := call_core (s := s) now (c := .recordDeployment record) rfl
      have htables : (Storage.call now (.recordDeployment record) s).2.conn.policyTables =
          s.conn.policyTables := congrArg Prod.snd hcore
      exact Prod.ext hpoisoned htables
    | updateNodeState m state =>
      have htables : (s.locked (Sql.updateNodeState m state).run).2.conn.policyTables =
          s.conn.policyTables := by
        refine locked_keeps fun db => ?_
        rw [Sql.run_updateNodeState]
        rfl
      exact Prod.ext (poisoned_locked _) htables
    | _ => cases hc
  keeps {c} now n s hc := by
    cases c with
    | recordDeployment record =>
      obtain ⟨hcore, -⟩ := call_core (s := s) now (c := .recordDeployment record) rfl
      exact congrArg (fun core => (Table.get? core.1 n).map NodeRow.capabilities) hcore
    | storePolicy p =>
      show (s.locked (Sql.storePolicy p).run).2.conn.capabilitiesOf n = s.conn.capabilitiesOf n
      refine locked_keeps fun db => ?_
      rw [Sql.run_storePolicy]
      split <;> rfl
    | updateNodeState m state =>
      show (s.locked (Sql.updateNodeState m state).run).2.conn.capabilitiesOf n =
        s.conn.capabilitiesOf n
      refine locked_keeps fun db => ?_
      rw [Sql.run_updateNodeState]
      exact db.nodes.map_capabilities_updateNodeState m state n
    | _ => simp [StorageCall.afterDeploy] at hc
  instant := ⟨0, rfl⟩

/-! ### Room for another version -/

/-- Every version has a number, and none is greater than the bound. -/
def NumberedUpTo (bound : Nat) (s : SqliteStorage) : Prop :=
  ∀ row ∈ s.conn.policyVersions, 0 ≤ row.version ∧ row.version ≤ bound

omit [Rfc3339] [SerdeJson] in
/-- The next number is one more than the greatest. -/
theorem NumberedUpTo.nextVersion {bound : Nat} (h : s.NumberedUpTo bound)
    (hbound : bound < 2 ^ 63 - 1) (n : String) :
    s.conn.nextVersion n ≤ bound + 1 ∧
      ∀ row ∈ s.conn.policyVersions, row.nodeId = n → row.version < s.conn.nextVersion n := by
  have hmem {m : Int} (hm : m ∈ (s.conn.policyVersions.filter fun row => row.nodeId == n).map
      PolicyVersionRow.version) : 0 ≤ m ∧ m ≤ bound := by
    obtain ⟨row, hrow, rfl⟩ := List.mem_map.1 hm
    exact h row (List.mem_filter.1 hrow).1
  have hrows {row : PolicyVersionRow} (hrow : row ∈ s.conn.policyVersions) (hid : row.nodeId = n) :
      row.version ∈ (s.conn.policyVersions.filter fun row => row.nodeId == n).map
        PolicyVersionRow.version :=
    List.mem_map_of_mem (List.mem_filter.2 ⟨hrow, beq_iff_eq.2 hid⟩)
  unfold Database.nextVersion Database.maxVersion asUInt64
  cases hmax : ((s.conn.policyVersions.filter fun row => row.nodeId == n).map
      PolicyVersionRow.version).max? with
  | none =>
    rw [List.max?_eq_none_iff] at hmax
    rw [Option.getD_none]
    refine ⟨by omega, fun row hrow hid => ?_⟩
    have hnone := hrows hrow hid
    rw [hmax] at hnone
    cases hnone
  | some m =>
    obtain ⟨hm, hgreatest⟩ := List.max?_eq_some_iff.1 hmax
    have hrange := hmem hm
    rw [Option.getD_some]
    refine ⟨by omega, fun row hrow hid => ?_⟩
    have hle := hgreatest _ (hrows hrow hid)
    omega

omit [Rfc3339] [SerdeJson] in
theorem NumberedUpTo.hasRoom {bound : Nat} (h : s.NumberedUpTo bound)
    (hbound : bound < 2 ^ 63 - 1) : s.HasRoom := by
  intro row hrow
  obtain ⟨hnext, hgreater⟩ := h.nextVersion hbound row.nodeId
  rw [asI64_of_lt (by omega)]
  exact hgreater row hrow rfl

omit [Rfc3339] [SerdeJson] in
/-- A method leaves the database behind a poisoned lock as it was. -/
theorem conn_locked {α : Type} (f : Database → StorageResult α × Database) :
    (s.locked f).2.conn = s.conn ∨ (s.locked f).2.conn = (f s.conn).2 := by
  unfold locked
  split
  · exact .inl rfl
  · exact .inr rfl

/-- Only storing a policy adds a version. -/
theorem mem_policyVersions_call (now : DateTime) (c : StorageCall) {row : PolicyVersionRow}
    (h : row ∈ (Storage.call now c s).2.conn.policyVersions) :
    row ∈ s.conn.policyVersions ∨ ∃ p, row = .ofPolicy p (s.conn.nextVersion p.nodeId) := by
  by_cases hcore : c.writesCore = false
  · obtain ⟨hsame, -⟩ := call_core (s := s) now hcore
    have hversions : (Storage.call now c s).2.conn.policyVersions = s.conn.policyVersions :=
      congrArg (fun core => core.2.2) hsame
    exact .inl (hversions ▸ h)
  -- the other methods that write nodes keep the versions
  have hkeeps {α : Type} {f : Database → StorageResult α × Database}
      (hf : ∀ db, (f db).2.policyVersions = db.policyVersions)
      (h : row ∈ (s.locked f).2.conn.policyVersions) : row ∈ s.conn.policyVersions := by
    rwa [locked_keeps hf] at h
  cases c with
  | storePolicy p =>
    rcases conn_locked (s := s) (Sql.storePolicy p).run with hconn | hconn
    · exact .inl (by rw [← hconn]; exact h)
    · replace h : row ∈ (s.locked (Sql.storePolicy p).run).2.conn.policyVersions := h
      rw [hconn, Sql.run_storePolicy] at h
      split at h
      · rcases List.mem_append.1 h with hold | hnew
        · exact .inl hold
        · exact .inr ⟨p, List.mem_singleton.1 hnew⟩
      · exact .inl h
  | removeNode m =>
    have hstate : (Storage.call now (.removeNode m) s).2.conn =
        (s.locked fun db => db.removeNode m).2.conn := by
      show (s.removeNode m).2.conn = _
      unfold removeNode
      dsimp only
      split <;> rfl
    rw [hstate] at h
    rcases conn_locked (s := s) (fun db => db.removeNode m) with hconn | hconn
    · exact .inl (hconn ▸ h)
    · rw [hconn, Database.removeNode] at h
      split at h
      · exact .inl (List.mem_filter.1 h).1
      · exact .inl h
  | markStaleNodes threshold =>
    replace h : row ∈ (s.markStaleNodes now threshold).2.conn.policyVersions := h
    unfold markStaleNodes at h
    cases hmethod : Sql.markStaleNodes now threshold with
    | none =>
      rw [hmethod] at h
      exact .inl h
    | some method =>
      rw [hmethod] at h
      refine .inl (hkeeps (fun db => ?_) h)
      obtain ⟨r, -, hr⟩ := Sql.run_of_markStaleNodes db hmethod
      rw [hr]
      rfl
  | updateNodeState m state =>
    refine .inl (hkeeps (fun db => ?_) h)
    rw [Sql.run_updateNodeState]
    rfl
  | updateAnnotations m set remove =>
    refine .inl (hkeeps (fun db => ?_) h)
    rw [Sql.run_updateAnnotations]
    rfl
  | registerNode | updateHeartbeat => exact .inl (hkeeps (fun _ => rfl) h)
  | _ => exact absurd rfl hcore

theorem NumberedUpTo.call {bound : Nat} (h : s.NumberedUpTo bound) (hbound : bound < 2 ^ 63 - 1)
    (now : DateTime) (c : StorageCall) : (Storage.call now c s).2.NumberedUpTo (bound + 1) := by
  intro row hrow
  rcases mem_policyVersions_call now c hrow with hold | ⟨p, rfl⟩
  · have hrange := h row hold
    omega
  · have hnext := (h.nextVersion hbound p.nodeId).1
    rw [PolicyVersionRow.version_ofPolicy, asI64_of_lt (by omega)]
    omega

omit [Rfc3339] [SerdeJson] in
theorem numberedUpTo_inMemory : inMemory.NumberedUpTo 0 := by
  intro row hrow
  cases hrow

/-- The numbers are not used up by fewer calls than there are numbers. -/
theorem hasRoom_stateAfter {calls : List TimedCall} (h : calls.length < 2 ^ 63 - 1) :
    (Storage.stateAfter calls inMemory).HasRoom := by
  have hall : ∀ c ∈ calls, (fun _ : TimedCall => True) c := fun _ _ => trivial
  have hlength : (Storage.answers calls inMemory).length = calls.length := Storage.length_answers _ _
  have hnumbered := Storage.state_of_step (n := calls.length)
    (I := fun before (s : SqliteStorage) => s.NumberedUpTo before.length)
    (fun before s c _ hn hs => by
      rw [List.length_append, List.length_singleton]
      exact hs.call (by omega) c.1 c.2)
    hall [] numberedUpTo_inMemory (Nat.le_of_eq (Nat.zero_add _))
  rw [List.nil_append, hlength] at hnumbered
  exact hnumbered.hasRoom h

end SqliteStorage

/-! ## Running a deploy alone -/

section Runs

variable [Extern] {σ β α : Type} [Storage σ] {clock : DateTime → Bool} {a : α} {w w' : World σ}

theorem clocked_op {o : Op} {f : o.Res → Proc α} :
    (clocked σ clock).RunsTo (@Prog.bind Op Op.Res (no_index o.Res) α (op o) f) w a w' ↔
      ∃ x r w₁ new, World.exec x o w = some (r, w₁, new) ∧ clockShows clock o r = true ∧
        (clocked σ clock).RunsTo (f r) w₁ a w' := by
  constructor
  · intro h
    obtain ⟨x, r, w₁, new, hx, h⟩ := h
    obtain ⟨hx, hclock⟩ := Machine.restrict_exec.1 hx
    exact ⟨x, r, w₁, new, hx, hclock, h⟩
  · intro h
    obtain ⟨x, r, w₁, new, hx, hclock, h⟩ := h
    exact ⟨x, r, w₁, new, Machine.restrict_exec.2 ⟨hx, hclock⟩, h⟩

theorem clocked_storage {c : StorageCall} {f : c.Res → Proc α}
    (h : (clocked σ clock).RunsTo
      (@Prog.bind Op Op.Res (no_index c.Res) α (storage c) f) w a w') :
    ∃ now, (clocked σ clock).RunsTo (f (Storage.call now c w.storage).1)
      { w with storage := (Storage.call now c w.storage).2 } a w' := by
  obtain ⟨x, r, w₁, new, hx, h⟩ := h
  obtain ⟨hx, -⟩ := Machine.restrict_exec.1 hx
  cases hx
  exact ⟨x.now, h⟩

theorem clocked_mark {m : Mark} {f : Unit → Proc α}
    (h : (clocked σ clock).RunsTo ((mark m).bind f) w a w') :
    (clocked σ clock).RunsTo (f ()) { w with marks := w.marks ++ [m] } a w' := by
  obtain ⟨x, r, w₁, new, hx, h⟩ := h
  obtain ⟨hx, -⟩ := Machine.restrict_exec.1 hx
  cases hx
  exact h

/-- What does not wait for a task can be performed. -/
theorem clocked_enabled (hclock : ∃ t, clock t = true) {o : Op}
    (ho : ∀ joinSet, o ≠ .joinSetNext joinSet) : (clocked σ clock).Enabled o := by
  intro s
  obtain ⟨t, ht⟩ := hclock
  obtain ⟨uuid, hfresh⟩ := World.exists_fresh s.issued
  cases o with
  | now => exact ⟨.quiet t uuid, _, _, _, Machine.restrict_exec.2 ⟨rfl, ht⟩⟩
  | uuid => exact ⟨.quiet t uuid, _, _, _, Machine.restrict_exec.2 ⟨if_neg hfresh, rfl⟩⟩
  | joinSetNext joinSet => exact absurd rfl (ho joinSet)
  | _ => exact ⟨.quiet t uuid, _, _, _, Machine.restrict_exec.2 ⟨rfl, rfl⟩⟩

/-! ### Operations that store no policy -/

/-- The operation stores no policy. -/
def Op.StoresNone : Op → Prop
  | .storage (.getPolicy _) | .storage (.getPolicyHistory _ _) => True
  | .storage c => c.afterDeploy = true
  | _ => True

/-- The operation is not addressed to an agent either. -/
def Op.AsksNone (o : Op) : Prop := o.StoresNone ∧ ∀ addr req, o ≠ .deployRules addr req

namespace PolicyStore

/-- What is stored of policies, and what the nodes were registered with, is as it was. -/
structure Same (B : PolicyStore σ β) (w w' : World σ) : Prop where
  stored : B.stored w'.storage = B.stored w.storage
  capabilities : ∀ n, B.capabilities w'.storage n = B.capabilities w.storage n

variable {B : PolicyStore σ β}

omit [Extern] in
theorem Same.refl (w : World σ) : B.Same w w := ⟨rfl, fun _ => rfl⟩

omit [Extern] in
theorem Same.trans {w₁ w₂ : World σ} (h : B.Same w w₁) (h' : B.Same w₁ w₂) : B.Same w w₂ :=
  ⟨h'.stored.trans h.stored, fun n => (h'.capabilities n).trans (h.capabilities n)⟩

theorem same_of_exec {x : Ext} {o : Op} {r : o.Res} {new : List Request} (ho : o.StoresNone)
    (hx : World.exec x o w = some (r, w', new)) : B.Same w w' := by
  have hstorage := (World.stepped_of_exec hx).storage
  cases o with
  | storage c =>
    have hs : w'.storage = (Storage.call x.now c w.storage).2 := congrArg Prod.snd hstorage
    have hsame (h : w'.storage = w.storage) : B.Same w w' := ⟨by rw [h], fun n => by rw [h]⟩
    cases c with
    | getPolicy n => exact hsame (hs.trans (congrArg Prod.snd (B.getPolicy _ _ _)))
    | getPolicyHistory n limit =>
      exact hsame (hs.trans (congrArg Prod.snd (B.getPolicyHistory _ _ _ _)))
    | _ => exact ⟨hs ▸ B.leaves _ _ ho, fun n => hs ▸ B.keeps _ _ _ (.inl ho)⟩
  | _ =>
    have hs : w'.storage = w.storage := hstorage
    exact ⟨by rw [hs], fun n => by rw [hs]⟩

theorem same_of_runsTo {p : Proc α} (hp : p.Calls Op.StoresNone)
    (h : (clocked σ clock).RunsTo p w a w') : B.Same w w' := by
  refine h.keeps (I := fun s => B.Same w s) ?_ hp (.refl w)
  intro o ho x s r s' new hx hs
  exact hs.trans (same_of_exec ho (Machine.restrict_exec.1 hx).1)

end PolicyStore

theorem sent_of_runsTo {p : Proc α} (hp : p.Calls Op.AsksNone)
    (h : (clocked σ clock).RunsTo p w a w') : w'.sent = w.sent := by
  refine h.keeps (I := fun s => s.sent = w.sent) ?_ hp rfl
  intro o ho x s r s' new hx hs
  have hsent := (World.stepped_of_exec (Machine.restrict_exec.1 hx).1).sent
  cases o with
  | deployRules addr req => exact absurd rfl (ho.2 addr req)
  | _ => exact (hsent.trans (List.append_nil _)).trans hs

end Runs

/-! ## One deploy -/

/-- The policy that is read for the node is that of the request, and the version that is read for
    it has the number. -/
def PolicyStore.Current {σ β : Type} [Storage σ] (B : PolicyStore σ β) (s : σ)
    (n rulesYaml hash : String) (options : CompileOptions) (version : Nat) : Prop :=
  (∃ p, B.policy (B.stored s) n = .ok (some p) ∧ policyMatchesRequest p rulesYaml hash options) ∧
    ∃ versions, B.history (B.stored s) n 1 = .ok versions ∧
      (versions.head?.map PolicyVersion.version).getD 0 = version

section Deploy

variable [Extern] {σ β : Type} [Storage σ] {B : PolicyStore σ β} (cfg : ControllerConfig)
  {node : Node} {rulesYaml hash : String} {options : CompileOptions} {out : DeployOutcome}
  {w w' : World σ}

omit [Extern] in
theorem PolicyStore.Same.current {version : Nat} (h : B.Same w w')
    (hcurrent : B.Current w.storage node.nodeId rulesYaml hash options version) :
    B.Current w'.storage node.nodeId rulesYaml hash options version := by
  rw [Current, h.stored]
  exact hcurrent

/-- A deploy that is skipped reports the newest version, unless it cannot be read. -/
theorem skipRedeploy_runs
    (h : (clocked σ B.clock).RunsTo (skipRedeploy node hash) w out w') :
    out.success = false ∧ (∀ versions, B.history (B.stored w.storage) node.nodeId 1 ≠ .ok versions) ∨
      out.success = true ∧ ∃ versions, B.history (B.stored w.storage) node.nodeId 1 = .ok versions ∧
        (versions.head?.map PolicyVersion.version).getD 0 = out.version := by
  obtain ⟨now, h⟩ := clocked_storage h
  rw [B.getPolicyHistory] at h
  cases hread : B.history (B.stored w.storage) node.nodeId 1 with
  | error e =>
    rw [hread] at h
    obtain ⟨rfl, -⟩ := h
    exact .inl ⟨rfl, fun versions hok => by cases hok⟩
  | ok versions =>
    rw [hread] at h
    obtain ⟨-, id, w₁, -, -, -, h⟩ := clocked_op.1 h
    obtain ⟨-, t, w₂, -, -, -, h⟩ := clocked_op.1 h
    obtain ⟨now', h⟩ := clocked_storage h
    obtain ⟨rfl, -⟩ := h
    exact .inr ⟨rfl, versions, rfl, rfl⟩

theorem skipRedeploy_asksNone (node : Node) (hash : String) :
    (skipRedeploy node hash).Calls Op.AsksNone := by
  simp only [skipRedeploy, Prog.bind_eq, calls_storage]
  refine ⟨⟨trivial, by simp⟩, fun r => ?_⟩
  cases r with
  | error e => trivial
  | ok versions => simp [Op.AsksNone, Op.StoresNone, StorageCall.afterDeploy]

/-- A deploy that stores its policy and succeeds leaves it current, under the version it reports. -/
theorem storeAndForward_runs (hroom : B.Room w.storage) (hranged : options.Ranged)
    (h : (clocked σ B.clock).RunsTo (storeAndForward cfg node rulesYaml hash options) w out w')
    (hsuccess : out.success = true) :
    B.Current w'.storage node.nodeId rulesYaml hash options out.version ∧
      ∀ n, B.capabilities w'.storage n = B.capabilities w.storage n := by
  obtain ⟨x, t, w₁, new, hx, hclock, h⟩ := clocked_op.1 h
  cases hx
  obtain ⟨now, h⟩ := clocked_storage h
  have hpolicy : (requestedPolicy node.nodeId rulesYaml hash x.now options).Ranged := hranged
  cases hstored : (Storage.call now (.storePolicy (requestedPolicy node.nodeId rulesYaml hash x.now
      options)) w.storage).1 with
  | error e =>
    rw [hstored] at h
    obtain ⟨rfl, -⟩ := h
    cases hsuccess
  | ok version =>
    obtain ⟨hread, hhistory⟩ := B.storePolicy hroom hpolicy hclock hstored
    rw [hstored] at h
    have hsame : B.Same { w with storage := (Storage.call now (.storePolicy (requestedPolicy
        node.nodeId rulesYaml hash x.now options)) w.storage).2 } w' :=
      PolicyStore.same_of_runsTo (by simp [Op.StoresNone, StorageCall.afterDeploy]) h
    have hversion : out.version = version := by
      obtain ⟨now₁, h⟩ := clocked_storage h
      obtain ⟨-, answer, w₂, -, -, -, h⟩ := clocked_op.1 h
      obtain ⟨now₂, h⟩ := clocked_storage h
      obtain ⟨-, id, w₃, -, -, -, h⟩ := clocked_op.1 h
      obtain ⟨now₃, h⟩ := clocked_storage h
      obtain ⟨rfl, -⟩ := h
      rfl
    refine ⟨hsame.current ⟨⟨_, hread, ?_⟩, _, hhistory, hversion.symm⟩, fun n => ?_⟩
    · exact policyMatchesRequest_iff.2 ⟨rfl, rfl, rfl⟩
    · rw [hsame.capabilities]
      exact B.keeps _ _ _ (.inr ⟨_, rfl⟩)

/-- Past the gate a deploy reads the policy, and then either skips or stores. -/
theorem deployToNodeBody_runs
    (hcap : ensureNodeCapabilities node (normalizeOptions options) = .ok ())
    (h : (clocked σ B.clock).RunsTo (deployToNodeBody cfg node rulesYaml options) w out w') :
    out.success = false ∧ (∀ p, B.policy (B.stored w.storage) node.nodeId ≠ .ok p) ∨
    ((node.state = .active ∧ ∃ p, B.policy (B.stored w.storage) node.nodeId = .ok (some p) ∧
        policyMatchesRequest p rulesYaml (policyHash rulesYaml) (normalizeOptions options)) ∧
      (clocked σ B.clock).RunsTo (skipRedeploy node (policyHash rulesYaml)) w out w') ∨
    (¬ (node.state = .active ∧ ∃ p, B.policy (B.stored w.storage) node.nodeId = .ok (some p) ∧
        policyMatchesRequest p rulesYaml (policyHash rulesYaml) (normalizeOptions options)) ∧
      (clocked σ B.clock).RunsTo (storeAndForward cfg node rulesYaml (policyHash rulesYaml)
        (normalizeOptions options)) w out w') := by
  simp only [deployToNodeBody, hcap, Prog.bind_eq] at h
  obtain ⟨now, h⟩ := clocked_storage h
  rw [B.getPolicy] at h
  cases hread : B.policy (B.stored w.storage) node.nodeId with
  | error e =>
    rw [hread] at h
    obtain ⟨rfl, -⟩ := h
    exact .inl ⟨rfl, fun p hok => by cases hok⟩
  | ok current =>
    rw [hread] at h
    right
    have htest : (node.state == .active && current.any
        (policyMatchesRequest · rulesYaml (policyHash rulesYaml) (normalizeOptions options))) = true ↔
        node.state = .active ∧ ∃ p, current = some p ∧
          policyMatchesRequest p rulesYaml (policyHash rulesYaml) (normalizeOptions options) := by
      rw [Bool.and_eq_true, beq_iff_eq, Option.any_eq_true]
    replace h : (clocked σ B.clock).RunsTo (if node.state == .active && current.any
        (policyMatchesRequest · rulesYaml (policyHash rulesYaml) (normalizeOptions options))
      then skipRedeploy node (policyHash rulesYaml)
      else storeAndForward cfg node rulesYaml (policyHash rulesYaml) (normalizeOptions options))
      w out w' := h
    simp only [Except.ok.injEq, ← htest]
    split at h
    · rename_i hactive
      exact .inl ⟨hactive, h⟩
    · rename_i hactive
      exact .inr ⟨hactive, h⟩

omit [Extern] in
/-- The gate reads the capabilities of the node only. -/
theorem ensureNodeCapabilities_congr {node' : Node} (h : node'.capabilities = node.capabilities)
    (hcap : ensureNodeCapabilities node options = .ok ()) :
    ensureNodeCapabilities node' options = .ok () := by
  have htrue (key : String) : capabilityTrue node' key = capabilityTrue node key := by
    rw [capabilityTrue, h, capabilityTrue]
  unfold ensureNodeCapabilities at hcap ⊢
  simp only [htrue]
  split at hcap
  · cases hcap
  · rfl

omit [Extern] in
theorem CompileOptions.Ranged.normalize (h : options.Ranged) :
    (normalizeOptions options).Ranged := by
  have hdefault {n d : Nat} (hn : n < 2 ^ 32) (hd : d < 2 ^ 32) :
      (if n = 0 then d else n) < 2 ^ 32 := by
    split
    · exact hd
    · exact hn
  obtain ⟨hports, hentries, hwidth, hqueues, hswitch⟩ := h
  exact ⟨hdefault hports (by decide), hdefault hentries (by decide), hdefault hwidth (by decide),
    hdefault hqueues (by decide), hswitch⟩

/-- The marks around a deploy change nothing that matters. -/
theorem deployToNode_body
    (h : (clocked σ B.clock).RunsTo (deployToNode cfg node rulesYaml options) w out w') :
    ∃ w₁, (clocked σ B.clock).RunsTo (deployToNodeBody cfg node rulesYaml options)
        { w with marks := w.marks ++ [.enterDeploy node.nodeId] } out w₁ ∧
      w'.storage = w₁.storage ∧ w'.sent = w₁.sent := by
  obtain ⟨result, w₁, hbody, hrest⟩ := Machine.runsTo_bind.1 (clocked_mark h)
  obtain ⟨rfl, rfl⟩ := clocked_mark hrest
  exact ⟨w₁, hbody, rfl, rfl⟩

/-- **After a deploy that succeeds its policy is current**, under the version it reports. -/
theorem deployToNode_current (hroom : B.Room w.storage) (hranged : options.Ranged)
    (h : (clocked σ B.clock).RunsTo (deployToNode cfg node rulesYaml options) w out w')
    (hsuccess : out.success = true) :
    ensureNodeCapabilities node (normalizeOptions options) = .ok () ∧
      B.Current w'.storage node.nodeId rulesYaml (policyHash rulesYaml) (normalizeOptions options)
        out.version ∧
      ∀ n, B.capabilities w'.storage n = B.capabilities w.storage n := by
  obtain ⟨w₁, hbody, hstorage, -⟩ := deployToNode_body cfg h
  rw [hstorage]
  cases hcap : ensureNodeCapabilities node (normalizeOptions options) with
  | error message =>
    simp only [deployToNodeBody, hcap] at hbody
    obtain ⟨rfl, -⟩ := hbody
    cases hsuccess
  | ok u =>
    refine ⟨rfl, ?_⟩
    rcases deployToNodeBody_runs cfg hcap hbody with ⟨hfail, -⟩ | ⟨⟨-, hpolicy⟩, hskip⟩ | ⟨-, hstore⟩
    · rw [hsuccess] at hfail
      cases hfail
    · have hsame : B.Same _ w₁ :=
        PolicyStore.same_of_runsTo ((skipRedeploy_asksNone node _).mono fun _ h => h.1) hskip
      rcases skipRedeploy_runs hskip with ⟨hfail, -⟩ | ⟨-, hhistory⟩
      · rw [hsuccess] at hfail
        cases hfail
      · exact ⟨hsame.current ⟨hpolicy, hhistory⟩, hsame.capabilities⟩
    · exact storeAndForward_runs cfg
        (w := { w with marks := w.marks ++ [Mark.enterDeploy node.nodeId] }) hroom
        hranged.normalize hstore hsuccess

/-- **A deploy of the policy that is current to a node that is active is skipped.** -/
theorem deployToNode_skips {version : Nat}
    (hcap : ensureNodeCapabilities node (normalizeOptions options) = .ok ())
    (hactive : node.state = .active)
    (hcurrent : B.Current w.storage node.nodeId rulesYaml (policyHash rulesYaml)
      (normalizeOptions options) version)
    (h : (clocked σ B.clock).RunsTo (deployToNode cfg node rulesYaml options) w out w') :
    out.success = true ∧ out.version = version ∧ w'.sent = w.sent ∧
      B.stored w'.storage = B.stored w.storage := by
  obtain ⟨⟨p, hp, hmatches⟩, versions, hversions, hversion⟩ := hcurrent
  obtain ⟨w₁, hbody, hstorage, hsent⟩ := deployToNode_body cfg h
  rw [hstorage, hsent]
  rcases deployToNodeBody_runs cfg hcap hbody with ⟨-, hfail⟩ | ⟨-, hskip⟩ | ⟨hnot, -⟩
  · exact absurd hp (hfail _)
  · have hsame : B.Same _ w₁ :=
      PolicyStore.same_of_runsTo ((skipRedeploy_asksNone node _).mono fun _ h => h.1) hskip
    have hquiet := sent_of_runsTo (skipRedeploy_asksNone node _) hskip
    rcases skipRedeploy_runs hskip with ⟨-, hfail⟩ | ⟨hsuccess, versions', hversions', hreport⟩
    · exact absurd hversions (hfail _)
    · obtain rfl : versions = versions' := Except.ok.inj (hversions.symm.trans hversions')
      exact ⟨hsuccess, hreport.symm.trans hversion, hquiet, hsame.stored⟩
  · exact absurd ⟨hactive, p, hp, hmatches⟩ hnot

/-! ## The same deploy again -/

/-- Deploying is idempotent over a backend that numbers the next version above the others. -/
theorem PolicyStore.idempotent (B : PolicyStore σ β) (hroom : B.Room w.storage) :
    DeployIdempotent B.clock B.stored cfg w := by
  intro node node' rulesYaml o o' first w₁ now hranged hoptions hknown hfirst hsuccess hread hactive
  obtain ⟨hcap, hcurrent, hkept⟩ := deployToNode_current cfg hroom hranged hfirst hsuccess
  obtain ⟨now₀, stored, hstored, hcapabilities⟩ := hknown
  obtain ⟨hid, hafter⟩ := B.getNode hread
  have hsame : node'.capabilities = node.capabilities := by
    have hbefore := (B.getNode hstored).2
    rw [← hkept, hafter] at hbefore
    exact (Option.some.inj hbefore).trans hcapabilities
  rw [← hid, ← hoptions] at hcurrent
  rw [← hoptions] at hcap
  refine ⟨Machine.exists_runsTo ?_ w₁, fun second w₂ hsecond => ?_⟩
  · exact (deployToNode_waits cfg node' rulesYaml o').mono fun o ho => clocked_enabled B.instant ho
  · exact deployToNode_skips cfg (ensureNodeCapabilities_congr hsame hcap) hactive hcurrent hsecond

end Deploy

/-- **Deploying is idempotent, in either backend**: in memory whatever the state and the clock, and
    in SQLite after any calls, fewer than there are version numbers, on a clock that shows years of
    four digits. -/
theorem deployIdempotent [Extern] [Rfc3339] [SerdeJson] (cfg : ControllerConfig) :
    (∀ w : World MemoryStorage,
      DeployIdempotent (fun _ => true) MemoryStorage.storedPolicies cfg w) ∧
    ∀ (calls : List TimedCall) (w : World SqliteStorage), calls.length < 2 ^ 63 - 1 →
      w.storage = Storage.stateAfter calls SqliteStorage.inMemory →
      DeployIdempotent isRfc3339 SqliteStorage.storedPolicies cfg w := by
  refine ⟨fun w => MemoryStorage.policyStore.idempotent cfg trivial, ?_⟩
  intro calls w hfew hstate
  refine SqliteStorage.policyStore.idempotent cfg ?_
  show w.storage.HasRoom
  rw [hstate]
  exact SqliteStorage.hasRoom_stateAfter hfew

/-! ## Two deploys -/

/-- "n1" has registered and reported in. -/
def reportedIn : List TimedCall :=
  [(0, .registerNode registeredN1), (0, .updateHeartbeat "n1" .online 5)]

/-- The calls of an SQLite backend. -/
@[reducible] def sqliteSample : Storage SqliteStorage := @SqliteStorage.instStorage .sample .sample

/-- A controller over SQLite, and the agent of "n1". -/
def World.sqlite : World SqliteStorage :=
  { World.init (@Storage.stateAfter _ sqliteSample PaciNet.reportedIn .inMemory) with
    agents := (∅ : AList fun _ : String => AgentState).insert "http://agent:1" (.boot "n1") }

/-- "n1" as it is read. -/
def World.readN1 (w : World SqliteStorage) : Option Node :=
  (Except.toOption (@Storage.call _ sqliteSample 2 (.getNode "n1") w.storage).1).join

theorem World.readN1_eq_some {w : World SqliteStorage} {node : Node} (h : w.readN1 = some node) :
    (@Storage.call _ sqliteSample 2 (.getNode "n1") w.storage).1 = .ok (some node) := by
  unfold readN1 at h
  rcases hread : (@Storage.call _ sqliteSample 2 (.getNode "n1") w.storage).1 with e | _ | read
  · rw [hread] at h
    cases h
  · rw [hread] at h
    cases h
  · rw [hread] at h
    exact congrArg (fun n => Except.ok (some n)) (Option.some.inj h)

/-- The first deploy, whose agent accepts the rules. -/
def deployedOnSqlite : Option (DeployOutcome × World SqliteStorage) :=
  (@clocked SqliteStorage .sample sqliteSample isRfc3339).eval
    (List.replicate 10 ⟨1, "d1", .compiled⟩)
    (@deployToNode .sample plainConfig registeredN1 "rules: [a]" .default) World.sqlite

/-- The first deploy asks its agent and stores a version; the second, with the options written
    out, reports the same version and asks no one. -/
theorem deployIdempotent_twice :
    ∃ first w₁ node', deployedOnSqlite = some (first, w₁) ∧ first.version = 1 ∧
      w₁.sent.length = 1 ∧ ∃ second w₂,
        (@clocked SqliteStorage .sample sqliteSample isRfc3339).RunsTo
          (@deployToNode .sample plainConfig node' "rules: [a]" (normalizeOptions .default))
          w₁ second w₂ ∧ second.success = true ∧ second.version = 1 ∧ w₂.sent = w₁.sent := by
  have hcheck : deployedOnSqlite.any (fun r => r.1.success && decide (r.1.version = 1) &&
      decide (r.2.sent.length = 1) && r.2.readN1.any fun node => decide (node.state = .active)) := by
    decide +kernel
  obtain ⟨⟨first, w₁⟩, heval, hcheck⟩ := (Option.any_eq_true _ _).1 hcheck
  simp only [Bool.and_eq_true, decide_eq_true_iff, Option.any_eq_true] at hcheck
  obtain ⟨⟨⟨hsuccess, hversion⟩, hsent⟩, node', hnode', hactive⟩ := hcheck
  have hknown : ∃ stored, World.sqlite.readN1 = some stored ∧ stored.capabilities = ∅ := by
    decide +kernel
  obtain ⟨stored, hstored, hcapabilities⟩ := hknown
  obtain ⟨⟨second, w₂, hsecond⟩, hagain⟩ :=
    (@deployIdempotent .sample .sample .sample plainConfig).2 reportedIn World.sqlite (by decide) rfl
      registeredN1 node' "rules: [a]" .default (normalizeOptions .default) first w₁ 2
      ⟨by decide, by decide, by decide, by decide, by decide⟩ (normalizeOptions_idem _)
      ⟨2, stored, World.readN1_eq_some hstored, hcapabilities⟩ (Machine.runsTo_of_eval heval)
      hsuccess (World.readN1_eq_some hnode') hactive
  obtain ⟨hsucceeds, hsame, hquiet, -⟩ := hagain second w₂ hsecond
  exact ⟨first, w₁, node', heval, hversion, hsent, second, w₂, hsecond, hsucceeds,
    hsame.trans hversion, hquiet⟩

end PaciNet

import PaciNet.Proof.RepeatedDeploys
import PaciNet.Proof.VersionNumbers
import PaciNet.Server.Rest

/-!
# Rolling back to a version

A rollback reads the ten newest versions of the node and looks for the number it was asked for
among them. What it finds it deploys as it was stored: the rules and the options come back through
the policy, the version and, in SQLite, the row. **A stored version is deployed exactly when fewer
than ten were stored after it**; of an older one both handlers say that it is not found, though the
history still has it.

The history is told from the answers, for any calls: a policy that was stored is added at its end,
and a removal of the node begins it anew.
-/

set_option autoImplicit false

namespace PaciNet

open Lib

/-! ## What was stored for a node -/

/-- What an answered call makes of the policies stored for a node. -/
def recordAnswer (nodeId : String) (policies : List Policy) : AnsweredCall → List Policy
  | ⟨.storePolicy p, .ok _⟩ => if p.nodeId = nodeId then policies ++ [p] else policies
  | ⟨.removeNode m, .ok _⟩ => if m = nodeId then [] else policies
  | _ => policies

/-- The policies stored for a node since it was last removed, oldest first. -/
def policyHistory (nodeId : String) (answers : List AnsweredCall) : List Policy :=
  answers.foldl (recordAnswer nodeId) []

section History

variable {nodeId : String} {before : List AnsweredCall}

theorem policyHistory_concat (a : AnsweredCall) :
    policyHistory nodeId (before ++ [a]) = recordAnswer nodeId (policyHistory nodeId before) a := by
  simp [policyHistory]

/-- Calls that are about other policies. -/
theorem recordAnswer_leaves {policies : List Policy} {c : StorageCall}
    (hc : c.LeavesPolicies nodeId) (r : c.Res) :
    recordAnswer nodeId policies ⟨c, r⟩ = policies := by
  cases c with
  | storePolicy p =>
    cases r with
    | error e => rfl
    | ok v => exact if_neg hc
  | removeNode m =>
    cases r with
    | error e => rfl
    | ok b => exact if_neg hc
  | _ => rfl

theorem length_recordAnswer_le (policies : List Policy) (a : AnsweredCall) :
    (recordAnswer nodeId policies a).length ≤ policies.length + 1 := by
  unfold recordAnswer
  split
  · split <;> simp
  · split <;> simp
  · exact Nat.le_succ _

/-- Each call stores at most one policy. -/
theorem length_policyHistory_le : (policyHistory nodeId before).length ≤ before.length := by
  induction before using List.reverseRecOn with
  | nil => exact Nat.le_refl 0
  | append_singleton before a ih =>
    rw [policyHistory_concat, List.length_append, List.length_singleton]
    exact Nat.le_trans (length_recordAnswer_le _ a) (Nat.succ_le_succ ih)

end History

/-! ## What the backends hold after any calls -/

/-- In memory a removal takes the policies of the node, whether the node is there or not. -/
theorem MemoryStorage.Holds.removeNode {s : MemoryStorage} (nodeId : String) :
    (s.removeNode nodeId).2.Holds nodeId [] := by
  refine ⟨?_, ?_⟩
  · show ((s.policyVersions.erase nodeId).lookup nodeId).getD [] = _
    rw [AList.lookup_erase]
    rfl
  · show (s.policies.erase nodeId).get? nodeId = _
    rw [Table.get?_erase, if_pos rfl]
    rfl

theorem MemoryStorage.holds_history_step {before : List AnsweredCall} {s : MemoryStorage}
    (c : TimedCall) (h : ∀ nodeId, s.Holds nodeId (policyHistory nodeId before)) (nodeId : String) :
    (Storage.call c.1 c.2 s).2.Holds nodeId
      (policyHistory nodeId (before ++ [⟨c.2, (Storage.call c.1 c.2 s).1⟩])) := by
  obtain ⟨now, c⟩ := c
  rw [policyHistory_concat]
  by_cases hc : c.LeavesPolicies nodeId
  · rw [recordAnswer_leaves hc]
    exact (h nodeId).call_leaves now hc
  cases c with
  | storePolicy p =>
    obtain rfl : p.nodeId = nodeId := not_not.1 hc
    obtain ⟨hresult, hholds⟩ := (h p.nodeId).storePolicy
    have hanswer : (Storage.call now (.storePolicy p) s).1 =
        .ok ((policyHistory p.nodeId before).length + 1) := hresult
    rw [hanswer]
    show MemoryStorage.Holds _ _ (if p.nodeId = p.nodeId then _ else _)
    rw [if_pos rfl]
    exact hholds
  | removeNode m =>
    obtain rfl : m = nodeId := not_not.1 hc
    show MemoryStorage.Holds _ _ (if m = m then _ else _)
    rw [if_pos rfl]
    exact .removeNode m
  | _ => exact absurd trivial hc

section Sqlite

variable [Rfc3339] [SerdeJson]

/-- What the answers so far say of the database: the foreign key lets only registered nodes have
    policies. -/
structure SqliteStorage.HoldsHistory (before : List AnsweredCall) (s : SqliteStorage) : Prop where
  sound : s.poisoned = false
  holds : ∀ nodeId, s.Holds nodeId (policyHistory nodeId before)
  known : ∀ nodeId, policyHistory nodeId before ≠ [] → s.conn.nodes.contains nodeId = true

omit [Rfc3339] [SerdeJson] in
/-- The rows of a node go with it. -/
theorem Database.policiesOf_removeNode_self {db : Database} {nodeId : String}
    (h : db.nodes.contains nodeId = true) :
    (db.removeNode nodeId).2.policiesOf nodeId = (none, []) := by
  rw [Database.removeNode, if_pos h]
  refine Prod.ext ?_ ?_
  · show (db.policies.erase nodeId).get? nodeId = none
    rw [Table.get?_erase, if_pos rfl]
  · show (db.policyVersions.filter fun row => row.nodeId != nodeId).filter _ = []
    rw [List.filter_filter, List.filter_eq_nil_iff]
    intro row _ hrow
    simp at hrow

namespace SqliteStorage.HoldsHistory

variable {before : List AnsweredCall} {s : SqliteStorage}

/-- A call that is not about the policies of the node leaves its registration too. -/
theorem known_leaves (h : s.HoldsHistory before) {c : TimedCall} {nodeId : String}
    (hc : c.2.LeavesPolicies nodeId) (hcut : c.2.CutoffInRange c.1)
    (hknown : s.conn.nodes.contains nodeId = true) :
    (Storage.call c.1 c.2 s).2.conn.nodes.contains nodeId = true := by
  have hnodes := SqliteStorage.call_nodes c.1 c.2 h.sound hcut
  by_cases hremove : ∃ m, c.2 = .removeNode m
  · obtain ⟨m, hm⟩ := hremove
    rw [hm] at hnodes hc
    have herase := Option.some.inj hnodes
    rw [hm, ← herase]
    show (s.conn.nodes.erase m).contains nodeId = true
    rw [Table.contains_eq, Table.get?_erase, if_neg (Ne.symm hc), ← Table.contains_eq]
    exact hknown
  · rw [NodesTable.contains_after hnodes fun m hm => hremove ⟨m, hm⟩]
    exact .inl hknown

/-- A policy is stored for a node that is registered. -/
theorem storePolicy (h : s.HoldsHistory before) (now : DateTime) {p : Policy}
    (hreads : p.Ranged ∧ isRfc3339 p.deployedAt = true) (hfew : before.length < 2 ^ 63 - 1) :
    (Storage.call now (.storePolicy p) s).2.Holds p.nodeId (policyHistory p.nodeId
        (before ++ [⟨.storePolicy p, (Storage.call now (.storePolicy p) s).1⟩])) ∧
      (s.conn.nodes.contains p.nodeId = true ∨
        Storage.call now (.storePolicy p) s = (.error foreignKeyFailed, s)) := by
  rw [policyHistory_concat]
  by_cases hnode : s.conn.nodes.contains p.nodeId = true
  · have hlength : (policyHistory p.nodeId before).length ≤ before.length :=
      length_policyHistory_le
    obtain ⟨hresult, hholds⟩ := (h.holds p.nodeId).storePolicy hnode hreads.1 hreads.2 (by omega)
    have hanswer : (Storage.call now (.storePolicy p) s).1 =
        .ok ((policyHistory p.nodeId before).length + 1) := congrArg Prod.fst hresult
    refine ⟨?_, .inl hnode⟩
    rw [hanswer]
    show SqliteStorage.Holds _ _ (if p.nodeId = p.nodeId then _ else _)
    rw [if_pos rfl]
    exact hholds
  · have hcall : Storage.call now (.storePolicy p) s = (.error foreignKeyFailed, s) := by
      show s.locked (Sql.storePolicy p).run = _
      rw [SqliteStorage.locked_eq h.sound, Sql.run_storePolicy, if_neg hnode]
    refine ⟨?_, .inr hcall⟩
    rw [hcall]
    exact h.holds p.nodeId

/-- A removal ends the history of a node, and of no node that is not there. -/
theorem removeNode (h : s.HoldsHistory before) (now : DateTime) (m : String) :
    (Storage.call now (.removeNode m) s).2.Holds m [] := by
  show (s.removeNode m).2.Holds m []
  rw [SqliteStorage.removeNode_eq h.sound]
  by_cases hm : s.conn.nodes.contains m = true
  · exact ⟨h.sound, Database.policiesOf_removeNode_self hm, by simp, Nat.two_pow_pos 63⟩
  · have hnone : policyHistory m before = [] := by
      by_contra hsome
      exact hm (h.known m hsome)
    rw [Database.removeNode, if_neg hm]
    have hholds := h.holds m
    rw [hnone] at hholds
    exact ⟨h.sound, hholds.tables, hholds.reads, hholds.few⟩

theorem step (h : s.HoldsHistory before) {c : TimedCall} (hc : ReadsBack c)
    (hfew : before.length < 2 ^ 63 - 1) :
    (Storage.call c.1 c.2 s).2.HoldsHistory
      (before ++ [⟨c.2, (Storage.call c.1 c.2 s).1⟩]) := by
  obtain ⟨now, c⟩ := c
  have hnode : ∀ nodeId, (Storage.call now c s).2.Holds nodeId
        (policyHistory nodeId (before ++ [⟨c, (Storage.call now c s).1⟩])) ∧
      (policyHistory nodeId (before ++ [⟨c, (Storage.call now c s).1⟩]) ≠ [] →
        (Storage.call now c s).2.conn.nodes.contains nodeId = true) := by
    intro nodeId
    by_cases hleaves : c.LeavesPolicies nodeId
    · rw [policyHistory_concat, recordAnswer_leaves hleaves]
      refine ⟨(h.holds nodeId).call_leaves now hleaves hc.1, fun hsome => ?_⟩
      exact h.known_leaves (c := (now, c)) hleaves hc.1 (h.known nodeId hsome)
    cases c with
    | storePolicy p =>
      obtain rfl : p.nodeId = nodeId := not_not.1 hleaves
      obtain ⟨hholds, hnode | hcall⟩ := h.storePolicy now (hc.2 p rfl) hfew
      · refine ⟨hholds, fun _ => ?_⟩
        have hnodes := SqliteStorage.call_nodes now (.storePolicy p) h.sound trivial
        rw [NodesTable.contains_after hnodes (by simp)]
        exact .inl hnode
      · refine ⟨hholds, fun hsome => ?_⟩
        rw [hcall] at hsome ⊢
        rw [policyHistory_concat] at hsome
        exact h.known p.nodeId hsome
    | removeNode m =>
      obtain rfl : m = nodeId := not_not.1 hleaves
      have hnone : policyHistory m (before ++ [⟨.removeNode m,
          (Storage.call now (.removeNode m) s).1⟩]) = [] := by
        have hanswer : ∃ removed, (Storage.call now (.removeNode m) s).1 = .ok removed := by
          show ∃ removed, (s.removeNode m).1 = .ok removed
          rw [SqliteStorage.removeNode_eq h.sound, Database.removeNode]
          split
          · exact ⟨true, rfl⟩
          · exact ⟨false, rfl⟩
        obtain ⟨removed, hanswer⟩ := hanswer
        rw [policyHistory_concat, hanswer]
        exact if_pos rfl
      rw [hnone]
      exact ⟨h.removeNode now m, fun hsome => absurd rfl hsome⟩
    | _ => exact absurd trivial hleaves
  exact ⟨(hnode "").1.sound, fun nodeId => (hnode nodeId).1, fun nodeId => (hnode nodeId).2⟩

end SqliteStorage.HoldsHistory

end Sqlite

theorem SqliteStorage.holdsHistory_inMemory : SqliteStorage.inMemory.HoldsHistory [] where
  sound := rfl
  holds := SqliteStorage.numbers_inMemory.holds
  known _ hsome := absurd rfl hsome

/-! ## The newest versions -/

section Newest

variable {policies : List Policy}

theorem nodup_version_numbered (policies : List Policy) :
    ((numbered policies).map PolicyVersion.version).Nodup := by
  rw [map_version_numbered]
  exact List.nodup_range' 1

/-- The numbers of the newest versions. -/
theorem version_mem_newest {limit : Nat} {v : PolicyVersion}
    (h : v ∈ (numbered policies).reverse.take limit) : policies.length < v.version + limit := by
  have hversions : ((numbered policies).reverse.take limit).map PolicyVersion.version =
      (List.range (min limit policies.length)).map fun i => 1 + policies.length - 1 - i := by
    rw [List.map_take, List.map_reverse, map_version_numbered, List.reverse_range',
      ← List.map_take, List.take_range]
  have hmem := List.mem_map_of_mem (f := PolicyVersion.version) h
  rw [hversions] at hmem
  obtain ⟨i, hi, hversion⟩ := List.mem_map.1 hmem
  have := List.mem_range.1 hi
  omega

/-- A version is among the newest unless enough versions came after it. -/
theorem mem_newest_iff {limit : Nat} {v : PolicyVersion} (hv : v ∈ numbered policies) :
    v ∈ (numbered policies).reverse.take limit ↔ policies.length < v.version + limit := by
  refine ⟨version_mem_newest, fun hnewest => ?_⟩
  obtain ⟨i, hi, rfl⟩ := List.getElem_of_mem hv
  have hversion : (numbered policies)[i].version = i + 1 := by simp [numbered, Nat.add_comm]
  have hlength := length_numbered policies
  rw [hversion] at hnewest
  refine List.mem_take_iff_getElem.2 ⟨policies.length - 1 - i, ?_, ?_⟩
  · rw [List.length_reverse, hlength]
    omega
  · rw [List.getElem_reverse]
    congr 1
    omega

/-- Looking a stored version up among the newest. -/
theorem find?_newest (limit : Nat) {v : PolicyVersion} (hv : v ∈ numbered policies) :
    (((numbered policies).reverse.take limit).find? fun w => w.version == v.version) =
      if policies.length < v.version + limit then some v else none := by
  by_cases hnewest : policies.length < v.version + limit
  · rw [if_pos hnewest]
    have hmem := (mem_newest_iff hv).2 hnewest
    cases hfound : ((numbered policies).reverse.take limit).find?
        fun w => w.version == v.version with
    | none => exact absurd (beq_self_eq_true v.version) (List.find?_eq_none.1 hfound v hmem)
    | some found =>
      -- no other version has the number
      have hfoundIn : found ∈ numbered policies :=
        List.mem_reverse.1 (List.mem_of_mem_take (List.mem_of_find?_eq_some hfound))
      have hsame : found.version = v.version :=
        beq_iff_eq.1 (List.find?_some (p := fun w : PolicyVersion => w.version == v.version) hfound)
      rw [List.inj_on_of_nodup_map (nodup_version_numbered policies) hfoundIn hv hsame]
  · rw [if_neg hnewest, List.find?_eq_none]
    intro w hw heq
    have hlt := version_mem_newest hw
    rw [beq_iff_eq.1 heq] at hlt
    exact hnewest hlt

/-- **The choice of a rollback**, of a version that was stored. -/
theorem chooseRollback_newest {limit : Nat} (hlimit : 0 < limit) {v : PolicyVersion}
    (hv : v ∈ numbered policies) :
    chooseRollback v.version ((numbered policies).reverse.take limit) =
      if policies.length < v.version + limit then .version v
      else .notFound ("Policy version " ++ toString v.version ++ " not found") := by
  have hpos : v.version ≠ 0 := by
    have hmem := List.mem_map_of_mem (f := PolicyVersion.version) hv
    rw [map_version_numbered] at hmem
    have := (List.mem_range'_1.1 hmem).1
    omega
  have hfind := find?_newest limit hv
  cases hnewest : (numbered policies).reverse.take limit with
  | nil =>
    have hlength := congrArg List.length hnewest
    rw [List.length_take, List.length_reverse] at hlength
    have hsome := List.length_pos_of_mem hv
    rw [List.length_nil] at hlength
    omega
  | cons w rest =>
    rw [hnewest] at hfind
    simp only [chooseRollback, if_neg hpos, hfind]
    by_cases hlt : policies.length < v.version + limit
    · simp only [if_pos hlt]
    · simp only [if_neg hlt]

end Newest

/-! ## The rollbacks -/

section Deploying

variable {σ α : Type} [Extern] [Storage σ] (cfg : ControllerConfig) (n : String)

/-- The program, with nothing else going on, can come to a deploy of these rules and options to
    the node. -/
def ComesToDeploy (rulesYaml : String) (options : CompileOptions) (p : Proc α) (w : World σ) :
    Prop :=
  ∃ node w' k, node.nodeId = n ∧
    (machine σ).Reach p w ((deployToNode cfg node rulesYaml options).bind k) w'

/-- Both rollbacks to the version come to a deploy of its rules and options. -/
def RollsBackTo (w : World σ) (v : PolicyVersion) : Prop :=
  ComesToDeploy cfg n v.rulesYaml v.options (rollbackPolicy cfg n v.version) w ∧
    ComesToDeploy cfg n v.rulesYaml v.options (restRollbackPolicy cfg n v.version) w

/-- The node answers and no deploy holds it, and the controller leads. -/
structure ReadyForRollback (w : World σ) : Prop where
  node : ∀ now, ∃ node, (Storage.call now (.getNode n) w.storage).1 = .ok (some node)
  free : ∀ now, (Storage.call now (.beginDeploy n) w.storage).1 = .ok ()
  leader : w.leader = true

variable {cfg n} {rulesYaml : String} {options : CompileOptions} {w : World σ}

theorem comesToDeploy_deploy {node : Node} {k : DeployOutcome → Proc α} (hnode : node.nodeId = n) :
    ComesToDeploy cfg n rulesYaml options ((deployToNode cfg node rulesYaml options).bind k) w :=
  ⟨node, w, k, hnode, .refl⟩

/-- A program that has finished deploys nothing. -/
theorem not_comesToDeploy_done {a : α} :
    ¬ ComesToDeploy cfg n rulesYaml options (.done a) w := by
  rintro ⟨node, w', k, -, hreach⟩
  cases hreach.done_inv

theorem ComesToDeploy.bind {β : Type} {p : Proc α} {f : α → Proc β}
    (h : ComesToDeploy cfg n rulesYaml options p w) :
    ComesToDeploy cfg n rulesYaml options (p.bind f) w := by
  obtain ⟨node, w', k, hnode, hreach⟩ := h
  refine ⟨node, w', fun outcome => (k outcome).bind f, hnode, ?_⟩
  rw [← Prog.bind_assoc]
  exact hreach.bind

/-- A deploy begins with its mark, so it lies behind every other operation. -/
theorem comesToDeploy_read {c : StorageCall} {f : c.Res → Proc α} {r : c.Res}
    (hread : ∀ now, Storage.call now c w.storage = (r, w.storage)) :
    ComesToDeploy cfg n rulesYaml options
        (@Prog.bind Op Op.Res (no_index c.Res) α (storage c) f) w ↔
      ComesToDeploy cfg n rulesYaml options (f r) w := by
  have hexec : ∀ x, (machine σ).exec x (.storage c) w = some (r, w, []) := by
    intro x
    show World.exec x (.storage c) w = _
    simp only [World.exec, hread]
  constructor
  · rintro ⟨node, w', k, hnode, hreach⟩
    rcases hreach.call_inv with heq | ⟨x, r', w₁, hx, hrest⟩
    · cases heq
    · rw [hexec x] at hx
      cases hx
      exact ⟨node, w', k, hnode, hrest⟩
  · rintro ⟨node, w', k, hnode, hreach⟩
    exact ⟨node, w', k, hnode, .perform (.quiet 0 "") (hexec _) hreach⟩

theorem ComesToDeploy.storage {c : StorageCall} {f : c.Res → Proc α} (now : DateTime) {r : c.Res}
    (hr : (Storage.call now c w.storage).1 = r)
    (h : ComesToDeploy cfg n rulesYaml options (f r)
      { w with storage := (Storage.call now c w.storage).2 }) :
    ComesToDeploy cfg n rulesYaml options
      (@Prog.bind Op Op.Res (no_index c.Res) α (storage c) f) w := by
  subst hr
  obtain ⟨node, w', k, hnode, hreach⟩ := h
  exact ⟨node, w', k, hnode, .perform (.quiet now "") rfl hreach⟩

/-- On the leader the guard of the REST handlers is passed. -/
theorem comesToDeploy_requireLeader {f : Unit → Proc (Except AppError α)}
    (hleader : w.leader = true) :
    ComesToDeploy cfg n rulesYaml options (requireLeader.orReturn f) w ↔
      ComesToDeploy cfg n rulesYaml options (f ()) w := by
  have hexec : ∀ x, (machine σ).exec x .isLeader w = some (true, w, []) := by
    intro x
    show some (w.leader, w, []) = _
    rw [hleader]
  constructor
  · rintro ⟨node, w', k, hnode, hreach⟩
    rcases Machine.Reach.call_inv hreach with heq | ⟨x, r, w₁, hx, hrest⟩
    · cases heq
    · rw [hexec x] at hx
      cases hx
      exact ⟨node, w', k, hnode, hrest⟩
  · rintro ⟨node, w', k, hnode, hreach⟩
    exact ⟨node, w', k, hnode, .step (.quiet 0 "") (hexec _) hreach⟩

/-- **A version can be rolled back to while it is among the ten newest**, where the backend answers
    with the newest versions of the history. -/
theorem rollsBackTo_iff_of_reads {policies : List Policy} (hready : ReadyForRollback n w)
    (hnode : ∀ {now node}, (Storage.call now (.getNode n) w.storage).1 = .ok (some node) →
      node.nodeId = n)
    (hget : ∀ now, Storage.call now (.getNode n) w.storage =
      ((Storage.call 0 (.getNode n) w.storage).1, w.storage))
    (hhistory : ∀ now, Storage.call now (.getPolicyHistory n 10) w.storage =
      (.ok ((numbered policies).reverse.take 10), w.storage))
    {v : PolicyVersion} (hv : v ∈ numbered policies) :
    RollsBackTo cfg n w v ↔ policies.length < v.version + 10 := by
  obtain ⟨node, hfound⟩ := hready.node 0
  have hid : node.nodeId = n := hnode hfound
  rw [hfound] at hget
  have hchoice := chooseRollback_newest (Nat.zero_lt_succ 9) hv
  have hgrpc : ComesToDeploy cfg n v.rulesYaml v.options (rollbackPolicy cfg n v.version) w ↔
      policies.length < v.version + 10 := by
    refine (comesToDeploy_read hget).trans ((comesToDeploy_read hhistory).trans ?_)
    dsimp only
    rw [hchoice]
    by_cases hlt : policies.length < v.version + 10
    · rw [if_pos hlt]
      refine iff_of_true (.storage 0 (hready.free 0) ?_) hlt
      exact (comesToDeploy_deploy hid).bind
    · rw [if_neg hlt]
      exact iff_of_false not_comesToDeploy_done hlt
  have hrest : ComesToDeploy cfg n v.rulesYaml v.options (restRollbackPolicy cfg n v.version) w ↔
      policies.length < v.version + 10 := by
    refine (comesToDeploy_requireLeader hready.leader).trans ?_
    refine (comesToDeploy_read hget).trans ((comesToDeploy_read hhistory).trans ?_)
    dsimp only
    rw [hchoice]
    by_cases hlt : policies.length < v.version + 10
    · rw [if_pos hlt]
      refine iff_of_true (.storage 0 (hready.free 0) ?_) hlt
      exact comesToDeploy_deploy hid
    · rw [if_neg hlt]
      exact iff_of_false not_comesToDeploy_done hlt
  rw [RollsBackTo, hgrpc, hrest, and_self]

end Deploying

/-! ## The law -/

section Law

variable [Extern] (cfg : ControllerConfig) (calls : List TimedCall) (n : String)

/-- In a backend that has answered the calls, a version of the node can be rolled back to exactly
    when fewer than ten were stored after it. -/
def RollsBackToNewest {σ : Type} [Storage σ] (init : σ) : Prop :=
  ∀ w : World σ, w.storage = Storage.stateAfter calls init → ReadyForRollback n w →
    ∀ v ∈ numbered (policyHistory n (Storage.answers calls init)),
      RollsBackTo cfg n w v ↔
        (policyHistory n (Storage.answers calls init)).length < v.version + 10

theorem MemoryStorage.rollsBackToNewest :
    RollsBackToNewest cfg calls n MemoryStorage.new := by
  intro w hw hready v hv
  have hholds : ∀ m, w.storage.Holds m
      (policyHistory m (Storage.answers calls MemoryStorage.new)) := by
    rw [hw]
    exact Storage.state_of_step (C := fun _ => True) (n := calls.length)
      (I := fun before (s : MemoryStorage) => ∀ m, s.Holds m (policyHistory m before))
      (fun _ _ c _ _ h => MemoryStorage.holds_history_step c h) (fun _ _ => trivial) []
      MemoryStorage.holds_new (by simp)
  refine rollsBackTo_iff_of_reads hready ?_ (fun _ => rfl) ?_ hv
  · intro now node hnode
    exact (MemoryStorage.policyStore.getNode hnode).1
  · intro now
    exact Prod.ext ((hholds n).getPolicyHistory 10) rfl

theorem SqliteStorage.rollsBackToNewest [Rfc3339] [SerdeJson] (hreads : ∀ c ∈ calls, ReadsBack c)
    (hfew : calls.length < 2 ^ 63) : RollsBackToNewest cfg calls n SqliteStorage.inMemory := by
  intro w hw hready v hv
  have hholds : w.storage.HoldsHistory (Storage.answers calls SqliteStorage.inMemory) := by
    rw [hw]
    exact Storage.state_of_step (C := ReadsBack) (n := calls.length)
      (I := fun before (s : SqliteStorage) => s.HoldsHistory before)
      (fun _ _ _ hc hn h => h.step hc (by omega)) hreads []
      SqliteStorage.holdsHistory_inMemory (by simp)
  refine rollsBackTo_iff_of_reads hready ?_ ?_ ?_ hv
  · intro now node hnode
    exact (SqliteStorage.policyStore.getNode hnode).1
  · intro now
    exact Prod.ext rfl (SqliteStorage.reading_snd _)
  · intro now
    show (w.storage.reading fun db => db.getPolicyHistory n 10) = _
    rw [SqliteStorage.reading_eq hholds.sound, (hholds.holds n).getPolicyHistory 10]

end Law

/-- **Which versions can be rolled back to**, in either backend and with either handler: those
    after which fewer than ten were stored. -/
theorem rollsBackTo_iff [Extern] [Rfc3339] [SerdeJson] (cfg : ControllerConfig)
    (calls : List TimedCall) (n : String) :
    RollsBackToNewest cfg calls n MemoryStorage.new ∧
      ((∀ c ∈ calls, ReadsBack c) → calls.length < 2 ^ 63 →
        RollsBackToNewest cfg calls n SqliteStorage.inMemory) :=
  ⟨MemoryStorage.rollsBackToNewest cfg calls n, SqliteStorage.rollsBackToNewest cfg calls n⟩

/-! ## Runs that can be computed -/

/-- A node is registered, and the same rules are stored for it a number of times. -/
def storedTimes (times : Nat) : List TimedCall :=
  (0, .registerNode (Node.new 0 "n" "host" "10.0.0.1:50055" ∅ "")) ::
    List.replicate times (1, .storePolicy (.sample "n" "rules: [a]"))

/-- The first version. -/
def firstVersion : PolicyVersion := ⟨.sample "n" "rules: [a]", 1⟩

/-- The world after these calls. -/
def World.afterStoring {σ : Type} [Storage σ] (init : σ) (times : Nat) : World σ :=
  .init (Storage.stateAfter (storedTimes times) init)

theorem readyForRollback_memory {times : Nat}
    (hnode : ∃ node, (World.afterStoring MemoryStorage.new times).storage.getNode "n" =
      .ok (some node))
    (hfree : ((World.afterStoring MemoryStorage.new times).storage.beginDeploy "n").1 = .ok ()) :
    ReadyForRollback "n" (World.afterStoring MemoryStorage.new times) :=
  ⟨fun _ => hnode, fun _ => hfree, rfl⟩

theorem readyForRollback_sqlite [Rfc3339] [SerdeJson] {times : Nat}
    (hnode : ∃ node, ((World.afterStoring SqliteStorage.inMemory times).storage.reading fun db =>
      db.nodes.getNode "n").1 = .ok (some node))
    (hfree : ((World.afterStoring SqliteStorage.inMemory times).storage.beginDeploy "n").1 =
      .ok ()) :
    ReadyForRollback "n" (World.afterStoring SqliteStorage.inMemory times) :=
  ⟨fun _ => hnode, fun _ => hfree, rfl⟩

theorem storedTimes_readsBack {times : Nat} {c : TimedCall} (hc : c ∈ storedTimes times) :
    ReadsBack c := by
  rcases List.mem_cons.1 hc with rfl | hc
  · exact ⟨trivial, by simp⟩
  · rw [List.eq_of_mem_replicate hc]
    refine ⟨trivial, fun p hp => ?_⟩
    cases hp
    decide

/-- Of two versions the first can be rolled back to, in both backends. -/
theorem rollsBackTo_first :
    @RollsBackTo _ .sample _ plainConfig "n" (.afterStoring MemoryStorage.new 2) firstVersion ∧
      @RollsBackTo _ .sample (@SqliteStorage.instStorage .sample .sample) plainConfig "n"
        (@World.afterStoring _ (@SqliteStorage.instStorage .sample .sample) SqliteStorage.inMemory 2)
        firstVersion := by
  obtain ⟨hmemory, hsqlite⟩ :=
    @rollsBackTo_iff .sample .sample .sample plainConfig (storedTimes 2) "n"
  constructor
  · have hready := @readyForRollback_memory 2 ⟨_, rfl⟩ (by decide)
    exact (hmemory _ rfl hready firstVersion (by decide)).2 (by decide)
  · have hready := @readyForRollback_sqlite .sample .sample 2 ⟨_, rfl⟩ (by decide)
    have hreads := fun c hc => @storedTimes_readsBack 2 c hc
    exact (hsqlite hreads (by decide) _ rfl hready firstVersion (by decide)).2 (by decide)

/-- Of eleven it cannot. -/
theorem not_rollsBackTo_first :
    ¬ ∀ (calls : List TimedCall) (w : World MemoryStorage),
      w.storage = Storage.stateAfter calls MemoryStorage.new → ReadyForRollback "n" w →
        ∀ v ∈ numbered (policyHistory "n" (Storage.answers calls MemoryStorage.new)),
          @RollsBackTo _ .sample _ plainConfig "n" w v := by
  intro h
  have hready := @readyForRollback_memory 11 ⟨_, rfl⟩ (by decide)
  have hfirst : firstVersion ∈ numbered (policyHistory "n"
      (Storage.answers (storedTimes 11) MemoryStorage.new)) := by decide
  have hrolls := h (storedTimes 11) _ rfl hready _ hfirst
  rw [@MemoryStorage.rollsBackToNewest .sample plainConfig (storedTimes 11) "n" _ rfl hready _
    hfirst] at hrolls
  exact absurd hrolls (by decide)

end PaciNet

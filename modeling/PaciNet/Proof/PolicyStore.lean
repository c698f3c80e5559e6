import PaciNet.Storage.Database

/-!
# The policies a backend holds

Both backends number the policies of a node as they are stored. The in-memory one counts the
history it keeps; SQLite asks for the greatest number in the table, and writes the version and the
current policy in two statements. Neither looks at what the other table holds.

`Holds` says of either backend that the policies stored for a node are a given list, oldest first.
Its three rules are all a caller needs to know: storing appends and answers with the new length,
**the current policy is the last of the list, and the history is the list, numbered from one, read
from the end**. Whatever else is called leaves it alone.
-/

set_option autoImplicit false

namespace PaciNet

open Lib

/-! ## Numbered lists -/

/-- Policies as versions, from 1. -/
def numbered (policies : List Policy) : List PolicyVersion :=
  (policies.zipIdx 1).map fun e => { e.1 with version := e.2 }

@[simp] theorem length_numbered (policies : List Policy) :
    (numbered policies).length = policies.length := by
  simp [numbered]

theorem numbered_concat (policies : List Policy) (p : Policy) :
    numbered (policies ++ [p]) = numbered policies ++ [{ p with version := policies.length + 1 }] := by
  simp [numbered, List.zipIdx_append, Nat.add_comm]

/-- The numbers are 1, 2, and so on. -/
theorem map_version_numbered (policies : List Policy) :
    (numbered policies).map PolicyVersion.version = List.range' 1 policies.length := by
  simp only [numbered, List.map_map]
  exact List.zipIdx_map_snd 1 policies

theorem mem_numbered {policies : List Policy} {v : PolicyVersion} (h : v ∈ numbered policies) :
    v.toPolicy ∈ policies ∧ v.version ≤ policies.length := by
  obtain ⟨⟨p, i⟩, hp, rfl⟩ := List.mem_map.1 h
  have hi := List.mem_zipIdx hp
  refine ⟨?_, by dsimp only; omega⟩
  dsimp only
  rw [hi.2.2]
  exact List.getElem_mem _

/-- They grow. -/
theorem numbered_pairwise (policies : List Policy) :
    (numbered policies).Pairwise fun v w => v.version < w.version := by
  have h : ((numbered policies).map PolicyVersion.version).Pairwise (· < ·) := by
    rw [map_version_numbered]
    exact List.pairwise_lt_range'
  exact List.pairwise_map.1 h

/-! ## Rows in order -/

theorem orderedInsert_eq_concat {α : Type} {r : α → α → Prop} [DecidableRel r] {a : α}
    {l : List α} (h : ∀ b ∈ l, ¬ r a b) : l.orderedInsert r a = l ++ [a] := by
  induction l with
  | nil => rfl
  | cons b l ih =>
    rw [List.orderedInsert_of_not_le _ _ (h b List.mem_cons_self), ih fun c hc =>
      h c (List.mem_cons_of_mem b hc)]
    rfl

/-- Rows that are in the reverse order come out reversed. -/
theorem orderBy_eq_reverse {α : Type} {before : α → α → Bool} {rows : List α}
    (h : rows.Pairwise fun a b => before a b = false) : orderBy before rows = rows.reverse := by
  unfold orderBy
  induction rows with
  | nil => rfl
  | cons a rows ih =>
    obtain ⟨ha, h⟩ := List.pairwise_cons.1 h
    rw [List.insertionSort_cons, ih h, List.reverse_cons]
    refine orderedInsert_eq_concat fun b hb => ?_
    rw [ha b (List.mem_reverse.1 hb)]
    exact Bool.false_ne_true

/-- Rows that all read back. -/
theorem readable_map {α β γ : Type} {read : β → StorageResult γ} {f : α → β} {g : α → γ}
    {rows : List α} (h : ∀ a ∈ rows, read (f a) = .ok (g a)) :
    readable read (rows.map f) = rows.map g := by
  unfold readable
  induction rows with
  | nil => rfl
  | cons a rows ih =>
    rw [List.map_cons, List.filterMap_cons, h a List.mem_cons_self, ih fun b hb =>
      h b (List.mem_cons_of_mem a hb)]
    rfl

/-! ## In memory -/

/-- The call neither stores a policy of the node nor removes it. -/
def StorageCall.LeavesPolicies (nodeId : String) : StorageCall → Prop
  | .storePolicy p => p.nodeId ≠ nodeId
  | .removeNode m => m ≠ nodeId
  | _ => True

namespace MemoryStorage

/-- The policies stored for a node. -/
structure Holds (s : MemoryStorage) (nodeId : String) (policies : List Policy) : Prop where
  versions : s.versionsOf nodeId = numbered policies
  current : s.policies.get? nodeId = policies.getLast?

variable {s : MemoryStorage} {nodeId : String} {policies : List Policy}

theorem holds_new (nodeId : String) : new.Holds nodeId [] := ⟨rfl, rfl⟩

theorem Holds.getPolicy (h : s.Holds nodeId policies) :
    s.getPolicy nodeId = .ok policies.getLast? :=
  congrArg _ h.current

theorem Holds.getPolicyHistory (h : s.Holds nodeId policies) (limit : Nat) :
    s.getPolicyHistory nodeId limit = .ok ((numbered policies).reverse.take limit) := by
  rw [MemoryStorage.getPolicyHistory, h.versions]

theorem Holds.storePolicy {p : Policy} (h : s.Holds p.nodeId policies) :
    (s.storePolicy p).1 = .ok (policies.length + 1) ∧
      (s.storePolicy p).2.Holds p.nodeId (policies ++ [p]) := by
  have hlength : (s.versionsOf p.nodeId).length = policies.length := by
    rw [h.versions, length_numbered]
  refine ⟨?_, ?_, ?_⟩
  · show Except.ok ((s.versionsOf p.nodeId).length + 1) = _
    rw [hlength]
  · show ((s.policyVersions.insert p.nodeId _).lookup p.nodeId).getD [] = _
    rw [AList.lookup_insert, hlength, h.versions, numbered_concat]
    rfl
  · show (s.policies.insert p).get? p.nodeId = _
    rw [Table.get?_insert_self, List.getLast?_concat]

theorem Holds.call_leaves (h : s.Holds nodeId policies) (now : DateTime) {c : StorageCall}
    (hc : c.LeavesPolicies nodeId) : (Storage.call now c s).2.Holds nodeId policies := by
  rw [call_snd]
  cases c with
  | storePolicy p =>
    have hne : nodeId ≠ p.nodeId := Ne.symm hc
    refine ⟨?_, (Table.get?_insert_ne hne).trans h.current⟩
    show ((s.policyVersions.insert p.nodeId _).lookup nodeId).getD [] = _
    rw [AList.lookup_insert_ne hne]
    exact h.versions
  | removeNode m =>
    have hne : nodeId ≠ m := Ne.symm hc
    refine ⟨?_, ?_⟩
    · show ((s.policyVersions.erase m).lookup nodeId).getD [] = _
      rw [AList.lookup_erase_ne hne]
      exact h.versions
    · show (s.policies.erase m).get? nodeId = _
      rw [Table.get?_erase, if_neg hne]
      exact h.current
  | _ => exact ⟨h.versions, h.current⟩

end MemoryStorage

/-! ## In SQLite -/

/-- The cutoff of a call, if it has one, is an instant. -/
def StorageCall.CutoffInRange (now : DateTime) : StorageCall → Prop
  | .markStaleNodes threshold => (addDuration now (-threshold)).isSome = true
  | _ => True

/-- The calls that write nodes or policies. -/
def StorageCall.writesCore : StorageCall → Bool
  | .registerNode _ | .removeNode _ | .updateHeartbeat _ _ _ | .updateNodeState _ _
  | .storePolicy _ | .markStaleNodes _ | .updateAnnotations _ _ _ => true
  | _ => false

/-- The tables of nodes and policies. -/
def Database.core (db : Database) :
    NodesTable × Table PolicyRow.nodeId × List PolicyVersionRow :=
  (db.nodes, db.policies, db.policyVersions)

/-- What the two tables hold for a node. -/
def Database.policiesOf (nodeId : String) (db : Database) :
    Option PolicyRow × List PolicyVersionRow :=
  (db.policies.get? nodeId, db.policyVersions.filter fun row => row.nodeId == nodeId)

theorem Database.policiesOf_of_core {db db' : Database} {nodeId : String}
    (h : db'.core = db.core) : db'.policiesOf nodeId = db.policiesOf nodeId := by
  obtain ⟨-, h⟩ := Prod.ext_iff.1 h
  obtain ⟨hpolicies, hversions⟩ := Prod.ext_iff.1 h
  unfold policiesOf
  exact Prod.ext (congrArg (fun t => Table.get? t nodeId) hpolicies)
    (congrArg (List.filter fun row => row.nodeId == nodeId) hversions)

/-- Other nodes' policies are left alone by a removal. -/
theorem Database.policiesOf_removeNode {m nodeId : String} (hm : m ≠ nodeId) (db : Database) :
    (db.removeNode m).2.policiesOf nodeId = db.policiesOf nodeId := by
  unfold Database.removeNode
  split
  · have hrows : ((db.policyVersions.filter fun row => row.nodeId != m).filter fun row =>
        row.nodeId == nodeId) = db.policyVersions.filter fun row => row.nodeId == nodeId := by
      rw [List.filter_filter]
      refine List.filter_congr fun row _ => ?_
      by_cases hrow : row.nodeId = nodeId
      · simp [hrow, Ne.symm hm]
      · simp [hrow]
    exact Prod.ext (by simp [Database.policiesOf, Ne.symm hm]) hrows
  · rfl

/-- So they are when a policy is stored. -/
theorem Database.policiesOf_storePolicy [Rfc3339] {p : Policy} {nodeId : String}
    (hp : p.nodeId ≠ nodeId) (db : Database) :
    ((Sql.storePolicy p).run db).2.policiesOf nodeId = db.policiesOf nodeId := by
  rw [Sql.run_storePolicy]
  split
  · refine Prod.ext (Table.get?_insert_ne (Ne.symm hp)) ?_
    have hrow : ((PolicyVersionRow.ofPolicy p (db.nextVersion p.nodeId)).nodeId == nodeId) = false :=
      beq_eq_false_iff_ne.2 hp
    simp only [Database.policiesOf, List.filter_append, List.filter_cons, hrow]
    simp
  · rfl

/-- The other methods that write nodes keep each row in its place. -/
theorem NodesTable.isSome_get?_setOffline (ids : List String) (t : NodesTable) (m : String) :
    ((ids.foldl (fun (t : NodesTable) id =>
      t.modify id (fun row => { row with state := "offline" }) fun _ => rfl) t).get? m).isSome =
        (t.get? m).isSome := by
  induction ids generalizing t with
  | nil => rfl
  | cons id ids ih =>
    rw [List.foldl_cons, ih, Table.isSome_get?_modify]

theorem NodesTable.isSome_get?_updateNodeState (t : NodesTable) (nodeId : String)
    (state : NodeState) (m : String) :
    ((t.updateNodeState nodeId state).2.get? m).isSome = (t.get? m).isSome := by
  unfold updateNodeState
  split
  · rfl
  · split
    · rfl
    · split
      · rfl
      · rw [Table.isSome_get?_modify]

theorem NodesTable.isSome_get?_updateAnnotations (t : NodesTable) (nodeId : String) (set : Labels)
    (remove : List String) (m : String) :
    ((t.updateAnnotations nodeId set remove).2.get? m).isSome = (t.get? m).isSome := by
  unfold updateAnnotations
  split
  · rfl
  · rw [Table.isSome_get?_modify]

theorem NodesTable.isSome_get?_markStaleNodes [Rfc3339] {t t' : NodesTable} {now : DateTime}
    {threshold : Int} {r : StorageResult (List String)}
    (h : t.markStaleNodes now threshold = some (r, t')) (m : String) :
    (t'.get? m).isSome = (t.get? m).isSome := by
  obtain ⟨cutoff, -, h⟩ := Option.bind_eq_some_iff.1 h
  obtain ⟨-, rfl⟩ := Prod.ext_iff.1 (Option.some.inj h)
  exact isSome_get?_setOffline _ t m

/-- Only a registration adds a node. -/
theorem NodesTable.contains_after [Rfc3339] {t t' : NodesTable} {now : DateTime}
    {c : StorageCall} (h : t.after now c = some t') (hc : ∀ m, c ≠ .removeNode m) (m : String) :
    t'.contains m = true ↔
      t.contains m = true ∨ ∃ node, c = .registerNode node ∧ node.nodeId = m := by
  have hsame : (∀ node, c ≠ .registerNode node) → (t'.get? m).isSome = (t.get? m).isSome →
      (t'.contains m = true ↔
        t.contains m = true ∨ ∃ node, c = .registerNode node ∧ node.nodeId = m) := by
    intro hother hrows
    rw [Table.contains_eq, Table.contains_eq, hrows]
    constructor
    · exact Or.inl
    · rintro (hm | ⟨node, hnode, -⟩)
      · exact hm
      · exact absurd hnode (hother node)
  cases c with
  | registerNode node =>
    obtain rfl : (t.registerNode node).2 = t' := Option.some.inj h
    unfold registerNode
    split
    · rename_i hnode
      constructor
      · exact Or.inl
      · rintro (hm | ⟨node', hnode', rfl⟩)
        · exact hm
        · cases hnode'
          exact hnode
    · have hkey : NodeRow.nodeId (.ofNode node) = node.nodeId := rfl
      rw [Table.contains_eq, Table.contains_eq, Table.get?_insert, hkey]
      by_cases hm : m = node.nodeId
      · rw [if_pos hm]
        exact iff_of_true rfl (.inr ⟨node, rfl, hm.symm⟩)
      · rw [if_neg hm]
        constructor
        · exact Or.inl
        · rintro (h | ⟨node', hnode', rfl⟩)
          · exact h
          · cases hnode'
            exact absurd rfl hm
  | removeNode n => exact absurd rfl (hc n)
  | updateHeartbeat n state uptime =>
    obtain rfl := Option.some.inj h
    refine hsame (by simp) ?_
    unfold updateHeartbeat
    rw [Table.isSome_get?_modify]
  | updateNodeState n state =>
    obtain rfl := Option.some.inj h
    exact hsame (by simp) (isSome_get?_updateNodeState _ _ _ _)
  | updateAnnotations n set remove =>
    obtain rfl := Option.some.inj h
    exact hsame (by simp) (isSome_get?_updateAnnotations _ _ _ _ _)
  | markStaleNodes threshold =>
    obtain ⟨⟨r, t''⟩, hr, rfl⟩ := Option.map_eq_some_iff.1 h
    exact hsame (by simp) (isSome_get?_markStaleNodes hr m)
  | _ =>
    obtain rfl := Option.some.inj h
    exact hsame (by simp) rfl

namespace SqliteStorage

/-- The policies stored for a node: both tables hold them, and they read back. -/
structure Holds (s : SqliteStorage) (nodeId : String) (policies : List Policy) : Prop where
  sound : s.poisoned = false
  tables : s.conn.policiesOf nodeId =
    (policies.getLast?.map .ofPolicy,
      (numbered policies).map fun v => .ofPolicy v.toPolicy v.version)
  reads : ∀ p ∈ policies, p.Ranged ∧ isRfc3339 p.deployedAt = true
  few : policies.length < 2 ^ 63

variable {s : SqliteStorage} {nodeId : String} {policies : List Policy}

section Others

variable [Rfc3339] [SerdeJson]

/-- Calls that are about neither nodes nor policies. -/
theorem call_core (now : DateTime) {c : StorageCall} (hc : c.writesCore = false) :
    (Storage.call now c s).2.conn.core = s.conn.core ∧
      (Storage.call now c s).2.poisoned = s.poisoned := by
  cases c with
  | registerNode | removeNode | updateHeartbeat | updateNodeState | storePolicy | markStaleNodes
  | updateAnnotations => cases hc
  | beginDeploy m =>
    show (s.beginDeploy m).2.conn.core = _ ∧ (s.beginDeploy m).2.poisoned = _
    unfold beginDeploy
    split <;> exact ⟨rfl, rfl⟩
  | endDeploy m => exact ⟨rfl, rfl⟩
  | getPoliciesForNodes ids =>
    show (s.getPoliciesForNodes ids).2.conn.core = _ ∧ (s.getPoliciesForNodes ids).2.poisoned = _
    rw [getPoliciesForNodes_snd]
    exact ⟨rfl, rfl⟩
  | storeFsmDefinition | deleteFsmDefinition | pruneEvents | storeTemplate | deleteTemplate =>
    exact ⟨locked_keeps fun db => rfl, poisoned_locked _⟩
  | storeCounters | storeFlowCounters =>
    refine ⟨locked_keeps fun db => ?_, poisoned_locked _⟩
    simp only [Database.storeCounters, Database.storeFlowCounters]
    split <;> rfl
  | recordDeployment record =>
    refine ⟨locked_keeps fun db => ?_, poisoned_locked _⟩
    unfold Database.recordDeployment
    split
    · rfl
    · split <;> rfl
  | storeFsmInstance | updateFsmInstance | storeEvent | storeAudit | storeWebhookDelivery =>
    refine ⟨locked_keeps fun db => ?_, poisoned_locked _⟩
    simp only [Database.storeFsmInstance, Database.updateFsmInstance, Database.storeEvent,
      Database.storeAudit, Database.storeWebhookDelivery]
    split <;> rfl
  | _ => exact ⟨congrArg (fun s => s.conn.core) (reading_snd _), poisoned_locked _⟩

/-- What a call does to the policies of a node that are not its own. -/
theorem call_leaves (now : DateTime) {c : StorageCall} (hc : c.LeavesPolicies nodeId)
    (hcut : c.CutoffInRange now) :
    (Storage.call now c s).2.conn.policiesOf nodeId = s.conn.policiesOf nodeId ∧
      (Storage.call now c s).2.poisoned = s.poisoned := by
  by_cases hcore : c.writesCore = false
  · obtain ⟨hsame, hpoisoned⟩ := call_core (s := s) now hcore
    exact ⟨Database.policiesOf_of_core hsame, hpoisoned⟩
  cases c with
  | storePolicy p => exact ⟨locked_keeps (Database.policiesOf_storePolicy hc), poisoned_locked _⟩
  | removeNode m =>
    have hkeeps := locked_keeps (s := s) (Database.policiesOf_removeNode hc)
    show (s.removeNode m).2.conn.policiesOf nodeId = _ ∧ (s.removeNode m).2.poisoned = _
    unfold removeNode
    dsimp only
    split
    · exact ⟨hkeeps, poisoned_locked _⟩
    · exact ⟨hkeeps, poisoned_locked (s := s) _⟩
  | markStaleNodes threshold =>
    obtain ⟨method, hmethod⟩ := Option.isSome_iff_exists.1
      ((Sql.isSome_markStaleNodes now threshold).trans hcut)
    show (s.markStaleNodes now threshold).2.conn.policiesOf nodeId = _ ∧
      (s.markStaleNodes now threshold).2.poisoned = _
    rw [markStaleNodes, hmethod]
    refine ⟨locked_keeps fun db => ?_, poisoned_locked _⟩
    obtain ⟨r, -, hr⟩ := Sql.run_of_markStaleNodes db hmethod
    rw [hr]
    rfl
  | updateNodeState m state =>
    refine ⟨locked_keeps fun db => ?_, poisoned_locked _⟩
    rw [Sql.run_updateNodeState]
    rfl
  | updateAnnotations m set remove =>
    refine ⟨locked_keeps fun db => ?_, poisoned_locked _⟩
    rw [Sql.run_updateAnnotations]
    rfl
  | registerNode | updateHeartbeat => exact ⟨locked_keeps fun db => rfl, poisoned_locked _⟩
  | _ => exact absurd rfl hcore

/-- The nodes after a call are what their table says on its own. -/
theorem call_nodes (now : DateTime) (c : StorageCall) (hsound : s.poisoned = false)
    (hcut : c.CutoffInRange now) :
    s.conn.nodes.after now c = some (Storage.call now c s).2.conn.nodes := by
  by_cases hcore : c.writesCore = false
  · obtain ⟨hsame, -⟩ := call_core (s := s) now hcore
    have hnodes : (Storage.call now c s).2.conn.nodes = s.conn.nodes := congrArg Prod.fst hsame
    rw [hnodes]
    cases c <;> first | rfl | cases hcore
  cases c with
  | registerNode node =>
    show some _ = some (s.locked _).2.conn.nodes
    rw [locked_eq hsound]
    rfl
  | updateHeartbeat m state uptime =>
    show some _ = some (s.locked _).2.conn.nodes
    rw [locked_eq hsound]
    rfl
  | removeNode m =>
    show some _ = some (s.removeNode m).2.conn.nodes
    rw [removeNode_eq hsound]
    unfold Database.removeNode
    split
    · rfl
    · rename_i hm
      refine congrArg some (Table.ext (List.filter_eq_self.2 fun row hrow => ?_))
      rw [decide_eq_true_iff]
      rintro rfl
      exact hm (List.any_eq_true.2 ⟨row, hrow, decide_eq_true rfl⟩)
  | updateNodeState m state =>
    show some _ = some (s.locked _).2.conn.nodes
    rw [locked_eq hsound, Sql.run_updateNodeState]
    rfl
  | updateAnnotations m set remove =>
    show some _ = some (s.locked _).2.conn.nodes
    rw [locked_eq hsound, Sql.run_updateAnnotations]
    rfl
  | storePolicy p =>
    show some _ = some (s.locked _).2.conn.nodes
    rw [locked_eq hsound, Sql.run_storePolicy]
    split <;> rfl
  | markStaleNodes threshold =>
    obtain ⟨method, hmethod⟩ := Option.isSome_iff_exists.1
      ((Sql.isSome_markStaleNodes now threshold).trans hcut)
    obtain ⟨r, hr, hrun⟩ := Sql.run_of_markStaleNodes s.conn hmethod
    show (s.conn.nodes.markStaleNodes now threshold).map Prod.snd =
      some (s.markStaleNodes now threshold).2.conn.nodes
    rw [markStaleNodes, hmethod]
    dsimp only
    rw [locked_eq hsound, hrun, hr]
    rfl
  | _ => exact absurd rfl hcore

theorem Holds.call_leaves (h : s.Holds nodeId policies) (now : DateTime) {c : StorageCall}
    (hc : c.LeavesPolicies nodeId) (hcut : c.CutoffInRange now) :
    (Storage.call now c s).2.Holds nodeId policies := by
  obtain ⟨htables, hpoisoned⟩ := SqliteStorage.call_leaves (s := s) now hc hcut
  exact ⟨hpoisoned.trans h.sound, htables.trans h.tables, h.reads, h.few⟩

end Others

theorem Holds.getPolicy (h : s.Holds nodeId policies) :
    s.conn.getPolicy nodeId = .ok policies.getLast? := by
  have hcurrent := congrArg Prod.fst h.tables
  unfold Database.getPolicy
  rw [show s.conn.policies.get? nodeId = policies.getLast?.map PolicyRow.ofPolicy from hcurrent]
  cases hlast : policies.getLast? with
  | none => rfl
  | some p =>
    obtain ⟨hranged, hdeployed⟩ := h.reads p (List.mem_of_getLast? hlast)
    dsimp only [Option.map_some]
    rw [rowToPolicy_ofPolicy hranged hdeployed]
    rfl

theorem Holds.getPolicyHistory (h : s.Holds nodeId policies) (limit : Nat) :
    s.conn.getPolicyHistory nodeId limit = .ok ((numbered policies).reverse.take limit) := by
  have hrows := congrArg Prod.snd h.tables
  have hversion : ∀ v ∈ numbered policies, asI64 v.version = v.version := by
    intro v hv
    have hlt : v.version < 2 ^ 63 := Nat.lt_of_le_of_lt (mem_numbered hv).2 h.few
    exact asI64_of_lt hlt
  -- the rows stand in the order of their numbers, so they come out in reverse
  have hpairwise : ((numbered policies).map fun v =>
      PolicyVersionRow.ofPolicy v.toPolicy v.version).Pairwise
        fun a b => decide (b.version ≤ a.version) = false := by
    refine List.pairwise_map.2 ((numbered_pairwise policies).imp_of_mem ?_)
    intro v w hv hw hlt
    rw [PolicyVersionRow.version_ofPolicy, PolicyVersionRow.version_ofPolicy, hversion v hv,
      hversion w hw]
    exact decide_eq_false (not_le.2 (Int.ofNat_lt.2 hlt))
  unfold Database.getPolicyHistory
  dsimp only [Database.policiesOf] at hrows
  dsimp only
  rw [hrows, orderBy_eq_reverse hpairwise, ← List.map_reverse, ← List.map_take]
  rw [readable_map (g := id), List.map_id]
  intro v hv
  have hmem := List.mem_reverse.1 (List.mem_of_mem_take hv)
  obtain ⟨hp, hle⟩ := mem_numbered hmem
  obtain ⟨hranged, hdeployed⟩ := h.reads _ hp
  have hfew := h.few
  exact rowToPolicyVersion_ofPolicy hranged hdeployed (by omega)

/-- The greatest number is the number of versions. -/
theorem Holds.maxVersion (h : s.Holds nodeId policies) :
    (s.conn.maxVersion nodeId).getD 0 = policies.length := by
  have hrows := congrArg Prod.snd h.tables
  have hmax : s.conn.maxVersion nodeId =
      ((List.range' 1 policies.length).map fun (i : Nat) => (i : Int)).max? := by
    unfold Database.maxVersion
    dsimp only [Database.policiesOf] at hrows
    rw [hrows, ← map_version_numbered, List.map_map, List.map_map]
    refine congrArg _ (List.map_congr_left fun v hv => ?_)
    have hlt : v.version < 2 ^ 63 := Nat.lt_of_le_of_lt (mem_numbered hv).2 h.few
    rw [Function.comp_apply, Function.comp_apply, PolicyVersionRow.version_ofPolicy]
    exact asI64_of_lt hlt
  rw [hmax]
  cases hlength : policies.length with
  | zero => rfl
  | succ n =>
    have hgreatest : ((List.range' 1 (n + 1)).map fun (i : Nat) => (i : Int)).max? =
        some ((n : Int) + 1) := by
      rw [List.max?_eq_some_iff]
      constructor
      · exact List.mem_map.2 ⟨n + 1, by simp, by simp⟩
      · intro b hb
        obtain ⟨i, hi, rfl⟩ := List.mem_map.1 hb
        have := List.mem_range'.1 hi
        omega
    rw [hgreatest]
    rfl

theorem Holds.nextVersion (h : s.Holds nodeId policies) :
    s.conn.nextVersion nodeId = policies.length + 1 := by
  have hfew := h.few
  unfold Database.nextVersion asUInt64
  rw [h.maxVersion]
  omega

theorem Holds.storePolicy [Rfc3339] {p : Policy} (h : s.Holds p.nodeId policies)
    (hnode : s.conn.nodes.contains p.nodeId = true) (hranged : p.Ranged)
    (hdeployed : isRfc3339 p.deployedAt = true) (hfew : policies.length + 1 < 2 ^ 63) :
    s.locked (Sql.storePolicy p).run =
        (.ok (policies.length + 1), (s.locked (Sql.storePolicy p).run).2) ∧
      (s.locked (Sql.storePolicy p).run).2.Holds p.nodeId (policies ++ [p]) := by
  rw [locked_eq h.sound, Sql.run_storePolicy, if_pos hnode, h.nextVersion]
  refine ⟨rfl, h.sound, ?_, ?_, ?_⟩
  · have hrows := congrArg Prod.snd h.tables
    dsimp only [Database.policiesOf] at hrows ⊢
    have hcurrent : (s.conn.policies.insert (.ofPolicy p)).get? p.nodeId = some (.ofPolicy p) :=
      Table.get?_insert_self _ _
    rw [List.filter_append, hrows, hcurrent, List.getLast?_concat, numbered_concat,
      List.map_append]
    have hlast : [PolicyVersionRow.ofPolicy p (policies.length + 1)].filter
        (fun row => row.nodeId == p.nodeId) = [PolicyVersionRow.ofPolicy p (policies.length + 1)] :=
      List.filter_cons_of_pos (beq_self_eq_true p.nodeId)
    rw [hlast]
    rfl
  · intro q hq
    rcases List.mem_append.1 hq with hq | hq
    · exact h.reads q hq
    · rw [List.mem_singleton.1 hq]
      exact ⟨hranged, hdeployed⟩
  · rw [List.length_append]
    exact hfew

end SqliteStorage

end PaciNet

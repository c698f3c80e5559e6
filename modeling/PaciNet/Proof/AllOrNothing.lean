import PaciNet.Storage.Database

/-!
# When a failed write leaves nothing behind

Four methods of `SqliteStorage` read and then write, none of them in a transaction. A statement
that fails rolls itself back, and only itself, so what counts is how many statements of a call
write: `update_node_state` and `update_annotations` write once, and last, while `store_policy`
writes two tables and `mark_stale_nodes` one row after the other.

**A call that returns an error leaves the database as it was, unless a statement of it fails after
one that wrote.** For `store_policy` that is the second insert, and the version it leaves behind is
one that was never current; for `mark_stale_nodes` it is any update but the first.
-/

set_option autoImplicit false

namespace PaciNet

open Lib

/-- A call of one of the four methods, with the clock reading it takes. -/
inductive WriteCall where
  | storePolicy (policy : Policy)
  | markStaleNodes (now : DateTime) (threshold : Int)
  | updateNodeState (nodeId : String) (state : NodeState)
  | updateAnnotations (nodeId : String) (set : Labels) (remove : List String)

@[reducible] def WriteCall.Res : WriteCall → Type
  | storePolicy _ => Nat
  | markStaleNodes _ _ => List String
  | updateNodeState _ _ => Bool
  | updateAnnotations _ _ _ => Unit

/-- The statements of the call. `none` is a panic, and then there are none. -/
def WriteCall.method : (c : WriteCall) → Option (Sql (StorageResult c.Res))
  | storePolicy policy => some (Sql.storePolicy policy)
  | markStaleNodes now threshold => Sql.markStaleNodes now threshold
  | updateNodeState nodeId state => some (Sql.updateNodeState nodeId state)
  | updateAnnotations nodeId set remove => some (Sql.updateAnnotations nodeId set remove)

def Fault.isFailure : Fault → Bool
  | .fails _ => true
  | _ => false

/-- The stale nodes a call reads: all of them, unless a step fails before the last. -/
def Database.staleIds [Rfc3339] (db : Database) (cutoff : DateTime) (fault : Fault) :
    List String :=
  fault.read ((db.nodes.rows.filter (Database.isStale cutoff)).map NodeRow.nodeId)

/-- A statement of the call fails after an earlier one wrote. -/
def WriteCall.FailsMidway [Rfc3339] (faults : Nat → Fault) (db : Database) : WriteCall → Prop
  | storePolicy policy =>
    db.nodes.contains policy.nodeId = true ∧ (faults 0).isFailure = false ∧
      (faults 1).isFailure = false ∧ (faults 2).isFailure = true
  | markStaleNodes now threshold =>
    ∃ cutoff, addDuration now (-threshold) = some cutoff ∧ (faults 0).isFailure = false ∧
      (faults 1).isFailure = false ∧
      ∃ i, 1 ≤ i ∧ i < (db.staleIds cutoff (faults 0)).length ∧
        (faults (i + 1)).isFailure = true
  | updateNodeState _ _ => False
  | updateAnnotations _ _ _ => False

/-! ## Statements -/

theorem isFailure_iff {fault : Fault} : fault.isFailure = true ↔ ∃ e, fault = .fails e := by
  cases fault with
  | none => simp [Fault.isFailure]
  | fails e => simp [Fault.isFailure]
  | stops rows => simp [Fault.isFailure]

/-- Only rows that are there are read. -/
theorem mem_of_mem_read {α : Type} {fault : Fault} {rows : List α} {row : α}
    (h : row ∈ fault.read rows) : row ∈ rows := by
  cases fault with
  | none => exact h
  | fails e => exact h
  | stops n => exact List.mem_of_mem_take h

section Statements

variable [Rfc3339]

/-- A statement that meets with no failure does what it does. -/
theorem exec_of_not_failure {fault : Fault} (h : fault.isFailure = false) (o : Statement)
    (db : Database) : connection.exec fault o db = db.execute fault o := by
  cases fault with
  | none => rfl
  | fails e => cases h
  | stops rows => rfl

theorem exec_of_failure {fault : Fault} (h : fault.isFailure = true) (o : Statement)
    (db : Database) : ∃ e, connection.exec fault o db = .error e := by
  obtain ⟨e, rfl⟩ := isFailure_iff.1 h
  exact ⟨e, rfl⟩

theorem reads_selectState (nodeId : String) : connection.Reads (.selectState nodeId) := by
  intro fault db r db' h
  cases fault <;> cases h <;> rfl

theorem reads_selectAnnotations (nodeId : String) :
    connection.Reads (.selectAnnotations nodeId) := by
  intro fault db r db' h
  cases fault <;> cases h <;> rfl

end Statements

/-! ## The methods that write once -/

section Once

variable [Rfc3339]

theorem updateNodeState_allOrNothing (nodeId : String) (state : NodeState) :
    connection.AllOrNothing (Sql.updateNodeState nodeId state) := by
  unfold Sql.updateNodeState
  simp only [Prog.bind_eq, Prog.perform_bind, Prog.pure_eq]
  refine Engine.allOrNothing_read (reads_selectState nodeId) fun current => ?_
  cases current with
  | none => exact Engine.allOrNothing_done _
  | some text =>
    cases hparse : parseState text with
    | error e =>
      dsimp only
      rw [hparse]
      exact Engine.allOrNothing_done _
    | ok state' =>
      dsimp only
      rw [hparse]
      dsimp only
      split
      · exact Engine.allOrNothing_done _
      · exact Engine.allOrNothing_last fun r => ⟨true, rfl⟩

theorem updateAnnotations_allOrNothing (nodeId : String) (set : Labels) (remove : List String) :
    connection.AllOrNothing (Sql.updateAnnotations nodeId set remove) := by
  unfold Sql.updateAnnotations
  simp only [Prog.bind_eq, Prog.perform_bind, Prog.pure_eq]
  refine Engine.allOrNothing_read (reads_selectAnnotations nodeId) fun annotations => ?_
  cases annotations with
  | none => exact Engine.allOrNothing_done _
  | some annotations => exact Engine.allOrNothing_last fun r => ⟨(), rfl⟩

end Once

/-! ## `store_policy` -/

section StorePolicy

variable [Rfc3339]

/-- The insert of a version meets a failure or misses its node, or it inserts. -/
theorem exec_insertPolicyVersion {fault : Fault} {db : Database} (row : PolicyVersionRow)
    (h : ¬ (fault.isFailure = false ∧ db.nodes.contains row.nodeId = true)) :
    ∃ e, connection.exec fault (.insertPolicyVersion row) db = .error e := by
  by_cases hfault : fault.isFailure = true
  · exact exec_of_failure hfault _ db
  · rw [Bool.not_eq_true] at hfault
    have hnode : ¬ db.nodes.contains row.nodeId = true := fun hnode => h ⟨hfault, hnode⟩
    rw [exec_of_not_failure hfault, db.execute_insertPolicyVersion_error _ hnode]
    exact ⟨_, rfl⟩

theorem storePolicy_iff (policy : Policy) (faults : Nat → Fault) (db : Database) :
    (∀ e, (connection.run (Sql.storePolicy policy) faults db).1 = .error e →
      (connection.run (Sql.storePolicy policy) faults db).2 = db) ↔
    ¬ (WriteCall.storePolicy policy).FailsMidway faults db := by
  unfold Sql.storePolicy WriteCall.FailsMidway
  simp only [Prog.bind_eq, Prog.perform_bind, Prog.pure_eq]
  by_cases h0 : (faults 0).isFailure = true
  · obtain ⟨e, he⟩ := exec_of_failure h0 (.selectMaxVersion policy.nodeId) db
    rw [Engine.run_call_of_error he]
    constructor
    · rintro - ⟨-, hfirst, -⟩
      rw [h0] at hfirst
      cases hfirst
    · intro _ _ _
      rfl
  rw [Bool.not_eq_true] at h0
  rw [Engine.run_call_of_ok (exec_of_not_failure h0 (.selectMaxVersion policy.nodeId) db)]
  by_cases h1 : (faults 1).isFailure = false ∧ db.nodes.contains policy.nodeId = true
  · obtain ⟨h1, hnode⟩ := h1
    rw [Engine.run_call_of_ok ((exec_of_not_failure h1 _ db).trans
      (db.execute_insertPolicyVersion _ hnode))]
    by_cases h2 : (faults 2).isFailure = true
    · -- the version is there and the policy is not
      obtain ⟨e, he⟩ := exec_of_failure h2 (.replacePolicy (.ofPolicy policy)) _
      rw [Engine.run_call_of_error he]
      constructor
      · intro h
        have hrows := congrArg (fun db => db.policyVersions.length) (h e rfl)
        simp at hrows
      · intro h
        exact absurd ⟨hnode, h0, h1, h2⟩ h
    · rw [Bool.not_eq_true] at h2
      rw [Engine.run_call_of_ok ((exec_of_not_failure h2 _ _).trans
        (Database.execute_replacePolicy _ _ hnode))]
      constructor
      · rintro - ⟨-, -, -, hthird⟩
        rw [h2] at hthird
        cases hthird
      · intro _ e he
        cases he
  · -- the first insert fails, and nothing was written before it
    obtain ⟨e, he⟩ := exec_insertPolicyVersion (.ofPolicy policy _) h1
    rw [Engine.run_call_of_error he]
    constructor
    · rintro - ⟨hnode, -, hsecond, -⟩
      exact h1 ⟨hsecond, hnode⟩
    · intro _ _ _
      rfl

end StorePolicy

/-! ## `mark_stale_nodes` -/

section MarkStaleNodes

variable [Rfc3339]

/-- The row of the node says that it is offline. -/
def Database.SaysOffline (db : Database) (id : String) : Prop :=
  (db.nodes.get? id).map NodeRow.state = some "offline"

/-- A node that was read as stale is not offline. -/
theorem not_saysOffline_of_mem {db : Database} {cutoff : DateTime} {fault : Fault} {id : String}
    (h : id ∈ db.staleIds cutoff fault) : ¬ db.SaysOffline id := by
  obtain ⟨row, hrow, rfl⟩ := List.mem_map.1 (mem_of_mem_read h)
  obtain ⟨hmem, hstale⟩ := List.mem_filter.1 hrow
  simp only [Database.isStale, Bool.and_eq_true, bne_iff_ne, ne_eq] at hstale
  intro hoffline
  rw [Database.SaysOffline, Table.mem_rows_iff.1 hmem] at hoffline
  exact hstale.1.1 (Option.some.inj hoffline)

/-- The update of a node that is there. -/
theorem exec_setOffline {fault : Fault} {db : Database} {id : String}
    (hfault : fault.isFailure = false) (hnode : (db.nodes.get? id).isSome = true) :
    ∃ db', connection.exec fault (.updateState id "offline") db = .ok ((), db') ∧
      db'.SaysOffline id := by
  refine ⟨_, exec_of_not_failure hfault (.updateState id "offline") db, ?_⟩
  obtain ⟨row, hrow⟩ := Option.isSome_iff_exists.1 hnode
  simp [Database.SaysOffline, hrow]

/-- Later updates do not bring a node back. -/
theorem saysOffline_kept {fault : Fault} {db db' : Database} {id other : String} {r : Unit}
    (h : connection.exec fault (.updateState other "offline") db = .ok (r, db'))
    (hid : db.SaysOffline id) : db'.SaysOffline id := by
  obtain ⟨row, hrow, -⟩ := Option.map_eq_some_iff.1 hid
  have hafter : ({ db with
      nodes := db.nodes.modify other (fun row => { row with state := "offline" }) fun _ => rfl } :
        Database).SaysOffline id := by
    unfold Database.SaysOffline at hid ⊢
    rw [Table.get?_modify]
    split
    · rw [hrow]
      rfl
    · exact hid
  cases fault with
  | fails e => cases h
  | none =>
    cases h
    exact hafter
  | stops n =>
    cases h
    exact hafter

/-- The update of a state fails only by a failure. -/
theorem exec_setOffline_error_iff (id : String) (fault : Fault) (db : Database) :
    (∃ e, connection.exec fault (.updateState id "offline") db = .error e) ↔
      fault.isFailure = true := by
  constructor
  · rintro ⟨e, he⟩
    by_contra hfault
    rw [exec_of_not_failure (Bool.eq_false_iff.2 hfault)] at he
    cases he
  · intro hfault
    exact exec_of_failure hfault _ db

/-- The loop over ids that were read as stale. -/
theorem setOffline_iff {db : Database} {cutoff : DateTime} {fault : Fault}
    (staleIds ids : List String) (hids : ∀ id ∈ ids, id ∈ db.staleIds cutoff fault)
    (faults : Nat → Fault) :
    (∀ e, (connection.run (Sql.setOffline staleIds ids) faults db).1 = .error e →
      (connection.run (Sql.setOffline staleIds ids) faults db).2 = db) ↔
    ¬ ((faults 0).isFailure = false ∧
      ∃ i, 1 ≤ i ∧ i < ids.length ∧ (faults i).isFailure = true) := by
  unfold Sql.setOffline
  cases ids with
  | nil =>
    constructor
    · rintro - ⟨-, i, -, hi, -⟩
      exact absurd hi (Nat.not_lt_zero _)
    · intro _ e he
      cases he
  | cons id ids =>
    rw [Engine.forEach]
    by_cases hfirst : (faults 0).isFailure = true
    · obtain ⟨e, he⟩ := exec_of_failure hfirst (.updateState id "offline") db
      rw [Engine.run_call_of_error he]
      constructor
      · rintro - ⟨hf, -⟩
        rw [hfirst] at hf
        cases hf
      · intro _ _ _
        rfl
    rw [Bool.not_eq_true] at hfirst
    have hstale := hids id List.mem_cons_self
    have hnode : (db.nodes.get? id).isSome = true := by
      obtain ⟨row, hrow, hid⟩ := List.mem_map.1 (mem_of_mem_read hstale)
      rw [← hid, Table.mem_rows_iff.1 (List.mem_filter.1 hrow).1]
      rfl
    obtain ⟨db', hexec, hoffline⟩ := exec_setOffline hfirst hnode
    rw [Engine.run_call_of_ok hexec]
    -- the first update is not undone by the rest
    have hkept := Engine.run_forEach_keeps (a := staleIds)
      (o := fun id => Statement.updateState id "offline")
      (fun b x d r d' h hd => saysOffline_kept h hd) ids (Engine.later faults) db' hoffline
    have herror := Engine.run_forEach_error_iff (a := staleIds) exec_setOffline_error_iff ids
      (Engine.later faults) db'
    constructor
    · rintro h ⟨-, i, hi, hlen, hfault⟩
      obtain ⟨e, he⟩ := herror.2 ⟨i - 1, by simp at hlen; omega, by
        rw [Engine.later, Nat.sub_add_cancel hi]
        exact hfault⟩
      refine not_saysOffline_of_mem hstale ?_
      rw [← h e he]
      exact hkept
    · intro h e he
      obtain ⟨i, hi, hfault⟩ := herror.1 ⟨e, he⟩
      exact absurd ⟨hfirst, i + 1, Nat.succ_pos i, Nat.succ_lt_succ hi, hfault⟩ h

theorem markStaleNodes_iff (now : DateTime) (threshold : Int) (faults : Nat → Fault)
    (db : Database) :
    (∀ method, Sql.markStaleNodes now threshold = some method → ∀ e,
      (connection.run method faults db).1 = .error e → (connection.run method faults db).2 = db) ↔
    ¬ (WriteCall.markStaleNodes now threshold).FailsMidway faults db := by
  unfold Sql.markStaleNodes WriteCall.FailsMidway
  cases hcutoff : addDuration now (-threshold) with
  | none => simp [hcutoff]
  | some cutoff =>
    simp only [hcutoff, Option.bind_eq_bind, Option.bind_some, Option.pure_def, Option.some.injEq,
      Prog.bind_eq, Prog.perform_bind, forall_eq', exists_eq_left']
    by_cases h0 : (faults 0).isFailure = true
    · obtain ⟨e, he⟩ := exec_of_failure h0 (.selectStale cutoff) db
      rw [Engine.run_call_of_error he]
      constructor
      · rintro - ⟨hfirst, -⟩
        rw [h0] at hfirst
        cases hfirst
      · intro _ _ _
        rfl
    · rw [Bool.not_eq_true] at h0
      rw [Engine.run_call_of_ok (exec_of_not_failure h0 (.selectStale cutoff) db)]
      have hloop := setOffline_iff (db.staleIds cutoff (faults 0)) (db.staleIds cutoff (faults 0))
        (fun id hid => hid) (Engine.later faults)
      refine Iff.trans hloop ?_
      simp only [Engine.later, h0, true_and]

end MarkStaleNodes

/-! ## The four methods -/

/-- **A call that returns an error leaves the database as it was exactly when no statement of it
fails after one that wrote.** -/
theorem allOrNothing_iff [Rfc3339] (c : WriteCall) (faults : Nat → Fault) (db : Database) :
    (∀ method, c.method = some method → ∀ e,
      (connection.run method faults db).1 = .error e → (connection.run method faults db).2 = db) ↔
    ¬ c.FailsMidway faults db := by
  cases c with
  | storePolicy policy =>
    rw [← storePolicy_iff]
    simp [WriteCall.method]
  | markStaleNodes now threshold => exact markStaleNodes_iff now threshold faults db
  | updateNodeState nodeId state =>
    simp only [WriteCall.FailsMidway, not_false_eq_true, iff_true]
    rintro method ⟨⟩ e he
    exact updateNodeState_allOrNothing nodeId state faults db e he
  | updateAnnotations nodeId set remove =>
    simp only [WriteCall.FailsMidway, not_false_eq_true, iff_true]
    rintro method ⟨⟩ e he
    exact updateAnnotations_allOrNothing nodeId set remove faults db e he

/-- A database with one node and nothing stored for it. -/
def oneNode : Database :=
  (SqliteStorage.inMemory.conn.onNodes
    (SqliteStorage.inMemory.conn.nodes.registerNode
      (Node.new 0 "n" "host" "10.0.0.1:50055" ∅ ""))).2

/-- The disk is full when the third statement runs. -/
def diskFull : Nat → Fault
  | 2 => .fails (.internal "database or disk is full")
  | _ => .none

/-- The version of a policy stays behind when the policy itself is not stored. -/
theorem not_allOrNothing :
    ¬ ∀ (c : WriteCall) (faults : Nat → Fault) (db : Database) (method : Sql (StorageResult c.Res)),
      c.method = some method → ∀ e, ((@connection .sample).run method faults db).1 = .error e →
        ((@connection .sample).run method faults db).2 = db := by
  intro h
  have hpolicy := h (.storePolicy (.sample "n" "rules: [a]")) diskFull oneNode _ rfl _ rfl
  exact absurd (congrArg (fun db => db.policyVersions.length) hpolicy) (by decide)

end PaciNet

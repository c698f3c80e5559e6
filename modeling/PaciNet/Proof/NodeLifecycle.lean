import PaciNet.Lib.Steps
import PaciNet.Storage.Sqlite

/-!
# The states of a node

`can_transition_to` is the table of the changes a node may go through. `update_node_state` asks
it, and `mark_stale_nodes` only makes a change every state but one allows. `update_heartbeat` asks
nothing: it writes the state the agent reports. So does `register_node` of the in-memory backend
with an id that is taken, where the SQLite one refuses the row.

**A run of storage calls keeps to the table exactly when each heartbeat in it reports the state
the node has or one it may go to** — and, in memory, each registration under a taken id does.
-/

set_option autoImplicit false

namespace PaciNet

open Lib

/-- The states of the nodes change along the table, if at all. -/
def Enforced (before after : String → Option NodeState) : Prop :=
  ∀ nodeId s s', before nodeId = some s → after nodeId = some s' → s ≠ s' →
    s.canTransitionTo s' = true

/-- A call changes the states of the nodes it leaves in place along the table. -/
def Enforces {σ : Type} (step : σ → TimedCall → Option σ)
    (stateOf : σ → String → Option NodeState) (s : σ) (c : TimedCall) : Prop :=
  ∀ s', step s c = some s' → Enforced (stateOf s) (stateOf s')

/-- A node with this id is in the state or may go to it. -/
def MayBecome (stateOf : String → Option NodeState) (nodeId : String) (state : NodeState) :
    Prop :=
  ∀ s, stateOf nodeId = some s → s ≠ state → s.canTransitionTo state = true

/-- A heartbeat reports a state the node has or may go to. -/
def HeartbeatKeeps (stateOf : String → Option NodeState) : StorageCall → Prop
  | .updateHeartbeat nodeId state _ => MayBecome stateOf nodeId state
  | _ => True

/-- A registration under an id that is taken does. -/
def RegistrationKeeps (stateOf : String → Option NodeState) : StorageCall → Prop
  | .registerNode node => MayBecome stateOf node.nodeId node.state
  | _ => True

namespace NodeState

/-- Every node may go offline. -/
theorem canTransitionTo_offline {s : NodeState} (h : s ≠ .offline) :
    s.canTransitionTo .offline = true := by
  cases s <;> first | rfl | exact absurd rfl h

end NodeState

section
variable {before after : String → Option NodeState}

/-- A write of one node's state is allowed exactly if the node may go to it. -/
theorem enforced_set_iff {nodeId : String} {state : NodeState}
    (hset : ∀ s, before nodeId = some s → after nodeId = some state)
    (hother : ∀ n, n ≠ nodeId → after n = before n) :
    Enforced before after ↔ MayBecome before nodeId state := by
  constructor
  · intro h s hs hne
    exact h nodeId s state hs (hset s hs) hne
  · intro h n s s' hs hs' hne
    by_cases hn : n = nodeId
    · subst hn
      obtain rfl : state = s' := Option.some.inj ((hset s hs).symm.trans hs')
      exact h s hs hne
    · rw [hother n hn, hs] at hs'
      exact absurd (Option.some.inj hs') hne

/-- Nodes that stay as they are, go offline or follow the table keep to it. -/
theorem enforced_of
    (h : ∀ n s s', before n = some s → after n = some s' →
      s' = s ∨ s' = .offline ∨ s.canTransitionTo s' = true) : Enforced before after := by
  intro n s s' hs hs' hne
  rcases h n s s' hs hs' with rfl | rfl | hcan
  · exact absurd rfl hne
  · exact NodeState.canTransitionTo_offline hne
  · exact hcan

theorem enforced_refl : Enforced before before :=
  enforced_of fun _ _ _ hs hs' => .inl (Option.some.inj (hs'.symm.trans hs))

end

/-! ## In memory -/

namespace MemoryStorage

/-- The state a node is in. -/
def stateOf (s : MemoryStorage) (nodeId : String) : Option NodeState :=
  (s.nodes.get? nodeId).map Node.state

def step (s : MemoryStorage) (c : TimedCall) : Option MemoryStorage :=
  some (Storage.call c.1 c.2 s).2

/-- A call that writes a node's row by a function of the row. -/
theorem stateOf_modify (s : MemoryStorage) (nodeId n : String) {f : Node → Node}
    (hf : ∀ node, (f node).nodeId = node.nodeId) :
    stateOf { s with nodes := s.nodes.modify nodeId f hf } n =
      if n = nodeId then (s.nodes.get? n).map fun node => (f node).state else s.stateOf n := by
  simp only [stateOf, Table.get?_modify]
  split
  · rw [Option.map_map]
    rfl
  · rfl

/-- Each call keeps to the table, but a heartbeat and a registration. -/
theorem enforces_iff (s : MemoryStorage) (c : TimedCall) :
    Enforces step stateOf s c ↔
      HeartbeatKeeps s.stateOf c.2 ∧ RegistrationKeeps s.stateOf c.2 := by
  obtain ⟨now, c⟩ := c
  have hstep : Enforces step stateOf s (now, c) ↔ Enforced s.stateOf (s.after now c).stateOf := by
    rw [← s.call_snd]
    exact ⟨fun h => h _ rfl, fun h s' hs' => Option.some.inj hs' ▸ h⟩
  rw [hstep]
  cases c with
  | registerNode node =>
    simp only [HeartbeatKeeps, RegistrationKeeps, true_and, after]
    refine enforced_set_iff (fun old _ => ?_) fun n hn => ?_
    · rw [stateOf, Table.get?_insert_self]
      rfl
    · rw [stateOf, Table.get?_insert_ne hn]
      rfl
  | updateHeartbeat nodeId state uptime =>
    simp only [HeartbeatKeeps, RegistrationKeeps, and_true, after]
    refine enforced_set_iff (fun old hold => ?_) fun n hn => ?_
    · obtain ⟨node, hnode, -⟩ := Option.map_eq_some_iff.1 hold
      rw [stateOf_modify, if_pos rfl, hnode]
      rfl
    · rw [stateOf_modify, if_neg hn]
  | removeNode nodeId =>
    simp only [HeartbeatKeeps, RegistrationKeeps, and_true, iff_true, after, removeNode]
    refine enforced_of fun n old new hold hnew => .inl ?_
    simp only [stateOf, Table.get?_erase] at hold hnew
    split at hnew
    · exact absurd hnew (by simp)
    · exact Option.some.inj (hnew.symm.trans hold)
  | updateNodeState nodeId state =>
    simp only [HeartbeatKeeps, RegistrationKeeps, and_true, iff_true, after]
    refine enforced_of fun n old new hold hnew => ?_
    rw [stateOf_modify] at hnew
    split at hnew
    · obtain ⟨node, hnode, rfl⟩ := Option.map_eq_some_iff.1 hold
      rw [hnode, Option.map_some, Option.some.injEq] at hnew
      split at hnew
      · -- the change `can_transition_to` was asked about
        rename_i hcan
        exact .inr (.inr (hnew ▸ hcan))
      · exact .inl hnew.symm
    · exact .inl (Option.some.inj (hnew.symm.trans hold))
  | updateAnnotations nodeId set remove =>
    simp only [HeartbeatKeeps, RegistrationKeeps, and_true, iff_true, after]
    refine enforced_of fun n old new hold hnew => .inl ?_
    rw [stateOf_modify] at hnew
    split at hnew <;> exact Option.some.inj (hnew.symm.trans hold)
  | markStaleNodes threshold =>
    simp only [HeartbeatKeeps, RegistrationKeeps, and_true, iff_true, after, markStaleNodes]
    refine enforced_of fun n old new hold hnew => ?_
    obtain ⟨node, hnode, rfl⟩ := Option.map_eq_some_iff.1 hold
    simp only [stateOf, Table.get?_mapAll, hnode, Option.map_some, Option.some.injEq] at hnew
    split at hnew
    · exact .inr (.inl hnew.symm)
    · exact .inl hnew.symm
  | _ => exact iff_of_true enforced_refl ⟨trivial, trivial⟩

end MemoryStorage

/-! ## In SQLite -/

namespace NodesTable

/-- The state a node's column is read as. -/
def stateOf (t : NodesTable) (nodeId : String) : Option NodeState :=
  (t.get? nodeId).bind fun row => (NodeState.fromStr row.state).toOption

def step [Rfc3339] (t : NodesTable) (c : TimedCall) : Option NodesTable := t.after c.1 c.2

theorem stateOf_eq_some {t : NodesTable} {nodeId : String} {s : NodeState} :
    t.stateOf nodeId = some s ↔
      ∃ row, t.get? nodeId = some row ∧ NodeState.fromStr row.state = .ok s := by
  rw [stateOf, Option.bind_eq_some_iff]
  refine exists_congr fun row => and_congr_right fun _ => ?_
  cases NodeState.fromStr row.state <;> simp [Except.toOption]

theorem stateOf_modify_ne (t : NodesTable) {nodeId n : String} {f : NodeRow → NodeRow}
    (hf : ∀ row, (f row).nodeId = row.nodeId) (hn : n ≠ nodeId) :
    stateOf (t.modify nodeId f hf) n = t.stateOf n := by
  rw [stateOf, Table.get?_modify, if_neg hn]
  rfl

/-- Writing a state's name puts the node in that state. -/
theorem stateOf_modify_self {t : NodesTable} {nodeId : String} {f : NodeRow → NodeRow}
    (hf : ∀ row, (f row).nodeId = row.nodeId) {s s' : NodeState}
    (hs : t.stateOf nodeId = some s) (hf' : ∀ row, (f row).state = s'.toString) :
    stateOf (t.modify nodeId f hf) nodeId = some s' := by
  obtain ⟨row, hrow, -⟩ := stateOf_eq_some.1 hs
  refine stateOf_eq_some.2 ⟨f row, ?_, ?_⟩
  · rw [Table.get?_modify, if_pos rfl, hrow]
    rfl
  · rw [hf', NodeState.fromStr_toString]

variable [Rfc3339]

/-- Each call keeps to the table, but a heartbeat. -/
theorem enforces_iff (t : NodesTable) (c : TimedCall) :
    Enforces step stateOf t c ↔ HeartbeatKeeps t.stateOf c.2 := by
  obtain ⟨now, c⟩ := c
  have hsome {t' : NodesTable} (h : t.after now c = some t') :
      Enforces step stateOf t (now, c) ↔ Enforced t.stateOf t'.stateOf :=
    ⟨fun henf => henf _ h, fun henf u hu => Option.some.inj (h.symm.trans hu) ▸ henf⟩
  cases c with
  | registerNode node =>
    rw [hsome rfl]
    refine iff_of_true (enforced_of fun n old new hold hnew => .inl ?_) trivial
    rw [registerNode] at hnew
    split at hnew
    · exact Option.some.inj (hnew.symm.trans hold)
    · -- the row that is added is that of another node
      rename_i hfree
      have hn : n ≠ node.nodeId := by
        rintro rfl
        obtain ⟨row, hrow, -⟩ := stateOf_eq_some.1 hold
        simp [hrow] at hfree
      have hget : (t.insert (.ofNode node)).get? n = t.get? n := Table.get?_insert_ne hn
      rw [stateOf, hget] at hnew
      exact Option.some.inj (hnew.symm.trans hold)
  | updateHeartbeat nodeId state uptime =>
    rw [hsome rfl]
    refine enforced_set_iff (fun old hold => ?_) fun n hn => stateOf_modify_ne t (by intro; rfl) hn
    exact stateOf_modify_self (by intro; rfl) hold (by intro; rfl)
  | removeNode nodeId =>
    rw [hsome rfl]
    refine iff_of_true (enforced_of fun n old new hold hnew => .inl ?_) trivial
    rw [removeNode, stateOf, Table.get?_erase] at hnew
    split at hnew
    · exact absurd hnew (by simp)
    · exact Option.some.inj (hnew.symm.trans hold)
  | updateNodeState nodeId state =>
    rw [hsome rfl]
    refine iff_of_true (enforced_of fun n old new hold hnew => ?_) trivial
    rw [updateNodeState] at hnew
    split at hnew
    · exact .inl (Option.some.inj (hnew.symm.trans hold))
    · rename_i row hrow
      split at hnew
      · exact .inl (Option.some.inj (hnew.symm.trans hold))
      · rename_i current hcurrent
        split at hnew
        · exact .inl (Option.some.inj (hnew.symm.trans hold))
        · rename_i hcan
          by_cases hn : n = nodeId
          · -- the state written is one the state read may go to
            subst hn
            obtain rfl : current = old := by
              obtain ⟨row', hrow', hold⟩ := stateOf_eq_some.1 hold
              obtain rfl : row = row' := Option.some.inj (hrow.symm.trans hrow')
              rw [parseState, hold] at hcurrent
              exact (Except.ok.inj hcurrent).symm
            have hset : some state = some new :=
              (stateOf_modify_self (by intro; rfl) hold (by intro; rfl)).symm.trans hnew
            obtain rfl := Option.some.inj hset
            exact .inr (.inr (by simpa using hcan))
          · rw [stateOf_modify_ne t _ hn] at hnew
            exact .inl (Option.some.inj (hnew.symm.trans hold))
  | updateAnnotations nodeId set remove =>
    rw [hsome rfl]
    refine iff_of_true (enforced_of fun n old new hold hnew => .inl ?_) trivial
    rw [updateAnnotations] at hnew
    split at hnew
    · exact Option.some.inj (hnew.symm.trans hold)
    · obtain ⟨row, hrow, hold⟩ := stateOf_eq_some.1 hold
      obtain ⟨row', hrow', hnew⟩ := stateOf_eq_some.1 hnew
      rw [Table.get?_modify, hrow] at hrow'
      split at hrow' <;> obtain rfl := Option.some.inj hrow'
        <;> exact Except.ok.inj (hnew.symm.trans hold)
  | markStaleNodes threshold =>
    refine iff_of_true (fun t' ht' => enforced_of fun n old new hold hnew => ?_) trivial
    obtain ⟨r, hr, rfl⟩ := Option.map_eq_some_iff.1 (show Option.map _ _ = _ from ht')
    obtain ⟨cutoff, -, hr⟩ := Option.bind_eq_some_iff.1 hr
    obtain rfl := Option.some.inj hr
    obtain ⟨row, hrow, hold⟩ := stateOf_eq_some.1 hold
    obtain ⟨row', hrow', hnew⟩ := stateOf_eq_some.1 hnew
    have hrow' :=
      (Table.get?_foldl_modify t _ (by intro; rfl) (by intro; rfl) n).symm.trans hrow'
    rw [hrow] at hrow'
    split at hrow' <;> obtain rfl := Option.some.inj hrow'
    · exact .inr (.inl (Except.ok.inj (hnew.symm.trans (NodeState.fromStr_toString .offline))))
    · exact .inl (Except.ok.inj (hnew.symm.trans hold))
  | _ =>
    rw [hsome rfl]
    exact iff_of_true enforced_refl trivial

end NodesTable

/-! ## Runs -/

/-- **When a run keeps to the table of transitions**, in either backend. -/
theorem transitionsEnforced_iff [Rfc3339] (calls : List TimedCall) :
    (∀ s : MemoryStorage,
      Along MemoryStorage.step (Enforces MemoryStorage.step MemoryStorage.stateOf) calls s ↔
        Along MemoryStorage.step
          (fun s c => HeartbeatKeeps s.stateOf c.2 ∧ RegistrationKeeps s.stateOf c.2) calls s) ∧
    (∀ t : NodesTable,
      Along NodesTable.step (Enforces NodesTable.step NodesTable.stateOf) calls t ↔
        Along NodesTable.step (fun t c => HeartbeatKeeps t.stateOf c.2) calls t) :=
  ⟨along_congr MemoryStorage.enforces_iff calls, along_congr NodesTable.enforces_iff calls⟩

/-- A node whose agent falls silent and then reports what it was doing before. -/
def lateReport : List TimedCall :=
  [(0, .registerNode
    { nodeId := "n", hostname := "h", agentAddress := "a", labels := ∅, capabilities := ∅
      state := .active, registeredAt := 0, lastHeartbeat := 0, pacgateVersion := ""
      uptimeSeconds := 0, annotations := ∅ }),
   (200 * second, .markStaleNodes (120 * second)),
   (201 * second, .updateHeartbeat "n" .active 201)]

/-- A node that was taken offline is active again at its next heartbeat, in either backend. -/
theorem not_transitionsEnforced :
    ¬ Along MemoryStorage.step (Enforces MemoryStorage.step MemoryStorage.stateOf) lateReport
      .new ∧
    ¬ Along (@NodesTable.step .sample) (Enforces (@NodesTable.step .sample) NodesTable.stateOf)
      lateReport .empty := by
  constructor
  · intro h
    exact absurd (((h.2 _ rfl).2 _ rfl).1 _ rfl "n" .offline .active rfl rfl) (by decide)
  · intro h
    exact absurd (((h.2 _ rfl).2 _ rfl).1 _ rfl "n" .offline .active rfl rfl) (by decide)

end PaciNet

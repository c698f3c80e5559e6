import PaciNet.Proof.PolicyStore

/-!
# Version numbers

In a sequence of calls that removes no node, the versions of a node are numbered from one in the
order they were stored in, each `store_policy` answers with the number it gave, and the reads show
just these versions. In memory that is so of every node. SQLite refuses the policy of a node that
is not registered, by its foreign key, and **the policies it accepts are numbered as in memory**.

The answers are told from those before them: a policy was accepted when `store_policy` did not
return an error.
-/

set_option autoImplicit false

namespace PaciNet

open Lib

/-- The policies of a node that were accepted, oldest first. -/
def accepted (nodeId : String) (before : List AnsweredCall) : List Policy :=
  before.filterMap fun a =>
    match a with
    | ⟨.storePolicy p, .ok _⟩ => if p.nodeId = nodeId then some p else none
    | _ => none

/-- The node was registered. -/
def WasRegistered (nodeId : String) (before : List AnsweredCall) : Prop :=
  ∃ a ∈ before, ∃ node, a.1 = .registerNode node ∧ node.nodeId = nodeId

/-- What a call about policies is answered after others. `known` says which nodes may have a
    policy. -/
def NumberedAnswer (known : String → List AnsweredCall → Prop) (before : List AnsweredCall) :
    AnsweredCall → Prop
  | ⟨.storePolicy p, r⟩ =>
    (known p.nodeId before → r = .ok ((accepted p.nodeId before).length + 1)) ∧
      (¬ known p.nodeId before → ∃ e, r = .error e)
  | ⟨.getPolicy nodeId, r⟩ => r = .ok (accepted nodeId before).getLast?
  | ⟨.getPolicyHistory nodeId limit, r⟩ =>
    ∃ versions, r = .ok versions ∧
      versions = (numbered (accepted nodeId before)).reverse.take limit ∧
      versions.length = min limit (accepted nodeId before).length ∧
      versions.Pairwise fun v w => v.version > w.version
  | _ => True

/-- Every answer of a sequence is as the numbering says. -/
def VersionsNumbered (known : String → List AnsweredCall → Prop) (answers : List AnsweredCall) :
    Prop :=
  ∀ before a after, answers = before ++ a :: after → NumberedAnswer known before a

/-! ## Accepted policies -/

section Accepted

variable {nodeId : String} {before : List AnsweredCall}

theorem accepted_concat_ok (p : Policy) (n : Nat) :
    accepted nodeId (before ++ [⟨.storePolicy p, .ok n⟩]) =
      if p.nodeId = nodeId then accepted nodeId before ++ [p] else accepted nodeId before := by
  unfold accepted
  rw [List.filterMap_append]
  by_cases hp : p.nodeId = nodeId
  · simp [hp]
  · simp [hp]

theorem accepted_concat_error (p : Policy) (e : PaciNetError) :
    accepted nodeId (before ++ [⟨.storePolicy p, .error e⟩]) = accepted nodeId before := by
  unfold accepted
  rw [List.filterMap_append]
  simp

theorem accepted_concat_other {c : StorageCall} (hc : ∀ p, c ≠ .storePolicy p) (r : c.Res) :
    accepted nodeId (before ++ [⟨c, r⟩]) = accepted nodeId before := by
  unfold accepted
  rw [List.filterMap_append]
  cases c with
  | storePolicy p => exact absurd rfl (hc p)
  | _ => simp

theorem length_accepted_le (nodeId : String) (before : List AnsweredCall) :
    (accepted nodeId before).length ≤ before.length := List.length_filterMap_le _ _

end Accepted

/-- The newest versions, newest first. -/
theorem newest_versions (policies : List Policy) (limit : Nat) :
    ((numbered policies).reverse.take limit).length = min limit policies.length ∧
      ((numbered policies).reverse.take limit).Pairwise fun v w => v.version > w.version := by
  refine ⟨by simp, List.Pairwise.sublist (List.take_sublist _ _) ?_⟩
  exact List.pairwise_reverse.2 (numbered_pairwise policies)

/-! ## In memory -/

/-- Reading the policies of a node that holds those that were accepted. -/
theorem MemoryStorage.numbered_step {before : List AnsweredCall} {s : MemoryStorage}
    (c : TimedCall) (hc : ∀ nodeId, c.2 ≠ .removeNode nodeId)
    (h : ∀ nodeId, s.Holds nodeId (accepted nodeId before)) :
    NumberedAnswer (fun _ _ => True) before ⟨c.2, (Storage.call c.1 c.2 s).1⟩ ∧
      ∀ nodeId, (Storage.call c.1 c.2 s).2.Holds nodeId
        (accepted nodeId (before ++ [⟨c.2, (Storage.call c.1 c.2 s).1⟩])) := by
  obtain ⟨now, c⟩ := c
  cases c with
  | storePolicy p =>
    obtain ⟨hresult, hholds⟩ := (h p.nodeId).storePolicy
    have hanswer : (Storage.call now (.storePolicy p) s).1 =
        .ok ((accepted p.nodeId before).length + 1) := hresult
    refine ⟨⟨fun _ => hanswer, fun hfalse => absurd trivial hfalse⟩, fun nodeId => ?_⟩
    rw [hanswer, accepted_concat_ok]
    split
    · rename_i hp
      subst hp
      exact hholds
    · rename_i hp
      exact (h nodeId).call_leaves now hp
  | removeNode m => exact absurd rfl (hc m)
  | getPolicy m =>
    refine ⟨(h m).getPolicy, fun nodeId => ?_⟩
    rw [accepted_concat_other (by simp)]
    exact h nodeId
  | getPolicyHistory m limit =>
    refine ⟨⟨_, (h m).getPolicyHistory limit, rfl, newest_versions _ _⟩, fun nodeId => ?_⟩
    rw [accepted_concat_other (by simp)]
    exact h nodeId
  | _ =>
    refine ⟨trivial, fun nodeId => ?_⟩
    rw [accepted_concat_other (by simp)]
    exact (h nodeId).call_leaves now trivial

/-! ## In SQLite -/

theorem registered_concat {nodeId : String} {before : List AnsweredCall} {a : AnsweredCall} :
    WasRegistered nodeId (before ++ [a]) ↔
      WasRegistered nodeId before ∨ ∃ node, a.1 = .registerNode node ∧ node.nodeId = nodeId := by
  unfold WasRegistered
  constructor
  · rintro ⟨b, hb, hnode⟩
    rcases List.mem_append.1 hb with hb | hb
    · exact .inl ⟨b, hb, hnode⟩
    · rw [List.mem_singleton] at hb
      exact .inr (hb ▸ hnode)
  · rintro (⟨b, hb, hnode⟩ | hnode)
    · exact ⟨b, List.mem_append_left _ hb, hnode⟩
    · exact ⟨a, List.mem_append_right _ (List.mem_singleton_self a), hnode⟩

section Sqlite

variable [Rfc3339] [SerdeJson]

/-- The call reads back: it stores a policy of `u32` counts that was deployed in a year of four
    digits, or it stores none, and its cutoff, if it has one, is an instant. -/
def ReadsBack (c : TimedCall) : Prop :=
  c.2.CutoffInRange c.1 ∧
    ∀ p, c.2 = .storePolicy p → p.Ranged ∧ isRfc3339 p.deployedAt = true

/-- What a sequence for SQLite consists of. -/
def KeepsNodes (c : TimedCall) : Prop := (∀ nodeId, c.2 ≠ .removeNode nodeId) ∧ ReadsBack c

/-- What the answers so far say of the database. -/
structure SqliteStorage.Numbers (before : List AnsweredCall) (s : SqliteStorage) : Prop where
  sound : s.poisoned = false
  holds : ∀ nodeId, s.Holds nodeId (accepted nodeId before)
  registered : ∀ nodeId, s.conn.nodes.contains nodeId = true ↔ WasRegistered nodeId before

/-- The nodes that are there are those that were registered. -/
theorem SqliteStorage.Numbers.registered_step {before : List AnsweredCall} {s : SqliteStorage}
    (h : s.Numbers before) {c : TimedCall} (hc : KeepsNodes c) (nodeId : String) :
    (Storage.call c.1 c.2 s).2.conn.nodes.contains nodeId = true ↔
      WasRegistered nodeId (before ++ [⟨c.2, (Storage.call c.1 c.2 s).1⟩]) := by
  have hnodes := SqliteStorage.call_nodes c.1 c.2 h.sound hc.2.1
  rw [NodesTable.contains_after hnodes hc.1, h.registered, registered_concat]

/-- The policies of a node that a call is not about. -/
theorem SqliteStorage.Numbers.holds_other {before : List AnsweredCall} {s : SqliteStorage}
    (h : s.Numbers before) {c : TimedCall} (hc : KeepsNodes c) {nodeId : String}
    (hother : ∀ p, c.2 = .storePolicy p → p.nodeId ≠ nodeId) :
    (Storage.call c.1 c.2 s).2.Holds nodeId (accepted nodeId before) := by
  refine (h.holds nodeId).call_leaves c.1 ?_ hc.2.1
  obtain ⟨now, c⟩ := c
  cases c with
  | storePolicy p => exact hother p rfl
  | removeNode m => exact absurd rfl (hc.1 m)
  | _ => trivial

/-- A policy of a node that is registered. -/
theorem SqliteStorage.Numbers.storePolicy {before : List AnsweredCall} {s : SqliteStorage}
    (h : s.Numbers before) {now : DateTime} {p : Policy} (hc : KeepsNodes (now, .storePolicy p))
    (hfew : before.length < 2 ^ 63 - 1) (hnode : s.conn.nodes.contains p.nodeId = true) :
    (Storage.call now (.storePolicy p) s).1 = .ok ((accepted p.nodeId before).length + 1) ∧
      ∀ nodeId, (Storage.call now (.storePolicy p) s).2.Holds nodeId
        (if p.nodeId = nodeId then accepted nodeId before ++ [p] else accepted nodeId before) := by
  obtain ⟨hranged, hdeployed⟩ := hc.2.2 p rfl
  have hlength := length_accepted_le p.nodeId before
  obtain ⟨hresult, hholds⟩ := (h.holds p.nodeId).storePolicy hnode hranged hdeployed (by omega)
  refine ⟨congrArg Prod.fst hresult, fun nodeId => ?_⟩
  split
  · rename_i hp
    subst hp
    exact hholds
  · rename_i hp
    refine h.holds_other hc fun q hq => ?_
    cases hq
    exact hp

/-- A policy of a node that is not. -/
theorem SqliteStorage.Numbers.storePolicy_unknown {before : List AnsweredCall}
    {s : SqliteStorage} (h : s.Numbers before) (now : DateTime) {p : Policy}
    (hnode : ¬ s.conn.nodes.contains p.nodeId = true) :
    Storage.call now (.storePolicy p) s = (.error foreignKeyFailed, s) := by
  show s.locked (Sql.storePolicy p).run = _
  rw [SqliteStorage.locked_eq h.sound, Sql.run_storePolicy, if_neg hnode]

theorem SqliteStorage.numbered_step {before : List AnsweredCall} {s : SqliteStorage}
    {c : TimedCall} (hc : KeepsNodes c) (hfew : before.length < 2 ^ 63 - 1)
    (h : s.Numbers before) :
    NumberedAnswer WasRegistered before ⟨c.2, (Storage.call c.1 c.2 s).1⟩ ∧
      (Storage.call c.1 c.2 s).2.Numbers
        (before ++ [⟨c.2, (Storage.call c.1 c.2 s).1⟩]) := by
  have hregistered := h.registered_step hc
  obtain ⟨now, c⟩ := c
  by_cases hstore : ∃ p, c = .storePolicy p
  · obtain ⟨p, rfl⟩ := hstore
    by_cases hnode : s.conn.nodes.contains p.nodeId = true
    · have hknown := (h.registered p.nodeId).1 hnode
      obtain ⟨hanswer, hholds⟩ := h.storePolicy hc hfew hnode
      refine ⟨⟨fun _ => hanswer, fun hunknown => absurd hknown hunknown⟩,
        (hholds "").sound, fun nodeId => ?_, hregistered⟩
      dsimp only
      rw [hanswer, accepted_concat_ok]
      exact hholds nodeId
    · have hunknown := fun hknown => hnode ((h.registered p.nodeId).2 hknown)
      have hcall := h.storePolicy_unknown now hnode
      dsimp only at hregistered ⊢
      rw [hcall] at hregistered ⊢
      refine ⟨⟨fun hknown => absurd hknown hunknown, fun _ => ⟨_, rfl⟩⟩, h.sound,
        fun nodeId => ?_, hregistered⟩
      rw [accepted_concat_error]
      exact h.holds nodeId
  · have hother : ∀ p, c ≠ .storePolicy p := fun p hp => hstore ⟨p, hp⟩
    have hholds : ∀ nodeId, (Storage.call now c s).2.Holds nodeId
        (accepted nodeId (before ++ [⟨c, (Storage.call now c s).1⟩])) := by
      intro nodeId
      rw [accepted_concat_other hother]
      exact h.holds_other hc fun p hp => absurd hp (hother p)
    refine ⟨?_, (hholds "").sound, hholds, hregistered⟩
    cases c with
    | storePolicy p => exact absurd rfl (hother p)
    | getPolicy m =>
      show (s.reading fun db => db.getPolicy m).1 = _
      rw [SqliteStorage.reading_eq h.sound]
      exact (h.holds m).getPolicy
    | getPolicyHistory m limit =>
      refine ⟨_, ?_, rfl, newest_versions _ _⟩
      show (s.reading fun db => db.getPolicyHistory m limit).1 = _
      rw [SqliteStorage.reading_eq h.sound]
      exact (h.holds m).getPolicyHistory limit
    | _ => trivial

end Sqlite

/-! ## The law -/

theorem SqliteStorage.numbers_inMemory : SqliteStorage.inMemory.Numbers [] where
  sound := rfl
  holds nodeId := ⟨rfl, rfl, fun p hp => absurd hp List.not_mem_nil, Nat.two_pow_pos 63⟩
  registered nodeId := by
    constructor
    · intro h
      exact absurd h Bool.false_ne_true
    · rintro ⟨a, ha, -⟩
      exact absurd ha List.not_mem_nil

/-- **The versions of a node are numbered from one as they are stored, in either backend**; in
    SQLite, those of nodes that are registered, and other policies are refused. -/
theorem versionsNumbered [Rfc3339] [SerdeJson] (calls : List TimedCall)
    (hremove : ∀ c ∈ calls, ∀ nodeId, c.2 ≠ .removeNode nodeId) :
    VersionsNumbered (fun _ _ => True) (Storage.answers calls MemoryStorage.new) ∧
      ((∀ c ∈ calls, ReadsBack c) → calls.length < 2 ^ 63 →
        VersionsNumbered WasRegistered (Storage.answers calls SqliteStorage.inMemory)) := by
  constructor
  · intro before a after h
    exact Storage.answers_of_step (n := calls.length)
      (I := fun before s => ∀ nodeId, s.Holds nodeId (accepted nodeId before))
      (fun before s c hc _ hI => MemoryStorage.numbered_step c hc hI) hremove []
      MemoryStorage.holds_new (by simp) h
  · intro hreads hfew before a after h
    exact Storage.answers_of_step (n := calls.length) (I := fun before s => s.Numbers before)
      (fun before s c hc hn hI => SqliteStorage.numbered_step hc (by omega) hI)
      (fun c hc => ⟨hremove c hc, hreads c hc⟩) [] SqliteStorage.numbers_inMemory (by simp) h

/-- Two versions of a node that is registered, and the newest of them. -/
def twoVersions : List TimedCall :=
  [(0, .registerNode (Node.new 0 "n" "host" "10.0.0.1:50055" ∅ "")),
   (1, .storePolicy (.sample "n" "rules: [a]")), (2, .storePolicy (.sample "n" "rules: [b]")),
   (3, .getPolicyHistory "n" 1)]

theorem versionsNumbered_two :
    VersionsNumbered (fun _ _ => True) (Storage.answers twoVersions MemoryStorage.new) ∧
      VersionsNumbered WasRegistered
        (@Storage.answers _ (@SqliteStorage.instStorage .sample .sample) twoVersions
          SqliteStorage.inMemory) := by
  obtain ⟨hmemory, hsqlite⟩ := @versionsNumbered .sample .sample twoVersions (by
    intro c hc nodeId
    simp only [twoVersions, List.mem_cons, List.not_mem_nil, or_false] at hc
    rcases hc with rfl | rfl | rfl | rfl <;> simp)
  refine ⟨hmemory, hsqlite ?_ (by decide)⟩
  intro c hc
  simp only [twoVersions, List.mem_cons, List.not_mem_nil, or_false] at hc
  rcases hc with rfl | rfl | rfl | rfl
  · exact ⟨trivial, by simp⟩
  · refine ⟨trivial, fun p hp => ?_⟩
    cases hp
    decide
  · refine ⟨trivial, fun p hp => ?_⟩
    cases hp
    decide
  · exact ⟨trivial, by simp⟩

/-- SQLite refuses the policy of a node that was never registered. -/
theorem not_versionsNumbered :
    ¬ ∀ calls : List TimedCall, (∀ c ∈ calls, ∀ nodeId, c.2 ≠ .removeNode nodeId) →
      VersionsNumbered (fun _ _ => True)
        (@Storage.answers _ (@SqliteStorage.instStorage .sample .sample) calls
          SqliteStorage.inMemory) := by
  intro h
  have hnumbered := h [(1, .storePolicy (.sample "ghost" "rules: [a]"))] (by simp) [] _ [] rfl
  exact absurd (hnumbered.1 trivial) (by decide)

end PaciNet

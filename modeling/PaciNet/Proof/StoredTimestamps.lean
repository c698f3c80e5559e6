import PaciNet.Proof.PolicyStore
import PaciNet.Storage.Timestamps

/-!
# Stored timestamps compare like times

The in-memory backend compares instants, and the SQLite one the texts it stored them as. The texts
have four lengths, and which character decides between two of them depends on the fractions of
both.

**For years of four digits, texts compare as instants do**, so a statement selects, and orders, the
rows that the in-memory backend would: where nodes are stale, where events and entries of the audit
log lie in a range of time, what is pruned, and what is the oldest.
-/

set_option autoImplicit false

namespace PaciNet

open Lib

/-! ## The law -/

/-- The filter of `query_events`. -/
def matchesEvent (eventType source : Option String) (since until_ : Option DateTime)
    (e : PersistentEvent) : Bool :=
  eventType.all (e.eventType == ·) && source.all (e.source == ·) &&
    since.all (e.timestamp ≥ ·) && until_.all (e.timestamp ≤ ·)

/-- The filter of `query_audit`. -/
def matchesAudit (action resourceType resourceId : Option String) (since : Option DateTime)
    (e : AuditEntry) : Bool :=
  action.all (e.action == ·) && resourceType.all (e.resourceType == ·) &&
    resourceId.all (e.resourceId == ·) && since.all (e.timestamp ≥ ·)

/-- Newest first. -/
def newestFirst {α : Type} (column : α → DateTime) (a b : α) : Bool :=
  decide (column b ≤ column a)

/-- The database holds what the in-memory store does, and all years have four digits. -/
structure HoldsSame (db : Database) (s : MemoryStorage) : Prop where
  nodes : db.nodes.rows = s.nodes.rows.map NodeRow.ofNode
  events : db.events.rows = s.events
  audit : db.auditLog.rows = s.auditLog
  heartbeats : ∀ node ∈ s.nodes.rows, isRfc3339 node.lastHeartbeat = true
  eventTimes : ∀ e ∈ s.events, isRfc3339 e.timestamp = true
  auditTimes : ∀ e ∈ s.auditLog, isRfc3339 e.timestamp = true

/-- **SQLite selects the rows that the in-memory store selects.** -/
structure SelectsAlike [Rfc3339] (db : Database) (s : MemoryStorage) : Prop where
  stale : ∀ (now cutoff : DateTime) (threshold : Int), addDuration now (-threshold) = some cutoff →
    isRfc3339 cutoff = true →
    (db.nodes.rows.filter (Database.isStale cutoff)).map NodeRow.nodeId =
      (s.nodes.rows.filter (MemoryStorage.isStale now threshold)).map Node.nodeId
  events : ∀ (eventType source : Option String) (since until_ : Option DateTime) (limit : Nat),
    (∀ t ∈ since, isRfc3339 t = true) → (∀ t ∈ until_, isRfc3339 t = true) →
    db.queryEvents eventType source since until_ limit =
        .ok ((orderBy (newestFirst PersistentEvent.timestamp)
          (s.events.filter (matchesEvent eventType source since until_))).take limit) ∧
      s.queryEvents eventType source since until_ limit =
        .ok (MemoryStorage.latest (matchesEvent eventType source since until_) limit s.events)
  audit : ∀ (action resourceType resourceId : Option String) (since : Option DateTime)
    (limit : Nat), (∀ t ∈ since, isRfc3339 t = true) →
    db.queryAudit action resourceType resourceId since limit =
        .ok ((orderBy (newestFirst AuditEntry.timestamp)
          (s.auditLog.filter (matchesAudit action resourceType resourceId since))).take limit) ∧
      s.queryAudit action resourceType resourceId since limit =
        .ok (MemoryStorage.latest (matchesAudit action resourceType resourceId since) limit
          s.auditLog)
  pruned : ∀ olderThan : DateTime, isRfc3339 olderThan = true →
    (db.pruneEvents olderThan).1 = (s.pruneEvents olderThan).1 ∧
      (db.pruneEvents olderThan).2.events.rows = (s.pruneEvents olderThan).2.events
  oldest : db.statusSummary.map StatusSummary.oldest = s.statusSummary.map StatusSummary.oldest

/-- **SQLite orders rows by a column as their instants are ordered.** -/
def OrdersAlike [Rfc3339] : Prop :=
  ∀ {α : Type} (column : α → DateTime) (rows : List α),
    (∀ row ∈ rows, isRfc3339 (column row) = true) →
    orderBy (fun a b => !Rfc3339.lt (column a) (column b)) rows = orderBy (newestFirst column) rows

/-! ## Comparing texts -/

theorem orderBy_congr {α : Type} {before before' : α → α → Bool} {rows : List α}
    (h : ∀ a ∈ rows, ∀ b ∈ rows, before a b = before' a b) :
    orderBy before rows = orderBy before' rows := by
  have hmap := List.map_insertionSort (fun a b => before a b = true)
    (fun a b => before' a b = true) id rows fun a ha b hb => by rw [h a ha b hb]; rfl
  rw [List.map_id, List.map_id] at hmap
  exact hmap

theorem mem_orderBy {α : Type} {before : α → α → Bool} {rows : List α} {a : α} :
    a ∈ orderBy before rows ↔ a ∈ rows :=
  List.mem_insertionSort _

/-- A row whose instant reads back is read. -/
theorem readable_readAt {α : Type} {column : α → DateTime} {rows : List α}
    (h : ∀ row ∈ rows, isRfc3339 (column row) = true) :
    readable (Database.readAt column) rows = rows := by
  have hread : readable (Database.readAt column) (rows.map id) = rows.map id := by
    refine readable_map fun row hrow => ?_
    unfold Database.readAt parseFromRfc3339
    rw [id_eq, if_pos (h row hrow)]
    rfl
  rwa [List.map_id] at hread

/-- A bound that may be missing. -/
theorem all_bound_eq {p q : DateTime → Bool} {bound : Option DateTime}
    (hbound : ∀ t ∈ bound, isRfc3339 t = true) (h : ∀ t, isRfc3339 t = true → p t = q t) :
    bound.all p = bound.all q := by
  cases bound with
  | none => rfl
  | some t => exact h t (hbound t rfl)

/-- Of two instants, the one that is kept. -/
def older (lt : DateTime → DateTime → Bool) (oldest : Option DateTime) (t : DateTime) :
    Option DateTime :=
  match oldest with
  | none => some t
  | some prev => some (if lt t prev then t else prev)

theorem mem_older {lt : DateTime → DateTime → Bool} {oldest : Option DateTime} {t u : DateTime}
    (h : u ∈ older lt oldest t) : u = t ∨ u ∈ oldest := by
  cases oldest with
  | none => exact Or.inl (Option.some.inj h).symm
  | some prev =>
    unfold older at h
    simp only [Option.mem_some_iff] at h
    split at h
    · exact Or.inl h.symm
    · exact Or.inr (congrArg some h)

/-- The oldest is the same however instants with years of four digits are compared. -/
theorem foldl_older {lt lt' : DateTime → DateTime → Bool} {column : List DateTime}
    {oldest : Option DateTime} (hcolumn : ∀ t ∈ column, isRfc3339 t = true)
    (holdest : ∀ t ∈ oldest, isRfc3339 t = true)
    (h : ∀ t u, isRfc3339 t = true → isRfc3339 u = true → lt t u = lt' t u) :
    column.foldl (older lt) oldest = column.foldl (older lt') oldest ∧
      ∀ t ∈ column.foldl (older lt) oldest, isRfc3339 t = true := by
  induction column generalizing oldest with
  | nil => exact ⟨rfl, holdest⟩
  | cons t column ih =>
    rw [List.forall_mem_cons] at hcolumn
    have hsame : older lt oldest t = older lt' oldest t := by
      cases oldest with
      | none => rfl
      | some prev =>
        unfold older
        simp only []
        rw [h t prev hcolumn.1 (holdest prev rfl)]
    rw [List.foldl_cons, List.foldl_cons, ← hsame]
    refine ih hcolumn.2 fun u hu => ?_
    rcases mem_older hu with rfl | hmem
    · exact hcolumn.1
    · exact holdest u hmem

variable [Rfc3339]

theorem not_lt_eq {t u : DateTime} (ht : isRfc3339 t = true) (hu : isRfc3339 u = true) :
    (!Rfc3339.lt t u) = decide (u ≤ t) := by
  rw [Rfc3339.lt_eq t u ht hu, ← decide_not]
  exact decide_eq_decide.mpr Int.not_lt

theorem ordersAlike : OrdersAlike := by
  intro α column rows h
  exact orderBy_congr fun a ha b hb => not_lt_eq (h a ha) (h b hb)

/-- Rows that are ordered, cut off and read back. -/
theorem readable_orderBy {α : Type} {column : α → DateTime} {rows : List α} (limit : Nat)
    (h : ∀ row ∈ rows, isRfc3339 (column row) = true) :
    readable (Database.readAt column)
        ((orderBy (fun a b => !Rfc3339.lt (column a) (column b)) rows).take limit) =
      (orderBy (newestFirst column) rows).take limit := by
  rw [ordersAlike column rows h]
  exact readable_readAt fun row hrow => h row (mem_orderBy.mp (List.mem_of_mem_take hrow))

/-! ## Selecting -/

variable {db : Database} {s : MemoryStorage}

theorem isStale_ofNode {now cutoff : DateTime} {threshold : Int} {node : Node}
    (hcutoff : addDuration now (-threshold) = some cutoff) (hc : isRfc3339 cutoff = true)
    (hnode : isRfc3339 node.lastHeartbeat = true) :
    Database.isStale cutoff (.ofNode node) = MemoryStorage.isStale now threshold node := by
  have hlt : Rfc3339.lt node.lastHeartbeat cutoff =
      decide (now - node.lastHeartbeat > threshold) := by
    have heq : cutoff = now + -threshold := by
      unfold addDuration at hcutoff
      split at hcutoff
      · exact (Option.some.inj hcutoff).symm
      · exact absurd hcutoff (by simp)
    have hsub (x y z : Int) : x < y + -z ↔ z < y - x := by omega
    rw [Rfc3339.lt_eq _ _ hnode hc, heq, decide_eq_decide]
    exact hsub _ _ _
  have hname (state : NodeState) :
      (state.toString != "offline" && state.toString != "registered") =
        (state != .offline && state != .registered) := by
    cases state <;> decide
  unfold Database.isStale MemoryStorage.isStale
  show (node.state.toString != "offline" && node.state.toString != "registered" &&
    Rfc3339.lt node.lastHeartbeat cutoff) = _
  rw [hlt, hname]

theorem queryEvents_eq {eventType source : Option String} {since until_ : Option DateTime}
    {limit : Nat} (h : ∀ e ∈ db.events.rows, isRfc3339 e.timestamp = true)
    (hsince : ∀ t ∈ since, isRfc3339 t = true) (huntil : ∀ t ∈ until_, isRfc3339 t = true) :
    db.queryEvents eventType source since until_ limit =
      .ok ((orderBy (newestFirst PersistentEvent.timestamp)
        (db.events.rows.filter (matchesEvent eventType source since until_))).take limit) := by
  unfold Database.queryEvents
  rw [List.filter_congr (q := matchesEvent eventType source since until_)]
  · exact congrArg Except.ok (readable_orderBy limit fun e he => h e (List.mem_filter.mp he).1)
  · intro e he
    unfold matchesEvent
    rw [all_bound_eq hsince fun t ht => not_lt_eq (h e he) ht,
      all_bound_eq huntil fun t ht => not_lt_eq ht (h e he)]

theorem queryAudit_eq {action resourceType resourceId : Option String} {since : Option DateTime}
    {limit : Nat} (h : ∀ e ∈ db.auditLog.rows, isRfc3339 e.timestamp = true)
    (hsince : ∀ t ∈ since, isRfc3339 t = true) :
    db.queryAudit action resourceType resourceId since limit =
      .ok ((orderBy (newestFirst AuditEntry.timestamp)
        (db.auditLog.rows.filter
          (matchesAudit action resourceType resourceId since))).take limit) := by
  unfold Database.queryAudit
  rw [List.filter_congr (q := matchesAudit action resourceType resourceId since)]
  · exact congrArg Except.ok (readable_orderBy limit fun e he => h e (List.mem_filter.mp he).1)
  · intro e he
    unfold matchesAudit
    rw [all_bound_eq hsince fun t ht => not_lt_eq (h e he) ht]

theorem pruneEvents_rows {olderThan : DateTime}
    (h : ∀ e ∈ db.events.rows, isRfc3339 e.timestamp = true) (ht : isRfc3339 olderThan = true) :
    (db.pruneEvents olderThan).2.events.rows =
      db.events.rows.filter fun e => e.timestamp ≥ olderThan :=
  List.filter_congr fun e he => not_lt_eq (h e he) ht

theorem oldest_eq (hsame : HoldsSame db s) :
    db.statusSummary.map StatusSummary.oldest = s.statusSummary.map StatusSummary.oldest := by
  have hrange : ∀ t ∈ s.nodes.rows.map Node.lastHeartbeat, isRfc3339 t = true := by
    intro t ht
    obtain ⟨node, hnode, rfl⟩ := List.mem_map.mp ht
    exact hsame.heartbeats node hnode
  have hcolumn : db.nodes.rows.map NodeRow.lastHeartbeat = s.nodes.rows.map Node.lastHeartbeat := by
    rw [hsame.nodes, List.map_map]
    rfl
  obtain ⟨heq, hread⟩ : (s.nodes.rows.map Node.lastHeartbeat).foldl (older Rfc3339.lt) none =
      (s.nodes.rows.map Node.lastHeartbeat).foldl (older fun t u => decide (t < u)) none ∧ _ :=
    foldl_older hrange (by simp) Rfc3339.lt_eq
  have hsqlite : db.statusSummary.map StatusSummary.oldest =
      .ok (((db.nodes.rows.map NodeRow.lastHeartbeat).foldl (older Rfc3339.lt) none).bind
        fun t => (parseFromRfc3339 t).toOption) := rfl
  have hmemory : s.statusSummary.map StatusSummary.oldest =
      .ok ((s.nodes.rows.map Node.lastHeartbeat).foldl (older fun t u => decide (t < u)) none) := by
    rw [List.foldl_map]
    refine congrArg Except.ok (congrArg (fun f => s.nodes.rows.foldl f none) ?_)
    funext oldest node
    cases oldest with
    | none => rfl
    | some prev =>
      unfold older
      simp only [decide_eq_true_iff]
  rw [hsqlite, hmemory, hcolumn, ← heq]
  cases h : (s.nodes.rows.map Node.lastHeartbeat).foldl (older Rfc3339.lt) none with
  | none => rfl
  | some t =>
    rw [h] at hread
    show Except.ok (parseFromRfc3339 t).toOption = _
    unfold parseFromRfc3339
    rw [if_pos (hread t rfl)]
    rfl

/-! ## The two backends -/

theorem selectsAlike (hsame : HoldsSame db s) : SelectsAlike db s where
  stale now cutoff threshold hcutoff hc := by
    rw [hsame.nodes, List.filter_map, List.map_map]
    have hfilter : s.nodes.rows.filter (Database.isStale cutoff ∘ NodeRow.ofNode) =
        s.nodes.rows.filter (MemoryStorage.isStale now threshold) :=
      List.filter_congr fun node hnode =>
        isStale_ofNode hcutoff hc (hsame.heartbeats node hnode)
    rw [hfilter]
    rfl
  events eventType source since until_ limit hsince huntil := by
    have hrows : ∀ e ∈ db.events.rows, isRfc3339 e.timestamp = true := by
      rw [hsame.events]
      exact hsame.eventTimes
    rw [queryEvents_eq hrows hsince huntil, hsame.events]
    exact ⟨rfl, rfl⟩
  audit action resourceType resourceId since limit hsince := by
    have hrows : ∀ e ∈ db.auditLog.rows, isRfc3339 e.timestamp = true := by
      rw [hsame.audit]
      exact hsame.auditTimes
    rw [queryAudit_eq hrows hsince, hsame.audit]
    exact ⟨rfl, rfl⟩
  pruned olderThan ht := by
    have hrows : ∀ e ∈ db.events.rows, isRfc3339 e.timestamp = true := by
      rw [hsame.events]
      exact hsame.eventTimes
    have hkept := pruneEvents_rows hrows ht
    rw [hsame.events] at hkept
    refine ⟨?_, hkept⟩
    show Except.ok (db.events.rows.length - (db.pruneEvents olderThan).2.events.rows.length) = _
    rw [hkept, hsame.events]
    rfl
  oldest := oldest_eq hsame

omit [Rfc3339] in
/-- **Stored timestamps compare like times**, so SQLite selects and orders rows as the in-memory
    backend compares their instants. -/
theorem storedTimestamps :
    (∀ a b : UtcInstant, a.FourDigits → b.FourDigits → (a.toRfc3339 < b.toRfc3339 ↔ a < b)) ∧
      @OrdersAlike Rfc3339.textual ∧
      ∀ db s, HoldsSame db s → @SelectsAlike Rfc3339.textual db s :=
  ⟨fun _ _ ha hb => UtcInstant.toRfc3339_lt_iff ha hb, @ordersAlike Rfc3339.textual,
    fun _ _ hsame => @selectsAlike Rfc3339.textual _ _ hsame⟩

/-- Writes with instants whose texts have different lengths. -/
def unevenTexts : List TimedCall :=
  [(0, .registerNode { Node.new 0 "n1" "host" "agent:1" ∅ "1.0" with lastHeartbeat := 10 ^ 9 }),
    (1, .storeEvent ⟨"e1", "node.registered", "n1", "", 10 ^ 9⟩),
    (2, .storeEvent ⟨"e2", "node.state", "n1", "", 10 ^ 9 + 5 * 10 ^ 8⟩),
    (3, .storeAudit ⟨"a1", 10 ^ 9 + 1, "grpc", "register", "node", "n1", ""⟩)]

/-- A database that has made the writes. -/
def unevenDatabase : Database :=
  (@Storage.stateAfter _ (@SqliteStorage.instStorage .textual .sample) unevenTexts
    SqliteStorage.inMemory).conn

omit [Rfc3339] in
theorem unevenDatabase_holdsSame :
    HoldsSame unevenDatabase (Storage.stateAfter unevenTexts MemoryStorage.new) where
  nodes := rfl
  events := rfl
  audit := rfl
  heartbeats := by decide +kernel
  eventTimes := by decide +kernel
  auditTimes := by decide +kernel

omit [Rfc3339] in
/-- A whole second comes before the half that follows it. -/
theorem storedTimestamps_uneven :
    (UtcInstant.ofDateTime (10 ^ 9)).toRfc3339 <
        (UtcInstant.ofDateTime (10 ^ 9 + 5 * 10 ^ 8)).toRfc3339 ∧
      (orderBy (fun a b => !Rfc3339.textual.lt a.timestamp b.timestamp)
        unevenDatabase.events.rows).map PersistentEvent.id = ["e2", "e1"] ∧
      @SelectsAlike Rfc3339.textual unevenDatabase
        (Storage.stateAfter unevenTexts MemoryStorage.new) := by
  have hyears (t : DateTime) (ht : isRfc3339 t = true) : (UtcInstant.ofDateTime t).FourDigits :=
    UtcInstant.fourDigits_ofDateTime ht
  refine ⟨?_, ?_, storedTimestamps.2.2 _ _ unevenDatabase_holdsSame⟩
  · refine (storedTimestamps.1 _ _ (hyears _ (by decide)) (hyears _ (by decide))).2 ?_
    exact UtcInstant.ofDateTime_lt_iff.2 (by decide)
  · rw [storedTimestamps.2.1 PersistentEvent.timestamp unevenDatabase.events.rows
      (by decide +kernel)]
    decide +kernel

end PaciNet

import PaciNet.Proof.StoredTimestamps

/-!
# The event history

The SQLite backend answers a query of the event log with the latest events first, and the limit
takes the latest. The in-memory one answers with the events stored last. They were stored in the
order of their timestamps if one clock stamps them; the events of counters carry the clocks of the
agents.

**Both backends answer with the latest events exactly if the events that are kept were stored in
the order of their timestamps.**
-/

set_option autoImplicit false

namespace PaciNet

open Lib

/-! ## Histories -/

/-- A write to the event log. -/
inductive EventOp where
  | storeEvent (event : PersistentEvent)
  | pruneEvents (olderThan : DateTime)

namespace EventOp

def call : EventOp → StorageCall
  | storeEvent event => .storeEvent event
  | pruneEvents olderThan => .pruneEvents olderThan

def stored : EventOp → Option PersistentEvent
  | storeEvent event => some event
  | pruneEvents _ => none

/-- The instant that is written, or compared with. -/
def instant : EventOp → DateTime
  | storeEvent event => event.timestamp
  | pruneEvents olderThan => olderThan

theorem instant_of_stored {op : EventOp} {e : PersistentEvent} (h : op.stored = some e) :
    op.instant = e.timestamp := by
  cases op with
  | storeEvent event => exact congrArg PersistentEvent.timestamp (Option.some.inj h)
  | pruneEvents olderThan => exact absurd h (by simp [stored])

/-- The events that are kept, in the order they were stored. -/
def keep (log : List PersistentEvent) : EventOp → List PersistentEvent
  | storeEvent event => log ++ [event]
  | pruneEvents olderThan => log.filter fun e => e.timestamp ≥ olderThan

end EventOp

/-- The events that are kept by writes, each made at an instant. -/
def keptAfter (log : List PersistentEvent) (ops : List (DateTime × EventOp)) :
    List PersistentEvent :=
  ops.foldl (fun log op => op.2.keep log) log

def storedEvents (ops : List (DateTime × EventOp)) : List PersistentEvent :=
  ops.filterMap fun op => op.2.stored

/-- Writes of events with distinct ids and timestamps, never more kept than the in-memory backend
    has room for. -/
structure EventHistory where
  ops : List (DateTime × EventOp)
  ids : ((storedEvents ops).map PersistentEvent.id).Nodup
  timestamps : ((storedEvents ops).map PersistentEvent.timestamp).Nodup
  bounded : ∀ n, (keptAfter [] (ops.take n)).length ≤ maxMemoryEvents

namespace EventHistory

variable (h : EventHistory)

def calls : List TimedCall := h.ops.map fun op => (op.1, op.2.call)

def kept : List PersistentEvent := keptAfter [] h.ops

/-- All years have four digits. -/
def FourDigits : Prop := ∀ op ∈ h.ops, isRfc3339 op.2.instant = true

/-- The events that are kept were stored in the order of their timestamps. -/
def InOrder : Prop := h.kept.Pairwise fun e f => e.timestamp < f.timestamp

/-- The matching events with the largest timestamps, the largest first. -/
def latest (eventType source : Option String) (since until_ : Option DateTime) (limit : Nat) :
    List PersistentEvent :=
  (orderBy (newestFirst PersistentEvent.timestamp)
    (h.kept.filter (matchesEvent eventType source since until_))).take limit

/-- **A backend answers every query with the latest of the matching events.** -/
def AnsweredBy {σ : Type} [Storage σ] (s : σ) : Prop :=
  ∀ (now : DateTime) (eventType source : Option String) (since until_ : Option DateTime)
    (limit : Nat), (∀ t ∈ since, isRfc3339 t = true) → (∀ t ∈ until_, isRfc3339 t = true) →
    (Storage.call now (.queryEvents eventType source since until_ limit)
      (Storage.stateAfter h.calls s)).1 = .ok (h.latest eventType source since until_ limit)

/-- Both backends do. -/
def NewestFirst [Rfc3339] [SerdeJson] : Prop :=
  h.AnsweredBy MemoryStorage.new ∧ h.AnsweredBy SqliteStorage.inMemory

end EventHistory

/-! ## What the in-memory backend keeps -/

theorem keptAfter_cons (log : List PersistentEvent) (op : DateTime × EventOp)
    (ops : List (DateTime × EventOp)) :
    keptAfter log (op :: ops) = keptAfter (op.2.keep log) ops := rfl

theorem MemoryStorage.events_after {ops : List (DateTime × EventOp)} {s : MemoryStorage}
    (hbound : ∀ n, (keptAfter s.events (ops.take n)).length ≤ maxMemoryEvents) :
    (Storage.stateAfter (ops.map fun op => (op.1, op.2.call)) s).events =
      keptAfter s.events ops := by
  induction ops generalizing s with
  | nil => rfl
  | cons op ops ih =>
    have hstep : (Storage.call op.1 op.2.call s).2.events = op.2.keep s.events := by
      cases hop : op.2 with
      | storeEvent e =>
        have hone := hbound 1
        rw [List.take_succ_cons, keptAfter_cons, hop] at hone
        exact MemoryStorage.keepLast_of_le hone
      | pruneEvents olderThan => rfl
    rw [keptAfter_cons, ← hstep]
    refine ih fun n => ?_
    rw [hstep]
    exact hbound (n + 1)

/-! ## What the database keeps -/

theorem mem_keep {log : List PersistentEvent} {op : EventOp} {e : PersistentEvent}
    (h : e ∈ op.keep log) : e ∈ log ∨ op.stored = some e := by
  cases op with
  | storeEvent event =>
    rcases List.mem_append.mp h with hmem | hmem
    · exact Or.inl hmem
    · exact Or.inr (congrArg some (List.mem_singleton.mp hmem).symm)
  | pruneEvents olderThan => exact Or.inl (List.mem_filter.mp h).1

/-- One write, of an event with an id that is not in the table. -/
theorem SqliteStorage.events_step [Rfc3339] [SerdeJson] {op : DateTime × EventOp}
    {s : SqliteStorage} (hlock : s.poisoned = false)
    (hnew : ∀ e, op.2.stored = some e → ∀ f ∈ s.conn.events.rows, f.id ≠ e.id)
    (hrows : ∀ e ∈ s.conn.events.rows, isRfc3339 e.timestamp = true)
    (hop : isRfc3339 op.2.instant = true) :
    (Storage.call op.1 op.2.call s).2.conn.events.rows = op.2.keep s.conn.events.rows ∧
      (Storage.call op.1 op.2.call s).2.poisoned = false := by
  cases hcase : op.2 with
  | storeEvent e =>
    have hcontains : s.conn.events.contains e.id = false := by
      rw [Table.contains_eq, Option.isSome_eq_false_iff, Option.isNone_iff_eq_none,
        Table.get?_eq_none]
      exact hnew e (by rw [hcase]; rfl)
    have hinsert : (s.conn.storeEvent e).2.events.rows = s.conn.events.rows ++ [e] := by
      unfold Database.storeEvent
      rw [if_neg (by rw [hcontains]; exact Bool.false_ne_true)]
      exact Table.rows_insert_of_new (Bool.eq_false_iff.1 hcontains)
    refine ⟨?_, (poisoned_locked _).trans hlock⟩
    show (s.locked fun db => db.storeEvent e).2.conn.events.rows = _
    rw [locked_eq hlock]
    exact hinsert
  | pruneEvents olderThan =>
    rw [hcase] at hop
    refine ⟨?_, (poisoned_locked _).trans hlock⟩
    show (s.locked fun db => db.pruneEvents olderThan).2.conn.events.rows = _
    rw [locked_eq hlock]
    exact pruneEvents_rows hrows hop

theorem nodup_keep {log : List PersistentEvent} {op : DateTime × EventOp}
    {ops : List (DateTime × EventOp)}
    (h : ((log ++ storedEvents (op :: ops)).map PersistentEvent.id).Nodup) :
    ((op.2.keep log ++ storedEvents ops).map PersistentEvent.id).Nodup := by
  cases hop : op.2 with
  | storeEvent e =>
    have hstored : storedEvents (op :: ops) = e :: storedEvents ops := by
      unfold storedEvents
      rw [List.filterMap_cons, hop]
      rfl
    rw [hstored, List.append_cons] at h
    exact h
  | pruneEvents olderThan =>
    have hstored : storedEvents (op :: ops) = storedEvents ops := by
      unfold storedEvents
      rw [List.filterMap_cons, hop]
      rfl
    rw [hstored] at h
    exact h.sublist ((List.filter_sublist.append_right _).map _)

theorem SqliteStorage.events_after [Rfc3339] [SerdeJson] {ops : List (DateTime × EventOp)}
    {s : SqliteStorage} (hlock : s.poisoned = false)
    (hids : ((s.conn.events.rows ++ storedEvents ops).map PersistentEvent.id).Nodup)
    (hrows : ∀ e ∈ s.conn.events.rows, isRfc3339 e.timestamp = true)
    (hops : ∀ op ∈ ops, isRfc3339 op.2.instant = true) :
    (Storage.stateAfter (ops.map fun op => (op.1, op.2.call)) s).conn.events.rows =
        keptAfter s.conn.events.rows ops ∧
      (Storage.stateAfter (ops.map fun op => (op.1, op.2.call)) s).poisoned = false := by
  induction ops generalizing s with
  | nil => exact ⟨rfl, hlock⟩
  | cons op ops ih =>
    rw [List.forall_mem_cons] at hops
    have hnew : ∀ e, op.2.stored = some e → ∀ f ∈ s.conn.events.rows, f.id ≠ e.id := by
      intro e he f hf
      have hmem : e ∈ storedEvents (op :: ops) :=
        List.mem_filterMap.mpr ⟨op, List.mem_cons_self, he⟩
      rw [List.map_append, List.nodup_append] at hids
      exact hids.2.2 _ (List.mem_map_of_mem hf) _ (List.mem_map_of_mem hmem)
    obtain ⟨hstep, hlock'⟩ := events_step hlock hnew hrows hops.1
    rw [keptAfter_cons, ← hstep]
    refine ih hlock' ?_ ?_ hops.2
    · rw [hstep]
      exact nodup_keep hids
    · rw [hstep]
      intro e he
      rcases mem_keep he with hmem | hstored
      · exact hrows e hmem
      · rw [← EventOp.instant_of_stored hstored]
        exact hops.1

/-! ## Which events are the latest -/

namespace EventHistory

variable {h : EventHistory}

theorem mem_kept {ops : List (DateTime × EventOp)} {log : List PersistentEvent}
    {e : PersistentEvent} (he : e ∈ keptAfter log ops) :
    e ∈ log ∨ ∃ op ∈ ops, op.2.stored = some e := by
  induction ops generalizing log with
  | nil => exact Or.inl he
  | cons op ops ih =>
    rcases ih he with hkeep | ⟨op', hop', hstored⟩
    · rcases mem_keep hkeep with hlog | hstored
      · exact Or.inl hlog
      · exact Or.inr ⟨op, List.mem_cons_self, hstored⟩
    · exact Or.inr ⟨op', List.mem_cons_of_mem op hop', hstored⟩

theorem memory_answer (now : DateTime) (eventType source : Option String)
    (since until_ : Option DateTime) (limit : Nat) :
    (Storage.call now (.queryEvents eventType source since until_ limit)
      (Storage.stateAfter h.calls MemoryStorage.new)).1 =
      .ok (MemoryStorage.latest (matchesEvent eventType source since until_) limit h.kept) := by
  have hevents := MemoryStorage.events_after (s := MemoryStorage.new) h.bounded
  show MemoryStorage.queryEvents _ _ _ _ _ _ = _
  unfold MemoryStorage.queryEvents calls
  rw [hevents]
  rfl

/-- Events that were stored in order are the latest first, read backwards. -/
theorem latest_of_inOrder (horder : h.InOrder) (eventType source : Option String)
    (since until_ : Option DateTime) (limit : Nat) :
    MemoryStorage.latest (matchesEvent eventType source since until_) limit h.kept =
      h.latest eventType source since until_ limit := by
  unfold MemoryStorage.latest latest
  rw [orderBy_eq_reverse, List.filter_reverse]
  refine (horder.filter _).imp fun {e f} hlt => ?_
  exact decide_eq_false (Int.not_le.mpr hlt)

theorem filter_all (log : List PersistentEvent) :
    log.filter (matchesEvent none none none none) = log :=
  List.filter_eq_self.mpr fun _ _ => rfl

/-- All events that are kept, the latest first. -/
theorem latest_all :
    h.latest none none none none h.kept.length =
      orderBy (newestFirst PersistentEvent.timestamp) h.kept := by
  unfold latest
  rw [filter_all, List.take_of_length_le]
  exact le_of_eq (List.length_insertionSort _ _)

theorem keptAfter_sublist (log : List PersistentEvent) (ops : List (DateTime × EventOp)) :
    (keptAfter log ops).Sublist (log ++ storedEvents ops) := by
  induction ops generalizing log with
  | nil =>
    unfold storedEvents
    rw [List.filterMap_nil, List.append_nil]
    exact List.Sublist.refl _
  | cons op ops ih =>
    refine (ih (op.2.keep log)).trans ?_
    unfold storedEvents
    rw [List.filterMap_cons]
    cases op.2 with
    | storeEvent e =>
      show (log ++ [e] ++ _).Sublist (log ++ e :: _)
      rw [← List.append_cons]
    | pruneEvents olderThan => exact List.filter_sublist.append_right _

/-- The in-memory backend answers right only if they were. -/
theorem inOrder_of_memory (hanswer : h.AnsweredBy MemoryStorage.new) : h.InOrder := by
  have hall := hanswer 0 none none none none h.kept.length (by simp) (by simp)
  rw [memory_answer, latest_all] at hall
  have hreverse : h.kept.reverse = orderBy (newestFirst PersistentEvent.timestamp) h.kept := by
    have heq := Except.ok.inj hall
    unfold MemoryStorage.latest at heq
    rw [filter_all, List.take_of_length_le (by simp)] at heq
    exact heq
  have htotal : Std.Total fun e f : PersistentEvent =>
      newestFirst PersistentEvent.timestamp e f = true :=
    ⟨fun e f => by
      unfold newestFirst
      rw [decide_eq_true_iff, decide_eq_true_iff]
      exact Int.le_total _ _⟩
  have htrans : IsTrans PersistentEvent fun e f =>
      newestFirst PersistentEvent.timestamp e f = true :=
    ⟨fun e f g hef hfg => by
      unfold newestFirst at *
      rw [decide_eq_true_iff] at *
      exact Int.le_trans hfg hef⟩
  have hsorted : h.kept.reverse.Pairwise fun e f =>
      newestFirst PersistentEvent.timestamp e f = true := by
    rw [hreverse]
    exact List.pairwise_insertionSort _ _
  have hnodup : (h.kept.map PersistentEvent.timestamp).Nodup :=
    h.timestamps.sublist ((keptAfter_sublist [] h.ops).map _)
  refine (List.pairwise_reverse.mp hsorted).and (List.pairwise_map.mp hnodup) |>.imp ?_
  intro e f hef
  exact lt_of_le_of_ne (of_decide_eq_true hef.1) hef.2

theorem sqlite_answer [Rfc3339] [SerdeJson] (hyears : h.FourDigits) :
    h.AnsweredBy SqliteStorage.inMemory := by
  intro now eventType source since until_ limit hsince huntil
  obtain ⟨hrows, hlock⟩ := SqliteStorage.events_after (s := SqliteStorage.inMemory) rfl
    (by simpa [SqliteStorage.inMemory, Table.empty] using h.ids)
    (by simp [SqliteStorage.inMemory, Table.empty]) hyears
  have hread : ∀ e ∈ h.kept, isRfc3339 e.timestamp = true := by
    intro e he
    rcases mem_kept he with hnil | ⟨op, hop, hstored⟩
    · exact absurd hnil (by simp)
    · have hinstant := hyears op hop
      rwa [EventOp.instant_of_stored hstored] at hinstant
  have hkept : (Storage.stateAfter h.calls SqliteStorage.inMemory).conn.events.rows = h.kept :=
    hrows
  have hunlocked : (Storage.stateAfter h.calls SqliteStorage.inMemory).poisoned = false := hlock
  show (SqliteStorage.reading _ _).1 = _
  rw [SqliteStorage.reading_eq hunlocked]
  show Database.queryEvents _ _ _ _ _ _ = _
  rw [queryEvents_eq (by rw [hkept]; exact hread) hsince huntil, hkept]
  rfl

theorem mem_readable_readAt {α : Type} {column : α → DateTime} {rows : List α} {row : α}
    (h : row ∈ readable (Database.readAt column) rows) : isRfc3339 (column row) = true := by
  obtain ⟨r, -, hr⟩ := List.mem_filterMap.mp h
  unfold Database.readAt parseFromRfc3339 at hr
  by_cases hread : isRfc3339 (column r) = true
  · rw [if_pos hread] at hr
    rwa [← Option.some.inj hr]
  · rw [if_neg hread] at hr
    exact absurd hr (by simp [Except.map, Except.toOption])

theorem reading_ok {α : Type} {s : SqliteStorage} {f : Database → StorageResult α} {a : α}
    (h : (s.reading f).1 = .ok a) : f s.conn = .ok a := by
  unfold SqliteStorage.reading SqliteStorage.locked at h
  split at h
  · exact absurd h (by simp)
  · exact h

/-- What the database answers has been read back. -/
theorem readBack_of_sqlite [Rfc3339] [SerdeJson] (hanswer : h.AnsweredBy SqliteStorage.inMemory) :
    ∀ e ∈ h.kept, isRfc3339 e.timestamp = true := by
  intro e he
  have hall := hanswer 0 none none none none h.kept.length (by simp) (by simp)
  rw [latest_all] at hall
  have hmem : e ∈ orderBy (newestFirst PersistentEvent.timestamp) h.kept := mem_orderBy.mpr he
  have hread : Database.queryEvents _ _ _ _ _ _ = .ok _ := reading_ok hall
  rw [← Except.ok.inj hread] at hmem
  exact mem_readable_readAt hmem

/-- **Both backends answer with the latest events** exactly if they were stored in order; the years
    have four digits. -/
theorem newestFirst_iff [Rfc3339] [SerdeJson] (h : EventHistory) :
    (h.FourDigits → (h.NewestFirst ↔ h.InOrder)) ∧
      (h.NewestFirst → h.InOrder ∧ ∀ e ∈ h.kept, isRfc3339 e.timestamp = true) := by
  refine ⟨fun hyears => ⟨fun hanswer => inOrder_of_memory hanswer.1, fun horder => ⟨?_, ?_⟩⟩,
    fun hanswer => ⟨inOrder_of_memory hanswer.1, readBack_of_sqlite hanswer.2⟩⟩
  · intro now eventType source since until_ limit _ _
    rw [memory_answer, latest_of_inOrder horder]
  · exact sqlite_answer hyears

/-- A history that is no longer than the room is bounded. -/
theorem bounded_of_length {ops : List (DateTime × EventOp)} (h : ops.length ≤ maxMemoryEvents)
    (n : Nat) : (keptAfter [] (ops.take n)).length ≤ maxMemoryEvents := by
  refine (keptAfter_sublist [] (ops.take n)).length_le.trans ?_
  refine (List.length_filterMap_le _ _).trans ?_
  rw [List.length_take]
  omega

/-- An event that comes late is removed again, and one more is stored. -/
def latePruned : EventHistory where
  ops := [(10, .storeEvent ⟨"e1", "counter.update", "n1", "", 10 ^ 9⟩),
    (11, .storeEvent ⟨"e2", "counter.update", "n2", "", 10 ^ 9 - 1⟩),
    (12, .pruneEvents (10 ^ 9)),
    (13, .storeEvent ⟨"e3", "node.registered", "n3", "", 10 ^ 9 + 500⟩)]
  ids := by decide
  timestamps := by decide
  bounded := bounded_of_length (by decide)

/-- What is left was stored in order. -/
theorem newestFirst_iff_pruned : latePruned.kept.map PersistentEvent.id = ["e1", "e3"] ∧
    @NewestFirst latePruned Rfc3339.textual SerdeJson.sample := by
  have hyears : latePruned.FourDigits := by
    unfold FourDigits
    decide +kernel
  have horder : latePruned.InOrder := by
    unfold InOrder
    decide +kernel
  exact ⟨by decide +kernel,
    ((@newestFirst_iff Rfc3339.textual SerdeJson.sample latePruned).1 hyears).2 horder⟩

/-- An event that comes late, from an agent whose clock is behind. -/
def lateArrival : EventHistory where
  ops := [(10, .storeEvent ⟨"e1", "counter.update", "n1", "", 10⟩),
    (11, .storeEvent ⟨"e2", "counter.update", "n2", "", 9⟩)]
  ids := by decide
  timestamps := by decide
  bounded := bounded_of_length (by decide)

/-- The in-memory backend answers with it first. -/
theorem not_newestFirst :
    ¬@NewestFirst lateArrival Rfc3339.textual SerdeJson.sample := by
  intro hanswer
  have hone := hanswer.1 12 none none none none 1 (by simp) (by simp)
  rw [memory_answer] at hone
  exact absurd hone (by decide)

end EventHistory

end PaciNet

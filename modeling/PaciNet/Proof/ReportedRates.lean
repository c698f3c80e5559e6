import Mathlib.Algebra.Order.Field.Basic
import Mathlib.Algebra.Order.Ring.Rat
import Mathlib.Tactic.FieldSimp
import Mathlib.Tactic.Ring
import PaciNet.Proof.CachedNodes
import PaciNet.Proof.Retention

/-!
# The rate between two reports

A report carries a timestamp of seconds and nanoseconds, the cache keeps the reports of a node with
their instants, and a rate is a difference of counts over a difference of instants, taken in
milliseconds. But the controller reads only the seconds of a timestamp.

**The rate between the two latest reports is the one between their timestamps if and only if**
the cache keeps two reports of a node, the seconds of the timestamps differ, and either their
difference in milliseconds is that of the seconds or no count has changed (`reportedRate_iff`).
-/

set_option autoImplicit false

namespace PaciNet

open Lib

/-! ## The two latest snapshots -/

namespace CounterCache

variable {cfg : CacheConfig} {cache cache' : CounterCache} {n : String}

theorem latestPair_eq_none_of_length (h : (cache.held n).length < 2) :
    cache.latestPair n = none := by
  unfold latestPair
  unfold held at h
  cases hlookup : cache.lookup n with
  | none => rfl
  | some deque =>
    rw [hlookup, Option.getD_some] at h
    match deque, h with
    | [], _ => rfl
    | [s], _ => rfl

theorem latestPair_of_held {ss : List CounterSnapshot} {older newer : CounterSnapshot}
    (h : cache.held n = ss ++ [older, newer]) : cache.latestPair n = some (older, newer) := by
  unfold latestPair
  unfold held at h
  cases hlookup : cache.lookup n with
  | none =>
    rw [hlookup] at h
    cases ss <;> cases h
  | some deque =>
    rw [hlookup, Option.getD_some] at h
    rw [h, Option.bind_some]
    simp

/-- What is held of the node after one more snapshot of it. -/
def Recorded (cfg : CacheConfig) (snapshot : CounterSnapshot)
    (before after : List CounterSnapshot) : Prop :=
  after = (before ++ [snapshot]).drop ((before ++ [snapshot]).length - cfg.maxPerNode)

theorem Recorded.length_le {snapshot : CounterSnapshot} {before after : List CounterSnapshot}
    (h : Recorded cfg snapshot before after) : after.length ≤ cfg.maxPerNode := by
  rw [h, List.length_drop]
  omega

theorem Recorded.concat {snapshot : CounterSnapshot} {before after : List CounterSnapshot}
    (h : Recorded cfg snapshot before after) (hmax : 1 ≤ cfg.maxPerNode) :
    ∃ k, after = before.drop k ++ [snapshot] := by
  refine ⟨(before ++ [snapshot]).length - cfg.maxPerNode, ?_⟩
  rw [h, List.drop_append_of_le_length]
  simp
  omega

/-- The two snapshots recorded last, if there is room for two. -/
theorem latestPair_of_recorded {older newer : CounterSnapshot} {ss ss' : List CounterSnapshot}
    (h : Recorded cfg older ss ss') (h' : Recorded cfg newer ss' (cache.held n)) :
    cache.latestPair n = if 2 ≤ cfg.maxPerNode then some (older, newer) else none := by
  split
  · next hmax =>
    obtain ⟨k, hk⟩ := h.concat (by omega)
    have hlen : (ss' ++ [newer]).length - cfg.maxPerNode ≤ (ss.drop k).length := by
      have hle := h.length_le
      rw [hk] at hle ⊢
      simp only [List.length_append, List.length_singleton] at hle ⊢
      omega
    have hpair : ss' ++ [newer] = ss.drop k ++ [older, newer] := by
      rw [hk]
      simp
    have hheld : cache.held n =
        (ss.drop k).drop ((ss' ++ [newer]).length - cfg.maxPerNode) ++ [older, newer] := by
      rw [h', ← List.drop_append_of_le_length hlen, ← hpair]
    exact latestPair_of_held hheld
  · next hmax =>
    have hle := h'.length_le
    exact latestPair_eq_none_of_length (by omega)

end CounterCache

/-! ## Handling the reports -/

/-- What others do meanwhile leaves the snapshots of the node alone. -/
def SameSnapshots {σ : Type} (n : String) (w w' : World σ) : Prop :=
  w'.cache.held n = w.cache.held n

/-- The reports, one after the other. -/
def reportEach [FromTimestamp] (cfg : ControllerConfig) : List CounterReport → CountingProc Unit
  | [] => .done ()
  | report :: reports =>
    (reportCounters cfg report.request).bind fun _ => reportEach cfg reports

theorem reportEach_append [FromTimestamp] (cfg : ControllerConfig)
    (reports reports' : List CounterReport) :
    reportEach cfg (reports ++ reports') =
      (reportEach cfg reports).bind fun _ => reportEach cfg reports' := by
  induction reports with
  | nil => rfl
  | cons report reports ih => rw [List.cons_append, reportEach, reportEach, ih, Prog.bind_assoc]

/-- The operation neither records nor evicts. -/
def LeavesCache : CountingOp → Prop
  | .inr (.record _) | .inr .evictExpired => False
  | _ => True

/-- A report is recorded with its instant, and then leaves the cache alone. -/
theorem reportCounters_records [FromTimestamp] (cfg : ControllerConfig)
    (req : ReportCountersRequest) :
    ∃ rest : DateTime → CountingProc (Except Status Unit),
      (∀ collectedAt, (rest collectedAt).Calls LeavesCache) ∧
        reportCounters cfg req = req.instant.bind fun collectedAt =>
          .call (.inr (.record ⟨req.nodeId, collectedAt, req.counters⟩)) fun _ =>
            rest collectedAt := by
  obtain ⟨stored, hstored, hreport⟩ : ∃ stored : CountingProc (Except Status Unit),
      stored.Calls LeavesCache ∧
        reportCounters cfg req = (recordReport cfg req).bind fun _ => stored := by
    refine ⟨_, ?_, rfl⟩
    refine ⟨trivial, fun r => ?_⟩
    cases r with
    | error e => exact trivial
    | ok u =>
      refine ⟨trivial, fun r => ?_⟩
      cases r <;> exact trivial
  let emitted (collectedAt : DateTime) : CountingProc Unit :=
    if cfg.eventBus then
      (counterOp (.latestPair req.nodeId)).bind fun pair =>
        counterOp (.emitCounter ⟨req.nodeId, req.counters.map (·.rateData pair), collectedAt⟩)
    else .done ()
  refine ⟨fun collectedAt => (emitted collectedAt).bind fun _ => stored, fun collectedAt => ?_, ?_⟩
  · refine Prog.Calls.bind ?_ fun _ => hstored
    by_cases hbus : cfg.eventBus = true
    · simp only [emitted, if_pos hbus]
      exact ⟨trivial, fun _ => ⟨trivial, fun _ => trivial⟩⟩
    · simp only [emitted, if_neg hbus]
      exact trivial
  · rw [hreport]
    exact Prog.bind_assoc ..

section

variable [Extern] [FromTimestamp] (cfg : ControllerConfig) (cacheCfg : CacheConfig)
  {σ : Type} [Storage σ] {n : String}

theorem cache_of_exec {x : Ext} {o : CountingOp} {w w' : World σ}
    {r : BothRes Op.Res CounterOp.Res o} {new : List (Request ⊕ CounterRequest)}
    (ho : LeavesCache o)
    (hx : (countingController cfg cacheCfg σ).exec x o w = some (r, w', new)) :
    w'.cache = w.cache := by
  cases o with
  | inl o =>
    obtain ⟨new', hx⟩ := System.extend_exec_inl hx
    exact World.cache_of_exec hx
  | inr o =>
    have hx := System.extend_exec_inr hx
    cases o with
    | record snapshot => exact ho.elim
    | evictExpired => exact ho.elim
    | latestPair nodeId =>
      cases hx
      rfl
    | emitCounter e =>
      cases hx
      rfl

/-- A program that leaves the cache alone leaves the snapshots of the node alone. -/
theorem ensures_leavesCache {α : Type} {p : CountingProc α} (hp : p.Calls LeavesCache)
    (ss : List CounterSnapshot) {w : World σ} (hw : w.cache.held n = ss) :
    (countingController cfg cacheCfg σ).Ensures (SameSnapshots n) p
      (fun _ w' => w'.cache.held n = ss) w := by
  refine Machine.ensures_of_invariant (I := fun w : World σ => w.cache.held n = ss) ?_ ?_ hp hw
  · intro w w' hR h
    rw [hR, h]
  · intro o ho x w r w' hx h
    rw [cache_of_exec cfg cacheCfg ho hx]
    exact h

/-- What a report leaves of its node, whatever the others do meanwhile. -/
theorem reportCounters_ensures (req : ReportCountersRequest) (w : World σ) (hn : req.nodeId = n) :
    (countingController cfg cacheCfg σ).Ensures (SameSnapshots n) (reportCounters cfg req)
      (fun _ w' => ∃ collectedAt,
        (∀ d, req.collectedAt.bind FromTimestamp.fromTimestamp = some d → collectedAt = d) ∧
          CounterCache.Recorded cacheCfg ⟨n, collectedAt, req.counters⟩ (w.cache.held n)
            (w'.cache.held n)) w := by
  obtain rfl := hn
  obtain ⟨rest, hrest, hreport⟩ := reportCounters_records cfg req
  rw [hreport, Machine.ensures_bind]
  have hrecord (collectedAt : DateTime) (w₁ : World σ)
      (hd : ∀ d, req.collectedAt.bind FromTimestamp.fromTimestamp = some d → collectedAt = d)
      (hw₁ : w₁.cache.held req.nodeId = w.cache.held req.nodeId) :
      (countingController cfg cacheCfg σ).Ensures (SameSnapshots req.nodeId)
        (.call (.inr (.record ⟨req.nodeId, collectedAt, req.counters⟩)) fun _ => rest collectedAt)
        (fun _ w' => ∃ collectedAt,
          (∀ d, req.collectedAt.bind FromTimestamp.fromTimestamp = some d → collectedAt = d) ∧
            CounterCache.Recorded cacheCfg ⟨req.nodeId, collectedAt, req.counters⟩
              (w.cache.held req.nodeId) (w'.cache.held req.nodeId)) w₁ := by
    intro w₂ hR x r w₃ hx
    have hx := System.extend_exec_inr hx
    cases hx
    refine (ensures_leavesCache cfg cacheCfg (hrest collectedAt) _ rfl).mono fun _ w' hw' => ?_
    refine ⟨collectedAt, hd, ?_⟩
    rw [CounterCache.Recorded, hw', ← hw₁, ← hR]
    exact CounterCache.held_record_self _
  unfold ReportCountersRequest.instant
  split
  · next collectedAt hsome =>
    refine hrecord collectedAt w (fun d hd => ?_) rfl
    exact Option.some.inj (hsome.symm.trans hd)
  · next hnone =>
    intro w₁ hR x r w₂ hx
    refine hrecord r w₂ (fun d hd => ?_) ?_
    · rw [hnone] at hd
      cases hd
    · rw [cache_of_exec cfg cacheCfg (o := .inl .now) trivial hx]
      exact hR

end

/-! ## Rates -/

/-- The counter whose rate is asked for. -/
def RuleCounter.count (useBytes : Bool) (c : RuleCounter) : Nat :=
  if useBytes then c.byteCount else c.matchCount

/-- The seconds between two instants, to the millisecond. -/
def elapsedSeconds (t t' : DateTime) : Rat := ((t' - t).tdiv (10 ^ 6) : Int) / 1000

theorem calculateRate_eq {older newer : CounterSnapshot} {ruleName : String} {c c' : RuleCounter}
    (hc : findCounter older ruleName = some c) (hc' : findCounter newer ruleName = some c') :
    calculateRate older newer ruleName =
      if elapsedSeconds older.collectedAt newer.collectedAt ≤ 0 then none
      else some
        ⟨.finite ((c'.matchCount - c.matchCount : Nat) /
            elapsedSeconds older.collectedAt newer.collectedAt),
          .finite ((c'.byteCount - c.byteCount : Nat) /
            elapsedSeconds older.collectedAt newer.collectedAt)⟩ := by
  rw [calculateRate, hc, hc']
  rfl

theorem elapsedSeconds_of_seconds (s s' : Int) :
    elapsedSeconds (s * 10 ^ 9) (s' * 10 ^ 9) = (s' - s : Int) := by
  have hms : (s' * 10 ^ 9 - s * 10 ^ 9).tdiv (10 ^ 6) = (s' - s) * 1000 := by
    have hdiff : s' * 10 ^ 9 - s * 10 ^ 9 = (s' - s) * 1000 * 10 ^ 6 := by ring
    rw [hdiff, Int.mul_tdiv_cancel _ (by norm_num)]
  rw [elapsedSeconds, hms]
  push_cast
  ring

theorem elapsedSeconds_pos {d d' : DateTime} (h : d + 10 ^ 6 ≤ d') : 0 < elapsedSeconds d d' := by
  have hms : (10 ^ 6 : Int) ≤ d' - d := Int.le_sub_left_of_add_le h
  have hdiv : 1 ≤ (d' - d).tdiv (10 ^ 6) := by
    rw [Int.tdiv_eq_ediv_of_nonneg (le_trans (by norm_num) hms)]
    exact Int.le_ediv_of_mul_le (by norm_num) (by simpa using hms)
  have hpos : (0 : Rat) < ((d' - d).tdiv (10 ^ 6) : Int) := by exact_mod_cast hdiv
  exact div_pos hpos (by norm_num)

/-- The milliseconds between two timestamps are those between their seconds if and only if the
    nanoseconds of the later one are ahead, by less than a millisecond. -/
theorem elapsedSeconds_eq_iff {t t' : Timestamp} (h : t.instant + 10 ^ 6 ≤ t'.instant) :
    elapsedSeconds t.instant t'.instant = (t'.seconds - t.seconds : Int) ↔
      t.nanos ≤ t'.nanos ∧ t'.nanos < t.nanos + 10 ^ 6 := by
  have hdiff : t'.instant - t.instant =
      (t'.seconds - t.seconds) * 1000 * 10 ^ 6 + (t'.nanos - t.nanos) := by
    unfold Timestamp.instant
    ring
  have hpos : 0 ≤ t'.instant - t.instant :=
    Int.sub_nonneg_of_le ((Int.le_add_of_nonneg_right (by norm_num)).trans h)
  have hms : elapsedSeconds t.instant t'.instant = (t'.seconds - t.seconds : Int) ↔
      (t'.instant - t.instant) / 10 ^ 6 = (t'.seconds - t.seconds) * 1000 := by
    rw [elapsedSeconds, Int.tdiv_eq_ediv_of_nonneg hpos, div_eq_iff (by norm_num)]
    exact_mod_cast Iff.rfl
  rw [hms, hdiff]
  omega

/-! ## Reported rates -/

/-- The rates of the two counts between two reports, by their timestamps. -/
def RatesReported (cache : CounterCache) (n ruleName : String) (t t' : Timestamp)
    (c c' : RuleCounter) : Prop :=
  ∀ useBytes, nodeRate cache ruleName useBytes n =
    some (.finite (((c'.count useBytes : Rat) - c.count useBytes) /
      elapsedSeconds t.instant t'.instant))

/-- Nothing is lost with the nanoseconds: the seconds differ, and they say how many milliseconds
    lie between the reports, or there is nothing to divide by them. -/
def SecondsSuffice (t t' : Timestamp) (c c' : RuleCounter) : Prop :=
  t.seconds < t'.seconds ∧
    (t.nanos ≤ t'.nanos ∧ t'.nanos < t.nanos + 10 ^ 6 ∨ ∀ useBytes, c.count useBytes =
      c'.count useBytes)

/-- The rates that are derived from two snapshots with the seconds of the timestamps. -/
theorem nodeRate_of_recorded (cache : CounterCache) {cacheCfg : CacheConfig} {n ruleName : String}
    {ss ss' : List CounterSnapshot} {s s' : Int} {cs cs' : List RuleCounter} {c c' : RuleCounter}
    (hc : findCounter ⟨n, s * 10 ^ 9, cs⟩ ruleName = some c)
    (hc' : findCounter ⟨n, s' * 10 ^ 9, cs'⟩ ruleName = some c')
    (h : CounterCache.Recorded cacheCfg ⟨n, s * 10 ^ 9, cs⟩ ss ss')
    (h' : CounterCache.Recorded cacheCfg ⟨n, s' * 10 ^ 9, cs'⟩ ss' (cache.held n))
    (useBytes : Bool) :
    nodeRate cache ruleName useBytes n =
      if 2 ≤ cacheCfg.maxPerNode ∧ s < s' then
        some (.finite ((c'.count useBytes - c.count useBytes : Nat) / (s' - s : Int)))
      else none := by
  rw [nodeRate, CounterCache.latestPair_of_recorded h h']
  by_cases hmax : 2 ≤ cacheCfg.maxPerNode
  · rw [if_pos hmax, Option.bind_some, calculateRate_eq hc hc', elapsedSeconds_of_seconds]
    by_cases hlt : s < s'
    · have hpos : ¬ ((s' - s : Int) : Rat) ≤ 0 := by
        rw [not_le]
        exact_mod_cast Int.sub_pos_of_lt hlt
      rw [if_neg hpos, if_pos ⟨hmax, hlt⟩]
      cases useBytes <;> rfl
    · have hle : ((s' - s : Int) : Rat) ≤ 0 := by
        exact_mod_cast Int.sub_nonpos_of_le (Int.not_lt.mp hlt)
      rw [if_pos hle, if_neg fun h => hlt h.2]
      rfl
  · rw [if_neg hmax, if_neg fun h => hmax h.1]
    rfl

/-- The rates that are derived are those of the timestamps, if and only if there is room for two
    snapshots and the seconds suffice. -/
theorem ratesReported_iff {cacheCfg : CacheConfig} {cache : CounterCache} {n ruleName : String}
    {ss ss' : List CounterSnapshot} {t t' : Timestamp} {cs cs' : List RuleCounter}
    {c c' : RuleCounter} (hlt : t.instant + 10 ^ 6 ≤ t'.instant)
    (hc : cs.find? (fun c => c.ruleName == ruleName) = some c)
    (hc' : cs'.find? (fun c => c.ruleName == ruleName) = some c')
    (hgrown : ∀ useBytes, c.count useBytes ≤ c'.count useBytes)
    (h : CounterCache.Recorded cacheCfg ⟨n, t.seconds * 10 ^ 9, cs⟩ ss ss')
    (h' : CounterCache.Recorded cacheCfg ⟨n, t'.seconds * 10 ^ 9, cs'⟩ ss' (cache.held n)) :
    RatesReported cache n ruleName t t' c c' ↔
      2 ≤ cacheCfg.maxPerNode ∧ SecondsSuffice t t' c c' := by
  have hrate := nodeRate_of_recorded cache hc hc' h h'
  have helapsed : elapsedSeconds t.instant t'.instant ≠ 0 := (elapsedSeconds_pos hlt).ne'
  constructor
  · intro hrates
    by_cases hcond : 2 ≤ cacheCfg.maxPerNode ∧ t.seconds < t'.seconds
    · refine ⟨hcond.1, hcond.2, ?_⟩
      by_contra hlost
      rw [not_or, not_forall] at hlost
      obtain ⟨hnanos, useBytes, hchanged⟩ := hlost
      refine hnanos ((elapsedSeconds_eq_iff hlt).mp ?_)
      have heq := (hrate useBytes).symm.trans (hrates useBytes)
      rw [if_pos hcond] at heq
      have hdiv := F64.finite.inj (Option.some.inj heq)
      rw [Nat.cast_sub (hgrown useBytes)] at hdiv
      have hdelta : ((c'.count useBytes : Rat) - c.count useBytes) ≠ 0 := by
        rw [sub_ne_zero]
        exact_mod_cast Ne.symm hchanged
      have hsecs : ((t'.seconds - t.seconds : Int) : Rat) ≠ 0 := by
        exact_mod_cast (Int.sub_pos_of_lt hcond.2).ne'
      field_simp at hdiv
      exact hdiv
    · have heq := (hrate false).symm.trans (hrates false)
      rw [if_neg hcond] at heq
      cases heq
  · rintro ⟨hmax, hlt', hsame⟩ useBytes
    rw [hrate, if_pos ⟨hmax, hlt'⟩, Nat.cast_sub (hgrown useBytes)]
    rcases hsame with hnanos | hsame
    · rw [(elapsedSeconds_eq_iff hlt).mpr hnanos]
    · rw [hsame useBytes, sub_self, zero_div, zero_div]

/-- Reports of one node, the latest two of which have a timestamp, at least a millisecond apart,
    and a rule that has not been counted backwards. -/
structure LatestTwo (n ruleName : String) where
  earlier : List CounterReport
  older : CounterReport
  newer : CounterReport
  t : Timestamp
  t' : Timestamp
  c : RuleCounter
  c' : RuleCounter
  nodeId_eq : ∀ report ∈ earlier ++ [older, newer], report.nodeId = n
  older_collectedAt : older.collectedAt = some t
  newer_collectedAt : newer.collectedAt = some t'
  older_inRange : t.InRange
  newer_inRange : t'.InRange
  apart : t.instant + 10 ^ 6 ≤ t'.instant
  older_counter : older.counters.find? (fun c => c.ruleName == ruleName) = some c
  newer_counter : newer.counters.find? (fun c => c.ruleName == ruleName) = some c'
  grown : ∀ useBytes, c.count useBytes ≤ c'.count useBytes

/-- All the reports, in their order. -/
def LatestTwo.reports {n ruleName : String} (l : LatestTwo n ruleName) : List CounterReport :=
  l.earlier ++ [l.older, l.newer]

/-- What the last two reports leave of the node. -/
theorem LatestTwo.recorded [Extern] [FromTimestamp] (hchrono : FromTimestamp.Lawful)
    (cfg : ControllerConfig) (cacheCfg : CacheConfig) {σ : Type} [Storage σ] {n ruleName : String}
    (l : LatestTwo n ruleName) {w w' : World σ}
    (hrun : (countingController cfg cacheCfg σ).Exec (SameSnapshots n) (reportEach cfg l.reports) w
      () w') :
    ∃ ss ss', CounterCache.Recorded cacheCfg ⟨n, l.t.seconds * 10 ^ 9, l.older.counters⟩ ss ss' ∧
      CounterCache.Recorded cacheCfg ⟨n, l.t'.seconds * 10 ^ 9, l.newer.counters⟩ ss'
        (w'.cache.held n) := by
  rw [LatestTwo.reports, reportEach_append] at hrun
  refine hrun.ensures (Q := fun _ w' => ∃ ss ss', CounterCache.Recorded cacheCfg
    ⟨n, l.t.seconds * 10 ^ 9, l.older.counters⟩ ss ss' ∧ CounterCache.Recorded cacheCfg
      ⟨n, l.t'.seconds * 10 ^ 9, l.newer.counters⟩ ss' (w'.cache.held n)) ?_
  rw [Machine.ensures_bind]
  refine Machine.ensures_of_forall fun _ w₁ => ?_
  -- the instant a report is recorded with
  have hinstant {report : CounterReport} {t : Timestamp} (ht : report.collectedAt = some t)
      (hrange : t.InRange) {d : DateTime} (hd : ∀ d', report.request.collectedAt.bind
        FromTimestamp.fromTimestamp = some d' → d = d') : d = t.seconds * 10 ^ 9 := by
    refine hd _ ?_
    rw [CounterReport.request, ht]
    exact hchrono t hrange
  have holder : l.older.request.nodeId = n := l.nodeId_eq l.older (by simp)
  have hnewer : l.newer.request.nodeId = n := l.nodeId_eq l.newer (by simp)
  rw [reportEach, Machine.ensures_bind]
  refine (reportCounters_ensures cfg cacheCfg _ w₁ holder).mono fun _ w₂ hw₂ => ?_
  obtain ⟨d, hd, hrec⟩ := hw₂
  rw [reportEach, Machine.ensures_bind]
  refine (reportCounters_ensures cfg cacheCfg _ w₂ hnewer).mono fun _ w₃ hw₃ => ?_
  obtain ⟨d', hd', hrec'⟩ := hw₃
  obtain rfl := hinstant l.older_collectedAt l.older_inRange hd
  obtain rfl := hinstant l.newer_collectedAt l.newer_inRange hd'
  exact ⟨_, _, hrec, hrec'⟩

/-- **The rates that are derived after the reports are those of their timestamps, if and only if
    there is room for two snapshots and the seconds suffice.** -/
theorem reportedRate_iff [Extern] [FromTimestamp] (hchrono : FromTimestamp.Lawful)
    (cfg : ControllerConfig) (cacheCfg : CacheConfig) {σ : Type} [Storage σ] {n ruleName : String}
    (l : LatestTwo n ruleName) {w w' : World σ}
    (hrun : (countingController cfg cacheCfg σ).Exec (SameSnapshots n) (reportEach cfg l.reports) w
      () w') :
    RatesReported w'.cache n ruleName l.t l.t' l.c l.c' ↔
      2 ≤ cacheCfg.maxPerNode ∧ SecondsSuffice l.t l.t' l.c l.c' := by
  obtain ⟨ss, ss', hrec, hrec'⟩ := l.recorded hchrono cfg cacheCfg hrun
  exact ratesReported_iff l.apart l.older_counter l.newer_counter l.grown hrec hrec'

/-! ## Two reports within a second -/

/-- Reports of the node "n1" at these timestamps, a hundred matches apart. -/
def hundredApart (t t' : Timestamp) (older_inRange : t.InRange) (newer_inRange : t'.InRange)
    (apart : t.instant + 10 ^ 6 ≤ t'.instant) : LatestTwo "n1" "drop_all" where
  earlier := []
  older := ⟨"n1", [⟨"drop_all", 0, 0⟩], some t, []⟩
  newer := ⟨"n1", [⟨"drop_all", 100, 0⟩], some t', []⟩
  t := t
  t' := t'
  c := ⟨"drop_all", 0, 0⟩
  c' := ⟨"drop_all", 100, 0⟩
  nodeId_eq := by simp
  older_collectedAt := rfl
  newer_collectedAt := rfl
  older_inRange := older_inRange
  newer_inRange := newer_inRange
  apart := apart
  older_counter := rfl
  newer_counter := rfl
  grown useBytes := by cases useBytes <;> decide

instance (t : Timestamp) : Decidable t.InRange :=
  inferInstanceAs (Decidable (_ ∧ _))

/-- A controller the node "n1" has registered with. -/
def reportingN1 : World MemoryStorage :=
  .init (MemoryStorage.new.registerNode (.new 0 "n1" "host" "agent:1" ∅ "1.0")).2

/-- It handles the reports of the node with nothing else to do. -/
theorem exec_hundredApart (l : LatestTwo "n1" "drop_all")
    (hl : ((@countingController .sample plainConfig .sample ⟨3600 * 10 ^ 9, 120⟩
      MemoryStorage _).eval (List.replicate 6 (.quiet 200 ""))
        (@reportEach .sample plainConfig l.reports) reportingN1).isSome = true) :
    ∃ w' : World MemoryStorage,
      (@countingController .sample plainConfig .sample ⟨3600 * 10 ^ 9, 120⟩ MemoryStorage _).Exec
        (SameSnapshots "n1") (@reportEach .sample plainConfig l.reports)
        reportingN1 () w' := by
  obtain ⟨⟨u, w'⟩, heval⟩ := Option.isSome_iff_exists.mp hl
  have hsame : ∀ w : World MemoryStorage, SameSnapshots "n1" w w := fun _ => rfl
  exact ⟨w', Machine.exec_of_eval hsame heval⟩

/-- A hundred matches in ten seconds. -/
theorem reportedRate_seconds : ∃ w' : World MemoryStorage,
    RatesReported w'.cache "n1" "drop_all" ⟨100, 0⟩ ⟨110, 0⟩ ⟨"drop_all", 0, 0⟩
      ⟨"drop_all", 100, 0⟩ := by
  let l := hundredApart ⟨100, 0⟩ ⟨110, 0⟩ (by decide) (by decide) (by decide)
  obtain ⟨w', hrun⟩ := exec_hundredApart l (by decide +kernel)
  refine ⟨w', (@reportedRate_iff .sample .sample FromTimestamp.lawful_sample plainConfig
    ⟨3600 * 10 ^ 9, 120⟩ MemoryStorage _ "n1" "drop_all" l _ w' hrun).mpr ?_⟩
  refine ⟨by decide, by decide, ?_⟩
  exact .inl (by decide)

/-- A hundred matches in half a second have no rate. -/
theorem not_ratesReported : ¬ ∀ (l : LatestTwo "n1" "drop_all") (w w' : World MemoryStorage),
    (@countingController .sample plainConfig .sample ⟨3600 * 10 ^ 9, 120⟩ MemoryStorage _).Exec
        (SameSnapshots "n1") (@reportEach .sample plainConfig l.reports) w () w' →
      RatesReported w'.cache "n1" "drop_all" l.t l.t' l.c l.c' := by
  intro h
  let l := hundredApart ⟨100, 0⟩ ⟨100, 500000000⟩ (by decide) (by decide) (by decide)
  obtain ⟨w', hrun⟩ := exec_hundredApart l (by decide +kernel)
  obtain ⟨ss, ss', hrec, hrec'⟩ := @LatestTwo.recorded .sample .sample FromTimestamp.lawful_sample
    plainConfig ⟨3600 * 10 ^ 9, 120⟩ MemoryStorage _ "n1" "drop_all" l _ w' hrun
  have hrate := nodeRate_of_recorded w'.cache l.older_counter l.newer_counter hrec hrec'
    false
  have hnone := hrate.symm.trans (h l _ w' hrun false)
  rw [if_neg (by decide)] at hnone
  cases hnone

end PaciNet

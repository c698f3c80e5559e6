import PaciNet.Server.Counters

/-!
# What the counter cache keeps

The cache drops the oldest snapshots of a node when there are too many, and expired ones when it
is told to evict. Eviction takes snapshots from the front as long as they have expired. The instants
are the agents' own, so nothing says that an expired snapshot is in front.

**Eviction keeps exactly what has not expired if and only if no snapshot the cache holds has
expired behind one of the same node that has not** (`retainedExactly_iff`). Reports in the order
of their instants are enough for that (`inExpiryOrder_of_sorted`).
-/

set_option autoImplicit false

/-- What `dropWhile` leaves is what does not satisfy the predicate, if and only if nothing that
    satisfies it stands behind something that does not. -/
theorem List.dropWhile_eq_filter_iff {α : Type} {p : α → Bool} {l : List α} :
    l.dropWhile p = l.filter (fun a => !p a) ↔ l.Pairwise fun a b => p b = true → p a = true := by
  induction l with
  | nil => simp
  | cons a l ih =>
    by_cases ha : p a = true
    · rw [List.dropWhile_cons_of_pos ha, List.filter_cons_of_neg (by simp [ha]), ih,
        List.pairwise_cons]
      simp [ha]
    · rw [List.dropWhile_cons_of_neg ha, List.filter_cons_of_pos (by simp [ha]),
        List.pairwise_cons]
      constructor
      · intro h
        have hall : ∀ b ∈ l, p b = false := by
          have hfilter := (List.cons.inj h).2.symm
          simpa using List.filter_eq_self.mp hfilter
        refine ⟨fun b hb hpb => absurd hpb (by simp [hall b hb]), ?_⟩
        refine List.pairwise_of_forall_mem_list fun b _ c hc hpc => ?_
        rw [hall c hc] at hpc
        cases hpc
      · rintro ⟨hfirst, -⟩
        have hfilter : l.filter (fun a => !p a) = l := by
          refine List.filter_eq_self.mpr fun b hb => ?_
          by_contra hpb
          exact ha (hfirst b hb (by simpa using hpb))
        rw [hfilter]

namespace PaciNet

open Lib

namespace CounterCache

/-! ## The operations, node by node -/

/-- The snapshots the cache holds of a node, oldest first. -/
def held (cache : CounterCache) (nodeId : String) : List CounterSnapshot :=
  (cache.lookup nodeId).getD []

variable {cfg : CacheConfig} {now : DateTime} {cache : CounterCache} {n : String}

theorem held_record_self (snapshot : CounterSnapshot) :
    (cache.record cfg snapshot).held snapshot.nodeId =
      (cache.held snapshot.nodeId ++ [snapshot]).drop
        ((cache.held snapshot.nodeId ++ [snapshot]).length - cfg.maxPerNode) := by
  rw [held, record, AList.lookup_insert]
  rfl

theorem held_record_of_ne {snapshot : CounterSnapshot} (h : n ≠ snapshot.nodeId) :
    (cache.record cfg snapshot).held n = cache.held n := by
  rw [held, record, AList.lookup_insert_ne h]
  rfl

theorem lookup_evictExpired :
    (cache.evictExpired cfg now).lookup n =
      ((cache.lookup n).map (unexpired cfg now)).filter fun ds => !ds.isEmpty := by
  ext ds
  rw [Option.filter_eq_some_iff, Option.map_eq_some_iff]
  constructor
  · intro h
    have hmem := AList.mem_lookup_iff.mp h
    obtain ⟨hmap, hne⟩ := List.mem_filter.mp hmem
    obtain ⟨⟨m, ds'⟩, he, heq⟩ := List.mem_map.mp hmap
    cases heq
    exact ⟨⟨ds', AList.mem_lookup_iff.mpr he, rfl⟩, hne⟩
  · rintro ⟨⟨ds', hds', rfl⟩, hne⟩
    have he := AList.mem_lookup_iff.mp hds'
    exact AList.mem_lookup_iff.mpr (List.mem_filter.mpr ⟨List.mem_map.mpr ⟨_, he, rfl⟩, hne⟩)

theorem held_evictExpired :
    (cache.evictExpired cfg now).held n = unexpired cfg now (cache.held n) := by
  rw [held, lookup_evictExpired, held]
  cases cache.lookup n with
  | none => rfl
  | some ds =>
    rw [Option.map_some, Option.filter_some]
    cases hds : unexpired cfg now ds with
    | nil => simpa using hds.symm
    | cons d ds' => simpa using hds.symm

/-- A node without a snapshot is gone after eviction. -/
theorem held_ne_nil_of_mem (h : n ∈ (cache.evictExpired cfg now).nodeIds) :
    (cache.evictExpired cfg now).held n ≠ [] := by
  have hsome : ((cache.evictExpired cfg now).lookup n).isSome := AList.lookup_isSome.mpr h
  obtain ⟨ds, hds⟩ := Option.isSome_iff_exists.mp hsome
  have hne := (Option.filter_eq_some_iff.mp (lookup_evictExpired ▸ hds)).2
  rw [held, hds]
  simpa using hne

end CounterCache

/-! ## Runs -/

/-- A call that writes to the cache. -/
inductive CacheCall where
  | record (snapshot : CounterSnapshot)
  | evictExpired (now : DateTime)
  deriving DecidableEq

namespace CacheCall

def apply (cfg : CacheConfig) (cache : CounterCache) : CacheCall → CounterCache
  | record snapshot => cache.record cfg snapshot
  | evictExpired now => cache.evictExpired cfg now

/-- The cache after the calls. -/
def run (cfg : CacheConfig) (calls : List CacheCall) : CounterCache :=
  calls.foldl (apply cfg) ∅

/-- The snapshot the call records of the node. -/
def recordedOf (n : String) : CacheCall → Option CounterSnapshot
  | record snapshot => if snapshot.nodeId = n then some snapshot else none
  | evictExpired _ => none

/-- The snapshots recorded of a node, in recording order. -/
def recorded (calls : List CacheCall) (n : String) : List CounterSnapshot :=
  calls.filterMap (recordedOf n)

variable {cfg : CacheConfig} {now : DateTime} {calls : List CacheCall} {n : String}

theorem run_concat (call : CacheCall) :
    run cfg (calls ++ [call]) = call.apply cfg (run cfg calls) := by
  simp [run]

theorem recorded_concat (call : CacheCall) :
    recorded (calls ++ [call]) n = recorded calls n ++ (recordedOf n call).toList := by
  cases h : recordedOf n call <;> simp [recorded, h]

/-- What is held of a node was recorded of it, in this order. -/
theorem held_sublist (cfg : CacheConfig) (calls : List CacheCall) (n : String) :
    ((run cfg calls).held n).Sublist (recorded calls n) := by
  induction calls using List.reverseRecOn with
  | nil => exact List.Sublist.refl _
  | append_singleton calls call ih =>
    rw [run_concat, recorded_concat]
    cases call with
    | record snapshot =>
      show ((CounterCache.record cfg snapshot _).held n).Sublist _
      by_cases hn : n = snapshot.nodeId
      · subst hn
        rw [CounterCache.held_record_self, recordedOf, if_pos rfl]
        exact (List.drop_sublist _ _).trans (ih.append (List.Sublist.refl _))
      · rw [CounterCache.held_record_of_ne hn, recordedOf, if_neg (Ne.symm hn)]
        simpa using ih
    | evictExpired now =>
      show ((CounterCache.evictExpired cfg now _).held n).Sublist _
      rw [CounterCache.held_evictExpired]
      exact ((List.dropWhile_sublist _).trans ih).trans (List.sublist_append_left _ _)

/-- No more is held of a node than there is room for. -/
theorem length_held_le (cfg : CacheConfig) (calls : List CacheCall) (n : String) :
    ((run cfg calls).held n).length ≤ cfg.maxPerNode := by
  induction calls using List.reverseRecOn with
  | nil => exact Nat.zero_le _
  | append_singleton calls call ih =>
    rw [run_concat]
    cases call with
    | record snapshot =>
      show ((CounterCache.record cfg snapshot _).held n).length ≤ _
      by_cases hn : n = snapshot.nodeId
      · subst hn
        rw [CounterCache.held_record_self, List.length_drop]
        omega
      · rw [CounterCache.held_record_of_ne hn]
        exact ih
    | evictExpired now =>
      show ((CounterCache.evictExpired cfg now _).held n).length ≤ _
      rw [CounterCache.held_evictExpired]
      exact (List.dropWhile_sublist _).length_le.trans ih

end CacheCall

open CacheCall

/-! ## Retention -/

/-- Right after an eviction at `now`, the cache keeps of each node exactly what it held that has
    not expired, in recording order and within the bound, and has no node without a snapshot. -/
structure RetainedExactly (cfg : CacheConfig) (calls : List CacheCall) (now : DateTime) :
    Prop where
  kept : ∀ n, (run cfg (calls ++ [.evictExpired now])).held n =
    ((run cfg calls).held n).filter fun s => now - cfg.retention ≤ s.collectedAt
  ordered : ∀ n, ((run cfg (calls ++ [.evictExpired now])).held n).Sublist (recorded calls n)
  bounded : ∀ n, ((run cfg (calls ++ [.evictExpired now])).held n).length ≤ cfg.maxPerNode
  absent : ∀ n ∈ (run cfg (calls ++ [.evictExpired now])).nodeIds,
    (run cfg (calls ++ [.evictExpired now])).held n ≠ []

/-- No snapshot has expired behind one that has not. -/
def InExpiryOrder (cfg : CacheConfig) (now : DateTime) (snapshots : List CounterSnapshot) : Prop :=
  snapshots.Pairwise fun s s' =>
    s'.collectedAt < now - cfg.retention → s.collectedAt < now - cfg.retention

theorem unexpired_eq_filter_iff {cfg : CacheConfig} {now : DateTime}
    {snapshots : List CounterSnapshot} :
    CounterCache.unexpired cfg now snapshots =
        snapshots.filter (fun s => now - cfg.retention ≤ s.collectedAt) ↔
      InExpiryOrder cfg now snapshots := by
  have hnot : (fun s : CounterSnapshot => decide (now - cfg.retention ≤ s.collectedAt)) =
      fun s => !decide (s.collectedAt < now - cfg.retention) := by
    funext s
    rw [← decide_not, decide_eq_decide, Int.not_lt]
  rw [CounterCache.unexpired, hnot, List.dropWhile_eq_filter_iff, InExpiryOrder]
  simp only [decide_eq_true_eq]

/-- Reports in the order of their instants expire in this order. -/
theorem inExpiryOrder_of_sorted {cfg : CacheConfig} {calls : List CacheCall} {n : String}
    (h : (recorded calls n).Pairwise fun s s' => s.collectedAt ≤ s'.collectedAt) (now : DateTime) :
    InExpiryOrder cfg now ((run cfg calls).held n) :=
  (h.sublist (held_sublist cfg calls n)).imp fun hle hlt => lt_of_le_of_lt hle hlt

/-- **Eviction is exact exactly where nothing has expired behind what has not.** -/
theorem retainedExactly_iff (cfg : CacheConfig) (calls : List CacheCall) (now : DateTime) :
    RetainedExactly cfg calls now ↔ ∀ n, InExpiryOrder cfg now ((run cfg calls).held n) := by
  have hrun : run cfg (calls ++ [.evictExpired now]) = (run cfg calls).evictExpired cfg now :=
    run_concat _
  constructor
  · intro h n
    refine unexpired_eq_filter_iff.mp ?_
    rw [← CounterCache.held_evictExpired, ← hrun]
    exact h.kept n
  · intro h
    refine ⟨fun n => ?_, fun n => ?_, fun n => length_held_le .., fun n hn => ?_⟩
    · rw [hrun, CounterCache.held_evictExpired]
      exact unexpired_eq_filter_iff.mpr (h n)
    · have hsub := held_sublist cfg (calls ++ [.evictExpired now]) n
      rw [recorded_concat, recordedOf, Option.toList_none, List.append_nil] at hsub
      exact hsub
    · rw [hrun] at hn ⊢
      exact CounterCache.held_ne_nil_of_mem hn

/-- A report from the past, sent after one from the present, outlives its time. -/
theorem not_retainedExactly : ¬ ∀ cfg calls now, RetainedExactly cfg calls now := by
  intro h
  have hkept := (h ⟨10, 100⟩ [.record ⟨"n1", 20, []⟩, .record ⟨"n1", 0, []⟩] 25).kept "n1"
  revert hkept
  decide

end PaciNet

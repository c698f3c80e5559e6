import PaciNet.Proof.Runs
import PaciNet.Server.Counters

/-!
# The nodes of the counter cache

A counter condition whose instance has neither target nor deployed nodes looks at all nodes of the
counter cache. The cache and the storage are kept in step by nobody: a report is recorded whoever
it comes from, and a node that is removed leaves its snapshots behind until they expire.

**The cache knows registered nodes only, as long as every report is recorded for a node that is
registered at that moment, and no node is removed that has snapshots in the cache.** Evictions and
evaluations do no harm.
-/

set_option autoImplicit false

namespace PaciNet

open Lib

/-- A controller with counter reports and its tasks. -/
abbrev CountingPool :=
  Config CountingOp (BothRes Op.Res CounterOp.Res) (World MemoryStorage)
    (Request ⊕ CounterRequest) (Reply ⊕ CounterReply)

/-- A step of it. -/
abbrev CountingLabel := Label (World MemoryStorage) Ext (Request ⊕ CounterRequest)

namespace World

/-- The node is registered. -/
def Registered (w : World MemoryStorage) (nodeId : String) : Prop :=
  (w.storage.nodes.get? nodeId).isSome = true

instance (w : World MemoryStorage) (nodeId : String) : Decidable (w.Registered nodeId) :=
  inferInstanceAs (Decidable (_ = _))

/-- The cache knows registered nodes only, and so does a counter condition that looks at all nodes
    of the cache. -/
structure DecidesByRegistered (w : World MemoryStorage) : Prop where
  cached : ∀ n ∈ w.cache.nodeIds, w.Registered n
  checked : ∀ context : FsmContext, context.targetNodes = [] → context.deployedNodes = [] →
    ∀ n ∈ nodesToCheck w.cache context, w.Registered n

end World

/-- Requests arrive, tasks run in any order, and the counters are reported and evicted. -/
def counting : CountingPool → CountingLabel → Bool
  | _, .arrive (.inl q) => !q.isInternal
  | _, .arrive (.inr _) => true
  | _, .run _ _ => true
  | _, .env _ => false

/-- The task may perform its next operation: a report is recorded for a registered node, and a node
    is removed that has no snapshots. -/
def CountingOp.inStep (w : World MemoryStorage) : CountingOp → Bool
  | .inr (.record snapshot) => decide (w.Registered snapshot.nodeId)
  | .inl (.storage (.removeNode n)) => decide (n ∉ w.cache.nodeIds)
  | _ => true

/-- Every report is recorded for a registered node, and no node is removed that has snapshots. -/
def inStep (c : CountingPool) (l : CountingLabel) : Bool :=
  counting c l && match l with
    | .run i _ => (c.threads[i]?).all fun t => match t.prog with
        | .done _ => true
        | .call o _ => CountingOp.inStep c.shared o
    | _ => true

/-- Adaptive decisions use registered nodes only, in the runs of a controller that starts with an
    empty cache and no tasks. -/
def RegisteredOnly [Extern] [FromTimestamp] (cfg : ControllerConfig) (cacheCfg : CacheConfig)
    (C : CountingPool → CountingLabel → Bool) : Prop :=
  ∀ c₀ c : CountingPool, c₀.threads = [] → c₀.shared.cache = ∅ →
    (countingController cfg cacheCfg MemoryStorage).Steps (fun c l => C c l) c₀ c →
    c.shared.DecidesByRegistered

/-! ## What the operations do to the cache and to the nodes -/

namespace CounterCache

theorem mem_nodeIds_record {cacheCfg : CacheConfig} {snapshot : CounterSnapshot}
    {cache : CounterCache} {n : String} (h : n ∈ (cache.record cacheCfg snapshot).nodeIds) :
    n = snapshot.nodeId ∨ n ∈ cache.nodeIds :=
  (AList.mem_insert _).1 h

theorem mem_nodeIds_evictExpired {cacheCfg : CacheConfig} {now : DateTime} {cache : CounterCache}
    {n : String} (h : n ∈ (cache.evictExpired cacheCfg now).nodeIds) : n ∈ cache.nodeIds := by
  obtain ⟨e, he, rfl⟩ := List.mem_map.1 h
  obtain ⟨e', he', rfl⟩ := List.mem_map.1 (List.mem_filter.1 he).1
  exact List.mem_map.2 ⟨e', he', rfl⟩

end CounterCache

/-- Only a removal makes a node unknown. -/
theorem MemoryStorage.registered_after {s : MemoryStorage} {n : String} (now : DateTime)
    (c : StorageCall) (hc : c ≠ .removeNode n) (h : (s.nodes.get? n).isSome = true) :
    ((Storage.call now c s).2.nodes.get? n).isSome = true := by
  rw [MemoryStorage.call_snd]
  cases c with
  | registerNode node =>
    show ((s.nodes.insert node).get? n).isSome = true
    rw [Table.get?_insert]
    split
    · rfl
    · exact h
  | removeNode m =>
    have hm : n ≠ m := fun hnm => hc (by rw [hnm])
    show ((s.nodes.erase m).get? n).isSome = true
    rw [Table.get?_erase, if_neg hm]
    exact h
  | updateHeartbeat | updateNodeState | updateAnnotations =>
    simp only [MemoryStorage.after, Table.isSome_get?_modify]
    exact h
  | markStaleNodes =>
    simp only [MemoryStorage.after, MemoryStorage.markStaleNodes, Table.isSome_get?_mapAll]
    exact h
  | _ => exact h

theorem World.registered_of_exec [Extern] {x : Ext} {o : Op} {w w' : World MemoryStorage}
    {r : o.Res} {new : List Request} {n : String} (hx : World.exec x o w = some (r, w', new))
    (ho : o ≠ .storage (.removeNode n)) (h : w.Registered n) : w'.Registered n := by
  have hs := (World.stepped_of_exec hx).storage
  cases o with
  | storage c =>
    have hc : w'.storage = (Storage.call x.now c w.storage).2 := congrArg Prod.snd hs
    rw [Registered, hc]
    exact MemoryStorage.registered_after x.now c (fun hc => ho (by rw [hc])) h
  | _ =>
    rw [Registered, show w'.storage = w.storage from hs]
    exact h

/-- No operation of the controller itself writes to the cache. -/
theorem World.cache_of_exec [Extern] {σ : Type} [Storage σ] {x : Ext} {o : Op} {w w' : World σ}
    {r : o.Res} {new : List Request} (hx : World.exec x o w = some (r, w', new)) :
    w'.cache = w.cache := by
  have hstrand : ∀ (w : World σ) (addr : String) (req : DeployRulesRequest)
      (reached : Bool), (w.strand addr req reached).cache = w.cache := by
    intro w addr req reached
    cases reached <;> rfl
  cases o with
  | deployRules addr req =>
    simp only [exec] at hx
    split at hx
    · split at hx
      · cases hx
      · cases hx
        rfl
    · cases hx
      exact hstrand _ _ _ _
    · cases hx
      exact hstrand _ _ _ _
  | uuid =>
    simp only [exec] at hx
    split at hx
    · cases hx
    · cases hx
      rfl
  | joinSetNext joinSet =>
    simp only [exec] at hx
    split at hx
    · cases hx
    · split at hx
      · cases hx
        rfl
      · cases hx
      · cases hx
        rfl
  | _ =>
    cases hx
    rfl

/-! ## Runs -/

/-- What an operation in step keeps. -/
theorem cached_of_exec [Extern] [FromTimestamp] (cfg : ControllerConfig) (cacheCfg : CacheConfig)
    {x : Ext} {o : CountingOp} {w w' : World MemoryStorage}
    {r : BothRes Op.Res CounterOp.Res o} {new : List (Request ⊕ CounterRequest)}
    (hx : (countingController cfg cacheCfg MemoryStorage).exec x o w = some (r, w', new))
    (ho : CountingOp.inStep w o = true) (h : ∀ n ∈ w.cache.nodeIds, w.Registered n) :
    ∀ n ∈ w'.cache.nodeIds, w'.Registered n := by
  intro n hn
  cases o with
  | inl o =>
    obtain ⟨new', hx⟩ := System.extend_exec_inl hx
    rw [World.cache_of_exec hx] at hn
    refine World.registered_of_exec hx ?_ (h n hn)
    rintro rfl
    exact of_decide_eq_true ho hn
  | inr o =>
    have hx := System.extend_exec_inr hx
    cases o with
    | record snapshot =>
      cases hx
      rcases CounterCache.mem_nodeIds_record hn with rfl | hn
      · exact of_decide_eq_true ho
      · exact h n hn
    | evictExpired =>
      cases hx
      exact h n (CounterCache.mem_nodeIds_evictExpired hn)
    | latestPair nodeId =>
      cases hx
      exact h n hn
    | emitCounter e =>
      cases hx
      exact h n hn

theorem World.decidesByRegistered {w : World MemoryStorage}
    (h : ∀ n ∈ w.cache.nodeIds, w.Registered n) : w.DecidesByRegistered where
  cached := h
  checked context htarget hdeployed n hn := by
    rw [nodesToCheck, if_pos htarget, if_pos hdeployed] at hn
    exact h n hn

theorem registeredOnly [Extern] [FromTimestamp] (cfg : ControllerConfig) (cacheCfg : CacheConfig) :
    RegisteredOnly cfg cacheCfg inStep := by
  intro c₀ c hidle hempty hrun
  apply World.decidesByRegistered
  refine hrun.shared_invariant (fun w => ∀ n ∈ w.cache.nodeIds, w.Registered n) ?_ ?_ ?_
  · intro c i t o k x r w new hl ht hk hx h
    refine cached_of_exec cfg cacheCfg hx ?_ h
    have hl := (Bool.and_eq_true_iff.1 hl).2
    simp only [ht, hk, Option.all_some] at hl
    exact hl
  · intro c w hl
    exact absurd hl Bool.false_ne_true
  · rw [hempty]
    intro n hn
    exact absurd hn List.not_mem_nil

/-! ## A node that reports and is removed -/

/-- A controller that has just started. -/
def CountingPool.fresh : CountingPool := ⟨.init .new, []⟩

/-- The node "n1" registers and reports a counter. -/
def registerAndReport : List CountingLabel :=
  .arrive (.inl (.registerNode ⟨"host", "10.0.0.1:50052", ∅, "1.0", ∅⟩)) ::
    Label.turns 0 3 (.quiet 0 "n1") ++
  .arrive (.inr (.reportCounters ⟨"n1", [⟨"drop_all", 5, 500⟩], some 1, []⟩)) ::
    Label.turns 1 3 (.quiet 1 "")

theorem registeredOnly_reported : ∃ c : CountingPool,
    "n1" ∈ c.shared.cache.nodeIds ∧ c.shared.DecidesByRegistered := by
  obtain ⟨c, _, hrun, -, hc⟩ := System.steps_of_runs
    (@countingController .sample plainConfig .sample ⟨3600 * 10 ^ 9, 100⟩ MemoryStorage _)
    CountingPool.fresh (fun c l (hl : inStep c l) => hl) registerAndReport []
    (fun c _ => decide ("n1" ∈ c.shared.cache.nodeIds)) (by decide +kernel)
  exact ⟨c, of_decide_eq_true hc,
    @registeredOnly .sample .sample plainConfig _ CountingPool.fresh c rfl rfl hrun⟩

/-- Once it is removed its snapshots are still in the cache. -/
theorem not_registeredOnly :
    ¬ @RegisteredOnly .sample .sample plainConfig ⟨3600 * 10 ^ 9, 100⟩ counting := by
  intro h
  obtain ⟨c, _, hrun, -, hc⟩ := System.steps_of_runs
    (@countingController .sample plainConfig .sample ⟨3600 * 10 ^ 9, 100⟩ MemoryStorage _)
    CountingPool.fresh (fun c l (hl : counting c l) => hl)
    (registerAndReport ++ .arrive (.inl (.removeNode "n1")) :: Label.turns 2 1 (.quiet 2 "")) []
    (fun c _ => decide ("n1" ∈ c.shared.cache.nodeIds ∧ ¬ c.shared.Registered "n1"))
    (by decide +kernel)
  obtain ⟨hcached, hgone⟩ := of_decide_eq_true hc
  exact hgone ((h CountingPool.fresh c rfl rfl hrun).cached "n1" hcached)

end PaciNet

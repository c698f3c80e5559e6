import PaciNet.Proof.InstanceDeploys
import PaciNet.Proof.Runs

/-!
# The numbers of an action result

A result is built in four places. The loops of a deploy and of a rollback count what they collect,
and an empty selection counts nothing. The fourth is a batched deploy that finds all its batches
done: it reports the lengths of the lists of deployed and failed nodes against the size of the
selection, although the lists hold nodes of other actions, and may hold one node twice.

**Throughout a run the numbers of the result add up, and `all_succeeded` is true of it only if no
node it counts failed in its latest deploy, exactly where they do so whenever all batches are
found done** (and no number leaves its `u32`).
-/

set_option autoImplicit false

namespace PaciNet

open Lib Prog

/-- The nodes a result counts: those it has node results for, or all that are listed. -/
def FsmContext.counted (context : FsmContext) (r : ActionResult) : List String :=
  if r.nodeResults = [] then context.deployedNodes ++ context.failedNodes
  else r.nodeResults.map NodeActionResult.nodeId

/-- `all_succeeded: true`. -/
def allSucceeded : SimpleCondition := ⟨some true, none, none⟩

/-- The numbers of the last result add up, and where `all_succeeded` is true of it no node it
    counts failed in its latest deploy. -/
structure AddsUp (context : FsmContext) (ds : List NodeActionResult) : Prop where
  sum : ∀ r ∈ context.lastActionResult, r.succeeded + r.failed = r.total
  succeeded : ∀ r ∈ context.lastActionResult, evaluateSimple allSucceeded context = true →
    ∀ n ∈ context.counted r, latestOutcome ds n ≠ some false

/-- The lists are the books of all that was selected: their lengths add up to its size, and if no
    node is listed as failed the latest deploy to no listed node failed. -/
structure ListsBalance (context : FsmContext) (ds : List NodeActionResult) (total : Nat) :
    Prop where
  sum : asU32 context.deployedNodes.length + asU32 context.failedNodes.length = asU32 total
  succeeded : asU32 context.failedNodes.length = 0 → 0 < asU32 context.deployedNodes.length →
    ∀ n ∈ context.deployedNodes ++ context.failedNodes, latestOutcome ds n ≠ some false

/-- The plan of an entry leaves a result that adds up: where all batches are found done the lists
    balance, and the number of nodes of any other deploy or rollback fits a `u32`. -/
def Plan.Balances (context : FsmContext) (ds : List NodeActionResult) : Plan → Prop
  | .batchesDone total => ListsBalance context ds total
  | .deploys now => asU32 now.length = now.length
  | .rollsBack => asU32 context.deployedNodes.length = context.deployedNodes.length
  | .nothing | .noNodes => True

def EntryStep.Balances (ds : List NodeActionResult) (s : EntryStep) : Prop :=
  s.plan.Balances s.entry.context ds

/-! ## Single results -/

theorem evaluateSimple_allSucceeded {context : FsmContext} {r : ActionResult}
    (hr : context.lastActionResult = some r) :
    evaluateSimple allSucceeded context = true ↔ r.failed = 0 ∧ 0 < r.succeeded := by
  simp [evaluateSimple, allSucceeded, hr]

/-- The numbers of a loop add up if their sum fits. -/
theorem ActionResult.Tallied.sum_iff {r : ActionResult} (h : r.Tallied) :
    r.succeeded + r.failed = r.total ↔ asU32 r.nodeResults.length = r.nodeResults.length := by
  have hlength := List.length_eq_countP_add_countP (·.success) (l := r.nodeResults)
  have hfailed : r.nodeResults.countP (!·.success) =
      r.nodeResults.countP fun a => decide ¬ a.success = true := by
    refine List.countP_congr fun a _ => ?_
    cases a.success <;> simp
  rw [h.succeeded, h.failed, h.total, hfailed, ← hlength]
  exact eq_comm

/-- If none has failed every node result is a success. -/
theorem ActionResult.Tallied.all_success {r : ActionResult} (h : r.Tallied)
    (hfailed : r.failed = 0) : ∀ res ∈ r.nodeResults, res.success = true := by
  intro res hres
  rw [h.failed, List.countP_eq_zero] at hfailed
  simpa using hfailed res hres

section

variable {context : FsmContext} {ds new : List NodeActionResult} {r : ActionResult}

/-- The result of a loop that is about the deploys made last. -/
theorem addsUp_tallied (h : r.Tallied) (hresult : context.lastActionResult = some r)
    (hnew : ∀ res ∈ new, res ∈ r.nodeResults)
    (hmade : ∀ res ∈ r.nodeResults, res.success = true → res ∈ new) :
    AddsUp context (ds ++ new) ↔ asU32 r.nodeResults.length = r.nodeResults.length := by
  rw [← h.sum_iff]
  constructor
  · exact fun hadds => hadds.sum r hresult
  · intro hsum
    constructor
    · intro r' hr'
      obtain rfl := Option.some.inj (hresult.symm.trans hr')
      exact hsum
    · intro r' hr' htrue n hn
      obtain rfl := Option.some.inj (hresult.symm.trans hr')
      obtain ⟨hfailed, hsome⟩ := (evaluateSimple_allSucceeded hresult).mp htrue
      have hall := h.all_success hfailed
      have hne : r.nodeResults ≠ [] := by
        intro hnil
        rw [h.succeeded, hnil] at hsome
        exact absurd hsome (Nat.lt_irrefl 0)
      rw [FsmContext.counted, if_neg hne] at hn
      obtain ⟨res, hres, rfl⟩ := List.mem_map.mp hn
      rw [latestOutcome_append_of_mem (b := true) ⟨res, hmade res hres (hall res hres), rfl⟩
        fun res' hres' _ => hall res' (hnew res' hres')]
      simp

/-- The result of a batched deploy that finds its batches done. -/
theorem addsUp_batchesDone {before after : FsmContext} {total : Nat}
    (hdeployed : after.deployedNodes = before.deployedNodes)
    (hfailed : after.failedNodes = before.failedNodes)
    (hresult : after.lastActionResult = some {
      succeeded := asU32 before.deployedNodes.length
      failed := asU32 before.failedNodes.length
      total := asU32 total
      nodeResults := [] }) :
    AddsUp after ds ↔ ListsBalance before ds total := by
  have hcounted (r : ActionResult) (hr : r.nodeResults = []) :
      after.counted r = before.deployedNodes ++ before.failedNodes := by
    rw [FsmContext.counted, if_pos hr, hdeployed, hfailed]
  constructor
  · intro hadds
    refine ⟨hadds.sum _ hresult, fun hnone hsome n hn => ?_⟩
    refine hadds.succeeded _ hresult ((evaluateSimple_allSucceeded hresult).mpr ⟨hnone, hsome⟩) n ?_
    rw [hcounted _ rfl]
    exact hn
  · intro hbalance
    constructor
    · intro r hr
      obtain rfl := Option.some.inj (hresult.symm.trans hr)
      exact hbalance.sum
    · intro r hr htrue n hn
      obtain rfl := Option.some.inj (hresult.symm.trans hr)
      obtain ⟨hnone, hsome⟩ := (evaluateSimple_allSucceeded hresult).mp htrue
      rw [hcounted _ rfl] at hn
      exact hbalance.succeeded hnone hsome n hn

/-- What is said of the lists and the result only. -/
theorem AddsUp.congr {context' : FsmContext} (h : AddsUp context ds)
    (hlists : context'.lists = context.lists) : AddsUp context' ds := by
  have hdeployed : context'.deployedNodes = context.deployedNodes := congrArg Prod.fst hlists
  have hfailed : context'.failedNodes = context.failedNodes := congrArg (fun l => l.2.1) hlists
  have hresult : context'.lastActionResult = context.lastActionResult :=
    congrArg (fun l => l.2.2) hlists
  constructor
  · intro r hr
    exact h.sum r (hresult ▸ hr)
  · intro r hr htrue n hn
    have hr : context.lastActionResult = some r := hresult ▸ hr
    refine h.succeeded r hr ?_ n ?_
    · rw [evaluateSimple_allSucceeded hr]
      exact (evaluateSimple_allSucceeded (hresult.trans hr)).mp htrue
    · rw [FsmContext.counted, hdeployed, hfailed] at hn
      exact hn

end

/-! ## The law -/

section Law

variable [Extern] {cfg : ControllerConfig}

/-- **After an entry the numbers add up if and only if it balances.** -/
theorem addsUp_entry {ds : List NodeActionResult} {s : EntryStep}
    (henters : s.entry.Enters cfg s.answers s.inst) (h : AddsUp s.entry.context ds) :
    AddsUp s.inst.context (ds ++ s.deploys) ↔ s.Balances ds := by
  have heffect := Entry.effect cfg henters
  have hplan : s.plan = planOf s.entry.action? s.entry.context (listedNodes s.answers) := rfl
  rw [← hplan] at heffect
  unfold EntryStep.Balances
  have hnone (hdeploys : s.deploys = []) : ds ++ s.deploys = ds := by
    rw [hdeploys, List.append_nil]
  generalize hq : s.plan = plan at heffect
  cases heffect with
  | nothing lists =>
    rw [hnone (by rw [EntryStep.deploys, hq])]
    exact iff_of_true (h.congr lists) trivial
  | noNodes lists =>
    have hresult : s.inst.context.lastActionResult = some ⟨0, 0, 0, []⟩ :=
      congrArg (fun l => l.2.2) lists
    refine iff_of_true ⟨fun r hr => ?_, fun r hr htrue => ?_⟩ trivial
    · obtain rfl := Option.some.inj (hresult.symm.trans hr)
      rfl
    · have hsome := ((evaluateSimple_allSucceeded hresult).mp htrue).2
      exact absurd hsome (Nat.lt_irrefl 0)
  | batchesDone lists =>
    rw [hnone (by rw [EntryStep.deploys, hq])]
    exact addsUp_batchesDone (congrArg Prod.fst lists) (congrArg (fun l => l.2.1) lists)
      (congrArg (fun l => l.2.2) lists)
  | @deploys now r tallied passed nodeIds lists =>
    have hdeploys : s.deploys = r.nodeResults := by
      rw [EntryStep.deploys, hq]
      exact passed
    have hlength : r.nodeResults.length = now.length := by
      simpa using congrArg List.length nodeIds
    rw [hdeploys, addsUp_tallied tallied (congrArg (fun l => l.2.2) lists) (fun _ h => h)
      fun _ h _ => h, hlength]
    exact Iff.rfl
  | @rollsBack r tallied nodeIds found lists =>
    have hresult : s.inst.context.lastActionResult = some r := congrArg (fun l => l.2.2) lists
    have hdeploys : s.deploys = r.nodeResults.filter
        fun res => s.answers.any (findsNode res.nodeId) := by
      rw [EntryStep.deploys, hq]
      simp only [hresult, Option.map_some, Option.getD_some]
    have hlength : r.nodeResults.length = s.entry.context.deployedNodes.length := by
      simpa using congrArg List.length nodeIds
    rw [hdeploys, addsUp_tallied tallied hresult (fun _ h => (List.mem_filter.mp h).1)
      fun res hres hsuccess => List.mem_filter.mpr ⟨hres, found res hres hsuccess⟩, hlength]
    exact Iff.rfl

/-- **Throughout a run the numbers of the last result add up if and only if the lists balance
    whenever all batches are found done.** -/
theorem addsUp_iff (cfg : ControllerConfig) {context : FsmContext} {ss : List EntryStep}
    (hunused : context.Unused) (hrun : Career cfg context ss) :
    EveryContext AddsUp context [] ss ↔ EveryEntry EntryStep.Balances [] ss := by
  refine Career.everyContext_iff (I := fun _ _ => True) ?_ ?_ trivial ?_ hrun
  · exact fun hsame => ⟨id, fun h => h.congr hsame.lists⟩
  · exact fun ds s henters _ h => ⟨trivial, addsUp_entry henters h⟩
  · constructor
    · rw [hunused.lastActionResult]
      exact fun r hr => absurd hr (by simp)
    · rw [hunused.lastActionResult]
      exact fun r hr => absurd hr (by simp)

end Law

/-! ## Batches that are done -/

instance (context : FsmContext) (ds : List NodeActionResult) (total : Nat) :
    Decidable (ListsBalance context ds total) :=
  decidable_of_iff
    (asU32 context.deployedNodes.length + asU32 context.failedNodes.length = asU32 total ∧
      (asU32 context.failedNodes.length = 0 → 0 < asU32 context.deployedNodes.length →
        ∀ n ∈ context.deployedNodes ++ context.failedNodes, latestOutcome ds n ≠ some false))
    ⟨fun h => ⟨h.1, h.2⟩, fun h => ⟨h.sum, h.succeeded⟩⟩

instance (context : FsmContext) (ds : List NodeActionResult) :
    (plan : Plan) → Decidable (plan.Balances context ds)
  | .batchesDone total => inferInstanceAs (Decidable (ListsBalance context ds total))
  | .deploys now => inferInstanceAs (Decidable (asU32 now.length = now.length))
  | .rollsBack => inferInstanceAs (Decidable (asU32 _ = context.deployedNodes.length))
  | .nothing | .noNodes => inferInstanceAs (Decidable True)

instance (ds : List NodeActionResult) (s : EntryStep) : Decidable (s.Balances ds) :=
  inferInstanceAs (Decidable (s.plan.Balances s.entry.context ds))

/-- The run is two entries, the second finds all batches done, and both balance. -/
def balancesTwice : List EntryStep → Bool
  | [s, s'] => decide (s.Balances []) && decide (s'.Balances s.deploys) &&
      s'.inst.context.lastActionResult == some ⟨1, 0, 1, []⟩
  | _ => false

theorem everyEntry_of_balancesTwice {ss : List EntryStep} (h : balancesTwice ss = true) :
    EveryEntry EntryStep.Balances [] ss := by
  rcases ss with _ | ⟨s, _ | ⟨s', _ | ⟨s'', ss⟩⟩⟩
  · trivial
  · cases h
  · rw [balancesTwice, Bool.and_eq_true, Bool.and_eq_true] at h
    exact ⟨of_decide_eq_true h.1.1, of_decide_eq_true h.1.2, trivial⟩
  · cases h

/-- A node that is reached at once, and a second look at its only batch. -/
theorem addsUp_oneBatch : ∃ ss,
    @Career .sample plainConfig (.forDeployment "rules: [a]" none) ss ∧ balancesTwice ss = true ∧
      EveryContext AddsUp (.forDeployment "rules: [a]" none) [] ss := by
  obtain ⟨ss, hrun, hcheck⟩ := @exists_career .sample plainConfig (retrying "retry")
    (.forDeployment "rules: [a]" none) (startOn 17 .compiled) [retryIn 4] .withN1 balancesTwice
    (by decide +kernel)
  exact ⟨ss, hrun, hcheck, (@addsUp_iff .sample plainConfig _ _ ⟨rfl, rfl, rfl⟩ hrun).mpr
    (everyEntry_of_balancesTwice hcheck)⟩

/-- A node that is reached at the second attempt is counted twice once the batches are done. -/
theorem not_addsUp :
    ¬ ∀ ss, @Career .sample plainConfig (.forDeployment "rules: [a]" none) ss →
      EveryContext AddsUp (.forDeployment "rules: [a]" none) [] ss := by
  intro h
  obtain ⟨ss, hrun, hcheck⟩ := @exists_career .sample plainConfig (retrying "rollout")
    (.forDeployment "rules: [a]" none) (startOn 16 (.elapsed false)) [retryIn 17, retryIn 4]
    .withN1 (fun ss => ss.any fun s => s.inst.context.lastActionResult == some ⟨1, 1, 1, []⟩)
    (by decide +kernel)
  obtain ⟨s, hs, hresult⟩ := List.any_eq_true.mp hcheck
  obtain ⟨ds, hadds⟩ := (h ss hrun).after hs
  have hsum := hadds.sum ⟨1, 1, 1, []⟩ (by simpa using hresult)
  exact absurd hsum (by simp)

end PaciNet

import PaciNet.Proof.InstanceDeploys
import PaciNet.Proof.RollbackTarget

/-!
# The lists of deployed and failed nodes

Both lists only ever grow. A node whose deploy is tried again after it failed, and succeeds, is in
both; one whose deploy or rollback fails after an earlier success stays listed as deployed.

**The lists tell the latest outcome of every node, throughout a run, exactly where no deploy comes
to something else than the deploys to the node before it.**
-/

set_option autoImplicit false

namespace PaciNet

open Lib Prog

/-- No node is in both lists, and the deployed ones are those whose latest deploy succeeded. -/
structure TellsLatest (context : FsmContext) (ds : List NodeActionResult) : Prop where
  disjoint : ∀ n ∈ context.deployedNodes, n ∉ context.failedNodes
  latest : ∀ n, n ∈ context.deployedNodes ↔ latestOutcome ds n = some true

/-- No deploy of the entry reverses what is listed: none succeeds on a node listed as failed, none
    fails on one listed as deployed, and no two to one node differ. -/
structure NoReversal (_ : List NodeActionResult) (s : EntryStep) : Prop where
  succeeds : ∀ r ∈ s.deploys, r.success = true → r.nodeId ∉ s.entry.context.failedNodes
  fails : ∀ r ∈ s.deploys, r.success = false → r.nodeId ∉ s.entry.context.deployedNodes
  agree : ∀ r ∈ s.deploys, ∀ r' ∈ s.deploys, r.nodeId = r'.nodeId → r.success = r'.success

theorem mem_pushNew {xs new : List String} {n : String} :
    n ∈ pushNew xs new ↔ n ∈ xs ∨ n ∈ new := by
  unfold pushNew
  induction new generalizing xs with
  | nil => simp
  | cons x new ih =>
    rw [List.foldl_cons, ih, List.mem_cons]
    split
    · rename_i hx
      constructor
      · rintro (h | h)
        · exact .inl h
        · exact .inr (.inr h)
      · rintro (h | rfl | h)
        · exact .inl h
        · exact .inl hx
        · exact .inr h
    · rw [List.mem_append, List.mem_singleton, or_assoc]

/-- A node the new results are about comes to what they agree on. -/
theorem latestOutcome_of_agree {ds new : List NodeActionResult} {r : NodeActionResult}
    (hagree : ∀ r ∈ new, ∀ r' ∈ new, r.nodeId = r'.nodeId → r.success = r'.success)
    (hr : r ∈ new) : latestOutcome (ds ++ new) r.nodeId = some r.success :=
  latestOutcome_append_of_mem ⟨r, hr, rfl⟩ fun r' hr' hid => hagree r' hr' r hr hid

section

variable {before after : FsmContext} {ds new : List NodeActionResult}

/-- The nodes with results of the given outcome are pushed. -/
theorem mem_pushed {xs : List String} {b : Bool} {p : NodeActionResult → Bool}
    (hp : ∀ r, p r = true ↔ r.success = b) {n : String} :
    n ∈ pushNew xs ((new.filter p).map (·.nodeId)) ↔
      n ∈ xs ∨ ∃ r ∈ new, r.nodeId = n ∧ r.success = b := by
  rw [mem_pushNew, List.mem_map]
  refine or_congr_right (exists_congr fun r => ?_)
  rw [List.mem_filter, hp]
  tauto

/-- After a deploy the lists tell the latest outcomes if and only if it reversed none. -/
theorem tellsLatest_deploys (h : TellsLatest before ds)
    (hdeployed : ∀ n, n ∈ after.deployedNodes ↔
      n ∈ before.deployedNodes ∨ ∃ r ∈ new, r.nodeId = n ∧ r.success = true)
    (hfailed : ∀ n, n ∈ after.failedNodes ↔
      n ∈ before.failedNodes ∨ ∃ r ∈ new, r.nodeId = n ∧ r.success = false) :
    TellsLatest after (ds ++ new) ↔
      (∀ r ∈ new, r.success = true → r.nodeId ∉ before.failedNodes) ∧
      (∀ r ∈ new, r.success = false → r.nodeId ∉ before.deployedNodes) ∧
      ∀ r ∈ new, ∀ r' ∈ new, r.nodeId = r'.nodeId → r.success = r'.success := by
  constructor
  · intro hafter
    refine ⟨fun r hr hsuccess hmem => ?_, fun r hr hsuccess hmem => ?_, fun r hr r' hr' hid => ?_⟩
    · exact hafter.disjoint r.nodeId ((hdeployed _).mpr (.inr ⟨r, hr, rfl, hsuccess⟩))
        ((hfailed _).mpr (.inl hmem))
    · exact hafter.disjoint r.nodeId ((hdeployed _).mpr (.inl hmem))
        ((hfailed _).mpr (.inr ⟨r, hr, rfl, hsuccess⟩))
    · -- of two that differ one puts the node into each list
      by_contra hne
      rcases Bool.eq_false_or_eq_true r.success with hr₁ | hr₁
      · have hr₂ : r'.success = false := by
          rw [hr₁] at hne
          exact Bool.eq_false_iff.mpr (Ne.symm hne)
        exact hafter.disjoint r.nodeId ((hdeployed _).mpr (.inr ⟨r, hr, rfl, hr₁⟩))
          ((hfailed _).mpr (.inr ⟨r', hr', hid.symm, hr₂⟩))
      · have hr₂ : r'.success = true := by
          rw [hr₁] at hne
          exact Bool.eq_true_of_not_eq_false (Ne.symm hne)
        exact hafter.disjoint r.nodeId ((hdeployed _).mpr (.inr ⟨r', hr', hid.symm, hr₂⟩))
          ((hfailed _).mpr (.inr ⟨r, hr, rfl, hr₁⟩))
  · intro hnone
    obtain ⟨hsucceeds, hfails, hagree⟩ := hnone
    constructor
    · intro n hn hn'
      rcases (hdeployed n).mp hn with hn | ⟨r, hr, rfl, hsuccess⟩
      · rcases (hfailed n).mp hn' with hn' | ⟨r', hr', rfl, hsuccess'⟩
        · exact h.disjoint n hn hn'
        · exact hfails r' hr' hsuccess' hn
      · rcases (hfailed _).mp hn' with hn' | ⟨r', hr', hid, hsuccess'⟩
        · exact hsucceeds r hr hsuccess hn'
        · have heq := hagree r hr r' hr' hid.symm
          rw [hsuccess, hsuccess'] at heq
          cases heq
    · intro n
      by_cases hnew : ∃ r ∈ new, r.nodeId = n
      · obtain ⟨r, hr, rfl⟩ := hnew
        rw [hdeployed, latestOutcome_of_agree hagree hr, Option.some.injEq]
        constructor
        · rintro (hmem | ⟨r', hr', hid, hsuccess⟩)
          · exact Bool.eq_true_of_not_eq_false fun hsuccess => hfails r hr hsuccess hmem
          · exact (hagree r' hr' r hr hid).symm.trans hsuccess
        · exact fun hsuccess => .inr ⟨r, hr, rfl, hsuccess⟩
      · have hnone : ∀ r ∈ new, r.nodeId ≠ n := fun r hr hid => hnew ⟨r, hr, hid⟩
        rw [latestOutcome_append_of_notMem hnone, ← h.latest, hdeployed]
        refine or_iff_left ?_
        rintro ⟨r, hr, hid, -⟩
        exact hnone r hr hid

/-- After a rollback, which is of deployed nodes and leaves the lists, they do if and only if it
    failed on none. -/
theorem tellsLatest_rollback (h : TellsLatest before ds)
    (hdeployed : after.deployedNodes = before.deployedNodes)
    (hfailed : after.failedNodes = before.failedNodes)
    (hids : ∀ r ∈ new, r.nodeId ∈ before.deployedNodes)
    (hagree : ∀ r ∈ new, ∀ r' ∈ new, r.nodeId = r'.nodeId → r.success = r'.success) :
    TellsLatest after (ds ++ new) ↔
      ∀ r ∈ new, r.success = false → r.nodeId ∉ before.deployedNodes := by
  constructor
  · intro hafter r hr hsuccess
    have hlatest := (hafter.latest r.nodeId).mp (hdeployed ▸ hids r hr)
    rw [latestOutcome_of_agree hagree hr, hsuccess] at hlatest
    cases hlatest
  · intro hfails
    have hsuccess (r : NodeActionResult) (hr : r ∈ new) : r.success = true :=
      Bool.eq_true_of_not_eq_false fun hfailed => hfails r hr hfailed (hids r hr)
    constructor
    · rw [hdeployed, hfailed]
      exact h.disjoint
    · intro n
      rw [hdeployed]
      by_cases hnew : ∃ r ∈ new, r.nodeId = n
      · obtain ⟨r, hr, rfl⟩ := hnew
        rw [latestOutcome_of_agree hagree hr, hsuccess r hr]
        exact iff_of_true (hids r hr) rfl
      · rw [latestOutcome_append_of_notMem fun r hr hid => hnew ⟨r, hr, hid⟩]
        exact h.latest n

end

/-- Results for different nodes never differ on a node. -/
theorem agree_of_nodup {results : List NodeActionResult}
    (hnd : (results.map NodeActionResult.nodeId).Nodup) :
    ∀ r ∈ results, ∀ r' ∈ results, r.nodeId = r'.nodeId → r.success = r'.success := by
  intro r hr r' hr' hid
  rw [List.inj_on_of_nodup_map hnd hr hr' hid]

/-- The lists stay, and nothing is deployed. -/
theorem tellsLatest_kept {before after : FsmContext} {ds : List NodeActionResult}
    (hdeployed : after.deployedNodes = before.deployedNodes)
    (hfailed : after.failedNodes = before.failedNodes) (h : TellsLatest before ds) :
    TellsLatest after ds := by
  constructor
  · rw [hdeployed, hfailed]
    exact h.disjoint
  · rw [hdeployed]
    exact h.latest

/-! ## The law -/

section Law

variable [Extern] {cfg : ControllerConfig}

/-- **After an entry the lists tell the latest outcomes if and only if it reversed none.** -/
theorem tellsLatest_entry {ds : List NodeActionResult} {s : EntryStep}
    (henters : s.entry.Enters cfg s.answers s.inst) (hnd : DeployedOnce s.entry.context)
    (h : TellsLatest s.entry.context ds) :
    DeployedOnce s.inst.context ∧
      (TellsLatest s.inst.context (ds ++ s.deploys) ↔ NoReversal ds s) := by
  have heffect := Entry.effect cfg henters
  have hplan : s.plan = planOf s.entry.action? s.entry.context (listedNodes s.answers) := rfl
  rw [← hplan] at heffect
  -- the entries that deploy nothing
  have hkept (hnone : s.deploys = []) (hdeployed : s.inst.context.deployedNodes =
      s.entry.context.deployedNodes) (hfailed : s.inst.context.failedNodes =
      s.entry.context.failedNodes) : DeployedOnce s.inst.context ∧
        (TellsLatest s.inst.context (ds ++ s.deploys) ↔ NoReversal ds s) := by
    have hvacuous : ∀ r ∈ s.deploys, False := by
      rw [hnone]
      exact fun r hr => List.not_mem_nil hr
    refine ⟨?_, iff_of_true ?_ ⟨?_, ?_, ?_⟩⟩
    · rw [DeployedOnce, hdeployed]
      exact hnd
    · rw [hnone, List.append_nil]
      exact tellsLatest_kept hdeployed hfailed h
    · exact fun r hr => (hvacuous r hr).elim
    · exact fun r hr => (hvacuous r hr).elim
    · exact fun r hr => (hvacuous r hr).elim
  generalize hq : s.plan = plan at heffect
  cases heffect with
  | nothing lists =>
    refine hkept ?_ (congrArg Prod.fst lists) (congrArg (fun l => l.2.1) lists)
    rw [EntryStep.deploys, hq]
  | noNodes lists =>
    refine hkept ?_ (congrArg Prod.fst lists) (congrArg (fun l => l.2.1) lists)
    rw [EntryStep.deploys, hq]
  | batchesDone lists =>
    refine hkept ?_ (congrArg Prod.fst lists) (congrArg (fun l => l.2.1) lists)
    rw [EntryStep.deploys, hq]
  | @deploys now r tallied passed nodeIds lists =>
    have hdeploys : s.deploys = r.nodeResults := by
      rw [EntryStep.deploys, hq]
      exact passed
    have hdeployed : s.inst.context.deployedNodes = pushNew s.entry.context.deployedNodes
        ((r.nodeResults.filter (·.success)).map (·.nodeId)) := congrArg Prod.fst lists
    have hfailed : s.inst.context.failedNodes = pushNew s.entry.context.failedNodes
        ((r.nodeResults.filter (!·.success)).map (·.nodeId)) := congrArg (fun l => l.2.1) lists
    refine ⟨?_, ?_⟩
    · rw [DeployedOnce, hdeployed]
      exact pushNew_nodup hnd _
    · rw [hdeploys, tellsLatest_deploys h]
      · rw [← hdeploys]
        exact ⟨fun hall => ⟨hall.1, hall.2.1, hall.2.2⟩,
          fun hall => ⟨hall.succeeds, hall.fails, hall.agree⟩⟩
      · intro n
        rw [hdeployed]
        exact mem_pushed fun r => Iff.rfl
      · intro n
        rw [hfailed]
        exact mem_pushed fun r => by simp
  | @rollsBack r tallied nodeIds found lists =>
    have hresult : s.inst.context.lastActionResult = some r := congrArg (fun l => l.2.2) lists
    have hdeploys : s.deploys = r.nodeResults.filter
        fun res => s.answers.any (findsNode res.nodeId) := by
      rw [EntryStep.deploys, hq]
      simp only [hresult, Option.map_some, Option.getD_some]
    have hdeployed : s.inst.context.deployedNodes = s.entry.context.deployedNodes :=
      congrArg Prod.fst lists
    have hids : ∀ res ∈ s.deploys, res.nodeId ∈ s.entry.context.deployedNodes := by
      intro res hres
      rw [hdeploys] at hres
      rw [← nodeIds]
      exact List.mem_map_of_mem (List.mem_filter.mp hres).1
    have hagree := agree_of_nodup (nodeIds ▸ hnd : (r.nodeResults.map _).Nodup)
    have hagree' : ∀ res ∈ s.deploys, ∀ res' ∈ s.deploys, res.nodeId = res'.nodeId →
        res.success = res'.success := by
      intro res hres res' hres'
      rw [hdeploys] at hres hres'
      exact hagree res (List.mem_filter.mp hres).1 res' (List.mem_filter.mp hres').1
    refine ⟨?_, ?_⟩
    · rw [DeployedOnce, hdeployed]
      exact hnd
    · rw [tellsLatest_rollback h hdeployed (congrArg (fun l => l.2.1) lists) hids hagree']
      constructor
      · intro hfails
        exact ⟨fun res hres _ => h.disjoint _ (hids res hres), hfails, hagree'⟩
      · exact fun hnone => hnone.fails

/-- **Throughout a run the lists of deployed and failed nodes tell the latest outcome of every
    node if and only if no deploy reverses what is listed.** -/
theorem tellsLatest_iff (cfg : ControllerConfig) {context : FsmContext} {ss : List EntryStep}
    (hunused : context.Unused) (hrun : Career cfg context ss) :
    EveryContext TellsLatest context [] ss ↔ EveryEntry NoReversal [] ss := by
  refine Career.everyContext_iff (I := fun context _ => DeployedOnce context) ?_ ?_ ?_ ?_ hrun
  · intro context context' ds hsame
    obtain ⟨m, rfl⟩ := hsame
    exact ⟨id, fun h => ⟨h.disjoint, h.latest⟩⟩
  · exact fun ds s henters hnd h => tellsLatest_entry henters hnd h
  · rw [DeployedOnce, hunused.deployedNodes]
    exact List.nodup_nil
  · constructor
    · rw [hunused.deployedNodes]
      exact fun n hn => absurd hn List.not_mem_nil
    · intro n
      rw [hunused.deployedNodes]
      exact iff_of_false List.not_mem_nil (by simp [latestOutcome])

end Law

/-! ## A deploy that is tried again -/

instance (ds : List NodeActionResult) (s : EntryStep) : Decidable (NoReversal ds s) :=
  decidable_of_iff
    ((∀ r ∈ s.deploys, r.success = true → r.nodeId ∉ s.entry.context.failedNodes) ∧
      (∀ r ∈ s.deploys, r.success = false → r.nodeId ∉ s.entry.context.deployedNodes) ∧
      ∀ r ∈ s.deploys, ∀ r' ∈ s.deploys, r.nodeId = r'.nodeId → r.success = r'.success)
    ⟨fun h => ⟨h.1, h.2.1, h.2.2⟩, fun h => ⟨h.succeeds, h.fails, h.agree⟩⟩

/-- The run is one entry, on which one deploy was made, and it reverses nothing. -/
def reachesOnce : List EntryStep → Bool
  | [s] => s.deploys.length == 1 && decide (NoReversal [] s)
  | _ => false

theorem everyEntry_of_reachesOnce {ss : List EntryStep} (h : reachesOnce ss = true) :
    EveryEntry NoReversal [] ss := by
  rcases ss with _ | ⟨s, _ | ⟨s', ss⟩⟩
  · trivial
  · rw [reachesOnce, Bool.and_eq_true] at h
    exact ⟨of_decide_eq_true h.2, trivial⟩
  · cases h

/-- A rollout that reaches its node at once. -/
theorem tellsLatest_atOnce : ∃ ss,
    @Career .sample plainConfig (.forDeployment "rules: [a]" none) ss ∧ reachesOnce ss = true ∧
      EveryContext TellsLatest (.forDeployment "rules: [a]" none) [] ss := by
  obtain ⟨ss, hrun, hcheck⟩ := @exists_career .sample plainConfig (retrying "rollout")
    (.forDeployment "rules: [a]" none) (startOn 16 .compiled) [] .withN1 reachesOnce
    (by decide +kernel)
  exact ⟨ss, hrun, hcheck, (@tellsLatest_iff .sample plainConfig _ _ ⟨rfl, rfl, rfl⟩ hrun).mpr
    (everyEntry_of_reachesOnce hcheck)⟩

/-- A node that is reached at the second attempt is in both lists. -/
theorem not_tellsLatest :
    ¬ ∀ ss, @Career .sample plainConfig (.forDeployment "rules: [a]" none) ss →
      EveryContext TellsLatest (.forDeployment "rules: [a]" none) [] ss := by
  intro h
  obtain ⟨ss, hrun, hcheck⟩ := @exists_career .sample plainConfig (retrying "rollout")
    (.forDeployment "rules: [a]" none) (startOn 16 (.elapsed false)) [retryIn 17] .withN1
    (fun ss => ss.any fun s => s.inst.context.deployedNodes.contains "n1" &&
      s.inst.context.failedNodes.contains "n1") (by decide +kernel)
  obtain ⟨s, hs, hboth⟩ := List.any_eq_true.mp hcheck
  obtain ⟨ds, htells⟩ := (h ss hrun).after hs
  rw [Bool.and_eq_true] at hboth
  exact htells.disjoint "n1" (List.contains_iff_mem.mp hboth.1) (List.contains_iff_mem.mp hboth.2)

end PaciNet

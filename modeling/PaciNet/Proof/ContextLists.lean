import PaciNet.Proof.ActionContexts
import PaciNet.Proof.InstanceSteps
import PaciNet.Proof.LatestOutcomes

/-!
# The lists of a context

A context has three lists of nodes, kept as vectors: the targets, the nodes that were deployed to,
and those a deploy to which has failed. They are extended in loops of their own, by the nodes of a
deploy before it is made and by its results after. **Each is a set, and what was deployed to or has
failed was a target**, in every run: a deploy has one result for each of its nodes, and an adaptive
start takes the targets from a listing, which has no id twice.
-/

set_option autoImplicit false

namespace PaciNet

open Lib Prog

/-- The three lists are sets, and the later two are within the first. -/
structure FsmContext.ListsAreSets (context : FsmContext) : Prop where
  targets : context.targetNodes.Nodup
  deployed : context.deployedNodes.Nodup
  failed : context.failedNodes.Nodup
  deployedTargets : context.deployedNodes ⊆ context.targetNodes
  failedTargets : context.failedNodes ⊆ context.targetNodes

/-! ## Actions -/

/-- What results of a kind push is within what all the results push. -/
theorem pushNew_subset_pushNew {xs ys : List String} (h : xs ⊆ ys)
    (results : List NodeActionResult) (p : NodeActionResult → Bool) :
    pushNew xs ((results.filter p).map NodeActionResult.nodeId) ⊆
      pushNew ys (results.map NodeActionResult.nodeId) := by
  intro n hn
  rw [mem_pushNew] at hn ⊢
  rcases hn with hn | hn
  · exact .inl (h hn)
  · exact .inr (List.map_subset _ (List.filter_subset_self ..) hn)

theorem keptByActions_listsAreSets : KeptByActions FsmContext.ListsAreSets where
  result _ h := ⟨h.targets, h.deployed, h.failed, h.deployedTargets, h.failedTargets⟩
  cursor _ h := ⟨h.targets, h.deployed, h.failed, h.deployedTargets, h.failedTargets⟩
  deployed results h := {
    targets := pushNew_nodup h.targets _
    deployed := pushNew_nodup h.deployed _
    failed := pushNew_nodup h.failed _
    deployedTargets := pushNew_subset_pushNew h.deployedTargets results _
    failedTargets := pushNew_subset_pushNew h.failedTargets results _ }

/-- The first-true times have no part in it. -/
theorem SameButFirstTrue.listsAreSets {context context' : FsmContext}
    (h : SameButFirstTrue context context') (hcontext : context.ListsAreSets) :
    context'.ListsAreSets := by
  obtain ⟨m, rfl⟩ := h
  exact ⟨hcontext.targets, hcontext.deployed, hcontext.failed, hcontext.deployedTargets,
    hcontext.failedTargets⟩

/-- A context without results, whose targets are given. -/
theorem FsmContext.listsAreSets_of_unused {context : FsmContext} (h : context.Unused)
    (htargets : context.targetNodes.Nodup) : context.ListsAreSets := by
  obtain ⟨hdeployed, hfailed, -⟩ := h
  constructor
  · exact htargets
  · rw [hdeployed]
    exact List.nodup_nil
  · rw [hfailed]
    exact List.nodup_nil
  · rw [hdeployed]
    exact List.nil_subset _
  · rw [hfailed]
    exact List.nil_subset _

/-! ## Runs -/

/-- The instances have lists that are sets. -/
def listsContract : FsmContract := ⟨fun _ _ => True, fun inst => inst.context.ListsAreSets⟩

theorem listsContract_follows [Extern] (cfg : ControllerConfig) : listsContract.Follows cfg where
  deployment _ h := by
    refine keptByActions_listsAreSets.startFrom h ?_
    exact FsmContext.listsAreSets_of_unused ⟨rfl, rfl, rfl⟩ List.nodup_nil
  adaptive _ hids h := by
    refine keptByActions_listsAreSets.startFrom h ?_
    exact FsmContext.listsAreSets_of_unused ⟨rfl, rfl, rfl⟩ hids
  evaluated hgood _ _ _ h := by
    obtain ⟨context, hsame, rfl⟩ := shouldFire_same h
    exact hsame.listsAreSets hgood
  fired {inst _ _ _ _ _ _} hgood _ _ _ h := by
    have hforgets : SameButFirstTrue inst.context (inst.context.forgetState inst.currentState) :=
      ⟨_, rfl⟩
    exact keptByActions_listsAreSets.fireTransition h (hforgets.listsAreSets hgood)
  kept hgood hcontext _ _ := by
    show FsmContext.ListsAreSets _
    rw [hcontext]
    exact hgood

/-- **In every run from a controller without instances, the lists of every context are sets**, with
    the deployed and the failed nodes within the targets; so are those of an instance that is still
    being moved. -/
theorem contextLists_areSets [Extern] (cfg : ControllerConfig) {c₀ c : Pool}
    (hidle : c₀.threads = []) (hnone : c₀.shared.storage.fsmInstances.rows = [])
    (hrun : (controller cfg MemoryStorage).Steps LeavesInstances c₀ c) :
    ∀ inst ∈ c.shared.storage.fsmInstances.rows, inst.context.ListsAreSets ∧
      ∀ toState trigger definition es inst',
        (fireTransition cfg inst toState trigger definition).Unfolds es (.done inst') →
          inst'.context.ListsAreSets := by
  have hholds : listsContract.Holds c₀.shared := by
    refine ⟨fun _ _ _ => trivial, fun inst hinst => ?_⟩
    rw [hnone] at hinst
    exact absurd hinst List.not_mem_nil
  have henv (c : Pool) (w : World MemoryStorage) (hw : LeavesInstances c (.env w))
      (hc : listsContract.Holds c.shared) : listsContract.Holds w := by
    refine ⟨fun _ _ _ => trivial, ?_⟩
    rw [show w.storage.fsmInstances = c.shared.storage.fsmInstances from hw]
    exact hc.good
  intro inst hinst
  have hgood : inst.context.ListsAreSets :=
    ((listsContract_follows cfg).steps henv hrun hidle hholds).good inst hinst
  refine ⟨hgood, fun toState trigger definition es inst' h => ?_⟩
  have hforgets : SameButFirstTrue inst.context (inst.context.forgetState inst.currentState) :=
    ⟨_, rfl⟩
  exact keptByActions_listsAreSets.fireTransition h (hforgets.listsAreSets hgood)

/-- A controller that knows the definition and the node "n1". -/
def Pool.withRetrying : Pool where
  shared := .withAgent
    ((MemoryStorage.new.registerNode registeredN1).2.storeFsmDefinition (retrying "rollout")).2
  threads := []

/-- The first deploy fails and the retry succeeds: "n1" is in each of the lists, once. -/
theorem contextLists_areSets_retried :
    ∃ c, (@controller .sample plainConfig MemoryStorage _).Steps LeavesInstances
      Pool.withRetrying c ∧ ∃ inst ∈ c.shared.storage.fsmInstances.rows,
        inst.context.deployedNodes = ["n1"] ∧ inst.context.failedNodes = ["n1"] ∧
          inst.context.ListsAreSets := by
  obtain ⟨c, -, hrun, -, hP⟩ := System.steps_of_runs (@controller .sample plainConfig _ _)
    Pool.withRetrying leavesInstances_sound
    (.arrive (.startAdaptiveInstance "retrying" (some "rules: [a]") none ∅) ::
      Label.turns 0 4 (.quiet 0 "i1") ++ Label.turns 0 16 ⟨1, "d1", .failed "down" false⟩ ++
      .arrive .evaluateAll :: Label.turns 1 23 ⟨2, "d2", .compiled⟩) []
    (fun (c _ : Pool) => c.shared.storage.fsmInstances.rows.any fun (inst : FsmInstance) =>
      decide (inst.context.deployedNodes = ["n1"] ∧ inst.context.failedNodes = ["n1"]))
    (by decide +kernel)
  obtain ⟨inst, hinst, hP⟩ := List.any_eq_true.1 hP
  obtain ⟨hdeployed, hfailed⟩ := of_decide_eq_true hP
  have hlists := @contextLists_areSets .sample plainConfig _ _ rfl rfl hrun inst hinst
  exact ⟨c, hrun, inst, hinst, hdeployed, hfailed, hlists.1⟩

end PaciNet

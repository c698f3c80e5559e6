import PaciNet.Proof.ActionContexts
import PaciNet.Proof.StoredPolicy

/-!
# What a rollback action goes back to

`execute_rollback` redeploys the second newest version of each node the instance has deployed to,
as a version of its own. That is the policy from before the instance where the instance has added
one version since. It is an older one where its deploy found the node up to date and added none,
and it is the policy the instance deployed where a rollback has been there before.

**A rollback restores exactly where the second newest version is what was stored before the
instance.** The run is of one instance, whose actions follow each other. Others do what they like
meanwhile, but neither deploy to the node nor remove it.
-/

set_option autoImplicit false

namespace PaciNet

open Lib Prog

/-- What is stored when a version is deployed again. -/
def PolicyVersion.redeployed (v : PolicyVersion) : String × CompileOptions :=
  (v.rulesYaml, normalizeOptions v.options)

/-- What is stored when the second newest version of a node is deployed again. -/
def World.previousContent (w : World MemoryStorage) (n : String) :
    Option (String × CompileOptions) :=
  ((w.storage.versionsOf n).reverse[1]?).map PolicyVersion.redeployed

/-! ## Runs of an instance -/

/-- An action that was executed. -/
structure ActionRun where
  action : ActionDefinition
  inst : FsmInstance
  before : World MemoryStorage
  context : FsmContext
  after : World MemoryStorage

namespace ActionRun

variable [Extern] (cfg : ControllerConfig)

/-- The execution, among others that neither deploy to the node nor remove it. -/
def Executes (n : String) (e : ActionRun) : Prop :=
  (machine MemoryStorage).Exec (SamePolicies n) (executeAction cfg e.action e.inst) e.before
    e.context e.after

/-- A rollback action that reports success for the node. -/
def RollsBack (n : String) (e : ActionRun) : Prop :=
  e.action.deploy = none ∧ e.action.rollback.isSome = true ∧
    n ∈ e.inst.context.deployedNodes ∧
    ∃ result ∈ e.context.lastActionResult, ∃ r ∈ result.nodeResults,
      r.nodeId = n ∧ r.success = true

end ActionRun

/-- The actions of an instance one after the other, from a state of its context and a world.
    Between two actions the engine moves the instance on, which leaves its deployed nodes alone,
    and others neither deploy to the node nor remove it. -/
def InstanceRun [Extern] (cfg : ControllerConfig) (n : String) :
    FsmContext → World MemoryStorage → List ActionRun → Prop
  | _, _, [] => True
  | context, w, e :: es =>
    e.inst.context.deployedNodes = context.deployedNodes ∧ SamePolicies n w e.before ∧
      e.Executes cfg n ∧ InstanceRun cfg n e.context e.after es

/-! ## The nodes an instance has deployed to -/

theorem pushNew_nodup {xs : List String} (h : xs.Nodup) (new : List String) :
    (pushNew xs new).Nodup := by
  unfold pushNew
  induction new generalizing xs with
  | nil => exact h
  | cons x new ih =>
    rw [List.foldl_cons]
    apply ih
    split
    · exact h
    · rename_i hx
      refine List.nodup_append.2 ⟨h, List.nodup_singleton x, ?_⟩
      intro a ha b hb hab
      rw [List.mem_singleton] at hb
      exact hx (hb ▸ hab ▸ ha)

/-- No node is in the list of deployed nodes twice. -/
def DeployedOnce (context : FsmContext) : Prop := context.deployedNodes.Nodup

theorem keptByActions_deployedOnce : KeptByActions DeployedOnce where
  result := fun _ h => h
  cursor := fun _ h => h
  deployed := fun _ h => pushNew_nodup h _

/-- Along a run no node is in the list twice. -/
theorem InstanceRun.executes [Extern] {cfg : ControllerConfig} {n : String}
    {context : FsmContext} {w : World MemoryStorage} {es : List ActionRun}
    (h : InstanceRun cfg n context w es) (hcontext : DeployedOnce context) {e : ActionRun}
    (he : e ∈ es) : DeployedOnce e.inst.context ∧ e.Executes cfg n := by
  induction es generalizing context w with
  | nil => exact absurd he List.not_mem_nil
  | cons e₁ es ih =>
    obtain ⟨hdeployed, -, hrun, hrest⟩ := h
    have hfirst : DeployedOnce e₁.inst.context := by
      rw [DeployedOnce, hdeployed]
      exact hcontext
    rcases List.mem_cons.1 he with rfl | he
    · exact ⟨hfirst, hrun⟩
    · obtain ⟨answers, hunfolds⟩ := hrun.unfolds
      exact ih hrest (keptByActions_deployedOnce.executeAction hunfolds hfirst) he

/-! ## One rollback -/

section Rollback

variable [Extern] (cfg : ControllerConfig) {n : String} {w : World MemoryStorage}

theorem rollbackNode_other {m : String} (hm : m ≠ n) :
    (machine MemoryStorage).Ensures (SamePolicies n) (rollbackNode cfg m)
      (fun r w' => r.nodeId = m ∧ SamePolicies n w w') w := by
  refine ensures_storage.2 ?_
  intro w₁ hw₁ now
  split
  · exact ⟨rfl, hw₁⟩
  · rename_i prev rest _
    refine ensures_storage.2 ?_
    intro w₂ hw₂ now
    split
    · rename_i node hnode
      -- the record that is found has the id it was looked up by
      have hid : node.nodeId ≠ n := by
        rw [Table.key_of_get? (Except.ok.inj hnode)]
        exact hm
      refine Machine.ensures_bind.2 (Machine.Ensures.mono
        (ensures_samePolicies (fun _ _ h => h) (deployToNode_leavesPolicies cfg hid _ _)) ?_)
      intro outcome w₃ hw₃
      exact ⟨rfl, (hw₁.trans hw₂).trans hw₃⟩
    · exact ⟨rfl, hw₁.trans hw₂⟩
  · exact ⟨rfl, hw₁⟩

theorem rollbackNode_self :
    (machine MemoryStorage).Ensures (SamePolicies n) (rollbackNode cfg n)
      (fun r w' => r.nodeId = n ∧ (r.success = true → w'.contentOf n = w.previousContent n)) w := by
  refine ensures_storage.2 ?_
  intro w₁ hw₁ now
  split
  · exact ⟨rfl, fun h => absurd h (by simp)⟩
  · rename_i newest prev rest hversions
    have hprev : w.previousContent n = some prev.redeployed := by
      have htake : (w₁.storage.versionsOf n).reverse.take 2 = newest :: prev :: rest :=
        Except.ok.inj hversions
      have hget : (w₁.storage.versionsOf n).reverse[1]? = some prev := by
        rw [← List.getElem?_take_of_lt (by decide : 1 < 2), htake]
        rfl
      rw [World.previousContent, ← hw₁.versions, hget]
      rfl
    refine ensures_storage.2 ?_
    intro w₂ hw₂ now
    split
    · rename_i node hnode
      have hid : node.nodeId = n := Table.key_of_get? (Except.ok.inj hnode)
      refine Machine.ensures_bind.2 (Machine.Ensures.mono
        (deployToNode_leaves cfg (fun _ _ h => h) hid _ _) ?_)
      intro outcome w₃ hleaves
      exact ⟨rfl, fun hsuccess => (hleaves hsuccess).trans hprev.symm⟩
    · exact ⟨rfl, fun h => absurd h (by simp)⟩
  · exact ⟨rfl, fun h => absurd h (by simp)⟩

/-- The results of a node say that what is stored for it is the given content. -/
def Restored (n : String) (content : Option (String × CompileOptions))
    (results : List NodeActionResult) (w : World MemoryStorage) : Prop :=
  ∀ r ∈ results, r.nodeId = n → r.success = true → w.contentOf n = content

/-- The loop comes to the node once. Until then no result is the node's and its policies are as
    they were, and from then on they are as the rollback left them. -/
theorem rollbackLoop_restores {content : Option (String × CompileOptions)} {nodeIds : List String}
    (hnd : nodeIds.Nodup) (succeeded failed : Nat) {results : List NodeActionResult}
    (hbefore : n ∈ nodeIds → w.previousContent n = content ∧ ∀ r ∈ results, r.nodeId ≠ n)
    (hafter : n ∉ nodeIds → Restored n content results w) :
    (machine MemoryStorage).Ensures (SamePolicies n)
      (rollbackLoop cfg nodeIds succeeded failed results)
      (fun out w' => Restored n content out.2.2 w') w := by
  induction nodeIds generalizing succeeded failed results w with
  | nil => exact hafter List.not_mem_nil
  | cons m nodeIds ih =>
    obtain ⟨hm, hnd⟩ := List.nodup_cons.1 hnd
    by_cases hmn : m = n
    · subst hmn
      obtain ⟨hprev, hnone⟩ := hbefore List.mem_cons_self
      refine Machine.ensures_bind.2 (Machine.Ensures.mono (rollbackNode_self cfg) ?_)
      intro r w₁ hr
      refine ih hnd _ _ (fun h => absurd h hm) fun _ => ?_
      intro r' hr' hid hsuccess
      rcases List.mem_append.1 hr' with hr' | hr'
      · exact absurd hid (hnone r' hr')
      · rw [List.mem_singleton] at hr'
        subst hr'
        exact (hr.2 hsuccess).trans hprev
    · refine Machine.ensures_bind.2 (Machine.Ensures.mono (rollbackNode_other cfg hmn) ?_)
      rintro r w₁ ⟨hid, hsame⟩
      have hrn : r.nodeId ≠ n := fun h => hmn (hid.symm.trans h)
      refine ih hnd _ _ (fun h => ?_) fun h => ?_
      · obtain ⟨hprev, hnone⟩ := hbefore (List.mem_cons_of_mem _ h)
        refine ⟨?_, ?_⟩
        · rw [World.previousContent, hsame.versions]
          exact hprev
        · intro r' hr'
          rcases List.mem_append.1 hr' with hr' | hr'
          · exact hnone r' hr'
          · rw [List.mem_singleton.1 hr']
            exact hrn
      · intro r' hr' hid' hsuccess
        rcases List.mem_append.1 hr' with hr' | hr'
        · rw [hsame.contentOf]
          exact hafter (by simp [Ne.symm hmn, h]) r' hr' hid' hsuccess
        · rw [List.mem_singleton.1 hr'] at hid'
          exact absurd hid' hrn

/-- **What a rollback that reports success leaves stored** is its second newest version. -/
theorem executeRollback_restores {inst : FsmInstance} (hnd : DeployedOnce inst.context)
    (hn : n ∈ inst.context.deployedNodes) (action : RollbackAction) :
    (machine MemoryStorage).Ensures (SamePolicies n) (executeRollback cfg action inst)
      (fun context w' => ∀ result ∈ context.lastActionResult,
        Restored n (w.previousContent n) result.nodeResults w') w := by
  have hne : inst.context.deployedNodes ≠ [] := List.ne_nil_of_mem hn
  simp only [executeRollback, if_neg hne]
  refine Machine.ensures_bind.2 (Machine.Ensures.mono
    (rollbackLoop_restores cfg hnd 0 0 (fun _ => ⟨rfl, by simp⟩) fun h => absurd hn h) ?_)
  intro out w' hout result hresult
  obtain rfl := Option.some.inj hresult
  exact hout

end Rollback

/-- What is stored after a rollback action that reports success. -/
theorem ActionRun.RollsBack.contentOf [Extern] {cfg : ControllerConfig} {n : String}
    {e : ActionRun} (h : e.RollsBack n) (hnd : DeployedOnce e.inst.context)
    (hrun : e.Executes cfg n) : e.after.contentOf n = e.before.previousContent n := by
  obtain ⟨hdeploy, hrollback, hn, result, hresult, r, hr, hid, hsuccess⟩ := h
  obtain ⟨rollback, hrollback⟩ := Option.isSome_iff_exists.1 hrollback
  have hensures : (machine MemoryStorage).Ensures (SamePolicies n)
      (executeAction cfg e.action e.inst) (fun context w' => ∀ result ∈ context.lastActionResult,
        Restored n (e.before.previousContent n) result.nodeResults w') e.before := by
    refine ensures_mark.2 ?_
    intro w₁ hw₁
    have hsame : e.before.previousContent n =
        ((w₁.storage.versionsOf n).reverse[1]?).map PolicyVersion.redeployed := by
      rw [World.previousContent, hw₁.versions]
    rw [hdeploy, hrollback, hsame]
    refine Machine.Ensures.mono (executeRollback_restores cfg hnd hn rollback) ?_
    exact fun context w' h => h
  exact hrun.ensures hensures result hresult r hr hid hsuccess

/-! ## The law -/

/-- **When a rollback restores what was stored before the instance**: when its second newest
    version is that. -/
theorem rollbackRestores_iff [Extern] (cfg : ControllerConfig) {n : String}
    {context : FsmContext} {w : World MemoryStorage} {es : List ActionRun}
    (hfresh : context.deployedNodes = []) (hrun : InstanceRun cfg n context w es) {e : ActionRun}
    (he : e ∈ es) (hback : e.RollsBack n) :
    e.after.contentOf n = w.contentOf n ↔ e.before.previousContent n = w.contentOf n := by
  have hnd : DeployedOnce context := by
    rw [DeployedOnce, hfresh]
    exact List.nodup_nil
  obtain ⟨hnd, hexec⟩ := hrun.executes hnd he
  rw [hback.contentOf hnd hexec]

/-! ## Runs that can be computed -/

instance (n : String) (e : ActionRun) : Decidable (e.RollsBack n) :=
  inferInstanceAs (Decidable (_ ∧ _ ∧ _ ∧ ∃ result ∈ e.context.lastActionResult,
    ∃ r ∈ result.nodeResults, r.nodeId = n ∧ r.success = true))

/-- Run the actions of an instance, undisturbed, on given outside choices. -/
def evalActions [Extern] (cfg : ControllerConfig) :
    List (ActionDefinition × List Ext) → FsmInstance → World MemoryStorage →
      Option (List ActionRun)
  | [], _, _ => some []
  | (action, xs) :: rest, inst, w =>
    ((machine MemoryStorage).eval xs (executeAction cfg action inst) w).bind fun r =>
      (evalActions cfg rest (inst.setContext r.1) r.2).map fun es =>
        ⟨action, inst, w, r.1, r.2⟩ :: es

theorem instanceRun_of_evalActions [Extern] {cfg : ControllerConfig} (n : String)
    {actions : List (ActionDefinition × List Ext)} {inst : FsmInstance}
    {w : World MemoryStorage} {es : List ActionRun}
    (h : evalActions cfg actions inst w = some es) : InstanceRun cfg n inst.context w es := by
  induction actions generalizing inst w es with
  | nil =>
    obtain rfl := Option.some.inj h
    trivial
  | cons a actions ih =>
    obtain ⟨⟨context, w'⟩, heval, h⟩ := Option.bind_eq_some_iff.1 h
    obtain ⟨es, hes, rfl⟩ := Option.map_eq_some_iff.1 h
    exact ⟨rfl, .refl w, Machine.exec_of_eval SamePolicies.refl heval, ih hes⟩

/-- A run that can be computed and passes a check. -/
theorem exists_instanceRun [Extern] (cfg : ControllerConfig) (n : String)
    (actions : List (ActionDefinition × List Ext)) (inst : FsmInstance) (w : World MemoryStorage)
    (P : List ActionRun → Bool) (h : (evalActions cfg actions inst w).any P) :
    ∃ es, InstanceRun cfg n inst.context w es ∧ P es := by
  obtain ⟨es, hes, hP⟩ := (Option.any_eq_true _ _).1 h
  exact ⟨es, instanceRun_of_evalActions n hes, hP⟩

/-- The given rules are stored for "n1", which is active, one after the other. -/
def World.storing (rules : List String) : World MemoryStorage :=
  .withAgent (rules.foldl
    (fun s rulesYaml => (s.storePolicy (requestedPolicy "n1" rulesYaml
      (@policyHash .sample rulesYaml) 0 (normalizeOptions .default))).2)
    ((MemoryStorage.new.registerNode registeredN1).2.updateHeartbeat 0 "n1" .active 5).2)

/-- An instance that deploys the given rules everywhere. -/
def rolloutOf (rulesYaml : String) : FsmInstance :=
  .new 0 "i1" "rollout" "deploying" (.forDeployment rulesYaml none)

/-- It deploys, in a number of operations, and then rolls back. -/
def deployThenRollback (deployOps rollbackOps : Nat) : List (ActionDefinition × List Ext) :=
  [(⟨some ⟨⟨∅, none⟩, none, none⟩, none, none⟩,
      List.replicate deployOps ⟨1, "d1", .compiled⟩),
   (⟨none, some ⟨.previous⟩, none⟩,
      List.replicate rollbackOps ⟨2, "d2", .compiled⟩)]

/-- After one deploy that adds a version a rollback restores. -/
theorem rollbackRestores_once :
    ∃ es, @InstanceRun .sample plainConfig "n1" (rolloutOf "rules: [b]").context
        (.storing ["rules: [a]"]) es ∧
      ∃ e ∈ es, e.RollsBack "n1" ∧
        e.after.contentOf "n1" = (World.storing ["rules: [a]"]).contentOf "n1" := by
  obtain ⟨es, hrun, hcheck⟩ := @exists_instanceRun .sample plainConfig "n1"
    (deployThenRollback 15 13) (rolloutOf "rules: [b]") (.storing ["rules: [a]"])
    (fun es => decide (∃ e ∈ es, e.RollsBack "n1" ∧
      e.before.previousContent "n1" = (World.storing ["rules: [a]"]).contentOf "n1"))
    (by decide +kernel)
  obtain ⟨e, he, hback, hprev⟩ := of_decide_eq_true hcheck
  exact ⟨es, hrun, e, he, hback,
    (@rollbackRestores_iff .sample plainConfig _ _ _ _ rfl hrun _ he hback).2 hprev⟩

/-- Where the deploy finds the rules already active, the rollback goes back beyond them. -/
theorem not_rollbackRestores :
    ¬ ∀ (w : World MemoryStorage) (es : List ActionRun),
      @InstanceRun .sample plainConfig "n1" (rolloutOf "rules: [a]").context w es →
      ∀ e ∈ es, e.RollsBack "n1" → e.after.contentOf "n1" = w.contentOf "n1" := by
  intro h
  obtain ⟨es, hrun, hcheck⟩ := @exists_instanceRun .sample plainConfig "n1"
    (deployThenRollback 12 13) (rolloutOf "rules: [a]") (.storing ["rules: [b]", "rules: [a]"])
    (fun es => decide (∃ e ∈ es, e.RollsBack "n1" ∧ e.after.contentOf "n1" ≠
      (World.storing ["rules: [b]", "rules: [a]"]).contentOf "n1"))
    (by decide +kernel)
  obtain ⟨e, he, hback, hcontent⟩ := of_decide_eq_true hcheck
  exact hcontent (h _ es hrun e he hback)

end PaciNet

import PaciNet.Proof.Blocks
import PaciNet.Storage.Memory

/-!
# The policy stored for a node

A node's policy and its versions are written by `store_policy` and deleted with the node, and by
nothing else. So what a task does between two writes of its own, and what others do who do not
deploy to the node, leaves them alone (`SamePolicies`).

**A deploy that reports success leaves the rules and options it was asked for stored**, whether it
stored them or found them there.
-/

set_option autoImplicit false

namespace PaciNet

open Lib Prog

/-- The rules and the options of a policy. -/
def Policy.content (p : Policy) : String × CompileOptions := (p.rulesYaml, p.options)

/-- The rules and the options stored for a node. -/
def World.contentOf (w : World MemoryStorage) (n : String) : Option (String × CompileOptions) :=
  (w.storage.policies.get? n).map Policy.content

/-- The node's policy and its versions are the same. -/
structure SamePolicies (n : String) (w w' : World MemoryStorage) : Prop where
  policy : w'.storage.policies.get? n = w.storage.policies.get? n
  versions : w'.storage.versionsOf n = w.storage.versionsOf n

namespace SamePolicies

variable {n : String} {w w₁ w₂ : World MemoryStorage}

theorem refl (w : World MemoryStorage) : SamePolicies n w w := ⟨rfl, rfl⟩

theorem trans (h : SamePolicies n w w₁) (h' : SamePolicies n w₁ w₂) : SamePolicies n w w₂ :=
  ⟨h'.policy.trans h.policy, h'.versions.trans h.versions⟩

theorem contentOf (h : SamePolicies n w w₁) : w₁.contentOf n = w.contentOf n :=
  congrArg _ h.policy

end SamePolicies

/-! ## What an operation does to the policies -/

/-- The operation neither stores a policy for the node nor removes it. -/
def LeavesPolicies (n : String) : Op → Prop
  | .storage (.storePolicy p) => p.nodeId ≠ n
  | .storage (.removeNode m) => m ≠ n
  | _ => True

theorem samePolicies_of_exec [Extern] {n : String} {x : Ext} {o : Op} {w w' : World MemoryStorage}
    {r : o.Res} {new : List Request} (ho : LeavesPolicies n o)
    (hx : World.exec x o w = some (r, w', new)) : SamePolicies n w w' := by
  have hs := (World.stepped_of_exec hx).storage
  cases o with
  | storage c =>
    have hc : w'.storage = w.storage.after x.now c := by
      rw [← MemoryStorage.call_snd]
      exact congrArg Prod.snd hs
    cases c with
    | storePolicy p =>
      have hne : n ≠ p.nodeId := Ne.symm ho
      refine ⟨?_, ?_⟩
      · rw [hc]
        exact Table.get?_insert_ne hne
      · rw [hc]
        show ((w.storage.policyVersions.insert p.nodeId _).lookup n).getD [] = _
        rw [AList.lookup_insert_ne hne]
        rfl
    | removeNode m =>
      have hne : n ≠ m := Ne.symm ho
      refine ⟨?_, ?_⟩
      · rw [hc]
        show (w.storage.policies.erase m).get? n = _
        rw [Table.get?_erase, if_neg hne]
      · rw [hc]
        show ((w.storage.policyVersions.erase m).lookup n).getD [] = _
        rw [AList.lookup_erase_ne hne]
        rfl
    | _ =>
      refine ⟨?_, ?_⟩ <;> rw [hc] <;> rfl
  | _ =>
    have hc : w'.storage = w.storage := hs
    refine ⟨?_, ?_⟩ <;> rw [hc]

/-- What a deploy to another node does. -/
theorem DeployBodyOp.leavesPolicies {m n : String} {o : Op} (h : DeployBodyOp m o) (hne : m ≠ n) :
    LeavesPolicies n o := by
  cases o with
  | storage c =>
    cases c with
    | storePolicy p =>
      intro hp
      exact hne (h.symm.trans hp)
    | removeNode k => exact h.elim
    | _ => trivial
  | _ => trivial

theorem deployToNode_leavesPolicies [Extern] (cfg : ControllerConfig) {n : String} {node : Node}
    (hne : node.nodeId ≠ n) (rulesYaml : String) (options : CompileOptions) :
    (deployToNode cfg node rulesYaml options).Calls (LeavesPolicies n) := by
  have hbody := (deployToNodeBody_calls cfg node rulesYaml options).mono
    fun _ h => h.leavesPolicies hne
  exact calls_mark.2 ⟨trivial, hbody.bind fun _ => calls_mark.2 ⟨trivial, trivial⟩⟩

section Runs

variable [Extern] {n : String} {R : World MemoryStorage → World MemoryStorage → Prop}
  {w : World MemoryStorage} {α : Type}

/-- A program that leaves the policies of a node alone, among others that do. -/
theorem ensures_samePolicies (hR : ∀ w w', R w w' → SamePolicies n w w') {p : Proc α}
    (hp : p.Calls (LeavesPolicies n)) :
    (machine MemoryStorage).Ensures R p (fun _ w' => SamePolicies n w w') w :=
  Machine.ensures_of_invariant (fun _ _ hw h => h.trans (hR _ _ hw))
    (fun _ ho _ _ _ _ hx h => h.trans (samePolicies_of_exec ho hx)) hp (.refl w)

end Runs

/-! ## Deploys -/

section Deploy

variable [Extern] (cfg : ControllerConfig) {n : String} {w : World MemoryStorage}
  {R : World MemoryStorage → World MemoryStorage → Prop}

/-- The deploy left the content it was asked for stored, if it reports success. -/
def Leaves (n : String) (content : String × CompileOptions) (outcome : DeployOutcome)
    (w : World MemoryStorage) : Prop :=
  outcome.success = true → w.contentOf n = some content

/-- Once the content is stored, operations that leave the policies alone keep it. -/
theorem leaves_of_calls (hR : ∀ w w', R w w' → SamePolicies n w w')
    {content : String × CompileOptions} (hw : w.contentOf n = some content)
    {p : Proc DeployOutcome} (hp : p.Calls (LeavesPolicies n)) :
    (machine MemoryStorage).Ensures R p (Leaves n content) w := by
  refine Machine.Ensures.mono (ensures_samePolicies hR hp) ?_
  intro outcome w' hsame _
  exact hsame.contentOf.trans hw

theorem skipRedeploy_leavesPolicies (node : Node) (hash : String) :
    (skipRedeploy node hash).Calls (LeavesPolicies n) := by
  simp only [skipRedeploy, Prog.bind_eq, calls_storage]
  refine ⟨trivial, fun r => ?_⟩
  cases r with
  | error e => trivial
  | ok versions => simp [LeavesPolicies]

theorem storeAndForward_leaves (hR : ∀ w w', R w w' → SamePolicies n w w') {node : Node}
    (hn : node.nodeId = n) (rulesYaml hash : String) (options : CompileOptions) :
    (machine MemoryStorage).Ensures R (storeAndForward cfg node rulesYaml hash options)
      (Leaves n (rulesYaml, options)) w := by
  subst hn
  refine ensures_op.2 ?_
  intro w₁ _ x deployedAt w₂ _
  refine ensures_storage.2 ?_
  intro w₃ _ now
  -- from here on the policy is stored
  refine leaves_of_calls hR ?_ ?_
  · let policy := requestedPolicy node.nodeId rulesYaml hash deployedAt options
    show ((w₃.storage.policies.insert policy).get? policy.nodeId).map Policy.content = _
    rw [Table.get?_insert_self]
    rfl
  · show Prog.Calls _ (Prog.bind _ _)
    rw [calls_storage]
    simp [LeavesPolicies]

theorem deployToNodeBody_leaves (hR : ∀ w w', R w w' → SamePolicies n w w') {node : Node}
    (hn : node.nodeId = n) (rulesYaml : String) (options : CompileOptions) :
    (machine MemoryStorage).Ensures R (deployToNodeBody cfg node rulesYaml options)
      (Leaves n (rulesYaml, normalizeOptions options)) w := by
  simp only [deployToNodeBody]
  split
  · intro hfailed
    exact absurd hfailed (by simp [DeployOutcome.rejected])
  · refine ensures_storage.2 ?_
    intro w₁ _ now
    show (machine MemoryStorage).Ensures R
      (if node.state == .active && (w₁.storage.policies.get? node.nodeId).any
          (policyMatchesRequest · rulesYaml (policyHash rulesYaml) (normalizeOptions options)) then
        skipRedeploy node (policyHash rulesYaml)
      else storeAndForward cfg node rulesYaml (policyHash rulesYaml) (normalizeOptions options)) _ w₁
    split
    · -- what is asked for is what is stored
      rename_i hsame
      obtain ⟨-, hmatches⟩ := Bool.and_eq_true_iff.1 hsame
      obtain ⟨policy, hpolicy, hmatches⟩ := (Option.any_eq_true _ _).1 hmatches
      obtain ⟨hrules, -, hoptions⟩ := policyMatchesRequest_iff.1 hmatches
      refine leaves_of_calls hR ?_ (skipRedeploy_leavesPolicies node _)
      rw [World.contentOf, ← hn, hpolicy, Option.map_some, Policy.content, hrules, hoptions]
    · exact storeAndForward_leaves cfg hR hn rulesYaml _ _

/-- **A successful deploy leaves the rules and options it was asked for.** -/
theorem deployToNode_leaves (hR : ∀ w w', R w w' → SamePolicies n w w') {node : Node}
    (hn : node.nodeId = n) (rulesYaml : String) (options : CompileOptions) :
    (machine MemoryStorage).Ensures R (deployToNode cfg node rulesYaml options)
      (Leaves n (rulesYaml, normalizeOptions options)) w := by
  refine ensures_mark.2 ?_
  intro w₁ _
  refine Machine.ensures_bind.2 (Machine.Ensures.mono
    (deployToNodeBody_leaves cfg hR hn rulesYaml options) ?_)
  intro outcome w₂ hleaves
  refine ensures_mark.2 ?_
  intro w₃ hw₃ hsuccess
  exact (hR _ _ hw₃).contentOf.trans (hleaves hsuccess)

end Deploy

end PaciNet

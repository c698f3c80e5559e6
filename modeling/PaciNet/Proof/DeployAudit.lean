import PaciNet.Proof.OutcomeConditions

/-!
# The record of a deploy

Whatever becomes of a deploy to a node, it should leave a deployment record that says so. A deploy
that is a no-op leaves one, and so does one that the agent refuses, or never hears of. What the
node cannot do is looked at before, and a deploy that asks for it ends there.

**A deploy leaves exactly one record, with its result and version, if and only if the node has the
capabilities the options need**, whatever the storage and the agent answer as long as the storage
does what it is asked to (`audited_iff`).
-/

set_option autoImplicit false

namespace PaciNet

open Lib Prog

/-! ## Records in a trace -/

/-- The record an operation has stored. -/
def recordedDeployment : Answered → Option DeploymentRecord
  | ⟨.storage (.recordDeployment record), .ok _⟩ => some record
  | _ => none

/-- The storage has not refused the operation. The state of the node is left out: a deploy does
    not look at what becomes of it. -/
def StorageSucceeds : Answered → Prop
  | ⟨.storage (.getPolicy _), r⟩ => ∃ a, r = .ok a
  | ⟨.storage (.getPolicyHistory _ _), r⟩ => ∃ a, r = .ok a
  | ⟨.storage (.storePolicy _), r⟩ => ∃ a, r = .ok a
  | ⟨.storage (.recordDeployment _), r⟩ => ∃ a, r = .ok a
  | _ => True

/-- The trace stores exactly one record, which is about the node and says the outcome. -/
def Audited (nodeId : String) (es : List Answered) (outcome : DeployOutcome) : Prop :=
  ∃ record, es.filterMap recordedDeployment = [record] ∧ record.nodeId = nodeId ∧
    record.result = outcome.result ∧ record.policyVersion = outcome.version

/-! ## One deploy -/

section

variable [Extern] (cfg : ControllerConfig) {node : Node} {rulesYaml hash : String}
  {options : CompileOptions} {es : List Answered} {outcome : DeployOutcome}

theorem skipRedeploy_audited (h : (skipRedeploy node hash).Unfolds es (.done outcome))
    (hok : ∀ a ∈ es, StorageSucceeds a) : Audited node.nodeId es outcome := by
  obtain ⟨r, es₁, rfl, h₁⟩ := h.call_inv
  rw [Prog.done_bind] at h₁
  obtain ⟨versions, rfl⟩ := hok ⟨.storage (.getPolicyHistory _ _), r⟩ (by simp)
  obtain ⟨id, es₂, rfl, h₂⟩ := h₁.call_inv
  rw [Prog.done_bind] at h₂
  obtain ⟨deployedAt, es₃, rfl, h₃⟩ := h₂.call_inv
  rw [Prog.done_bind] at h₃
  obtain ⟨recorded, es₄, rfl, h₄⟩ := h₃.call_inv
  rw [Prog.done_bind] at h₄
  obtain ⟨u, rfl⟩ := hok ⟨.storage (.recordDeployment _), recorded⟩ (by simp)
  obtain ⟨rfl, heq⟩ := h₄.done_inv
  cases heq
  exact ⟨_, rfl, rfl, rfl, rfl⟩

theorem storeAndForward_audited
    (h : (storeAndForward cfg node rulesYaml hash options).Unfolds es (.done outcome))
    (hok : ∀ a ∈ es, StorageSucceeds a) : Audited node.nodeId es outcome := by
  obtain ⟨deployedAt, es₁, rfl, h₁⟩ := h.call_inv
  rw [Prog.done_bind] at h₁
  obtain ⟨r, es₂, rfl, h₂⟩ := h₁.call_inv
  rw [Prog.done_bind] at h₂
  obtain ⟨version, rfl⟩ := hok ⟨.storage (.storePolicy _), r⟩ (by simp)
  obtain ⟨deploying, es₃, rfl, h₃⟩ := h₂.call_inv
  rw [Prog.done_bind] at h₃
  obtain ⟨answer, es₄, rfl, h₄⟩ := h₃.call_inv
  rw [Prog.done_bind] at h₄
  obtain ⟨concluded, es₅, rfl, h₅⟩ := h₄.call_inv
  rw [Prog.done_bind] at h₅
  obtain ⟨id, es₆, rfl, h₆⟩ := h₅.call_inv
  rw [Prog.done_bind] at h₆
  obtain ⟨recorded, es₇, rfl, h₇⟩ := h₆.call_inv
  rw [Prog.done_bind] at h₇
  obtain ⟨u, rfl⟩ := hok ⟨.storage (.recordDeployment _), recorded⟩ (by simp)
  obtain ⟨rfl, heq⟩ := h₇.done_inv
  cases heq
  exact ⟨_, rfl, rfl, rfl, rfl⟩

/-- A deploy the node can do leaves its record, whichever way it goes. -/
theorem deployToNodeBody_audited
    (hcan : ensureNodeCapabilities node (normalizeOptions options) = .ok ())
    (h : (deployToNodeBody cfg node rulesYaml options).Unfolds es (.done outcome))
    (hok : ∀ a ∈ es, StorageSucceeds a) : Audited node.nodeId es outcome := by
  rw [deployToNodeBody, hcan] at h
  obtain ⟨r, es₁, rfl, h₁⟩ := h.call_inv
  rw [Prog.done_bind] at h₁
  obtain ⟨current, rfl⟩ := hok ⟨.storage (.getPolicy _), r⟩ (by simp)
  have hok₁ : ∀ a ∈ es₁, StorageSucceeds a := fun a ha => hok a (List.mem_cons_of_mem _ ha)
  have hrest : Audited node.nodeId es₁ outcome := by
    simp only at h₁
    split at h₁
    · exact skipRedeploy_audited h₁ hok₁
    · exact storeAndForward_audited cfg h₁ hok₁
  exact hrest

/-- One the node cannot do does nothing at all. -/
theorem deployToNodeBody_rejected {msg : String}
    (hcannot : ensureNodeCapabilities node (normalizeOptions options) = .error msg)
    (h : (deployToNodeBody cfg node rulesYaml options).Unfolds es (.done outcome)) :
    es = [] ∧ outcome = .rejected msg := by
  rw [deployToNodeBody, hcannot] at h
  obtain ⟨rfl, heq⟩ := h.done_inv
  cases heq
  exact ⟨rfl, rfl⟩

/-- What a deploy does between its marks. -/
theorem deployToNode_unfolds
    (h : (deployToNode cfg node rulesYaml options).Unfolds es (.done outcome)) :
    ∃ es', es = ⟨.mark (.enterDeploy node.nodeId), ()⟩ :: es' ++
        [⟨.mark (.exitDeploy node.nodeId), ()⟩] ∧
      (deployToNodeBody cfg node rulesYaml options).Unfolds es' (.done outcome) := by
  obtain ⟨entered, es₁, rfl, h₁⟩ := h.call_inv
  rw [Prog.done_bind] at h₁
  obtain ⟨es₂, es₃, outcome', rfl, h₂, h₃⟩ := Prog.unfolds_bind.mp h₁
  obtain ⟨exited, es₄, rfl, h₄⟩ := h₃.call_inv
  rw [Prog.done_bind] at h₄
  obtain ⟨rfl, heq⟩ := h₄.done_inv
  cases heq
  exact ⟨es₂, rfl, h₂⟩

/-- **A deploy leaves its record if and only if the node can do what the options ask for.** -/
theorem audited_iff (node : Node) (rulesYaml : String) (options : CompileOptions)
    (h : (deployToNode cfg node rulesYaml options).Unfolds es (.done outcome))
    (hok : ∀ a ∈ es, StorageSucceeds a) :
    Audited node.nodeId es outcome ↔
      ensureNodeCapabilities node (normalizeOptions options) = .ok () := by
  obtain ⟨es', rfl, hbody⟩ := deployToNode_unfolds cfg h
  have hrecorded : (⟨.mark (.enterDeploy node.nodeId), ()⟩ :: es' ++
      [⟨.mark (.exitDeploy node.nodeId), ()⟩] : List Answered).filterMap recordedDeployment =
        es'.filterMap recordedDeployment := by
    rw [List.cons_append, List.filterMap_cons_none rfl, List.filterMap_append]
    exact List.append_nil _
  rw [Audited, hrecorded]
  show Audited node.nodeId es' outcome ↔ _
  cases hcan : ensureNodeCapabilities node (normalizeOptions options) with
  | ok u =>
    have hok' : ∀ a ∈ es', StorageSucceeds a := fun a ha => hok a (by simp [ha])
    exact iff_of_true (deployToNodeBody_audited cfg hcan hbody hok') rfl
  | error msg =>
    obtain ⟨rfl, -⟩ := deployToNodeBody_rejected cfg hcan hbody
    refine iff_of_false ?_ (by simp)
    rintro ⟨record, hes, -⟩
    cases hes

end

/-! ## A deploy that is carried out, and one that is not -/

/-- The agent of a registered node accepts, and the record says so. -/
theorem audited_accepted : ∃ es outcome, Audited "n1" es outcome ∧ outcome.success = true := by
  let policy := requestedPolicy "n1" "rules: [a]" (@policyHash .sample "rules: [a]") 1
    (normalizeOptions .default)
  let record : DeploymentRecord :=
    ⟨"d1", "n1", 1, @policyHash .sample "rules: [a]", 1, .success, "Compiled"⟩
  let es : List Answered :=
    [⟨.mark (.enterDeploy "n1"), ()⟩, ⟨.storage (.getPolicy "n1"), .ok none⟩,
      ⟨.now, (1 : DateTime)⟩, ⟨.storage (.storePolicy policy), .ok 1⟩,
      ⟨.storage (.updateNodeState "n1" .deploying), .ok true⟩,
      ⟨.deployRules "http://agent:1" ⟨"rules: [a]", some (normalizeOptions .default)⟩,
        .response ⟨true, "Compiled", []⟩⟩,
      ⟨.storage (.updateNodeState "n1" .active), .ok true⟩, ⟨.uuid, "d1"⟩,
      ⟨.storage (.recordDeployment record), .ok ()⟩, ⟨.mark (.exitDeploy "n1"), ()⟩]
  let outcome : DeployOutcome := ⟨true, "Compiled", [], .success, 1⟩
  have hrun : (@deployToNode .sample plainConfig registeredN1 "rules: [a]" .default).Unfolds es
      (.done outcome) :=
    .step (.step (.step (.step (.step (.step (.step (.step (.step (.step (.refl _))))))))))
  have hok : ∀ a ∈ es, StorageSucceeds a := by
    simp [es, StorageSucceeds]
  have hcan : ensureNodeCapabilities registeredN1 (normalizeOptions .default) = .ok () := by decide
  exact ⟨es, outcome, (@audited_iff .sample plainConfig es outcome registeredN1 "rules: [a]"
    .default hrun hok).mpr hcan, rfl⟩

/-- Options that ask for a node with AXI. -/
def axiOptions : CompileOptions := { CompileOptions.default with axi := true }

/-- A node without AXI is refused a deploy that asks for it, and nothing says so. -/
theorem not_audited : ¬ ∀ (node : Node) (rulesYaml : String) (options : CompileOptions)
    (es : List Answered) (outcome : DeployOutcome),
    (@deployToNode .sample plainConfig node rulesYaml options).Unfolds es (.done outcome) →
      (∀ a ∈ es, StorageSucceeds a) → Audited node.nodeId es outcome := by
  intro h
  let msg := missingCapability registeredN1 "compile.axi"
  have hrun : (@deployToNode .sample plainConfig registeredN1 "rules: [a]" axiOptions).Unfolds
      [⟨.mark (.enterDeploy "n1"), ()⟩, ⟨.mark (.exitDeploy "n1"), ()⟩] (.done (.rejected msg)) :=
    .step (.step (.refl _))
  obtain ⟨record, hes, -⟩ :=
    h registeredN1 "rules: [a]" axiOptions _ _ hrun (by simp [StorageSucceeds])
  cases hes

end PaciNet

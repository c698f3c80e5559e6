import PaciNet.Lib.Alone
import PaciNet.Proof.DryRun

/-!
# What a dry run foretells

The REST dry run of a deploy reports for the node whether its policy changes: whether the hash
of the stored policy differs from that of the rules of the request. The deploy itself has a test
of its own for "nothing changes", `policy_matches_request`, which compares the options too, and
which only counts if the node is active.

**The report foretells the deploy exactly if the two tests agree** and the guard of the node is
free where something is to change. They do not agree when only the options of the request differ
from the stored ones, or when the node is not active: the dry run then reports no change, and the
deploy stores a version and asks the agent.
-/

set_option autoImplicit false

namespace PaciNet

open Lib

/-! ## The law -/

/-- The reply of a dry run reports about the node whether its policy changes. -/
def ReportsChanged (nodeId : String) (reply : Except AppError DeployPolicyResponse)
    (changed : Bool) : Prop :=
  ∃ response result info, reply = .ok response ∧ response.dryRunResult = some result ∧
    info ∈ result.targetNodes ∧ info.nodeId = nodeId ∧ info.policyChanged = changed

/-- No policy version was stored, and no agent was asked. -/
structure Untouched (w w' : World MemoryStorage) : Prop where
  versions : w'.storage.policyVersions = w.storage.policyVersions
  sent : w'.sent = w.sent

/-- A version was stored for the node, and its agent was asked to deploy the rules. -/
structure StoredAndSent (cfg : ControllerConfig) (node : Node) (rulesYaml : String)
    (options : CompileOptions) (w w' : World MemoryStorage) : Prop where
  versions : ∃ version,
    w'.storage.versionsOf node.nodeId = w.storage.versionsOf node.nodeId ++ [version]
  sent : w'.sent =
    w.sent ++ [(agentUrl cfg node.agentAddress, ⟨rulesYaml, some (normalizeOptions options)⟩)]

/-- **The dry run predicts the deploy**: the same request without `dry_run`, served next, changes
    nothing if the dry run reports no change, and stores and sends the policy if it reports one,
    provided that the node has the capabilities. -/
def PreviewPredicts [Extern] (cfg : ControllerConfig) (w : World MemoryStorage)
    (body : DeployRequest) : Prop :=
  ∀ preview w₁ changed outcome w₂,
    (machine MemoryStorage).RunsTo (restDeployPolicy cfg { body with dryRun := true })
      w preview w₁ →
    ReportsChanged body.nodeId preview changed →
    (machine MemoryStorage).RunsTo (restDeployPolicy cfg { body with dryRun := false })
      w₁ outcome w₂ →
    (changed = false → Untouched w₁ w₂) ∧
    (changed = true → ∀ node, w₁.storage.nodes.get? body.nodeId = some node →
      ensureNodeCapabilities node (normalizeOptions body.options) = .ok () →
      StoredAndSent cfg node body.rulesYaml body.options w₁ w₂)

/-- The stored policy of the node has the hash of the rules; a node without a policy counts as
    having the empty hash. -/
def HashesAgree [Extern] (s : MemoryStorage) (body : DeployRequest) : Prop :=
  ((s.policies.get? body.nodeId).map (·.policyHash)).getD "" = policyHash body.rulesYaml

/-- The node is active, and its policy is the one requested, options included. -/
def AlreadyActive [Extern] (s : MemoryStorage) (node : Node) (rulesYaml : String)
    (options : CompileOptions) : Prop :=
  node.state = .active ∧ ∃ policy, s.policies.get? node.nodeId = some policy ∧
    policy.rulesYaml = rulesYaml ∧ policy.policyHash = policyHash rulesYaml ∧
    policy.options = normalizeOptions options

/-- The two tests for "nothing changes" agree on the request: where the hashes are the same the
    deploy is refused or finds the policy active, and where they are not it finds its guard free. -/
def TestsAgree [Extern] (w : World MemoryStorage) (body : DeployRequest) : Prop :=
  w.leader = true → ∀ node, w.storage.nodes.get? body.nodeId = some node →
    (HashesAgree w.storage body → Refused w.storage node body.options ∨
      AlreadyActive w.storage node body.rulesYaml body.options) ∧
    (¬ HashesAgree w.storage body →
      ensureNodeCapabilities node (normalizeOptions body.options) = .ok () →
      node.nodeId ∉ w.storage.deploying)

/-! ## Running a task alone -/

section Runs

variable [Extern] {α : Type} {a : α} {w w' : World MemoryStorage}

theorem runsTo_op {o : Op} {f : o.Res → Proc α} :
    (machine MemoryStorage).RunsTo (@Prog.bind Op Op.Res (no_index o.Res) α (op o) f) w a w' ↔
      ∃ x r w₁ new, World.exec x o w = some (r, w₁, new) ∧
        (machine MemoryStorage).RunsTo (f r) w₁ a w' := Iff.rfl

theorem runsTo_storage {c : StorageCall} {f : c.Res → Proc α} :
    (machine MemoryStorage).RunsTo (@Prog.bind Op Op.Res (no_index c.Res) α (storage c) f) w a w' ↔
      ∃ now, (machine MemoryStorage).RunsTo (f (Storage.call now c w.storage).1)
        { w with storage := (Storage.call now c w.storage).2 } a w' := by
  constructor
  · intro h
    obtain ⟨x, r, w₁, new, hx, h⟩ := h
    cases hx
    exact ⟨x.now, h⟩
  · intro h
    obtain ⟨now, h⟩ := h
    exact ⟨.quiet now "", _, _, _, rfl, h⟩

theorem runsTo_mark {m : Mark} {f : Unit → Proc α} :
    (machine MemoryStorage).RunsTo ((mark m).bind f) w a w' ↔
      (machine MemoryStorage).RunsTo (f ()) { w with marks := w.marks ++ [m] } a w' := by
  constructor
  · intro h
    obtain ⟨x, r, w₁, new, hx, h⟩ := h
    cases hx
    exact h
  · intro h
    exact ⟨.quiet 0 "", _, _, _, rfl, h⟩

/-- The leader goes on with its request. -/
theorem runsTo_requireLeader {f : Unit → Proc (Except AppError α)} {r : Except AppError α}
    (hleader : w.leader = true) :
    (machine MemoryStorage).RunsTo (requireLeader.orReturn f) w r w' ↔
      (machine MemoryStorage).RunsTo (f ()) w r w' := by
  constructor
  · intro h
    obtain ⟨x, leader, w₁, new, hx, h⟩ := h
    cases hx
    rw [hleader] at h
    exact h
  · intro h
    refine ⟨.quiet 0 "", w.leader, w, [], rfl, ?_⟩
    rw [hleader]
    exact h

/-- A standby refuses it. -/
theorem runsTo_standby {f : Unit → Proc (Except AppError α)} {r : Except AppError α}
    (hleader : w.leader = false)
    (h : (machine MemoryStorage).RunsTo (requireLeader.orReturn f) w r w') : ∃ e, r = .error e := by
  obtain ⟨x, leader, w₁, new, hx, h⟩ := h
  cases hx
  rw [hleader] at h
  exact ⟨_, h.1⟩

/-! ## Operations that store no version and ask no agent -/

/-- The operation touches no policy and is not addressed to an agent. -/
def Op.Inert : Op → Prop
  | .storage (.storePolicy _) | .storage (.removeNode _) | .deployRules _ _ => False
  | _ => True

omit [Extern] in
theorem Untouched.refl (w : World MemoryStorage) : Untouched w w := ⟨rfl, rfl⟩

omit [Extern] in
theorem Untouched.trans {w₁ w₂ : World MemoryStorage} (h : Untouched w w₁)
    (h' : Untouched w₁ w₂) : Untouched w w₂ :=
  ⟨h'.versions.trans h.versions, h'.sent.trans h.sent⟩

theorem untouched_of_exec {x : Ext} {o : Op} {r : o.Res} {new : List Request} (ho : o.Inert)
    (hx : World.exec x o w = some (r, w', new)) : Untouched w w' := by
  have hstep := World.stepped_of_exec hx
  have hstorage := hstep.storage
  have hsent := hstep.sent
  cases o with
  | storage c =>
    have hs : w'.storage = w.storage.after x.now c := by
      rw [← MemoryStorage.call_snd, ← hstorage]
    have hsame : w'.sent = w.sent := hsent.trans (List.append_nil _)
    cases c with
    | storePolicy | removeNode => exact ho.elim
    | _ => exact ⟨by rw [hs]; rfl, hsame⟩
  | deployRules addr req => exact ho.elim
  | _ =>
    have hs : w'.storage = w.storage := hstorage
    exact ⟨by rw [hs], hsent.trans (List.append_nil _)⟩

/-- A task of such operations leaves everything untouched. -/
theorem untouched_of_runsTo {p : Proc α} (hp : p.Calls Op.Inert)
    (h : (machine MemoryStorage).RunsTo p w a w') : Untouched w w' := by
  refine h.keeps ?_ hp (.refl w)
  intro o ho x s r s' new hx hs
  exact hs.trans (untouched_of_exec ho hx)

omit [Extern] in
theorem StoredAndSent.of_untouched {cfg : ControllerConfig} {node : Node} {rulesYaml : String}
    {options : CompileOptions} {w₁ w₂ : World MemoryStorage} (hbefore : Untouched w w₁)
    (h : StoredAndSent cfg node rulesYaml options w₁ w₂) (hafter : Untouched w₂ w') :
    StoredAndSent cfg node rulesYaml options w w' := by
  obtain ⟨version, hversion⟩ := h.versions
  refine ⟨⟨version, ?_⟩, ?_⟩
  · rw [MemoryStorage.versionsOf, hafter.versions]
    refine hversion.trans ?_
    rw [MemoryStorage.versionsOf, hbefore.versions]
    rfl
  · rw [hafter.sent, h.sent, hbefore.sent]

omit [Extern] in
/-- What is untouched was not stored. -/
theorem StoredAndSent.not_untouched {cfg : ControllerConfig} {node : Node} {rulesYaml : String}
    {options : CompileOptions} (h : StoredAndSent cfg node rulesYaml options w w') :
    ¬ Untouched w w' := by
  intro hsame
  have hlength := congrArg List.length (h.sent.symm.trans hsame.sent)
  simp at hlength

end Runs

/-! ## The deploy of a node -/

section Deploy

variable [Extern] (cfg : ControllerConfig) {node : Node} {rulesYaml : String}
  {options : CompileOptions} {outcome : DeployOutcome} {w w' : World MemoryStorage}

theorem skipRedeploy_inert (node : Node) (hash : String) :
    (skipRedeploy node hash).Calls Op.Inert := by
  simp only [skipRedeploy, Prog.bind_eq, calls_storage]
  refine ⟨trivial, fun r => ?_⟩
  cases r with
  | error e => trivial
  | ok versions => simp [Op.Inert]

/-- The test of `deploy_to_node` is that the policy is already active. -/
theorem alreadyActive_iff {s : MemoryStorage} :
    (node.state == .active && (s.policies.get? node.nodeId).any
      (policyMatchesRequest · rulesYaml (policyHash rulesYaml) (normalizeOptions options))) = true ↔
      AlreadyActive s node rulesYaml options := by
  simp only [AlreadyActive, Bool.and_eq_true, beq_iff_eq, Option.any_eq_true,
    policyMatchesRequest_iff]

/-- A deploy that decides to store the policy stores a version and asks the agent once. -/
theorem storeAndForward_storedAndSent
    (h : (machine MemoryStorage).RunsTo (storeAndForward cfg node rulesYaml
      (policyHash rulesYaml) (normalizeOptions options)) w outcome w') :
    StoredAndSent cfg node rulesYaml options w w' := by
  obtain ⟨x, deployedAt, w₁, new, hx, h⟩ := runsTo_op.1 h
  cases hx
  obtain ⟨now, h⟩ := runsTo_storage.1 h
  obtain ⟨now', h⟩ := runsTo_storage.1 h
  -- what is left after the request to the agent concludes the deploy
  obtain ⟨y, answer, w₂, new', hy, h⟩ := runsTo_op.1 h
  have hstep := World.stepped_of_exec hy
  have hstorage := hstep.storage
  have hconclude : Untouched w₂ w' := untouched_of_runsTo (by simp [Op.Inert]) h
  have hstored : StoredAndSent cfg node rulesYaml options w w₂ := by
    let policy := requestedPolicy node.nodeId rulesYaml (policyHash rulesYaml) x.now
      (normalizeOptions options)
    let version : PolicyVersion :=
      { policy with version := (w.storage.versionsOf node.nodeId).length + 1 }
    refine ⟨⟨version, ?_⟩, hstep.sent⟩
    rw [hstorage]
    simp only [MemoryStorage.call_snd]
    show ((w.storage.policyVersions.insert node.nodeId _).lookup node.nodeId).getD [] = _
    rw [AList.lookup_insert]
    rfl
  exact hstored.of_untouched (.refl w) hconclude

/-- Past the gate, the body of the deploy is decided by that test. -/
theorem runsTo_deployToNodeBody
    (hcap : ensureNodeCapabilities node (normalizeOptions options) = .ok ())
    (h : (machine MemoryStorage).RunsTo (deployToNodeBody cfg node rulesYaml options)
      w outcome w') :
    (AlreadyActive w.storage node rulesYaml options ∧
      (machine MemoryStorage).RunsTo (skipRedeploy node (policyHash rulesYaml)) w outcome w') ∨
    (¬ AlreadyActive w.storage node rulesYaml options ∧
      (machine MemoryStorage).RunsTo (storeAndForward cfg node rulesYaml (policyHash rulesYaml)
        (normalizeOptions options)) w outcome w') := by
  simp only [deployToNodeBody, hcap, Prog.bind_eq] at h
  obtain ⟨now, h⟩ := runsTo_storage.1 h
  rw [← alreadyActive_iff]
  revert h
  show (machine MemoryStorage).RunsTo
    (if node.state == .active && (w.storage.policies.get? node.nodeId).any
        (policyMatchesRequest · rulesYaml (policyHash rulesYaml) (normalizeOptions options)) then
      skipRedeploy node (policyHash rulesYaml)
    else storeAndForward cfg node rulesYaml (policyHash rulesYaml) (normalizeOptions options))
    w outcome w' → _
  intro h
  split at h
  · rename_i htest
    exact .inl ⟨htest, h⟩
  · rename_i htest
    exact .inr ⟨htest, h⟩

theorem deployToNode_untouched
    (h : (machine MemoryStorage).RunsTo (deployToNode cfg node rulesYaml options) w outcome w')
    (hnothing : ensureNodeCapabilities node (normalizeOptions options) ≠ .ok () ∨
      AlreadyActive w.storage node rulesYaml options) : Untouched w w' := by
  by_cases hcap : ensureNodeCapabilities node (normalizeOptions options) = .ok ()
  · have hactive := hnothing.resolve_left (fun hne => hne hcap)
    have h := runsTo_mark.1 h
    obtain ⟨result, w₁, hbody, hrest⟩ := Machine.runsTo_bind.1 h
    have hafter : Untouched w₁ w' := untouched_of_runsTo (by simp [Op.Inert]) hrest
    rcases runsTo_deployToNodeBody cfg hcap hbody with ⟨-, hskip⟩ | ⟨hnot, -⟩
    · have hbefore := untouched_of_runsTo (skipRedeploy_inert node _) hskip
      exact Untouched.trans ⟨hbefore.versions, hbefore.sent⟩ hafter
    · exact absurd hactive hnot
  · obtain ⟨rejected, hdeploy⟩ := deployToNode_incapable cfg rulesYaml hcap
    rw [hdeploy] at h
    exact untouched_of_runsTo (by simp [Op.Inert]) h

theorem deployToNode_storedAndSent
    (h : (machine MemoryStorage).RunsTo (deployToNode cfg node rulesYaml options) w outcome w')
    (hcap : ensureNodeCapabilities node (normalizeOptions options) = .ok ())
    (hnot : ¬ AlreadyActive w.storage node rulesYaml options) :
    StoredAndSent cfg node rulesYaml options w w' := by
  have h := runsTo_mark.1 h
  have hbefore : Untouched w { w with marks := w.marks ++ [.enterDeploy node.nodeId] } :=
    ⟨rfl, rfl⟩
  obtain ⟨result, w₁, hbody, hrest⟩ := Machine.runsTo_bind.1 h
  have hafter : Untouched w₁ w' := untouched_of_runsTo (by simp [Op.Inert]) hrest
  rcases runsTo_deployToNodeBody cfg hcap hbody with ⟨hactive, -⟩ | ⟨-, hstore⟩
  · exact absurd hactive hnot
  · exact (storeAndForward_storedAndSent cfg hstore).of_untouched hbefore hafter

end Deploy

/-! ## The two requests -/

section Requests

variable [Extern] (cfg : ControllerConfig) {body : DeployRequest} {node : Node}
  {reply : Except AppError DeployPolicyResponse} {w w' : World MemoryStorage}

/-- The dry run of a known node changes nothing, and reports whether the hashes differ. -/
theorem dryRun_reports (hleader : w.leader = true)
    (hnode : w.storage.nodes.get? body.nodeId = some node)
    (h : (machine MemoryStorage).RunsTo (restDeployPolicy cfg { body with dryRun := true })
      w reply w') :
    w' = w ∧ ∀ changed, ReportsChanged body.nodeId reply changed ↔
      (changed = false ↔ HashesAgree w.storage body) := by
  have hread := (runsTo_requireLeader hleader).1 h
  obtain ⟨now, hread⟩ := runsTo_storage.1 hread
  simp only [Storage.call, MemoryStorage.getNode, hnode] at hread
  obtain ⟨now', hread⟩ := runsTo_storage.1 hread
  obtain ⟨rfl, rfl⟩ := hread
  refine ⟨rfl, fun changed => ?_⟩
  have hid : node.nodeId = body.nodeId := Table.key_of_get? hnode
  constructor
  · intro hreports
    obtain ⟨response, result, info, hreply, hresult, hinfo, -, hchanged⟩ := hreports
    cases hreply
    cases hresult
    rw [List.mem_singleton.1 hinfo] at hchanged
    rw [← hchanged]
    exact bne_eq_false_iff_eq
  · intro hchanged
    refine ⟨_, _, _, rfl, rfl, List.mem_singleton_self _, hid, ?_⟩
    rw [Bool.eq_iff_iff, ← not_iff_not, Bool.not_eq_true, Bool.not_eq_true, hchanged]
    exact bne_eq_false_iff_eq

omit [Extern] in
theorem recordAudit_inert (action resourceId details : String) :
    (recordAudit action resourceId details).Calls Op.Inert := by
  simp [recordAudit, Op.Inert]

/-- A request to deploy to a known node goes on once it has the guard. -/
theorem runsTo_deploy (hleader : w.leader = true)
    (hnode : w.storage.nodes.get? body.nodeId = some node)
    (h : (machine MemoryStorage).RunsTo (restDeployPolicy cfg { body with dryRun := false })
      w reply w') :
    (node.nodeId ∈ w.storage.deploying ∧ Untouched w w') ∨
    (node.nodeId ∉ w.storage.deploying ∧ ∃ outcome w₁ w₂, Untouched w w₁ ∧
      w₁.storage.policies = w.storage.policies ∧
      (machine MemoryStorage).RunsTo (deployToNode cfg node body.rulesYaml body.options)
        w₁ outcome w₂ ∧ Untouched w₂ w') := by
  have hid : node.nodeId = body.nodeId := Table.key_of_get? hnode
  have hread := (runsTo_requireLeader hleader).1 h
  obtain ⟨now, hread⟩ := runsTo_storage.1 hread
  simp only [Storage.call, MemoryStorage.getNode, hnode] at hread
  obtain ⟨now', hbegin⟩ := runsTo_storage.1 hread
  by_cases hbusy : node.nodeId ∈ w.storage.deploying
  · have hrefused : w.storage.beginDeploy body.nodeId = (.error _, w.storage) :=
      if_pos (hid ▸ hbusy)
    simp only [Storage.call, hrefused] at hbegin
    obtain ⟨-, rfl⟩ := hbegin
    exact .inl ⟨hbusy, .refl _⟩
  · have htaken : w.storage.beginDeploy body.nodeId =
        (.ok (), { w.storage with deploying := insert body.nodeId w.storage.deploying }) :=
      if_neg (hid ▸ hbusy)
    simp only [Storage.call, htaken] at hbegin
    obtain ⟨outcome, w₂, hdeploy, hrest⟩ := Machine.runsTo_bind.1 hbegin
    have hafter : Untouched w₂ w' := by
      refine untouched_of_runsTo ?_ hrest
      refine calls_storage.2 ⟨trivial, fun _ => ?_⟩
      exact .bind (recordAudit_inert _ _ _) fun _ => trivial
    refine .inr ⟨hbusy, outcome, _, w₂, ?_, ?_, hdeploy, hafter⟩
    · exact ⟨rfl, rfl⟩
    · rfl

omit [Extern] in
theorem AlreadyActive.of_policies [Extern] {s s' : MemoryStorage} {rulesYaml : String}
    {options : CompileOptions} (hpolicies : s'.policies = s.policies)
    (h : AlreadyActive s node rulesYaml options) : AlreadyActive s' node rulesYaml options := by
  rw [AlreadyActive, hpolicies]
  exact h

theorem deploy_untouched (hleader : w.leader = true)
    (hnode : w.storage.nodes.get? body.nodeId = some node)
    (hnothing : Refused w.storage node body.options ∨
      AlreadyActive w.storage node body.rulesYaml body.options)
    (h : (machine MemoryStorage).RunsTo (restDeployPolicy cfg { body with dryRun := false })
      w reply w') : Untouched w w' := by
  rcases runsTo_deploy cfg hleader hnode h with
    ⟨-, hsame⟩ | ⟨hfree, outcome, w₁, w₂, hbefore, hpolicies, hdeploy, hafter⟩
  · exact hsame
  · have hskips : ensureNodeCapabilities node (normalizeOptions body.options) ≠ .ok () ∨
        AlreadyActive w₁.storage node body.rulesYaml body.options := by
      rcases hnothing with hrefused | hactive
      · exact .inl (hrefused.resolve_left hfree)
      · exact .inr (hactive.of_policies hpolicies)
    have hmiddle := deployToNode_untouched cfg hdeploy hskips
    exact (hbefore.trans hmiddle).trans hafter

theorem deploy_storedAndSent (hleader : w.leader = true)
    (hnode : w.storage.nodes.get? body.nodeId = some node)
    (hnot : ¬ Refused w.storage node body.options)
    (hother : ¬ AlreadyActive w.storage node body.rulesYaml body.options)
    (h : (machine MemoryStorage).RunsTo (restDeployPolicy cfg { body with dryRun := false })
      w reply w') : StoredAndSent cfg node body.rulesYaml body.options w w' := by
  obtain ⟨hfree, hcap⟩ := not_refused hnot
  rcases runsTo_deploy cfg hleader hnode h with
    ⟨hbusy, -⟩ | ⟨-, outcome, w₁, w₂, hbefore, hpolicies, hdeploy, hafter⟩
  · exact absurd hbusy hfree
  · have hother₁ : ¬ AlreadyActive w₁.storage node body.rulesYaml body.options :=
      fun hactive => hother (hactive.of_policies hpolicies.symm)
    exact (deployToNode_storedAndSent cfg hdeploy hcap hother₁).of_untouched hbefore hafter

/-! ## Both come to an end -/

/-- Only waiting for a task of a batch can be impossible. -/
theorem enabled_of_ne {o : Op} (ho : ∀ joinSet, o ≠ .joinSetNext joinSet) :
    (machine MemoryStorage).Enabled o := by
  intro s
  obtain ⟨uuid, hfresh⟩ := World.exists_fresh s.issued
  cases o with
  | uuid => exact ⟨.quiet 0 uuid, _, _, _, if_neg hfresh⟩
  | joinSetNext joinSet => exact absurd rfl (ho joinSet)
  | _ => exact ⟨.quiet 0 uuid, _, _, _, rfl⟩

theorem restDeployPolicy_enabled (body : DeployRequest) :
    (restDeployPolicy cfg body).Calls (machine MemoryStorage).Enabled := by
  have hwaits : (restDeployPolicy cfg body).Calls fun o => ∀ joinSet, o ≠ .joinSetNext joinSet := by
    refine Prog.Calls.orReturn ?_ fun _ => ?_
    · refine calls_op.2 ⟨by simp, fun leader => ?_⟩
      cases leader <;> trivial
    · refine calls_storage.2 ⟨by simp, fun r => ?_⟩
      rcases r with e | _ | node
      · trivial
      · trivial
      · show Prog.Calls _ (if body.dryRun then _ else _)
        split
        · refine calls_storage.2 ⟨by simp, fun r => ?_⟩
          cases r <;> trivial
        · refine calls_storage.2 ⟨by simp, fun r => ?_⟩
          cases r with
          | error e => trivial
          | ok u =>
            refine Prog.Calls.bind (deployToNode_waits cfg node _ _) fun outcome => ?_
            refine calls_storage.2 ⟨by simp, fun _ => ?_⟩
            exact .bind (by simp [recordAudit]) fun _ => trivial
  exact hwaits.mono fun o ho => enabled_of_ne ho

/-! ## The preview and the deploy -/

/-- Only the dry run of a known node on the leader reports anything. -/
theorem known_of_reports {changed : Bool}
    (h : (machine MemoryStorage).RunsTo (restDeployPolicy cfg { body with dryRun := true })
      w reply w') (hreports : ReportsChanged body.nodeId reply changed) :
    w.leader = true ∧ ∃ node, w.storage.nodes.get? body.nodeId = some node := by
  obtain ⟨response, -, -, hreply, -⟩ := hreports
  cases hleader : w.leader with
  | false =>
    obtain ⟨e, he⟩ := runsTo_standby hleader h
    rw [hreply] at he
    cases he
  | true =>
    refine ⟨rfl, ?_⟩
    cases hnode : w.storage.nodes.get? body.nodeId with
    | some node => exact ⟨node, rfl⟩
    | none =>
      have hread := (runsTo_requireLeader hleader).1 h
      obtain ⟨now, hread⟩ := runsTo_storage.1 hread
      simp only [Storage.call, MemoryStorage.getNode, hnode] at hread
      rw [hreply] at hread
      cases hread.1

theorem previewPredicts_of_testsAgree (h : TestsAgree w body) : PreviewPredicts cfg w body := by
  intro preview w₁ changed outcome w₂ hdry hreports hdeploy
  obtain ⟨hleader, node, hnode⟩ := known_of_reports cfg hdry hreports
  obtain ⟨rfl, hiff⟩ := dryRun_reports cfg hleader hnode hdry
  have hchanged := (hiff changed).1 hreports
  obtain ⟨hagree, hdiffer⟩ := h hleader node hnode
  refine ⟨?_, ?_⟩
  · intro hfalse
    exact deploy_untouched cfg hleader hnode (hagree (hchanged.1 hfalse)) hdeploy
  · intro htrue node' hnode' hcap
    obtain rfl : node = node' := Option.some.inj (hnode.symm.trans hnode')
    have hdifferent : ¬ HashesAgree w₁.storage body := by
      intro hsame
      rw [hchanged.2 hsame] at htrue
      cases htrue
    have hfree := hdiffer hdifferent hcap
    refine deploy_storedAndSent cfg hleader hnode ?_ ?_ hdeploy
    · intro hrefused
      exact hrefused.elim hfree fun hne => hne hcap
    · -- a policy that is active already has the hash of the rules
      intro hactive
      obtain ⟨-, policy, hpolicy, -, hhash, -⟩ := hactive
      have hid : node.nodeId = body.nodeId := Table.key_of_get? hnode
      rw [hid] at hpolicy
      refine hdifferent ?_
      rw [HashesAgree, hpolicy]
      exact hhash

theorem testsAgree_of_previewPredicts (h : PreviewPredicts cfg w body) : TestsAgree w body := by
  intro hleader node hnode
  obtain ⟨preview, w₁, hdry⟩ :=
    Machine.exists_runsTo (restDeployPolicy_enabled cfg { body with dryRun := true }) w
  obtain ⟨rfl, hiff⟩ := dryRun_reports cfg hleader hnode hdry
  obtain ⟨outcome, w₂, hdeploy⟩ :=
    Machine.exists_runsTo (restDeployPolicy_enabled cfg { body with dryRun := false }) w₁
  refine ⟨?_, ?_⟩
  · intro hsame
    have hreports := (hiff false).2 ⟨fun _ => hsame, fun _ => rfl⟩
    have huntouched := (h preview w₁ false outcome w₂ hdry hreports hdeploy).1 rfl
    by_contra hnot
    obtain ⟨hrefused, hother⟩ := not_or.1 hnot
    exact (deploy_storedAndSent cfg hleader hnode hrefused hother hdeploy).not_untouched huntouched
  · intro hdifferent hcap hbusy
    have hreports := (hiff true).2
      ⟨fun htrue => Bool.noConfusion htrue, fun hsame => (hdifferent hsame).elim⟩
    have hstored := (h preview w₁ true outcome w₂ hdry hreports hdeploy).2 rfl node hnode hcap
    exact hstored.not_untouched (deploy_untouched cfg hleader hnode (.inl (.inl hbusy)) hdeploy)

/-- **The dry run predicts the deploy if and only if the two tests for "nothing changes" agree on
    the request**, whatever is stored. -/
theorem previewPredicts_iff (cfg : ControllerConfig) (w : World MemoryStorage)
    (body : DeployRequest) : PreviewPredicts cfg w body ↔ TestsAgree w body :=
  ⟨testsAgree_of_previewPredicts cfg, previewPredicts_of_testsAgree cfg⟩

end Requests

/-! ## Other options -/

/-- A controller whose node "n1" is active with the policy that was deployed to it. -/
def World.active : World MemoryStorage :=
  let s := (MemoryStorage.new.registerNode (.new 0 "n1" "host" "10.0.0.1:50052" ∅ "1.0")).2
  let s := (s.storePolicy (requestedPolicy "n1" "rules: [b]" "d84905f2169d6cc5" 0
    (normalizeOptions .default))).2
  .init ([NodeState.online, .deploying, .active].foldl
    (fun s state => (s.updateNodeState "n1" state).2) s)

/-- A request with the rules of that policy that asks for counters. -/
def withCounters : DeployRequest :=
  ⟨"n1", "rules: [b]", { CompileOptions.default with counters := true }, false⟩

/-- The hash is that of the rules alone: the dry run reports that nothing changes, and the deploy
    stores a version and asks the agent. -/
theorem not_previewPredicts : ¬ ∀ (w : World MemoryStorage) (body : DeployRequest),
    @PreviewPredicts .sample plainConfig w body := by
  intro h
  have hagree := @testsAgree_of_previewPredicts .sample plainConfig withCounters World.active
    (h World.active withCounters)
  obtain ⟨node, hnode⟩ : ∃ node, World.active.storage.nodes.get? "n1" = some node :=
    Option.isSome_iff_exists.1 (by decide +kernel)
  have hid : node.nodeId = "n1" := Table.key_of_get? hnode
  have hsame : @HashesAgree .sample World.active.storage withCounters := by
    show _ = _
    decide +kernel
  rcases (hagree rfl node hnode).1 hsame with (hbusy | hcap) | ⟨-, policy, hpolicy, -, -, hoptions⟩
  · exact absurd hbusy (Finset.notMem_empty _)
  · exact hcap rfl
  · have hstored : (World.active.storage.policies.get? "n1").map (·.options.counters) =
        some false := by decide +kernel
    rw [← hid, hpolicy, Option.map_some, hoptions] at hstored
    cases hstored

end PaciNet

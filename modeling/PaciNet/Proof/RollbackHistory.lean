import PaciNet.Proof.DeploySound
import PaciNet.Proof.RollbackTarget

/-!
# What a rollback without a version goes back to

`rollback_policy` with target version 0 goes to the entry before the newest in the history of its
node. A deploy enters its policy there before it asks the agent, and every deploy does, so the
history tells what was tried and not what was accepted.

**The version that is gone back to was entered by a deploy of its own rules and options**, one
that came to its end. What the agent made of that deploy, the rollback does not ask.
-/

set_option autoImplicit false

namespace PaciNet

open Lib Prog

/-! ## Requests about the policy of a node -/

/-- What is asked for about the policy of a node. -/
inductive PolicyRequest where
  /-- A deploy, from whichever of the callers of `deploy_to_node`. -/
  | deploy (node : Node) (rulesYaml : String) (options : CompileOptions)
  | rollback (targetVersion : Nat)
  | restRollback (targetVersion : Nat)

/-- The rules and the options of a version. -/
def PolicyVersion.content (v : PolicyVersion) : String × CompileOptions := v.toPolicy.content

/-- The version a rollback of the node goes to. -/
def World.rollbackTarget (w : World MemoryStorage) (n : String) (targetVersion : Nat) :
    Option PolicyVersion :=
  (chooseRollback targetVersion ((w.storage.versionsOf n).reverse.take 10)).chosen

namespace PolicyRequest

/-- A request about the policy of the node `n`. -/
def On (n : String) : PolicyRequest → Prop
  | deploy node _ _ => node.nodeId = n
  | rollback _ | restRollback _ => True

/-- The version that is gone back to. -/
def target (w : World MemoryStorage) (n : String) : PolicyRequest → Option PolicyVersion
  | deploy _ _ _ => none
  | rollback targetVersion | restRollback targetVersion => w.rollbackTarget n targetVersion

/-- What is asked to be stored. -/
def asks (w : World MemoryStorage) (n : String) (req : PolicyRequest) :
    Option (String × CompileOptions) :=
  match req with
  | deploy _ rulesYaml options => some (rulesYaml, normalizeOptions options)
  | req => (req.target w n).map PolicyVersion.redeployed

/-- Serve the request, and say whether success is reported. -/
def serve [Extern] (cfg : ControllerConfig) (n : String) : PolicyRequest → Proc Bool
  | deploy node rulesYaml options => do
    let outcome ← deployToNode cfg node rulesYaml options
    pure outcome.success
  | rollback targetVersion => do
    let r ← rollbackPolicy cfg n targetVersion
    pure (r.toOption.any RollbackPolicyResponse.success)
  | restRollback targetVersion => do
    let r ← restRollbackPolicy cfg n targetVersion
    pure (r.toOption.any RollbackPolicyResponse.success)

/-- The request is a rollback that names no version. -/
def ToPrevious : PolicyRequest → Prop
  | deploy _ _ _ => False
  | rollback targetVersion | restRollback targetVersion => targetVersion = 0

end PolicyRequest

/-- A request that was served. -/
structure PolicyRun where
  request : PolicyRequest
  before : World MemoryStorage
  success : Bool
  after : World MemoryStorage

namespace PolicyRun

/-- The serving, among others that neither deploy to the node nor remove it. -/
def Serves [Extern] (cfg : ControllerConfig) (n : String) (e : PolicyRun) : Prop :=
  e.request.On n ∧
    (machine MemoryStorage).Exec (SamePolicies n) (e.request.serve cfg n) e.before e.success e.after

/-- What was asked to be stored. -/
def asks (n : String) (e : PolicyRun) : Option (String × CompileOptions) :=
  e.request.asks e.before n

/-- The version was entered in the history. -/
def Enters (n : String) (e : PolicyRun) (v : PolicyVersion) : Prop :=
  e.after.storage.versionsOf n = e.before.storage.versionsOf n ++ [v]

/-- The rollback goes to the version. -/
def GoesBackTo (n : String) (e : PolicyRun) (v : PolicyVersion) : Prop :=
  e.request.ToPrevious ∧ e.request.target e.before n = some v

end PolicyRun

/-- The requests about the policy of a node one after the other, from a world. -/
def PolicyRuns [Extern] (cfg : ControllerConfig) (n : String) :
    World MemoryStorage → List PolicyRun → Prop
  | _, [] => True
  | w, e :: es => SamePolicies n w e.before ∧ e.Serves cfg n ∧ PolicyRuns cfg n e.after es

/-! ## What one request enters -/

/-- The history is as it was, or a version with the content has been entered. -/
def Grown (n : String) (content : Option (String × CompileOptions)) (w w' : World MemoryStorage) :
    Prop :=
  w'.storage.versionsOf n = w.storage.versionsOf n ∨
    ∃ v, some v.content = content ∧
      w'.storage.versionsOf n = w.storage.versionsOf n ++ [v]

section Grown

variable {n : String} {content : Option (String × CompileOptions)} {w w₁ w₂ : World MemoryStorage}

theorem SamePolicies.grown (h : SamePolicies n w w₁) : Grown n content w w₁ := .inl h.versions

theorem Grown.after (h : Grown n content w₁ w₂) (hw : SamePolicies n w w₁) :
    Grown n content w w₂ := by
  rw [Grown, ← hw.versions]
  exact h

theorem Grown.then (h : Grown n content w w₁) (hw : SamePolicies n w₁ w₂) :
    Grown n content w w₂ := by
  rw [Grown, hw.versions]
  exact h

end Grown

section Serve

variable [Extern] (cfg : ControllerConfig) {n : String} {w : World MemoryStorage}

/-- Operations that leave the policies alone enter no version. -/
theorem grown_of_calls {α : Type} {content : Option (String × CompileOptions)} {p : Proc α}
    (hp : p.Calls (LeavesPolicies n)) :
    (machine MemoryStorage).Ensures (SamePolicies n) p (fun _ w' => Grown n content w w') w := by
  refine Machine.Ensures.mono (ensures_samePolicies (fun _ _ h => h) hp) ?_
  intro _ w' hsame
  exact hsame.grown

theorem storeAndForward_grown {node : Node} (hn : node.nodeId = n) (rulesYaml hash : String)
    (options : CompileOptions) :
    (machine MemoryStorage).Ensures (SamePolicies n)
      (storeAndForward cfg node rulesYaml hash options)
      (fun _ w' => Grown n (some (rulesYaml, options)) w w') w := by
  subst hn
  refine ensures_op.2 ?_
  intro w₁ hw₁ x deployedAt w₂ hx
  refine ensures_storage.2 ?_
  intro w₃ hw₃ now
  have hw : SamePolicies node.nodeId w w₃ :=
    (hw₁.trans (samePolicies_of_exec (o := .now) trivial hx)).trans hw₃
  let policy := requestedPolicy node.nodeId rulesYaml hash deployedAt options
  let w₄ : World MemoryStorage := { w₃ with storage := (w₃.storage.storePolicy policy).2 }
  have hstored : Grown node.nodeId (some (rulesYaml, options)) w₃ w₄ := by
    refine .inr ⟨{ policy with version := (w₃.storage.versionsOf policy.nodeId).length + 1 },
      rfl, ?_⟩
    show ((w₃.storage.policyVersions.insert policy.nodeId _).lookup policy.nodeId).getD [] = _
    rw [AList.lookup_insert]
    rfl
  -- the rest of the deploy writes no policy
  refine Machine.Ensures.mono (ensures_samePolicies (n := node.nodeId) (fun _ _ h => h) ?_) ?_
  · show Prog.Calls _ (Prog.bind _ _)
    rw [calls_storage]
    simp [LeavesPolicies]
  · intro outcome w' hw'
    exact (hstored.then hw').after hw

theorem deployToNode_grown {node : Node} (hn : node.nodeId = n) (rulesYaml : String)
    (options : CompileOptions) :
    (machine MemoryStorage).Ensures (SamePolicies n) (deployToNode cfg node rulesYaml options)
      (fun _ w' => Grown n (some (rulesYaml, normalizeOptions options)) w w') w := by
  refine ensures_mark.2 ?_
  intro w₁ hw₁
  have hw : SamePolicies n w { w₁ with marks := w₁.marks ++ [.enterDeploy node.nodeId] } :=
    ⟨hw₁.policy, hw₁.versions⟩
  refine Machine.ensures_bind.2 ?_
  refine Machine.Ensures.mono (Q := fun _ w' =>
    Grown n (some (rulesYaml, normalizeOptions options)) w w') ?_ ?_
  · unfold deployToNodeBody
    simp only
    split
    · exact hw.grown
    · refine ensures_storage.2 ?_
      intro w₂ hw₂ now
      have hw' : SamePolicies n w w₂ := hw.trans hw₂
      split
      · exact hw'.grown
      · split
        · exact (grown_of_calls (skipRedeploy_leavesPolicies node _)).mono
            fun _ _ h => h.after hw'
        · exact (storeAndForward_grown cfg hn rulesYaml _ _).mono fun _ _ h => h.after hw'
  · intro outcome w₂ hgrown
    refine ensures_mark.2 ?_
    intro w₃ hw₃
    exact hgrown.then ⟨hw₃.policy, hw₃.versions⟩

/-- A deploy of the rules and options under the guard of the node. -/
theorem guarded_grown {α : Type} {node : Node} (hn : node.nodeId = n) {rulesYaml : String}
    {options : CompileOptions} {k : StorageResult Unit → Proc α} {reply : DeployOutcome → α}
    (hk : k (.ok ()) = (deployToNode cfg node rulesYaml options).bind fun outcome =>
      (storage (.endDeploy n)).bind fun _ => .done (reply outcome))
    (herr : ∀ e, ∃ a, k (.error e) = .done a) :
    (machine MemoryStorage).Ensures (SamePolicies n) ((storage (.beginDeploy n)).bind k)
      (fun _ w' => Grown n (some (rulesYaml, normalizeOptions options)) w w') w := by
  refine ensures_op.2 ?_
  intro w₁ hw₁ x r w₂ hx
  have hw : SamePolicies n w w₂ :=
    hw₁.trans (samePolicies_of_exec (o := .storage (.beginDeploy n)) trivial hx)
  cases r with
  | error e =>
    obtain ⟨a, ha⟩ := herr e
    rw [ha]
    exact hw.grown
  | ok u =>
    rw [hk]
    refine Machine.ensures_bind.2 ((deployToNode_grown cfg hn rulesYaml options).mono ?_)
    intro outcome w₃ hgrown
    refine ensures_op.2 ?_
    intro w₄ hw₄ x' r w₅ hx'
    exact (hgrown.after hw).then
      (hw₄.trans (samePolicies_of_exec (o := .storage (.endDeploy n)) trivial hx'))

omit [Extern] in
/-- Others do not change what a rollback goes back to. -/
theorem SamePolicies.rollbackTarget {w₁ : World MemoryStorage} (h : SamePolicies n w w₁)
    (targetVersion : Nat) :
    w₁.rollbackTarget n targetVersion = w.rollbackTarget n targetVersion := by
  rw [World.rollbackTarget, h.versions]
  rfl

theorem rollbackPolicy_grown (targetVersion : Nat) :
    (machine MemoryStorage).Ensures (SamePolicies n) (rollbackPolicy cfg n targetVersion)
      (fun _ w' => Grown n ((w.rollbackTarget n targetVersion).map PolicyVersion.redeployed) w w')
      w := by
  refine ensures_storage.2 ?_
  intro w₁ hw₁ now
  split
  · exact hw₁.grown
  · exact hw₁.grown
  · rename_i node hnode
    have hn : node.nodeId = n := Table.key_of_get? (Except.ok.inj hnode)
    refine ensures_storage.2 ?_
    intro w₂ hw₂ now
    have hw : SamePolicies n w w₂ := hw₁.trans hw₂
    rw [← hw.rollbackTarget]
    have hread : (Storage.call now (.getPolicyHistory n 10) w₂.storage).1 =
        .ok ((w₂.storage.versionsOf n).reverse.take 10) := rfl
    rw [hread]
    dsimp only
    cases hchoice : chooseRollback targetVersion ((w₂.storage.versionsOf n).reverse.take 10) with
    | refused message => exact hw.grown
    | notFound message => exact hw.grown
    | version v =>
      rw [World.rollbackTarget, hchoice]
      refine Machine.Ensures.mono
        (guarded_grown cfg hn (Prog.bind_assoc _ _ _) fun e => ⟨_, rfl⟩) ?_
      exact fun _ _ h => h.after hw

theorem restRollbackPolicy_grown (targetVersion : Nat) :
    (machine MemoryStorage).Ensures (SamePolicies n) (restRollbackPolicy cfg n targetVersion)
      (fun _ w' => Grown n ((w.rollbackTarget n targetVersion).map PolicyVersion.redeployed) w w')
      w := by
  refine ensures_op.2 ?_
  intro w₁ hw₁ x leads w₂ hx
  have hw₂ : SamePolicies n w w₂ := hw₁.trans (samePolicies_of_exec (o := .isLeader) trivial hx)
  cases leads with
  | false => exact hw₂.grown
  | true =>
    refine ensures_storage.2 ?_
    intro w₃ hw₃ now
    split
    · exact (hw₂.trans hw₃).grown
    · exact (hw₂.trans hw₃).grown
    · rename_i node hnode
      have hn : node.nodeId = n := Table.key_of_get? (Except.ok.inj hnode)
      refine ensures_storage.2 ?_
      intro w₄ hw₄ now
      have hw : SamePolicies n w w₄ := (hw₂.trans hw₃).trans hw₄
      rw [← hw.rollbackTarget]
      have hread : (Storage.call now (.getPolicyHistory n 10) w₄.storage).1 =
          .ok ((w₄.storage.versionsOf n).reverse.take 10) := rfl
      rw [hread]
      dsimp only
      cases hchoice : chooseRollback targetVersion ((w₄.storage.versionsOf n).reverse.take 10) with
      | refused message => exact hw.grown
      | notFound message => exact hw.grown
      | version v =>
        rw [World.rollbackTarget, hchoice]
        refine Machine.Ensures.mono (guarded_grown cfg hn rfl fun e => ⟨_, rfl⟩) ?_
        exact fun _ _ h => h.after hw

/-- What a request enters, if anything, is what it asks to be stored. -/
theorem PolicyRequest.serve_grown {req : PolicyRequest} (hreq : req.On n) :
    (machine MemoryStorage).Ensures (SamePolicies n) (req.serve cfg n)
      (fun _ w' => Grown n (req.asks w n) w w') w := by
  cases req with
  | deploy node rulesYaml options =>
    exact Machine.ensures_bind.2 (deployToNode_grown cfg hreq rulesYaml options)
  | rollback targetVersion => exact Machine.ensures_bind.2 (rollbackPolicy_grown cfg targetVersion)
  | restRollback targetVersion =>
    exact Machine.ensures_bind.2 (restRollbackPolicy_grown cfg targetVersion)

theorem PolicyRun.Serves.enters {e : PolicyRun} (h : e.Serves cfg n) :
    e.after.storage.versionsOf n = e.before.storage.versionsOf n ∨
      ∃ v, e.asks n = some v.content ∧ e.Enters n v := by
  rcases h.2.ensures (PolicyRequest.serve_grown cfg h.1) with hsame | ⟨v, hcontent, henters⟩
  · exact .inl hsame
  · exact .inr ⟨v, hcontent.symm, henters⟩

end Serve

/-! ## The law -/

/-- Every version in the history was entered by one of the requests, which asked for it. -/
def AllEntered (n : String) (past : List PolicyRun) (w : World MemoryStorage) : Prop :=
  ∀ v ∈ w.storage.versionsOf n, ∃ e ∈ past, e.asks n = some v.content ∧ e.Enters n v

section Law

variable [Extern] {cfg : ControllerConfig} {n : String} {past : List PolicyRun} {e : PolicyRun}

theorem PolicyRun.Serves.allEntered (h : e.Serves cfg n) (hpast : AllEntered n past e.before) :
    AllEntered n (past ++ [e]) e.after := by
  intro v hv
  have hold : v ∈ e.before.storage.versionsOf n →
      ∃ e' ∈ past ++ [e], e'.asks n = some v.content ∧ e'.Enters n v := by
    intro hv
    obtain ⟨e', he', henters⟩ := hpast v hv
    exact ⟨e', List.mem_append_left _ he', henters⟩
  rcases h.enters with hsame | ⟨new, hasks, henters⟩
  · rw [hsame] at hv
    exact hold hv
  · rw [henters, List.mem_append, List.mem_singleton] at hv
    rcases hv with hv | rfl
    · exact hold hv
    · exact ⟨e, List.mem_append_right _ (List.mem_singleton_self e), hasks, henters⟩

/-- Along the requests every version stays one that was entered. -/
theorem PolicyRuns.allEntered {w : World MemoryStorage} {es : List PolicyRun}
    (h : PolicyRuns cfg n w es) (hpast : AllEntered n past w) {k : Nat} (hk : es[k]? = some e) :
    AllEntered n (past ++ es.take k) e.before := by
  induction es generalizing past w k with
  | nil => cases hk
  | cons e₁ es ih =>
    obtain ⟨hsame, hserves, hrest⟩ := h
    have hbefore : AllEntered n past e₁.before := by
      rw [AllEntered, hsame.versions]
      exact hpast
    cases k with
    | zero =>
      obtain rfl : e₁ = e := Option.some.inj hk
      rw [List.take_zero, List.append_nil]
      exact hbefore
    | succ k =>
      rw [List.take_succ_cons, ← List.singleton_append, ← List.append_assoc]
      exact ih hrest (hserves.allEntered hbefore) hk

omit [Extern] in
theorem World.mem_of_rollbackTarget {w : World MemoryStorage} {v : PolicyVersion}
    (h : w.rollbackTarget n 0 = some v) : v ∈ w.storage.versionsOf n := by
  have hmem : ∀ versions : List PolicyVersion, (chooseRollback 0 versions).chosen = some v →
      v ∈ versions := by
    intro versions hv
    match versions, hv with
    | newest :: previous :: rest, hv =>
      obtain rfl : previous = v := Option.some.inj hv
      exact List.mem_cons_of_mem _ List.mem_cons_self
  exact List.mem_reverse.1 (List.mem_of_mem_take (hmem _ h))

/-- **What a rollback that names no version goes back to was entered before**, by a request for
    exactly its rules and options. Whether that one reported success is open. -/
theorem previousVersion_entered {w : World MemoryStorage} {es : List PolicyRun}
    (hnew : w.storage.versionsOf n = []) (hruns : PolicyRuns cfg n w es) {k : Nat}
    (hk : es[k]? = some e) {v : PolicyVersion} (hback : e.GoesBackTo n v) :
    ∃ e' ∈ es.take k, e'.asks n = some v.content ∧ e'.Enters n v := by
  have htarget : e.before.rollbackTarget n 0 = some v := by
    obtain ⟨hprevious, htarget⟩ := hback
    cases hreq : e.request with
    | deploy node rulesYaml options =>
      rw [hreq] at hprevious
      exact hprevious.elim
    | rollback targetVersion | restRollback targetVersion =>
      rw [hreq] at hprevious htarget
      exact hprevious ▸ htarget
  have hpast : AllEntered n [] w := by
    intro u hu
    rw [hnew] at hu
    cases hu
  exact hruns.allEntered hpast hk v (World.mem_of_rollbackTarget htarget)

end Law

/-! ## Runs that can be computed -/

/-- Serve the requests, undisturbed, on given outside choices. -/
def evalRequests [Extern] (cfg : ControllerConfig) (n : String) :
    List (PolicyRequest × List Ext) → World MemoryStorage → Option (List PolicyRun)
  | [], _ => some []
  | (req, xs) :: rest, w =>
    ((machine MemoryStorage).eval xs (req.serve cfg n) w).bind fun r =>
      (evalRequests cfg n rest r.2).map fun es => ⟨req, w, r.1, r.2⟩ :: es

theorem policyRuns_of_evalRequests [Extern] {cfg : ControllerConfig} {n : String}
    {requests : List (PolicyRequest × List Ext)} (hon : ∀ r ∈ requests, r.1.On n)
    {w : World MemoryStorage} {es : List PolicyRun}
    (h : evalRequests cfg n requests w = some es) : PolicyRuns cfg n w es := by
  induction requests generalizing w es with
  | nil =>
    obtain rfl := Option.some.inj h
    trivial
  | cons r requests ih =>
    obtain ⟨⟨success, w'⟩, heval, h⟩ := Option.bind_eq_some_iff.1 h
    obtain ⟨es, hes, rfl⟩ := Option.map_eq_some_iff.1 h
    refine ⟨.refl w, ⟨hon r List.mem_cons_self, ?_⟩, ?_⟩
    · exact Machine.exec_of_eval SamePolicies.refl heval
    · exact ih (fun r' hr' => hon r' (List.mem_cons_of_mem _ hr')) hes

/-- "n1" has registered and reported in, and its history is empty. -/
def World.reportedIn : World MemoryStorage :=
  .withAgent ((MemoryStorage.new.registerNode registeredN1).2.updateHeartbeat 0 "n1" .online 5).2

/-- One deploy, then another, then a rollback that names no version. The first one finds its agent
    as given. -/
def deployTwiceThenRollBack (first : Delivery) : List (PolicyRequest × List Ext) :=
  [(.deploy registeredN1 "rules: [a]" .default, List.replicate 10 ⟨1, "d1", first⟩),
   (.deploy registeredN1 "rules: [b]" .default, List.replicate 10 ⟨2, "d2", .compiled⟩),
   (.rollback 0, List.replicate 14 ⟨3, "d3", .compiled⟩)]

/-- The rollback, which is the third request, reports success, and what it goes back to meets the
    condition. -/
def ThirdRollsBack (P : List PolicyRun → PolicyVersion → Prop) (es : List PolicyRun) : Prop :=
  ∃ e ∈ es[2]?, e.request.ToPrevious ∧ e.success = true ∧
    ∃ v ∈ e.request.target e.before "n1", P (es.take 2) v

/-- Some request for the rules and options of the version reported success. -/
def Succeeded (n : String) (past : List PolicyRun) (v : PolicyVersion) : Prop :=
  ∃ e ∈ past, e.asks n = some v.content ∧ e.success = true

instance : (req : PolicyRequest) → Decidable req.ToPrevious
  | .deploy _ _ _ => inferInstanceAs (Decidable False)
  | .rollback t | .restRollback t => inferInstanceAs (Decidable (t = 0))

instance (n : String) (past : List PolicyRun) (v : PolicyVersion) :
    Decidable (Succeeded n past v) :=
  inferInstanceAs (Decidable (∃ e ∈ past, _ ∧ _))

instance (P : List PolicyRun → PolicyVersion → Prop) [∀ past v, Decidable (P past v)]
    (es : List PolicyRun) : Decidable (ThirdRollsBack P es) :=
  inferInstanceAs (Decidable (∃ e ∈ es[2]?, e.request.ToPrevious ∧ e.success = true ∧
    ∃ v ∈ e.request.target e.before "n1", P (es.take 2) v))

/-- Two deploys and a rollback, as they go on. -/
theorem exists_thirdRollsBack (first : Delivery) (P : List PolicyRun → PolicyVersion → Prop)
    [∀ past v, Decidable (P past v)]
    (h : (@evalRequests .sample plainConfig "n1" (deployTwiceThenRollBack first) .reportedIn).any
      fun es => decide (ThirdRollsBack P es)) :
    ∃ es, @PolicyRuns .sample plainConfig "n1" .reportedIn es ∧ ThirdRollsBack P es := by
  obtain ⟨es, hes, hcheck⟩ := (Option.any_eq_true _ _).1 h
  refine ⟨es, @policyRuns_of_evalRequests .sample _ _ _ ?_ _ _ hes, of_decide_eq_true hcheck⟩
  intro r hr
  simp only [deployTwiceThenRollBack, List.mem_cons, List.not_mem_nil, or_false] at hr
  rcases hr with rfl | rfl | rfl
  · rfl
  · trivial
  · trivial

/-- After a deploy that is accepted and another one a rollback goes back to the first. -/
theorem previousVersion_twoDeploys :
    ∃ es, @PolicyRuns .sample plainConfig "n1" .reportedIn es ∧
      ∃ e ∈ es[2]?, ∃ v, e.GoesBackTo "n1" v ∧
        ∃ e' ∈ es.take 2, e'.asks "n1" = some v.content ∧ e'.Enters "n1" v := by
  obtain ⟨es, hruns, e, he, hprevious, -, v, hv, -⟩ :=
    exists_thirdRollsBack .compiled (fun _ _ => True) (by decide +kernel)
  exact ⟨es, hruns, e, he, v, ⟨hprevious, hv⟩,
    @previousVersion_entered .sample _ _ _ _ _ rfl hruns 2 he v ⟨hprevious, hv⟩⟩

/-- After a deploy that did not reach its agent and another one a rollback goes back to the first
    as well. -/
theorem not_previousVersion_succeeded :
    ¬ ∀ (w : World MemoryStorage) (es : List PolicyRun) (k : Nat) (e : PolicyRun)
      (v : PolicyVersion), w.storage.versionsOf "n1" = [] →
      @PolicyRuns .sample plainConfig "n1" w es → es[k]? = some e → e.GoesBackTo "n1" v →
      e.success = true → Succeeded "n1" (es.take k) v := by
  intro h
  obtain ⟨es, hruns, e, he, hprevious, hsuccess, v, hv, hnone⟩ :=
    exists_thirdRollsBack (.failed "connection refused" false)
      (fun past v => ¬ Succeeded "n1" past v) (by decide +kernel)
  exact hnone (h _ es 2 e v rfl hruns he ⟨hprevious, hv⟩ hsuccess)

end PaciNet

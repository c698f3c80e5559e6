import PaciNet.Proof.DeployGuard

/-!
# Dry runs

A deploy request with `dry_run` set is to change nothing and to ask no agent. Of the four entry
points only the REST deploy of a single node looks at the flag; the other three deploy.

**A dry run has no effect exactly if it is refused before it would have one**: always for the REST
deploy, and for the others if for every node that is selected the guard is taken or a capability
is missing, or if the request does not get as far as selecting nodes.
-/

set_option autoImplicit false

namespace PaciNet

open Lib

/-! ## The law -/

/-- A deploy request with `dry_run` set. -/
def Request.isDryRun : Request → Bool
  | .deployPolicy req => req.dryRun
  | .batchDeployPolicy req => req.dryRun
  | .restDeployPolicy body => body.dryRun
  | .restBatchDeployPolicy body => body.dryRun
  | _ => false

theorem coherent_of_isDryRun {q : Request} (h : q.isDryRun) : q.Coherent := by
  cases q with
  | batchTask joinSet req node => cases h
  | _ => trivial

/-- Nodes, policies, versions and deployments are as they were, and no agent was asked. -/
structure SameRecords (w w' : World MemoryStorage) : Prop where
  nodes : w'.storage.nodes = w.storage.nodes
  policies : w'.storage.policies = w.storage.policies
  policyVersions : w'.storage.policyVersions = w.storage.policyVersions
  deployments : w'.storage.deployments = w.storage.deployments
  sent : w'.sent = w.sent

/-- Only the tasks that are there run. -/
def Alone : StepCondition := fun _ l => match l with
  | .run _ _ => True
  | _ => False

/-- **The request has no effect** when it is served alone: nothing is recorded and no agent is
    asked at any time, and the guards are as before once every task of the request is done. -/
def HasNoEffect [Extern] (cfg : ControllerConfig) (w : World MemoryStorage) (q : Request) : Prop :=
  ∀ c : Pool, (controller cfg MemoryStorage).Steps Alone
      ⟨w, [(controller cfg MemoryStorage).start q]⟩ c →
    SameRecords w c.shared ∧
      ((∀ t ∈ c.threads, ∃ reply, t.prog = .done reply) →
        c.shared.storage.deploying = w.storage.deploying)

/-- A deploy to the node is refused before it stores anything. -/
def Refused (s : MemoryStorage) (node : Node) (options : CompileOptions) : Prop :=
  node.nodeId ∈ s.deploying ∨
    ensureNodeCapabilities node (normalizeOptions options) ≠ .ok ()

/-- The nodes with the given labels. -/
def MemoryStorage.selected (s : MemoryStorage) (labelFilter : Labels) : List Node :=
  s.nodes.rows.filter fun node => node.matchesLabels labelFilter

/-- The request ends before a deploy stores anything. -/
def EndsEarly (w : World MemoryStorage) : Request → Prop
  | .deployPolicy req => ∀ node, w.storage.nodes.get? req.nodeId = some node →
      Refused w.storage node (req.options.getD .default)
  | .batchDeployPolicy req =>
      asU32 (w.storage.selected req.labelFilter).length = 0 ∨
        ∀ node ∈ w.storage.selected req.labelFilter,
          Refused w.storage node (req.options.getD .default)
  | .restBatchDeployPolicy body =>
      w.leader = false ∨
        ∀ node ∈ w.storage.selected body.labelFilter, Refused w.storage node body.options
  | _ => True

/-! ## Requests that end early -/

/-- The operations of a request that ends early. Guards that are taken from the start stay
    taken, and the tasks it starts end early too. -/
def QuietOp (w : World MemoryStorage) : Op → Prop
  | .storage c =>
    match c with
    | .getNode _ | .listNodes _ | .getPolicy _ | .beginDeploy _ => True
    | .endDeploy n => n ∉ w.storage.deploying
    | _ => False
  | .isLeader | .joinSetNew | .joinSetPut _ _ | .joinSetNext _ | .mark _ => True
  | .joinSetSpawn _ req node => req.nodeId = node.nodeId ∧
      Refused w.storage node (req.options.getD .default)
  | _ => False

/-- The answers such a request gets. -/
def quietAnswer (w : World MemoryStorage) : (o : Op) → o.Res → Prop
  | .storage (.getNode n), r => r = .ok (w.storage.nodes.get? n)
  | .storage (.listNodes l), r => r = .ok (w.storage.selected l)
  | .storage (.beginDeploy n), r => n ∈ w.storage.deploying → ∃ e, r = .error e
  | .isLeader, r => r = w.leader
  | _, _ => True

/-- The monitor of the requests that end early. -/
def quietMonitor (w : World MemoryStorage) : Monitor Op Op.Res Unit where
  allow _ o := QuietOp w o
  expect := quietAnswer w
  next _ _ _ := ()

/-- What stays as it was in `w` while such a request is served. -/
structure QuietState (w w' : World MemoryStorage) : Prop where
  records : SameRecords w w'
  leader : w'.leader = w.leader
  guards : w.storage.deploying ⊆ w'.storage.deploying

section Quiet

variable [Extern] (cfg : ControllerConfig) {w : World MemoryStorage}

/-- The tasks of a request that ends early. -/
def QuietTask (w : World MemoryStorage) (q : Request) : Prop :=
  (q.isDryRun ∧ EndsEarly w q) ∨ ∃ joinSet req node, q = .batchTask joinSet req node ∧
    req.nodeId = node.nodeId ∧ Refused w.storage node (req.options.getD .default)

omit [Extern] in
theorem SameRecords.trans {w₁ w₂ w₃ : World MemoryStorage} (h : SameRecords w₁ w₂)
    (h' : SameRecords w₂ w₃) : SameRecords w₁ w₃ where
  nodes := h'.nodes.trans h.nodes
  policies := h'.policies.trans h.policies
  policyVersions := h'.policyVersions.trans h.policyVersions
  deployments := h'.deployments.trans h.deployments
  sent := h'.sent.trans h.sent

/-- What a quiet operation does to the world. -/
theorem QuietOp.sameRecords {x : Ext} {o : Op} {s s' : World MemoryStorage} {r : o.Res}
    {new : List Request} (ho : QuietOp w o) (hx : World.exec x o s = some (r, s', new)) :
    SameRecords s s' := by
  have hstep := World.stepped_of_exec hx
  have hsent : World.sendsOf o = [] := by
    cases o <;> first | rfl | exact ho.elim
  have hs := hstep.storage
  cases o with
  | storage c =>
    have hc : s'.storage = (Storage.call x.now c s.storage).2 := congrArg Prod.snd hs
    rw [MemoryStorage.call_snd] at hc
    cases c <;> first
      | exact ho.elim
      | exact ⟨by rw [hc]; rfl, by rw [hc]; rfl, by rw [hc]; rfl, by rw [hc]; rfl,
          by simpa [hsent] using hstep.sent⟩
  | _ =>
    have hc : s'.storage = s.storage := hs
    exact ⟨by rw [hc], by rw [hc], by rw [hc], by rw [hc], by simpa [hsent] using hstep.sent⟩

/-- A quiet operation keeps the guards that were taken from the start. -/
theorem QuietOp.guards {x : Ext} {o : Op} {s s' : World MemoryStorage} {r : o.Res}
    {new : List Request} (ho : QuietOp w o) (hx : World.exec x o s = some (r, s', new))
    (h : w.storage.deploying ⊆ s.storage.deploying) :
    w.storage.deploying ⊆ s'.storage.deploying := by
  have hs := (World.stepped_of_exec hx).storage
  cases o with
  | storage c =>
    have hc : s'.storage = (Storage.call x.now c s.storage).2 := congrArg Prod.snd hs
    rw [hc, call_deploying]
    cases c with
    | beginDeploy n => exact h.trans (Finset.subset_insert _ _)
    | endDeploy n =>
      intro k hk
      have hne : k ≠ n := fun hkn => ho (hkn ▸ hk)
      exact Finset.mem_erase.2 ⟨hne, h hk⟩
    | removeNode n => exact ho.elim
    | _ => exact h
  | _ =>
    have hc : s'.storage = s.storage := hs
    rw [hc]
    exact h

/-- The answers are those of the state the request has started from. -/
theorem QuietState.answer {x : Ext} {o : Op} {s s' : World MemoryStorage} {r : o.Res}
    {new : List Request} (h : QuietState w s) (hx : World.exec x o s = some (r, s', new)) :
    quietAnswer w o r := by
  have hs := (World.stepped_of_exec hx).storage
  cases o with
  | storage c =>
    have hr : r = (Storage.call x.now c s.storage).1 := congrArg Prod.fst hs
    subst hr
    cases c with
    | getNode n => exact congrArg (fun t => Except.ok (t.get? n)) h.records.nodes
    | listNodes l =>
      exact congrArg (fun t => Except.ok (t.rows.filter fun node => node.matchesLabels l))
        h.records.nodes
    | beginDeploy n =>
      intro hn
      exact ⟨_, congrArg Prod.fst (if_pos (h.guards hn))⟩
    | _ => trivial
  | isLeader =>
    cases hx
    exact h.leader
  | _ => trivial

theorem quiet_exec {x : Ext} {o : Op} {s s' : World MemoryStorage} {r : o.Res}
    {new : List Request} (hs : QuietState w s) (ho : QuietOp w o)
    (hx : World.exec x o s = some (r, s', new)) :
    QuietState w s' ∧ quietAnswer w o r ∧ ∀ q ∈ new, QuietTask w q := by
  have hstep := World.stepped_of_exec hx
  refine ⟨⟨hs.records.trans (ho.sameRecords hx), hstep.leader.trans hs.leader,
    ho.guards hx hs.guards⟩, hs.answer hx, fun q hq => ?_⟩
  rw [hstep.new] at hq
  cases o with
  | joinSetSpawn joinSet req node =>
    rw [List.mem_singleton.1 hq]
    exact .inr ⟨joinSet, req, node, rfl, ho⟩
  | recordAudit entry => exact ho.elim
  | _ => exact absurd hq List.not_mem_nil

/-! ### The programs -/

/-- The program serves a request that ends early. -/
abbrev Quiet (w : World MemoryStorage) {α : Type} (p : Proc α) : Prop :=
  p.wp (quietMonitor w) (fun _ _ => True) ()

omit [Extern] in
theorem Quiet.bind {α β : Type} {p : Proc α} {f : α → Proc β} (hp : Quiet w p)
    (hf : ∀ a, Quiet w (f a)) : Quiet w (p.bind f) :=
  Prog.wp_bind.2 (hp.mono fun _ a _ => hf a)

/-- Without the capabilities, `deploy_to_node` does nothing between its marks. -/
theorem deployToNode_incapable {node : Node} {options : CompileOptions} (rulesYaml : String)
    (h : ensureNodeCapabilities node (normalizeOptions options) ≠ .ok ()) :
    ∃ outcome, deployToNode cfg node rulesYaml options =
      (mark (.enterDeploy node.nodeId)).bind fun _ =>
        (mark (.exitDeploy node.nodeId)).bind fun _ => .done outcome := by
  cases hgate : ensureNodeCapabilities node (normalizeOptions options) with
  | error msg =>
    refine ⟨.rejected msg, ?_⟩
    simp only [deployToNode, deployToNodeBody, hgate]
    rfl
  | ok u => exact absurd hgate h

/-- A guarded deploy that is refused, in the shape it has in the source. -/
theorem quiet_guarded {α : Type} {n : String} {node : Node} {rulesYaml : String}
    {options : CompileOptions} {k : StorageResult Unit → Proc α} {f : DeployOutcome → Proc α}
    (hn : node.nodeId = n) (hrefused : Refused w.storage node options)
    (hk : k (.ok ()) = (deployToNode cfg node rulesYaml options).bind fun outcome =>
      (storage (.endDeploy n)).bind fun _ => f outcome)
    (herr : ∀ e, Quiet w (k (.error e))) (hf : ∀ outcome, Quiet w (f outcome)) :
    Quiet w ((storage (.beginDeploy n)).bind k) := by
  subst hn
  refine wp_storage.2 ⟨trivial, fun r hr => ?_⟩
  cases r with
  | error e => exact herr e
  | ok u =>
    -- the guard was free, so it is a capability that is missing
    have hfree : node.nodeId ∉ w.storage.deploying := by
      intro hn
      obtain ⟨e, he⟩ := hr hn
      cases he
    obtain ⟨outcome, hdeploy⟩ :=
      deployToNode_incapable cfg rulesYaml (hrefused.resolve_left hfree)
    show Quiet w (k (.ok ()))
    rw [hk, hdeploy]
    exact wp_mark.2 ⟨trivial, fun _ => wp_mark.2 ⟨trivial, fun _ =>
      wp_storage.2 ⟨hfree, fun _ _ => hf outcome⟩⟩⟩

theorem deployPolicy_quiet {req : DeployPolicyRequest} (h : EndsEarly w (.deployPolicy req)) :
    Quiet w (deployPolicy cfg req) := by
  refine wp_storage.2 ⟨trivial, fun r hr => ?_⟩
  cases hr
  cases hnode : w.storage.nodes.get? req.nodeId with
  | none => trivial
  | some node =>
    exact quiet_guarded cfg (Table.key_of_get? hnode) (h node hnode) (Prog.bind_assoc _ _ _)
      (fun e => trivial) fun outcome => trivial

theorem batchTask_quiet {joinSet : Nat} {req : DeployPolicyRequest} {node : Node}
    (hid : req.nodeId = node.nodeId)
    (h : Refused w.storage node (req.options.getD .default)) :
    Quiet w (batchTask cfg joinSet req node) := by
  refine Quiet.bind (quiet_guarded cfg hid.symm h rfl (fun e => trivial) fun outcome => trivial)
    fun r => ?_
  cases r <;> exact ⟨trivial, fun _ _ => trivial⟩

omit [Extern] in
theorem spawnAll_quiet (joinSet : Nat) (req : BatchDeployPolicyRequest) {nodes : List Node}
    (h : ∀ node ∈ nodes, Refused w.storage node (req.options.getD .default)) :
    Quiet w (spawnAll joinSet req nodes) := by
  induction nodes with
  | nil => trivial
  | cons node nodes ih =>
    refine wp_op.2 ⟨⟨rfl, h node List.mem_cons_self⟩, fun _ _ => ih fun n hn => ?_⟩
    exact h n (List.mem_cons_of_mem _ hn)

omit [Extern] in
theorem joinAll_quiet (joinSet turns : Nat) (results : List NodeDeployResult) :
    Quiet w (joinAll joinSet turns results) := by
  induction turns generalizing results with
  | zero => trivial
  | succ turns ih =>
    refine wp_op.2 ⟨trivial, fun r _ => ?_⟩
    cases r with
    | none => trivial
    | some r => exact ih _

omit [Extern] in
theorem batchDeployPolicy_quiet {req : BatchDeployPolicyRequest}
    (h : EndsEarly w (.batchDeployPolicy req)) : Quiet w (batchDeployPolicy req) := by
  refine wp_storage.2 ⟨trivial, fun r hr => ?_⟩
  cases hr
  simp only [Prog.bind_eq]
  split
  · trivial
  · rename_i hlen
    refine wp_op.2 ⟨trivial, fun joinSet _ => ?_⟩
    exact (spawnAll_quiet joinSet req (h.resolve_left hlen)).bind fun _ =>
      (joinAll_quiet _ _ _).bind fun _ => trivial

theorem deployToNodesLoop_quiet (rulesYaml : String) (options : CompileOptions)
    {nodes : List Node} (h : ∀ node ∈ nodes, Refused w.storage node options) (s f : Nat)
    (rs : List NodeActionResult) :
    Quiet w (deployToNodesLoop cfg rulesYaml options nodes s f rs) := by
  induction nodes generalizing s f rs with
  | nil => trivial
  | cons node nodes ih =>
    have hnodes : ∀ n ∈ nodes, Refused w.storage n options :=
      fun n hn => h n (List.mem_cons_of_mem _ hn)
    exact quiet_guarded cfg rfl (h node List.mem_cons_self) rfl (fun e => ih hnodes _ _ _)
      fun outcome => ih hnodes _ _ _

omit [Extern] in
/-- A handler that is refused on a standby. -/
theorem requireLeader_quiet {α : Type} {f : Unit → Proc (Except AppError α)}
    (h : w.leader = true → Quiet w (f ())) : Quiet w (requireLeader.orReturn f) := by
  refine wp_op.2 ⟨trivial, fun r hr => ?_⟩
  cases r with
  | false => trivial
  | true => exact h hr.symm

theorem restDeployPolicy_quiet {body : DeployRequest} (h : body.dryRun) :
    Quiet w (restDeployPolicy cfg body) := by
  refine requireLeader_quiet fun _ => wp_storage.2 ⟨trivial, fun r _ => ?_⟩
  rcases r with e | _ | node
  · trivial
  · trivial
  · simp only [h, if_true]
    refine wp_storage.2 ⟨trivial, fun r _ => ?_⟩
    cases r <;> trivial

theorem restBatchDeployPolicy_quiet {body : BatchDeployRequest}
    (h : EndsEarly w (.restBatchDeployPolicy body)) :
    Quiet w (restBatchDeployPolicy cfg body) := by
  refine requireLeader_quiet fun hleader => wp_storage.2 ⟨trivial, fun r hr => ?_⟩
  cases hr
  have hnodes := h.resolve_left (by simp [hleader])
  cases hsel : w.storage.selected body.labelFilter with
  | nil => trivial
  | cons node nodes =>
    rw [hsel] at hnodes
    refine Quiet.bind ?_ fun result => trivial
    exact (deployToNodesLoop_quiet cfg _ _ hnodes 0 0 []).bind fun _ => trivial

/-- **The tasks of a request that ends early are quiet.** -/
theorem serve_quiet {q : Request} (h : QuietTask w q) : Quiet w (serve cfg q) := by
  rcases h with ⟨hdry, hends⟩ | ⟨joinSet, req, node, rfl, hid, hrefused⟩
  · cases q with
    | deployPolicy req => exact (deployPolicy_quiet cfg hends).bind fun _ => trivial
    | batchDeployPolicy req => exact (batchDeployPolicy_quiet hends).bind fun _ => trivial
    | restDeployPolicy body => exact (restDeployPolicy_quiet cfg hdry).bind fun _ => trivial
    | restBatchDeployPolicy body =>
      exact (restBatchDeployPolicy_quiet cfg hends).bind fun _ => trivial
    | _ => cases hdry
  · exact (batchTask_quiet cfg hid hrefused).bind fun _ => trivial

theorem quiet_guarantee : (controller cfg MemoryStorage).Guarantee (quietMonitor w) ()
    (fun _ _ _ => True) (QuietState w) (QuietTask w) where
  prog _ hq := serve_quiet cfg hq
  exec _ _ _ _ _ _ _ hs ho hx := quiet_exec hs ho hx

/-- A request that ends early has no effect. -/
theorem hasNoEffect_of_endsEarly {q : Request} (hdry : q.isDryRun) (h : EndsEarly w q) :
    HasNoEffect cfg w q := by
  intro c hrun
  let start : Pool := ⟨w, [(controller cfg MemoryStorage).start q]⟩
  -- three things go along the run: the request stays quiet, guards are taken and released in
  -- turn, and those that are held are accounted for
  have key := hrun.invariant
    (fun d => System.AllWatched (quietMonitor w) () (fun _ _ _ => True) (QuietState w) d ∧
      deployGuard.Kept d ∧ deployGuard.Accounted w d) ?_ ?_
  · obtain ⟨hquiet, hkept, haccount⟩ := key
    refine ⟨hquiet.1.records, fun hdone => ?_⟩
    refine Finset.Subset.antisymm (fun n hn => ?_) hquiet.1.guards
    simpa [deployGuard] using haccount.finished hkept hdone (k := n) (by simpa [deployGuard])
  · rintro d l d' hl hs ⟨hquiet, hkept, haccount⟩
    cases l with
    | arrive q => exact hl.elim
    | env s => exact hl.elim
    | run i x =>
      refine ⟨?_, ?_, deployGuard_lawful.accounted_run (deployGuard_disciplined cfg) hs hkept
        haccount⟩
      · exact (quiet_guarantee cfg).step (C := Alone)
          ⟨fun _ _ h => h.elim, fun _ _ h => h.elim⟩ hl hs hquiet
      · exact (deployGuard_disciplined cfg).step (fun _ hq => absurd hq (by simp)) hs hkept
  · have hquiet : QuietState w w := ⟨⟨rfl, rfl, rfl, rfl, rfl⟩, rfl, Finset.Subset.refl _⟩
    refine ⟨⟨hquiet, ?_⟩, ⟨trivial, ?_⟩, fun k hk => .inl hk⟩
    · intro t ht
      rw [List.mem_singleton.1 ht]
      exact serve_quiet cfg (.inl ⟨hdry, h⟩)
    · intro t ht
      rw [List.mem_singleton.1 ht]
      exact (deployGuard_disciplined cfg).prog q (coherent_of_isDryRun hdry)

end Quiet

/-! ## Requests that do not end early -/

section Effect

variable [Extern] (cfg : ControllerConfig) {w s : World MemoryStorage}

/-- A state in which something has been recorded. -/
abbrev Recorded (w s : World MemoryStorage) : Prop := ¬ SameRecords w s

omit [Extern] in
theorem recorded_deployment {s' : World MemoryStorage} {record : DeploymentRecord}
    (h : SameRecords w s) (hs' : s'.storage.deployments = s.storage.deployments ++ [record]) :
    Recorded w s' := by
  intro h'
  have hlen := congrArg List.length (h'.deployments.trans h.deployments.symm)
  simp [hs'] at hlen

omit [Extern] in
theorem recorded_policy {s' : World MemoryStorage} {policy : Policy} (h : SameRecords w s)
    (hs' : s'.storage.policyVersions = (s.storage.storePolicy policy).2.policyVersions) :
    Recorded w s' := by
  intro h'
  have hver := hs'.symm.trans (h'.policyVersions.trans h.policyVersions.symm)
  have hlookup := congrArg (fun m => (m.lookup policy.nodeId).getD []) hver
  have hlen := congrArg List.length hlookup
  simp [MemoryStorage.storePolicy, MemoryStorage.versionsOf] at hlen

omit [Extern] in
/-- A moment with a fresh id. -/
theorem exists_ext (issued : List String) : ∃ x : Ext, x.uuid ∉ issued := by
  obtain ⟨uuid, h⟩ := World.exists_fresh issued
  exact ⟨.quiet 0 uuid, h⟩

/-- A deploy to a capable node records something, whatever the node runs. -/
theorem deployToNode_can (node : Node) (rulesYaml : String) (options : CompileOptions)
    (hgate : ensureNodeCapabilities node (normalizeOptions options) = .ok ())
    (h : SameRecords w s) :
    (machine MemoryStorage).Can (Recorded w) (deployToNode cfg node rulesYaml options) s := by
  obtain ⟨x, hx⟩ := exists_ext s.issued
  refine .perform x rfl (.bind ?_)
  simp only [deployToNodeBody, hgate, Prog.bind_eq]
  refine .perform x rfl ?_
  simp only [MemoryStorage.getPolicy]
  split
  · refine .perform x rfl ?_
    simp only [MemoryStorage.getPolicyHistory]
    refine .perform x (if_neg hx) (.perform x rfl (.perform x rfl (.here ?_)))
    exact recorded_deployment h rfl
  · refine .perform x rfl (.perform x rfl (.here ?_))
    exact recorded_policy h rfl

omit [Extern] in
/-- What a deploy to a node that does not refuse it looks like. -/
theorem not_refused {node : Node} {options : CompileOptions}
    (h : ¬ Refused s.storage node options) : node.nodeId ∉ s.storage.deploying ∧
      ensureNodeCapabilities node (normalizeOptions options) = .ok () := by
  simpa [Refused] using h

/-- A guarded deploy that is not refused records something. -/
theorem guarded_can {α : Type} {n : String} {node : Node} {rulesYaml : String}
    {options : CompileOptions} {k : StorageResult Unit → Proc α} {f : DeployOutcome → Proc α}
    (hn : node.nodeId = n) (hnot : ¬ Refused s.storage node options) (h : SameRecords w s)
    (hk : k (.ok ()) = (deployToNode cfg node rulesYaml options).bind fun outcome =>
      (storage (.endDeploy n)).bind fun _ => f outcome) :
    (machine MemoryStorage).Can (Recorded w) ((storage (.beginDeploy n)).bind k) s := by
  subst hn
  obtain ⟨hfree, hgate⟩ := not_refused hnot
  have hbegin : s.storage.beginDeploy node.nodeId =
      (.ok (), { s.storage with deploying := insert node.nodeId s.storage.deploying }) :=
    if_neg hfree
  refine can_storage 0 hbegin ?_
  rw [hk]
  exact .bind (deployToNode_can cfg node rulesYaml options hgate
    ⟨h.nodes, h.policies, h.policyVersions, h.deployments, h.sent⟩)

theorem deployPolicy_can {req : DeployPolicyRequest} {node : Node}
    (hnode : w.storage.nodes.get? req.nodeId = some node)
    (hnot : ¬ Refused w.storage node (req.options.getD .default)) :
    (machine MemoryStorage).Can (Recorded w) (deployPolicy cfg req) w := by
  refine can_storage 0 (congrArg (fun r => (Except.ok r, w.storage)) hnode) ?_
  exact guarded_can cfg (Table.key_of_get? hnode) hnot ⟨rfl, rfl, rfl, rfl, rfl⟩
    (Prog.bind_assoc _ _ _)

theorem batchTask_can (joinSet : Nat) {req : DeployPolicyRequest} {node : Node}
    (hid : req.nodeId = node.nodeId) (h : SameRecords w s)
    (hnot : ¬ Refused s.storage node (req.options.getD .default)) :
    (machine MemoryStorage).Can (Recorded w) (batchTask cfg joinSet req node) s :=
  .bind (guarded_can cfg hid.symm hnot h rfl)

/-- The loop gets past the nodes that refuse, with the guards as they were, to the first that
    does not. -/
theorem deployToNodesLoop_can (rulesYaml : String) (options : CompileOptions) {nodes : List Node}
    (hnot : ¬ ∀ node ∈ nodes, Refused w.storage node options) (h : SameRecords w s)
    (hguards : s.storage.deploying = w.storage.deploying) (n f : Nat)
    (rs : List NodeActionResult) :
    (machine MemoryStorage).Can (Recorded w)
      (deployToNodesLoop cfg rulesYaml options nodes n f rs) s := by
  induction nodes generalizing s n f rs with
  | nil => exact absurd (fun _ h => absurd h List.not_mem_nil) hnot
  | cons node nodes ih =>
    have hrefused : Refused s.storage node options ↔ Refused w.storage node options := by
      rw [Refused, hguards, Refused]
    by_cases hhead : Refused w.storage node options
    · have htail : ¬ ∀ node ∈ nodes, Refused w.storage node options :=
        fun hall => hnot fun m hm => (List.mem_cons.1 hm).elim (fun h => h ▸ hhead) (hall m)
      by_cases hbusy : node.nodeId ∈ s.storage.deploying
      · exact can_storage 0 (if_pos hbusy) (ih htail h hguards _ _ _)
      · -- a capability is missing: the guard is taken and released
        have hcap := (hrefused.2 hhead).resolve_left hbusy
        obtain ⟨outcome, hdeploy⟩ := deployToNode_incapable cfg rulesYaml hcap
        refine can_storage 0 (if_neg hbusy) ?_
        show (machine MemoryStorage).Can _ ((deployToNode cfg node rulesYaml options).bind _) _
        rw [hdeploy]
        refine .perform (.quiet 0 "") rfl (.perform (.quiet 0 "") rfl ?_)
        refine can_storage 0 rfl (ih htail ?_ ?_ _ _ _)
        · exact ⟨h.nodes, h.policies, h.policyVersions, h.deployments, h.sent⟩
        · show (insert node.nodeId s.storage.deploying).erase node.nodeId = _
          rw [Finset.erase_insert hbusy, hguards]
    · exact guarded_can cfg rfl (fun hr => hhead (hrefused.1 hr)) h rfl

theorem restBatchDeployPolicy_can {body : BatchDeployRequest}
    (h : ¬ EndsEarly w (.restBatchDeployPolicy body)) :
    (machine MemoryStorage).Can (Recorded w) (restBatchDeployPolicy cfg body) w := by
  simp only [EndsEarly, not_or, Bool.not_eq_false] at h
  obtain ⟨hleader, hnot⟩ := h
  refine .perform (.quiet 0 "") (congrArg (fun b => some (b, w, [])) hleader) ?_
  cases hsel : w.storage.selected body.labelFilter with
  | nil =>
    rw [hsel] at hnot
    exact absurd (fun _ h => absurd h List.not_mem_nil) hnot
  | cons node nodes =>
    rw [hsel] at hnot
    refine can_storage 0 (congrArg (fun r => (Except.ok r, w.storage)) hsel) ?_
    exact .bind (.bind (deployToNodesLoop_can cfg _ _ hnot ⟨rfl, rfl, rfl, rfl, rfl⟩ rfl 0 0 []))

/-- The tasks of a batch are started one after the other, and nothing else happens meanwhile. -/
theorem exists_spawned {joinSet : Nat} {req : BatchDeployPolicyRequest} {nodes : List Node}
    {node : Node} (hmem : node ∈ nodes) {c : Pool} {t : Task} {f : Unit → Proc Reply}
    (ht : c.threads[0]? = some t) (hp : t.prog = (spawnAll joinSet req nodes).bind f) :
    ∃ (c' : Pool) (j : Nat), (controller cfg MemoryStorage).Steps Alone c c' ∧
      c'.threads[j]? = some ((controller cfg MemoryStorage).start
        (.batchTask joinSet (req.single node) node)) ∧
      c'.shared.storage = c.shared.storage ∧ c'.shared.sent = c.shared.sent := by
  induction nodes generalizing c t with
  | nil => exact absurd hmem List.not_mem_nil
  | cons head rest ih =>
    let t' : Task := ⟨t.req, (spawnAll joinSet req rest).bind f,
      t.trace ++ [⟨.joinSetSpawn joinSet (req.single head) head, ()⟩]⟩
    let task := (controller cfg MemoryStorage).start (.batchTask joinSet (req.single head) head)
    let c₁ : Pool := ⟨c.shared.updateJoinSet joinSet fun j => { j with pending := j.pending + 1 },
      c.threads.set 0 t' ++ [task]⟩
    have hx : (controller cfg MemoryStorage).exec (.quiet 0 "")
        (.joinSetSpawn joinSet (req.single head) head) c.shared =
          some ((), c₁.shared, [.batchTask joinSet (req.single head) head]) := rfl
    have hstep : (controller cfg MemoryStorage).step c (.run 0 (.quiet 0 "")) = some c₁ :=
      System.step_of_exec ht hp hx
    have hlt : 0 < c.threads.length := (List.getElem?_eq_some_iff.1 ht).1
    rcases List.mem_cons.1 hmem with rfl | hmem
    · refine ⟨c₁, c.threads.length, .single ⟨.run 0 (.quiet 0 ""), trivial, hstep⟩, ?_, rfl, rfl⟩
      simp [c₁, task]
    · have ht' : c₁.threads[0]? = some t' := by simp [c₁, hlt]
      obtain ⟨c', j, hrun, hj, hstorage, hsent⟩ := ih hmem ht' rfl
      exact ⟨c', j, .head ⟨.run 0 (.quiet 0 ""), trivial, hstep⟩ hrun, hj, hstorage, hsent⟩

/-- A batch that has selected nodes comes to start its tasks. -/
theorem exists_spawning {req : BatchDeployPolicyRequest}
    (hlen : asU32 (w.storage.selected req.labelFilter).length ≠ 0) :
    ∃ (c : Pool) (joinSet : Nat) (t : Task) (f : Unit → Proc Reply),
      (controller cfg MemoryStorage).Steps Alone
        ⟨w, [(controller cfg MemoryStorage).start (.batchDeployPolicy req)]⟩ c ∧
      c.threads[0]? = some t ∧
      t.prog = (spawnAll joinSet req (w.storage.selected req.labelFilter)).bind f ∧
      c.shared.storage = w.storage ∧ c.shared.sent = w.sent := by
  have hreach : ∃ g, (machine MemoryStorage).Reach (batchDeployPolicy req) w
      ((spawnAll w.joinSets.length req (w.storage.selected req.labelFilter)).bind g)
      { w with joinSets := w.joinSets ++ [⟨0, []⟩] } := by
    refine ⟨fun _ => (joinAll w.joinSets.length
      ((w.storage.selected req.labelFilter).length + 1) []).bind fun results =>
        .done (.ok ⟨asU32 (w.storage.selected req.labelFilter).length,
          asU32 (results.countP (·.success)),
          asU32 (w.storage.selected req.labelFilter).length - asU32 (results.countP (·.success)),
          results⟩), .perform (.quiet 0 "") rfl ?_⟩
    show (machine MemoryStorage).Reach
      (if asU32 (w.storage.selected req.labelFilter).length = 0 then _ else _) w _ _
    rw [if_neg hlen]
    exact .perform (.quiet 0 "") rfl .refl
  obtain ⟨g, hreach⟩ := hreach
  obtain ⟨c, t, hrun, ht, hp, hc⟩ := System.steps_of_reach (Y := controller cfg MemoryStorage)
    (C := Alone) (c := ⟨w, [(controller cfg MemoryStorage).start (.batchDeployPolicy req)]⟩)
    hreach.bind (fun _ _ _ => trivial) (i := 0) rfl rfl rfl
  rw [Prog.bind_assoc] at hp
  exact ⟨c, _, t, _, hrun, ht, hp, by rw [hc], by rw [hc]⟩

/-- A batch that does not end early: the task of a node that does not refuse records something. -/
theorem batchDeployPolicy_records {req : BatchDeployPolicyRequest}
    (h : ¬ EndsEarly w (.batchDeployPolicy req)) :
    ∃ c : Pool, (controller cfg MemoryStorage).Steps Alone
      ⟨w, [(controller cfg MemoryStorage).start (.batchDeployPolicy req)]⟩ c ∧
      Recorded w c.shared := by
  simp only [EndsEarly, not_or, not_forall] at h
  obtain ⟨hlen, node, hmem, hnot⟩ := h
  obtain ⟨c₁, joinSet, t, f, hrun₁, ht, hp, hstorage₁, hsent₁⟩ := exists_spawning cfg hlen
  obtain ⟨c₂, j, hrun₂, hj, hstorage₂, hsent₂⟩ := exists_spawned cfg hmem ht hp
  have hstorage := hstorage₂.trans hstorage₁
  have hsame : SameRecords w c₂.shared :=
    ⟨by rw [hstorage], by rw [hstorage], by rw [hstorage], by rw [hstorage], hsent₂.trans hsent₁⟩
  have hcan := batchTask_can cfg joinSet (show (req.single node).nodeId = node.nodeId from rfl)
    hsame (by rw [hstorage]; exact hnot)
  obtain ⟨c, hrun, hc⟩ := System.steps_of_can (Y := controller cfg MemoryStorage) (C := Alone)
    hcan.bind (fun _ _ _ => trivial) hj rfl rfl
  exact ⟨c, (hrun₁.trans hrun₂).trans hrun, hc⟩

/-- **A request that does not end early has an effect.** -/
theorem endsEarly_of_hasNoEffect {q : Request} (hdry : q.isDryRun) (h : HasNoEffect cfg w q) :
    EndsEarly w q := by
  by_contra hnot
  -- what the task of the request can reach, the pool can reach
  have absurd_of_can : ∀ {p : Proc Reply}, serve cfg q = p →
      (machine MemoryStorage).Can (Recorded w) p w → False := by
    intro p hp hcan
    obtain ⟨c, hrun, hc⟩ := System.steps_of_can (Y := controller cfg MemoryStorage)
      (C := Alone) (c := ⟨w, [(controller cfg MemoryStorage).start q]⟩) hcan
      (fun _ _ _ => trivial) (i := 0) rfl hp rfl
    exact hc (h c hrun).1
  cases q with
  | deployPolicy req =>
    simp only [EndsEarly, not_forall] at hnot
    obtain ⟨node, hnode, hnot⟩ := hnot
    exact absurd_of_can rfl (.bind (deployPolicy_can cfg hnode hnot))
  | batchDeployPolicy req =>
    obtain ⟨c, hrun, hc⟩ := batchDeployPolicy_records cfg hnot
    exact hc (h c hrun).1
  | restDeployPolicy body => exact hnot trivial
  | restBatchDeployPolicy body => exact absurd_of_can rfl (.bind (restBatchDeployPolicy_can cfg hnot))
  | _ => cases hdry

end Effect

/-! ## The flag is honoured -/

/-- **A dry run has no effect if and only if it ends early**, whatever is stored. -/
theorem dryRun_hasNoEffect_iff [Extern] (cfg : ControllerConfig) (w : World MemoryStorage)
    (q : Request) (hdry : q.isDryRun) : HasNoEffect cfg w q ↔ EndsEarly w q :=
  ⟨endsEarly_of_hasNoEffect cfg hdry, hasNoEffect_of_endsEarly cfg hdry⟩

/-- A dry run on the node "n1". -/
def dryRunOfN1 : Request := .deployPolicy ⟨"n1", "rules: [a]", none, true⟩

/-- A controller that is deploying to its node "n1". -/
def World.busy : World MemoryStorage :=
  .init (Pool.deployed.shared.storage.beginDeploy "n1").2

/-- A dry run on a node whose guard is taken. -/
theorem dryRun_hasNoEffect_busy : @HasNoEffect .sample plainConfig World.busy dryRunOfN1 := by
  refine (@dryRun_hasNoEffect_iff .sample plainConfig World.busy dryRunOfN1 rfl).2 ?_
  intro node hnode
  have hid : node.nodeId = "n1" := Table.key_of_get? hnode
  exact .inl (hid ▸ Finset.mem_insert_self _ _)

/-- The check of `Alone`. -/
def alone : Pool → StepLabel → Bool
  | _, .run _ _ => true
  | _, _ => false

theorem alone_sound (c : Pool) (l : StepLabel) (h : alone c l) : Alone c l := by
  cases l with
  | run i x => trivial
  | _ => exact absurd h (by simp [alone])

/-- A dry run on a node that is free asks its agent to deploy. -/
theorem not_dryRun_hasNoEffect : ¬ ∀ (w : World MemoryStorage) (q : Request), q.isDryRun →
    @HasNoEffect .sample plainConfig w q := by
  intro h
  obtain ⟨c, _, hrun, -, hc⟩ := System.steps_of_runs (@controller .sample plainConfig _ _)
    ⟨Pool.deployed.shared, [(@controller .sample plainConfig MemoryStorage _).start dryRunOfN1]⟩
    alone_sound (Label.turns 0 8 (.quiet 1 "")) []
    (fun (c _ : Pool) => !c.shared.sent.isEmpty) (by decide +kernel)
  have hsent := (h Pool.deployed.shared dryRunOfN1 rfl c hrun).1.sent
  rw [hsent] at hc
  exact absurd hc (by decide)

end PaciNet

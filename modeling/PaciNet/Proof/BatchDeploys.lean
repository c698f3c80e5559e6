import PaciNet.Proof.NodeRecords

/-!
# Deploys to different nodes

A batch deploys to its nodes in tasks of their own, which run in any order. The REST handler and
the FSM engine deploy to theirs one after the other. What is stored about a node only its own
deploy reads and writes, so the order among different nodes does not matter.

**A batch leaves about each node what the loop leaves**, up to ids and times, and reports the same
of it, if the agents answer the same. About the other nodes neither changes anything.

The two differ in one text: what they report of a node whose guard somebody else holds.
-/

set_option autoImplicit false

namespace PaciNet

open Lib Prog

/-! ## The task of a node -/

/-- The results that the tasks of a batch have put down for the node. -/
def World.resultsOf (w : World MemoryStorage) (joinSet : Nat) (n : String) :
    Option (List NodeDeployResult) :=
  w.joinSets[joinSet]?.map fun set => set.finished.filter fun r => r.nodeId == n

/-- Neither what is stored about the node nor what is reported of it has changed. -/
structure LeavesAlone (joinSet : Nat) (n : String) (w w' : World MemoryStorage) : Prop where
  records : KeepsRecords n w w'
  results : w'.resultsOf joinSet n = w.resultsOf joinSet n

namespace LeavesAlone

variable {joinSet : Nat} {n : String} {w w₁ w₂ : World MemoryStorage}

theorem refl (w : World MemoryStorage) : LeavesAlone joinSet n w w := ⟨rfl, rfl⟩

theorem trans (h : LeavesAlone joinSet n w w₁) (h' : LeavesAlone joinSet n w₁ w₂) :
    LeavesAlone joinSet n w w₂ :=
  ⟨h.records.trans h'.records, h'.results.trans h.results⟩

end LeavesAlone

/-- Of the operations of a task only the last touches the results. -/
theorem joinSets_of_exec [Extern] {n : String} {o : Op} (ho : DeployTaskOp n o) {x : Ext}
    {w w' : World MemoryStorage} {r : o.Res} {new : List Request}
    (hx : World.exec x o w = some (r, w', new)) :
    w'.joinSets = w.joinSets ∨ ∃ joinSet res, o = .joinSetPut joinSet res ∧ res.nodeId = n ∧
      w' = w.updateJoinSet joinSet fun set => { set with finished := set.finished ++ [res] } := by
  cases o with
  | joinSetPut joinSet res =>
    cases hx
    exact .inr ⟨joinSet, res, rfl, ho, rfl⟩
  | deployRules addr req =>
    have hx : World.exec x (.deployRules addr req) w = some (r, w', new) := hx
    left
    simp only [World.exec] at hx
    split at hx
    · split at hx
      · exact absurd hx (by simp)
      · cases hx
        rfl
    · cases hx
      unfold World.strand
      split <;> rfl
    · cases hx
      unfold World.strand
      split <;> rfl
  | uuid =>
    have hx : World.exec x .uuid w = some (r, w', new) := hx
    simp only [World.exec] at hx
    split at hx
    · exact absurd hx (by simp)
    · cases hx
      exact .inl rfl
  | storage c =>
    cases hx
    exact .inl rfl
  | now =>
    cases hx
    exact .inl rfl
  | mark m =>
    cases hx
    exact .inl rfl
  | _ => exact ho.elim

theorem leavesAlone_of_exec [Extern] {joinSet : Nat} {m n : String} (hne : m ≠ n) {o : Op}
    (ho : DeployTaskOp m o) {x : Ext} {w w' : World MemoryStorage} {r : o.Res}
    {new : List Request} (hx : World.exec x o w = some (r, w', new)) :
    LeavesAlone joinSet n w w' := by
  refine ⟨keepsRecords_of_exec hne ho hx, ?_⟩
  rcases joinSets_of_exec ho hx with hsame | ⟨k, res, -, hid, rfl⟩
  · rw [World.resultsOf, hsame]
    rfl
  · -- the result that is put down is another node's
    have hother : (res.nodeId == n) = false := by
      rw [hid]
      exact beq_false_of_ne hne
    simp only [World.resultsOf, World.updateJoinSet, List.getElem?_modify]
    cases w.joinSets[joinSet]? with
    | none => rfl
    | some set => by_cases hk : k = joinSet <;> simp [hk, hother]

/-- What a batch reports of a node. -/
def batchResult (node : Node) : Option DeployOutcome → NodeDeployResult
  | some outcome => ⟨node.nodeId, node.hostname, outcome.success, outcome.message, outcome.warnings⟩
  | none => ⟨node.nodeId, node.hostname, false,
      (PaciNetError.concurrentDeploy node.nodeId).toStatus.message, []⟩

/-- What the loop reports of a node. -/
def loopResult (node : Node) : Option DeployOutcome → NodeActionResult
  | some outcome => ⟨node.nodeId, outcome.success, outcome.message⟩
  | none => ⟨node.nodeId, false, "Concurrent deploy in progress"⟩

section Task

variable [Extern] (cfg : ControllerConfig)

/-- The task of the node has done, from `w`, what the function says and put its result down. -/
structure TaskEnded (joinSet : Nat) (req : BatchDeployPolicyRequest) (node : Node)
    (answer : AgentAnswer) (w w' : World MemoryStorage) : Prop where
  records : (w'.storage.recordsOf node.nodeId).untimed =
    ((w.storage.recordsOf node.nodeId).untimed.guardedDeploy cfg node req.rulesYaml
      (req.options.getD .default) answer).2
  results : w'.resultsOf joinSet node.nodeId = (w.resultsOf joinSet node.nodeId).map fun rs =>
    rs ++ [batchResult node ((w.storage.recordsOf node.nodeId).untimed.guardedDeploy cfg node
      req.rulesYaml (req.options.getD .default) answer).1]

variable {cfg} {joinSet : Nat} {req : BatchDeployPolicyRequest} {node : Node}
  {answer : AgentAnswer} {w w₁ w₂ : World MemoryStorage}

theorem TaskEnded.after (h : TaskEnded cfg joinSet req node answer w w₁)
    (h' : LeavesAlone joinSet node.nodeId w₁ w₂) : TaskEnded cfg joinSet req node answer w w₂ :=
  ⟨h'.records.untimed h.records, h'.results.trans h.results⟩

theorem TaskEnded.from (h : TaskEnded cfg joinSet req node answer w₁ w₂)
    (h' : LeavesAlone joinSet node.nodeId w w₁) : TaskEnded cfg joinSet req node answer w w₂ := by
  refine ⟨?_, ?_⟩
  · rw [h.records, h'.records.untimed rfl]
  · rw [h.results, h'.records.untimed rfl, h'.results]

/-- The operations of a task, but for the last. -/
def GuardedDeployOp (n : String) (o : Op) : Prop :=
  DeployTaskOp n o ∧ ∀ (joinSet : Nat) (r : NodeDeployResult), o ≠ .joinSetPut joinSet r

omit [Extern] in
theorem GuardedDeployOp.of_body {n : String} {o : Op} (h : DeployBodyOp n o) :
    GuardedDeployOp n o := by
  refine ⟨h.deployTaskOp, ?_⟩
  rintro joinSet r rfl
  exact h

theorem deployToNode_calls (cfg : ControllerConfig) (node : Node) (rulesYaml : String)
    (options : CompileOptions) :
    (deployToNode cfg node rulesYaml options).Calls (GuardedDeployOp node.nodeId) := by
  have hmark : ∀ m, GuardedDeployOp node.nodeId (.mark m) := by
    intro m
    refine ⟨trivial, ?_⟩
    intro joinSet r h
    cases h
  have hbody := (deployToNodeBody_calls cfg node rulesYaml options).mono
    fun _ h => GuardedDeployOp.of_body h
  exact calls_mark.2 ⟨hmark _, hbody.bind fun _ => calls_mark.2 ⟨hmark _, trivial⟩⟩

theorem guardedDeploy_calls (cfg : ControllerConfig) (node : Node) (rulesYaml : String)
    (options : CompileOptions) :
    (guardedDeploy cfg node.nodeId node rulesYaml options).Calls (GuardedDeployOp node.nodeId) := by
  have hguard : ∀ c, DeployTaskOp node.nodeId (.storage c) →
      GuardedDeployOp node.nodeId (.storage c) := by
    intro c hc
    refine ⟨hc, ?_⟩
    intro joinSet r h
    cases h
  refine calls_storage.2 ⟨hguard _ rfl, fun r => ?_⟩
  cases r with
  | error e => trivial
  | ok u =>
    exact (deployToNode_calls cfg node _ _).bind fun outcome =>
      calls_storage.2 ⟨hguard _ rfl, fun _ => trivial⟩

/-- A refusal is always the same. -/
def Guarded (node : Node) (done : Option DeployOutcome) : Except PaciNetError DeployOutcome → Prop
  | .ok outcome => done = some outcome
  | .error e => done = none ∧ e = .concurrentDeploy node.nodeId

theorem guardedDeploy_ends {R : World MemoryStorage → World MemoryStorage → Prop}
    (hR : ∀ w w', R w w' → KeepsRecords node.nodeId w w') (rulesYaml : String)
    (options : CompileOptions) {v : NodeRecords}
    (hv : (w.storage.recordsOf node.nodeId).untimed = v) :
    ((machine MemoryStorage).restrict (answersAs answer)).Ensures R
      (guardedDeploy cfg node.nodeId node rulesYaml options)
      (fun r w' => (w'.storage.recordsOf node.nodeId).untimed =
          (v.guardedDeploy cfg node rulesYaml options answer).2 ∧
        Guarded node (v.guardedDeploy cfg node rulesYaml options answer).1 r) w := by
  refine restricted_storage ?_
  intro w₁ hw₁ now
  have h₁ := (hR _ _ hw₁).untimed hv
  have hdeploying : v.deploying = decide (node.nodeId ∈ w₁.storage.deploying) := by
    rw [← h₁]
    rfl
  by_cases hheld : node.nodeId ∈ w₁.storage.deploying
  · have hbegin : Storage.call now (.beginDeploy node.nodeId) w₁.storage =
        (.error (.concurrentDeploy node.nodeId), w₁.storage) := if_pos hheld
    rw [hbegin, NodeRecords.guardedDeploy, if_pos (hdeploying.trans (decide_eq_true hheld))]
    exact ⟨h₁, rfl, rfl⟩
  · have hbegin : (Storage.call now (.beginDeploy node.nodeId) w₁.storage).1 =
        .ok () := congrArg Prod.fst (if_neg hheld)
    have htaken : ((w₁.storage.beginDeploy node.nodeId).2.recordsOf node.nodeId).untimed =
        v.setDeploying true := by
      rw [MemoryStorage.recordsOf_beginDeploy, NodeRecords.untimed_setDeploying, h₁]
    have hfree : ¬ v.deploying = true := by
      rw [hdeploying, decide_eq_true_iff]
      exact hheld
    rw [hbegin, NodeRecords.guardedDeploy, if_neg hfree]
    refine Machine.ensures_bind.2 (Machine.Ensures.mono
      (deployToNode_ends cfg hR htaken rfl rulesYaml options answer) ?_)
    intro outcome w₂ hends
    refine restricted_storage ?_
    intro w₃ hw₃ now
    have hends : _ = (v.setDeploying true).deploy cfg node rulesYaml options answer := hends
    rw [← hends]
    refine ⟨?_, rfl⟩
    show ((w₃.storage.endDeploy node.nodeId).2.recordsOf node.nodeId).untimed = _
    rw [MemoryStorage.recordsOf_endDeploy, NodeRecords.untimed_setDeploying,
      (hR _ _ hw₃).untimed rfl]

/-- What a task makes of its deploy. -/
def taskResult (node : Node) : Except PaciNetError DeployOutcome → NodeDeployResult
  | .ok outcome => batchResult node (some outcome)
  | .error e => ⟨node.nodeId, node.hostname, false, e.toStatus.message, []⟩

omit [Extern] in
theorem Guarded.taskResult {done : Option DeployOutcome} {r : Except PaciNetError DeployOutcome}
    (h : Guarded node done r) : taskResult node r = batchResult node done := by
  cases r with
  | ok outcome =>
    rw [show done = some outcome from h]
    rfl
  | error e =>
    obtain ⟨rfl, rfl⟩ := h
    rfl

theorem batchTask_eq : batchTask cfg joinSet (req.single node) node =
    (guardedDeploy cfg node.nodeId node req.rulesYaml (req.options.getD .default)).bind fun r =>
      op (.joinSetPut joinSet (taskResult node r)) := by
  refine congrArg (Prog.call _) (funext fun r => ?_)
  cases r with
  | error e => rfl
  | ok u =>
    simp only [Prog.bind_eq, Prog.bind_assoc, Prog.done_bind, Prog.pure_eq]
    rfl

theorem batchTask_calls :
    (batchTask cfg joinSet (req.single node) node).Calls (DeployTaskOp node.nodeId) := by
  rw [batchTask_eq]
  refine ((guardedDeploy_calls cfg node _ _).mono fun _ h => h.1).bind fun r => ?_
  cases r with
  | error status => exact calls_op_last.2 rfl
  | ok resp => exact calls_op_last.2 rfl

theorem batchTask_ends {R : World MemoryStorage → World MemoryStorage → Prop}
    (hR : ∀ w w', R w w' → LeavesAlone joinSet node.nodeId w w') :
    ((machine MemoryStorage).restrict (answersAs answer)).Ensures R
      (batchTask cfg joinSet (req.single node) node)
      (fun _ w' => TaskEnded cfg joinSet req node answer w w') w := by
  have hresults : ((machine MemoryStorage).restrict (answersAs answer)).Ensures R
      (guardedDeploy cfg node.nodeId node req.rulesYaml (req.options.getD .default))
      (fun _ w' => w'.resultsOf joinSet node.nodeId = w.resultsOf joinSet node.nodeId) w := by
    refine Machine.ensures_of_invariant
      (I := fun u => World.resultsOf u joinSet node.nodeId = w.resultsOf joinSet node.nodeId)
      (fun w₁ w₂ hw h => (hR _ _ hw).results.trans h) ?_
      (guardedDeploy_calls cfg node _ _) rfl
    rintro o ⟨ho, hput⟩ x w₁ r w₂ hx h
    rcases joinSets_of_exec ho (Machine.restrict_exec.1 hx).1 with hsame | ⟨k, res, rfl, -⟩
    · rw [← h, World.resultsOf, hsame]
      rfl
    · exact absurd rfl (hput k res)
  rw [batchTask_eq]
  refine Machine.ensures_bind.2 (Machine.Ensures.mono
    ((guardedDeploy_ends (fun w w' h => (hR w w' h).records) _ _ rfl).and hresults) ?_)
  rintro r w₁ ⟨⟨hrecords, hguarded⟩, hsame⟩
  have hresult := hguarded.taskResult
  intro w₂ hw₂ x u w₃ hx
  obtain ⟨hx, -⟩ := Machine.restrict_exec.1 hx
  cases hx
  have hid : ((taskResult node r).nodeId == node.nodeId) = true := by
    cases r <;> exact beq_self_eq_true _
  refine ⟨(hR _ _ hw₂).records.untimed hrecords, ?_⟩
  rw [← hresult, ← hsame, ← (hR _ _ hw₂).results]
  simp only [World.resultsOf, World.updateJoinSet, List.getElem?_modify]
  cases w₂.joinSets[joinSet]? with
  | none => rfl
  | some set => simp [hid]

end Task

/-! ## The tasks of a batch -/

/-- The tasks take turns. What else happens touches neither the storage nor the results. -/
def TasksTakeTurns : StepCondition
  | _, .arrive _ => False
  | _, .run _ _ => True
  | c, .env w => w.storage = c.shared.storage ∧ w.joinSets = c.shared.joinSets

section Batch

variable [Extern] (cfg : ControllerConfig)

/-- The tasks of a batch, none of which has started. -/
def batchStart (joinSet : Nat) (req : BatchDeployPolicyRequest) (nodes : List Node)
    (w : World MemoryStorage) : Pool :=
  ⟨w, nodes.map fun node =>
    (controller cfg MemoryStorage).start (.batchTask joinSet (req.single node) node)⟩

/-- All tasks of a batch have run to their ends, in any order, and the agent of each node has
    answered as told. -/
structure BatchRun (joinSet : Nat) (req : BatchDeployPolicyRequest) (nodes : List Node)
    (answers : String → AgentAnswer) (w : World MemoryStorage) (c : Pool) : Prop where
  steps : (controller cfg MemoryStorage).Steps TasksTakeTurns (batchStart cfg joinSet req nodes w) c
  ended : ∀ t ∈ c.threads, ∃ reply, t.prog = .done reply
  answered : ∀ (i : Nat) (node : Node) (t : Task), nodes[i]? = some node →
    c.threads[i]? = some t → ∀ e ∈ t.trace, answersAs (answers node.nodeId) e.1 e.2 = true

variable {cfg} {joinSet : Nat} {req : BatchDeployPolicyRequest} {nodes : List Node}
  {answers : String → AgentAnswer} {w : World MemoryStorage} {c : Pool}

/-- A task starts no other. -/
theorem new_of_deployTaskOp {n : String} {o : Op} (ho : DeployTaskOp n o) {x : Ext}
    {w w' : World MemoryStorage} {r : o.Res} {new : List Request}
    (hx : World.exec x o w = some (r, w', new)) : new = [] := by
  rw [(World.stepped_of_exec hx).new]
  cases o with
  | recordAudit entry => exact ho.elim
  | joinSetSpawn joinSet req node => exact ho.elim
  | _ => rfl

/-- Tasks of different nodes keep out of each other's way. -/
theorem tasks_apart (cfg : ControllerConfig) (joinSet : Nat)
    (hnodes : (nodes.map Node.nodeId).Nodup) :
    (controller cfg MemoryStorage).Apart (fun i o => ∃ node ∈ nodes[i]?, DeployTaskOp node.nodeId o)
      (fun i w w' => ∀ node ∈ nodes[i]?, LeavesAlone joinSet node.nodeId w w') where
  refl i w node _ := .refl w
  trans i w w₁ w₂ h h' node hnode := (h node hnode).trans (h' node hnode)
  alone := by
    rintro i o ⟨node, -, ho⟩ x w r w' new hx
    exact new_of_deployTaskOp ho hx
  other := by
    rintro i j o hij ⟨m, hm, ho⟩ x w r w' new hx node hnode
    refine leavesAlone_of_exec ?_ ho hx
    intro hid
    -- the two nodes would have one id
    have hi : (nodes.map Node.nodeId)[i]? = some node.nodeId := by
      rw [List.getElem?_map, hnode, Option.map_some]
    have hj : (nodes.map Node.nodeId)[j]? = some node.nodeId := by
      rw [List.getElem?_map, hm, Option.map_some, hid]
    have hlt : i < (nodes.map Node.nodeId).length := (List.getElem?_eq_some_iff.1 hi).1
    exact hij ((List.getElem?_inj hlt hnodes).1 (hi.trans hj.symm))

theorem tasks_adhere (hnodes : (nodes.map Node.nodeId).Nodup) :
    (tasks_apart cfg joinSet hnodes).Admits TasksTakeTurns := by
  intro c l hl
  cases l with
  | arrive q => exact hl
  | run i x => trivial
  | env w' =>
    obtain ⟨hstorage, hsets⟩ : w'.storage = c.shared.storage ∧ w'.joinSets = c.shared.joinSets := hl
    intro i node hnode
    refine ⟨?_, ?_⟩
    · rw [KeepsRecords, hstorage]
    · rw [World.resultsOf, hsets]
      rfl

theorem batchStart_getElem? {i : Nat} {t : Task}
    (ht : (batchStart cfg joinSet req nodes w).threads[i]? = some t) :
    ∃ node, nodes[i]? = some node ∧
      t.prog = (batchTask cfg joinSet (req.single node) node).reply fun () => .task := by
  obtain ⟨node, hnode, rfl⟩ := Option.map_eq_some_iff.1 (List.getElem?_map.symm.trans ht)
  exact ⟨node, hnode, rfl⟩

theorem batchStart_calls :
    System.EachCalls (fun i o => ∃ node ∈ nodes[i]?, DeployTaskOp node.nodeId o)
      (batchStart cfg joinSet req nodes w) := by
  intro i t ht
  obtain ⟨node, hnode, hprog⟩ := batchStart_getElem? ht
  rw [hprog]
  exact (batchTask_calls.mono fun o ho => ⟨node, hnode, ho⟩).bind fun _ => trivial

/-- What the agents of the tasks answer. -/
def taskAnswers (nodes : List Node) (answers : String → AgentAnswer) (i : Nat) (o : Op)
    (r : o.Res) : Bool :=
  nodes[i]?.all fun node => answersAs (answers node.nodeId) o r

/-- What a batch has done about each of its nodes. -/
theorem BatchRun.taskEnded (h : BatchRun cfg joinSet req nodes answers w c)
    (hnodes : (nodes.map Node.nodeId).Nodup) {i : Nat} {node : Node} (hi : nodes[i]? = some node) :
    TaskEnded cfg joinSet req node (answers node.nodeId) w c.shared := by
  have hlength := (tasks_apart cfg joinSet hnodes).length_eq (tasks_adhere hnodes) h.steps
    batchStart_calls
  have hlt : i < c.threads.length := by
    rw [hlength]
    simpa [batchStart] using (List.getElem?_eq_some_iff.1 hi).1
  have ht : c.threads[i]? = some c.threads[i] := List.getElem?_eq_getElem hlt
  obtain ⟨reply, hreply⟩ := h.ended _ (List.mem_of_getElem? ht)
  -- every task on its own
  have hstart : ∀ (j : Nat) (t : Task), (batchStart cfg joinSet req nodes w).threads[j]? = some t →
      ((controller cfg MemoryStorage).restrict (taskAnswers nodes answers j)).Ensures
        (fun w w' => ∀ node ∈ nodes[j]?, LeavesAlone joinSet node.nodeId w w') t.prog
        (fun _ w' => ∀ node ∈ nodes[j]?,
          TaskEnded cfg joinSet req node (answers node.nodeId) w w') w := by
    intro j t ht
    obtain ⟨m, hm, hprog⟩ := batchStart_getElem? ht
    have hanswers : taskAnswers nodes answers j = answersAs (answers m.nodeId) := by
      funext o r
      rw [taskAnswers, hm, Option.all_some]
    rw [hprog, hanswers]
    refine Machine.ensures_bind.2 (Machine.Ensures.mono
      (batchTask_ends fun w w' h => h m hm) ?_)
    intro u w' hended node hnode
    obtain rfl : m = node := Option.some.inj (hm.symm.trans hnode)
    exact hended
  have hended := (tasks_apart cfg joinSet hnodes).ensures (tasks_adhere hnodes) h.steps
    batchStart_calls
    (fun j _ w₁ w₂ hw hended node hnode => (hended node hnode).after (hw node hnode))
    hstart ht (fun e he => by
      rw [taskAnswers, hi, Option.all_some]
      exact h.answered i node _ hi ht e he)
  rw [hreply] at hended
  exact hended node hi

/-- A batch leaves the records of other nodes alone. -/
theorem BatchRun.others (h : BatchRun cfg joinSet req nodes answers w c)
    (hnodes : (nodes.map Node.nodeId).Nodup) {l : String} (hl : l ∉ nodes.map Node.nodeId) :
    KeepsRecords l w c.shared := by
  refine (tasks_apart cfg joinSet hnodes).keeps (tasks_adhere hnodes) h.steps batchStart_calls
    (I := fun w' => KeepsRecords l w w') ?_ ?_ rfl
  · rintro d w' ⟨hstorage, -⟩ hkeeps
    rw [KeepsRecords, hstorage]
    exact hkeeps
  · rintro i o ⟨node, hnode, ho⟩ x w₁ r w₂ new hx hkeeps
    refine hkeeps.trans (keepsRecords_of_exec ?_ ho hx)
    rintro rfl
    exact hl (List.mem_map_of_mem (List.mem_of_getElem? hnode))

end Batch

/-! ## The loop over the nodes -/

/-- The node that is deployed to after an operation. -/
def deployingTo (current : Option String) : Op → Option String
  | .mark (.enterDeploy n) => some n
  | _ => current

/-- The agents answer the deploys to their nodes as told. -/
def AnsweredInTurn (answers : String → AgentAnswer) : Option String → List ((o : Op) × o.Res) → Prop
  | _, [] => True
  | current, e :: es => (∀ n ∈ current, answersAs (answers n) e.1 e.2 = true) ∧
      AnsweredInTurn answers (deployingTo current e.1) es

section Loop

variable [Extern] (cfg : ControllerConfig)

/-- The loop has run to its end, and the agent of each node has answered as told. -/
def SequentialRun (req : BatchDeployPolicyRequest) (nodes : List Node)
    (answers : String → AgentAnswer) (w : World MemoryStorage) (result : ActionResult)
    (w' : World MemoryStorage) : Prop :=
  ∃ es, (deployToNodes cfg nodes req.rulesYaml (req.options.getD .default)).Unfolds es
      (.done result) ∧
    (machine MemoryStorage).Performs es w w' ∧ AnsweredInTurn answers none es

variable {cfg} {answers : String → AgentAnswer} {current : Option String} {node : Node}
  {rulesYaml : String} {options : CompileOptions} {es es' : List ((o : Op) × o.Res)}

omit [Extern] in
/-- The operations within a deploy leave it the current one. -/
theorem answered_append (hes : ∀ e ∈ es, deployingTo current e.1 = current)
    (h : AnsweredInTurn answers current (es ++ es')) :
    (∀ n ∈ current, ∀ e ∈ es, answersAs (answers n) e.1 e.2 = true) ∧
      AnsweredInTurn answers current es' := by
  induction es with
  | nil => exact ⟨fun n _ e he => absurd he List.not_mem_nil, h⟩
  | cons e es ih =>
    obtain ⟨hfirst, hrest⟩ := h
    rw [hes e List.mem_cons_self] at hrest
    obtain ⟨hall, hrest⟩ := ih (fun e' he' => hes e' (List.mem_cons_of_mem _ he')) hrest
    refine ⟨fun n hn e' he' => ?_, hrest⟩
    rcases List.mem_cons.1 he' with rfl | he'
    · exact hfirst n hn
    · exact hall n hn e' he'

/-- In a deploy to a node the agent of that node is asked. -/
theorem answered_guardedDeploy {r : Except PaciNetError DeployOutcome}
    (h : (guardedDeploy cfg node.nodeId node rulesYaml options).Unfolds es (.done r))
    (hanswers : AnsweredInTurn answers current (es ++ es')) :
    (∀ e ∈ es, answersAs (answers node.nodeId) e.1 e.2 = true) ∧
      ∃ current', AnsweredInTurn answers current' es' := by
  obtain ⟨r', es₁, rfl, hrest⟩ := h.call_inv
  obtain ⟨-, hanswers⟩ := hanswers
  rw [Prog.done_bind] at hrest
  cases r' with
  | error e =>
    obtain ⟨rfl, -⟩ := hrest.done_inv
    refine ⟨fun e he => ?_, _, hanswers⟩
    rw [List.mem_singleton.1 he]
    rfl
  | ok u =>
    obtain ⟨es₂, es₃, outcome, rfl, hdeploy, hend⟩ := Prog.unfolds_bind.1 hrest
    obtain ⟨r'', es₄, rfl, hdone⟩ := hend.call_inv
    obtain ⟨rfl, -⟩ := hdone.done_inv
    obtain ⟨u', es₅, rfl, hbody⟩ := hdeploy.call_inv
    rw [Prog.done_bind] at hbody
    -- what is done between the first mark of the deploy and its end
    have hinside : ∀ e ∈ es₅, deployingTo (some node.nodeId) e.1 = some node.nodeId := by
      refine hbody.calls (P := fun o => deployingTo (some node.nodeId) o = some node.nodeId) ?_
      refine ((deployToNodeBody_calls cfg node rulesYaml options).mono ?_).bind fun outcome => ?_
      · intro o ho
        cases o with
        | mark m => exact ho.elim
        | _ => rfl
      · exact calls_mark.2 ⟨rfl, trivial⟩
    obtain ⟨-, hanswers⟩ := hanswers
    have hanswers : AnsweredInTurn answers (some node.nodeId)
      (es₅ ++ [⟨.storage (.endDeploy node.nodeId), r''⟩] ++ es') := hanswers
    rw [List.append_assoc] at hanswers
    obtain ⟨hall, hanswers⟩ := answered_append hinside hanswers
    obtain ⟨-, hanswers⟩ := hanswers
    refine ⟨fun e he => ?_, _, hanswers⟩
    simp only [List.mem_cons, List.mem_append, List.not_mem_nil, or_false] at he
    rcases he with rfl | (rfl | he) | rfl
    · rfl
    · rfl
    · exact hall _ rfl e he
    · rfl

variable {nodes : List Node} {w w' : World MemoryStorage}

/-- What one turn of the loop has done. -/
theorem guardedDeploy_performed {r : Except PaciNetError DeployOutcome}
    (h : (guardedDeploy cfg node.nodeId node rulesYaml options).Unfolds es (.done r))
    (hw : (machine MemoryStorage).Performs es w w')
    (hanswers : ∀ e ∈ es, answersAs (answers node.nodeId) e.1 e.2 = true) :
    (w'.storage.recordsOf node.nodeId).untimed =
        ((w.storage.recordsOf node.nodeId).untimed.guardedDeploy cfg node rulesYaml options
          (answers node.nodeId)).2 ∧
      Guarded node ((w.storage.recordsOf node.nodeId).untimed.guardedDeploy cfg node rulesYaml
        options (answers node.nodeId)).1 r ∧
      ∀ l, l ≠ node.nodeId → KeepsRecords l w w' := by
  have hcalls := guardedDeploy_calls cfg node rulesYaml options
  have hexec : ((machine MemoryStorage).restrict (answersAs (answers node.nodeId))).Exec Eq
      (guardedDeploy cfg node.nodeId node rulesYaml options) w r w' := by
    refine Machine.Exec.of_performs (hcalls.mono ?_) h (hw.restrict hanswers)
    intro o ho x s r s' new hx
    exact new_of_deployTaskOp ho.1 (Machine.restrict_exec.1 hx).1
  obtain ⟨hrecords, hguarded⟩ := hexec.ensures
    (guardedDeploy_ends (fun w w' hww => by rw [hww]; rfl) rulesYaml options rfl)
  refine ⟨hrecords, hguarded, fun l hl => ?_⟩
  refine hw.keeps (h.calls hcalls) (I := fun w' => KeepsRecords l w w') ?_ rfl
  intro o ho x s r s' new hx hkeeps
  exact hkeeps.trans (keepsRecords_of_exec (Ne.symm hl) ho.1 hx)

/-- One turn of the loop, and then the others. -/
theorem deployToNodesLoop_cons (succeeded failed : Nat) (results : List NodeActionResult) :
    deployToNodesLoop cfg rulesYaml options (node :: nodes) succeeded failed results =
      (guardedDeploy cfg node.nodeId node rulesYaml options).bind fun r =>
        deployToNodesLoop cfg rulesYaml options nodes
          (if (r.toOption.any DeployOutcome.success) then succeeded + 1 else succeeded)
          (if (r.toOption.any DeployOutcome.success) then failed else failed + 1)
          (results ++ [loopResult node r.toOption]) := by
  refine congrArg (Prog.call _) (funext fun r => ?_)
  cases r with
  | error e => rfl
  | ok u =>
    simp only [Prog.bind_eq, Prog.bind_assoc, Prog.done_bind, Prog.pure_eq]
    rfl

omit [Extern] in
theorem Guarded.toOption {done : Option DeployOutcome} {r : Except PaciNetError DeployOutcome}
    (h : Guarded node done r) : r.toOption = done := by
  cases r with
  | ok outcome => exact (show done = some outcome from h).symm
  | error e => exact h.1.symm

/-- What the loop has done about each of its nodes, reported of it, and left alone. -/
theorem deployToNodesLoop_performed (hnodes : (nodes.map Node.nodeId).Nodup)
    {succeeded failed : Nat} {results : List NodeActionResult}
    {out : Nat × Nat × List NodeActionResult}
    (h : (deployToNodesLoop cfg rulesYaml options nodes succeeded failed results).Unfolds es
      (.done out))
    (hw : (machine MemoryStorage).Performs es w w') (hanswers : AnsweredInTurn answers current es) :
    out.2.2 = results ++ nodes.map (fun node => loopResult node
        ((w.storage.recordsOf node.nodeId).untimed.guardedDeploy cfg node rulesYaml options
          (answers node.nodeId)).1) ∧
      (∀ node ∈ nodes, (w'.storage.recordsOf node.nodeId).untimed =
        ((w.storage.recordsOf node.nodeId).untimed.guardedDeploy cfg node rulesYaml options
          (answers node.nodeId)).2) ∧
      ∀ l, l ∉ nodes.map Node.nodeId → KeepsRecords l w w' := by
  induction nodes generalizing succeeded failed results es w current with
  | nil =>
    obtain ⟨rfl, hout⟩ := h.done_inv
    obtain rfl : w' = w := hw
    cases hout
    refine ⟨(List.append_nil _).symm, fun node hnode => ?_, fun l _ => rfl⟩
    exact absurd hnode List.not_mem_nil
  | cons node nodes ih =>
    obtain ⟨hnew, hnodes⟩ := List.nodup_cons.1 hnodes
    rw [deployToNodesLoop_cons] at h
    obtain ⟨es₁, es₂, r, rfl, hturn, hrest⟩ := Prog.unfolds_bind.1 h
    obtain ⟨w₁, hw₁, hw₂⟩ := Machine.performs_append.1 hw
    obtain ⟨hasked, current', hanswers⟩ := answered_guardedDeploy hturn hanswers
    obtain ⟨hrecords, hguarded, hothers⟩ := guardedDeploy_performed hturn hw₁ hasked
    obtain ⟨hout, hdone, hkept⟩ := ih hnodes hrest hw₂ hanswers
    -- the first turn has left the nodes of the others as they were
    have hsame : ∀ m ∈ nodes, w₁.storage.recordsOf m.nodeId = w.storage.recordsOf m.nodeId := by
      intro m hm
      refine hothers m.nodeId ?_
      intro hid
      exact hnew (hid ▸ List.mem_map_of_mem hm)
    refine ⟨?_, fun m hm => ?_, fun l hl => ?_⟩
    · rw [hout, hguarded.toOption, List.append_assoc, List.map_cons]
      refine congrArg (results ++ ·) (congrArg (_ :: ·) (List.map_congr_left fun m hm => ?_))
      rw [hsame m hm]
    · rcases List.mem_cons.1 hm with rfl | hm
      · rw [hkept _ hnew, hrecords]
      · rw [hdone m hm, hsame m hm]
    · rw [List.map_cons, List.mem_cons, not_or] at hl
      exact (hothers l hl.1).trans (hkept l hl.2)

end Loop

/-! ## The law -/

/-- The same is reported of a node; its message too, if its guard was free. -/
structure SameReport (free : Prop) (r : NodeDeployResult) (r' : NodeActionResult) : Prop where
  nodeId : r.nodeId = r'.nodeId
  success : r.success = r'.success
  message : free → r.message = r'.message

section Law

variable [Extern]

theorem sameReport (cfg : ControllerConfig) (s : MemoryStorage) (node : Node) (rulesYaml : String)
    (options : CompileOptions) (answer : AgentAnswer) :
    SameReport (node.nodeId ∉ s.deploying)
      (batchResult node ((s.recordsOf node.nodeId).untimed.guardedDeploy cfg node rulesYaml options
        answer).1)
      (loopResult node ((s.recordsOf node.nodeId).untimed.guardedDeploy cfg node rulesYaml options
        answer).1) := by
  by_cases hheld : (s.recordsOf node.nodeId).untimed.deploying = true
  · rw [NodeRecords.guardedDeploy, if_pos hheld]
    refine ⟨rfl, rfl, fun hfree => ?_⟩
    exact absurd (of_decide_eq_true hheld) hfree
  · rw [NodeRecords.guardedDeploy, if_neg hheld]
    exact ⟨rfl, rfl, fun _ => rfl⟩

/-- **Deploys to different nodes commute**: however the tasks of a batch take turns, what is stored
    about each of its nodes in the end, and what is reported of it, is what the loop over the nodes
    leaves and reports, up to ids and times. Nothing changes about any other node. -/
theorem batchDeploy_eq_loop (cfg : ControllerConfig) {joinSet pending : Nat}
    {req : BatchDeployPolicyRequest} {nodes : List Node} {answers : String → AgentAnswer}
    {w w' : World MemoryStorage} {c : Pool} {result : ActionResult}
    (hnodes : (nodes.map Node.nodeId).Nodup) (hset : w.joinSets[joinSet]? = some ⟨pending, []⟩)
    (hbatch : BatchRun cfg joinSet req nodes answers w c)
    (hloop : SequentialRun cfg req nodes answers w result w') :
    (∀ (i : Nat) (node : Node), nodes[i]? = some node →
      (c.shared.storage.recordsOf node.nodeId).untimed =
          (w'.storage.recordsOf node.nodeId).untimed ∧
        ∃ r r', c.shared.resultsOf joinSet node.nodeId = some [r] ∧
          result.nodeResults[i]? = some r' ∧
          SameReport (node.nodeId ∉ w.storage.deploying) r r') ∧
      ∀ l, l ∉ nodes.map Node.nodeId → KeepsRecords l w c.shared ∧ KeepsRecords l w w' := by
  obtain ⟨es, hunfolds, hperforms, hanswers⟩ := hloop
  obtain ⟨out, hturns, rfl⟩ := Prog.unfolds_map.1 hunfolds
  obtain ⟨hout, hdone, hkept⟩ := deployToNodesLoop_performed hnodes hturns hperforms hanswers
  refine ⟨fun i node hi => ?_, fun l hl => ⟨hbatch.others hnodes hl, hkept l hl⟩⟩
  have hended := hbatch.taskEnded hnodes hi
  refine ⟨?_, _, _, ?_, ?_, sameReport cfg w.storage node req.rulesYaml (req.options.getD .default)
    (answers node.nodeId)⟩
  · rw [hended.records, hdone node (List.mem_of_getElem? hi)]
  · rw [hended.results, World.resultsOf, hset]
    rfl
  · show out.2.2[i]? = _
    rw [hout, List.nil_append, List.getElem?_map, hi]
    rfl

end Law

/-! ## A batch of two -/

def registeredN2 : Node := .new 0 "n2" "host" "agent:2" ∅ "1.0"

/-- Two nodes have registered and their agents run. A batch has its set of tasks, none of which has
    finished. -/
def World.twoAgents : World MemoryStorage :=
  { World.init ((MemoryStorage.new.registerNode registeredN1).2.registerNode registeredN2).2 with
    agents := ((∅ : AList fun _ : String => AgentState).insert "http://agent:1" (.boot "n1")).insert
      "http://agent:2" (.boot "n2")
    joinSets := [⟨2, []⟩] }

/-- The first agent accepts; the second one cannot be reached. -/
def oneAccepts (n : String) : AgentAnswer :=
  if n = "n1" then .response ⟨true, "Compiled", []⟩ else .failed "connection refused"

/-- What becomes of the requests to the two. -/
def oneAnswers (i : Nat) : Delivery :=
  if i = 0 then .compiled else .failed "connection refused" false

/-- The tasks take turns, one operation each. -/
def alternating : List StepLabel :=
  (List.range 13).flatMap fun k =>
    [.run 0 ⟨k, "a" ++ toString k, oneAnswers 0⟩, .run 1 ⟨k, "b" ++ toString k, oneAnswers 1⟩]

def everyone : BatchDeployPolicyRequest := ⟨∅, "rules: [a]", none, false⟩

/-- The loop, one operation of a node after the other. -/
def oneAfterTheOther : List Ext :=
  (List.range 12).map (fun k => ⟨k, "a" ++ toString k, oneAnswers 0⟩) ++
    (List.range 12).map (fun k => ⟨k, "b" ++ toString k, oneAnswers 1⟩)

/-- The program has nothing left to do. -/
def isDone {α : Type} : Proc α → Bool
  | .done _ => true
  | .call _ _ => false

theorem exists_of_isDone {α : Type} {p : Proc α} (h : isDone p) : ∃ a, p = .done a := by
  cases p with
  | done a => exact ⟨a, rfl⟩
  | call o k => cases h

/-- The check of the end of a batch. -/
def batchEnded (nodes : List Node) (answers : String → AgentAnswer) (c : Pool) : Bool :=
  c.threads.all (fun t => isDone t.prog) &&
    (nodes.zip c.threads).all fun p =>
      p.2.trace.all fun e => answersAs (answers p.1.nodeId) e.1 e.2

/-- The check of its steps. -/
def takesTurns : Pool → StepLabel → Bool
  | _, .run _ _ => true
  | _, _ => false

theorem takesTurns_sound (c : Pool) (l : StepLabel) (h : takesTurns c l) : TasksTakeTurns c l := by
  cases l with
  | run i x => trivial
  | arrive q => cases h
  | env w => cases h

/-- A schedule that ends with a batch that passes the check is a run of the batch. -/
theorem exists_batchRun [Extern] (cfg : ControllerConfig) (joinSet : Nat)
    (req : BatchDeployPolicyRequest) (nodes : List Node) (answers : String → AgentAnswer)
    (w : World MemoryStorage) (ls : List StepLabel)
    (h : ((controller cfg MemoryStorage).run takesTurns (batchStart cfg joinSet req nodes w) ls).any
      (batchEnded nodes answers)) : ∃ c, BatchRun cfg joinSet req nodes answers w c := by
  obtain ⟨c, hrun, hcheck⟩ := (Option.any_eq_true _ _).1 h
  obtain ⟨hdone, hanswered⟩ := Bool.and_eq_true_iff.1 hcheck
  refine ⟨c, System.steps_of_run takesTurns_sound hrun, fun t ht => ?_,
    fun i node t hnode ht e he => ?_⟩
  · exact exists_of_isDone (List.all_eq_true.1 hdone t ht)
  · have hmem : (node, t) ∈ nodes.zip c.threads := by
      refine List.mem_of_getElem? (i := i) ?_
      rw [List.getElem?_zip_eq_some]
      exact ⟨hnode, ht⟩
    exact List.all_eq_true.1 (List.all_eq_true.1 hanswered _ hmem) e he

instance (answers : String → AgentAnswer) : (current : Option String) →
    (es : List ((o : Op) × o.Res)) → Decidable (AnsweredInTurn answers current es)
  | _, [] => inferInstanceAs (Decidable True)
  | current, e :: es =>
    have : Decidable (AnsweredInTurn answers (deployingTo current e.1) es) :=
      instDecidableAnsweredInTurn answers _ es
    inferInstanceAs (Decidable ((∀ n ∈ current, answersAs (answers n) e.1 e.2 = true) ∧
      AnsweredInTurn answers (deployingTo current e.1) es))

theorem exists_sequentialRun [Extern] (cfg : ControllerConfig) (req : BatchDeployPolicyRequest)
    (nodes : List Node) (answers : String → AgentAnswer) (w : World MemoryStorage) (xs : List Ext)
    (h : ((machine MemoryStorage).evalAnswers xs
      (deployToNodes cfg nodes req.rulesYaml (req.options.getD .default)) w).any
        fun r => decide (AnsweredInTurn answers none r.1)) :
    ∃ result w', SequentialRun cfg req nodes answers w result w' := by
  obtain ⟨⟨es, result, w'⟩, heval, hcheck⟩ := (Option.any_eq_true _ _).1 h
  obtain ⟨hunfolds, hperforms⟩ := Machine.unfolds_of_evalAnswers heval
  exact ⟨result, w', es, hunfolds, hperforms, of_decide_eq_true hcheck⟩

/-- Two tasks that take turns leave what the loop leaves. -/
theorem batchDeploy_eq_loop_two :
    ∃ (c : Pool) (result : ActionResult) (w' : World MemoryStorage),
      @BatchRun .sample plainConfig 0 everyone [registeredN1, registeredN2] oneAccepts .twoAgents
        c ∧
      @SequentialRun .sample plainConfig everyone [registeredN1, registeredN2] oneAccepts .twoAgents
        result w' ∧
      (c.shared.storage.recordsOf "n1").untimed = (w'.storage.recordsOf "n1").untimed ∧
      (c.shared.storage.recordsOf "n2").untimed = (w'.storage.recordsOf "n2").untimed := by
  obtain ⟨c, hbatch⟩ := @exists_batchRun .sample plainConfig 0 everyone [registeredN1, registeredN2]
    oneAccepts .twoAgents alternating (by decide +kernel)
  obtain ⟨result, w', hloop⟩ := @exists_sequentialRun .sample plainConfig everyone
    [registeredN1, registeredN2] oneAccepts .twoAgents oneAfterTheOther (by decide +kernel)
  obtain ⟨hsame, -⟩ := @batchDeploy_eq_loop .sample plainConfig 0 2 everyone
    [registeredN1, registeredN2] oneAccepts .twoAgents w' c result (by decide) rfl hbatch hloop
  exact ⟨c, result, w', hbatch, hloop, (hsame 0 registeredN1 rfl).1, (hsame 1 registeredN2 rfl).1⟩

end PaciNet

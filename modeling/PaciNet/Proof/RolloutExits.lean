import PaciNet.Proof.ActionResults
import PaciNet.Proof.BatchSlices
import PaciNet.Proof.LatestOutcomes
import PaciNet.Proof.Rollouts

/-!
# Leaving a rollout

A state whose action is a batched deploy is entered once for each batch. Its way out is guarded by
`all_succeeded`, and that looks at the last result only: at one batch, or, if the action has found
all its batches done, at the lists of the instance.

Over every run of an instance, **a rollout that is left after its last batch is complete, if its
earlier batches have succeeded**: that the last one has succeeded too is what the guard has tested
(`leavesComplete`).
-/

set_option autoImplicit false

namespace PaciNet

open Lib Prog

/-! ## Rollouts -/

/-- A state of a definition whose action is a batched deploy. -/
structure Rollout where
  definition : FsmDefinition
  state : String
  stateDef : StateDefinition
  action : ActionDefinition
  deploy : DeployAction
  percent : Nat
  defined : definition.states.lookup state = some stateDef
  acts : stateDef.action = some action
  deploys : action.deploy = some deploy
  batched : deploy.batchPercent = some percent

/-- Each of the entries to come is as `Q` says, after the entries before it. -/
def EachAfter (Q : List EntryStep → EntryStep → Prop) : List EntryStep → List EntryStep → Prop
  | _, [] => True
  | before, s :: rest => Q before s ∧ EachAfter Q (before ++ [s]) rest

/-- The results of the batch that an execution passes on. -/
def EntryStep.batchResults (s : EntryStep) : Option (List NodeActionResult) :=
  match s.plan with
  | .deploys _ => some s.deploys
  | _ => none

namespace Rollout

variable (R : Rollout)

/-- The executions of the action. -/
def own (ss : List EntryStep) : List EntryStep := ss.filter fun s => s.entry.state == R.state

/-- The nodes that the action selects of those an execution was told. -/
def selection (s : EntryStep) : Option (List String) :=
  (listedNodes s.answers).map fun nodes => (R.deploy.selected nodes).map Node.nodeId

/-- The results of the batches the action has passed on, one after the other. -/
def passes (ss : List EntryStep) : List (List NodeActionResult) :=
  (R.own ss).filterMap EntryStep.batchResults

/-- The batch that an execution passes on. -/
def batch (s : EntryStep) : Option (Batch String) :=
  match s.plan, R.selection s with
  | .deploys now, some items =>
    some ⟨items, s.entry.context.batchCursor, s.entry.context.batchCursor + now.length⟩
  | _, _ => none

/-- The action works off its list. -/
def sweep (ss : List EntryStep) : Sweep String where
  lists := (R.own ss).filterMap R.selection
  batches := (R.own ss).filterMap R.batch
  passed := (R.passes ss).flatten.map NodeActionResult.nodeId

/-- The cursor is untouched, or not beyond the end of a batch of the action. -/
def Within (ss : List EntryStep) (cursor : Nat) : Prop :=
  cursor = 0 ∨ ∃ b ∈ (R.sweep ss).batches, cursor ≤ b.stop

/-- Each execution of the action finds a cursor that only its own batches have moved. -/
def OwnCursors (ss : List EntryStep) : Prop :=
  EachAfter (fun before s => s.entry.state = R.state →
    R.Within before s.entry.context.batchCursor) [] ss

/-- Each list the action was told selects the same nodes. -/
def Unchanged (selected : List String) (ss : List EntryStep) : Prop :=
  ∀ s ∈ R.own ss, ∀ items ∈ R.selection s, items = selected

end Rollout

/-! ## Leaving -/

/-- The condition of the transition is `all_succeeded`. -/
def TransitionDefinition.OnSuccess (t : TransitionDefinition) : Prop :=
  ∃ simple, t.when? = some (.simple simple) ∧ simple.allSucceeded = some true

/-- How a state is left: the engine fires one of its transitions, or the instance is advanced by
    hand, with or without a target. -/
inductive Departure where
  | fires (ti : Nat)
  | advances (target : Option String)

/-- The instance is moved along the transition. -/
def Departure.Takes (inst : FsmInstance) (stateDef : StateDefinition) (t : TransitionDefinition) :
    Departure → Prop
  | .fires ti => stateDef.transitions[ti]? = some t ∧ ∃ es inst',
      (shouldFire inst.currentState ti t inst).Unfolds es (.done (true, inst'))
  | .advances target => t ∈ stateDef.transitions ∧
      advanceTarget stateDef inst.currentState target = .ok t.toState

/-- A new instance of the definition has entered some states, the last of them the rollout, whose
    action has been told of the same nodes each time, and leaves it on success. -/
structure Rollout.Left [Extern] (cfg : ControllerConfig) (R : Rollout) (selected : List String)
    (ss : List EntryStep) (s : EntryStep) (inst : FsmInstance) (t : TransitionDefinition)
    (departure : Departure) : Prop where
  definition : ∀ e ∈ ss ++ [s], e.entry.definition = R.definition
  run : ∃ context : FsmContext, context.Unused ∧ context.batchCursor = 0 ∧
    Career cfg context (ss ++ [s])
  entered : s.entry.state = R.state
  unchanged : R.Unchanged selected (ss ++ [s])
  since : SameButFirstTrue s.inst.context inst.context
  current : inst.currentState = R.state
  onSuccess : t.OnSuccess
  takes : departure.Takes inst R.stateDef t

/-- **A rollout is left on success** only when every node it selects was passed on by it and
    succeeded. -/
def LeavesComplete [Extern] (cfg : ControllerConfig)
    (C : Rollout → List String → List EntryStep → EntryStep → FsmInstance → Departure → Prop) :
    Prop :=
  ∀ (R : Rollout) (selected : List String) (ss : List EntryStep) (s : EntryStep)
    (inst : FsmInstance) (t : TransitionDefinition) (departure : Departure),
    R.Left cfg selected ss s inst t departure → C R selected ss s inst departure →
      ∀ n ∈ selected, ∃ rs ∈ R.passes (ss ++ [s]), ∃ r ∈ rs, r.nodeId = n ∧ r.success = true

/-- The rollout is left after its last batch, and the batches before that one have succeeded. -/
structure AfterLastBatch (R : Rollout) (selected : List String) (ss : List EntryStep)
    (s : EntryStep) (inst : FsmInstance) (departure : Departure) : Prop where
  /-- No other action moves the cursor. -/
  own : R.OwnCursors (ss ++ [s])
  /-- All batches have been passed on. -/
  last : selected.length ≤ inst.context.batchCursor
  /-- Of the last batch nothing is said. -/
  earlier : ∀ rs ∈ (R.passes (ss ++ [s])).dropLast, ∀ r ∈ rs, r.success = true
  /-- The last execution had rules and was told the nodes. -/
  told : s.entry.context.rulesYaml.isSome ∧ (listedNodes s.answers).isSome
  /-- An advance by hand tests no guard: it is made where the guard would let it pass. -/
  tested : ∀ target, departure = .advances target →
    evaluateSimple allSucceeded inst.context = true
  /-- The number of the failed nodes can be reported. -/
  fits : inst.context.failedNodes.length < 2 ^ 32

/-! ## One execution -/

/-- The plan of a batched deploy that has rules and was told some nodes. -/
theorem DeployAction.plan_batched {deploy : DeployAction} {percent : Nat} {context : FsmContext}
    {rulesYaml : String} {nodes : List Node} (hpercent : deploy.batchPercent = some percent)
    (hrules : context.rulesYaml = some rulesYaml) (hnodes : nodes ≠ []) :
    deploy.plan context (some nodes) =
      if (deploy.selected nodes).length ≤ context.batchCursor then
        .batchesDone (deploy.selected nodes).length
      else .deploys (((deploy.selected nodes).take (min (context.batchCursor +
        batchSize (deploy.selected nodes).length percent)
          (deploy.selected nodes).length)).drop context.batchCursor) := by
  obtain ⟨node, nodes, rfl⟩ := List.exists_cons_of_ne_nil hnodes
  simp only [DeployAction.plan, hrules, DeployAction.selects, hpercent]
  by_cases hdone : (deploy.selected (node :: nodes)).length ≤ context.batchCursor
  · rw [if_pos hdone]
    have hdone' : context.batchCursor ≥ (applyLimit deploy.select.limit (node :: nodes)).length :=
      hdone
    simp only [if_pos hdone']
    rfl
  · rw [if_neg hdone]
    have hdone' : ¬ context.batchCursor ≥ (applyLimit deploy.select.limit (node :: nodes)).length :=
      hdone
    simp only [if_neg hdone']
    rfl

namespace Rollout

/-- An execution that has a batch has passed it on. -/
theorem exists_plan_of_batch {R : Rollout} {s : EntryStep} {b : Batch String}
    (h : R.batch s = some b) : ∃ now, s.plan = .deploys now := by
  unfold Rollout.batch at h
  split at h
  · exact ⟨_, ‹_›⟩
  · cases h

theorem exists_plan_of_batchResults {s : EntryStep} {rs : List NodeActionResult}
    (h : s.batchResults = some rs) : ∃ now, s.plan = .deploys now ∧ s.deploys = rs := by
  unfold EntryStep.batchResults at h
  split at h
  · exact ⟨_, ‹_›, Option.some.inj h⟩
  · cases h

section Executions

variable [Extern] {cfg : ControllerConfig} {R : Rollout} {s : EntryStep} {now : List Node}

variable (cfg R s) in
/-- The entry executes the action. -/
structure Executes : Prop where
  enters : s.entry.Enters cfg s.answers s.inst
  definition : s.entry.definition = R.definition
  entered : s.entry.state = R.state

theorem Executes.stateDef? (h : R.Executes cfg s) : s.entry.stateDef? = some R.stateDef := by
  have hlookup : s.entry.stateDef? = s.entry.definition.states.lookup s.entry.state := by
    cases s.entry <;> rfl
  rw [hlookup, h.definition, h.entered]
  exact R.defined

/-- It plans what the deploy plans. -/
theorem Executes.plan (h : R.Executes cfg s) :
    s.plan = R.deploy.plan s.entry.context (listedNodes s.answers) := by
  simp only [EntryStep.plan, Entry.action?, h.stateDef?, Option.bind_some, R.acts, planOf,
    ActionDefinition.plan, R.deploys]

/-- Where it passes on a batch, the batch is the part of the selection from the cursor on. -/
theorem Executes.batch (h : R.Executes cfg s) (hplan : s.plan = .deploys now) :
    ∃ items, R.selection s = some items ∧
      R.batch s = some ⟨items, s.entry.context.batchCursor,
        min (s.entry.context.batchCursor + batchSize items.length R.percent) items.length⟩ ∧
      now.map Node.nodeId = ((items.take (min (s.entry.context.batchCursor +
        batchSize items.length R.percent) items.length)).drop s.entry.context.batchCursor) ∧
      s.entry.context.batchCursor < items.length := by
  have hdeploy := h.plan
  rw [hplan] at hdeploy
  unfold DeployAction.plan at hdeploy
  split at hdeploy
  · cases hdeploy
  · rename_i rules nodes hsome hrules hlisted
    have hselection : R.selection s = some ((R.deploy.selected nodes).map Node.nodeId) := by
      rw [selection, hlisted, Option.map_some]
    simp only [DeployAction.selects, R.batched] at hdeploy
    by_cases hdone : s.entry.context.batchCursor ≥ (applyLimit R.deploy.select.limit nodes).length
    · simp only [if_pos hdone] at hdeploy
      cases hdeploy
    · simp only [if_neg hdone] at hdeploy
      have hnow := Plan.deploys.inj hdeploy
      refine ⟨_, hselection, ?_, ?_, ?_⟩
      · simp only [Rollout.batch, hplan, hselection, hnow, List.length_drop, List.length_take,
          List.length_map, DeployAction.selected]
        congr 2
        omega
      · rw [hnow]
        simp only [List.map_drop, List.map_take, List.length_map, DeployAction.selected]
      · rw [List.length_map]
        exact Nat.lt_of_not_le hdone
  · cases hdeploy

/-- Its results are those of the batch, the last result is about them, and the nodes that failed
    are in the list. -/
theorem Executes.results (h : R.Executes cfg s) (hplan : s.plan = .deploys now) :
    ∃ r, r.Tallied ∧ s.deploys = r.nodeResults ∧
      s.deploys.map NodeActionResult.nodeId = now.map Node.nodeId ∧
      s.inst.context.lastActionResult = some r ∧
      ∀ res ∈ s.deploys, res.success = false → res.nodeId ∈ s.inst.context.failedNodes := by
  have heffect := Entry.effect cfg h.enters
  rw [show planOf s.entry.action? s.entry.context (listedNodes s.answers) = .deploys now
    from hplan] at heffect
  cases heffect with
  | @deploys _ r tallied passed nodeIds lists =>
    have hdeploys : s.deploys = r.nodeResults := by
      rw [EntryStep.deploys, hplan]
      exact passed
    refine ⟨r, tallied, hdeploys, hdeploys ▸ nodeIds, congrArg (fun l => l.2.2) lists, ?_⟩
    intro res hres hfailed
    have hlists : s.inst.context.failedNodes = pushNew s.entry.context.failedNodes
        ((r.nodeResults.filter (!·.success)).map (·.nodeId)) := congrArg (fun l => l.2.1) lists
    rw [hdeploys] at hres
    rw [hlists, mem_pushNew]
    exact .inr (List.mem_map_of_mem (List.mem_filter.2 ⟨hres, by simp [hfailed]⟩))

/-- A batch of its own begins at the cursor, in the list the action was told, and takes the nodes
    that there are results for. -/
theorem Executes.of_batch (h : R.Executes cfg s) {b : Batch String} (hb : R.batch s = some b) :
    R.selection s = some b.items ∧ b.start = s.entry.context.batchCursor ∧
      s.batchResults = some s.deploys ∧ b.taken = s.deploys.map NodeActionResult.nodeId := by
  obtain ⟨now, hplan⟩ := exists_plan_of_batch hb
  obtain ⟨items, hselection, hbatch, hnow, -⟩ := h.batch hplan
  obtain rfl := Option.some.inj (hbatch.symm.trans hb)
  obtain ⟨r, -, -, hids, -, -⟩ := h.results hplan
  refine ⟨hselection, rfl, by rw [EntryStep.batchResults, hplan], ?_⟩
  rw [hids, hnow]
  rfl

/-- Where it has been carried out on nodes that the action selects, it has found all batches done
    and left the cursor, or it has passed on a batch and moved the cursor to the end of it. -/
theorem Executes.cursor (h : R.Executes cfg s) {rulesYaml : String} {nodes : List Node}
    (hrules : s.entry.context.rulesYaml = some rulesYaml)
    (hlisted : listedNodes s.answers = some nodes) (hsome : R.deploy.selected nodes ≠ []) :
    (s.plan = .batchesDone (R.deploy.selected nodes).length ∧
        s.inst.context.batchCursor = s.entry.context.batchCursor) ∨
      ∃ now, s.plan = .deploys now ∧ s.inst.context.batchCursor =
        asU32 (min (s.entry.context.batchCursor +
          batchSize (R.deploy.selected nodes).length R.percent) (R.deploy.selected nodes).length) := by
  have hnodes : nodes ≠ [] := by
    rintro rfl
    exact hsome (DeployAction.selected_nil _)
  have hplan := h.plan
  rw [hlisted, DeployAction.plan_batched R.batched hrules hnodes] at hplan
  have hexecutes := Entry.executes cfg h.enters
  rw [h.stateDef?] at hexecutes
  rcases hexecutes with ⟨hnone, -⟩ | ⟨stateDef, hstate, inst₀, es, ⟨m, hm⟩, htells, hexecution⟩
  · cases hnone
  · obtain rfl := Option.some.inj hstate
    simp only [executeActionOf, R.acts] at hexecution
    obtain ⟨_, es₁, rfl, h₁⟩ := hexecution.call_inv
    rw [Prog.done_bind] at h₁
    simp only [R.deploys] at h₁
    have hrules₀ : inst₀.context.rulesYaml = some rulesYaml := by rw [hm]; exact hrules
    have hcursor₀ : inst₀.context.batchCursor = s.entry.context.batchCursor := by rw [hm]; rfl
    have hlisted₀ : listedNodes es₁ = some nodes := htells.listed.symm.trans hlisted
    obtain ⟨-, hcases⟩ := executeDeploy_passes cfg inst₀ hrules₀ R.batched hsome hlisted₀ h₁
    rw [hcursor₀] at hcases
    rcases hcases with ⟨hdone, -, hsame⟩ | ⟨hleft, -, hnext⟩
    · rw [if_pos hdone] at hplan
      exact .inl ⟨hplan, hsame⟩
    · rw [if_neg (Nat.not_le.2 hleft)] at hplan
      exact .inr ⟨_, hplan, hnext⟩

end Executions

end Rollout

/-! ## One entry after the other -/

section Runs

variable {Q Q' : List EntryStep → EntryStep → Prop} {before ss : List EntryStep} {s : EntryStep}

theorem EachAfter.and (h : EachAfter Q before ss) (h' : EachAfter Q' before ss) :
    EachAfter (fun before s => Q before s ∧ Q' before s) before ss := by
  induction ss generalizing before with
  | nil => trivial
  | cons s ss ih => exact ⟨⟨h.1, h'.1⟩, ih h.2 h'.2⟩

theorem eachAfter_of_forall {Q : EntryStep → Prop} (h : ∀ s ∈ ss, Q s) :
    EachAfter (fun _ => Q) before ss := by
  induction ss generalizing before with
  | nil => trivial
  | cons s ss ih =>
    exact ⟨h s List.mem_cons_self, ih fun s' hs' => h s' (List.mem_cons_of_mem _ hs')⟩

/-- What is said of the last entry is said after all those before it. -/
theorem EachAfter.last (h : EachAfter Q before (ss ++ [s])) : Q (before ++ ss) s := by
  induction ss generalizing before with
  | nil =>
    rw [List.append_nil]
    exact h.1
  | cons s' ss ih =>
    rw [List.append_cons]
    exact ih h.2

/-- **The induction over a run of an instance**, in which each entry is as `Q` says. -/
theorem Career.invariant [Extern] {cfg : ControllerConfig}
    {P : FsmContext → List EntryStep → Prop}
    (hsame : ∀ {context context' before}, SameButFirstTrue context context' →
      P context before → P context' before)
    (hstep : ∀ {before s}, Q before s → s.entry.Enters cfg s.answers s.inst →
      P s.entry.context before → P s.inst.context (before ++ [s]))
    {context : FsmContext} (hrun : Career cfg context (ss ++ [s]))
    (hQ : EachAfter Q before (ss ++ [s])) (hP : P context before) :
    P s.inst.context (before ++ ss ++ [s]) := by
  induction ss generalizing context before with
  | nil =>
    obtain ⟨hbetween, henters, -⟩ := hrun
    rw [List.append_nil]
    exact hstep hQ.1 henters (hsame hbetween hP)
  | cons s' ss ih =>
    obtain ⟨hbetween, henters, hrest⟩ := hrun
    rw [List.append_cons before]
    exact ih hrest hQ.2 (hstep hQ.1 henters (hsame hbetween hP))

end Runs

/-- The list of failed nodes only grows. -/
theorem Entry.failedNodes_subset [Extern] (cfg : ControllerConfig) {e : Entry}
    {es : List Answered} {inst : FsmInstance} (h : e.Enters cfg es inst) :
    e.context.failedNodes ⊆ inst.context.failedNodes := by
  have heffect := Entry.effect cfg h
  have hkept (hsame : inst.context.failedNodes = e.context.failedNodes) :
      e.context.failedNodes ⊆ inst.context.failedNodes := by
    rw [hsame]
    exact List.Subset.refl _
  generalize planOf e.action? e.context (listedNodes es) = plan at heffect
  cases heffect with
  | nothing lists => exact hkept (congrArg (fun l => l.2.1) lists)
  | noNodes lists => exact hkept (congrArg (fun l => l.2.1) lists)
  | batchesDone lists => exact hkept (congrArg (fun l => l.2.1) lists)
  | rollsBack _ _ _ lists => exact hkept (congrArg (fun l => l.2.1) lists)
  | @deploys _ r _ _ _ lists =>
    have hlists : inst.context.failedNodes = pushNew e.context.failedNodes
        ((r.nodeResults.filter (!·.success)).map (·.nodeId)) := congrArg (fun l => l.2.1) lists
    rw [hlists]
    exact fun n hn => mem_pushNew.2 (.inl hn)

namespace Rollout

variable {R : Rollout} {selected : List String} {ss : List EntryStep} {s : EntryStep}

/-! ## What a rollout has done -/

theorem own_append_of_eq (h : s.entry.state = R.state) : R.own (ss ++ [s]) = R.own ss ++ [s] := by
  simp [own, h]

theorem own_append_of_ne (h : s.entry.state ≠ R.state) : R.own (ss ++ [s]) = R.own ss := by
  simp [own, h]

/-- What is known of a rollout after some entries: what stands before the ends of its batches has
    been passed on, and what has failed is in the list of the instance. -/
structure Progress (R : Rollout) (selected : List String) (context : FsmContext)
    (ss : List EntryStep) : Prop where
  covered : (R.sweep ss).Covered
  items : ∀ b ∈ (R.sweep ss).batches, b.items = selected
  failed : ∀ rs ∈ R.passes ss, ∀ r ∈ rs, r.success = false → r.nodeId ∈ context.failedNodes

/-- A cursor within the batches has only nodes behind it that have been passed on. -/
theorem Progress.behind {context : FsmContext} {cursor : Nat}
    (h : R.Progress selected context ss) (hcursor : R.Within ss cursor) :
    (R.sweep ss).Behind selected cursor := by
  refine h.covered.behind (Sweep.kept_of_same h.items (hcursor.imp_right ?_))
  rintro ⟨b, hb, hstop⟩
  exact ⟨b, hb, (Nat.min_le_left _ _).trans hstop⟩

variable (ss) in
/-- The lists, batches and results of an execution come after those before it. -/
theorem sweep_append_of_eq (h : s.entry.state = R.state) :
    (R.sweep (ss ++ [s])).lists = (R.sweep ss).lists ++ (R.selection s).toList ∧
      (R.sweep (ss ++ [s])).batches = (R.sweep ss).batches ++ (R.batch s).toList ∧
      R.passes (ss ++ [s]) = R.passes ss ++ s.batchResults.toList := by
  simp only [sweep, passes, own_append_of_eq h, List.filterMap_append, List.filterMap_cons,
    List.filterMap_nil]
  refine ⟨?_, ?_, ?_⟩
  · cases R.selection s <;> rfl
  · cases R.batch s <;> rfl
  · cases s.batchResults <;> rfl

variable (ss) in
theorem sweep_append_of_ne (h : s.entry.state ≠ R.state) :
    R.sweep (ss ++ [s]) = R.sweep ss ∧ R.passes (ss ++ [s]) = R.passes ss := by
  simp only [sweep, passes, own_append_of_ne h, and_self]

/-- An execution keeps what is known of the rollout, if its cursor is its own and its list is the
    same. -/
theorem Progress.executed [Extern] {cfg : ControllerConfig}
    (h : R.Progress selected s.entry.context ss) (hexec : R.Executes cfg s)
    (hown : R.Within ss s.entry.context.batchCursor)
    (hsame : ∀ items ∈ R.selection s, items = selected) :
    R.Progress selected s.inst.context (ss ++ [s]) := by
  obtain ⟨hlists, hbatches, hpasses⟩ := sweep_append_of_eq ss hexec.entered
  have hpassed : (R.sweep (ss ++ [s])).passed =
      (R.sweep ss).passed ++ s.batchResults.toList.flatten.map NodeActionResult.nodeId := by
    simp only [sweep, hpasses, List.flatten_append, List.map_append]
  have hmoreLists : (R.sweep ss).lists ⊆ (R.sweep (ss ++ [s])).lists := by
    rw [hlists]
    exact List.subset_append_left _ _
  have hmorePassed : (R.sweep ss).passed ⊆ (R.sweep (ss ++ [s])).passed := by
    rw [hpassed]
    exact List.subset_append_left _ _
  constructor
  · refine h.covered.mono hmoreLists hmorePassed fun b hb => ?_
    rw [hbatches, List.mem_append, Option.mem_toList] at hb
    refine hb.imp_right fun hb => ?_
    -- the batch of this execution, which began behind nodes that have been passed on
    obtain ⟨hselection, hstart, hresults, htaken⟩ := hexec.of_batch hb
    refine ⟨?_, ?_, ?_⟩
    · rw [hlists, hselection]
      exact List.mem_append_right _ (List.mem_singleton_self _)
    · rw [hsame _ hselection, hstart]
      exact (h.behind hown).mono hmoreLists hmorePassed
    · rw [hpassed, hresults, htaken]
      refine List.subset_append_of_subset_right _ ?_
      simp only [Option.toList_some, List.flatten_singleton]
      exact List.Subset.refl _
  · intro b hb
    rw [hbatches, List.mem_append, Option.mem_toList] at hb
    rcases hb with hb | hb
    · exact h.items b hb
    · exact hsame _ (hexec.of_batch hb).1
  · intro rs hrs r hr hno
    rw [hpasses, List.mem_append, Option.mem_toList] at hrs
    rcases hrs with hrs | hrs
    · exact Entry.failedNodes_subset cfg hexec.enters (h.failed rs hrs r hr hno)
    · obtain ⟨now, hplan, rfl⟩ := exists_plan_of_batchResults hrs
      obtain ⟨-, -, -, -, -, hlisted⟩ := hexec.results hplan
      exact hlisted r hr hno

/-- **Each entry keeps what is known of the rollout**, if its cursor is its own and its list is the
    same. -/
theorem Progress.entry [Extern] {cfg : ControllerConfig}
    (h : R.Progress selected s.entry.context ss) (henters : s.entry.Enters cfg s.answers s.inst)
    (hdef : s.entry.definition = R.definition)
    (hown : s.entry.state = R.state → R.Within ss s.entry.context.batchCursor)
    (hsame : s.entry.state = R.state → ∀ items ∈ R.selection s, items = selected) :
    R.Progress selected s.inst.context (ss ++ [s]) := by
  by_cases hstate : s.entry.state = R.state
  · exact h.executed ⟨henters, hdef, hstate⟩ (hown hstate) (hsame hstate)
  · obtain ⟨hsweep, hpasses⟩ := sweep_append_of_ne ss hstate
    constructor
    · rw [hsweep]
      exact h.covered
    · rw [hsweep]
      exact h.items
    · rw [hpasses]
      intro rs hrs r hr hno
      exact Entry.failedNodes_subset cfg henters (h.failed rs hrs r hr hno)

theorem progress_nil {context : FsmContext} : R.Progress selected context [] where
  covered := ⟨by simp [sweep, own], by simp [sweep, own]⟩
  items := by simp [sweep, own]
  failed := by simp [passes, own]

end Rollout

/-! ## The law -/

section Law

variable [Extern] {cfg : ControllerConfig} {R : Rollout} {selected : List String}
  {ss : List EntryStep} {s : EntryStep} {inst : FsmInstance} {t : TransitionDefinition}
  {departure : Departure}

omit [Extern] in
/-- The engine fires such a transition only where the last result is a success. -/
theorem TransitionDefinition.OnSuccess.fires {currentState : String} {ti : Nat}
    {es : List Answered} {inst' : FsmInstance} (h : t.OnSuccess)
    (hfires : (shouldFire currentState ti t inst).Unfolds es (.done (true, inst'))) :
    evaluateSimple allSucceeded inst.context = true := by
  obtain ⟨simple, hwhen, hsimple⟩ := h
  unfold shouldFire at hfires
  rw [hwhen] at hfires
  obtain ⟨obs, es', rfl, hdone⟩ := hfires.call_inv
  have hverdict : evaluateSimple simple inst.context = true :=
    (congrArg Prod.fst (Prog.done.inj hdone.done_inv.2)).symm
  unfold evaluateSimple at hverdict ⊢
  rw [hsimple] at hverdict
  exact hverdict

namespace Rollout.Left

/-- The guard holds of an instance that leaves the rollout. -/
theorem guard (h : R.Left cfg selected ss s inst t departure)
    (htested : ∀ target, departure = .advances target →
      evaluateSimple allSucceeded inst.context = true) :
    evaluateSimple allSucceeded inst.context = true := by
  cases hdeparture : departure with
  | fires ti =>
    have htakes := h.takes
    rw [hdeparture] at htakes
    obtain ⟨-, es, inst', hfires⟩ := htakes
    exact h.onSuccess.fires hfires
  | advances target => exact htested target hdeparture

/-- The last entry executes the action. -/
theorem executes (h : R.Left cfg selected ss s inst t departure) : R.Executes cfg s := by
  obtain ⟨context, -, -, hrun⟩ := h.run
  refine ⟨?_, h.definition s (List.mem_append_right _ (List.mem_singleton_self _)), h.entered⟩
  clear h
  induction ss generalizing context with
  | nil => exact hrun.2.1
  | cons s' ss ih => exact ih _ hrun.2.2

/-- What is known of the rollout when it is left. -/
theorem progress (h : R.Left cfg selected ss s inst t departure)
    (hown : R.OwnCursors (ss ++ [s])) : R.Progress selected inst.context (ss ++ [s]) := by
  have hsame {context context' : FsmContext} {before : List EntryStep}
      (hcontext : SameButFirstTrue context context') (hp : R.Progress selected context before) :
      R.Progress selected context' before := by
    obtain ⟨m, rfl⟩ := hcontext
    exact ⟨hp.covered, hp.items, hp.failed⟩
  have hlists : EachAfter (fun _ s => s.entry.definition = R.definition ∧
      (s.entry.state = R.state → ∀ items ∈ R.selection s, items = selected)) [] (ss ++ [s]) := by
    refine eachAfter_of_forall fun e he => ⟨h.definition e he, fun hstate => ?_⟩
    exact h.unchanged e (List.mem_filter.2 ⟨he, by simp [hstate]⟩)
  obtain ⟨context, -, -, hrun⟩ := h.run
  refine hsame h.since ?_
  exact Career.invariant (P := R.Progress selected) hsame
    (fun hQ henters hp => hp.entry henters hQ.1.1 hQ.2 hQ.1.2) hrun (hlists.and hown)
    Rollout.progress_nil

/-- The cursor is within the batches when the rollout is left, and the last execution has found all
    batches done or passed one on. -/
theorem cursor (h : R.Left cfg selected ss s inst t departure) (hown : R.OwnCursors (ss ++ [s]))
    (htold : s.entry.context.rulesYaml.isSome ∧ (listedNodes s.answers).isSome)
    (hsome : selected ≠ []) :
    R.Within (ss ++ [s]) inst.context.batchCursor ∧
      (s.plan = .batchesDone selected.length ∨ ∃ now, s.plan = .deploys now) := by
  have hexec := h.executes
  obtain ⟨rulesYaml, hrules⟩ := Option.isSome_iff_exists.1 htold.1
  obtain ⟨nodes, hlisted⟩ := Option.isSome_iff_exists.1 htold.2
  have hselection : R.selection s = some ((R.deploy.selected nodes).map Node.nodeId) := by
    rw [Rollout.selection, hlisted, Option.map_some]
  have hin : s ∈ R.own (ss ++ [s]) :=
    List.mem_filter.2 ⟨List.mem_append_right _ (List.mem_singleton_self _), by simp [h.entered]⟩
  have hids : (R.deploy.selected nodes).map Node.nodeId = selected :=
    h.unchanged s hin _ hselection
  have hlength : (R.deploy.selected nodes).length = selected.length := by
    simpa using congrArg List.length hids
  have hnodes : R.deploy.selected nodes ≠ [] := by
    intro hnil
    rw [hnil] at hids
    exact hsome hids.symm
  have hcursor : inst.context.batchCursor = s.inst.context.batchCursor := by
    obtain ⟨m, hm⟩ := h.since
    rw [hm]
    rfl
  obtain ⟨-, hbatches, -⟩ := Rollout.sweep_append_of_eq ss h.entered
  rw [hcursor]
  rcases hexec.cursor hrules hlisted hnodes with ⟨hplan, hsame⟩ | ⟨now, hplan, hnext⟩
  · rw [hsame, hlength.symm]
    refine ⟨((EachAfter.last hown) h.entered).imp_right ?_, .inl hplan⟩
    rintro ⟨b, hb, hstop⟩
    rw [hbatches]
    exact ⟨b, List.mem_append_left _ hb, hstop⟩
  · refine ⟨.inr ?_, .inr ⟨now, hplan⟩⟩
    obtain ⟨items, hitems, hbatch, -, -⟩ := hexec.batch hplan
    obtain rfl := Option.some.inj (hselection.symm.trans hitems)
    rw [hbatches, hbatch]
    refine ⟨_, List.mem_append_right _ (List.mem_singleton_self _), ?_⟩
    rw [hnext, List.length_map]
    exact Nat.mod_le _ _

/-- The last batch has succeeded because the guard has tested it: it is the last result, or no node
    has failed at all. -/
theorem succeeded (h : R.Left cfg selected ss s inst t departure)
    (hafter : AfterLastBatch R selected ss s inst departure) (hsome : selected ≠ []) :
    ∀ rs ∈ R.passes (ss ++ [s]), ∀ r ∈ rs, r.success = true := by
  have hexec := h.executes
  have hlists : inst.context.lists = s.inst.context.lists := h.since.lists
  have hresult : inst.context.lastActionResult = s.inst.context.lastActionResult :=
    congrArg (fun l => l.2.2) hlists
  obtain ⟨-, -, hpasses⟩ := Rollout.sweep_append_of_eq ss h.entered
  rcases (h.cursor hafter.own hafter.told hsome).2 with hdone | ⟨now, hplan⟩
  · -- all batches are done: the result counts the failed nodes of the instance
    have heffect := Entry.effect cfg hexec.enters
    rw [show planOf s.entry.action? s.entry.context (listedNodes s.answers) =
      .batchesDone selected.length from hdone] at heffect
    cases heffect with
    | batchesDone lists =>
      have hfailed : inst.context.failedNodes = s.entry.context.failedNodes :=
        (congrArg (fun l => l.2.1) hlists).trans (congrArg (fun l => l.2.1) lists)
      have hlast := hresult.trans (congrArg (fun l => l.2.2) lists)
      obtain ⟨hnone, -⟩ := (evaluateSimple_allSucceeded hlast).1 (h.guard hafter.tested)
      have hzero : inst.context.failedNodes.length = 0 := by
        have hcounted : asU32 inst.context.failedNodes.length = 0 := hfailed ▸ hnone
        rwa [asU32, Nat.mod_eq_of_lt hafter.fits] at hcounted
      intro rs hrs r hr
      by_contra hno
      have hlisted := (h.progress hafter.own).failed rs hrs r hr (by simpa using hno)
      rw [List.length_eq_zero_iff.1 hzero] at hlisted
      cases hlisted
  · -- the last batch has been passed on just now: the result is that of the batch
    have hresults : s.batchResults = some s.deploys := by rw [EntryStep.batchResults, hplan]
    have hearlier := hafter.earlier
    rw [hpasses, hresults, Option.toList_some] at hearlier ⊢
    rw [List.dropLast_concat] at hearlier
    obtain ⟨r, htallied, hdeploys, -, hlast, -⟩ := hexec.results hplan
    obtain ⟨hnone, -⟩ := (evaluateSimple_allSucceeded (hresult.trans hlast)).1
      (h.guard hafter.tested)
    intro rs hrs res hres
    rcases List.mem_append.1 hrs with hrs | hrs
    · exact hearlier rs hrs res hres
    · rw [List.mem_singleton.1 hrs, hdeploys] at hres
      exact htallied.all_success hnone res hres

end Rollout.Left

/-- **A rollout that is left after its last batch is complete**, if the batches before the last
    have succeeded. -/
theorem leavesComplete (cfg : ControllerConfig) : LeavesComplete cfg AfterLastBatch := by
  intro R selected ss s inst t departure h hafter n hn
  have hsome : selected ≠ [] := List.ne_nil_of_mem hn
  have hbehind := (h.progress hafter.own).behind
    (h.cursor hafter.own hafter.told hsome).1
  have hthrough : (R.sweep (ss ++ [s])).Throughout n := by
    intro items hitems
    obtain ⟨e, he, hselection⟩ := List.mem_filterMap.1 hitems
    rw [h.unchanged e he items hselection]
    exact hn
  have hpassed := hbehind.all hafter.last hn hthrough
  obtain ⟨r, hr, hid⟩ := List.mem_map.1 hpassed
  obtain ⟨rs, hrs, hr⟩ := List.mem_flatten.1 hr
  exact ⟨rs, hrs, r, hr, hid, h.succeeded hafter hsome rs hrs r hr⟩

end Law

/-! ## Rollouts to run -/

/-- The rollout by halves. -/
def rolloutByHalves : Rollout where
  definition := byHalves
  state := "staged"
  stateDef := ⟨some halves, [
    ⟨"staged", some (.simple ⟨none, none, some true⟩), none⟩,
    ⟨"done", some (.simple ⟨some true, none, none⟩), none⟩], false⟩
  action := halves
  deploy := ⟨⟨∅, none⟩, some 50, none⟩
  percent := 50
  defined := rfl
  acts := rfl
  deploys := rfl
  batched := rfl

/-- Two nodes that are online, and their agents. -/
def World.withPair : World MemoryStorage :=
  { (Pool.withFleet byHalves [onlineNode "n1" "agent:1", onlineNode "n2" "agent:2"]).shared with
    agents := (∅ : AList fun _ : String => AgentState)
      |>.insert "http://agent:1" (.boot "n1")
      |>.insert "http://agent:2" (.boot "n2") }

/-- The transition that leads on. -/
def onToDone : TransitionDefinition := ⟨"done", some (.simple ⟨some true, none, none⟩), none⟩

/-- A new instance that enters the rollout by halves, and then again. -/
def entriesByHalves [Extern] (again : List (String × List Ext)) : Option (List EntryStep) :=
  evalCareer plainConfig byHalves (.forDeployment "rules: [a]" none) (startOn 17 .compiled) again
    .withPair

/-- Both nodes are selected each time, and the guard holds after the last entry. -/
def leavesByHalves (ss : List EntryStep) (s : EntryStep) : Bool :=
  decide (s.entry.state = "staged" ∧ s.inst.currentState = "staged" ∧
    evaluateSimple allSucceeded s.inst.context = true ∧
    ∀ e ∈ ss ++ [s], rolloutByHalves.selection e = some ["n1", "n2"])

/-- The instance may leave through the transition that leads on. -/
theorem left_of_leavesByHalves [Extern] {again : List (String × List Ext)} {ss : List EntryStep}
    {s : EntryStep} (hss : entriesByHalves again = some (ss ++ [s]))
    (h : leavesByHalves ss s = true) :
    rolloutByHalves.Left plainConfig ["n1", "n2"] ss s s.inst onToDone (.fires 1) := by
  obtain ⟨hentered, hcurrent, hguard, hselection⟩ := of_decide_eq_true h
  obtain ⟨hrun, hdefinition⟩ := career_of_evalCareer hss
  constructor
  · exact hdefinition
  · exact ⟨_, ⟨rfl, rfl, rfl⟩, rfl, hrun⟩
  · exact hentered
  · intro e he items hitems
    rw [hselection e (List.mem_filter.1 he).1] at hitems
    exact (Option.some.inj hitems).symm
  · exact .refl _
  · exact hcurrent
  · exact ⟨_, rfl, rfl⟩
  · have hfires : (shouldFire s.inst.currentState 1 onToDone s.inst).Unfolds
        [⟨.observe, ⟨∅, 0⟩⟩] (.done (evaluateSimple allSucceeded s.inst.context,
          s.inst.setContext s.inst.context)) := .step (.refl _)
    rw [hguard] at hfires
    exact ⟨rfl, _, _, hfires⟩

/-- The second half comes after the first, and is the last; the first has succeeded. -/
def halvesInTurn (s s' : EntryStep) : Bool :=
  decide (s.entry.context.batchCursor = 0 ∧
    (∃ b ∈ (rolloutByHalves.sweep [s]).batches, s'.entry.context.batchCursor ≤ b.stop) ∧
    2 ≤ s'.inst.context.batchCursor ∧
    (∀ rs ∈ (rolloutByHalves.passes [s, s']).dropLast, ∀ r ∈ rs, r.success = true) ∧
    (s'.entry.context.rulesYaml.isSome ∧ (listedNodes s'.answers).isSome) ∧
    s'.inst.context.failedNodes.length < 2 ^ 32)

theorem afterLastBatch_of_halvesInTurn {s s' : EntryStep} (h : halvesInTurn s s' = true) :
    AfterLastBatch rolloutByHalves ["n1", "n2"] [s] s' s'.inst (.fires 1) := by
  obtain ⟨hfirst, hsecond, hlast, hearlier, htold, hfits⟩ := of_decide_eq_true h
  exact {
    own := ⟨fun _ => .inl hfirst, fun _ => .inr hsecond, trivial⟩
    last := hlast
    earlier := hearlier
    told := htold
    tested := fun _ hadvances => Departure.noConfusion hadvances
    fits := hfits }

/-- A run of two entries passes a check. -/
def checkPair (check : EntryStep → EntryStep → Bool) : List EntryStep → Bool
  | [s, s'] => check s s'
  | _ => false

theorem exists_of_checkPair {check : EntryStep → EntryStep → Bool} {ss : List EntryStep}
    (h : checkPair check ss = true) : ∃ s s', ss = [s, s'] ∧ check s s' = true := by
  rcases ss with _ | ⟨s, _ | ⟨s', _ | ⟨s'', ss⟩⟩⟩
  · cases h
  · cases h
  · exact ⟨s, s', rfl, h⟩
  · cases h

/-- Both halves succeed before the rollout is left. -/
theorem leavesComplete_twoBatches : ∃ ss s,
    @Rollout.Left .sample plainConfig rolloutByHalves ["n1", "n2"] ss s s.inst onToDone
      (.fires 1) ∧
    (rolloutByHalves.passes (ss ++ [s])).length = 2 ∧
    ∀ n ∈ ["n1", "n2"], ∃ rs ∈ rolloutByHalves.passes (ss ++ [s]), ∃ r ∈ rs,
      r.nodeId = n ∧ r.success = true := by
  have hrun : ((@entriesByHalves .sample
      [("staged", List.replicate 17 ⟨2, "d2", .compiled⟩)]).any (checkPair fun s s' =>
        leavesByHalves [s] s' && halvesInTurn s s' &&
          (rolloutByHalves.passes [s, s']).length == 2)) = true := by decide +kernel
  obtain ⟨ss, hss, hcheck⟩ := (Option.any_eq_true _ _).1 hrun
  obtain ⟨s, s', rfl, hcheck⟩ := exists_of_checkPair hcheck
  obtain ⟨hcheck, hlength⟩ := Bool.and_eq_true_iff.1 hcheck
  obtain ⟨hleaves, hturn⟩ := Bool.and_eq_true_iff.1 hcheck
  have hleft := @left_of_leavesByHalves .sample _ [s] s' hss hleaves
  exact ⟨[s], s', hleft, by simpa using hlength,
    @leavesComplete .sample plainConfig _ _ _ _ _ _ _ hleft (afterLastBatch_of_halvesInTurn hturn)⟩

/-- The first half succeeds, and the rollout is left without the second. -/
theorem not_leavesComplete :
    ¬ @LeavesComplete .sample plainConfig fun _ _ _ _ _ _ => True := by
  intro h
  have hrun : ((@entriesByHalves .sample []).any fun ss => ss.any fun s =>
      decide (ss.length = 1) && leavesByHalves [] s &&
        (rolloutByHalves.passes [s]).all fun rs => rs.all fun r => r.nodeId != "n2") = true := by
    decide +kernel
  obtain ⟨ss, hss, hcheck⟩ := (Option.any_eq_true _ _).1 hrun
  obtain ⟨s, hs, hcheck⟩ := List.any_eq_true.1 hcheck
  obtain ⟨hcheck, hmissed⟩ := Bool.and_eq_true_iff.1 hcheck
  obtain ⟨hlength, hleaves⟩ := Bool.and_eq_true_iff.1 hcheck
  obtain ⟨s₀, rfl⟩ := List.length_eq_one_iff.1 (of_decide_eq_true hlength)
  obtain rfl := List.mem_singleton.1 hs
  have hleft := @left_of_leavesByHalves .sample _ [] s hss hleaves
  obtain ⟨rs, hrs, r, hr, hid, -⟩ := h _ _ _ _ _ _ _ hleft trivial "n2" (by simp)
  have hother := List.all_eq_true.1 (List.all_eq_true.1 hmissed rs hrs) r hr
  simp [hid] at hother

end PaciNet

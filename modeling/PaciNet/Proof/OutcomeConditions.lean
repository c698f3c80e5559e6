import PaciNet.Lib.Serial
import PaciNet.Proof.DeployOutcome

/-!
# Outcome conditions

`all_succeeded` and `any_failed` look at the result of the last action, which an instance carries
in one place from state to state. An action that deploys or rolls back replaces it. An action that
finds nothing to do mostly leaves it alone: a deploy without rules, one whose nodes could not be
listed, a rollback of an instance that has deployed to no node; and so does a state that has no
such action. The conditions of the state are then about an earlier one.

**The result a condition reads is that of its own state exactly where the action of the state was
carried out.** What an operation reads is a list of answers, so this is about every run: whatever
the storage, the clock and the agents answer, and whatever others do in between.
-/

set_option autoImplicit false

namespace PaciNet

open Lib Prog

/-- An operation with its answer. -/
abbrev Answered := (o : Op) × o.Res

/-! ## Visits -/

/-- The way an instance gets into a state: a new one into the initial state of its definition, and
    any other by a transition. -/
inductive Entry where
  | started (defName : String) (definition : FsmDefinition) (context : FsmContext)
  | fired (inst : FsmInstance) (toState : String) (trigger : TransitionTrigger)
      (definition : FsmDefinition)

/-- The context without the result of the last action. -/
def FsmContext.forgetResult (context : FsmContext) : FsmContext :=
  { context with lastActionResult := none }

/-- The instance without the result of its last action. -/
def FsmInstance.forgetResult (inst : FsmInstance) : FsmInstance :=
  inst.setContext inst.context.forgetResult

namespace Entry

/-- The state that is entered, if its name is defined. -/
def stateDef? : Entry → Option StateDefinition
  | started _ definition _ => definition.states.lookup definition.initial
  | fired _ toState _ definition => definition.states.lookup toState

/-- The context in which the action of the state is executed. -/
def context : Entry → FsmContext
  | started _ _ context => context
  | fired inst _ _ _ => inst.context

/-- The same entry of an instance that carries no result yet. -/
def forgetResult : Entry → Entry
  | started defName definition context => started defName definition context.forgetResult
  | fired inst toState trigger definition => fired inst.forgetResult toState trigger definition

variable [Extern] (cfg : ControllerConfig)

/-- The entry, given the answers to its operations, and the instance that comes out of it. -/
def Enters : Entry → List Answered → FsmInstance → Prop
  | started defName definition context, es, inst =>
      (startFrom cfg defName definition context).Unfolds es (.done (.ok inst))
  | fired inst toState trigger definition, es, inst' =>
      (fireTransition cfg inst toState trigger definition).Unfolds es (.done inst')

/-- The action of the state produced the result: with these answers the entry ends with it also
    where there is no earlier result that it could have kept. -/
def Produced (e : Entry) (es : List Answered) (r : ActionResult) : Prop :=
  ∃ inst, e.forgetResult.Enters cfg es inst ∧ inst.context.lastActionResult = some r

end Entry

/-- The deploy or rollback of an action is carried out: a deploy has rules and was told the nodes,
    a rollback has nodes to work on. -/
def ActionDefinition.CarriedOut (action : ActionDefinition) (context : FsmContext)
    (es : List Answered) : Prop :=
  match action.deploy, action.rollback with
  | some deploy, _ =>
      context.rulesYaml.isSome ∧
        ∃ nodes, ⟨.storage (.listNodes deploy.select.label), .ok nodes⟩ ∈ es
  | none, some _ => context.deployedNodes ≠ []
  | none, none => False

/-- The state has a deploy or rollback action, and it was carried out on this entry. -/
def Entry.Acts (e : Entry) (es : List Answered) : Prop :=
  ∃ stateDef ∈ e.stateDef?, ∃ action ∈ stateDef.action, action.CarriedOut e.context es

/-- The visit of a state that began with an entry: from there the instance is evaluated, written
    and read back, and otherwise changed without a move, any number of times. An entry by a
    transition is out of a visit itself. -/
inductive Visit [Extern] (cfg : ControllerConfig) : Entry → List Answered → FsmInstance → Prop
  | started {defName : String} {definition : FsmDefinition} {context : FsmContext}
      {es : List Answered} {inst : FsmInstance} (fresh : context.lastActionResult = none)
      (enters : (Entry.started defName definition context).Enters cfg es inst) :
      Visit cfg (.started defName definition context) es inst
  | fired {e : Entry} {es es' : List Answered} {inst inst' : FsmInstance} {toState : String}
      {trigger : TransitionTrigger} {definition : FsmDefinition} (before : Visit cfg e es inst)
      (enters : (Entry.fired inst toState trigger definition).Enters cfg es' inst') :
      Visit cfg (.fired inst toState trigger definition) es' inst'
  | evaluated {e : Entry} {es es' : List Answered} {inst inst' : FsmInstance} {ti : Nat}
      {t : TransitionDefinition} {fires : Bool} (before : Visit cfg e es inst)
      (evaluates : (shouldFire inst.currentState ti t inst).Unfolds es' (.done (fires, inst'))) :
      Visit cfg e es inst'
  | kept {e : Entry} {es : List Answered} {inst inst' : FsmInstance} (before : Visit cfg e es inst)
      (context : inst'.context = inst.context)
      (currentState : inst'.currentState = inst.currentState) : Visit cfg e es inst'

/-- The evaluation of a condition comes to an outcome condition that is true, not under a `not`,
    and that decides or helps to decide it. -/
inductive ConditionDefinition.RestsOnOutcome (obs : Observation) (currentState : String)
    (ti : Nat) : ConditionDefinition → FsmContext → Prop
  | simple {simple : SimpleCondition} {context : FsmContext}
      (holds : evaluateSimple simple context = true) :
      RestsOnOutcome obs currentState ti (.simple simple) context
  | all {cs cs' : List ConditionDefinition} {c : ConditionDefinition}
      {or : Option (List ConditionDefinition)} {not : Option ConditionDefinition}
      {context context' : FsmContext}
      (before : evaluateAllOf obs currentState ti cs context = (true, context'))
      (rests : RestsOnOutcome obs currentState ti c context') :
      RestsOnOutcome obs currentState ti (.compound (some (cs ++ c :: cs')) or not) context
  | any {cs cs' : List ConditionDefinition} {c : ConditionDefinition}
      {not : Option ConditionDefinition} {context context' : FsmContext}
      (before : evaluateAnyOf obs currentState ti cs context = (false, context'))
      (decides : (evaluateCondition obs currentState ti c context').1 = true)
      (rests : RestsOnOutcome obs currentState ti c context') :
      RestsOnOutcome obs currentState ti (.compound none (some (cs ++ c :: cs')) not) context

/-- A transition of the definition out of the state fires because of an outcome condition. -/
def FsmInstance.FiresOnOutcome (inst : FsmInstance) (definition : FsmDefinition) : Prop :=
  ∃ (stateDef : StateDefinition) (ti : Nat) (t : TransitionDefinition)
    (cond : ConditionDefinition) (obs : Observation) (inst' : FsmInstance),
    definition.states.lookup inst.currentState = some stateDef ∧
      stateDef.transitions[ti]? = some t ∧ t.when? = some cond ∧
      (shouldFire inst.currentState ti t inst).Unfolds [⟨.observe, obs⟩] (.done (true, inst')) ∧
      cond.RestsOnOutcome obs inst.currentState ti inst.context

/-- The result that is read is one that the action of the state produced on this visit. -/
def Entry.OwnResult [Extern] (cfg : ControllerConfig) (e : Entry) (es : List Answered)
    (inst : FsmInstance) : Prop :=
  ∀ r, inst.context.lastActionResult = some r → e.Produced cfg es r

/-- Outcome conditions speak about the state they guard. -/
def OutcomesOwn [Extern] (cfg : ControllerConfig) : Prop :=
  ∀ e es inst definition, Visit cfg e es inst → inst.FiresOnOutcome definition →
    e.OwnResult cfg es inst

/-! ## An outcome condition reads a result -/

theorem SameButFirstTrue.lastActionResult {context context' : FsmContext}
    (h : SameButFirstTrue context context') :
    context'.lastActionResult = context.lastActionResult := by
  obtain ⟨m, rfl⟩ := h
  rfl

theorem evaluateSimple_reads {simple : SimpleCondition} {context : FsmContext}
    (h : evaluateSimple simple context = true) : ∃ r, context.lastActionResult = some r := by
  unfold evaluateSimple at h
  split at h
  · obtain ⟨r, hr, -⟩ := (Option.any_eq_true _ _).1 h
    exact ⟨r, hr⟩
  · split at h
    · obtain ⟨r, hr, -⟩ := (Option.any_eq_true _ _).1 h
      exact ⟨r, hr⟩
    · exact absurd h Bool.false_ne_true

theorem ConditionDefinition.RestsOnOutcome.reads {obs : Observation} {currentState : String}
    {ti : Nat} {cond : ConditionDefinition} {context : FsmContext}
    (h : cond.RestsOnOutcome obs currentState ti context) :
    ∃ r, context.lastActionResult = some r := by
  induction h with
  | simple holds => exact evaluateSimple_reads holds
  | @all cs _ _ _ _ context _ before _ ih =>
    have hsame := (evaluateAllOf_same obs currentState ti cs context).lastActionResult
    rw [before] at hsame
    rw [← hsame]
    exact ih
  | @any cs _ _ _ context _ before _ _ ih =>
    have hsame := (evaluateAnyOf_same obs currentState ti cs context).lastActionResult
    rw [before] at hsame
    rw [← hsame]
    exact ih

/-- Evaluating a transition changes nothing but the first-true times. -/
theorem shouldFire_same {currentState : String} {ti : Nat} {t : TransitionDefinition}
    {inst inst' : FsmInstance} {fires : Bool} {es : List Answered}
    (h : (shouldFire currentState ti t inst).Unfolds es (.done (fires, inst'))) :
    ∃ context, SameButFirstTrue inst.context context ∧ inst' = inst.setContext context := by
  unfold shouldFire at h
  split at h
  · obtain ⟨obs, es', rfl, hk⟩ := h.call_inv
    cases hk.done_inv.2
    exact ⟨_, evaluateCondition_same .., rfl⟩
  · split at h
    · obtain ⟨now, es', rfl, hk⟩ := h.call_inv
      cases hk.done_inv.2
      exact ⟨_, .refl _, rfl⟩
    · cases h.done_inv.2
      exact ⟨_, .refl _, rfl⟩
  · cases h.done_inv.2
    exact ⟨_, .refl _, rfl⟩

/-! ## An action does not look at the earlier result -/

/-- The result of the action, or the one from before it where it has none. -/
def FsmContext.orResult (context : FsmContext) (r : Option ActionResult) : FsmContext :=
  { context with lastActionResult := context.lastActionResult.or r }

def FsmInstance.orResult (inst : FsmInstance) (r : Option ActionResult) : FsmInstance :=
  inst.setContext (inst.context.orResult r)

section Actions

variable [Extern] (cfg : ControllerConfig) (r : Option ActionResult)

/-- Keep an earlier result where a program ends without one. -/
def orEarlier (p : Proc FsmContext) : Proc FsmContext :=
  p.bind fun context => .done (context.orResult r)

theorem deploySelected_forget (inst : FsmInstance) (context : FsmContext) (selected : List Node)
    (rulesYaml : String) : deploySelected cfg inst context selected rulesYaml =
      orEarlier r (deploySelected cfg inst.forgetResult context.forgetResult selected rulesYaml) := by
  simp only [orEarlier, deploySelected, Prog.bind_eq, Prog.pure_eq, Prog.bind_assoc]
  rfl

theorem deployBatch_forget (inst : FsmInstance) (percent : Nat) (selected : List Node)
    (rulesYaml : String) : deployBatch cfg inst percent selected rulesYaml =
      orEarlier r (deployBatch cfg inst.forgetResult percent selected rulesYaml) := by
  simp only [orEarlier, deployBatch, Prog.bind_eq, Prog.bind_assoc]
  congr 1
  funext u
  by_cases hdone : inst.context.batchCursor ≥ selected.length
  · have hdone' : inst.forgetResult.context.batchCursor ≥ selected.length := hdone
    rw [if_pos hdone, if_pos hdone']
    rfl
  · have hdone' : ¬ inst.forgetResult.context.batchCursor ≥ selected.length := hdone
    rw [if_neg hdone, if_neg hdone']
    exact deploySelected_forget cfg r _ _ _ _

theorem executeDeploy_forget (action : DeployAction) (inst : FsmInstance) :
    executeDeploy cfg action inst =
      orEarlier inst.context.lastActionResult (executeDeploy cfg action inst.forgetResult) := by
  have hrules : inst.forgetResult.context.rulesYaml = inst.context.rulesYaml := rfl
  unfold executeDeploy
  rw [hrules]
  cases inst.context.rulesYaml with
  | none => rfl
  | some rulesYaml =>
    simp only [orEarlier, Prog.bind_eq, Prog.bind_assoc]
    congr 1
    funext nodes
    rcases nodes with e | _ | ⟨node, nodes⟩
    · rfl
    · rfl
    · simp only
      cases action.batchPercent with
      | none => exact deploySelected_forget cfg _ _ _ _ _
      | some percent => exact deployBatch_forget cfg _ _ _ _ _

theorem executeRollback_forget (action : RollbackAction) (inst : FsmInstance) :
    executeRollback cfg action inst =
      orEarlier inst.context.lastActionResult (executeRollback cfg action inst.forgetResult) := by
  simp only [executeRollback, orEarlier]
  show _ = (ite (inst.context.deployedNodes = []) _ _ : Proc FsmContext).bind _
  split
  · rfl
  · simp only [Prog.bind_eq, Prog.bind_assoc]
    rfl

/-- **What an action does, it does whatever the earlier result is**, and where it has no result
    of its own the earlier one is left. -/
theorem executeActionOf_forget (stateDef : StateDefinition) (inst : FsmInstance) :
    executeActionOf cfg stateDef inst =
      orEarlier inst.context.lastActionResult
        (executeActionOf cfg stateDef inst.forgetResult) := by
  unfold executeActionOf
  cases stateDef.action with
  | none => rfl
  | some action =>
    simp only [executeAction, orEarlier, Prog.bind_eq, Prog.bind_assoc]
    congr 1
    funext u
    cases action.deploy with
    | some deploy => exact executeDeploy_forget cfg deploy inst
    | none =>
      cases action.rollback with
      | some rollback => exact executeRollback_forget cfg rollback inst
      | none =>
        cases action.alert with
        | some alert =>
          simp only [Prog.bind_assoc]
          rfl
        | none => rfl

omit [Extern] in
theorem completeIfTerminal_orResult (stateDef : StateDefinition) (inst : FsmInstance) :
    completeIfTerminal cfg stateDef (inst.orResult r) =
      (completeIfTerminal cfg stateDef inst).bind fun inst => .done (inst.orResult r) := by
  simp only [completeIfTerminal]
  split
  · simp only [Prog.bind_eq, Prog.bind_assoc]
    rfl
  · rfl

theorem enterState_forget (stateDef : StateDefinition) (inst : FsmInstance) :
    enterState cfg stateDef inst =
      (enterState cfg stateDef inst.forgetResult).bind fun inst' =>
        .done (inst'.orResult inst.context.lastActionResult) := by
  simp only [enterState, Prog.bind_eq, Prog.bind_assoc]
  rw [executeActionOf_forget, orEarlier, Prog.bind_assoc]
  congr 1
  funext context
  exact completeIfTerminal_orResult cfg _ stateDef (inst.setContext context)

theorem fireTransition_forget (inst : FsmInstance) (toState : String)
    (trigger : TransitionTrigger) (definition : FsmDefinition) :
    fireTransition cfg inst toState trigger definition =
      (fireTransition cfg inst.forgetResult toState trigger definition).bind fun inst' =>
        .done (inst'.orResult inst.context.lastActionResult) := by
  simp only [fireTransition, Prog.bind_eq, Prog.bind_assoc]
  congr 1
  funext now
  congr 1
  funext u
  cases definition.states.lookup toState with
  | none => rfl
  | some stateDef => exact enterState_forget cfg stateDef _

end Actions

/-! ## The actions that have a result -/

/-- The operation does not list nodes. -/
def Op.NotListing : Op → Prop
  | .storage (.listNodes _) => False
  | _ => True

section Results

variable [Extern] (cfg : ControllerConfig) {es : List Answered} {context : FsmContext}

omit [Extern] in
theorem emitFsm_notListing (e : DateTime → FsmEvent) : (emitFsm cfg e).Calls Op.NotListing := by
  unfold emitFsm
  split
  · exact ⟨trivial, fun _ => ⟨trivial, fun _ => trivial⟩⟩
  · trivial

theorem deploySelected_result {inst : FsmInstance} {start : FsmContext} {selected : List Node}
    {rulesYaml : String}
    (h : (deploySelected cfg inst start selected rulesYaml).Unfolds es (.done context)) :
    context.lastActionResult.isSome := by
  simp only [deploySelected, Prog.bind_eq, Prog.pure_eq] at h
  obtain ⟨es₁, es₂, result, rfl, -, h₁⟩ := Prog.unfolds_bind.1 h
  obtain ⟨_, es₃, rfl, h₂⟩ := h₁.call_inv
  rw [Prog.done_bind] at h₂
  obtain ⟨es₄, es₅, _, rfl, -, h₃⟩ := Prog.unfolds_bind.1 h₂
  cases h₃.done_inv.2
  rfl

theorem deployBatch_result {inst : FsmInstance} {percent : Nat} {selected : List Node}
    {rulesYaml : String}
    (h : (deployBatch cfg inst percent selected rulesYaml).Unfolds es (.done context)) :
    context.lastActionResult.isSome := by
  obtain ⟨_, es₁, rfl, h₁⟩ := h.call_inv
  rw [Prog.done_bind] at h₁
  split at h₁
  · cases h₁.done_inv.2
    rfl
  · exact deploySelected_result cfg h₁

theorem executeDeploy_result {action : DeployAction} {inst : FsmInstance}
    (hnone : inst.context.lastActionResult = none)
    (h : (executeDeploy cfg action inst).Unfolds es (.done context)) :
    context.lastActionResult.isSome ↔ inst.context.rulesYaml.isSome ∧
      ∃ nodes, ⟨.storage (.listNodes action.select.label), .ok nodes⟩ ∈ es := by
  unfold executeDeploy at h
  split at h
  · rename_i hrules
    cases h.done_inv.2
    simp [hrules, hnone]
  · rename_i rulesYaml hrules
    obtain ⟨nodes, es₁, rfl, h₁⟩ := h.call_inv
    rcases nodes with e | nodes
    · obtain ⟨rfl, heq⟩ := h₁.done_inv
      cases heq
      simp [hnone]
    · refine iff_of_true ?_ ⟨Option.isSome_of_mem hrules, nodes, List.mem_cons_self⟩
      rw [Prog.done_bind] at h₁
      cases nodes with
      | nil =>
        cases h₁.done_inv.2
        rfl
      | cons node nodes =>
        simp only at h₁
        split at h₁
        · exact deploySelected_result cfg h₁
        · exact deployBatch_result cfg h₁

theorem executeRollback_result {action : RollbackAction} {inst : FsmInstance}
    (hnone : inst.context.lastActionResult = none)
    (h : (executeRollback cfg action inst).Unfolds es (.done context)) :
    context.lastActionResult.isSome ↔ inst.context.deployedNodes ≠ [] := by
  unfold executeRollback at h
  simp only at h
  split at h
  · rename_i hempty
    cases h.done_inv.2
    simp [hnone, hempty]
  · rename_i hnodes
    obtain ⟨es₁, es₂, out, rfl, -, h₁⟩ := Prog.unfolds_bind.1 h
    cases h₁.done_inv.2
    exact iff_of_true rfl hnodes

omit [Extern] in
/-- Only the answers to requests for nodes matter. -/
theorem carriedOut_append (action : ActionDefinition) (context : FsmContext)
    (es₁ es es₂ : List Answered) (h₁ : ∀ e ∈ es₁, e.1.NotListing) (h₂ : ∀ e ∈ es₂, e.1.NotListing) :
    action.CarriedOut context (es₁ ++ (es ++ es₂)) ↔ action.CarriedOut context es := by
  unfold ActionDefinition.CarriedOut
  split
  · rename_i deploy _ _
    refine and_congr_right fun _ => exists_congr fun nodes => ?_
    rw [List.mem_append, List.mem_append]
    constructor
    · rintro (hmem | hmem | hmem)
      · exact absurd (h₁ _ hmem) id
      · exact hmem
      · exact absurd (h₂ _ hmem) id
    · exact fun hmem => .inr (.inl hmem)
  · exact Iff.rfl
  · exact Iff.rfl

theorem executeAction_result {action : ActionDefinition} {inst : FsmInstance}
    (hnone : inst.context.lastActionResult = none)
    (h : (executeAction cfg action inst).Unfolds es (.done context)) :
    context.lastActionResult.isSome ↔ action.CarriedOut inst.context es := by
  obtain ⟨u, es₁, rfl, h₁⟩ := h.call_inv
  rw [Prog.done_bind] at h₁
  have hmark := carriedOut_append action inst.context
    [⟨.mark (.startAction inst.instanceId inst.currentState), u⟩] es₁ []
    (fun e he => by rw [List.mem_singleton.1 he]; trivial) (fun e he => absurd he List.not_mem_nil)
  rw [List.append_nil, List.singleton_append] at hmark
  rw [hmark]
  unfold ActionDefinition.CarriedOut
  cases hdeploy : action.deploy with
  | some deploy =>
    rw [hdeploy] at h₁
    exact executeDeploy_result cfg hnone h₁
  | none =>
    rw [hdeploy] at h₁
    cases hrollback : action.rollback with
    | some rollback =>
      rw [hrollback] at h₁
      exact executeRollback_result cfg hnone h₁
    | none =>
      rw [hrollback] at h₁
      refine iff_of_false ?_ id
      cases halert : action.alert with
      | none =>
        rw [halert] at h₁
        cases h₁.done_inv.2
        simp [hnone]
      | some alert =>
        rw [halert] at h₁
        obtain ⟨es₂, es₃, _, rfl, -, h₂⟩ := Prog.unfolds_bind.1 h₁
        cases h₂.done_inv.2
        simp [hnone]

theorem executeActionOf_result {stateDef : StateDefinition} {inst : FsmInstance}
    (hnone : inst.context.lastActionResult = none)
    (h : (executeActionOf cfg stateDef inst).Unfolds es (.done context)) :
    context.lastActionResult.isSome ↔
      ∃ action ∈ stateDef.action, action.CarriedOut inst.context es := by
  unfold executeActionOf at h
  cases haction : stateDef.action with
  | none =>
    rw [haction] at h
    cases h.done_inv.2
    simp [hnone]
  | some action =>
    rw [haction] at h
    rw [executeAction_result cfg hnone h]
    simp

theorem enterState_result {stateDef : StateDefinition} {inst inst' : FsmInstance}
    (hnone : inst.context.lastActionResult = none)
    (h : (enterState cfg stateDef inst).Unfolds es (.done inst')) :
    inst'.context.lastActionResult.isSome ↔
      ∃ action ∈ stateDef.action, action.CarriedOut inst.context es := by
  obtain ⟨es₁, es₂, context, rfl, h₁, h₂⟩ := Prog.unfolds_bind.1 h
  have hcontext : inst'.context = context ∧ ∀ e ∈ es₂, e.1.NotListing := by
    unfold completeIfTerminal at h₂
    split at h₂
    · obtain ⟨es₃, es₄, _, rfl, hemit, h₃⟩ := Prog.unfolds_bind.1 h₂
      obtain ⟨rfl, heq⟩ := h₃.done_inv
      cases heq
      refine ⟨rfl, ?_⟩
      rw [List.append_nil]
      exact hemit.calls (emitFsm_notListing cfg _)
    · obtain ⟨rfl, heq⟩ := h₂.done_inv
      cases heq
      exact ⟨rfl, fun e he => absurd he List.not_mem_nil⟩
  rw [hcontext.1, executeActionOf_result cfg hnone h₁]
  refine exists_congr fun action => and_congr_right fun _ => ?_
  have hrest := carriedOut_append action inst.context [] es₁ es₂
    (fun e he => absurd he List.not_mem_nil) hcontext.2
  exact hrest.symm

theorem fireTransition_result {inst inst' : FsmInstance} {toState : String}
    {trigger : TransitionTrigger} {definition : FsmDefinition}
    (hnone : inst.context.lastActionResult = none)
    (h : (fireTransition cfg inst toState trigger definition).Unfolds es (.done inst')) :
    inst'.context.lastActionResult.isSome ↔
      (Entry.fired inst toState trigger definition).Acts es := by
  obtain ⟨now, es₁, rfl, h₁⟩ := h.call_inv
  rw [Prog.done_bind] at h₁
  obtain ⟨es₂, es₃, _, rfl, hemit, h₂⟩ := Prog.unfolds_bind.1 h₁
  show _ ↔ ∃ stateDef ∈ definition.states.lookup toState, _
  cases hstate : definition.states.lookup toState with
  | none =>
    rw [hstate] at h₂
    cases h₂.done_inv.2
    refine iff_of_false ?_ (by simp)
    show ¬ inst.context.lastActionResult.isSome = true
    simp [hnone]
  | some stateDef =>
    rw [hstate] at h₂
    have hbefore : ∀ e ∈ (⟨.now, now⟩ :: es₂ : List Answered), e.1.NotListing := by
      intro e he
      rcases List.mem_cons.1 he with rfl | he
      · trivial
      · exact hemit.calls (emitFsm_notListing cfg _) e he
    have hentered := enterState_result cfg (by exact hnone) h₂
    simp only [Option.mem_def, Option.some.injEq, exists_eq_left']
    rw [hentered]
    refine exists_congr fun action => and_congr_right fun _ => ?_
    have hrest := carriedOut_append action inst.context _ es₃ [] hbefore
      (fun e he => absurd he List.not_mem_nil)
    rw [List.append_nil] at hrest
    exact hrest.symm

/-- The action of the initial state, if it is defined. -/
def executeInitial (definition : FsmDefinition) (inst : FsmInstance) : Proc FsmContext :=
  match definition.states.lookup definition.initial with
  | none => .done inst.context
  | some stateDef => executeActionOf cfg stateDef inst

/-- The action of the initial state, and the write after it. -/
theorem startFrom_eq (defName : String) (definition : FsmDefinition) (context : FsmContext) :
    startFrom cfg defName definition context =
      (op .now).bind fun now => (op .uuid).bind fun id =>
        (executeInitial cfg definition
          (.new now id defName definition.initial context)).bind fun context' =>
        (storage (.storeFsmInstance ((FsmInstance.new now id defName definition.initial
            context).setContext context'))).bind fun
          | .error e => .done (.error (internalError e))
          | .ok () => .done (.ok ((FsmInstance.new now id defName definition.initial
              context).setContext context')) := by
  simp only [startFrom, executeInitial, Prog.bind_eq, Prog.pure_eq]
  congr 1
  funext now
  congr 1
  funext id
  cases definition.states.lookup definition.initial <;> simp only
  all_goals
    congr 1
    funext context'
    congr 1
    funext stored
    cases stored <;> rfl

theorem startFrom_result {defName : String} {definition : FsmDefinition} {inst : FsmInstance}
    (hnone : context.lastActionResult = none)
    (h : (startFrom cfg defName definition context).Unfolds es (.done (.ok inst))) :
    inst.context.lastActionResult.isSome ↔
      (Entry.started defName definition context).Acts es := by
  rw [startFrom_eq] at h
  obtain ⟨now, es₁, rfl, h₁⟩ := h.call_inv
  rw [Prog.done_bind] at h₁
  obtain ⟨id, es₂, rfl, h₂⟩ := h₁.call_inv
  rw [Prog.done_bind] at h₂
  obtain ⟨es₃, es₄, context', rfl, h₃, h₄⟩ := Prog.unfolds_bind.1 h₂
  obtain ⟨stored, es₅, rfl, h₅⟩ := h₄.call_inv
  rw [Prog.done_bind] at h₅
  have hstored : es₅ = [] ∧ inst.context = context' := by
    cases stored with
    | error e => exact absurd h₅.done_inv.2 (by simp)
    | ok u =>
      obtain ⟨rfl, heq⟩ := h₅.done_inv
      cases heq
      exact ⟨rfl, rfl⟩
  obtain ⟨rfl, hcontext⟩ := hstored
  rw [hcontext]
  show _ ↔ ∃ stateDef ∈ definition.states.lookup definition.initial, _
  unfold executeInitial at h₃
  cases hstate : definition.states.lookup definition.initial with
  | none =>
    rw [hstate] at h₃
    cases h₃.done_inv.2
    refine iff_of_false ?_ (by simp)
    show ¬ context.lastActionResult.isSome = true
    simp [hnone]
  | some stateDef =>
    rw [hstate] at h₃
    rw [executeActionOf_result cfg hnone h₃]
    simp only [Option.mem_def, Option.some.injEq, exists_eq_left']
    refine exists_congr fun action => and_congr_right fun _ => ?_
    have hrest := carriedOut_append action context [⟨.now, now⟩, ⟨.uuid, id⟩] es₃ [⟨_, stored⟩]
      (fun e he => by
        rcases List.mem_pair.1 he with rfl | rfl <;> trivial)
      (fun e he => by rw [List.mem_singleton.1 he]; trivial)
    exact hrest.symm

end Results

/-! ## Whose result it is -/

section Visits

variable [Extern] {cfg : ControllerConfig} {e : Entry} {es : List Answered} {inst : FsmInstance}

theorem Entry.result_iff (hnone : e.context.lastActionResult = none)
    (h : e.Enters cfg es inst) : inst.context.lastActionResult.isSome ↔ e.Acts es := by
  cases e with
  | started => exact startFrom_result cfg hnone h
  | fired => exact fireTransition_result cfg hnone h

omit [Extern] in
theorem Entry.acts_forgetResult : e.forgetResult.Acts es ↔ e.Acts es := by
  cases e <;> exact Iff.rfl

omit [Extern] in
theorem Entry.context_forgetResult : e.forgetResult.context.lastActionResult = none := by
  cases e <;> rfl

/-- **What an instance carries through a visit** is what the action of the state had for a result,
    and where it had none, what was there on entry. -/
theorem Visit.carries (h : Visit cfg e es inst) :
    ∃ inst', e.forgetResult.Enters cfg es inst' ∧ inst.context.lastActionResult =
      inst'.context.lastActionResult.or e.context.lastActionResult := by
  induction h with
  | @started defName definition context es inst fresh enters =>
    have hforget : context.forgetResult = context := by
      cases context
      cases fresh
      rfl
    refine ⟨inst, ?_, ?_⟩
    · show (startFrom cfg defName definition context.forgetResult).Unfolds es _
      rw [hforget]
      exact enters
    · show _ = inst.context.lastActionResult.or context.lastActionResult
      rw [fresh, Option.or_none]
  | @fired e es es' inst inst' toState trigger definition before enters ih =>
    have henters : (fireTransition cfg inst toState trigger definition).Unfolds es' (.done inst') :=
      enters
    rw [fireTransition_forget] at henters
    obtain ⟨inst₁, hinst₁, rfl⟩ := Prog.unfolds_map.1 henters
    exact ⟨inst₁, hinst₁, rfl⟩
  | evaluated before evaluates ih =>
    obtain ⟨context, hsame, rfl⟩ := shouldFire_same evaluates
    rw [FsmInstance.setContext_context, hsame.lastActionResult]
    exact ih
  | kept before context _ ih =>
    rw [context]
    exact ih

/-- A result of its own has been left by an action that was carried out. -/
theorem Entry.Produced.acts {r : ActionResult} (h : e.Produced cfg es r) : e.Acts es := by
  obtain ⟨inst', henters, hr⟩ := h
  refine Entry.acts_forgetResult.1 ((Entry.result_iff Entry.context_forgetResult henters).1 ?_)
  exact Option.isSome_of_mem hr

/-- **Outcome conditions speak about the state they guard exactly where its action was carried
    out.** -/
theorem ownResult_iff (hvisit : Visit cfg e es inst) {definition : FsmDefinition}
    (hfires : inst.FiresOnOutcome definition) : e.OwnResult cfg es inst ↔ e.Acts es := by
  obtain ⟨_, _, _, _, _, _, -, -, -, -, hrests⟩ := hfires
  obtain ⟨r, hr⟩ := hrests.reads
  obtain ⟨inst', henters, hcarried⟩ := hvisit.carries
  constructor
  · intro hown
    exact (hown r hr).acts
  · intro hacts r₁ hr₁
    have hsome := (Entry.result_iff Entry.context_forgetResult henters).2
      (Entry.acts_forgetResult.2 hacts)
    obtain ⟨r', hr'⟩ := Option.isSome_iff_exists.1 hsome
    rw [hr', Option.some_or, hr₁] at hcarried
    exact ⟨inst', henters, hr'.trans hcarried.symm⟩

end Visits

/-! ## A rollout that is reverted -/

/-- Deploy everywhere, and roll back where a deploy failed. -/
def revertible : FsmDefinition where
  name := "revertible"
  description := ""
  kind := .deployment
  initial := "rollout"
  states := (∅ : AList fun _ : String => StateDefinition)
    |>.insert "stuck" ⟨none, [], true⟩
    |>.insert "done" ⟨none, [], true⟩
    |>.insert "revert" ⟨some ⟨none, some ⟨.previous⟩, none⟩, [
      ⟨"stuck", some (.simple ⟨none, some true, none⟩), none⟩,
      ⟨"done", some (.simple ⟨some true, none, none⟩), none⟩], false⟩
    |>.insert "rollout" ⟨some ⟨some ⟨⟨∅, none⟩, none, none⟩, none, none⟩, [
      ⟨"revert", some (.simple ⟨none, some true, none⟩), none⟩,
      ⟨"done", some (.simple ⟨some true, none, none⟩), none⟩], false⟩

example : revertible.validate = .ok () := by decide +kernel

/-- A new instance of it. -/
def startRevertible : Entry := .started "revertible" revertible (.forDeployment "rules: [a]" none)

/-- The instance is in the state, a deploy to some node has failed and none has succeeded. -/
def FsmInstance.failedIn (inst : FsmInstance) (state : String) : Bool :=
  inst.currentState == state && inst.context.deployedNodes.isEmpty &&
    inst.context.lastActionResult.any fun r => r.failed > 0

/-- Then the first transition out of either state fires. -/
theorem fires_anyFailed {inst : FsmInstance} {state : String}
    (hstate : state = "rollout" ∨ state = "revert") (hfailed : inst.failedIn state = true) :
    inst.FiresOnOutcome revertible := by
  obtain ⟨hbefore, hholds⟩ := Bool.and_eq_true_iff.1 hfailed
  have hcurrent : inst.currentState = state := beq_iff_eq.1 (Bool.and_eq_true_iff.1 hbefore).1
  obtain ⟨stateDef, toState, hlookup, ht⟩ : ∃ stateDef toState,
      revertible.states.lookup state = some stateDef ∧
      stateDef.transitions[0]? = some ⟨toState, some (.simple ⟨none, some true, none⟩), none⟩ := by
    rcases hstate with rfl | rfl
    · exact ⟨_, _, rfl, rfl⟩
    · exact ⟨_, _, rfl, rfl⟩
  refine ⟨stateDef, 0, _, _, ⟨∅, 0⟩, inst, hcurrent ▸ hlookup, ht, rfl, ?_, .simple hholds⟩
  have hfires : shouldFire inst.currentState 0
      ⟨toState, some (.simple ⟨none, some true, none⟩), none⟩ inst =
        (op .observe).bind fun _ => .done (evaluateSimple ⟨none, some true, none⟩ inst.context, inst) :=
    rfl
  have hverdict : evaluateSimple ⟨none, some true, none⟩ inst.context = true := hholds
  rw [hfires, hverdict]
  exact .step (.refl _)

/-- The deploy of a new instance fails on the only node. -/
theorem exists_failedRollout : ∃ es inst,
    @Entry.Enters .sample plainConfig startRevertible es inst ∧
      inst.failedIn "rollout" = true := by
  obtain ⟨es, r, w', hunfolds, -, hcheck⟩ := Machine.exists_unfolds
    (@machine MemoryStorage .sample _)
    ([.quiet 0 "", .quiet 0 "i1"] ++ List.replicate 16 (.quiet 1 "d1"))
    (@startFrom .sample plainConfig "revertible" revertible (.forDeployment "rules: [a]" none))
    (.withAgent (MemoryStorage.new.registerNode registeredN1).2)
    (fun r _ => r.toOption.any fun inst => inst.failedIn "rollout") (by decide +kernel)
  cases r with
  | error e => exact absurd hcheck (by simp [Except.toOption])
  | ok inst => exact ⟨es, inst, hunfolds, hcheck⟩

/-- In the first state the result is that of its deploy. -/
theorem ownResult_rollout : ∃ es inst,
    @Visit .sample plainConfig startRevertible es inst ∧ inst.FiresOnOutcome revertible ∧
      @Entry.OwnResult .sample plainConfig startRevertible es inst := by
  obtain ⟨es, inst, henters, hfailed⟩ := exists_failedRollout
  have hvisit : @Visit .sample plainConfig startRevertible es inst :=
    @Visit.started .sample _ _ _ _ _ _ rfl henters
  have hfires := fires_anyFailed (.inl rfl) hfailed
  have hresult : inst.context.lastActionResult.isSome := by
    obtain ⟨r, hr, -⟩ := (Option.any_eq_true _ _).1 (Bool.and_eq_true_iff.1 hfailed).2
    exact Option.isSome_of_mem hr
  exact ⟨es, inst, hvisit, hfires, (@ownResult_iff .sample _ _ _ _ hvisit _ hfires).2
    ((@Entry.result_iff .sample _ _ _ _ rfl henters).1 hresult)⟩

/-- The rollback of an instance that has deployed to no node returns at once. -/
theorem enters_revert [Extern] {inst : FsmInstance} (hnone : inst.context.deployedNodes = []) :
    ∃ es inst', (Entry.fired inst "revert" .condition revertible).Enters plainConfig es inst' ∧
      inst'.currentState = "revert" ∧ inst'.context.deployedNodes = [] ∧
      inst'.context.lastActionResult = inst.context.lastActionResult := by
  let moved := (inst.setContext (inst.context.forgetState inst.currentState)).transition 1 "revert"
    .condition (inst.currentState ++ " -> " ++ "revert" ++ " (" ++ "condition" ++ ")")
  have hrollback : executeRollback plainConfig ⟨.previous⟩ moved = .done moved.context :=
    if_pos hnone
  refine ⟨[⟨.now, 1⟩, ⟨.mark (.startAction inst.instanceId "revert"), ()⟩], moved, ?_, rfl, hnone,
    rfl⟩
  refine .step (.step ?_)
  show (Prog.bind (executeRollback plainConfig ⟨.previous⟩ moved) _).Unfolds _ _
  rw [hrollback]
  exact .refl _

/-- Where the rollback finds nothing to roll back, its `any_failed` fires on the result of the
    deploy. -/
theorem not_outcomesOwn : ¬ @OutcomesOwn .sample plainConfig := by
  intro hown
  obtain ⟨es, inst, henters, hfailed⟩ := exists_failedRollout
  obtain ⟨hbefore, hany⟩ := Bool.and_eq_true_iff.1 hfailed
  have hnone : inst.context.deployedNodes = [] :=
    List.isEmpty_iff.1 (Bool.and_eq_true_iff.1 hbefore).2
  obtain ⟨es', inst', hrevert, hstate, hnone', hresult⟩ := @enters_revert .sample _ hnone
  have hvisit' : @Visit .sample plainConfig (.fired inst "revert" .condition revertible) es' inst' :=
    @Visit.fired .sample _ _ _ _ _ _ _ _ _ (@Visit.started .sample _ _ _ _ _ _ rfl henters) hrevert
  have hfires : inst'.FiresOnOutcome revertible := by
    apply fires_anyFailed (.inr rfl)
    rw [FsmInstance.failedIn, hstate, hnone', hresult, hany]
    rfl
  -- the rollback was not carried out, so the result cannot be its own
  obtain ⟨r, hr, -⟩ := (Option.any_eq_true _ _).1 hany
  have hproduced := hown _ _ _ _ hvisit' hfires r (hresult.trans hr)
  obtain ⟨stateDef, hdef, action, haction, hcarried⟩ :=
    @Entry.Produced.acts .sample _ _ _ _ hproduced
  cases hdef
  cases haction
  exact hcarried hnone

end PaciNet

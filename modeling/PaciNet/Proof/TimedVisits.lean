import PaciNet.Proof.ActionContexts
import PaciNet.Proof.Timers

/-!
# The timers of a visit

An instance enters a state, and from then on its transitions are evaluated, each any number of
times, until a transition leads out of the state or back into it. **On entry no timer is running,
and between two evaluations of a transition its timer is left as it is** (`TimedVisit.linked`):
leaving a state forgets its timers, the action of a state touches none, and evaluating a
transition touches its own only.
-/

set_option autoImplicit false

namespace PaciNet

open Lib Prog

/-! ## Entering a state -/

section Entering

variable [Extern] (cfg : ControllerConfig) {es : List Answered} {context : FsmContext}

omit [Extern] in
/-- Actions touch no timer. -/
theorem keptByActions_firstTrue (m : AList fun _ : String => DateTime) :
    KeptByActions fun context => context.counterConditionFirstTrue = m where
  result _ h := h
  cursor _ h := h
  deployed _ h := h

/-- A transition forgets the timers of the state it leaves, and touches no others. -/
theorem fireTransition_firstTrue {inst inst' : FsmInstance} {toState : String}
    {trigger : TransitionTrigger} {definition : FsmDefinition}
    (h : (fireTransition cfg inst toState trigger definition).Unfolds es (.done inst')) :
    inst'.context.counterConditionFirstTrue =
      (inst.context.forgetState inst.currentState).counterConditionFirstTrue :=
  (keptByActions_firstTrue _).fireTransition h rfl

/-- A new instance has the timers of the context it is made with. -/
theorem startFrom_firstTrue {defName : String} {definition : FsmDefinition} {inst : FsmInstance}
    (h : (startFrom cfg defName definition context).Unfolds es (.done (.ok inst))) :
    inst.context.counterConditionFirstTrue = context.counterConditionFirstTrue :=
  (keptByActions_firstTrue _).startFrom h rfl

end Entering

/-! ## Visits -/

/-- The transition of a state with an index. -/
def FsmDefinition.transition? (definition : FsmDefinition) (state : String) (ti : Nat) :
    Option TransitionDefinition :=
  (definition.states.lookup state).bind fun stateDef => stateDef.transitions[ti]?

/-- One evaluation of a transition: what was observed, and the context it was evaluated in. -/
structure Evaluated where
  ti : Nat
  obs : Observation
  context : FsmContext

/-- The visit of a state of the definition, and the evaluations of its transitions so far. A visit
    begins when the state is entered, be it from the state itself; between the evaluations the
    instance is written and read back, and otherwise changed without a move. -/
inductive TimedVisit [Extern] (cfg : ControllerConfig) :
    FsmDefinition → List Evaluated → FsmInstance → Prop
  | started {defName : String} {definition : FsmDefinition} {context : FsmContext}
      {es : List Answered} {inst : FsmInstance} (fresh : context.counterConditionFirstTrue = ∅)
      (enters : (Entry.started defName definition context).Enters cfg es inst) :
      TimedVisit cfg definition [] inst
  | fired {definition definition' : FsmDefinition} {log : List Evaluated} {es : List Answered}
      {inst inst' : FsmInstance} {toState : String} {trigger : TransitionTrigger}
      (before : TimedVisit cfg definition log inst)
      (enters : (Entry.fired inst toState trigger definition').Enters cfg es inst') :
      TimedVisit cfg definition' [] inst'
  | evaluated {definition : FsmDefinition} {log : List Evaluated} {inst inst' : FsmInstance}
      {ti : Nat} {t : TransitionDefinition} {cond : ConditionDefinition} {obs : Observation}
      {fires : Bool} (before : TimedVisit cfg definition log inst)
      (transition : definition.transition? inst.currentState ti = some t)
      (condition : t.when? = some cond)
      (evaluates :
        (shouldFire inst.currentState ti t inst).Unfolds [⟨.observe, obs⟩] (.done (fires, inst'))) :
      TimedVisit cfg definition (log ++ [⟨ti, obs, inst.context⟩]) inst'
  | kept {definition : FsmDefinition} {log : List Evaluated} {inst inst' : FsmInstance}
      (before : TimedVisit cfg definition log inst) (context : inst'.context = inst.context)
      (currentState : inst'.currentState = inst.currentState) : TimedVisit cfg definition log inst'

/-- What the evaluation of a condition leaves of a timer. -/
def Evaluated.after (e : Evaluated) (cond : ConditionDefinition) (timer : Option DateTime) :
    Option DateTime :=
  (cond.expr.eval (ConditionLeaf.step e.obs e.context) timer).2

/-- The leaves that short-circuit evaluation comes to. -/
def Evaluated.visited (e : Evaluated) (state : String) (cond : ConditionDefinition) :
    List ConditionLeaf :=
  cond.expr.visited fun l => (evaluateLeaf e.obs state e.ti l e.context).1

/-- They can be told from the timer. -/
theorem Evaluated.visited_eq (e : Evaluated) (state : String) (cond : ConditionDefinition) :
    e.visited state cond = cond.expr.visited fun l =>
      (l.step e.obs e.context (e.context.timer state e.ti)).1 := by
  rw [visited]
  congr 1
  funext l
  exact (evaluateLeaf_timer e.obs state e.ti l (.refl e.context)).1

/-- Each evaluation finds the timer that the one before it has left. -/
def Linked (state : String) (cond : ConditionDefinition) :
    Option DateTime → List Evaluated → Option DateTime → Prop
  | timer, [], timer' => timer' = timer
  | timer, e :: es, timer' =>
    e.context.timer state e.ti = timer ∧ Linked state cond (e.after cond timer) es timer'

section Linked

variable {state : String} {cond : ConditionDefinition} {timer timer' : Option DateTime}

theorem Linked.append {es es' : List Evaluated} {timer'' : Option DateTime}
    (h : Linked state cond timer es timer') (h' : Linked state cond timer' es' timer'') :
    Linked state cond timer (es ++ es') timer'' := by
  induction es generalizing timer with
  | nil =>
    cases h
    exact h'
  | cons e es ih => exact ⟨h.1, ih h.2⟩

theorem Linked.split {es es' : List Evaluated} (h : Linked state cond timer (es ++ es') timer') :
    ∃ mid, Linked state cond timer es mid ∧ Linked state cond mid es' timer' := by
  induction es generalizing timer with
  | nil => exact ⟨timer, rfl, h⟩
  | cons e es ih =>
    obtain ⟨mid, h₁, h₂⟩ := ih h.2
    exact ⟨mid, ⟨h.1, h₁⟩, h₂⟩

end Linked

/-! ## The timers that are running belong to the state -/

/-- The first-true times are those of transitions of the state. -/
def FsmContext.TimersOf (context : FsmContext) (state : String) : Prop :=
  ∀ key, (context.counterConditionFirstTrue.lookup key).isSome → ∃ ti, key = conditionKey state ti

theorem startsWith_conditionKey (state : String) (ti : Nat) :
    startsWith (conditionKey state ti) (state ++ ":") = true := by
  rw [startsWith, List.isPrefixOf_iff_prefix, conditionKey,
    String.toList_append (s := state ++ ":")]
  exact List.prefix_append _ _

theorem lookup_retainKeys {β : Type} {p : String → Bool} {m : AList fun _ : String => β}
    {key : String} {b : β} (h : (retainKeys p m).lookup key = some b) :
    p key = true ∧ m.lookup key = some b := by
  obtain ⟨hmem, hkey⟩ := List.mem_filter.mp (AList.mem_lookup_iff.mp h)
  exact ⟨hkey, AList.mem_lookup_iff.mpr hmem⟩

/-- Forgetting the timers of the state leaves none. -/
theorem FsmContext.TimersOf.forgetState {context : FsmContext} {state : String}
    (h : context.TimersOf state) (key : String) :
    (context.forgetState state).counterConditionFirstTrue.lookup key = none := by
  rcases Option.eq_none_or_eq_some
    ((context.forgetState state).counterConditionFirstTrue.lookup key) with hnone | ⟨t, ht⟩
  · exact hnone
  · obtain ⟨hkept, hlookup⟩ := lookup_retainKeys ht
    obtain ⟨ti, rfl⟩ := h key (Option.isSome_of_mem hlookup)
    rw [startsWith_conditionKey] at hkept
    cases hkept

/-- Evaluating a condition starts no timer of another state. -/
theorem FsmContext.TimersOf.evaluate {obs : Observation} {state : String} {ti : Nat}
    {cond : ConditionDefinition} {context : FsmContext} (h : context.TimersOf state) :
    (evaluateCondition obs state ti cond context).2.TimersOf state := by
  intro key hkey
  by_cases heq : key = conditionKey state ti
  · exact ⟨ti, heq⟩
  · rw [evaluateCondition_other obs state ti cond context heq] at hkey
    exact h key hkey

/-! ## What happens in a visit -/

section Visits

variable [Extern] {cfg : ControllerConfig} {definition : FsmDefinition} {log : List Evaluated}
  {inst : FsmInstance}

omit [Extern] in
/-- What comes out of the evaluation of a condition. -/
theorem shouldFire_condition {state : String} {ti : Nat} {t : TransitionDefinition}
    {cond : ConditionDefinition} {obs : Observation} {fires : Bool} {inst' : FsmInstance}
    (hcond : t.when? = some cond)
    (h : (shouldFire state ti t inst).Unfolds [⟨.observe, obs⟩] (.done (fires, inst'))) :
    fires = (evaluateCondition obs state ti cond inst.context).1 ∧
      inst' = inst.setContext (evaluateCondition obs state ti cond inst.context).2 := by
  simp only [shouldFire, hcond] at h
  obtain ⟨obs', es, heq, hk⟩ := h.call_inv
  cases heq
  cases hk.done_inv.2
  exact ⟨rfl, rfl⟩

/-- A visit goes on with whatever is observed. -/
theorem TimedVisit.observe (h : TimedVisit cfg definition log inst) {ti : Nat}
    {t : TransitionDefinition} {cond : ConditionDefinition}
    (ht : definition.transition? inst.currentState ti = some t) (hcond : t.when? = some cond)
    (obs : Observation) :
    TimedVisit cfg definition (log ++ [⟨ti, obs, inst.context⟩])
      (inst.setContext (evaluateCondition obs inst.currentState ti cond inst.context).2) := by
  have hevaluates : (shouldFire inst.currentState ti t inst).Unfolds [⟨.observe, obs⟩]
      (.done ((evaluateCondition obs inst.currentState ti cond inst.context).1,
        inst.setContext (evaluateCondition obs inst.currentState ti cond inst.context).2)) := by
    simp only [shouldFire, hcond]
    exact .step (.refl _)
  exact h.evaluated ht hcond hevaluates

/-- In a state, the timers that are running belong to it. -/
theorem TimedVisit.timersOf (h : TimedVisit cfg definition log inst) :
    inst.context.TimersOf inst.currentState := by
  induction h with
  | started fresh enters =>
    intro key hkey
    rw [startFrom_firstTrue cfg enters, fresh] at hkey
    cases hkey
  | fired before enters ih =>
    intro key hkey
    rw [fireTransition_firstTrue cfg enters, ih.forgetState key] at hkey
    cases hkey
  | evaluated before transition condition evaluates ih =>
    rw [(shouldFire_condition condition evaluates).2]
    exact ih.evaluate
  | kept before context currentState ih =>
    rw [context, currentState]
    exact ih

/-- **In a visit the evaluations of a transition hand its timer on**, from the entry, where it is
    not running. -/
theorem TimedVisit.linked (h : TimedVisit cfg definition log inst) {ti : Nat}
    {t : TransitionDefinition} {cond : ConditionDefinition}
    (ht : definition.transition? inst.currentState ti = some t) (hcond : t.when? = some cond) :
    Linked inst.currentState cond none (log.filter (·.ti == ti))
      (inst.context.timer inst.currentState ti) := by
  induction h with
  | started fresh enters =>
    show FsmContext.timer _ _ _ = none
    rw [FsmContext.timer, startFrom_firstTrue cfg enters, fresh]
    rfl
  | fired before enters ih =>
    show FsmContext.timer _ _ _ = none
    rw [FsmContext.timer, fireTransition_firstTrue cfg enters]
    exact before.timersOf.forgetState _
  | @evaluated definition log inst inst' ti' t' cond' obs fires before transition condition
      evaluates ih =>
    obtain rfl := (shouldFire_condition condition evaluates).2
    rw [FsmInstance.setContext_currentState] at ht
    rw [FsmInstance.setContext_currentState, FsmInstance.setContext_context, List.filter_append]
    by_cases heq : ti' = ti
    · subst heq
      obtain rfl : t' = t := Option.some.inj (transition.symm.trans ht)
      obtain rfl : cond' = cond := Option.some.inj (condition.symm.trans hcond)
      rw [List.filter_cons_of_pos (by simp), List.filter_nil]
      refine (ih ht).append ⟨rfl, ?_⟩
      exact (evaluateCondition_timer obs inst.currentState ti' cond' inst.context).2.1
    · rw [List.filter_cons_of_neg (by simpa using heq), List.filter_nil, List.append_nil]
      have hkey : conditionKey inst.currentState ti ≠ conditionKey inst.currentState ti' :=
        fun h => heq (conditionKey_inj h).symm
      rw [FsmContext.timer, evaluateCondition_other _ _ _ _ _ hkey]
      exact ih ht
  | kept before context currentState ih =>
    rw [currentState] at ht ⊢
    rw [context]
    exact ih ht

end Visits

/-! ## Waiting for a surge -/

/-- More than a hundred matches of a rule for two hours. -/
def surgeOf (rule : String) : CounterCondition where
  counter := rule
  rateAbove := none
  rateBelow := none
  totalAbove := some 100
  forDuration := some "2h"
  aggregate := none
  field := none

/-- Watch until a condition holds. -/
def watchFor (cond : ConditionDefinition) : FsmDefinition where
  name := "surge"
  description := ""
  kind := .adaptivePolicy
  initial := "watch"
  states := (∅ : AList fun _ : String => StateDefinition)
    |>.insert "done" ⟨none, [], true⟩
    |>.insert "watch" ⟨none, [⟨"done", some cond, none⟩], false⟩

/-- A node has reported two hundred matches of each of the rules. -/
def reported (rules : List String) (now : DateTime) : Observation :=
  ⟨(∅ : CounterCache).insert "n1" [⟨"n1", now, rules.map fun rule => ⟨rule, 200, 0⟩⟩], now⟩

/-- The context of a new instance, and the one in which the timer has been started at once. -/
def watching : FsmContext := .forDeployment "rules: [a]" none
def waiting : FsmContext :=
  watching.setFirstTrue ((∅ : AList fun _ : String => DateTime).insert (conditionKey "watch" 0) 0)

def watcher (context : FsmContext) : FsmInstance :=
  (FsmInstance.new 0 "i1" "surge" "watch" watching).setContext context

theorem visit_watchFor (cond : ConditionDefinition) :
    @TimedVisit .sample plainConfig (watchFor cond) [] (watcher watching) := by
  have henters : @Entry.Enters .sample plainConfig (.started "surge" (watchFor cond) watching)
      [⟨.now, 0⟩, ⟨.uuid, "i1"⟩, ⟨.storage (.storeFsmInstance (watcher watching)), .ok ()⟩]
      (watcher watching) := by
    show (@startFrom .sample plainConfig "surge" (watchFor cond) watching).Unfolds _ _
    rw [@startFrom_eq .sample]
    exact .step (.step (.step (.refl _)))
  exact @TimedVisit.started .sample _ _ _ _ _ _ rfl henters

/-- The visit goes on with what is observed. -/
theorem visit_watchFor_observe {cond : ConditionDefinition} {log : List Evaluated}
    {context context' : FsmContext} {obs : Observation}
    (h : @TimedVisit .sample plainConfig (watchFor cond) log (watcher context))
    (heval : (evaluateCondition obs "watch" 0 cond context).2 = context') :
    @TimedVisit .sample plainConfig (watchFor cond) (log ++ [⟨0, obs, context⟩])
      (watcher context') := by
  have hnext := @TimedVisit.observe .sample _ _ _ _ h 0 _ cond rfl rfl obs
  rw [← heval]
  exact hnext

/-- The first report of a surge starts the timer. -/
theorem surgeOf_starts {rule : String} {rules : List String}
    (hmet : (surgeOf rule).met (reported rules 0) watching = true) :
    evaluateCounterCondition (reported rules 0) (surgeOf rule) "watch" 0 watching =
      (false, waiting) := by
  have hparse : parseDuration "2h" = .ok 7200 := by decide +kernel
  rw [evaluateCounterCondition_eq _ _ _ _ _ (CounterCondition.nodes_of_met hmet), if_pos hmet]
  simp only [sustained, surgeOf, hparse]
  rfl

end PaciNet

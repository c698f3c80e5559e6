import PaciNet.Lib.ShortCircuit
import PaciNet.Proof.OutcomeConditions

/-!
# First-true timers

A counter condition with a `for` waits until its thresholds have been met for so long. The time of
the first evaluation that met them is kept in a map of the instance, under a key made of the state
and the index of the transition: it is the timer of the transition. **What an evaluation does to
an instance, it does to that timer only**, so a condition can be followed as a boolean expression
over leaves that set, keep and clear one timer (`evaluateCondition_timer`).
-/

set_option autoImplicit false

namespace PaciNet

open Lib

/-- The timer of a transition: when its condition was first true, if it is running. -/
def FsmContext.timer (context : FsmContext) (currentState : String) (ti : Nat) : Option DateTime :=
  context.counterConditionFirstTrue.lookup (conditionKey currentState ti)

/-- The transitions of a state have timers of their own. -/
theorem conditionKey_inj {currentState : String} {ti ti' : Nat}
    (h : conditionKey currentState ti = conditionKey currentState ti') : ti = ti' := by
  have hrepr : Nat.repr ti = Nat.repr ti' := (String.append_right_inj _).mp h
  have hdigits := congrArg String.toList hrepr
  rw [Nat.toList_repr, Nat.toList_repr] at hdigits
  have hvalue := congrArg (Nat.ofDigitChars 10 · 0) hdigits
  simpa using hvalue

/-! ## One counter condition -/

namespace CounterCondition

variable (cc : CounterCondition) (obs : Observation) (context : FsmContext)

/-- The threshold test: there is a node to check, and the thresholds are met. -/
def met : Bool :=
  let aggregateMode := (cc.aggregate.map parseAggregateMode).getD .any
  let useBytes := cc.field == some "bytes"
  let nodes := nodesToCheck obs.cache context
  !nodes.isEmpty &&
    !(cc.totalAbove.any fun threshold =>
      !checkTotalAbove obs.cache cc.counter threshold useBytes nodes aggregateMode) &&
    !((cc.rateAbove.isSome || cc.rateBelow.isSome) &&
      !checkRateThreshold obs.cache cc.counter cc.rateAbove cc.rateBelow useBytes nodes
        aggregateMode)

/-- The seconds of the `for`, if there is one that parses. -/
def required : Option Nat := cc.forDuration.bind fun dur => (parseDuration dur).toOption

/-- The verdict of the condition under a timer. -/
def verdict (timer : Option DateTime) : Bool :=
  cc.met obs context &&
    (cc.forDuration.isNone ||
      cc.required.any fun secs => !(obs.now - timer.getD obs.now < durationFromSecs secs))

/-- What the condition leaves of a timer. -/
def timerAfter (timer : Option DateTime) : Option DateTime :=
  if nodesToCheck obs.cache context = [] then timer
  else if cc.met obs context then
    if cc.required.isSome then some (timer.getD obs.now) else timer
  else none

variable {cc obs context}

theorem nodes_of_met (h : cc.met obs context = true) : nodesToCheck obs.cache context ≠ [] := by
  intro hnil
  simp [met, hnil] at h

theorem verdict_of_not_met (h : cc.met obs context = false) (timer : Option DateTime) :
    cc.verdict obs context timer = false := by
  rw [verdict, h, Bool.false_and]

/-- A condition that does not wait does not look at the timer. -/
theorem verdict_untimed (h : cc.required = none) (timer timer' : Option DateTime) :
    cc.verdict obs context timer = cc.verdict obs context timer' := by
  rw [verdict, verdict, h]
  rfl

theorem timerAfter_of_met (h : cc.met obs context = true) (timer : Option DateTime) :
    cc.timerAfter obs context timer =
      if cc.required.isSome then some (timer.getD obs.now) else timer := by
  rw [timerAfter, if_neg (nodes_of_met h), if_pos h]

/-- A test that is not met clears the timer, if there is a node to check. -/
theorem timerAfter_of_not_met (hnodes : nodesToCheck obs.cache context ≠ [])
    (h : cc.met obs context = false) (timer : Option DateTime) :
    cc.timerAfter obs context timer = none := by
  rw [timerAfter, if_neg hnodes, if_neg (by rw [h]; exact Bool.false_ne_true)]

/-- What the condition leaves of a timer is the timer, or none, or a new one. -/
theorem timerAfter_cases (cc : CounterCondition) (obs : Observation) (context : FsmContext)
    (timer : Option DateTime) :
    cc.timerAfter obs context timer = timer ∨ cc.timerAfter obs context timer = none ∨
      (cc.met obs context = true ∧ cc.required.isSome ∧ timer = none ∧
        cc.timerAfter obs context timer = some obs.now) := by
  by_cases hnodes : nodesToCheck obs.cache context = []
  · exact .inl (if_pos hnodes)
  · cases hmet : cc.met obs context with
    | false => exact .inr (.inl (timerAfter_of_not_met hnodes hmet timer))
    | true =>
      rw [timerAfter_of_met hmet]
      cases hrequired : cc.required.isSome with
      | false => exact .inl rfl
      | true =>
        cases timer with
        | none => exact .inr (.inr ⟨rfl, rfl, rfl, rfl⟩)
        | some t => exact .inl rfl

end CounterCondition

section Counter

variable (obs : Observation) (cc : CounterCondition) (currentState : String) (ti : Nat)
  (context : FsmContext)

/-- The threshold test decides between the two ways on. -/
theorem evaluateCounterCondition_eq (hnodes : nodesToCheck obs.cache context ≠ []) :
    evaluateCounterCondition obs cc currentState ti context =
      if cc.met obs context then sustained cc obs.now (conditionKey currentState ti) context
      else (false, context.setFirstTrue
        (context.counterConditionFirstTrue.erase (conditionKey currentState ti))) := by
  have hempty : (nodesToCheck obs.cache context).isEmpty = false := by
    simpa [List.isEmpty_iff] using hnodes
  simp only [evaluateCounterCondition, if_neg hnodes, CounterCondition.met, hempty]
  by_cases htotal : (cc.totalAbove.any fun threshold => !checkTotalAbove obs.cache cc.counter
      threshold (cc.field == some "bytes") (nodesToCheck obs.cache context)
      ((cc.aggregate.map parseAggregateMode).getD .any)) = true
  · rw [if_pos htotal, htotal]
    rfl
  · rw [if_neg htotal, Bool.eq_false_of_not_eq_true htotal]
    split
    · rename_i hrate
      rw [hrate]
      rfl
    · rename_i hrate
      rw [Bool.eq_false_of_not_eq_true hrate]
      rfl

/-- The end of the evaluation reads the timer, and starts it where it is not running. -/
theorem sustained_spec :
    (sustained cc obs.now (conditionKey currentState ti) context).1 =
        (cc.forDuration.isNone || cc.required.any fun secs =>
          !(obs.now - (context.timer currentState ti).getD obs.now < durationFromSecs secs)) ∧
      (sustained cc obs.now (conditionKey currentState ti) context).2.timer currentState ti =
        if cc.required.isSome then some ((context.timer currentState ti).getD obs.now)
        else context.timer currentState ti := by
  cases hfor : cc.forDuration with
  | none =>
    simp only [sustained, CounterCondition.required, hfor]
    exact ⟨rfl, rfl⟩
  | some dur =>
    cases hparse : parseDuration dur with
    | error e =>
      simp only [sustained, CounterCondition.required, hfor, hparse, Option.bind_some]
      exact ⟨rfl, rfl⟩
    | ok secs =>
      simp only [sustained, CounterCondition.required, hfor, hparse, Option.bind_some,
        FsmContext.timer]
      rcases Option.eq_none_or_eq_some (context.counterConditionFirstTrue.lookup
        (conditionKey currentState ti)) with hnone | ⟨firstTrue, hsome⟩
      · simp only [hnone]
        exact ⟨rfl, AList.lookup_insert _⟩
      · simp only [hsome]
        exact ⟨rfl, rfl⟩

/-- **What one counter condition does to the timer of its transition.** -/
theorem evaluateCounterCondition_timer :
    (evaluateCounterCondition obs cc currentState ti context).1 =
        cc.verdict obs context (context.timer currentState ti) ∧
      (evaluateCounterCondition obs cc currentState ti context).2.timer currentState ti =
        cc.timerAfter obs context (context.timer currentState ti) := by
  by_cases hnodes : nodesToCheck obs.cache context = []
  · have hmet : cc.met obs context = false := by simp [CounterCondition.met, hnodes]
    rw [CounterCondition.verdict, CounterCondition.timerAfter, hmet, if_pos hnodes]
    simp only [evaluateCounterCondition, if_pos hnodes]
    exact ⟨rfl, trivial⟩
  · rw [evaluateCounterCondition_eq obs cc currentState ti context hnodes]
    cases hmet : cc.met obs context with
    | false =>
      rw [CounterCondition.verdict, hmet, CounterCondition.timerAfter_of_not_met hnodes hmet]
      exact ⟨rfl, AList.lookup_erase _ _⟩
    | true =>
      rw [CounterCondition.verdict, hmet, CounterCondition.timerAfter_of_met hmet]
      exact sustained_spec obs cc currentState ti context

/-- The other first-true times are left alone. -/
theorem evaluateCounterCondition_other {key : String}
    (hkey : key ≠ conditionKey currentState ti) :
    (evaluateCounterCondition obs cc currentState ti context).2.counterConditionFirstTrue.lookup
        key = context.counterConditionFirstTrue.lookup key := by
  by_cases hnodes : nodesToCheck obs.cache context = []
  · simp only [evaluateCounterCondition, if_pos hnodes]
  · rw [evaluateCounterCondition_eq obs cc currentState ti context hnodes]
    split
    · unfold sustained
      split
      · rfl
      · split
        · rfl
        · split
          · rfl
          · exact AList.lookup_insert_ne hkey
    · exact AList.lookup_erase_ne hkey

end Counter

/-! ## Conditions as expressions -/

/-- The leaves of a condition. -/
inductive ConditionLeaf where
  | simple (s : SimpleCondition)
  | counter (cc : CounterCondition)

mutual

/-- The expression `evaluate_condition` evaluates: `and` comes before `or`, and `or` before
    `not`. -/
def ConditionDefinition.expr : ConditionDefinition → BoolExpr ConditionLeaf
  | .simple simple => .leaf (.simple simple)
  | .counter cc => .leaf (.counter cc)
  | .compound (some conditions) _ _ => allExpr conditions
  | .compound none (some conditions) _ => anyExpr conditions
  | .compound none none (some inner) => .not inner.expr
  | .compound none none none => .const false

def allExpr : List ConditionDefinition → BoolExpr ConditionLeaf
  | [] => .const true
  | c :: cs => .and c.expr (allExpr cs)

def anyExpr : List ConditionDefinition → BoolExpr ConditionLeaf
  | [] => .const false
  | c :: cs => .or c.expr (anyExpr cs)

end

/-- The evaluation of a leaf. -/
def evaluateLeaf (obs : Observation) (currentState : String) (ti : Nat) :
    ConditionLeaf → FsmContext → Bool × FsmContext
  | .simple simple, context => (evaluateSimple simple context, context)
  | .counter cc, context => evaluateCounterCondition obs cc currentState ti context

section Expressions

variable (obs : Observation) (currentState : String) (ti : Nat)

mutual

theorem evaluateCondition_eq : ∀ (c : ConditionDefinition) (context : FsmContext),
    evaluateCondition obs currentState ti c context =
      c.expr.eval (evaluateLeaf obs currentState ti) context
  | .simple _, _ => by
    rw [evaluateCondition, ConditionDefinition.expr]
    rfl
  | .counter _, _ => by
    rw [evaluateCondition, ConditionDefinition.expr]
    rfl
  | .compound (some conditions) _ _, context => by
    rw [evaluateCondition, ConditionDefinition.expr]
    exact evaluateAllOf_eq conditions context
  | .compound none (some conditions) _, context => by
    rw [evaluateCondition, ConditionDefinition.expr]
    exact evaluateAnyOf_eq conditions context
  | .compound none none (some inner), context => by
    rw [evaluateCondition, ConditionDefinition.expr, evaluateCondition_eq inner context]
    rfl
  | .compound none none none, _ => by
    rw [evaluateCondition, ConditionDefinition.expr]
    rfl

theorem evaluateAllOf_eq : ∀ (cs : List ConditionDefinition) (context : FsmContext),
    evaluateAllOf obs currentState ti cs context =
      (allExpr cs).eval (evaluateLeaf obs currentState ti) context
  | [], _ => by
    rw [evaluateAllOf, allExpr]
    rfl
  | c :: cs, context => by
    rw [evaluateAllOf, allExpr, BoolExpr.eval, evaluateCondition_eq c context]
    rcases c.expr.eval (evaluateLeaf obs currentState ti) context with ⟨_ | _, context'⟩
    · rfl
    · exact evaluateAllOf_eq cs context'

theorem evaluateAnyOf_eq : ∀ (cs : List ConditionDefinition) (context : FsmContext),
    evaluateAnyOf obs currentState ti cs context =
      (anyExpr cs).eval (evaluateLeaf obs currentState ti) context
  | [], _ => by
    rw [evaluateAnyOf, anyExpr]
    rfl
  | c :: cs, context => by
    rw [evaluateAnyOf, anyExpr, BoolExpr.eval, evaluateCondition_eq c context]
    rcases c.expr.eval (evaluateLeaf obs currentState ti) context with ⟨_ | _, context'⟩
    · exact evaluateAnyOf_eq cs context'
    · rfl

end

/-- What a leaf answers under a timer, and what it leaves of it. -/
def ConditionLeaf.step (obs : Observation) (context : FsmContext) :
    ConditionLeaf → Option DateTime → Bool × Option DateTime
  | .simple s, timer => (evaluateSimple s context, timer)
  | .counter cc, timer => (cc.verdict obs context timer, cc.timerAfter obs context timer)

theorem evaluateLeaf_timer (l : ConditionLeaf) {context context' : FsmContext}
    (hsame : SameButFirstTrue context context') :
    (evaluateLeaf obs currentState ti l context').1 =
        (l.step obs context (context'.timer currentState ti)).1 ∧
      (evaluateLeaf obs currentState ti l context').2.timer currentState ti =
        (l.step obs context (context'.timer currentState ti)).2 ∧
      SameButFirstTrue context (evaluateLeaf obs currentState ti l context').2 := by
  obtain ⟨m, rfl⟩ := hsame
  cases l with
  | simple simple => exact ⟨rfl, rfl, m, rfl⟩
  | counter cc =>
    obtain ⟨hverdict, htimer⟩ :=
      evaluateCounterCondition_timer obs cc currentState ti (context.setFirstTrue m)
    exact ⟨hverdict, htimer, .trans ⟨m, rfl⟩ (evaluateCounterCondition_same ..)⟩

/-- **A condition is evaluated as an expression over leaves that share one timer.** -/
theorem evaluateCondition_timer (c : ConditionDefinition) (context : FsmContext) :
    (evaluateCondition obs currentState ti c context).1 =
        (c.expr.eval (ConditionLeaf.step obs context) (context.timer currentState ti)).1 ∧
      (evaluateCondition obs currentState ti c context).2.timer currentState ti =
        (c.expr.eval (ConditionLeaf.step obs context) (context.timer currentState ti)).2 ∧
      (c.expr.trace (evaluateLeaf obs currentState ti) context).map
          (fun p => (p.1, p.2.timer currentState ti)) =
        c.expr.trace (ConditionLeaf.step obs context) (context.timer currentState ti) := by
  rw [evaluateCondition_eq]
  obtain ⟨hverdict, htimer, htrace, -⟩ := BoolExpr.eval_map (I := SameButFirstTrue context)
    (fun l _ context' h => evaluateLeaf_timer obs currentState ti l h) (.refl context)
  exact ⟨hverdict, htimer, htrace⟩

theorem evaluateCondition_other (c : ConditionDefinition) (context : FsmContext) {key : String}
    (hkey : key ≠ conditionKey currentState ti) :
    (evaluateCondition obs currentState ti c context).2.counterConditionFirstTrue.lookup key =
      context.counterConditionFirstTrue.lookup key := by
  rw [evaluateCondition_eq]
  refine (BoolExpr.eval_invariant (I := fun s : FsmContext =>
    s.counterConditionFirstTrue.lookup key = context.counterConditionFirstTrue.lookup key) ?_ rfl).1
  intro l _ s hs
  cases l with
  | simple simple => exact hs
  | counter cc => exact (evaluateCounterCondition_other obs cc currentState ti s hkey).trans hs

end Expressions

/-! ## The leaves that wait -/

/-- The counter conditions that wait: the leaves with a `for` that parses. -/
def ConditionDefinition.timed (cond : ConditionDefinition) : List CounterCondition :=
  cond.expr.leaves.filterMap fun
    | .simple _ => none
    | .counter cc => if cc.required.isSome then some cc else none

section Waiting

variable {cond : ConditionDefinition} {cc : CounterCondition} {obs : Observation}
  {context : FsmContext}

theorem ConditionDefinition.mem_timed :
    cc ∈ cond.timed ↔ .counter cc ∈ cond.expr.leaves ∧ cc.required.isSome := by
  rw [timed, List.mem_filterMap]
  constructor
  · rintro ⟨l, hl, hcc⟩
    cases l with
    | simple s => cases hcc
    | counter cc' =>
      simp only [Option.ite_none_right_eq_some, Option.some.injEq] at hcc
      obtain ⟨hrequired, rfl⟩ := hcc
      exact ⟨hl, hrequired⟩
  · rintro ⟨hl, hrequired⟩
    exact ⟨_, hl, if_pos hrequired⟩

/-- A leaf has the same verdict under every timer, if it does not wait or is not met. -/
theorem step_of_unmet {l : ConditionLeaf}
    (hunmet : ∀ cc, l = .counter cc → cc.required.isSome → cc.met obs context = false)
    (timer timer' : Option DateTime) :
    (l.step obs context timer).1 = (l.step obs context timer').1 := by
  cases l with
  | simple _ => rfl
  | counter cc =>
    show cc.verdict obs context timer = cc.verdict obs context timer'
    cases hrequired : cc.required with
    | none => exact CounterCondition.verdict_untimed hrequired timer timer'
    | some secs =>
      have hmet := hunmet cc rfl (by rw [hrequired]; rfl)
      rw [CounterCondition.verdict_of_not_met hmet, CounterCondition.verdict_of_not_met hmet]

/-- Then it starts no timer. -/
theorem step_none_of_unmet {l : ConditionLeaf}
    (hunmet : ∀ cc, l = .counter cc → cc.required.isSome → cc.met obs context = false) :
    (l.step obs context none).2 = none := by
  cases l with
  | simple _ => rfl
  | counter cc =>
    show cc.timerAfter obs context none = none
    rcases cc.timerAfter_cases obs context none with hsame | hnone | ⟨hmet, hrequired, -, -⟩
    · exact hsame
    · exact hnone
    · rw [hunmet cc rfl hrequired] at hmet
      cases hmet

/-- **If no leaf that waits is met where the evaluation comes to it**, the verdict is the value of
    the expression, and a timer is stopped where there is a node to check and the evaluation comes
    to a counter condition that is not met. -/
theorem eval_of_unmet {e : BoolExpr ConditionLeaf} {timer : Option DateTime}
    {v : ConditionLeaf → Bool} (hv : ∀ l, v l = (l.step obs context timer).1)
    (hunmet : ∀ cc, .counter cc ∈ e.visited v → cc.required.isSome → cc.met obs context = false) :
    (e.eval (ConditionLeaf.step obs context) timer).1 = e.value v ∧
      ((timer ≠ none → nodesToCheck obs.cache context ≠ [] ∧
          ∃ cc, .counter cc ∈ e.visited v ∧ cc.met obs context = false) →
        (e.eval (ConditionLeaf.step obs context) timer).2 = none) := by
  have hleaf : ∀ l ∈ e.visited v, ∀ cc, l = .counter cc → cc.required.isSome →
      cc.met obs context = false := fun l hl cc hcc => hunmet cc (hcc ▸ hl)
  obtain ⟨hverdict, hend, -⟩ := BoolExpr.eval_of_valued (I := fun _ => True) (s := timer)
    (fun l hl s _ => ⟨(step_of_unmet (hleaf l hl) s timer).trans (hv l).symm, trivial⟩) trivial
  refine ⟨hverdict, fun hstops => ?_⟩
  have hkeep : ∀ l ∈ e.visited v, (l.step obs context none).2 = none :=
    fun l hl => step_none_of_unmet (hleaf l hl)
  rw [hend]
  by_cases hnone : timer = none
  · rw [hnone]
    exact foldl_fixed_of_forall hkeep
  · obtain ⟨hnodes, cc, hvisited, hmet⟩ := hstops hnone
    exact foldl_eq_of_mem (I := fun _ => True) hvisited (fun _ _ _ _ => trivial)
      (fun s _ => CounterCondition.timerAfter_of_not_met hnodes hmet s) hkeep trivial

end Waiting

end PaciNet

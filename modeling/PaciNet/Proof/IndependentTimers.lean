import PaciNet.Proof.TimedVisits

/-!
# Leaves that are timed on their own

A compound condition should be the boolean combination of its leaves, each evaluated at every
evaluation of the condition with a timer of its own. The leaves of a condition share one timer
instead, and those that the evaluation skips do not look at it.

**The verdict is that of independent leaves as long as those that wait go together**
(`independentIn_of_alike`): at each evaluation, all of them are met, or all are not, and the
evaluation comes to one that says so. Then the timers they should have are one and the same.
-/

set_option autoImplicit false

namespace PaciNet

open Lib

/-! ## The law -/

/-- First-true times for each counter condition apart. The times of two leaves that are equal are
    equal. -/
abbrev OwnTimes := CounterCondition → AList fun _ : String => DateTime

/-- The evaluation of a leaf with its own first-true times. -/
def OwnTimes.evaluate (own : OwnTimes) (state : String) (e : Evaluated) (cc : CounterCondition) :
    Bool × FsmContext :=
  evaluateCounterCondition e.obs cc state e.ti (e.context.setFirstTrue (own cc))

/-- Every leaf is evaluated. -/
def OwnTimes.next (own : OwnTimes) (state : String) (e : Evaluated) : OwnTimes :=
  fun cc => (own.evaluate state e cc).2.counterConditionFirstTrue

/-- The first-true times of the leaves after some evaluations. -/
def ownTimes (state : String) (es : List Evaluated) : OwnTimes :=
  es.foldl (fun own e => own.next state e) fun _ => ∅

/-- The boolean value of the condition over leaves with their own first-true times. -/
def ConditionDefinition.ownValue (cond : ConditionDefinition) (own : OwnTimes) (state : String)
    (e : Evaluated) : Bool :=
  cond.expr.value fun
    | .simple s => evaluateSimple s e.context
    | .counter cc => (own.evaluate state e cc).1

/-- At every evaluation of the condition, the verdict is its boolean value. -/
def IndependentIn (log : List Evaluated) (state : String) (ti : Nat)
    (cond : ConditionDefinition) : Prop :=
  ∀ before e after, log = before ++ e :: after → e.ti = ti →
    (evaluateCondition e.obs state ti cond e.context).1 =
      cond.ownValue (ownTimes state (before.filter (·.ti == ti))) state e

/-- The counter condition has a `for` that parses, and the simple conditions do not keep the
    evaluation from it. -/
def ConditionDefinition.Waits (cond : ConditionDefinition) (context : FsmContext)
    (cc : CounterCondition) : Prop :=
  cc.required.isSome ∧ ∃ v, (∀ s, v (.simple s) = evaluateSimple s context) ∧
    .counter cc ∈ cond.expr.visited v

/-- The leaves that wait, if there are any and there is a node to check, are all not met, and the
    timer is not running or the evaluation comes to a counter condition that is not met; or they
    are all met, the evaluation comes to no counter condition that is not met, and the timer is
    running or the evaluation comes to one of them. -/
def Evaluated.Alike (e : Evaluated) (state : String) (cond : ConditionDefinition) : Prop :=
  (∀ cc, ¬ cond.Waits e.context cc) ∨ nodesToCheck e.obs.cache e.context = [] ∨
    ((∀ cc, cond.Waits e.context cc → cc.met e.obs e.context = false) ∧
      (e.context.timer state e.ti ≠ none →
        ∃ cc, .counter cc ∈ e.visited state cond ∧ cc.met e.obs e.context = false)) ∨
    ((∀ cc, cond.Waits e.context cc → cc.met e.obs e.context = true) ∧
      (∀ cc, .counter cc ∈ e.visited state cond → cc.met e.obs e.context = true) ∧
      (e.context.timer state e.ti ≠ none ∨
        ∃ cc, cc.required.isSome ∧ .counter cc ∈ e.visited state cond))

/-! ## One evaluation -/

section Evaluation

variable {state : String} {cond : ConditionDefinition} {e : Evaluated}

/-- The timer of a leaf of its own. -/
def OwnTimes.timer (own : OwnTimes) (state : String) (ti : Nat) (cc : CounterCondition) :
    Option DateTime :=
  (own cc).lookup (conditionKey state ti)

/-- What one evaluation does to it. -/
theorem OwnTimes.next_timer (own : OwnTimes) (state : String) (e : Evaluated)
    (cc : CounterCondition) : (own.evaluate state e cc).1 =
        cc.verdict e.obs e.context (own.timer state e.ti cc) ∧
      (own.next state e).timer state e.ti cc =
        cc.timerAfter e.obs e.context (own.timer state e.ti cc) :=
  evaluateCounterCondition_timer e.obs cc state e.ti (e.context.setFirstTrue (own cc))

/-- A leaf the evaluation comes to, and that has a `for`, waits. -/
theorem waits_of_visited {cc : CounterCondition} (hrequired : cc.required.isSome)
    (hvisited : .counter cc ∈ e.visited state cond) : cond.Waits e.context cc :=
  ⟨hrequired, _, fun _ => rfl, hvisited⟩

/-- Own timers that agree with the shared one give the value that the evaluation comes to. -/
theorem ownValue_eq {own : OwnTimes} (hown : ∀ cc, cond.Waits e.context cc →
      own.timer state e.ti cc = e.context.timer state e.ti) :
    cond.ownValue own state e = cond.expr.value fun l =>
      (l.step e.obs e.context (e.context.timer state e.ti)).1 := by
  symm
  refine BoolExpr.value_congr fun l hl => ?_
  rw [← e.visited_eq] at hl
  cases l with
  | simple s => rfl
  | counter cc =>
    show cc.verdict e.obs e.context (e.context.timer state e.ti) = (own.evaluate state e cc).1
    rw [(own.next_timer state e cc).1]
    cases hrequired : cc.required with
    | none => exact CounterCondition.verdict_untimed hrequired _ _
    | some secs => rw [hown cc (waits_of_visited (by rw [hrequired]; rfl) hl)]

/-- A verdict under a timer depends on when it was started, or would be now. -/
theorem verdict_congr {cc : CounterCondition} {obs : Observation} {context : FsmContext}
    {timer timer' : Option DateTime} (h : timer.getD obs.now = timer'.getD obs.now) :
    cc.verdict obs context timer = cc.verdict obs context timer' := by
  rw [CounterCondition.verdict, CounterCondition.verdict, h]

/-- Where there is no node to check, nothing happens to the timer. -/
theorem eval_of_no_nodes (hnodes : nodesToCheck e.obs.cache e.context = [])
    (expr : BoolExpr ConditionLeaf) (timer : Option DateTime) :
    (expr.eval (ConditionLeaf.step e.obs e.context) timer).1 =
        expr.value (fun l => (l.step e.obs e.context timer).1) ∧
      (expr.eval (ConditionLeaf.step e.obs e.context) timer).2 = timer := by
  obtain ⟨hverdict, -, hend⟩ := BoolExpr.eval_of_valued (e := expr)
    (f := ConditionLeaf.step e.obs e.context)
    (v := fun l => (l.step e.obs e.context timer).1) (I := fun s => s = timer) (s := timer)
    (fun l _ s hs => by
      rw [hs]
      refine ⟨rfl, ?_⟩
      cases l with
      | simple s => rfl
      | counter cc => exact if_pos hnodes) rfl
  exact ⟨hverdict, hend⟩

/-- Where all counter conditions that the evaluation comes to are met, the timer is running after
    it if it was before, or if one of them starts it. -/
theorem eval_of_met {expr : BoolExpr ConditionLeaf} {timer : Option DateTime}
    {v : ConditionLeaf → Bool} (hv : ∀ l, v l = (l.step e.obs e.context timer).1)
    (hmet : ∀ cc, .counter cc ∈ expr.visited v → cc.met e.obs e.context = true) :
    (expr.eval (ConditionLeaf.step e.obs e.context) timer).1 = expr.value v ∧
      (timer ≠ none ∨ (∃ cc, cc.required.isSome ∧ .counter cc ∈ expr.visited v) →
        (expr.eval (ConditionLeaf.step e.obs e.context) timer).2 =
          some (timer.getD e.obs.now)) := by
  -- the timer as it was, or as it is after it has been started
  let I : Option DateTime → Prop := fun s => s = timer ∨ s = some (timer.getD e.obs.now)
  have hgetD : ∀ s, I s → s.getD e.obs.now = timer.getD e.obs.now := by
    rintro s (rfl | rfl)
    · rfl
    · rfl
  have hstep : ∀ l ∈ expr.visited v, ∀ s, I s →
      (l.step e.obs e.context s).1 = v l ∧ I (l.step e.obs e.context s).2 := by
    intro l hl s hs
    rw [hv]
    cases l with
    | simple _ => exact ⟨rfl, hs⟩
    | counter cc =>
      refine ⟨verdict_congr (hgetD s hs), ?_⟩
      show I (cc.timerAfter e.obs e.context s)
      rw [CounterCondition.timerAfter_of_met (hmet cc hl), hgetD s hs]
      split
      · exact .inr rfl
      · exact hs
  obtain ⟨hverdict, hend, hinv⟩ := BoolExpr.eval_of_valued hstep (.inl rfl)
  refine ⟨hverdict, fun hruns => ?_⟩
  rcases hruns with hrunning | ⟨cc, hrequired, hvisited⟩
  · obtain ⟨t, ht⟩ := Option.ne_none_iff_exists'.mp hrunning
    rcases hinv with hsame | hstarted
    · rw [hsame, ht]
      rfl
    · exact hstarted
  · rw [hend]
    refine foldl_eq_of_mem (I := I) hvisited (fun l hl s hs => (hstep l hl s hs).2) ?_ ?_ (.inl rfl)
    · intro s hs
      show cc.timerAfter e.obs e.context s = _
      rw [CounterCondition.timerAfter_of_met (hmet cc hvisited), if_pos hrequired, hgetD s hs]
    · intro l hl
      cases l with
      | simple _ => rfl
      | counter cc' =>
        show cc'.timerAfter e.obs e.context _ = _
        rw [CounterCondition.timerAfter_of_met (hmet cc' hl)]
        split
        · rfl
        · rfl

/-- **Where the leaves that wait are alike, the shared timer does what each of their own does**, and
    the verdict is the value under it. -/
theorem Evaluated.Alike.step (halike : e.Alike state cond) :
    (evaluateCondition e.obs state e.ti cond e.context).1 = cond.expr.value (fun l =>
        (l.step e.obs e.context (e.context.timer state e.ti)).1) ∧
      ∀ cc, cond.Waits e.context cc →
        cc.timerAfter e.obs e.context (e.context.timer state e.ti) =
          e.after cond (e.context.timer state e.ti) := by
  have hwaits : ∀ cc, .counter cc ∈ e.visited state cond → cc.required.isSome →
      cond.Waits e.context cc := fun cc hvisited hrequired => waits_of_visited hrequired hvisited
  rw [e.visited_eq] at hwaits
  rw [Evaluated.Alike, e.visited_eq] at halike
  rw [(evaluateCondition_timer e.obs state e.ti cond e.context).1, Evaluated.after]
  by_cases hnodes : nodesToCheck e.obs.cache e.context = []
  · obtain ⟨hverdict, hend⟩ := eval_of_no_nodes hnodes cond.expr (e.context.timer state e.ti)
    exact ⟨hverdict, fun cc _ => (if_pos hnodes).trans hend.symm⟩
  · rcases halike with hnone | hnil | ⟨hunmet, hstops⟩ | ⟨hmet, hall, hruns⟩
    · have hverdict := (eval_of_unmet (fun _ => rfl) fun cc hvisited hrequired =>
        absurd (hwaits cc hvisited hrequired) (hnone cc)).1
      exact ⟨hverdict, fun cc hcc => absurd hcc (hnone cc)⟩
    · exact absurd hnil hnodes
    · obtain ⟨hverdict, hend⟩ := eval_of_unmet (fun _ => rfl) fun cc hvisited hrequired =>
        hunmet cc (hwaits cc hvisited hrequired)
      refine ⟨hverdict, fun cc hcc => ?_⟩
      rw [CounterCondition.timerAfter_of_not_met hnodes (hunmet cc hcc)]
      exact (hend fun hrunning => ⟨hnodes, hstops hrunning⟩).symm
    · obtain ⟨hverdict, hend⟩ := eval_of_met (fun _ => rfl) hall
      refine ⟨hverdict, fun cc hcc => ?_⟩
      rw [CounterCondition.timerAfter_of_met (hmet cc hcc), if_pos hcc.1]
      exact (hend hruns).symm

end Evaluation

/-! ## A visit -/

section Run

variable {state : String} {ti : Nat} {cond : ConditionDefinition} {context : FsmContext}

theorem SameButFirstTrue.symm {context' : FsmContext} (h : SameButFirstTrue context context') :
    SameButFirstTrue context' context := by
  obtain ⟨m, rfl⟩ := h
  exact ⟨context.counterConditionFirstTrue, rfl⟩

/-- Which leaves wait does not depend on the timers. -/
theorem waits_congr {context' : FsmContext} (h : SameButFirstTrue context context')
    {cc : CounterCondition} : cond.Waits context' cc ↔ cond.Waits context cc := by
  obtain ⟨m, rfl⟩ := h
  exact Iff.rfl

theorem ownTimes_concat (state : String) (es : List Evaluated) (e : Evaluated) :
    ownTimes state (es ++ [e]) = (ownTimes state es).next state e := by
  simp [ownTimes]

/-- **The leaves that wait have the timer in common**, as long as they are alike. -/
theorem Linked.own_of_alike {es : List Evaluated} {timer : Option DateTime}
    (hlink : Linked state cond none es timer) (hti : ∀ e ∈ es, e.ti = ti)
    (hsame : ∀ e ∈ es, SameButFirstTrue context e.context)
    (halike : ∀ e ∈ es, e.Alike state cond) {cc : CounterCondition}
    (hcc : cond.Waits context cc) : (ownTimes state es).timer state ti cc = timer := by
  induction es using List.reverseRecOn generalizing timer with
  | nil =>
    cases hlink
    rfl
  | append_singleton es e ih =>
    obtain ⟨mid, hes, hfound, hend⟩ := hlink.split
    have hlast : e ∈ es ++ [e] := List.mem_append_right _ (List.mem_singleton_self e)
    have hinit : ∀ e' ∈ es, e' ∈ es ++ [e] := fun e' he' => List.mem_append_left _ he'
    have hown := ih hes (fun e' he' => hti e' (hinit e' he'))
      (fun e' he' => hsame e' (hinit e' he')) fun e' he' => halike e' (hinit e' he')
    have hstep := (halike e hlast).step.2 cc ((waits_congr (hsame e hlast)).mpr hcc)
    obtain rfl := hti e hlast
    rw [ownTimes_concat, ((ownTimes state es).next_timer state e cc).2, hown, ← hfound, hstep,
      hfound]
    exact hend.symm

end Run

section Visit

variable [Extern] {cfg : ControllerConfig} {definition : FsmDefinition} {log : List Evaluated}
  {inst : FsmInstance}

/-- In a visit only the timers change. -/
theorem TimedVisit.same (h : TimedVisit cfg definition log inst) :
    ∀ e ∈ log, SameButFirstTrue e.context inst.context := by
  induction h with
  | started => exact fun e he => absurd he List.not_mem_nil
  | fired => exact fun e he => absurd he List.not_mem_nil
  | @evaluated definition log inst inst' ti t cond obs fires before transition condition evaluates
      ih =>
    obtain rfl := (shouldFire_condition condition evaluates).2
    have hstep := evaluateCondition_same obs inst.currentState ti cond inst.context
    intro e he
    rcases List.mem_append.mp he with hmem | hmem
    · exact (ih e hmem).trans hstep
    · rw [List.mem_singleton.mp hmem]
      exact hstep
  | kept before context currentState ih =>
    rw [context]
    exact ih

/-- **The verdicts are those of independent leaves**, in every visit in which those that wait are
    alike. -/
theorem independentIn_of_alike {ti : Nat} {t : TransitionDefinition} {cond : ConditionDefinition}
    (hvisit : TimedVisit cfg definition log inst)
    (ht : definition.transition? inst.currentState ti = some t) (hcond : t.when? = some cond)
    (halike : ∀ e ∈ log, e.ti = ti → e.Alike inst.currentState cond) :
    IndependentIn log inst.currentState ti cond := by
  rintro before e after rfl rfl
  have hlink := hvisit.linked ht hcond
  rw [List.filter_append, List.filter_cons_of_pos (by simp)] at hlink
  obtain ⟨timer, hbefore, hfound, -⟩ := hlink.split
  have hmem : ∀ x ∈ before.filter (·.ti == e.ti), x ∈ before ++ e :: after ∧ x.ti = e.ti := by
    intro x hx
    obtain ⟨hx, hti⟩ := List.mem_filter.mp hx
    exact ⟨List.mem_append_left _ hx, by simpa using hti⟩
  have hcurrent : e ∈ before ++ e :: after := List.mem_append_right _ List.mem_cons_self
  have hsame := hvisit.same
  rw [(halike e hcurrent rfl).step.1, ownValue_eq]
  intro cc hcc
  rw [hfound]
  refine hbefore.own_of_alike (fun x hx => (hmem x hx).2) (fun x hx => ?_)
    (fun x hx => halike x (hmem x hx).1 (hmem x hx).2) hcc
  exact (hsame e hcurrent).trans (hsame x (hmem x hx).1).symm

end Visit

/-! ## Two surges at once -/

/-- A surge of drops, and one of connection requests. -/
def surges : ConditionDefinition :=
  .compound (some [.counter (surgeOf "drop_all"), .counter (surgeOf "syn_flood")]) none none

example : (watchFor surges).validate = .ok () := by decide +kernel

theorem expr_surges : surges.expr = .and (.leaf (.counter (surgeOf "drop_all")))
    (.and (.leaf (.counter (surgeOf "syn_flood"))) (.const true)) := by
  rw [surges, ConditionDefinition.expr, allExpr, allExpr, allExpr, ConditionDefinition.expr,
    ConditionDefinition.expr]

/-- The first surge starts the timer, and the evaluation does not come to the second. -/
theorem visit_surges {rules : List String}
    (hmet : (surgeOf "drop_all").met (reported rules 0) watching = true) :
    @TimedVisit .sample plainConfig (watchFor surges) [⟨0, reported rules 0, watching⟩]
      (watcher waiting) := by
  refine visit_watchFor_observe (visit_watchFor surges) ?_
  rw [surges, evaluateCondition, evaluateAllOf, evaluateCondition, surgeOf_starts hmet]

/-- Both surges from the beginning. -/
def bothReported (now : DateTime) : Observation := reported ["drop_all", "syn_flood"] now

theorem both_met : ∀ rule ∈ ["drop_all", "syn_flood"],
    (surgeOf rule).met (bothReported 0) watching = true ∧
      (surgeOf rule).met (bothReported (7200 * 10 ^ 9)) waiting = true := by
  decide +kernel

/-- If both are met and the timer is running or is started, they are alike. -/
theorem surges_alike {e : Evaluated}
    (hmet : ∀ rule ∈ ["drop_all", "syn_flood"], (surgeOf rule).met e.obs e.context = true) :
    e.Alike "watch" surges := by
  have hleaf : ∀ cc, .counter cc ∈ surges.expr.leaves → cc.met e.obs e.context = true := by
    intro cc hcc
    rw [expr_surges] at hcc
    simp only [BoolExpr.leaves, List.append_nil, List.singleton_append, List.mem_cons,
      ConditionLeaf.counter.injEq, List.not_mem_nil, or_false] at hcc
    rcases hcc with rfl | rfl
    · exact hmet _ (by simp)
    · exact hmet _ (by simp)
  refine .inr (.inr (.inr ⟨?_, ?_, .inr ⟨surgeOf "drop_all", by decide +kernel, ?_⟩⟩))
  · rintro cc ⟨-, v, -, hvisited⟩
    exact hleaf cc (BoolExpr.mem_leaves_of_visited hvisited)
  · exact fun cc hvisited => hleaf cc (BoolExpr.mem_leaves_of_visited hvisited)
  · rw [Evaluated.visited, expr_surges, BoolExpr.visited]
    exact List.mem_append_left _ (List.mem_singleton_self _)

/-- Two surges that go together are judged as if each was timed on its own. -/
theorem independentIn_surges : IndependentIn
    [⟨0, bothReported 0, watching⟩, ⟨0, bothReported (7200 * 10 ^ 9), waiting⟩] "watch" 0
    surges := by
  have hvisit := visit_surges (both_met _ List.mem_cons_self).1
  refine @independentIn_of_alike .sample plainConfig (watchFor surges) _ (watcher _) 0 _ surges
    (visit_watchFor_observe hvisit rfl) rfl rfl ?_
  intro e he _
  rcases List.mem_pair.mp he with rfl | rfl
  · exact surges_alike fun rule hrule => (both_met rule hrule).1
  · exact surges_alike fun rule hrule => (both_met rule hrule).2

/-- The second surge begins two hours after the first, and is taken to have lasted as long. -/
theorem not_independentIn : ¬ ∀ definition log inst ti t cond,
    @TimedVisit .sample plainConfig definition log inst →
      definition.transition? inst.currentState ti = some t → t.when? = some cond →
      IndependentIn log inst.currentState ti cond := by
  intro hall
  have hmet : (surgeOf "drop_all").met (reported ["drop_all"] 0) watching = true := by
    decide +kernel
  have hvisit : ∃ context, @TimedVisit .sample plainConfig (watchFor surges)
      [⟨0, reported ["drop_all"] 0, watching⟩, ⟨0, bothReported (7200 * 10 ^ 9), waiting⟩]
      (watcher context) := ⟨_, visit_watchFor_observe (visit_surges hmet) rfl⟩
  obtain ⟨context, hvisit⟩ := hvisit
  have hsame : (evaluateCondition (bothReported (7200 * 10 ^ 9)) "watch" 0 surges waiting).1 =
      surges.ownValue (ownTimes "watch" [⟨0, reported ["drop_all"] 0, watching⟩]) "watch"
        ⟨0, bothReported (7200 * 10 ^ 9), waiting⟩ :=
    hall _ _ (watcher context) 0 _ surges hvisit rfl rfl [_] _ [] rfl rfl
  rw [(evaluateCondition_timer _ _ _ _ _).1, ConditionDefinition.ownValue, expr_surges] at hsame
  revert hsame
  decide +kernel

end PaciNet

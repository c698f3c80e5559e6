import PaciNet.Proof.Durations
import PaciNet.Proof.TimedVisits

/-!
# Conditions that are sustained

A counter condition with a `for` should be true only when its thresholds have been met for so long:
at every evaluation since one that lies so far back, in the same visit of the state. An evaluation
that does not meet them, for whatever reason, should start the wait anew.

**It is true only then, as long as the timer is its own and each evaluation that does not meet the
thresholds stops it** (`sustainedIn_of_watched`). There are two ways not to stop it: where there is
no node to check the evaluation returns before it looks at the timer, and in a compound condition
it may not come to the leaf at all.
-/

set_option autoImplicit false

namespace PaciNet

open Lib

/-! ## The law -/

/-- The evaluation comes to the counter condition, and it is true. -/
def Evaluated.HoldsAt (e : Evaluated) (state : String) (cond : ConditionDefinition)
    (cc : CounterCondition) : Prop :=
  ∃ context, (.counter cc, context) ∈ cond.expr.trace (evaluateLeaf e.obs state e.ti) e.context ∧
    (evaluateCounterCondition e.obs cc state e.ti context).1 = true

/-- The thresholds were met at every evaluation since one that was made so long ago. -/
def SustainedFor (cc : CounterCondition) (required : Int) (now : DateTime)
    (evals : List Evaluated) : Prop :=
  ∃ before e₀ since, evals = before ++ e₀ :: since ∧ e₀.obs.now ≤ now - required ∧
    ∀ e ∈ e₀ :: since, cc.met e.obs e.context = true

/-- Whenever the condition is true in the visit, it has been sustained. -/
def SustainedIn (log : List Evaluated) (state : String) (ti : Nat) (cond : ConditionDefinition)
    (cc : CounterCondition) : Prop :=
  ∀ before e after secs, log = before ++ e :: after → e.ti = ti → cc.required = some secs →
    e.HoldsAt state cond cc →
      SustainedFor cc (secs * 10 ^ 9) e.obs.now ((before ++ [e]).filter (·.ti == ti))

/-- The instants of `DateTime<Utc>`. -/
def Representable (t : DateTime) : Prop :=
  -8334601228800 * 10 ^ 9 ≤ t ∧ t < 8210266876800 * 10 ^ 9

/-- If the timer is running and the thresholds are not met, there is a node to check, and the
    evaluation comes to a counter condition whose thresholds are not met. -/
def Evaluated.Watched (e : Evaluated) (state : String) (cond : ConditionDefinition)
    (cc : CounterCondition) : Prop :=
  e.context.timer state e.ti ≠ none → cc.met e.obs e.context = false →
    nodesToCheck e.obs.cache e.context ≠ [] ∧
      ∃ cc', .counter cc' ∈ e.visited state cond ∧ cc'.met e.obs e.context = false

/-! ## Durations -/

theorem parseDurationLoop_pos {secs n : Nat} {cur cs : List Char}
    (hcur : ∀ d ∈ cur, d.isDigit = true) (h : parseDurationLoop secs cur cs = .ok n) : 0 < n := by
  induction cs generalizing secs cur with
  | nil =>
    rcases loop_nil secs cur with ⟨-, hpos, -, hok⟩ | ⟨e, -, herror⟩
    · rw [hok] at h
      cases h
      exact hpos
    · rw [herror] at h
      cases h
  | cons ch rest ih =>
    rcases loop_cons hcur secs ch rest with
      ⟨hch, -, hdigit⟩ | ⟨t, rfl, rfl, -, -, hterm⟩ | ⟨e, -, herror⟩
    · exact ih (isDigit_concat hcur hch) (hdigit ▸ h)
    · exact ih (by simp) (hterm ▸ h)
    · rw [herror] at h
      cases h

/-- A duration that parses is positive. -/
theorem parseDuration_pos {s : String} {n : Nat} (h : parseDuration s = .ok n) : 0 < n := by
  unfold parseDuration at h
  simp only at h
  split at h
  · cases h
  · exact parseDurationLoop_pos (by simp) h

theorem CounterCondition.required_pos {cc : CounterCondition} {secs : Nat}
    (h : cc.required = some secs) : 0 < secs := by
  obtain ⟨dur, -, hdur⟩ := Option.bind_eq_some_iff.mp h
  cases hparse : parseDuration dur with
  | error e =>
    rw [hparse] at hdur
    cases hdur
  | ok n =>
    rw [hparse] at hdur
    cases hdur
    exact parseDuration_pos hparse

theorem durationFromSecs_pos {secs : Nat} (h : 0 < secs) : 0 < durationFromSecs secs := by
  unfold durationFromSecs durationMax
  split
  · omega
  · decide

/-- Between two instants a wait that is not too short has its length. -/
theorem le_elapsed {t now : Int} {secs : Nat} (ht : Representable t) (hnow : Representable now)
    (h : ¬ now - t < durationFromSecs secs) : t ≤ now - secs * 10 ^ 9 := by
  have hlow : (-8334601228800 * 10 ^ 9 : Int) ≤ t := ht.1
  have hhigh : now < 8210266876800 * 10 ^ 9 := hnow.2
  unfold durationFromSecs durationMax at h
  split at h
  · omega
  · omega

/-! ## One evaluation -/

section Evaluation

variable {state : String} {cond : ConditionDefinition} {cc : CounterCondition} {e : Evaluated}

/-- The only leaf that waits. -/
theorem eq_of_timed (honly : cond.timed = [cc]) {cc' : CounterCondition}
    (hleaf : .counter cc' ∈ cond.expr.leaves) (hrequired : cc'.required.isSome) : cc' = cc := by
  have hmem := ConditionDefinition.mem_timed.mpr ⟨hleaf, hrequired⟩
  rw [honly] at hmem
  exact List.mem_singleton.mp hmem

/-- Through an evaluation the timer is as it was, or not running, or has been started by the only
    leaf that starts it. -/
theorem Evaluated.timer_cases (honly : cond.timed = [cc]) (e : Evaluated)
    (timer : Option DateTime) :
    (e.after cond timer = timer ∨ e.after cond timer = none ∨
        (cc.met e.obs e.context = true ∧ e.after cond timer = some e.obs.now)) ∧
      ∀ p ∈ cond.expr.trace (ConditionLeaf.step e.obs e.context) timer,
        p.2 = timer ∨ p.2 = none ∨ (cc.met e.obs e.context = true ∧ p.2 = some e.obs.now) := by
  refine BoolExpr.eval_invariant (I := fun s => s = timer ∨ s = none ∨
    (cc.met e.obs e.context = true ∧ s = some e.obs.now)) ?_ (.inl rfl)
  intro l hl s hs
  cases l with
  | simple _ => exact hs
  | counter cc' =>
    rcases cc'.timerAfter_cases e.obs e.context s with hsame | hnone | ⟨hmet, hrequired, -, hnew⟩
    · rw [ConditionLeaf.step, hsame]
      exact hs
    · exact .inr (.inl hnone)
    · obtain rfl := eq_of_timed honly hl hrequired
      exact .inr (.inr ⟨hmet, hnew⟩)

/-- **An evaluation that is watched stops the timer** where the thresholds are not met. -/
theorem Evaluated.Watched.stops (honly : cond.timed = [cc]) (hwatch : e.Watched state cond cc)
    (hmet : cc.met e.obs e.context = false) :
    e.after cond (e.context.timer state e.ti) = none := by
  rw [Evaluated.Watched, e.visited_eq] at hwatch
  refine (eval_of_unmet (fun _ => rfl) ?_).2 fun hrunning => hwatch hrunning hmet
  intro cc' hvisited hrequired
  rwa [eq_of_timed honly (BoolExpr.mem_leaves_of_visited hvisited) hrequired]

/-- A condition that is a counter condition is watched while there is a node to check. -/
theorem watched_counter : e.Watched state (.counter cc) cc ↔
    (e.context.timer state e.ti ≠ none → nodesToCheck e.obs.cache e.context ≠ []) := by
  have hvisited : ConditionLeaf.counter cc ∈ e.visited state (.counter cc) := by
    rw [Evaluated.visited, ConditionDefinition.expr]
    exact List.mem_singleton_self _
  constructor
  · intro hwatch hrunning
    cases hmet : cc.met e.obs e.context with
    | true => exact CounterCondition.nodes_of_met hmet
    | false => exact (hwatch hrunning hmet).1
  · intro hnodes hrunning hmet
    exact ⟨hnodes hrunning, cc, hvisited, hmet⟩

end Evaluation

/-! ## A visit -/

section Run

variable {state : String} {cond : ConditionDefinition} {cc : CounterCondition}

/-- **A timer that is running was started by an evaluation since which the thresholds have been
    met.** -/
theorem Linked.since_of_watched (honly : cond.timed = [cc]) {es : List Evaluated}
    {timer : Option DateTime} (hlink : Linked state cond none es timer)
    (hwatch : ∀ e ∈ es, e.Watched state cond cc) {t : DateTime} (ht : timer = some t) :
    ∃ before e₀ since, es = before ++ e₀ :: since ∧ e₀.obs.now = t ∧
      ∀ e ∈ e₀ :: since, cc.met e.obs e.context = true := by
  induction es using List.reverseRecOn generalizing timer with
  | nil =>
    cases hlink
    cases ht
  | append_singleton es e ih =>
    obtain ⟨mid, hes, hfound, hend⟩ := hlink.split
    have hlast : timer = e.after cond mid := hend
    have hinit : ∀ e' ∈ es, e'.Watched state cond cc :=
      fun e' he' => hwatch e' (List.mem_append_left _ he')
    cases hmet : cc.met e.obs e.context with
    | false =>
      have hstops := (hwatch e (List.mem_append_right _ (List.mem_singleton_self e))).stops honly hmet
      rw [hfound, ← hlast, ht] at hstops
      cases hstops
    | true =>
      rcases (e.timer_cases honly mid).1 with hsame | hnone | ⟨-, hnew⟩
      · obtain ⟨before, e₀, since, rfl, hstart, hall⟩ :=
          ih hes hinit (hsame.symm.trans (hlast.symm.trans ht))
        refine ⟨before, e₀, since ++ [e], by simp, hstart, fun e' he' => ?_⟩
        rw [← List.cons_append] at he'
        rcases List.mem_append.mp he' with hmem | hmem
        · exact hall e' hmem
        · rw [List.mem_singleton.mp hmem]
          exact hmet
      · rw [← hlast, ht] at hnone
        cases hnone
      · rw [← hlast, ht] at hnew
        refine ⟨es, e, [], rfl, (Option.some.inj hnew).symm, fun e' he' => ?_⟩
        rw [List.mem_singleton.mp he']
        exact hmet

/-- Where the condition is true, its timer was running when the evaluation began, and long
    enough. -/
theorem Evaluated.HoldsAt.waited {e : Evaluated} (honly : cond.timed = [cc]) {secs : Nat}
    (hsecs : cc.required = some secs) (hholds : e.HoldsAt state cond cc) :
    cc.met e.obs e.context = true ∧ ∃ t, e.context.timer state e.ti = some t ∧
      ¬ e.obs.now - t < durationFromSecs secs := by
  obtain ⟨context, hmem, htrue⟩ := hholds
  have hsame := (BoolExpr.eval_invariant (I := SameButFirstTrue e.context)
    (fun l _ s hs => (evaluateLeaf_timer e.obs state e.ti l hs).2.2) (.refl e.context)).2 _ hmem
  have hverdict := (evaluateLeaf_timer e.obs state e.ti (.counter cc) hsame).1
  have hvalue : cc.verdict e.obs e.context (context.timer state e.ti) = true :=
    hverdict.symm.trans htrue
  have htrace : (ConditionLeaf.counter cc, context.timer state e.ti) ∈
      cond.expr.trace (ConditionLeaf.step e.obs e.context) (e.context.timer state e.ti) := by
    rw [← (evaluateCondition_timer e.obs state e.ti cond e.context).2.2]
    exact List.mem_map_of_mem hmem
  have hcases := (e.timer_cases honly (e.context.timer state e.ti)).2 _ htrace
  rw [CounterCondition.verdict, Bool.and_eq_true, hsecs] at hvalue
  obtain ⟨hmet, hwaited⟩ := hvalue
  refine ⟨hmet, ?_⟩
  obtain ⟨dur, hdur, -⟩ := Option.bind_eq_some_iff.mp hsecs
  have helapsed : ¬ e.obs.now - (context.timer state e.ti).getD e.obs.now <
      durationFromSecs secs := by
    simpa [hdur] using hwaited
  -- a timer that is started in this evaluation has not waited at all
  have hlong : ¬ e.obs.now - e.obs.now < durationFromSecs secs → False := by
    rw [Int.sub_self]
    exact fun h => h (durationFromSecs_pos (CounterCondition.required_pos hsecs))
  rcases hcases with hfound | hnone | ⟨-, hnew⟩
  · simp only at hfound
    rw [hfound] at helapsed
    rcases Option.eq_none_or_eq_some (e.context.timer state e.ti) with hnone | ⟨t, ht⟩
    · rw [hnone] at helapsed
      exact (hlong helapsed).elim
    · rw [ht] at helapsed
      exact ⟨t, ht, helapsed⟩
  · simp only at hnone
    rw [hnone] at helapsed
    exact (hlong helapsed).elim
  · simp only at hnew
    rw [hnew] at helapsed
    exact (hlong helapsed).elim

/-- **A condition that waits is true only when it has been sustained**, in every visit of its state
    in which its timer is its own and no evaluation leaves it running that does not meet the
    thresholds. -/
theorem sustainedIn_of_watched [Extern] {cfg : ControllerConfig} {definition : FsmDefinition}
    {log : List Evaluated} {inst : FsmInstance} {ti : Nat} {t : TransitionDefinition}
    (hvisit : TimedVisit cfg definition log inst)
    (ht : definition.transition? inst.currentState ti = some t) (hcond : t.when? = some cond)
    (hclock : ∀ e ∈ log, Representable e.obs.now) (honly : cond.timed = [cc])
    (hwatch : ∀ e ∈ log, e.ti = ti → e.Watched inst.currentState cond cc) :
    SustainedIn log inst.currentState ti cond cc := by
  rintro before e after secs rfl rfl hsecs hholds
  have hlink := hvisit.linked ht hcond
  rw [List.filter_append, List.filter_cons_of_pos (by simp)] at hlink
  obtain ⟨timer, hbefore, hfound, -⟩ := hlink.split
  obtain ⟨hmet, started, hrunning, helapsed⟩ := hholds.waited honly hsecs
  have hinit : ∀ x ∈ before.filter (·.ti == e.ti), x.Watched inst.currentState cond cc := by
    intro x hx
    obtain ⟨hmem, hti⟩ := List.mem_filter.mp hx
    exact hwatch x (List.mem_append_left _ hmem) (by simpa using hti)
  obtain ⟨before', e₀, since, hsplit, hstart, hall⟩ :=
    hbefore.since_of_watched honly hinit (hfound.symm.trans hrunning)
  have hmem : e₀ ∈ before := by
    have hmem' : e₀ ∈ before.filter (·.ti == e.ti) := by simp [hsplit]
    exact (List.mem_filter.mp hmem').1
  have hfirst := hclock e₀ (List.mem_append_left _ hmem)
  have hnow := hclock e (List.mem_append_right _ List.mem_cons_self)
  refine ⟨before', e₀, since ++ [e], ?_, ?_, ?_⟩
  · rw [List.filter_append, hsplit, List.filter_cons_of_pos (by simp)]
    simp
  · rw [hstart] at hfirst ⊢
    exact le_elapsed hfirst hnow helapsed
  · intro x hx
    rw [← List.cons_append] at hx
    rcases List.mem_append.mp hx with hmem | hmem
    · exact hall x hmem
    · rw [List.mem_singleton.mp hmem]
      exact hmet

end Run

/-! ## Traffic that nobody reports for a while -/

/-- A surge of drops. -/
def surge : ConditionDefinition := .counter (surgeOf "drop_all")

example : (watchFor surge).validate = .ok () := by decide +kernel

/-- The reports have expired. -/
def expired (now : DateTime) : Observation := ⟨∅, now⟩

theorem surge_met :
    (surgeOf "drop_all").met (reported ["drop_all"] 0) watching = true ∧
      (surgeOf "drop_all").met (expired (5400 * 10 ^ 9)) waiting = false ∧
      (surgeOf "drop_all").met (reported ["drop_all"] (7200 * 10 ^ 9)) waiting = true := by
  decide +kernel

theorem visit_surge : @TimedVisit .sample plainConfig (watchFor surge)
    [⟨0, reported ["drop_all"] 0, watching⟩] (watcher waiting) := by
  refine visit_watchFor_observe (visit_watchFor surge) ?_
  rw [surge, evaluateCondition, surgeOf_starts surge_met.1]

/-- An evaluation without a node to check leaves the timer. -/
theorem surge_waits (now : DateTime) :
    (evaluateCondition (expired now) "watch" 0 surge waiting).2 = waiting := by
  rw [surge, evaluateCondition, evaluateCounterCondition]
  rfl

/-- After two hours the condition is true at a report. -/
theorem surge_holds :
    (⟨0, reported ["drop_all"] (7200 * 10 ^ 9), waiting⟩ : Evaluated).HoldsAt "watch" surge
      (surgeOf "drop_all") := by
  refine ⟨waiting, ?_, ?_⟩
  · rw [surge, ConditionDefinition.expr]
    exact List.mem_singleton_self _
  · rw [(evaluateCounterCondition_timer _ _ _ _ _).1]
    decide +kernel

theorem representable_of_le {now : Int} (h : 0 ≤ now ∧ now ≤ 7200 * 10 ^ 9) :
    Representable now := by
  show (-8334601228800 * 10 ^ 9 : Int) ≤ now ∧ now < 8210266876800 * 10 ^ 9
  omega

/-- A node that reports throughout: the condition is true after two hours, and sustained. -/
theorem sustainedIn_surge :
    SustainedIn [⟨0, reported ["drop_all"] 0, watching⟩,
      ⟨0, reported ["drop_all"] (7200 * 10 ^ 9), waiting⟩] "watch" 0 surge
      (surgeOf "drop_all") := by
  refine @sustainedIn_of_watched _ _ .sample plainConfig (watchFor surge) _ (watcher _) 0 _
    (visit_watchFor_observe visit_surge rfl) rfl rfl ?_ ?_ ?_
  · intro e he
    rcases List.mem_pair.mp he with rfl | rfl
    · exact representable_of_le ⟨Int.le_refl 0, by decide⟩
    · exact representable_of_le ⟨by decide, Int.le_refl _⟩
  · rw [ConditionDefinition.timed, surge, ConditionDefinition.expr]
    decide +kernel
  · intro e he _
    refine watched_counter.mpr fun _ => ?_
    rcases List.mem_pair.mp he with rfl | rfl
    · exact CounterCondition.nodes_of_met surge_met.1
    · exact CounterCondition.nodes_of_met surge_met.2.2

/-- The reports expire, and come again when two hours have passed. -/
def surgeLog : List Evaluated :=
  [⟨0, reported ["drop_all"] 0, watching⟩, ⟨0, expired (5400 * 10 ^ 9), waiting⟩,
    ⟨0, reported ["drop_all"] (7200 * 10 ^ 9), waiting⟩]

theorem visit_surgeLog : ∃ context,
    @TimedVisit .sample plainConfig (watchFor surge) surgeLog (watcher context) :=
  ⟨_, visit_watchFor_observe (visit_watchFor_observe visit_surge (surge_waits (5400 * 10 ^ 9))) rfl⟩

theorem surgeLog_clock : ∀ e ∈ surgeLog, Representable e.obs.now := by
  intro e he
  rcases List.mem_cons.mp he with rfl | he
  · exact representable_of_le ⟨Int.le_refl 0, by decide⟩
  · rcases List.mem_pair.mp he with rfl | rfl
    · exact representable_of_le ⟨by decide, by decide⟩
    · exact representable_of_le ⟨by decide, Int.le_refl _⟩

/-- Then the condition is true at once, without having been sustained. -/
theorem not_sustainedIn : ¬ ∀ definition log inst ti t cond cc,
    @TimedVisit .sample plainConfig definition log inst →
      definition.transition? inst.currentState ti = some t → t.when? = some cond →
      (∀ e ∈ log, Representable e.obs.now) → SustainedIn log inst.currentState ti cond cc := by
  intro hall
  obtain ⟨context, hvisit⟩ := visit_surgeLog
  have hsustained := hall (watchFor surge) _ _ 0 _ _ (surgeOf "drop_all") hvisit rfl rfl
    surgeLog_clock
  have hfor : SustainedFor (surgeOf "drop_all") (7200 * 10 ^ 9) (7200 * 10 ^ 9) surgeLog :=
    hsustained [_, _] _ [] 7200 rfl rfl (by decide +kernel) surge_holds
  obtain ⟨before, e₀, since, hsplit, hstart, hmet⟩ := hfor
  rcases before with _ | ⟨e₁, _ | ⟨e₂, _ | ⟨e₃, before⟩⟩⟩
  · -- since the first evaluation: the second does not meet the thresholds
    cases hsplit
    have hsecond := hmet _ (List.mem_cons_of_mem _ List.mem_cons_self)
    rw [surge_met.2.1] at hsecond
    cases hsecond
  · cases hsplit
    revert hstart
    decide
  · cases hsplit
    revert hstart
    decide
  · have hlength := congrArg List.length hsplit
    simp [surgeLog] at hlength

end PaciNet

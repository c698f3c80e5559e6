import PaciNet.Core.Fsm.Definition

/-!
# What `validate` establishes

`validate` is a sequence of checks with early returns. **A definition it accepts is `Valid`**: the
initial state and the target of every transition are defined, terminal states have no transitions
out of them, and every duration text in it parses, those of conditions at any depth included.
-/

set_option autoImplicit false

namespace PaciNet

mutual

/-- The `for` durations of a condition parse. -/
def ConditionDefinition.durationsParse : ConditionDefinition → Bool
  | .counter cc => cc.forDuration.all fun dur => (parseDuration dur).isOk
  | .simple _ => true
  | .compound and or not =>
    (match and with
      | none => true
      | some conditions => allDurationsParse conditions) &&
    (match or with
      | none => true
      | some conditions => allDurationsParse conditions) &&
    (match not with
      | none => true
      | some inner => inner.durationsParse)

def allDurationsParse : List ConditionDefinition → Bool
  | [] => true
  | c :: cs => c.durationsParse && allDurationsParse cs

end

/-- The durations of a transition parse. -/
def TransitionDefinition.durationsParse (t : TransitionDefinition) : Bool :=
  t.after.all (fun after => (parseDuration after).isOk) && t.when?.all (·.durationsParse)

/-- What every definition that passed its checks satisfies. -/
structure FsmDefinition.Valid (d : FsmDefinition) : Prop where
  initial : (d.states.lookup d.initial).isSome
  target : ∀ state sd, d.states.lookup state = some sd → ∀ t ∈ sd.transitions,
    (d.states.lookup t.toState).isSome
  terminal : ∀ state sd, d.states.lookup state = some sd → sd.terminal → sd.transitions = []
  durations : ∀ state sd, d.states.lookup state = some sd → ∀ t ∈ sd.transitions, t.durationsParse

/-! ## Checks in sequence -/

section Checks

variable {ε α β : Type}

theorem check_ok {x : Except ε Unit} {f : Unit → Except ε β} {b : β} :
    x >>= f = .ok b ↔ x = .ok () ∧ f () = .ok b := by
  cases x with
  | error e => simp [bind, Except.bind]
  | ok u => simp [bind, Except.bind]

theorem forEnum_ok {check : Nat → α → Except ε Unit} {i : Nat} {as : List α}
    (h : forEnum check i as = .ok ()) : ∀ a ∈ as, ∃ k, check k a = .ok () := by
  induction as generalizing i with
  | nil => intro a ha; cases ha
  | cons a as ih =>
    rw [forEnum, check_ok] at h
    obtain ⟨hcheck, hrest⟩ := h
    intro b hb
    rcases List.mem_cons.1 hb with rfl | hb
    · exact ⟨i, hcheck⟩
    · exact ih hrest b hb

end Checks

/-! ## One condition -/

theorem validateCounter_ok {cc : CounterCondition} {stateName : String} {ti : Nat}
    (h : validateCounter cc stateName ti = .ok ()) :
    (ConditionDefinition.counter cc).durationsParse := by
  rw [ConditionDefinition.durationsParse]
  cases hdur : cc.forDuration with
  | none => rfl
  | some dur =>
    cases hparse : parseDuration dur with
    | ok secs => simp [hparse, Except.isOk, Except.toBool]
    | error e =>
      -- every path through the checks ends in an error
      simp only [validateCounter, hdur, hparse] at h
      split at h
      · cases h
      · split at h <;> (try split at h) <;> cases h

/-- The parts of a compound condition are checked one after the other. -/
theorem validateCompound_ok {stateName : String} {ti : Nat}
    {and or : Option (List ConditionDefinition)} {not : Option ConditionDefinition}
    (h : validateCondition stateName ti (.compound and or not) = .ok ()) :
    (∀ conditions ∈ and, validateConditions stateName ti conditions = .ok ()) ∧
      (∀ conditions ∈ or, validateConditions stateName ti conditions = .ok ()) ∧
      ∀ inner ∈ not, validateCondition stateName ti inner = .ok () := by
  cases and <;> cases or <;> cases not <;> simp_all [validateCondition, check_ok]

mutual

/-- **A condition that passed its check has durations that parse**, at any depth. -/
theorem validateCondition_ok {stateName : String} {ti : Nat} :
    ∀ {cond : ConditionDefinition}, validateCondition stateName ti cond = .ok () →
      cond.durationsParse
  | .counter cc, h => validateCounter_ok h
  | .simple _, _ => by rw [ConditionDefinition.durationsParse]
  | .compound and or not, h => by
    obtain ⟨hand, hor, hnot⟩ := validateCompound_ok h
    rw [ConditionDefinition.durationsParse.eq_def]
    simp only [Bool.and_eq_true]
    refine ⟨⟨?_, ?_⟩, ?_⟩
    · cases and with
      | none => rfl
      | some conditions => exact validateConditions_ok (hand conditions rfl)
    · cases or with
      | none => rfl
      | some conditions => exact validateConditions_ok (hor conditions rfl)
    · cases not with
      | none => rfl
      | some inner => exact validateCondition_ok (hnot inner rfl)

theorem validateConditions_ok {stateName : String} {ti : Nat} :
    ∀ {conditions : List ConditionDefinition}, validateConditions stateName ti conditions = .ok () →
      allDurationsParse conditions
  | [], _ => by rw [allDurationsParse]
  | c :: cs, h => by
    rw [validateConditions, check_ok] at h
    obtain ⟨hc, hcs⟩ := h
    rw [allDurationsParse, Bool.and_eq_true]
    exact ⟨validateCondition_ok hc, validateConditions_ok hcs⟩

end

/-! ## A definition -/

namespace FsmDefinition

variable {d : FsmDefinition}

theorem validateTransition_ok {stateName : String} {t : TransitionDefinition}
    (h : d.validateTransition stateName t = .ok ()) :
    (d.states.lookup t.toState).isSome ∧ t.after.all fun after => (parseDuration after).isOk := by
  simp only [validateTransition] at h
  split at h
  · cases h
  · rename_i htarget
    refine ⟨by simpa [Option.isSome_iff_ne_none] using htarget, ?_⟩
    cases hafter : t.after with
    | none => rfl
    | some after =>
      cases hparse : parseDuration after with
      | ok secs => simp [hparse, Except.isOk, Except.toBool]
      | error e =>
        rw [hafter] at h
        simp only [hparse] at h
        cases h

/-- **A definition that `validate` accepts is valid.** -/
theorem valid_of_validate (h : d.validate = .ok ()) : d.Valid := by
  simp only [validate] at h
  split at h
  · cases h
  rename_i hinitial
  rw [check_ok, check_ok] at h
  obtain ⟨htransitions, hconditions, -⟩ := h
  have hstates (state : String) (sd : StateDefinition) (hs : d.states.lookup state = some sd) :
      ⟨state, sd⟩ ∈ d.states.entries := AList.mem_lookup_iff.1 hs
  -- the two passes over the states, for one of them
  have hfirst (state : String) (sd : StateDefinition) (hs : d.states.lookup state = some sd) :
      (∀ t ∈ sd.transitions, d.validateTransition state t = .ok ()) ∧
        (sd.terminal → sd.transitions = []) := by
    obtain ⟨k, hk⟩ := forEnum_ok htransitions _ (hstates state sd hs)
    obtain ⟨hall, hterminal⟩ := check_ok.1 hk
    refine ⟨fun t ht => (forEnum_ok hall t ht).choose_spec, fun hsd => ?_⟩
    rw [hsd] at hterminal
    cases hempty : sd.transitions with
    | nil => rfl
    | cons t ts =>
      rw [hempty] at hterminal
      cases hterminal
  constructor
  · simpa [Option.isSome_iff_ne_none] using hinitial
  · intro state sd hs t ht
    exact (validateTransition_ok ((hfirst state sd hs).1 t ht)).1
  · intro state sd hs
    exact (hfirst state sd hs).2
  · intro state sd hs t ht
    rw [TransitionDefinition.durationsParse, Bool.and_eq_true]
    refine ⟨(validateTransition_ok ((hfirst state sd hs).1 t ht)).2, ?_⟩
    obtain ⟨k, hk⟩ := forEnum_ok hconditions _ (hstates state sd hs)
    obtain ⟨ti, hti⟩ := forEnum_ok hk t ht
    cases hwhen : t.when? with
    | none => rfl
    | some cond =>
      rw [hwhen] at hti
      exact validateCondition_ok hti

end FsmDefinition

end PaciNet

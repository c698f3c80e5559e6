import PaciNet.Proof.InstanceSteps
import PaciNet.Proof.Paths
import PaciNet.Proof.TimedVisits

/-!
# Whose the timers are

The first-true times are kept under concatenated strings, and a transition clears those of the state
it leaves by their common beginning. `TimedVisits` follows one instance. Here the keys are followed
through every run of a controller: **as long as a definition is not replaced, every key is made of
the state the instance is in and the index of one of its transitions, and a transition leaves
none**. The names of the states do not matter: all the keys there are begin with the name of the
state that is left, and a key that began with it too and belonged to another state is never there.
-/

set_option autoImplicit false

namespace PaciNet

open Lib Prog

/-! ## One instance -/

/-- The keys of the first-true times are made of the state and the indices of its transitions. -/
def FsmInstance.KeysOfState (definition : FsmDefinition) (inst : FsmInstance) : Prop :=
  ∀ key ∈ inst.context.counterConditionFirstTrue.keys, ∃ ti t,
    definition.transition? inst.currentState ti = some t ∧
      key = conditionKey inst.currentState ti

/-- What an instance that has been read can be while the transitions of its state are evaluated. -/
inductive Evaluating (definition : FsmDefinition) (inst : FsmInstance) : FsmInstance → Prop
  | read : Evaluating definition inst inst
  | evaluated {inst' inst'' : FsmInstance} {ti : Nat} {t : TransitionDefinition}
      {es : List Answered} {fires : Bool} (before : Evaluating definition inst inst')
      (transition : definition.transition? inst'.currentState ti = some t)
      (evaluates :
        (shouldFire inst'.currentState ti t inst').Unfolds es (.done (fires, inst''))) :
      Evaluating definition inst inst''

section Keys

variable {definition : FsmDefinition} {inst inst' : FsmInstance} {es : List Answered}

/-- No keys, whatever the state. -/
theorem FsmInstance.keysOfState_of_empty (h : inst.context.counterConditionFirstTrue = ∅) :
    inst.KeysOfState definition := by
  intro key hkey
  rw [h] at hkey
  cases hkey

theorem FsmInstance.KeysOfState.timersOf (h : inst.KeysOfState definition) :
    inst.context.TimersOf inst.currentState := by
  intro key hkey
  obtain ⟨ti, t, -, heq⟩ := h key (AList.mem_keys.mp (AList.lookup_isSome.mp hkey))
  exact ⟨ti, heq⟩

/-- Forgetting the timers of the state leaves none at all. -/
theorem FsmContext.TimersOf.forgetState_eq_empty {context : FsmContext} {state : String}
    (h : context.TimersOf state) : (context.forgetState state).counterConditionFirstTrue = ∅ := by
  have hkeys : (context.forgetState state).counterConditionFirstTrue.keys = [] := by
    apply List.eq_nil_iff_forall_not_mem.mpr
    intro key hkey
    exact AList.lookup_eq_none.mp (h.forgetState key) (AList.mem_keys.mpr hkey)
  apply AList.ext
  exact List.map_eq_nil_iff.mp hkeys

/-- Evaluating a transition touches no key but its own. -/
theorem shouldFire_other {state : String} {ti : Nat} {t : TransitionDefinition} {fires : Bool}
    (h : (shouldFire state ti t inst).Unfolds es (.done (fires, inst'))) {key : String}
    (hkey : key ≠ conditionKey state ti) :
    inst'.context.counterConditionFirstTrue.lookup key =
      inst.context.counterConditionFirstTrue.lookup key := by
  unfold shouldFire at h
  split at h
  · obtain ⟨obs, es', rfl, hk⟩ := h.call_inv
    cases hk.done_inv.2
    exact evaluateCondition_other _ _ _ _ _ hkey
  · split at h
    · obtain ⟨now, es', rfl, hk⟩ := h.call_inv
      cases hk.done_inv.2
      rfl
    · cases h.done_inv.2
      rfl
  · cases h.done_inv.2
    rfl

/-- Evaluating a transition of the state adds at most its own key. -/
theorem FsmInstance.KeysOfState.evaluated (h : inst.KeysOfState definition) {ti : Nat}
    {t : TransitionDefinition} {fires : Bool}
    (ht : definition.transition? inst.currentState ti = some t)
    (heval : (shouldFire inst.currentState ti t inst).Unfolds es (.done (fires, inst'))) :
    inst'.KeysOfState definition := by
  have hstate : inst'.currentState = inst.currentState := by
    obtain ⟨context, -, rfl⟩ := shouldFire_same heval
    rfl
  intro key hkey
  rw [hstate]
  by_cases heq : key = conditionKey inst.currentState ti
  · exact ⟨ti, t, ht, heq⟩
  · have hsome := AList.lookup_isSome.mpr (AList.mem_keys.mpr hkey)
    rw [shouldFire_other heval heq] at hsome
    exact h key (AList.mem_keys.mp (AList.lookup_isSome.mp hsome))

theorem Evaluating.keysOfState (h : Evaluating definition inst inst')
    (hinst : inst.KeysOfState definition) : inst'.KeysOfState definition := by
  induction h with
  | read => exact hinst
  | evaluated before transition evaluates ih => exact ih.evaluated transition evaluates

variable [Extern] (cfg : ControllerConfig)

/-- **A transition leaves no key.** -/
theorem FsmInstance.KeysOfState.fired (h : inst.KeysOfState definition) {toState : String}
    {trigger : TransitionTrigger} {definition' : FsmDefinition}
    (hfire : (fireTransition cfg inst toState trigger definition').Unfolds es (.done inst')) :
    inst'.context.counterConditionFirstTrue = ∅ := by
  rw [fireTransition_firstTrue cfg hfire]
  exact h.timersOf.forgetState_eq_empty

theorem fireTransition_definitionName {toState : String} {trigger : TransitionTrigger}
    (h : (fireTransition cfg inst toState trigger definition).Unfolds es (.done inst')) :
    inst'.definitionName = inst.definitionName := by
  obtain ⟨now, es₁, rfl, h₁⟩ := h.call_inv
  rw [Prog.done_bind] at h₁
  obtain ⟨es₂, es₃, _, rfl, -, h₂⟩ := Prog.unfolds_bind.mp h₁
  split at h₂
  · cases h₂.done_inv.2
    rfl
  · obtain ⟨es₄, es₅, context, rfl, -, h₃⟩ := Prog.unfolds_bind.mp h₂
    unfold completeIfTerminal at h₃
    split at h₃
    · obtain ⟨es₆, es₇, _, rfl, -, h₄⟩ := Prog.unfolds_bind.mp h₃
      cases h₄.done_inv.2
      rfl
    · cases h₃.done_inv.2
      rfl

end Keys

/-! ## Runs -/

/-- The instances of a definition have keys of their state only. -/
def keysContract (definition : FsmDefinition) : FsmContract where
  Known name d := name = definition.name → d = definition
  Good inst := inst.definitionName = definition.name → inst.KeysOfState definition

theorem keysContract_follows [Extern] (cfg : ControllerConfig) (definition : FsmDefinition) :
    (keysContract definition).Follows cfg where
  deployment _ h _ := FsmInstance.keysOfState_of_empty (startFrom_firstTrue cfg h)
  adaptive _ _ h _ := FsmInstance.keysOfState_of_empty (startFrom_firstTrue cfg h)
  evaluated hgood hknown hs ht h hname := by
    obtain ⟨context, -, rfl⟩ := shouldFire_same h
    rw [hknown hname] at hs
    refine (hgood hname).evaluated ?_ h
    rw [FsmDefinition.transition?, hs]
    exact ht
  fired hgood hknown hs ht h hname := by
    rw [fireTransition_definitionName cfg h] at hname
    exact FsmInstance.keysOfState_of_empty ((hgood hname).fired cfg h)
  kept hgood hcontext hstate hdefinition hname := by
    rw [FsmInstance.KeysOfState, hcontext, hstate]
    exact hgood (hdefinition ▸ hname)

/-- **In every run in which a definition is not replaced, the keys of its instances are those of
    their states, and every transition leaves none.** This includes the instances in between: those
    that have been read and some of whose transitions have been evaluated. -/
theorem timerKeys_ofState [Extern] (cfg : ControllerConfig) {definition : FsmDefinition}
    {c₀ c : Pool} (hidle : c₀.threads = [])
    (hstored : ∀ d, c₀.shared.storage.fsmDefinitions.get? definition.name = some d →
      d = definition)
    (hfresh : ∀ inst ∈ c₀.shared.storage.fsmInstances.rows,
      inst.definitionName ≠ definition.name)
    (hrun : (controller cfg MemoryStorage).Steps (KeepsDefinition definition) c₀ c) :
    ∀ inst ∈ c.shared.storage.fsmInstances.rows, inst.definitionName = definition.name →
      ∀ inst', Evaluating definition inst inst' → inst'.KeysOfState definition ∧
        ∀ toState trigger es fired,
          (fireTransition cfg inst' toState trigger definition).Unfolds es (.done fired) →
            fired.context.counterConditionFirstTrue = ∅ := by
  have hholds : (keysContract definition).Holds c₀.shared :=
    ⟨fun name d hget hname => hstored d (hname ▸ hget),
      fun inst hi hname => absurd hname (hfresh inst hi)⟩
  have henv (c : Pool) (w : World MemoryStorage) (hw : KeepsDefinition definition c (.env w))
      (hc : (keysContract definition).Holds c.shared) : (keysContract definition).Holds w := by
    refine ⟨fun name d hget hname => hw.2 d (hname ▸ hget), ?_⟩
    rw [hw.1]
    exact hc.good
  have hend := (keysContract_follows cfg definition).steps henv hrun hidle hholds
  intro inst hinst hname inst' hevaluating
  have hkeys := hevaluating.keysOfState (hend.good inst hinst hname)
  exact ⟨hkeys, fun _ _ _ _ h => hkeys.fired cfg h⟩

/-- A rule that is waited for, and a controller that has been told of a surge. -/
def surging : FsmDefinition := watchFor (.counter (surgeOf "a"))

def Pool.withSurge : Pool where
  shared := { World.init (MemoryStorage.new.storeFsmDefinition surging).2 with
    cache := (reported ["a"] 0).cache }
  threads := []

/-- The sweep has started the timer of the transition to "done". -/
theorem timerKeys_ofState_surge :
    ∃ c, (@controller .sample plainConfig MemoryStorage _).Steps (KeepsDefinition surging)
      Pool.withSurge c ∧ ∃ inst ∈ c.shared.storage.fsmInstances.rows,
        inst.context.counterConditionFirstTrue.keys = ["watch:0"] ∧ inst.KeysOfState surging ∧
          ∀ trigger es fired,
            (@fireTransition .sample plainConfig inst "done" trigger surging).Unfolds es
              (.done fired) → fired.context.counterConditionFirstTrue = ∅ := by
  obtain ⟨c, -, hrun, -, hP⟩ := System.steps_of_runs (@controller .sample plainConfig _ _)
    Pool.withSurge (keepsDefinition_sound surging)
    (.arrive (.startInstance "surge" "rules: [a]" none) :: Label.turns 0 4 (.quiet 0 "i1") ++
      .arrive .evaluateAll :: Label.turns 1 5 (.quiet 1 "")) []
    (fun (c _ : Pool) => c.shared.storage.fsmInstances.rows.any fun (inst : FsmInstance) =>
      decide (inst.definitionName = "surge" ∧
        inst.context.counterConditionFirstTrue.keys = ["watch:0"])) (by decide +kernel)
  obtain ⟨inst, hinst, hP⟩ := List.any_eq_true.1 hP
  obtain ⟨hname, hkeys⟩ := of_decide_eq_true hP
  have hstored (d : FsmDefinition)
      (h : Pool.withSurge.shared.storage.fsmDefinitions.get? surging.name = some d) :
      d = surging := (Option.some.inj h).symm
  have hthrough := @timerKeys_ofState .sample plainConfig surging _ _ rfl hstored
    (fun _ h => by cases h) hrun inst hinst hname inst .read
  exact ⟨c, hrun, inst, hinst, hkeys, hthrough.1, fun trigger => hthrough.2 "done" trigger⟩

end PaciNet

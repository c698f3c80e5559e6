import Mathlib.Data.List.Chain
import PaciNet.Lib.Clock
import PaciNet.Proof.FsmContract
import PaciNet.Proof.Sustained

/-!
# Transitions that wait

A transition record with the trigger `Timer` should have been made at least `after` later than the
record before it. The label says that the transition has an `after`, and not that its `after` has
been waited for: where a transition has a `when` too, the evaluation looks at the `when` alone.

**Timer records wait in every run in which no transition fires that has both.** The engine is shown
to write only such instances, under a clock that has not gone back since the request began; the time
base of a running instance is never before its last record.
-/

set_option autoImplicit false

namespace PaciNet

open Lib

/-! ## The law -/

/-- A transition of the definition accounts for the record: its `after` has passed since the record
    before. -/
def FsmDefinition.Waits (d : FsmDefinition) (prev record : FsmTransitionRecord) : Prop :=
  ∃ stateDef t after secs, d.states.lookup record.fromState = some stateDef ∧
    t ∈ stateDef.transitions ∧ t.toState = record.toState ∧ t.after = some after ∧
    parseDuration after = .ok secs ∧ prev.timestamp ≤ record.timestamp - (secs : Int) * 10 ^ 9

/-- Every record of a timer has waited, by a definition that is known under the name. -/
def FsmInstance.TimersWaited (Known : String → FsmDefinition → Prop) (inst : FsmInstance) : Prop :=
  inst.history.IsChain fun prev record =>
    record.trigger = .timer → ∃ d, Known inst.definitionName d ∧ d.Waits prev record

/-- The transition is not both conditional and timed. -/
def TransitionDefinition.Unmixed (t : TransitionDefinition) : Prop := t.when? = none ∨ t.after = none

/-- When an operation is performed, and what an answer tells of it. -/
def clock : Clock Op Op.Res Ext DateTime where
  now := Ext.now
  reading
    | .now, t => some t
    | .observe, obs => some obs.now
    | _, _ => none

theorem clock_lawful [Extern] (cfg : ControllerConfig) :
    clock.Lawful (controller cfg MemoryStorage).toMachine := by
  intro x o w r w' new t hx ht
  have hx' : World.exec x o w = some (r, w', new) := hx
  cases o with
  | now =>
    cases hx'
    cases ht
    rfl
  | observe =>
    cases hx'
    cases ht
    rfl
  | _ => cases ht

/-- The task is about to take the transition with the index. -/
def Task.Fires (th : Task) (inst : FsmInstance) (ti : Nat) : Prop :=
  ∃ k, th.prog = .call (.mark (.fire inst ti)) k

/-- Requests arrive and tasks run in any order, at instants of `DateTime<Utc>`; the environment may
    store known definitions and leaves the instances alone. -/
def Clocked (Known : String → FsmDefinition → Prop) : StepCondition
  | _, .arrive _ => True
  | _, .run _ x => Representable x.now
  | c, .env w => w.storage.fsmInstances = c.shared.storage.fsmInstances ∧
      ∀ name d, w.storage.fsmDefinitions.get? name = some d → Known name d

/-- No transition fires that has both a `when` and an `after`. -/
def FiresUnmixed (Known : String → FsmDefinition → Prop) : StepCondition
  | c, .run i _ => ∀ th ∈ c.threads[i]?, ∀ inst ti, Task.Fires th inst ti →
      ∀ d t, Known inst.definitionName d → d.transition? inst.currentState ti = some t → t.Unmixed
  | _, _ => True

/-- A run under a clock that does not go back, of a controller that starts without requests or
    instances. -/
structure TimedRun [Extern] (cfg : ControllerConfig) (Known : String → FsmDefinition → Prop)
    (C : StepCondition) (t₀ t : DateTime) (c₀ c : Pool) : Prop where
  idle : c₀.threads = []
  fresh : c₀.shared.storage.fsmInstances.rows = []
  known : ∀ name d, c₀.shared.storage.fsmDefinitions.get? name = some d → Known name d
  steps : clock.Timed (controller cfg MemoryStorage) C (t₀, c₀) (t, c)

/-- **Timer transitions wait**: so say the histories of all instances that are stored. -/
def TimersWait [Extern] (cfg : ControllerConfig) (Known : String → FsmDefinition → Prop)
    (C : StepCondition) : Prop :=
  ∀ t₀ t c₀ c, TimedRun cfg Known C t₀ t c₀ c →
    ∀ inst ∈ c.shared.storage.fsmInstances.rows, inst.TimersWaited Known

/-! ## Instances -/

section Instances

variable {Known : String → FsmDefinition → Prop} {inst : FsmInstance}

/-- The time base of a running instance is not before its last record. -/
structure FsmInstance.Timely (Known : String → FsmDefinition → Prop) (inst : FsmInstance) :
    Prop where
  waited : inst.TimersWaited Known
  current : inst.status = .running → Representable inst.updatedAt ∧
    ∀ r ∈ inst.history.getLast?, (r.timestamp : Int) ≤ inst.updatedAt

/-- A transition has waited for its `after`, by a clock reading. -/
def FsmInstance.WaitedFor (inst : FsmInstance) (seen : List DateTime) (t : TransitionDefinition) :
    Prop :=
  ∃ after secs now, t.after = some after ∧ parseDuration after = .ok secs ∧ now ∈ seen ∧
    Representable now ∧ inst.hasWaited now secs = true

/-- One more record keeps the law if it is not a timer's, or has waited. -/
theorem FsmInstance.TimersWaited.concat {history : List FsmTransitionRecord} {record : FsmTransitionRecord}
    (h : inst.TimersWaited Known)
    (hrecord : ∀ prev ∈ inst.history.getLast?, record.trigger = .timer →
      ∃ d, Known inst.definitionName d ∧ d.Waits prev record)
    (hhistory : history = inst.history ++ [record]) :
    FsmInstance.TimersWaited Known { inst with history := history } := by
  show List.IsChain _ history
  rw [hhistory, List.isChain_append]
  refine ⟨h, List.isChain_singleton record, fun prev hprev r hr => ?_⟩
  rw [List.head?_cons, Option.mem_some_iff] at hr
  rw [← hr]
  exact hrecord prev hprev

theorem FsmInstance.Timely.setContext (h : inst.Timely Known) (context : FsmContext) :
    (inst.setContext context).Timely Known := ⟨h.waited, h.current⟩

theorem FsmInstance.Timely.stopped (h : inst.Timely Known) {status : FsmInstanceStatus}
    (hstatus : status ≠ .running) : (inst.setStatus status).Timely Known :=
  ⟨h.waited, fun hrunning => absurd hrunning hstatus⟩

theorem FsmInstance.Timely.new {now : DateTime} (hnow : Representable now) (id name initial : String)
    (context : FsmContext) : (FsmInstance.new now id name initial context).Timely Known := by
  refine ⟨List.isChain_singleton _, fun _ => ⟨hnow, fun r hr => ?_⟩⟩
  cases hr
  exact Int.le_refl now

/-- **A transition that has waited, or is not a timer's, leaves a timely instance.** -/
theorem FsmInstance.Timely.transition (h : inst.Timely Known) (hrun : inst.status = .running)
    {definition : FsmDefinition} {stateDef : StateDefinition} {t : TransitionDefinition}
    (hd : Known inst.definitionName definition)
    (hs : definition.states.lookup inst.currentState = some stateDef)
    (ht : t ∈ stateDef.transitions) {seen : List DateTime} {now : DateTime}
    (hseen : ∀ u ∈ seen, (u : Int) ≤ now) (hnow : Representable now) {trigger : TransitionTrigger}
    (hwait : trigger = .timer → inst.WaitedFor seen t) (message : String) :
    (inst.transition now t.toState trigger message).Timely Known := by
  obtain ⟨hbase, hlast⟩ := h.current hrun
  refine ⟨h.waited.concat (fun prev hprev htimer => ?_) rfl, fun _ => ⟨hnow, ?_⟩⟩
  · obtain ⟨after, secs, read, hafter, hparse, hread, hrep, hwaited⟩ := hwait htimer
    refine ⟨definition, hd, stateDef, t, after, secs, hs, ht, rfl, hafter, hparse, ?_⟩
    have helapsed : ¬ read - inst.updatedAt < durationFromSecs secs := by
      simpa [FsmInstance.hasWaited] using hwaited
    have hlong : (inst.updatedAt : Int) ≤ read - secs * 10 ^ 9 := le_elapsed hbase hrep helapsed
    have hlater : (read : Int) - secs * 10 ^ 9 ≤ now - secs * 10 ^ 9 :=
      Int.sub_le_sub_right (hseen read hread) _
    exact Int.le_trans (hlast prev hprev) (Int.le_trans hlong hlater)
  · intro r hr
    have hmade : r = ⟨inst.currentState, t.toState, trigger, now, message⟩ := by
      simpa [FsmInstance.transition] using hr.symm
    rw [hmade]
    exact Int.le_refl now

end Instances

/-! ## Programs -/

section Programs

variable (Known : String → FsmDefinition → Prop)

/-- Timely instances, as a contract with the storage. -/
def timely : FsmContract := ⟨Known, FsmInstance.Timely Known⟩

/-- The contract, for a thread that reads the clock of the run and takes no transition that is
    both conditional and timed. -/
def timelyMonitor : Monitor Op Op.Res (List DateTime) :=
  clock.monitor ((timely Known).monitor.allow ()) fun o r =>
    (timely Known).monitor.expect o r ∧ match o, r with
      | .now, now => Representable now
      | .mark (.fire inst ti), _ => ∀ d t, Known inst.definitionName d →
          d.transition? inst.currentState ti = some t → t.Unmixed
      | _, _ => True

/-- The instance is timely, as far as the clock has not gone back. -/
def Owed (seen : List DateTime) (inst : FsmInstance) : Prop :=
  seen.Pairwise (· ≤ ·) → inst.Timely Known

variable {Known} {seen : List DateTime} {inst : FsmInstance}

theorem Owed.later {later : List DateTime} (h : Owed Known seen inst) (hlater : seen <+: later) :
    Owed Known later inst := fun hordered => h (hordered.sublist hlater.sublist)

theorem Owed.setContext (h : Owed Known seen inst) (context : FsmContext) :
    Owed Known seen (inst.setContext context) := fun hordered => (h hordered).setContext context

theorem Owed.stopped (h : Owed Known seen inst) {status : FsmInstanceStatus}
    (hstatus : status ≠ .running) : Owed Known seen (inst.setStatus status) :=
  fun hordered => (h hordered).stopped hstatus

variable {α : Type} {Q : List DateTime → α → Prop}

/-- What touches no instance reads on. -/
theorem wp_aside [Extern] {cfg : ControllerConfig} {p : Proc α} (hp : BuiltAside cfg p)
    (hQ : ∀ later a, seen <+: later → Q later a) : p.wp (timelyMonitor Known) Q seen :=
  Clock.wp_of_calls (hp.calls.mono fun _ ho => (FsmContract.silent ho ()).1) hQ

/-- An operation that reads no clock. -/
theorem wp_unread {o : Op} {f : o.Res → Proc α} (hread : ∀ r, clock.reading o r = none)
    (hallow : seen.Pairwise (· ≤ ·) → (timely Known).monitor.allow () o)
    (hf : ∀ r, (timelyMonitor Known).expect o r → (f r).wp (timelyMonitor Known) Q seen) :
    ((op o).bind f).wp (timelyMonitor Known) Q seen :=
  Clock.wp_quiet hread hallow hf

/-- Write an instance that is owed. -/
theorem wp_update {f : StorageResult Unit → Proc α} (h : Owed Known seen inst)
    (hf : ∀ r, (f r).wp (timelyMonitor Known) Q seen) :
    ((storage (.updateFsmInstance inst)).bind f).wp (timelyMonitor Known) Q seen :=
  wp_unread (fun _ => rfl) h fun r _ => hf r

/-- Whether a transition fires is decided on the context, or on the time it has waited. -/
theorem shouldFire_timely (inst : FsmInstance) (currentState : String) (ti : Nat)
    (t : TransitionDefinition) :
    (shouldFire currentState ti t inst).wp (timelyMonitor Known)
      (fun later r => seen <+: later ∧ (∃ context, r.2 = inst.setContext context) ∧
        (r.1 = true → t.when? = none → inst.WaitedFor later t)) seen := by
  simp only [shouldFire, Prog.bind_eq, Prog.pure_eq]
  split
  · rename_i condition hwhen
    refine wp_op.mpr ⟨fun _ => trivial, fun obs _ => ?_⟩
    refine ⟨List.prefix_append _ _, ⟨_, rfl⟩, fun _ hnone => ?_⟩
    rw [hwhen] at hnone
    cases hnone
  · rename_i after hwhen hafter
    split
    · rename_i secs hparse
      refine wp_op.mpr ⟨fun _ => trivial, fun now hnow => ?_⟩
      refine ⟨List.prefix_append _ _, ⟨inst.context, rfl⟩, fun hwaited _ => ?_⟩
      exact ⟨after, secs, now, hafter, hparse, List.mem_append_right _ (List.mem_singleton_self now),
        hnow.2, hwaited⟩
    · exact ⟨List.prefix_rfl, ⟨inst.context, rfl⟩, fun hfires => absurd hfires Bool.false_ne_true⟩
  · exact ⟨List.prefix_rfl, ⟨inst.context, rfl⟩, fun hfires => absurd hfires Bool.false_ne_true⟩

variable [Extern] (cfg : ControllerConfig) {definition : FsmDefinition}

theorem executeActionOf_timely (stateDef : StateDefinition) {Q : List DateTime → FsmContext → Prop}
    (hQ : ∀ later context, seen <+: later → Q later context) :
    (executeActionOf cfg stateDef inst).wp (timelyMonitor Known) Q seen := by
  unfold executeActionOf
  split
  · exact hQ seen _ List.prefix_rfl
  · rename_i action _
    obtain ⟨k, hk, heq⟩ := executeAction_eq cfg action inst
    rw [heq]
    exact wp_unread (fun _ => rfl) (fun _ => trivial) fun _ _ => wp_aside hk hQ

/-- **A transition that is fired leaves a timely instance**, if it is not a timer's or has waited. -/
theorem fireTransition_timely {stateDef : StateDefinition} {t : TransitionDefinition}
    {trigger : TransitionTrigger} (howed : Owed Known seen inst) (hrun : inst.status = .running)
    (hd : Known inst.definitionName definition)
    (hs : definition.states.lookup inst.currentState = some stateDef)
    (ht : t ∈ stateDef.transitions) (hwait : trigger = .timer → inst.WaitedFor seen t) :
    (fireTransition cfg inst t.toState trigger definition).wp (timelyMonitor Known)
      (Owed Known) seen := by
  simp only [fireTransition, Prog.bind_eq, Prog.pure_eq]
  refine wp_op.mpr ⟨fun _ => trivial, fun now hnow => ?_⟩
  refine Prog.wp_bind.mpr (wp_aside (emitFsm_built cfg _).aside fun later _ hlater => ?_)
  have hmoved (message : String) : Owed Known later ((inst.setContext
      (inst.context.forgetState inst.currentState)).transition now t.toState trigger message) := by
    intro hordered
    have hsplit := List.pairwise_append.mp (hordered.sublist hlater.sublist)
    have hleft := (howed hsplit.1).setContext (inst.context.forgetState inst.currentState)
    exact hleft.transition hrun hd hs ht
      (fun u hu => hsplit.2.2 u hu now (List.mem_singleton_self now)) hnow.2 hwait message
  split
  · exact hmoved _
  · rename_i entered _
    refine Prog.wp_bind.mpr (executeActionOf_timely cfg entered fun later' context hlater' => ?_)
    have hentered (message : String) := ((hmoved message).later hlater').setContext context
    unfold completeIfTerminal
    split
    · refine Prog.wp_bind.mpr (wp_aside (emitFsm_built cfg _).aside fun last _ hlast => ?_)
      exact ((hentered _).later hlast).stopped (by decide)
    · exact hentered _

theorem evaluateTransitions_timely {stateDef : StateDefinition} (howed : Owed Known seen inst)
    (hrun : inst.status = .running) (hd : Known inst.definitionName definition)
    (hs : definition.states.lookup inst.currentState = some stateDef) (ti : Nat)
    (ts : List TransitionDefinition) (hts : stateDef.transitions.drop ti = ts) :
    (evaluateTransitions cfg definition inst.currentState ti ts inst).wp (timelyMonitor Known)
      (fun _ _ => True) seen := by
  induction ts generalizing ti inst seen with
  | nil => exact wp_update howed fun _ => trivial
  | cons t ts ih =>
    simp only [evaluateTransitions, Prog.bind_eq, Prog.wp_bind, Prog.pure_eq]
    refine (shouldFire_timely inst inst.currentState ti t).mono fun later r hr => ?_
    obtain ⟨fires, inst'⟩ := r
    obtain ⟨hlater, ⟨context, rfl⟩, hwaited⟩ := hr
    have howed' := (howed.later hlater).setContext context
    have hindex : stateDef.transitions[ti]? = some t := by
      rw [← List.head?_drop, hts, List.head?_cons]
    simp only
    split
    · rename_i hfires
      refine wp_unread (fun _ => rfl) (fun _ => trivial) fun _ hunmixed => ?_
      have hunmixed : t.Unmixed := by
        refine hunmixed.2 definition t hd ?_
        show (definition.states.lookup inst.currentState).bind _ = some t
        rw [hs]
        exact hindex
      refine Prog.wp_bind.mpr (Prog.wp.mono (fireTransition_timely cfg howed' hrun hd hs
        (List.mem_of_getElem? hindex) fun htimer => ?_) fun last inst' hi => ?_)
      · -- a transition with an `after` has no `when`, so it has waited
        rcases hunmixed with hwhen | hafter
        · exact hwaited hfires hwhen
        · rw [hafter] at htimer
          cases htimer
      · exact wp_update hi fun _ => trivial
    · refine ih howed' hrun hd hs (ti + 1) ?_
      rw [← List.tail_drop, hts, List.tail_cons]

theorem evaluateInstance_timely (howed : Owed Known seen inst) (hrun : inst.status = .running)
    (hd : Known inst.definitionName definition) :
    (evaluateInstance cfg inst definition).wp (timelyMonitor Known) (fun _ _ => True) seen := by
  simp only [evaluateInstance, Prog.bind_eq, Prog.pure_eq]
  split
  · trivial
  · rename_i stateDef hs
    split
    · split
      · refine wp_op.mpr ⟨fun _ => trivial, fun now _ => ?_⟩
        refine wp_update (fun hordered => ?_) fun _ => trivial
        have hbefore := howed.later (List.prefix_append seen _) hordered
        exact ⟨hbefore.waited, fun hrunning => by cases hrunning⟩
      · trivial
    · exact evaluateTransitions_timely cfg howed hrun hd hs 0 _ rfl

theorem evaluateEach_timely (insts : List FsmInstance)
    (hinsts : ∀ inst ∈ insts, inst.Timely Known ∧ inst.status = .running) :
    (evaluateEach cfg insts).wp (timelyMonitor Known) (fun _ _ => True) seen := by
  induction insts generalizing seen with
  | nil => trivial
  | cons inst insts ih =>
    obtain ⟨htimely, hrun⟩ := hinsts inst List.mem_cons_self
    have hrest (later : List DateTime) :
        (evaluateEach cfg insts).wp (timelyMonitor Known) (fun _ _ => True) later :=
      ih fun i hi => hinsts i (List.mem_cons_of_mem _ hi)
    refine wp_unread (fun _ => rfl) (fun _ => trivial) fun r hr => ?_
    rcases r with e | _ | definition
    · exact hrest seen
    · have hstopped : (inst.setStatus .failed).Timely Known := htimely.stopped (by decide)
      exact wp_update (fun _ => hstopped) fun _ => hrest seen
    · refine Prog.wp_bind.mpr (Prog.wp.mono
        (evaluateInstance_timely cfg (fun _ => htimely) hrun hr.1) fun later _ _ => hrest later)

theorem evaluateAll_timely :
    (evaluateAll cfg).wp (timelyMonitor Known) (fun _ _ => True) seen := by
  refine wp_unread (fun _ => rfl) (fun _ => trivial) fun r hr => ?_
  cases r with
  | error e => trivial
  | ok insts =>
    refine Prog.wp_bind.mpr (Prog.wp.mono (evaluateEach_timely cfg insts fun inst hi =>
      ⟨(hr.1 inst hi).1, (hr.1 inst hi).2 _ rfl⟩) fun _ _ _ => ?_)
    exact wp_unread (fun _ => rfl) (fun _ => trivial) fun _ _ => trivial

theorem advanceInstance_timely (instanceId : String) (targetState : Option String) :
    (advanceInstance cfg instanceId targetState).wp (timelyMonitor Known) (fun _ _ => True)
      seen := by
  refine wp_unread (fun _ => rfl) (fun _ => trivial) fun r hr => ?_
  rcases r with e | _ | inst
  · trivial
  · trivial
  · simp only
    split
    · trivial
    · rename_i hrun
      refine wp_unread (fun _ => rfl) (fun _ => trivial) fun r hd => ?_
      rcases r with e | _ | definition
      · trivial
      · trivial
      · simp only
        split
        · trivial
        · rename_i stateDef hs
          split
          · trivial
          · rename_i toState htarget
            obtain ⟨t, ht, rfl⟩ := FsmContract.advanceTarget_mem htarget
            have hrun : inst.status = .running := by simpa using hrun
            -- an advance is no timer's transition
            refine Prog.wp_bind.mpr (Prog.wp.mono (fireTransition_timely cfg (fun _ => hr.1) hrun
              hd.1 hs ht fun htimer => by cases htimer) fun later inst' hi => ?_)
            exact wp_update hi fun r => by cases r <;> trivial

theorem cancelInstance_timely (instanceId reason : String) :
    (cancelInstance cfg instanceId reason).wp (timelyMonitor Known) (fun _ _ => True) seen := by
  refine wp_unread (fun _ => rfl) (fun _ => trivial) fun r hr => ?_
  rcases r with e | _ | inst
  · trivial
  · trivial
  · simp only
    split
    · trivial
    · refine wp_op.mpr ⟨fun _ => trivial, fun updatedAt _ => ?_⟩
      refine wp_op.mpr ⟨fun _ => trivial, fun timestamp _ => ?_⟩
      have hcancelled : (inst.cancelled updatedAt timestamp reason).Timely Known := by
        refine ⟨hr.1.waited.concat (fun _ _ htimer => by cases htimer) rfl, ?_⟩
        exact fun hrunning => by cases hrunning
      refine wp_update (fun _ => hcancelled) fun r => ?_
      cases r with
      | error e => trivial
      | ok u => exact Prog.wp_bind.mpr (wp_aside (emitFsm_built cfg _).aside fun _ _ _ => trivial)

theorem startFrom_timely (defName : String) (context : FsmContext) :
    (startFrom cfg defName definition context).wp (timelyMonitor Known) (fun _ _ => True) seen := by
  simp only [startFrom, Prog.bind_eq, Prog.pure_eq]
  refine wp_op.mpr ⟨fun _ => trivial, fun now hnow => ?_⟩
  refine wp_unread (fun _ => rfl) (fun _ => trivial) fun id _ => ?_
  have hstored (later : List DateTime) (context' : FsmContext)
      {f : StorageResult Unit → Proc (Except PaciNetError FsmInstance)}
      (hf : ∀ r, (f r).wp (timelyMonitor Known) (fun _ _ => True) later) :
      ((storage (.storeFsmInstance ((FsmInstance.new now id defName definition.initial
        context).setContext context'))).bind f).wp (timelyMonitor Known) (fun _ _ => True) later :=
    wp_unread (fun _ => rfl)
      (fun _ => (FsmInstance.Timely.new hnow.2 id defName _ context).setContext context')
      fun r _ => hf r
  split
  · exact hstored _ _ fun r => by cases r <;> trivial
  · exact Prog.wp_bind.mpr (executeActionOf_timely cfg _ fun later context' _ =>
      hstored later _ fun r => by cases r <;> trivial)

theorem startInstance_timely (defName rulesYaml : String)
    (compileOptions : Option CompileOptions) :
    (startInstance cfg defName rulesYaml compileOptions).wp (timelyMonitor Known)
      (fun _ _ => True) seen := by
  refine wp_unread (fun _ => rfl) (fun _ => trivial) fun r _ => ?_
  rcases r with e | _ | definition
  · trivial
  · trivial
  · exact startFrom_timely cfg _ _

theorem startAdaptiveInstance_timely (defName : String) (rulesYaml : Option String)
    (compileOptions : Option CompileOptions) (targetLabelFilter : Labels) :
    (startAdaptiveInstance cfg defName rulesYaml compileOptions targetLabelFilter).wp
      (timelyMonitor Known) (fun _ _ => True) seen := by
  refine wp_unread (fun _ => rfl) (fun _ => trivial) fun r _ => ?_
  rcases r with e | _ | definition
  · trivial
  · trivial
  · refine wp_unread (fun _ => rfl) (fun _ => trivial) fun r _ => ?_
    rcases r with e | _ | ⟨node, nodes⟩
    · trivial
    · trivial
    · exact startFrom_timely cfg _ _

/-- **Every request writes timely instances.** -/
theorem serve_timely (q : Request) :
    (serve cfg q).wp (timelyMonitor Known) (fun _ _ => True) seen := by
  cases hq : q.isEngine with
  | false => exact wp_aside (serve_plain cfg hq).aside fun _ _ _ => trivial
  | true =>
    cases q with
    | startInstance defName rulesYaml compileOptions =>
      exact Prog.wp_bind.mpr ((startInstance_timely cfg _ _ _).mono fun _ _ _ => trivial)
    | startAdaptiveInstance defName rulesYaml compileOptions targetLabelFilter =>
      exact Prog.wp_bind.mpr ((startAdaptiveInstance_timely cfg _ _ _ _).mono fun _ _ _ => trivial)
    | evaluateAll => exact Prog.wp_bind.mpr ((evaluateAll_timely cfg).mono fun _ _ _ => trivial)
    | advanceInstance instanceId targetState =>
      exact Prog.wp_bind.mpr ((advanceInstance_timely cfg _ _).mono fun _ _ _ => trivial)
    | cancelInstance instanceId reason =>
      exact Prog.wp_bind.mpr ((cancelInstance_timely cfg _ _).mono fun _ _ _ => trivial)
    | _ => cases hq

end Programs

/-! ## Runs -/

/-- The steps of the law: the clock is that of the run, and no transition that is both conditional
    and timed fires. -/
def UnmixedSteps (Known : String → FsmDefinition → Prop) : StepCondition :=
  fun c l => Clocked Known c l ∧ FiresUnmixed Known c l

theorem expect_of_steps [Extern] {Known : String → FsmDefinition → Prop} {c : Pool} {i : Nat}
    {x : Ext} {th : Task} {o : Op} {k : o.Res → Proc Reply} {r : o.Res} {w : World MemoryStorage}
    {new : List Request} (hC : UnmixedSteps Known c (.run i x)) (hth : c.threads[i]? = some th)
    (hcall : th.prog = .call o k) (hx : World.exec x o c.shared = some (r, w, new))
    (hexpect : (timely Known).monitor.expect o r) : (timelyMonitor Known).expect o r := by
  refine ⟨hexpect, ?_⟩
  cases o with
  | now =>
    cases hx
    exact hC.1
  | mark m =>
    cases m with
    | fire inst ti => exact hC.2 th hth inst ti ⟨k, hcall⟩
    | _ => trivial
  | _ => trivial

/-- **Timer transitions wait in every run in which no transition fires that has both** a `when`
    and an `after`. -/
theorem timersWait [Extern] (cfg : ControllerConfig) (Known : String → FsmDefinition → Prop) :
    TimersWait cfg Known (UnmixedSteps Known) := by
  intro t₀ t c₀ c hrun
  have hholds : (timely Known).Holds c.shared := by
    have hprog (q : Request) : (serve cfg q).wp (timelyMonitor Known) (fun _ _ => True) [] :=
      serve_timely cfg q
    refine hrun.steps.shared (clock_lawful cfg) hprog ?_ ?_ hrun.idle ⟨hrun.known, ?_⟩
    · intro c i x th o k r w' new hC hth hcall hshared hallow hx
      exact (hshared.exec hallow hx).imp_right (expect_of_steps hC hth hcall hx)
    · intro c w hC hshared
      refine ⟨hC.1.2, fun inst hinst => hshared.good inst ?_⟩
      rw [← hC.1.1]
      exact hinst
    · intro inst hinst
      rw [hrun.fresh] at hinst
      cases hinst
  exact fun inst hinst => (hholds.good inst hinst).waited

/-! ## An hour -/

/-- After an hour the instance is done, if the condition of the transition is true then. -/
def hourglass (when? : Option ConditionDefinition) : FsmDefinition where
  name := "hourglass"
  description := ""
  kind := .deployment
  initial := "wait"
  states := (∅ : AList fun _ : String => StateDefinition)
    |>.insert "done" ⟨none, [], true⟩
    |>.insert "wait" ⟨none, [⟨"done", when?, some "1h"⟩], false⟩

/-- As long as nothing has failed. -/
def unfailed : ConditionDefinition := .compound none none (some (.simple ⟨none, some true, none⟩))

theorem hourglass_validate :
    (hourglass none).validate = .ok () ∧ (hourglass unfailed).validate = .ok () := by
  decide +kernel

theorem hourglass_unmixed {state : String} {ti : Nat} {t : TransitionDefinition}
    (h : (hourglass none).transition? state ti = some t) : t.Unmixed := by
  obtain ⟨stateDef, hs, ht⟩ := Option.bind_eq_some_iff.mp h
  have hmem := List.mem_of_getElem? ht
  by_cases hwait : state = "wait"
  · rw [hwait, hourglass, AList.lookup_insert] at hs
    cases hs
    rw [List.mem_singleton.mp hmem]
    exact .inl rfl
  · rw [hourglass, AList.lookup_insert_ne hwait] at hs
    by_cases hdone : state = "done"
    · rw [hdone, AList.lookup_insert] at hs
      cases hs
      cases hmem
    · rw [AList.lookup_insert_ne hdone, AList.lookup_empty] at hs
      cases hs

/-- A controller that knows one definition. -/
def Pool.knowing (d : FsmDefinition) : Pool where
  shared := .init (MemoryStorage.new.storeFsmDefinition d).2
  threads := []

/-- The definition, under any name. -/
def Only (d : FsmDefinition) : String → FsmDefinition → Prop := fun _ d' => d' = d

theorem knowing_known {d d' : FsmDefinition} {name : String}
    (h : (Pool.knowing d).shared.storage.fsmDefinitions.get? name = some d') : Only d name d' := by
  have hrow : d' ∈ (Pool.knowing d).shared.storage.fsmDefinitions.rows :=
    (Table.get?_eq_some.mp h).1
  rcases Table.mem_rows_insert.mp hrow with hnew | ⟨hold, -⟩
  · exact hnew
  · cases hold

/-- Requests arrive and tasks run, all at one time. -/
def allAt (now : DateTime) : Pool → StepLabel → Bool
  | _, .arrive _ => true
  | _, .run _ x => x.now == now
  | _, .env _ => false

theorem allAt_sound (Known : String → FsmDefinition → Prop) {now : DateTime}
    (hnow : Representable now) (c : Pool) (l : StepLabel) (h : allAt now c l) :
    Clocked Known c l ∧ ∀ i x, l = .run i x → x.now = now := by
  cases l with
  | arrive q => exact ⟨trivial, fun i x hl => by cases hl⟩
  | run i x =>
    have hx : x.now = now := eq_of_beq h
    refine ⟨?_, fun j y hl => ?_⟩
    · show Representable x.now
      rw [hx]
      exact hnow
    · cases hl
      exact hx
  | env w => cases h

/-- An instance is started. -/
def startHourglass : List StepLabel :=
  .arrive (.startInstance "hourglass" "rules: [a]" none) :: Label.turns 0 4 (.quiet 0 "i1")

/-- It is evaluated later on. -/
def evaluateAt (now : DateTime) : List StepLabel :=
  .arrive .evaluateAll :: Label.turns 1 6 (.quiet now "")

/-- A timer's transition is recorded at the time. -/
def Pool.recorded (c : Pool) (now : DateTime) : Bool :=
  c.shared.storage.fsmInstances.rows.any fun inst =>
    inst.history.map (fun r => (r.trigger, r.timestamp)) == [(.initial, 0), (.timer, now)]

theorem recorded_history {c : Pool} {now : DateTime} (h : Pool.recorded c now = true) :
    ∃ inst ∈ c.shared.storage.fsmInstances.rows, ∃ r₀ r, inst.history = [r₀, r] ∧
      r₀.timestamp = 0 ∧ r.trigger = .timer ∧ r.timestamp = now := by
  obtain ⟨inst, hinst, hhistory⟩ := List.any_eq_true.mp h
  refine ⟨inst, hinst, ?_⟩
  have hmap := eq_of_beq hhistory
  revert hmap
  rcases inst.history with _ | ⟨r₀, _ | ⟨r, _ | ⟨r', rest⟩⟩⟩
  · simp
  · simp
  · simp only [List.map_cons, List.map_nil, List.cons.injEq, Prod.mk.injEq]
    intro hmap
    exact ⟨r₀, r, ⟨rfl, rfl, trivial⟩, hmap.1.2, hmap.2.1.1, hmap.2.1.2⟩
  · simp

/-- The run of a controller that knows one definition, at two times. -/
theorem timedRun_twice (d : FsmDefinition) (now : DateTime) {C : StepCondition}
    (hnow : (0 : Int) ≤ now) (hfirst : ∀ c l, allAt 0 c l → C c l ∧ ∀ i x, l = .run i x → x.now = 0)
    (hsecond : ∀ c l, allAt now c l → C c l ∧ ∀ i x, l = .run i x → x.now = now)
    (h : ((@controller .sample plainConfig MemoryStorage _).run (allAt 0) (Pool.knowing d)
      startHourglass).any fun c₁ => ((@controller .sample plainConfig MemoryStorage _).run
        (allAt now) c₁ (evaluateAt now)).any fun c => Pool.recorded c now) :
    ∃ t c, @TimedRun .sample plainConfig (Only d) C 0 t (Pool.knowing d) c ∧
      Pool.recorded c now = true := by
  obtain ⟨c₁, hrun₁, h⟩ := Option.any_eq_true _ _ |>.mp h
  obtain ⟨c, hrun, hrecorded⟩ := Option.any_eq_true _ _ |>.mp h
  obtain ⟨t₁, ht₁, hsteps₁⟩ := Clock.timed_of_run (K := clock) hfirst hrun₁ (Int.le_refl 0)
  obtain ⟨t, -, hsteps⟩ := Clock.timed_of_run (K := clock) hsecond hrun (Int.le_trans ht₁ hnow)
  exact ⟨t, c, @TimedRun.mk .sample _ _ _ _ _ _ _ rfl rfl (fun _ _ => knowing_known)
    (hsteps₁.trans hsteps), hrecorded⟩

theorem representable_hour {now : Int} (h : 0 ≤ now ∧ now ≤ 3600 * 10 ^ 9) : Representable now :=
  representable_of_le ⟨h.1, Int.le_trans h.2 (by decide)⟩

/-- A transition with no `when` is recorded after an hour. -/
theorem timersWait_hourglass :
    ∃ t c, @TimedRun .sample plainConfig (Only (hourglass none))
        (UnmixedSteps (Only (hourglass none))) 0 t (Pool.knowing (hourglass none)) c ∧
      ∃ inst ∈ c.shared.storage.fsmInstances.rows, inst.TimersWaited (Only (hourglass none)) ∧
        ∃ r ∈ inst.history, r.trigger = .timer := by
  have hunmixed (now : DateTime) (hnow : Representable now) (c : Pool) (l : StepLabel)
      (h : allAt now c l) : UnmixedSteps (Only (hourglass none)) c l ∧
        ∀ i x, l = .run i x → x.now = now := by
    obtain ⟨hclocked, htime⟩ := allAt_sound _ hnow c l h
    refine ⟨⟨hclocked, ?_⟩, htime⟩
    cases l with
    | run i x =>
      intro th _ inst ti _ d t hd ht
      rw [hd] at ht
      exact hourglass_unmixed ht
    | arrive q => trivial
    | env w => trivial
  obtain ⟨t, c, hrun, hrecorded⟩ := timedRun_twice (hourglass none) (3600 * 10 ^ 9) (by decide)
    (hunmixed 0 (representable_hour ⟨by decide, by decide⟩))
    (hunmixed _ (representable_hour ⟨by decide, by decide⟩)) (by decide +kernel)
  obtain ⟨inst, hinst, r₀, r, hhistory, -, htimer, -⟩ := recorded_history hrecorded
  have hlaw := @timersWait .sample plainConfig (Only (hourglass none)) _ _ _ _ hrun inst hinst
  exact ⟨t, c, hrun, inst, hinst, hlaw, r, by simp [hhistory], htimer⟩

/-- A transition with a `when` that is true at once is recorded as a timer's at once. -/
theorem not_timersWait : ¬ ∀ Known : String → FsmDefinition → Prop,
    (∀ name d, Known name d → d.validate = .ok ()) →
      @TimersWait .sample plainConfig Known (Clocked Known) := by
  intro hall
  have hvalid : ∀ name d, Only (hourglass unfailed) name d → d.validate = .ok () := by
    intro name d hd
    rw [hd]
    exact hourglass_validate.2
  have hclocked := allAt_sound (Only (hourglass unfailed))
    (representable_hour ⟨Int.le_refl 0, by decide⟩)
  obtain ⟨t, c, hrun, hrecorded⟩ := timedRun_twice (hourglass unfailed) 0 (Int.le_refl 0)
    hclocked hclocked (by decide +kernel)
  obtain ⟨inst, hinst, r₀, r, hhistory, hstart, htimer, hnow⟩ := recorded_history hrecorded
  have hwaited := hall _ hvalid _ _ _ _ hrun inst hinst
  rw [FsmInstance.TimersWaited, hhistory, List.isChain_pair] at hwaited
  obtain ⟨d, -, _, _, after, secs, -, -, -, -, hparse, hlong⟩ := hwaited htimer
  -- no duration that parses has passed at once
  have hpos := parseDuration_pos hparse
  rw [hstart, hnow] at hlong
  have hlong' : (0 : Int) ≤ 0 - (secs : Int) * 10 ^ 9 := hlong
  omega

end PaciNet

import PaciNet.Proof.FsmStore
import PaciNet.Proof.Runs

/-!
# FSM instances under interleaved operations

Two laws of the stored instances, over every run of the controller: a terminal status is final,
and no transition record is lost. Both are stated for the runs whose steps satisfy a condition
`C`, because neither holds of all runs: the write at the end of an operation does not look at
what is stored, so an operation that overtakes another is undone by it.

**Both laws hold of every run of undisturbed steps**: whenever an operation writes an instance
or starts an action for it, the stored instance has the status and the history which that
operation has read. Evaluations that only touch the context may overlap freely.
-/

set_option autoImplicit false

namespace PaciNet

open Lib

/-- Every write of an instance, and every start of an action for it, finds the stored status and
    history as the same operation has read them. -/
abbrev Undisturbed : StepCondition := fsmStore.Undisturbed fsmLifecycle

namespace Pool

/-- The stored instance with an id. -/
def instance? (c : Pool) (id : String) : Option FsmInstance :=
  c.shared.storage.fsmInstances.get? id

/-- The actions started for an instance. -/
def started (c : Pool) (id : String) : List Mark := c.shared.marks.filter (Mark.isStartOf id)

end Pool

section Laws

variable [Extern] (cfg : ControllerConfig)

/-- The runs of a controller that starts without requests, cut at some point. -/
structure RunThrough (C : StepCondition) (c₀ c c' : Pool) : Prop where
  idle : c₀.threads = []
  before : (controller cfg MemoryStorage).Steps C c₀ c
  after : (controller cfg MemoryStorage).Steps C c c'

/-- **Terminal statuses are absorbing**: the status of an instance that is not running never
    changes again, and no action is started for it; and an instance is cancelled, for good, once
    its cancellation has been answered with success. -/
def TerminalAbsorbing (C : StepCondition) : Prop :=
  ∀ c₀ c c', RunThrough cfg C c₀ c c' →
    (∀ id inst, c.instance? id = some inst → inst.status ≠ .running →
      (c'.instance? id).map FsmInstance.status = some inst.status ∧ c'.started id = c.started id) ∧
    ∀ t ∈ c.threads, ∀ id reason, t.req = .cancelInstance id reason →
      t.prog = .done (.cancelInstance (.ok ())) →
      (c'.instance? id).map FsmInstance.status = some .cancelled ∧ c'.started id = c.started id

/-- **No transition is lost**: the history of a stored instance only grows, and the record of an
    advance that has been answered with success is in it for good. -/
def HistoryKept (C : StepCondition) : Prop :=
  ∀ c₀ c c', RunThrough cfg C c₀ c c' →
    (∀ id inst, c.instance? id = some inst →
      ∃ inst', c'.instance? id = some inst' ∧ inst.history <+: inst'.history) ∧
    ∀ t ∈ c.threads, ∀ id target inst, t.req = .advanceInstance id target →
      t.prog = .done (.advanceInstance (.ok inst)) →
      ∃ inst', c'.instance? id = some inst' ∧ ∀ r ∈ inst.history.getLast?, r ∈ inst'.history

end Laws

/-! ## A rollout to run -/

/-- A canary that is promoted by hand, or after ten minutes. -/
def canary : FsmDefinition where
  name := "canary"
  description := ""
  kind := .deployment
  initial := "staged"
  states := (∅ : AList fun _ : String => StateDefinition)
    |>.insert "done" ⟨none, [], true⟩
    |>.insert "half" ⟨none, [⟨"done", none, some "10m"⟩], false⟩
    |>.insert "staged" ⟨none, [
      ⟨"half", some (.simple ⟨none, none, some true⟩), none⟩,
      ⟨"done", none, some "10m"⟩], false⟩

example : canary.validate = .ok () := by decide +kernel

/-- A controller that knows the definition. -/
def Pool.withCanary : Pool where
  shared := .init (MemoryStorage.new.storeFsmDefinition canary).2
  threads := []

/-- Start the instance "i1". -/
def startCanary : List StepLabel :=
  .arrive (.startInstance "canary" "rules: [a]" none) :: Label.turns 0 4 (.quiet 0 "i1")

/-! ## Undisturbed runs -/

/-- In an undisturbed run every instance only gets further, and those that threads have written
    are stored. -/
structure Undisturbed.Kept (c c' : Pool) : Prop where
  evolves : ∀ id inst, c.instance? id = some inst →
    ∃ inst', fsmStore.Evolves fsmLifecycle c.shared c'.shared id inst inst'
  behaving : fsmStore.Behaving fsmLifecycle fsmExpect fsmPost c
  written : fsmStore.Kept fsmLifecycle c

theorem RunThrough.kept [Extern] {cfg : ControllerConfig} {c₀ c c' : Pool}
    (h : RunThrough cfg Undisturbed c₀ c c') :
    Undisturbed.Kept c c' := by
  have G := fsmStore_behaves cfg
  have hidle : fsmStore.Behaving fsmLifecycle fsmExpect fsmPost c₀ :=
    System.allWatched_of_idle trivial h.idle
  have hc := G.run h.before hidle
  exact {
    evolves := fun id inst hi => fsmStore_lawful.evolves G hc h.after hi
    behaving := hc
    written := fsmStore_lawful.kept G hidle h.before (by simp [Store.Kept, h.idle]) }

/-- What a thread has written is stored later on, or has got further. -/
theorem Undisturbed.Kept.of_written {c c' : Pool} (h : Undisturbed.Kept c c')
    {t : Task} (ht : t ∈ c.threads) {inst : FsmInstance}
    (hi : inst ∈ (fsmStore.view t).written) :
    ∃ inst', c'.instance? inst.instanceId = some inst' ∧
      fsmLifecycle.Later inst.progress inst'.progress ∧
      (inst.status ≠ .running → c'.started inst.instanceId = c.started inst.instanceId) := by
  obtain ⟨now, hnow, hlater⟩ := h.written t ht inst hi
  obtain ⟨inst', hinst'⟩ := h.evolves _ now hnow
  refine ⟨inst', hinst'.stored, hlater.trans hinst'.later, fun hs => (hinst'.final ?_).2⟩
  -- an instance that was not running when it was written is not running now
  exact hlater.eq_of_not_live (u := inst.progress) hs ▸ hs

theorem later_history {p p' : Progress} (h : fsmLifecycle.Later p p') : p.history <+: p'.history :=
  h.extends (fun _ => List.prefix_rfl) fun _ _ _ => List.IsPrefix.trans

/-- In undisturbed runs a terminal status is final. -/
theorem terminalAbsorbing [Extern] (cfg : ControllerConfig) : TerminalAbsorbing cfg Undisturbed := by
  intro c₀ c c' hrun
  have hkept := hrun.kept
  constructor
  · intro id inst hi hs
    obtain ⟨inst', h⟩ := hkept.evolves id inst hi
    obtain ⟨rfl, hlog⟩ := h.final hs
    exact ⟨congrArg (Option.map FsmInstance.status) h.stored, hlog⟩
  · intro t ht id reason hreq hprog
    have hpost := hkept.behaving.2 t ht
    rw [System.Watched, hreq, hprog] at hpost
    obtain ⟨inst, hw, rfl, hs⟩ := hpost
    obtain ⟨inst', hi, hlater, hlog⟩ := hkept.of_written ht hw
    have hcancelled : inst.status ≠ .running := by simp [hs]
    have hsame := hlater.eq_of_not_live (u := inst.progress) hcancelled
    refine ⟨?_, hlog hcancelled⟩
    rw [hi, Option.map_some, ← hs]
    exact congrArg (some ∘ Progress.status) hsame

/-- The canary is promoted, cancelled and evaluated, one after the other: it stays cancelled. -/
theorem terminalAbsorbing_canary :
    ∃ c c' : Pool, @RunThrough .sample plainConfig Undisturbed Pool.withCanary c c' ∧
      (c.instance? "i1").map FsmInstance.status = some .cancelled ∧
      (c'.instance? "i1").map FsmInstance.status = some .cancelled := by
  obtain ⟨c, c', h, h', hs⟩ := System.steps_of_runs (@controller .sample plainConfig _ _)
    Pool.withCanary (fsmStore.undisturbed_sound fsmLifecycle)
    (startCanary ++
      .arrive (.advanceInstance "i1" none) :: Label.turns 1 4 (.quiet 1 "") ++
      .arrive (.cancelInstance "i1" "stop") :: Label.turns 2 4 (.quiet 2 ""))
    (.arrive .evaluateAll :: Label.turns 3 2 (.quiet 3 ""))
    (fun (c _ : Pool) => (c.instance? "i1").any (·.status = .cancelled)) (by decide +kernel)
  obtain ⟨inst, hi, hs⟩ := Option.any_eq_true _ _ |>.1 hs
  have hs : inst.status = .cancelled := by simpa using hs
  have hrun : @RunThrough .sample plainConfig Undisturbed Pool.withCanary c c' :=
    @RunThrough.mk .sample _ _ _ _ _ rfl h h'
  have hlaw := (@terminalAbsorbing .sample plainConfig _ c c' hrun).1 "i1" inst hi (by simp [hs])
  exact ⟨c, c', hrun, by simp [hi, hs], by simp [hlaw.1, hs]⟩

/-- A cancellation that overtakes an evaluation is undone by it: the evaluation has listed the
    instance before and writes its copy back, running, after the cancellation was answered. -/
theorem not_terminalAbsorbing : ¬ @TerminalAbsorbing .sample plainConfig Interleaved := by
  intro h
  obtain ⟨c, c', h₁, h₂, hs⟩ := System.steps_of_runs (@controller .sample plainConfig _ _)
    Pool.withCanary interleaved_sound
    (startCanary ++
      .arrive .evaluateAll :: Label.turns 1 1 (.quiet 1 "") ++
      .arrive (.cancelInstance "i1" "stop") :: Label.turns 2 4 (.quiet 2 ""))
    (Label.turns 1 4 (.quiet 3 ""))
    (fun (c c' : Pool) => (c.instance? "i1").any (·.status = .cancelled) &&
      (c'.instance? "i1").any (·.status = .running)) (by decide +kernel)
  simp only [Bool.and_eq_true, Option.any_eq_true, decide_eq_true_eq] at hs
  obtain ⟨⟨inst, hi, hs⟩, ⟨inst', hi', hs'⟩⟩ := hs
  have hlaw := ((h _ c c' (@RunThrough.mk .sample _ _ _ _ _ rfl h₁ h₂)).1 "i1" inst hi (by simp [hs])).1
  rw [hi', Option.map_some, hs, hs'] at hlaw
  exact absurd hlaw (by simp)

/-- In undisturbed runs no transition record is lost. -/
theorem historyKept [Extern] (cfg : ControllerConfig) : HistoryKept cfg Undisturbed := by
  intro c₀ c c' hrun
  have hkept := hrun.kept
  constructor
  · intro id inst hi
    obtain ⟨inst', h⟩ := hkept.evolves id inst hi
    exact ⟨inst', h.stored, later_history h.later⟩
  · intro t ht id target inst hreq hprog
    have hpost := hkept.behaving.2 t ht
    rw [System.Watched, hreq, hprog] at hpost
    obtain ⟨hw, rfl⟩ := hpost
    obtain ⟨inst', hi, hlater, -⟩ := hkept.of_written ht hw
    exact ⟨inst', hi, fun r hr => (later_history hlater).mem (List.mem_of_getLast? hr)⟩

/-- The canary is promoted twice, one after the other: both records are kept. -/
theorem historyKept_canary :
    ∃ c c' : Pool, @RunThrough .sample plainConfig Undisturbed Pool.withCanary c c' ∧
      ∃ inst inst', c.instance? "i1" = some inst ∧ c'.instance? "i1" = some inst' ∧
        inst.history.length = 2 ∧ inst.history <+: inst'.history := by
  obtain ⟨c, c', h, h', hs⟩ := System.steps_of_runs (@controller .sample plainConfig _ _)
    Pool.withCanary (fsmStore.undisturbed_sound fsmLifecycle)
    (startCanary ++
      .arrive (.advanceInstance "i1" none) :: Label.turns 1 4 (.quiet 1 ""))
    (.arrive (.advanceInstance "i1" none) :: Label.turns 2 4 (.quiet 2 ""))
    (fun (c _ : Pool) => (c.instance? "i1").any (·.history.length = 2)) (by decide +kernel)
  simp only [Option.any_eq_true, decide_eq_true_eq] at hs
  obtain ⟨inst, hi, hs⟩ := hs
  have hrun : @RunThrough .sample plainConfig Undisturbed Pool.withCanary c c' :=
    @RunThrough.mk .sample _ _ _ _ _ rfl h h'
  obtain ⟨inst', hi', hpre⟩ :=
    (@historyKept .sample plainConfig _ c c' hrun).1 "i1" inst hi
  exact ⟨c, c', hrun, inst, inst', hi, hi', hs, hpre⟩

/-- Of two advances that both read the instance before either writes it, the one that writes last
    erases the record of the other, which has been answered with success. -/
theorem not_historyKept : ¬ @HistoryKept .sample plainConfig Interleaved := by
  intro h
  obtain ⟨c, c', h₁, h₂, hs⟩ := System.steps_of_runs (@controller .sample plainConfig _ _)
    Pool.withCanary interleaved_sound
    (startCanary ++
      .arrive (.advanceInstance "i1" (some "half")) :: Label.turns 1 1 (.quiet 1 "") ++
      .arrive (.advanceInstance "i1" (some "done")) :: Label.turns 2 4 (.quiet 2 ""))
    (Label.turns 1 3 (.quiet 3 ""))
    (fun (c c' : Pool) => (c.instance? "i1").any fun inst => (c'.instance? "i1").any fun inst' =>
      !inst.history.isPrefixOf inst'.history) (by decide +kernel)
  simp only [Option.any_eq_true, Bool.not_eq_true', ← Bool.not_eq_true,
    List.isPrefixOf_iff_prefix] at hs
  obtain ⟨inst, hi, inst', hi', hs⟩ := hs
  obtain ⟨inst'', hi'', hpre⟩ := (h _ c c' (@RunThrough.mk .sample _ _ _ _ _ rfl h₁ h₂)).1 "i1" inst hi
  rw [hi'] at hi''
  exact hs (Option.some.inj hi'' ▸ hpre)

end PaciNet

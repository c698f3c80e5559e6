import PaciNet.Proof.InstanceDeploys
import PaciNet.Proof.InstanceSteps

/-!
# Every stored instance is in a visit

The visits of `OutcomeConditions` are chains of operations on one instance value, and do not say
where the value has been meanwhile. Here they are found in the runs of a controller: **whatever
the requests and however their tasks interleave, each instance that is stored has come to its
state by an entry, and what has happened to it since is a visit**. A task that writes back an old
copy only continues another visit of the same instance.

The same is done for the runs of `InstanceDeploys`, which are chains of entries: **each stored
instance has come out of such a run, with what its last entry has left**, so that what is said of
all runs of an instance is said of the instances of every controller.
-/

set_option autoImplicit false

namespace PaciNet

open Lib Prog

section Visits

variable [Extern] {cfg : ControllerConfig}

variable (cfg) in
/-- The instance is in a visit. -/
def Visiting (inst : FsmInstance) : Prop := ∃ e es, Visit cfg e es inst

variable (cfg) in
/-- The engine writes instances that are in a visit. -/
def visits : FsmContract := ⟨fun _ _ => True, Visiting cfg⟩

variable {inst inst' : FsmInstance}

theorem Visiting.kept (h : Visiting cfg inst) (hcontext : inst'.context = inst.context)
    (hstate : inst'.currentState = inst.currentState) : Visiting cfg inst' := by
  obtain ⟨e, es, hvisit⟩ := h
  exact ⟨e, es, hvisit.kept hcontext hstate⟩

theorem Visiting.started {defName : String} {definition : FsmDefinition} {context : FsmContext}
    {es : List Answered} (hfresh : context.lastActionResult = none)
    (h : (startFrom cfg defName definition context).Unfolds es (.done (.ok inst))) :
    Visiting cfg inst := by
  have henters : (Entry.started defName definition context).Enters cfg es inst := h
  exact ⟨_, es, .started hfresh henters⟩

variable (cfg) in
/-- Whatever the engine does to an instance, the instance is in a visit afterwards. -/
theorem visits_follows : (visits cfg).Follows cfg where
  deployment _ h := Visiting.started rfl h
  adaptive _ _ h := Visiting.started rfl h
  evaluated hvisiting _ _ _ h := by
    obtain ⟨e, es, hvisit⟩ := hvisiting
    exact ⟨e, es, hvisit.evaluated h⟩
  fired hvisiting _ _ _ h := by
    obtain ⟨e, es, hvisit⟩ := hvisiting
    exact ⟨_, _, hvisit.fired h⟩
  kept hvisiting hcontext hstate _ := Visiting.kept hvisiting hcontext hstate

end Visits

/-- **In every run of a controller that starts without instances, every stored instance is in a
    visit.** -/
theorem visiting_of_steps [Extern] (cfg : ControllerConfig) {c c' : Pool}
    (h : (controller cfg MemoryStorage).Steps Interleaved c c') (hidle : c.threads = [])
    (hnone : c.shared.storage.fsmInstances.rows = []) {inst : FsmInstance}
    (hinst : inst ∈ c'.shared.storage.fsmInstances.rows) : Visiting cfg inst := by
  have hstart : (visits cfg).Holds c.shared := by
    refine ⟨fun _ _ _ => trivial, fun inst hinst => ?_⟩
    rw [hnone] at hinst
    exact absurd hinst List.not_mem_nil
  have henv : ∀ (c : Pool) w, Interleaved c (.env w) → (visits cfg).Holds c.shared →
      (visits cfg).Holds w := fun _ _ henv _ => absurd henv Bool.false_ne_true
  exact ((visits_follows cfg).steps henv h hidle hstart).good inst hinst

/-! ## Every stored instance has a run -/

section Careers

variable [Extern] {cfg : ControllerConfig} {es : List Answered} {inst inst' : FsmInstance}

omit [Extern] in
theorem completeIfTerminal_state {stateDef : StateDefinition}
    (h : (completeIfTerminal cfg stateDef inst).Unfolds es (.done inst')) :
    inst'.currentState = inst.currentState := by
  unfold completeIfTerminal at h
  split at h
  · obtain ⟨es₁, es₂, _, rfl, -, h₁⟩ := Prog.unfolds_bind.mp h
    cases h₁.done_inv.2
    rfl
  · cases h.done_inv.2
    rfl

/-- An entry leaves the instance in the state it enters. -/
theorem Entry.Enters.currentState {e : Entry} (h : e.Enters cfg es inst) :
    inst.currentState = e.state := by
  cases e with
  | started defName definition context =>
    rw [Entry.Enters, startFrom_eq] at h
    obtain ⟨now, es₁, rfl, h₁⟩ := h.call_inv
    rw [Prog.done_bind] at h₁
    obtain ⟨id, es₂, rfl, h₂⟩ := h₁.call_inv
    rw [Prog.done_bind] at h₂
    obtain ⟨es₃, es₄, context', rfl, -, h₄⟩ := Prog.unfolds_bind.mp h₂
    obtain ⟨stored, es₅, rfl, h₅⟩ := h₄.call_inv
    rw [Prog.done_bind] at h₅
    cases stored with
    | error e => exact absurd h₅.done_inv.2 (by simp)
    | ok u =>
      cases h₅.done_inv.2
      rfl
  | fired inst₀ toState trigger definition =>
    obtain ⟨now, es₁, rfl, h₁⟩ := h.call_inv
    rw [Prog.done_bind] at h₁
    obtain ⟨es₂, es₃, _, rfl, -, h₂⟩ := Prog.unfolds_bind.mp h₁
    split at h₂
    · cases h₂.done_inv.2
      rfl
    · obtain ⟨es₄, es₅, context, rfl, -, h₅⟩ := Prog.unfolds_bind.mp h₂
      exact completeIfTerminal_state h₅

/-- A run may go on with an entry. -/
theorem Career.snoc {context : FsmContext} {ss : List EntryStep} {s s' : EntryStep}
    (h : Career cfg context (ss ++ [s])) (hbetween : SameButFirstTrue s.inst.context s'.entry.context)
    (henters : s'.entry.Enters cfg s'.answers s'.inst) : Career cfg context (ss ++ [s] ++ [s']) := by
  induction ss generalizing context with
  | nil => exact ⟨h.1, h.2.1, hbetween, henters, trivial⟩
  | cons s₀ ss ih => exact ⟨h.1, h.2.1, ih h.2.2⟩

variable (cfg) in
/-- The instance has come out of a run, and nothing but its first-true times has changed since it
    has entered its state. -/
def HasCareer (inst : FsmInstance) : Prop :=
  ∃ (context : FsmContext) (ss : List EntryStep) (s : EntryStep), context.Unused ∧
    context.batchCursor = 0 ∧ Career cfg context (ss ++ [s]) ∧
      SameButFirstTrue s.inst.context inst.context ∧ inst.currentState = s.entry.state

theorem HasCareer.kept (h : HasCareer cfg inst) (hcontext : SameButFirstTrue inst.context inst'.context)
    (hstate : inst'.currentState = inst.currentState) : HasCareer cfg inst' := by
  obtain ⟨context, ss, s, hunused, hcursor, hrun, hsince, hcurrent⟩ := h
  exact ⟨context, ss, s, hunused, hcursor, hrun, hsince.trans hcontext, hstate.trans hcurrent⟩

theorem HasCareer.started {defName : String} {definition : FsmDefinition} {context : FsmContext}
    (hunused : context.Unused) (hcursor : context.batchCursor = 0)
    (h : (startFrom cfg defName definition context).Unfolds es (.done (.ok inst))) :
    HasCareer cfg inst := by
  have henters : (Entry.started defName definition context).Enters cfg es inst := h
  exact ⟨context, [], ⟨_, es, inst⟩, hunused, hcursor, ⟨.refl _, henters, trivial⟩, .refl _,
    henters.currentState⟩

variable (cfg) in
/-- Whatever the engine does to an instance, the instance has a run afterwards. -/
theorem careers_follow : (FsmContract.mk (fun _ _ => True) (HasCareer cfg)).Follows cfg where
  deployment _ h := HasCareer.started ⟨rfl, rfl, rfl⟩ rfl h
  adaptive _ _ h := HasCareer.started ⟨rfl, rfl, rfl⟩ rfl h
  evaluated hcareer _ _ _ h := by
    obtain ⟨context, hsame, rfl⟩ := shouldFire_same h
    exact HasCareer.kept hcareer hsame rfl
  fired {inst d _ t trigger es inst'} hcareer _ _ _ h := by
    obtain ⟨context, ss, s, hunused, hcursor, hrun, hsince, -⟩ := hcareer
    have henters : (Entry.fired inst t.toState trigger d).Enters cfg es inst' := h
    have hmore : Career cfg context
        (ss ++ [s] ++ [⟨.fired inst t.toState trigger d, es, inst'⟩]) := hrun.snoc hsince henters
    exact ⟨context, ss ++ [s], _, hunused, hcursor, hmore, .refl _, henters.currentState⟩
  kept {inst _} hcareer hcontext hstate _ := by
    refine HasCareer.kept hcareer ?_ hstate
    rw [hcontext]
    exact .refl _

/-- **In every run of a controller that starts without instances, every stored instance has come out
    of a run of its own.** -/
theorem hasCareer_of_steps (cfg : ControllerConfig) {c c' : Pool}
    (h : (controller cfg MemoryStorage).Steps LeavesInstances c c') (hidle : c.threads = [])
    (hnone : c.shared.storage.fsmInstances.rows = [])
    (hinst : inst ∈ c'.shared.storage.fsmInstances.rows) : HasCareer cfg inst := by
  have hstart : (FsmContract.mk (fun _ _ => True) (HasCareer cfg)).Holds c.shared := by
    refine ⟨fun _ _ _ => trivial, fun inst hinst => ?_⟩
    rw [hnone] at hinst
    exact absurd hinst List.not_mem_nil
  have henv (c : Pool) (w : World MemoryStorage) (hw : LeavesInstances c (.env w))
      (hc : (FsmContract.mk (fun _ _ => True) (HasCareer cfg)).Holds c.shared) :
      (FsmContract.mk (fun _ _ => True) (HasCareer cfg)).Holds w := by
    refine ⟨fun _ _ _ => trivial, ?_⟩
    rw [show w.storage.fsmInstances = c.shared.storage.fsmInstances from hw]
    exact hc.good
  exact ((careers_follow cfg).steps henv h hidle hstart).good inst hinst

end Careers

end PaciNet

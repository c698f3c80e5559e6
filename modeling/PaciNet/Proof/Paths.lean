import Mathlib.Data.List.Chain
import PaciNet.Core.Fsm.Valid
import PaciNet.Proof.FsmContract
import PaciNet.Proof.FsmInterleaving

/-!
# Instances are paths of their definition

`validate` looks at a definition once, when it is stored; the engine looks states and durations up
as it goes, with a branch for those it does not find. **As long as a definition that passed
`validate` is not replaced, the history of each of its instances is a path through it**: it begins
with the initial state, every further record is a transition of the definition out of the state
before, only a cancellation ends it otherwise, and an instance is completed in a terminal state
only. None of the branches for what is missing is ever taken.

This is a contract of the engine, so it holds however the operations on instances are interleaved.
-/

set_option autoImplicit false

namespace PaciNet

open Lib

/-- There is a transition from one state to another. -/
def FsmDefinition.HasTransition (d : FsmDefinition) (fromState toState : String) : Prop :=
  ∃ stateDef, d.states.lookup fromState = some stateDef ∧
    ∃ t ∈ stateDef.transitions, t.toState = toState

/-- The records of an instance that move it: all but that of its cancellation. -/
def FsmInstance.moves (inst : FsmInstance) : List FsmTransitionRecord :=
  if inst.status = .cancelled then inst.history.dropLast else inst.history

/-- The instance has followed the definition from its initial state. -/
structure IsPath (d : FsmDefinition) (inst : FsmInstance) : Prop where
  first : ∃ r rest, inst.moves = r :: rest ∧ r.trigger = .initial ∧ r.fromState = "" ∧
    r.toState = d.initial
  chained : inst.moves.IsChain fun r r' =>
    r'.fromState = r.toState ∧ d.HasTransition r'.fromState r'.toState
  last : ∃ r, inst.moves.getLast? = some r ∧ r.toState = inst.currentState
  defined : (d.states.lookup inst.currentState).isSome
  completed : inst.status = .completed → ∃ stateDef,
    d.states.lookup inst.currentState = some stateDef ∧ stateDef.terminal
  cancelled : inst.status = .cancelled → ∃ r, inst.history = inst.moves ++ [r] ∧
    r.trigger = .manual ∧ r.fromState = inst.currentState ∧ r.toState = ""

/-- Whatever the engine looks up for the instance is there: its state, the states it may move to,
    and the values of all durations. -/
def FindsAll (d : FsmDefinition) (inst : FsmInstance) : Prop :=
  ∃ stateDef, d.states.lookup inst.currentState = some stateDef ∧
    ∀ t ∈ stateDef.transitions, (d.states.lookup t.toState).isSome ∧ t.durationsParse

/-- What an operation has read of the definition and of its instances lacks nothing that the engine
    looks up. -/
def ReadsAll (d : FsmDefinition) : (o : Op) × o.Res → Prop
  | ⟨.storage (.getFsmDefinition name), .ok (some d')⟩ =>
    name = d.name → d' = d ∧ (d.states.lookup d.initial).isSome
  | ⟨.storage (.getFsmInstance _), .ok (some inst)⟩ =>
    inst.definitionName = d.name → FindsAll d inst
  | ⟨.storage (.listFsmInstances _ _), .ok insts⟩ =>
    ∀ inst ∈ insts, inst.definitionName = d.name → FindsAll d inst
  | _ => True

/-! ## What the engine does to a path -/

section Path

variable {d : FsmDefinition} {inst inst' : FsmInstance}

theorem FsmInstance.moves_of_ne (h : inst.status ≠ .cancelled) : inst.moves = inst.history :=
  if_neg h

/-- Only the history, the state and the status matter. -/
theorem IsPath.congr (h : IsPath d inst) (hhistory : inst'.history = inst.history)
    (hstate : inst'.currentState = inst.currentState) (hstatus : inst'.status = inst.status) :
    IsPath d inst' := by
  have hmoves : inst'.moves = inst.moves := by
    simp only [FsmInstance.moves, hhistory, hstatus]
  constructor
  · rw [hmoves]; exact h.first
  · rw [hmoves]; exact h.chained
  · rw [hmoves, hstate]; exact h.last
  · rw [hstate]; exact h.defined
  · rw [hstatus, hstate]; exact h.completed
  · rw [hstatus, hhistory, hmoves, hstate]; exact h.cancelled

theorem isPath_new {now : DateTime} {id name : String} {context : FsmContext}
    (hd : (d.states.lookup d.initial).isSome) : IsPath d (.new now id name d.initial context) where
  first := ⟨_, [], rfl, rfl, rfl, rfl⟩
  chained := List.isChain_singleton _
  last := ⟨_, rfl, rfl⟩
  defined := hd
  completed h := by cases h
  cancelled h := by cases h

/-- A transition of the definition extends the path. -/
theorem IsPath.transition {stateDef : StateDefinition} {t : TransitionDefinition} {now : DateTime}
    {trigger : TransitionTrigger} {message : String} (h : IsPath d inst)
    (hrun : inst.status = .running) (hs : d.states.lookup inst.currentState = some stateDef)
    (ht : t ∈ stateDef.transitions) (htarget : (d.states.lookup t.toState).isSome) :
    IsPath d (inst.transition now t.toState trigger message) := by
  have hmoves : inst.moves = inst.history := FsmInstance.moves_of_ne (by simp [hrun])
  have hmoves' : (inst.transition now t.toState trigger message).moves =
      inst.moves ++ [⟨inst.currentState, t.toState, trigger, now, message⟩] := by
    rw [FsmInstance.moves_of_ne (by simp [hrun]), hmoves]
    rfl
  obtain ⟨r, hr, hto⟩ := h.last
  constructor
  · obtain ⟨r₀, rest, hfirst, hinitial⟩ := h.first
    exact ⟨r₀, _, by rw [hmoves', hfirst, List.cons_append], hinitial⟩
  · rw [hmoves']
    refine h.chained.append (List.isChain_singleton _) fun x hx y hy => ?_
    cases hy
    obtain rfl : r = x := Option.some.inj (hr.symm.trans hx)
    exact ⟨hto.symm, stateDef, hs, t, ht, rfl⟩
  · exact ⟨_, by rw [hmoves']; exact List.getLast?_concat, rfl⟩
  · exact htarget
  · intro hc
    rw [FsmInstance.transition_status, hrun] at hc
    cases hc
  · intro hc
    rw [FsmInstance.transition_status, hrun] at hc
    cases hc

/-- A running instance that stops where it is has still followed the path. -/
theorem IsPath.setStatus {status : FsmInstanceStatus} (h : IsPath d inst)
    (hrun : inst.status = .running) (hne : status ≠ .cancelled)
    (hcompleted : status = .completed → ∃ stateDef,
      d.states.lookup inst.currentState = some stateDef ∧ stateDef.terminal) :
    IsPath d (inst.setStatus status) := by
  have hmoves : (inst.setStatus status).moves = inst.moves := by
    rw [FsmInstance.moves_of_ne (by simpa using hne), FsmInstance.moves_of_ne (by simp [hrun])]
    rfl
  constructor
  · rw [hmoves]; exact h.first
  · rw [hmoves]; exact h.chained
  · rw [hmoves]; exact h.last
  · exact h.defined
  · exact hcompleted
  · exact fun hc => absurd hc hne

/-- A cancellation leaves the moves as they are. -/
theorem IsPath.cancel {updatedAt timestamp : DateTime} {reason : String} (h : IsPath d inst)
    (hrun : inst.status = .running) : IsPath d (inst.cancelled updatedAt timestamp reason) := by
  have hmoves : (inst.cancelled updatedAt timestamp reason).moves = inst.moves := by
    have hne : inst.status ≠ .cancelled := by simp [hrun]
    rw [FsmInstance.moves_of_ne hne]
    exact List.dropLast_concat
  constructor
  · rw [hmoves]; exact h.first
  · rw [hmoves]; exact h.chained
  · rw [hmoves]; exact h.last
  · exact h.defined
  · exact fun hc => by cases hc
  · intro _
    refine ⟨⟨inst.currentState, "", .manual, timestamp, "Cancelled: " ++ reason⟩, ?_, rfl, rfl, rfl⟩
    rw [hmoves, FsmInstance.moves_of_ne (by simp [hrun])]
    rfl

theorem IsPath.findsAll (h : IsPath d inst) (hd : d.Valid) : FindsAll d inst := by
  obtain ⟨stateDef, hs⟩ := Option.isSome_iff_exists.1 h.defined
  exact ⟨stateDef, hs, fun t ht => ⟨hd.target _ _ hs t ht, hd.durations _ _ hs t ht⟩⟩

end Path

/-! ## The contract -/

/-- The instances of a definition are paths of it. -/
def pathContract (d : FsmDefinition) : FsmContract where
  Known name d' := name = d.name → d' = d
  Good inst := inst.definitionName = d.name → IsPath d inst

theorem pathContract_closed {d : FsmDefinition} (hd : d.Valid) : (pathContract d).Closed where
  started hknown hname := by
    obtain rfl := hknown hname
    exact isPath_new hd.initial
  context h hname := (h hname).congr rfl rfl rfl
  fired h hrun hknown hs ht hname := by
    obtain rfl := hknown hname
    exact (h hname).transition hrun hs ht (hd.target _ _ hs _ ht)
  completed h hrun hknown hs hterminal hname := by
    obtain rfl := hknown hname
    exact (h hname).setStatus hrun (by simp) fun _ => ⟨_, hs, hterminal⟩
  updated h hname := (h hname).congr rfl rfl rfl
  failed h hrun hname := (h hname).setStatus hrun (by simp) (by simp)
  cancelled h hrun hname := (h hname).cancel hrun

/-- What keeps the contract lacks nothing that the engine looks up. -/
theorem readsAll_of_expect {d : FsmDefinition} (hd : d.Valid) {e : (o : Op) × o.Res}
    (h : (pathContract d).monitor.expect e.1 e.2) : ReadsAll d e := by
  obtain ⟨o, r⟩ := e
  cases o with
  | storage call =>
    cases call with
    | getFsmDefinition name =>
      rcases r with e | _ | d'
      · trivial
      · trivial
      · exact fun hname => ⟨h hname, hd.initial⟩
    | getFsmInstance id =>
      rcases r with e | _ | inst
      · trivial
      · trivial
      · exact fun hname => IsPath.findsAll (h hname) hd
    | listFsmInstances defName status =>
      rcases r with e | insts
      · trivial
      · exact fun inst hi hname => IsPath.findsAll ((h inst hi).1 hname) hd
    | _ => trivial
  | _ => trivial

/-- The definition is not replaced. Apart from that and the instances, anything may change. -/
def KeepsDefinition (d : FsmDefinition) : StepCondition
  | c, .env w => w.storage.fsmInstances = c.shared.storage.fsmInstances ∧
      ∀ d', w.storage.fsmDefinitions.get? d.name = some d' → d' = d
  | _, _ => True

/-- **Every instance of a definition is a path of it**, in every run in which the definition is
    not replaced, and whatever the engine reads of either lacks nothing that it looks up. -/
theorem instances_follow [Extern] (cfg : ControllerConfig) {d : FsmDefinition}
    (hvalid : d.validate = .ok ()) {c₀ c : Pool} (hidle : c₀.threads = [])
    (hstored : ∀ d', c₀.shared.storage.fsmDefinitions.get? d.name = some d' → d' = d)
    (hfresh : ∀ inst ∈ c₀.shared.storage.fsmInstances.rows, inst.definitionName ≠ d.name)
    (hrun : (controller cfg MemoryStorage).Steps (KeepsDefinition d) c₀ c) :
    (∀ inst ∈ c.shared.storage.fsmInstances.rows, inst.definitionName = d.name →
      IsPath d inst ∧ FindsAll d inst) ∧ ∀ t ∈ c.threads, ∀ e ∈ t.trace, ReadsAll d e := by
  have hd := FsmDefinition.valid_of_validate hvalid
  have hholds : (pathContract d).Holds c₀.shared :=
    ⟨fun name d' hget hname => hstored d' (hname ▸ hget),
      fun inst hi hname => absurd hname (hfresh inst hi)⟩
  have henv (c : Pool) (w : World MemoryStorage) (hw : KeepsDefinition d c (.env w))
      (hc : (pathContract d).Holds c.shared) : (pathContract d).Holds w :=
    ⟨fun name d' hget hname => hw.2 d' (hname ▸ hget), by rw [hw.1]; exact hc.good⟩
  have hclosed := pathContract_closed hd
  refine ⟨fun inst hi hname => ?_, fun t ht e he => ?_⟩
  · have hend := FsmContract.Holds.steps hclosed henv hrun hidle hholds
    have hpath := hend.good inst hi hname
    exact ⟨hpath, hpath.findsAll hd⟩
  · have hreads := FsmContract.Holds.reads hclosed henv hrun hidle hholds
    exact readsAll_of_expect hd (hreads t ht e he)

theorem keepsDefinition_sound (d : FsmDefinition) (c : Pool) (l : StepLabel)
    (h : interleaved c l) : KeepsDefinition d c l := by
  cases l with
  | env w => cases h
  | _ => trivial

/-- The canary is started, evaluated too early, promoted by hand, and evaluated after its timer. -/
def canaryToDone : List StepLabel :=
  startCanary ++ .arrive .evaluateAll :: Label.turns 1 6 (.quiet 0 "") ++
    .arrive (.advanceInstance "i1" none) :: Label.turns 2 4 (.quiet 1 "") ++
    .arrive .evaluateAll :: Label.turns 3 7 (.quiet (600 * 10 ^ 9 + 1) "")

theorem instances_follow_canary : ∃ c, (@controller .sample plainConfig MemoryStorage _).Steps
    (KeepsDefinition canary) Pool.withCanary c ∧
    (∃ inst ∈ c.shared.storage.fsmInstances.rows, inst.status = .completed ∧
      inst.history.length = 3 ∧ IsPath canary inst) ∧
    c.threads.length = 4 ∧ ∀ t ∈ c.threads, ∀ e ∈ t.trace, ReadsAll canary e := by
  obtain ⟨c, -, hrun, -, hP⟩ := System.steps_of_runs (@controller .sample plainConfig _ _)
    Pool.withCanary (keepsDefinition_sound canary) canaryToDone []
    (fun (c _ : Pool) => decide (c.threads.length = 4) &&
      c.shared.storage.fsmInstances.rows.any fun (inst : FsmInstance) =>
        decide (inst.definitionName = "canary" ∧ inst.status = .completed ∧
          inst.history.length = 3)) (by decide +kernel)
  rw [Bool.and_eq_true, decide_eq_true_iff] at hP
  obtain ⟨inst, hi, hinst⟩ := List.any_eq_true.1 hP.2
  obtain ⟨hname, hstatus, hhistory⟩ := of_decide_eq_true hinst
  have hstored (d' : FsmDefinition)
      (h : Pool.withCanary.shared.storage.fsmDefinitions.get? canary.name = some d') :
      d' = canary := (Option.some.inj h).symm
  have hfollow := @instances_follow .sample plainConfig canary (by decide +kernel) _ _ rfl hstored
    (fun _ h => by cases h) hrun
  exact ⟨c, hrun, ⟨inst, hi, hstatus, hhistory, (hfollow.1 inst hi hname).1⟩, hP.1, hfollow.2⟩

end PaciNet

import PaciNet.Proof.Blocks
import PaciNet.Proof.Runs

/-!
# What the engine keeps

The engine makes an instance in one way and changes it in five: it replaces the context, moves it
along a transition of its definition, completes it in a terminal state, fails it, or cancels it.
**A property of instances that survives these is kept by every request**, as far as the
definitions that are read can be relied on. It is a property of the values that are written, so
how the requests are interleaved does not matter.
-/

set_option autoImplicit false

namespace PaciNet

open Lib

/-- A property of instances, and what is known of the definitions they run. -/
structure FsmContract where
  Known : String → FsmDefinition → Prop
  Good : FsmInstance → Prop

namespace FsmContract

/-- The property survives what the engine does to instances. -/
structure Closed (K : FsmContract) : Prop where
  started : ∀ {now id name d context}, K.Known name d →
    K.Good (.new now id name d.initial context)
  context : ∀ {inst context}, K.Good inst → K.Good (inst.setContext context)
  fired : ∀ {inst d stateDef t now trigger message}, K.Good inst → inst.status = .running →
    K.Known inst.definitionName d → d.states.lookup inst.currentState = some stateDef →
    t ∈ stateDef.transitions → K.Good (inst.transition now t.toState trigger message)
  completed : ∀ {inst d stateDef}, K.Good inst → inst.status = .running →
    K.Known inst.definitionName d → d.states.lookup inst.currentState = some stateDef →
    stateDef.terminal → K.Good (inst.setStatus .completed)
  updated : ∀ {inst : FsmInstance} {now}, K.Good inst → K.Good { inst with updatedAt := now }
  failed : ∀ {inst}, K.Good inst → inst.status = .running → K.Good (inst.setStatus .failed)
  cancelled : ∀ {inst updatedAt timestamp reason}, K.Good inst → inst.status = .running →
    K.Good (inst.cancelled updatedAt timestamp reason)

variable (K : FsmContract)

/-- A program under the contract writes instances with the property, and no definition. -/
def monitor : Monitor Op Op.Res Unit where
  allow _ o := match o with
    | .storage (.storeFsmInstance inst) | .storage (.updateFsmInstance inst) => K.Good inst
    | .storage (.storeFsmDefinition _) | .storage (.deleteFsmDefinition _) => False
    | _ => True
  expect o r := match o, r with
    | .storage (.getFsmDefinition name), .ok (some d) => K.Known name d
    | .storage (.getFsmInstance _), .ok (some inst) => K.Good inst
    | .storage (.listFsmInstances _ status), .ok insts =>
        ∀ inst ∈ insts, K.Good inst ∧ ∀ st ∈ status, inst.status = st
    | _, _ => True
  next v _ _ := v

/-- What the contract says of a world. -/
structure Holds (w : World MemoryStorage) : Prop where
  known : ∀ name d, w.storage.fsmDefinitions.get? name = some d → K.Known name d
  good : ∀ inst ∈ w.storage.fsmInstances.rows, K.Good inst

variable {K}

theorem silent {o : Op} (h : o.touchesFsm = false) : K.monitor.Silent o := by
  intro v
  refine ⟨?_, fun _ => rfl⟩
  cases o with
  | storage c => cases c <;> trivial
  | _ => trivial

/-! ## The storage keeps the contract -/

theorem Holds.exec [Extern] {x : Ext} {o : Op} {w w' : World MemoryStorage} {r : o.Res}
    {new : List Request} (h : K.Holds w) (hallow : K.monitor.allow () o)
    (hx : World.exec x o w = some (r, w', new)) : K.Holds w' ∧ K.monitor.expect o r := by
  have hs := (World.stepped_of_exec hx).storage
  cases o with
  | storage c =>
    have hc : w'.storage = (Storage.call x.now c w.storage).2 := congrArg Prod.snd hs
    have hr : r = (Storage.call x.now c w.storage).1 := congrArg Prod.fst hs
    refine ⟨⟨?_, ?_⟩, ?_⟩
    · -- no program writes a definition
      rw [hc, call_fsmDefinitions]
      cases c <;> first | exact h.known | exact hallow.elim
    · rw [hc, call_fsmInstances]
      cases c with
      | storeFsmInstance inst =>
        intro u hu
        rcases Table.mem_rows_insert.1 hu with rfl | ⟨hu, -⟩
        · exact hallow
        · exact h.good u hu
      | updateFsmInstance inst =>
        simp only
        split
        · intro u hu
          rcases Table.mem_rows_insert.1 hu with rfl | ⟨hu, -⟩
          · exact hallow
          · exact h.good u hu
        · exact h.good
      | _ => exact h.good
    · subst hr
      cases c with
      | getFsmDefinition name =>
        cases hd : w.storage.fsmDefinitions.get? name with
        | none => simp [Storage.call, MemoryStorage.getFsmDefinition, hd, monitor]
        | some d =>
          simp only [Storage.call, MemoryStorage.getFsmDefinition, hd, monitor]
          exact h.known name d hd
      | getFsmInstance id =>
        cases hi : w.storage.fsmInstances.get? id with
        | none => simp [Storage.call, MemoryStorage.getFsmInstance, hi, monitor]
        | some inst =>
          simp only [Storage.call, MemoryStorage.getFsmInstance, hi, monitor]
          exact h.good inst (Table.get?_eq_some.1 hi).1
      | listFsmInstances defName status =>
        intro inst hi
        obtain ⟨hrow, hfilter⟩ := List.mem_filter.1 hi
        refine ⟨h.good inst hrow, fun st hst => ?_⟩
        rw [Option.mem_def.1 hst] at hfilter
        simpa using (Bool.and_eq_true_iff.1 hfilter).2
      | _ => trivial
  | _ => exact ⟨⟨by rw [hs]; exact h.known, by rw [hs]; exact h.good⟩, trivial⟩

/-! ## The programs keep the contract -/

/-- The target of an advance is that of a transition out of the current state. -/
theorem advanceTarget_mem {stateDef : StateDefinition} {currentState toState : String}
    {target : Option String} (h : advanceTarget stateDef currentState target = .ok toState) :
    ∃ t ∈ stateDef.transitions, t.toState = toState := by
  cases target with
  | some target =>
    simp only [advanceTarget] at h
    split at h
    · rename_i hany
      cases h
      obtain ⟨t, ht, heq⟩ := List.any_eq_true.1 hany
      exact ⟨t, ht, by simpa using heq⟩
    · cases h
  | none =>
    simp only [advanceTarget] at h
    split at h
    · rename_i t hor
      cases h
      refine ⟨t, ?_, rfl⟩
      rcases Option.or_eq_some_iff.1 hor with hfind | ⟨-, hhead⟩
      · exact List.mem_of_find?_eq_some hfind
      · exact List.mem_of_head? hhead
    · cases h

/-- Evaluating whether a transition fires changes the context only. -/
theorem shouldFire_keeps (inst : FsmInstance) (currentState : String) (ti : Nat)
    (t : TransitionDefinition) {v : Unit} :
    (shouldFire currentState ti t inst).wp K.monitor
      (fun _ r => ∃ context, r.2 = inst.setContext context) v := by
  simp only [shouldFire, Prog.bind_eq, Prog.pure_eq]
  split
  · exact wp_op_silent (silent rfl) fun obs => ⟨_, rfl⟩
  · split
    · exact wp_op_silent (silent rfl) fun now => ⟨_, rfl⟩
    · exact ⟨_, rfl⟩
  · exact ⟨_, rfl⟩

/-- Write an instance with the property, whatever the answer. -/
theorem update_keeps {α : Type} {inst : FsmInstance} {f : StorageResult Unit → Proc α}
    {Q : Unit → α → Prop} {v : Unit} (hgood : K.Good inst) (hf : ∀ r, (f r).wp K.monitor Q v) :
    ((storage (.updateFsmInstance inst)).bind f).wp K.monitor Q v :=
  wp_storage.2 ⟨hgood, fun r _ => hf r⟩

section Programs

variable [Extern] (cfg : ControllerConfig) (hK : K.Closed) {inst : FsmInstance}
  {definition : FsmDefinition} {v : Unit}
include hK

omit hK in
/-- What is built from deploys and operations that touch no instance is silent. -/
theorem silent_of_aside {cfg : ControllerConfig} {α : Type} {p : Proc α} (hp : BuiltAside cfg p) :
    p.Calls K.monitor.Silent :=
  hp.calls.mono fun _ h => silent h

omit hK in
theorem emitFsm_keeps {α : Type} (e : DateTime → FsmEvent) {f : Unit → Proc α}
    {Q : Unit → α → Prop} (hf : (f ()).wp K.monitor Q v) :
    ((emitFsm cfg e).bind f).wp K.monitor Q v :=
  Prog.wp_bind.2 (Prog.wp_of_calls (silent_of_aside (emitFsm_built cfg e).aside) fun _ => hf)

omit hK in
/-- An action does not write instances; what it returns is a context. -/
theorem executeActionOf_keeps (stateDef : StateDefinition) {Q : Unit → FsmContext → Prop}
    (hQ : ∀ context, Q v context) : (executeActionOf cfg stateDef inst).wp K.monitor Q v := by
  unfold executeActionOf
  split
  · exact hQ _
  · rename_i action _
    obtain ⟨k, hk, heq⟩ := executeAction_eq cfg action inst
    rw [heq]
    exact wp_mark.2 ⟨trivial, fun _ => Prog.wp_of_calls (silent_of_aside hk) hQ⟩

theorem fireTransition_keeps {stateDef : StateDefinition} {t : TransitionDefinition}
    (trigger : TransitionTrigger) (hgood : K.Good inst) (hrun : inst.status = .running)
    (hd : K.Known inst.definitionName definition)
    (hs : definition.states.lookup inst.currentState = some stateDef)
    (ht : t ∈ stateDef.transitions) :
    (fireTransition cfg inst t.toState trigger definition).wp K.monitor
      (fun _ inst' => K.Good inst') v := by
  simp only [fireTransition, Prog.bind_eq, Prog.pure_eq]
  refine wp_op_silent (silent rfl) fun now => emitFsm_keeps cfg _ ?_
  have hmoved (message : String) : K.Good ((inst.setContext
      (inst.context.forgetState inst.currentState)).transition now t.toState trigger message) :=
    hK.fired (hK.context hgood) hrun hd hs ht
  split
  · exact hmoved _
  · rename_i entered hentered
    refine Prog.wp_bind.2 (executeActionOf_keeps cfg entered fun context => ?_)
    unfold completeIfTerminal
    split
    · rename_i hterminal
      exact emitFsm_keeps cfg _ (hK.completed (hK.context (hmoved _)) hrun hd hentered hterminal)
    · exact hK.context (hmoved _)

theorem evaluateTransitions_keeps {stateDef : StateDefinition} (ti : Nat)
    (ts : List TransitionDefinition) (hts : ts ⊆ stateDef.transitions) (hgood : K.Good inst)
    (hrun : inst.status = .running) (hd : K.Known inst.definitionName definition)
    (hs : definition.states.lookup inst.currentState = some stateDef) :
    (evaluateTransitions cfg definition inst.currentState ti ts inst).wp K.monitor
      (fun _ _ => True) v := by
  induction ts generalizing ti inst with
  | nil => exact update_keeps hgood fun _ => trivial
  | cons t ts ih =>
    simp only [evaluateTransitions, Prog.bind_eq, Prog.wp_bind, Prog.pure_eq]
    refine (shouldFire_keeps inst inst.currentState ti t).mono fun _ r hr => ?_
    obtain ⟨fires, inst'⟩ := r
    obtain ⟨context, rfl⟩ := hr
    have hgood' : K.Good (inst.setContext context) := hK.context hgood
    obtain ⟨ht, hrest⟩ := List.cons_subset.1 hts
    simp only
    split
    · refine wp_mark_silent (silent rfl) (Prog.wp_bind.2 ?_)
      refine (fireTransition_keeps cfg hK _ hgood' hrun hd hs ht).mono fun _ inst' hi => ?_
      exact update_keeps hi fun _ => trivial
    · exact ih _ hrest hgood' hrun hd hs

theorem evaluateInstance_keeps (hgood : K.Good inst) (hrun : inst.status = .running)
    (hd : K.Known inst.definitionName definition) :
    (evaluateInstance cfg inst definition).wp K.monitor (fun _ _ => True) v := by
  simp only [evaluateInstance, Prog.bind_eq, Prog.pure_eq]
  split
  · trivial
  · rename_i stateDef hs
    split
    · rename_i hterminal
      split
      · refine wp_op_silent (silent rfl) fun now => ?_
        exact update_keeps (hK.updated (hK.completed hgood hrun hd hs hterminal)) fun _ => trivial
      · trivial
    · exact evaluateTransitions_keeps cfg hK 0 _ (List.Subset.refl _) hgood hrun hd hs

theorem evaluateEach_keeps (insts : List FsmInstance)
    (hinsts : ∀ inst ∈ insts, K.Good inst ∧ inst.status = .running) :
    (evaluateEach cfg insts).wp K.monitor (fun _ _ => True) v := by
  induction insts generalizing v with
  | nil => trivial
  | cons inst insts ih =>
    obtain ⟨hgood, hrun⟩ := hinsts inst (List.mem_cons_self ..)
    have hrest : ∀ v, (evaluateEach cfg insts).wp K.monitor (fun _ _ => True) v := fun _ =>
      ih fun i hi => hinsts i (List.mem_cons_of_mem _ hi)
    refine wp_storage.2 ⟨trivial, fun r hr => ?_⟩
    rcases r with e | _ | definition
    · exact hrest _
    · exact update_keeps (hK.failed hgood hrun) fun _ => hrest _
    · exact Prog.wp_bind.2 ((evaluateInstance_keeps cfg hK hgood hrun hr).mono fun _ _ _ => hrest _)

theorem evaluateAll_keeps : (evaluateAll cfg).wp K.monitor (fun _ _ => True) v := by
  refine wp_storage.2 ⟨trivial, fun r hr => ?_⟩
  cases r with
  | error e => trivial
  | ok insts =>
    refine Prog.wp_bind.2 (Prog.wp.mono (evaluateEach_keeps cfg hK insts fun inst hi =>
      ⟨(hr inst hi).1, (hr inst hi).2 _ rfl⟩) fun _ _ _ => ?_)
    exact wp_storage.2 ⟨trivial, fun _ _ => trivial⟩

theorem advanceInstance_keeps (instanceId : String) (targetState : Option String) :
    (advanceInstance cfg instanceId targetState).wp K.monitor (fun _ _ => True) v := by
  refine wp_storage.2 ⟨trivial, fun r hgood => ?_⟩
  rcases r with e | _ | inst
  · trivial
  · trivial
  · simp only
    split
    · trivial
    · rename_i hrun
      refine wp_storage.2 ⟨trivial, fun r hd => ?_⟩
      rcases r with e | _ | definition
      · trivial
      · trivial
      · simp only
        split
        · trivial
        · rename_i stateDef hs
          split
          · trivial
          · rename_i toState htarget
            obtain ⟨t, ht, rfl⟩ := advanceTarget_mem htarget
            have hrun : inst.status = .running := by simpa using hrun
            refine Prog.wp_bind.2 ((fireTransition_keeps cfg hK .manual hgood hrun hd hs ht).mono
              fun _ inst' hi => update_keeps hi fun r => ?_)
            cases r <;> trivial

theorem cancelInstance_keeps (instanceId reason : String) :
    (cancelInstance cfg instanceId reason).wp K.monitor (fun _ _ => True) v := by
  refine wp_storage.2 ⟨trivial, fun r hgood => ?_⟩
  rcases r with e | _ | inst
  · trivial
  · trivial
  · simp only
    split
    · trivial
    · rename_i hrun
      have hrun : inst.status = .running := by simpa using hrun
      refine wp_op_silent (silent rfl) fun updatedAt => wp_op_silent (silent rfl) fun timestamp => ?_
      refine update_keeps (hK.cancelled hgood hrun) fun r => ?_
      cases r with
      | error e => trivial
      | ok u => exact emitFsm_keeps cfg _ trivial

theorem startFrom_keeps (defName : String) (context : FsmContext)
    (hd : K.Known defName definition) :
    (startFrom cfg defName definition context).wp K.monitor (fun _ _ => True) v := by
  simp only [startFrom, Prog.bind_eq, Prog.pure_eq]
  refine wp_op_silent (silent rfl) fun now => wp_op_silent (silent rfl) fun id => ?_
  have hstored (context' : FsmContext) {f : StorageResult Unit → Proc (Except PaciNetError FsmInstance)}
      (hf : ∀ r, (f r).wp K.monitor (fun _ _ => True) v) :
      ((storage (.storeFsmInstance ((FsmInstance.new now id defName definition.initial
        context).setContext context'))).bind f).wp K.monitor (fun _ _ => True) v :=
    wp_storage.2 ⟨hK.context (hK.started hd), fun r _ => hf r⟩
  split
  · exact hstored _ fun r => by cases r <;> trivial
  · exact Prog.wp_bind.2 (executeActionOf_keeps cfg _ fun context' =>
      hstored _ fun r => by cases r <;> trivial)

theorem startInstance_keeps (defName rulesYaml : String)
    (compileOptions : Option CompileOptions) :
    (startInstance cfg defName rulesYaml compileOptions).wp K.monitor (fun _ _ => True) v := by
  refine wp_storage.2 ⟨trivial, fun r hd => ?_⟩
  rcases r with e | _ | definition
  · trivial
  · trivial
  · exact startFrom_keeps cfg hK _ _ hd

theorem startAdaptiveInstance_keeps (defName : String) (rulesYaml : Option String)
    (compileOptions : Option CompileOptions) (targetLabelFilter : Labels) :
    (startAdaptiveInstance cfg defName rulesYaml compileOptions targetLabelFilter).wp K.monitor
      (fun _ _ => True) v := by
  refine wp_storage.2 ⟨trivial, fun r hd => ?_⟩
  rcases r with e | _ | definition
  · trivial
  · trivial
  · refine wp_storage_silent (silent rfl) fun r => ?_
    rcases r with e | _ | ⟨node, nodes⟩
    · trivial
    · trivial
    · exact startFrom_keeps cfg hK _ _ hd

/-- **Every request keeps the contract.** -/
theorem serve_keeps (q : Request) : (serve cfg q).wp K.monitor (fun _ _ => True) v := by
  cases hq : q.isEngine with
  | false => exact Prog.wp_of_calls (silent_of_aside (serve_plain cfg hq).aside) fun _ => trivial
  | true =>
    cases q with
    | startInstance defName rulesYaml compileOptions =>
      exact Prog.wp_bind.2 ((startInstance_keeps cfg hK _ _ _).mono fun _ _ _ => trivial)
    | startAdaptiveInstance defName rulesYaml compileOptions targetLabelFilter =>
      exact Prog.wp_bind.2 ((startAdaptiveInstance_keeps cfg hK _ _ _ _).mono fun _ _ _ => trivial)
    | evaluateAll => exact Prog.wp_bind.2 ((evaluateAll_keeps cfg hK).mono fun _ _ _ => trivial)
    | advanceInstance instanceId targetState =>
      exact Prog.wp_bind.2 ((advanceInstance_keeps cfg hK _ _).mono fun _ _ _ => trivial)
    | cancelInstance instanceId reason =>
      exact Prog.wp_bind.2 ((cancelInstance_keeps cfg hK _ _).mono fun _ _ _ => trivial)
    | _ => cases hq

end Programs

/-! ## Runs keep the contract -/

section Runs

variable [Extern] {cfg : ControllerConfig}

theorem guarantee (hK : K.Closed) (cfg : ControllerConfig) :
    (controller cfg MemoryStorage).Guarantee K.monitor () (fun _ _ _ => True) K.Holds
      fun _ => True where
  prog q _ := serve_keeps cfg hK q
  exec _ _ _ _ _ _ _ hJ hallow hx :=
    ⟨(hJ.exec hallow hx).1, (hJ.exec hallow hx).2, fun _ _ => trivial⟩

/-- **The contract holds throughout every run**, however the requests are interleaved, if the
    environment keeps it. -/
theorem Holds.steps (hK : K.Closed) {C : StepCondition} {c c' : Pool}
    (hC : ∀ c w, C c (.env w) → K.Holds c.shared → K.Holds w)
    (h : (controller cfg MemoryStorage).Steps C c c') (hidle : c.threads = [])
    (hc : K.Holds c.shared) : K.Holds c'.shared :=
  (h.watched (guarantee hK cfg) ⟨fun _ _ _ => trivial, hC⟩ (System.allWatched_of_idle hc hidle)).1

/-- What the operations of a run have read keeps the contract. -/
theorem Holds.reads (hK : K.Closed) {C : StepCondition} {c c' : Pool}
    (hC : ∀ c w, C c (.env w) → K.Holds c.shared → K.Holds w)
    (h : (controller cfg MemoryStorage).Steps C c c') (hidle : c.threads = [])
    (hc : K.Holds c.shared) : ∀ t ∈ c'.threads, ∀ e ∈ t.trace, K.monitor.expect e.1 e.2 :=
  h.expected (guarantee hK cfg) ⟨fun _ _ _ => trivial, hC⟩ hc hidle

/-- The contract holds after a program under it that has run alone. -/
theorem Holds.ran {R : World MemoryStorage → World MemoryStorage → Prop}
    (hR : ∀ w w', R w w' → K.Holds w → K.Holds w') {α : Type} {p : Proc α}
    (hp : p.wp K.monitor (fun _ _ => True) ()) {w w' : World MemoryStorage} {a : α}
    (h : (machine MemoryStorage).Exec R p w a w') (hw : K.Holds w) : K.Holds w' :=
  (h.monitored hR (fun _ _ _ _ _ _ hJ hallow hx => hJ.exec hallow hx) hp hw).1

end Runs

end FsmContract

end PaciNet

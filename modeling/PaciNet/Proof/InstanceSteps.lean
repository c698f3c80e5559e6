import PaciNet.Proof.FsmContract
import PaciNet.Proof.OutcomeConditions

/-!
# What happens to an instance

`FsmContract` keeps properties that do not depend on the context of an instance, because it does
not say what the engine does to a context. Here it is said: an instance is made by a start,
one of the transitions of its state is evaluated, one is fired, and otherwise its context and its
state are left as they are. **A property of instances that follows them through these steps holds
of every instance that is stored, in every run, however the requests are interleaved
(`FsmContract.Follows.steps`).** The listings of nodes are known to have no id twice.
-/

set_option autoImplicit false

namespace PaciNet

open Lib Prog

/-! ## Following an instance -/

/-- The context of an adaptive start. -/
def FsmContext.adaptive (nodeIds : List String) (rulesYaml : Option String)
    (compileOptions : Option CompileOptions) : FsmContext :=
  { FsmContext.forAdaptivePolicy nodeIds with
    rulesYaml := rulesYaml
    compileOptions := compileOptions }

namespace FsmContract

/-- The property goes through what the engine does to an instance. -/
structure Follows [Extern] (cfg : ControllerConfig) (K : FsmContract) : Prop where
  deployment : ∀ {name d rulesYaml compileOptions es inst}, K.Known name d →
    (startFrom cfg name d (.forDeployment rulesYaml compileOptions)).Unfolds es
      (.done (.ok inst)) → K.Good inst
  adaptive : ∀ {name d nodeIds rulesYaml compileOptions es inst}, K.Known name d →
    nodeIds.Nodup → (startFrom cfg name d (.adaptive nodeIds rulesYaml compileOptions)).Unfolds es
      (.done (.ok inst)) → K.Good inst
  evaluated : ∀ {inst d stateDef ti t es fires inst'}, K.Good inst →
    K.Known inst.definitionName d → d.states.lookup inst.currentState = some stateDef →
    stateDef.transitions[ti]? = some t →
    (shouldFire inst.currentState ti t inst).Unfolds es (.done (fires, inst')) → K.Good inst'
  fired : ∀ {inst d stateDef t trigger es inst'}, K.Good inst → K.Known inst.definitionName d →
    d.states.lookup inst.currentState = some stateDef → t ∈ stateDef.transitions →
    (fireTransition cfg inst t.toState trigger d).Unfolds es (.done inst') → K.Good inst'
  kept : ∀ {inst inst' : FsmInstance}, K.Good inst → inst'.context = inst.context →
    inst'.currentState = inst.currentState → inst'.definitionName = inst.definitionName →
    K.Good inst'

variable (K : FsmContract)

/-- The monitor of the contract, which knows of the listings. -/
def follower : Monitor Op Op.Res Unit where
  allow := K.monitor.allow
  expect o r := K.monitor.expect o r ∧ ListsOnce o r
  next := K.monitor.next

variable {K}

theorem follower_silent {o : Op} (h : o.touchesFsm = false) : K.follower.Silent o :=
  silent h

theorem follower_silent_of_aside [Extern] {cfg : ControllerConfig} {α : Type} {p : Proc α}
    (hp : BuiltAside cfg p) : p.Calls K.follower.Silent :=
  hp.calls.mono fun _ h => follower_silent h

/-! ## The programs -/

end FsmContract

theorem shouldFire_plain {inst : FsmInstance} (ti : Nat) (t : TransitionDefinition) :
    (shouldFire inst.currentState ti t inst).Calls
      fun o => o.touchesFsm = false ∧ o.marksAction = false := by
  unfold shouldFire
  split
  · exact ⟨⟨rfl, rfl⟩, fun _ => trivial⟩
  · split
    · exact ⟨⟨rfl, rfl⟩, fun _ => trivial⟩
    · trivial
  · trivial

/-- What a monitor knows of instances is carried through the engine: an instance that is read is
    known, an instance that is known may be written, and what is known of it survives the two
    things the engine does to it. How it does is for the monitor to say. -/
structure Tracks [Extern] (cfg : ControllerConfig) {V : Type} (M : Monitor Op Op.Res V)
    (Known : String → FsmDefinition → Prop) (Good : V → FsmInstance → Prop) : Prop where
  stays : ∀ {v o r inst}, Good v inst → Good (M.next v o r) inst
  aside : ∀ {v o}, o.touchesFsm = false → o.marksAction = false → M.allow v o
  known : ∀ {name d}, M.expect (.storage (.getFsmDefinition name)) (.ok (some d)) → Known name d
  gets : ∀ v {id}, M.allow v (.storage (.getFsmInstance id)) ∧ ∀ inst,
    M.expect (.storage (.getFsmInstance id)) (.ok (some inst)) →
      Good (M.next v (.storage (.getFsmInstance id)) (.ok (some inst))) inst
  lists : ∀ v {name status}, M.allow v (.storage (.listFsmInstances name status)) ∧ ∀ insts,
    M.expect (.storage (.listFsmInstances name status)) (.ok insts) → ∀ inst ∈ insts,
      Good (M.next v (.storage (.listFsmInstances name status)) (.ok insts)) inst
  writes : ∀ {v inst}, Good v inst → M.allow v (.storage (.updateFsmInstance inst))
  deployment : ∀ {v name d rulesYaml compileOptions}, Known name d →
    (startFrom cfg name d (.forDeployment rulesYaml compileOptions)).wp M (fun _ _ => True) v
  adaptive : ∀ {v name d labelFilter nodes rulesYaml compileOptions}, Known name d →
    M.expect (.storage (.listNodes labelFilter)) (.ok nodes) →
      (startFrom cfg name d (.adaptive (nodes.map Node.nodeId) rulesYaml compileOptions)).wp M
        (fun _ _ => True) v
  evaluated : ∀ {v inst d stateDef ti t}, Good v inst → Known inst.definitionName d →
    d.states.lookup inst.currentState = some stateDef → stateDef.transitions[ti]? = some t →
      (shouldFire inst.currentState ti t inst).wp M (fun v out => Good v out.2 ∧
        ∃ context, out.2 = inst.setContext context) v
  fired : ∀ {v inst d stateDef t trigger}, Good v inst → Known inst.definitionName d →
    d.states.lookup inst.currentState = some stateDef → t ∈ stateDef.transitions →
      (fireTransition cfg inst t.toState trigger d).wp M Good v
  kept : ∀ {v} {inst inst' : FsmInstance}, Good v inst → inst'.instanceId = inst.instanceId →
    inst'.context = inst.context → inst'.currentState = inst.currentState →
    inst'.definitionName = inst.definitionName → Good v inst'

namespace Tracks

section Programs

variable [Extern] {cfg : ControllerConfig} {V : Type} {M : Monitor Op Op.Res V}
  {Known : String → FsmDefinition → Prop} {Good : V → FsmInstance → Prop}
  {inst : FsmInstance} {definition : FsmDefinition} {stateDef : StateDefinition} {v : V}

variable (T : Tracks cfg M Known Good)
include T

/-- What has nothing to do with instances is left alone. -/
theorem plain {α : Type} {p : Proc α} (hp : BuiltPlain cfg p) : p.wp M (fun _ _ => True) v := by
  have hcalls : p.Calls fun o => o.touchesFsm = false ∧ o.marksAction = false :=
    hp.aside.calls.and hp.not_marks
  refine Prog.Keeps.of_calls (hcalls.mono fun o ho => ?_) v trivial
  exact fun _ _ => ⟨T.aside ho.1 ho.2, fun _ _ => trivial⟩

/-- An operation that has nothing to do with instances. -/
theorem step {α : Type} {o : Op} {f : o.Res → Proc α} {Q : V → α → Prop}
    (ho : o.touchesFsm = false) (hmark : o.marksAction = false)
    (hf : ∀ r, M.expect o r → (f r).wp M Q (M.next v o r)) : ((op o).bind f).wp M Q v :=
  ⟨T.aside ho hmark, hf⟩

/-- Write an instance that is known, whatever the answer. -/
theorem update {α : Type} {f : StorageResult Unit → Proc α} {Q : V → α → Prop}
    (hgood : Good v inst)
    (hf : ∀ r, (f r).wp M Q (M.next v (.storage (.updateFsmInstance inst)) r)) :
    ((storage (.updateFsmInstance inst)).bind f).wp M Q v :=
  wp_storage.2 ⟨T.writes hgood, fun r _ => hf r⟩

/-- The loop over the transitions of a state, from the one with an index on. -/
theorem evaluateTransitions (ti : Nat) (ts : List TransitionDefinition)
    (hts : stateDef.transitions.drop ti = ts) (hgood : Good v inst)
    (hd : Known inst.definitionName definition)
    (hs : definition.states.lookup inst.currentState = some stateDef) :
    (PaciNet.evaluateTransitions cfg definition inst.currentState ti ts inst).wp M
      (fun _ _ => True) v := by
  induction ts generalizing ti inst v with
  | nil => exact T.update hgood fun _ => trivial
  | cons t ts ih =>
    have ht : stateDef.transitions[ti]? = some t := by
      have hhead := congrArg List.head? hts
      rwa [List.head?_drop] at hhead
    have hrest : stateDef.transitions.drop (ti + 1) = ts := by
      rw [← List.drop_drop, hts]
      rfl
    simp only [PaciNet.evaluateTransitions, Prog.bind_eq, Prog.wp_bind, Prog.pure_eq]
    refine (T.evaluated hgood hd hs ht).mono fun v' out hout => ?_
    obtain ⟨fires, inst'⟩ := out
    obtain ⟨hgood', context, hsame⟩ := hout
    simp only at hgood' hsame
    subst hsame
    simp only
    split
    · refine wp_mark.2 ⟨T.aside rfl rfl, fun _ => Prog.wp_bind.2 ?_⟩
      refine (T.fired (T.stays hgood') hd hs (List.mem_of_getElem? ht)).mono fun _ inst' hi => ?_
      exact T.update hi fun _ => trivial
    · exact ih _ hrest hgood' hd hs

theorem evaluateInstance (hgood : Good v inst) (hd : Known inst.definitionName definition) :
    (PaciNet.evaluateInstance cfg inst definition).wp M (fun _ _ => True) v := by
  simp only [PaciNet.evaluateInstance, Prog.bind_eq, Prog.pure_eq]
  split
  · trivial
  · rename_i stateDef hs
    split
    · split
      · refine T.step rfl rfl fun now _ => ?_
        exact T.update (T.kept (T.stays hgood) rfl rfl rfl rfl) fun _ => trivial
      · trivial
    · exact T.evaluateTransitions 0 _ rfl hgood hd hs

/-- The loop over the running instances: those to come stay known. -/
theorem evaluateEach (insts : List FsmInstance) (hinsts : ∀ inst ∈ insts, Good v inst) :
    (PaciNet.evaluateEach cfg insts).wp M (fun _ _ => True) v := by
  induction insts generalizing v with
  | nil => trivial
  | cons inst insts ih =>
    have hgood := hinsts inst List.mem_cons_self
    have hrest : ∀ i ∈ insts, Good v i := fun i hi => hinsts i (List.mem_cons_of_mem _ hi)
    refine wp_storage.2 ⟨T.aside rfl rfl, fun r hr => ?_⟩
    rcases r with e | _ | definition
    · exact ih fun i hi => T.stays (hrest i hi)
    · refine T.update (T.kept (T.stays hgood) rfl rfl rfl rfl) fun _ => ?_
      exact ih fun i hi => T.stays (T.stays (hrest i hi))
    · have hstays : ∀ v o r, (∀ i ∈ insts, Good v i) → ∀ i ∈ insts, Good (M.next v o r) i :=
        fun _ _ _ h i hi => T.stays (h i hi)
      refine Prog.wp_bind.2 (((T.evaluateInstance (T.stays hgood) (T.known hr)).stable hstays
        fun i hi => T.stays (hrest i hi)).mono fun _ _ h => ?_)
      exact ih h.2

theorem evaluateAll : (PaciNet.evaluateAll cfg).wp M (fun _ _ => True) v := by
  refine wp_storage.2 ⟨(T.lists v).1, fun r hr => ?_⟩
  cases r with
  | error e => trivial
  | ok insts =>
    refine Prog.wp_bind.2 ((T.evaluateEach insts ((T.lists v).2 insts hr)).mono fun _ _ _ => ?_)
    exact wp_storage.2 ⟨(T.lists _).1, fun _ _ => trivial⟩

theorem advanceInstance (instanceId : String) (targetState : Option String) :
    (PaciNet.advanceInstance cfg instanceId targetState).wp M (fun _ _ => True) v := by
  refine wp_storage.2 ⟨(T.gets v).1, fun r hr => ?_⟩
  rcases r with e | _ | inst
  · trivial
  · trivial
  · simp only
    split
    · trivial
    · refine wp_storage.2 ⟨T.aside rfl rfl, fun r hd => ?_⟩
      rcases r with e | _ | definition
      · trivial
      · trivial
      · simp only
        split
        · trivial
        · rename_i stateDef hs
          split
          · trivial
          · rename_i toState htarget
            obtain ⟨t, ht, rfl⟩ := FsmContract.advanceTarget_mem htarget
            have hgood := (T.gets v).2 inst hr
            refine Prog.wp_bind.2 ((T.fired (T.stays hgood) (T.known hd) hs ht).mono fun _ inst' hi => ?_)
            refine T.update hi fun r => ?_
            cases r <;> trivial

theorem cancelInstance (instanceId reason : String) :
    (PaciNet.cancelInstance cfg instanceId reason).wp M (fun _ _ => True) v := by
  refine wp_storage.2 ⟨(T.gets v).1, fun r hr => ?_⟩
  rcases r with e | _ | inst
  · trivial
  · trivial
  · simp only
    split
    · trivial
    · refine T.step rfl rfl fun updatedAt _ => T.step rfl rfl fun timestamp _ => ?_
      have hgood := (T.gets v).2 inst hr
      refine T.update (T.kept (T.stays (T.stays hgood)) rfl rfl rfl rfl) fun r => ?_
      cases r with
      | error e => trivial
      | ok u => exact Prog.wp_bind.2 ((T.plain (emitFsm_built cfg _)).mono fun _ _ _ => trivial)

theorem startInstance (defName rulesYaml : String) (compileOptions : Option CompileOptions) :
    (PaciNet.startInstance cfg defName rulesYaml compileOptions).wp M (fun _ _ => True) v := by
  refine wp_storage.2 ⟨T.aside rfl rfl, fun r hd => ?_⟩
  rcases r with e | _ | definition
  · trivial
  · trivial
  · exact T.deployment (T.known hd)

theorem startAdaptiveInstance (defName : String) (rulesYaml : Option String)
    (compileOptions : Option CompileOptions) (targetLabelFilter : Labels) :
    (PaciNet.startAdaptiveInstance cfg defName rulesYaml compileOptions targetLabelFilter).wp M
      (fun _ _ => True) v := by
  refine wp_storage.2 ⟨T.aside rfl rfl, fun r hd => ?_⟩
  rcases r with e | _ | definition
  · trivial
  · trivial
  · refine wp_storage.2 ⟨T.aside rfl rfl, fun r hlisted => ?_⟩
    rcases r with e | _ | ⟨node, nodes⟩
    · trivial
    · trivial
    · exact T.adaptive (T.known hd) hlisted

/-- **Every request is tracked.** -/
theorem serve (q : Request) : (PaciNet.serve cfg q).wp M (fun _ _ => True) v := by
  cases hq : q.isEngine with
  | false => exact T.plain (serve_plain cfg hq)
  | true =>
    cases q with
    | startInstance => exact Prog.wp_bind.2 ((T.startInstance ..).mono fun _ _ _ => trivial)
    | startAdaptiveInstance =>
      exact Prog.wp_bind.2 ((T.startAdaptiveInstance ..).mono fun _ _ _ => trivial)
    | evaluateAll => exact Prog.wp_bind.2 (T.evaluateAll.mono fun _ _ _ => trivial)
    | advanceInstance => exact Prog.wp_bind.2 ((T.advanceInstance ..).mono fun _ _ _ => trivial)
    | cancelInstance => exact Prog.wp_bind.2 ((T.cancelInstance ..).mono fun _ _ _ => trivial)
    | _ => cases hq

end Programs

end Tracks

namespace FsmContract

variable {K : FsmContract}

section Programs

variable [Extern] {cfg : ControllerConfig} {inst : FsmInstance} {definition : FsmDefinition}
  {v : Unit}

theorem executeActionOf_quiet (stateDef : StateDefinition) (inst : FsmInstance) :
    (executeActionOf cfg stateDef inst).Calls K.follower.Silent := by
  unfold executeActionOf
  split
  · trivial
  · obtain ⟨k, hk, heq⟩ := executeAction_eq cfg _ inst
    rw [heq]
    exact ⟨fun _ => ⟨trivial, fun _ => rfl⟩, fun _ => follower_silent_of_aside hk⟩

theorem fireTransition_quiet (inst : FsmInstance) (toState : String) (trigger : TransitionTrigger)
    (definition : FsmDefinition) :
    (fireTransition cfg inst toState trigger definition).Calls K.follower.Silent := by
  have hemit (e : DateTime → FsmEvent) : (emitFsm cfg e).Calls K.follower.Silent :=
    follower_silent_of_aside (emitFsm_built cfg e).aside
  refine ⟨follower_silent rfl, fun now => (hemit _).bind fun _ => ?_⟩
  split
  · trivial
  · refine (executeActionOf_quiet _ _).bind fun context => ?_
    unfold completeIfTerminal
    split
    · exact (hemit _).bind fun _ => trivial
    · trivial

/-- A start stores what its action leaves of the new instance. -/
theorem startFrom_follows (defName : String) {context : FsmContext}
    (hgood : ∀ es inst, (startFrom cfg defName definition context).Unfolds es
      (.done (.ok inst)) → K.Good inst) :
    (startFrom cfg defName definition context).wp K.follower (fun _ _ => True) v := by
  rw [startFrom_eq]
  refine wp_op_silent (follower_silent rfl) fun now => ?_
  refine wp_op_silent (follower_silent rfl) fun id => ?_
  have hsilent : (executeInitial cfg definition (.new now id defName definition.initial
      context)).Calls K.follower.Silent := by
    unfold executeInitial
    split
    · trivial
    · exact executeActionOf_quiet _ _
  refine Prog.wp_bind.2 (Prog.wp_of_unfolds hsilent fun es context' h => ?_)
  let inst := (FsmInstance.new now id defName definition.initial context).setContext context'
  have hstarts : (startFrom cfg defName definition context).Unfolds
      (⟨.now, now⟩ :: ⟨.uuid, id⟩ :: (es ++ [⟨.storage (.storeFsmInstance inst), .ok ()⟩]))
      (.done (.ok inst)) := by
    rw [startFrom_eq]
    refine .step (.step ?_)
    rw [Prog.done_bind]
    exact Prog.unfolds_bind.2 ⟨es, _, context', rfl, h, .step (.refl _)⟩
  exact wp_storage.2 ⟨hgood _ _ hstarts, fun r _ => by cases r <;> trivial⟩

/-- A property that goes through what the engine does is tracked: nothing else is to be known. -/
theorem Follows.tracks (hK : K.Follows cfg) :
    Tracks cfg K.follower K.Known fun _ inst => K.Good inst where
  stays h := h
  aside htouches hmark := (follower_silent htouches ()).1
  known hr := hr.1
  gets _ := ⟨trivial, fun _ hr => hr.1⟩
  lists _ := ⟨trivial, fun _ hr inst hi => (hr.1 inst hi).1⟩
  writes h := h
  deployment hd := startFrom_follows _ fun _ _ h => hK.deployment hd h
  adaptive hd hlisted := startFrom_follows _ fun _ _ h => hK.adaptive hd hlisted.2 h
  evaluated hgood hd hs ht := Prog.wp_of_unfolds
    ((shouldFire_plain _ _).mono fun _ ho => follower_silent ho.1) fun es out h => by
    obtain ⟨fires, inst'⟩ := out
    obtain ⟨context, -, hsame⟩ := shouldFire_same h
    exact ⟨hK.evaluated hgood hd hs ht h, context, hsame⟩
  fired hgood hd hs ht := Prog.wp_of_unfolds (fireTransition_quiet _ _ _ _)
    fun _ _ h => hK.fired hgood hd hs ht h
  kept hgood _ hcontext hstate hname := hK.kept hgood hcontext hstate hname

end Programs

/-! ## Runs -/

variable [Extern] {cfg : ControllerConfig}

theorem Follows.guarantee (hK : K.Follows cfg) : (controller cfg MemoryStorage).Guarantee
    K.follower () (fun _ _ _ => True) K.Holds fun _ => True where
  prog q _ := hK.tracks.serve q
  exec _ _ _ _ _ _ _ hJ hallow hx :=
    ⟨(hJ.exec hallow hx).1, ⟨(hJ.exec hallow hx).2, listsOnce_of_exec hx⟩, fun _ _ => trivial⟩

/-- **The property holds of every stored instance throughout every run**, if the environment
    keeps it. -/
theorem Follows.steps (hK : K.Follows cfg) {C : StepCondition} {c c' : Pool}
    (hC : ∀ c w, C c (.env w) → K.Holds c.shared → K.Holds w)
    (h : (controller cfg MemoryStorage).Steps C c c') (hidle : c.threads = [])
    (hc : K.Holds c.shared) : K.Holds c'.shared :=
  (h.watched hK.guarantee ⟨fun _ _ _ => trivial, hC⟩ (System.allWatched_of_idle hc hidle)).1

end FsmContract

/-- The environment leaves the instances alone. -/
def LeavesInstances : StepCondition
  | c, .env w => w.storage.fsmInstances = c.shared.storage.fsmInstances
  | _, _ => True

theorem leavesInstances_sound (c : Pool) (l : StepLabel) (h : interleaved c l) :
    LeavesInstances c l := by
  cases l with
  | env w => cases h
  | _ => trivial

end PaciNet

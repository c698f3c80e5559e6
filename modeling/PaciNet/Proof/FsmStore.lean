import PaciNet.Lib.Snapshot
import PaciNet.Proof.Blocks
import PaciNet.Storage.Memory

/-!
# FSM instances under interleaved operations

Evaluating, advancing and cancelling an instance all read it, work on the copy and write the
copy back. Read one at a time the code is right: it refuses an instance that is not running,
only ever extends the history of the one it has read, and starts actions for running instances
only. **This is what the monitor of `Lib/Snapshot.lean` asks of each program, and every request
of the controller is shown correct under it on its own.** What it is worth when the programs are
interleaved is the subject of `Proof/FsmInterleaving.lean`.
-/

set_option autoImplicit false

namespace PaciNet

open Lib

/-! ## The instances as a store -/

/-- The start of an action for an instance. -/
def Mark.isStartOf (instanceId : String) : Mark → Bool
  | .startAction iid _ => iid == instanceId
  | _ => false

/-- How the operations use the stored instances; the log of an instance is the actions started
    for it. -/
def fsmStore : Store Op Op.Res (World MemoryStorage) String FsmInstance (List Mark) where
  stored w k := w.storage.fsmInstances.get? k
  key := FsmInstance.instanceId
  reads o r := match o, r with
    | .storage (.getFsmInstance _), .ok (some inst) => [inst]
    | .storage (.listFsmInstances _ _), .ok insts => insts
    | _, _ => []
  writes
    | .storage (.updateFsmInstance inst) | .storage (.storeFsmInstance inst) => some inst
    | _ => none
  wrote o r := match o, r with
    | .storage (.updateFsmInstance _), .ok () | .storage (.storeFsmInstance _), .ok () => true
    | _, _ => false
  acts
    | .mark (.startAction iid _) => some iid
    | _ => none
  log w k := w.marks.filter (Mark.isStartOf k)

/-- How far an instance has come. -/
structure Progress where
  status : FsmInstanceStatus
  history : List FsmTransitionRecord
  deriving DecidableEq

def FsmInstance.progress (inst : FsmInstance) : Progress := ⟨inst.status, inst.history⟩

@[simp] theorem FsmInstance.progress_status (inst : FsmInstance) :
    inst.progress.status = inst.status := rfl

@[simp] theorem FsmInstance.progress_history (inst : FsmInstance) :
    inst.progress.history = inst.history := rfl

/-- An instance gets further while it is running, and only by extending its history. -/
def fsmLifecycle : Lifecycle FsmInstance Progress where
  version := FsmInstance.progress
  Live p := p.status = .running
  Extends p p' := p.history <+: p'.history

/-- What the programs rely on about the answers they get. -/
def fsmExpect : (o : Op) → o.Res → Prop
  | .storage (.getFsmInstance id), .ok (some inst) => inst.instanceId = id
  | .storage (.listFsmInstances _ (some status)), .ok insts =>
      (insts.map FsmInstance.instanceId).Nodup ∧ ∀ inst ∈ insts, inst.status = status
  | _, _ => True

/-- The monitor of the programs that work on instances. -/
abbrev fsmMonitor : Monitor Op Op.Res (View FsmInstance) := fsmStore.monitor fsmLifecycle fsmExpect

theorem fsmMonitor_silent {o : Op} (h : o.touchesFsm = false) : fsmMonitor.Silent o := by
  refine Store.silent ?_ fun r => ?_
  · simp only [Store.concerned, fsmStore, List.append_eq_nil_iff]
    constructor <;> split <;> simp_all [Op.touchesFsm]
  · simp only [fsmStore]
    split <;> simp_all [Op.touchesFsm]

/-! ## The machine keeps to the store -/

theorem fsmStore_lawful [Extern] : fsmStore.Lawful (machine MemoryStorage) where
  frame := by
    intro x o w r w' new k hx hw
    have hs := (World.stepped_of_exec hx).storage
    show w'.storage.fsmInstances.get? k = w.storage.fsmInstances.get? k
    cases o with
    | storage c =>
      have hc : w'.storage = (Storage.call x.now c w.storage).2 := congrArg Prod.snd hs
      rw [hc, call_fsmInstances]
      cases c with
      | storeFsmInstance inst => exact Table.get?_insert_ne (Ne.symm (hw inst rfl))
      | updateFsmInstance inst =>
        simp only
        split
        · exact Table.get?_insert_ne (Ne.symm (hw inst rfl))
        · rfl
      | _ => rfl
    | _ => exact congrArg (fun s : MemoryStorage => s.fsmInstances.get? k) hs
  write := by
    intro x o w r w' new v hx hw
    have hs := (World.stepped_of_exec hx).storage
    cases o with
    | storage c =>
      have hc : w'.storage = (Storage.call x.now c w.storage).2 := congrArg Prod.snd hs
      have hr : r = (Storage.call x.now c w.storage).1 := congrArg Prod.fst hs
      cases c with
      | storeFsmInstance inst =>
        cases hw
        subst hr
        show w'.storage.fsmInstances.get? v.instanceId = some v
        rw [hc, call_fsmInstances]
        exact Table.get?_insert_self _ _
      | updateFsmInstance inst =>
        cases hw
        subst hr
        simp only [fsmStore, hc, call_fsmInstances]
        simp only [Storage.call, MemoryStorage.updateFsmInstance]
        split
        · exact Table.get?_insert_self _ _
        · rfl
      | _ => cases hw
    | _ => cases hw
  quiet := by
    intro x o w r w' new k hx ho
    show w'.marks.filter (Mark.isStartOf k) = w.marks.filter (Mark.isStartOf k)
    rw [(World.stepped_of_exec hx).marks, List.filter_append]
    cases o with
    | mark m =>
      cases m with
      | startAction iid state =>
        have hne : (iid == k) = false := by
          simpa using fun h => ho (congrArg some h)
        simp [World.marksOf, Mark.isStartOf, hne]
      | _ => simp [World.marksOf, Mark.isStartOf]
    | _ => simp [World.marksOf]

/-- The answers of the backend are the ones the programs rely on. -/
theorem fsmExpect_of_exec [Extern] {x : Ext} {o : Op} {w w' : World MemoryStorage} {r : o.Res}
    {new : List Request} (hx : World.exec x o w = some (r, w', new)) : fsmExpect o r := by
  cases o with
  | storage c =>
    have hr : r = (Storage.call x.now c w.storage).1 :=
      congrArg Prod.fst (World.stepped_of_exec hx).storage
    cases c with
    | getFsmInstance id =>
      subst hr
      cases h : w.storage.fsmInstances.get? id with
      | none => simp [Storage.call, MemoryStorage.getFsmInstance, h, fsmExpect]
      | some inst =>
        simp only [Storage.call, MemoryStorage.getFsmInstance, h, fsmExpect]
        exact Table.key_of_get? h
    | listFsmInstances defName status =>
      subst hr
      cases status with
      | none => trivial
      | some status =>
        refine ⟨w.storage.fsmInstances.nodup.sublist (List.filter_sublist.map _), ?_⟩
        intro inst hi
        have := (List.mem_filter.1 hi).2
        simp_all
    | _ => trivial
  | _ => trivial

/-! ## The programs are right on their own -/

theorem silent_of_aside [Extern] {cfg : ControllerConfig} {α : Type} {p : Proc α}
    (hp : BuiltAside cfg p) : p.Calls fsmMonitor.Silent :=
  hp.calls.mono fun _ h => fsmMonitor_silent h

/-- If the thread has seen the instance, it was running then and has only been extended since. -/
def MayWrite (st : View FsmInstance) (inst : FsmInstance) : Prop :=
  ∀ u, fsmStore.lookup st inst.instanceId = some u →
    u.status = .running ∧ u.history <+: inst.history

section MayWrite

variable {st : View FsmInstance} {inst inst' : FsmInstance}

theorem mayWrite_of_seen (h : fsmStore.lookup st inst.instanceId = some inst)
    (hrun : inst.status = .running) : MayWrite st inst := by
  intro u hu
  obtain rfl : inst = u := Option.some.inj (h.symm.trans hu)
  exact ⟨hrun, List.prefix_rfl⟩

theorem mayWrite_of_unseen (h : fsmStore.lookup st inst.instanceId = none) : MayWrite st inst :=
  fun u hu => absurd (h.symm.trans hu) (by simp)

theorem MayWrite.extend (h : MayWrite st inst) (hid : inst'.instanceId = inst.instanceId)
    (hext : inst.history <+: inst'.history) : MayWrite st inst' := by
  intro u hu
  obtain ⟨hrun, hpre⟩ := h u (hid ▸ hu)
  exact ⟨hrun, hpre.trans hext⟩

/-! ### The operations of the engine -/

theorem concerned_update (inst : FsmInstance) :
    fsmStore.concerned (.storage (.updateFsmInstance inst)) = [inst.instanceId] := rfl

theorem concerned_store (inst : FsmInstance) :
    fsmStore.concerned (.storage (.storeFsmInstance inst)) = [inst.instanceId] := rfl

theorem concerned_start (instanceId state : String) :
    fsmStore.concerned (.mark (.startAction instanceId state)) = [instanceId] := rfl

theorem seen_get (st : View FsmInstance) (inst : FsmInstance) (id : String) :
    (fsmMonitor.next st (.storage (.getFsmInstance id)) (.ok (some inst))).seen =
      inst :: st.seen := rfl

theorem MayWrite.allow_update (h : MayWrite st inst) :
    fsmMonitor.allow st (.storage (.updateFsmInstance inst)) := by
  intro k hk u hu
  rw [concerned_update, List.mem_singleton] at hk
  subst hk
  refine ⟨(h u hu).1, fun v hv => ?_⟩
  cases hv
  exact (h u hu).2

theorem MayWrite.allow_store (h : MayWrite st inst) :
    fsmMonitor.allow st (.storage (.storeFsmInstance inst)) := by
  intro k hk u hu
  rw [concerned_store, List.mem_singleton] at hk
  subst hk
  refine ⟨(h u hu).1, fun v hv => ?_⟩
  cases hv
  exact (h u hu).2

/-- Starting an action for an instance that may be written is allowed. -/
theorem MayWrite.allow_start {state : String} (h : MayWrite st inst) :
    fsmMonitor.allow st (.mark (.startAction inst.instanceId state)) := by
  intro k hk u hu
  rw [concerned_start, List.mem_singleton] at hk
  subst hk
  refine ⟨(h u hu).1, fun v hv => ?_⟩
  cases hv

/-- After a write the other instances are seen as before. -/
theorem lookup_after_update {r : StorageResult Unit} {k : String} (hk : k ≠ inst.instanceId) :
    fsmStore.lookup (fsmMonitor.next st (.storage (.updateFsmInstance inst)) r) k =
      fsmStore.lookup st k := by
  show (inst :: st.seen).find? (fun i => decide (i.instanceId = k)) = fsmStore.lookup st k
  rw [List.find?_cons_of_neg (by simpa using Ne.symm hk)]
  rfl

/-- A write that was answered with success is among the writes of the thread. -/
theorem mem_written (inst : FsmInstance) :
    inst ∈ (fsmMonitor.next st (.storage (.updateFsmInstance inst)) (.ok ())).written :=
  List.mem_cons_self

/-- Reading concerns no instance. -/
theorem allow_read {c : StorageCall} (h : fsmStore.concerned (.storage c) = []) :
    fsmMonitor.allow st (.storage c) := by
  intro k hk
  rw [h] at hk
  exact absurd hk List.not_mem_nil

/-- An instance that was just read and is running may be written. -/
theorem mayWrite_of_get (st : View FsmInstance) (id : String) (hrun : inst.status = .running) :
    MayWrite (fsmMonitor.next st (.storage (.getFsmInstance id)) (.ok (some inst))) inst := by
  refine mayWrite_of_seen ?_ hrun
  rw [Store.lookup, seen_get]
  exact List.find?_cons_of_pos (decide_eq_true rfl)

/-- The running instances that were just listed may be written. -/
theorem mayWrite_of_list {insts : List FsmInstance}
    (hexp : fsmMonitor.expect (.storage (.listFsmInstances none (some .running))) (.ok insts))
    (hi : inst ∈ insts) :
    MayWrite (fsmMonitor.next st (.storage (.listFsmInstances none (some .running))) (.ok insts))
      inst := by
  obtain ⟨hnodup, hrunning⟩ := hexp
  refine mayWrite_of_seen ?_ (hrunning inst hi)
  have hfind : insts.find? (fun i => decide (i.instanceId = inst.instanceId)) = some inst := by
    obtain ⟨before, after, rfl⟩ := List.append_of_mem hi
    refine List.find?_eq_some_iff_append.2 ⟨by simp, before, after, rfl, fun i hb => ?_⟩
    rw [List.map_append, List.map_cons, List.nodup_append] at hnodup
    simpa using hnodup.2.2 _ (List.mem_map_of_mem hb) _ List.mem_cons_self
  show (insts ++ st.seen).find? (fun i => decide (i.instanceId = inst.instanceId)) = some inst
  rw [List.find?_append, hfind]
  rfl

end MayWrite

section Programs

variable [Extern] (cfg : ControllerConfig) {st : View FsmInstance} {inst : FsmInstance}

/-- An action starts for an instance that may be written, and writes nothing. -/
theorem executeActionOf_wp (stateDef : StateDefinition) (h : MayWrite st inst) :
    (executeActionOf cfg stateDef inst).wp fsmMonitor (fun st' _ => st' = st) st := by
  simp only [executeActionOf]
  split
  · rfl
  · rename_i action _
    obtain ⟨k, hk, heq⟩ := executeAction_eq cfg action inst
    rw [heq, wp_mark]
    refine ⟨h.allow_start, fun _ => ?_⟩
    have hnext : fsmMonitor.next st
        (.mark (.startAction inst.instanceId inst.currentState)) () = st := rfl
    rw [hnext]
    exact Prog.wp_of_calls (silent_of_aside hk) fun _ => rfl

/-- An event is no concern of the monitor. -/
theorem emitFsm_wp {α : Type} (e : DateTime → FsmEvent) {f : Unit → Proc α}
    {Q : View FsmInstance → α → Prop} (hf : (f ()).wp fsmMonitor Q st) :
    ((emitFsm cfg e).bind f).wp fsmMonitor Q st :=
  Prog.wp_bind.2 (Prog.wp_of_calls (silent_of_aside (emitFsm_built cfg e).aside) fun _ => hf)

/-- The instance that comes out of a step of the engine may be written if the one that went in
    may. -/
abbrev Continues (st : View FsmInstance) (inst : FsmInstance) :
    View FsmInstance → FsmInstance → Prop :=
  fun st' inst' => st' = st ∧ inst'.instanceId = inst.instanceId ∧ MayWrite st inst'

theorem enterState_wp (stateDef : StateDefinition) (inst : FsmInstance) (h : MayWrite st inst) :
    (enterState cfg stateDef inst).wp fsmMonitor (Continues st inst) st := by
  simp only [enterState, Prog.bind_eq, Prog.wp_bind]
  refine (executeActionOf_wp cfg stateDef h).mono fun st' context hst => ?_
  subst hst
  simp only [completeIfTerminal, Prog.bind_eq, Prog.pure_eq]
  split
  · exact emitFsm_wp cfg _ ⟨rfl, rfl, h.extend rfl List.prefix_rfl⟩
  · exact ⟨rfl, rfl, h.extend rfl List.prefix_rfl⟩

/-- **Firing a transition extends the history** and performs no write. -/
theorem fireTransition_wp (inst : FsmInstance) (toState : String) (trigger : TransitionTrigger)
    (definition : FsmDefinition) (h : MayWrite st inst) :
    (fireTransition cfg inst toState trigger definition).wp fsmMonitor (Continues st inst) st := by
  simp only [fireTransition, Prog.bind_eq, Prog.pure_eq]
  refine wp_op_silent (fsmMonitor_silent rfl) fun now => emitFsm_wp cfg _ ?_
  have moved : ∀ message, MayWrite st ((inst.setContext
      (inst.context.forgetState inst.currentState)).transition now toState trigger message) :=
    fun message => h.extend rfl (FsmInstance.prefix_transition _ _ _ _ _)
  split
  · exact ⟨rfl, rfl, moved _⟩
  · exact enterState_wp cfg _ _ (moved _)

omit [Extern] in
/-- Evaluating whether a transition fires changes the context only. -/
theorem shouldFire_wp (currentState : String) (ti : Nat) (t : TransitionDefinition) :
    (shouldFire currentState ti t inst).wp fsmMonitor
      (fun st' r => st' = st ∧ ∃ context, r.2 = inst.setContext context) st := by
  simp only [shouldFire, Prog.bind_eq, Prog.pure_eq]
  split
  · exact wp_op_silent (fsmMonitor_silent rfl) fun obs => ⟨rfl, _, rfl⟩
  · split
    · exact wp_op_silent (fsmMonitor_silent rfl) fun now => ⟨rfl, _, rfl⟩
    · exact ⟨rfl, _, rfl⟩
  · exact ⟨rfl, _, rfl⟩

/-- The instances other than the given one are seen as before. -/
def OthersSeen (id : String) (st st' : View FsmInstance) : Prop :=
  ∀ k, k ≠ id → fsmStore.lookup st' k = fsmStore.lookup st k

omit [Extern] in
theorem OthersSeen.mayWrite {id : String} {st' : View FsmInstance} (ho : OthersSeen id st st')
    (hne : inst.instanceId ≠ id) (h : MayWrite st inst) : MayWrite st' inst :=
  fun u hu => h u ((ho _ hne).symm.trans hu)

omit [Extern] in
/-- Writing the instance back as the last thing to do. -/
theorem update_wp (inst : FsmInstance) (h : MayWrite st inst) :
    ((storage (.updateFsmInstance inst)).bind fun _ => Prog.done ()).wp fsmMonitor
      (fun st' _ => OthersSeen inst.instanceId st st') st :=
  wp_storage.2 ⟨h.allow_update, fun _ _ _ hk => lookup_after_update hk⟩

theorem evaluateTransitions_wp (definition : FsmDefinition) (currentState : String) (ti : Nat)
    (ts : List TransitionDefinition) (h : MayWrite st inst) :
    (evaluateTransitions cfg definition currentState ti ts inst).wp fsmMonitor
      (fun st' _ => OthersSeen inst.instanceId st st') st := by
  induction ts generalizing ti inst with
  | nil => exact update_wp _ h
  | cons t ts ih =>
    simp only [evaluateTransitions, Prog.bind_eq, Prog.wp_bind, Prog.pure_eq]
    refine (shouldFire_wp currentState ti t).mono fun st' r hr => ?_
    obtain ⟨rfl, context, hr⟩ := hr
    obtain ⟨fires, inst'⟩ := r
    cases hr
    have hctx : MayWrite st' (inst.setContext context) := h.extend rfl List.prefix_rfl
    cases fires with
    | false => exact ih (ti + 1) hctx
    | true =>
      refine wp_mark_silent (fsmMonitor_silent rfl) ?_
      rw [Prog.wp_bind]
      refine Prog.wp.mono (fireTransition_wp cfg _ _ _ definition hctx) fun st'' inst'' hi => ?_
      obtain ⟨rfl, hid, hmay⟩ := hi
      exact (update_wp inst'' hmay).mono fun _ _ ho => hid ▸ ho

theorem evaluateInstance_wp (definition : FsmDefinition) (h : MayWrite st inst) :
    (evaluateInstance cfg inst definition).wp fsmMonitor
      (fun st' _ => OthersSeen inst.instanceId st st') st := by
  simp only [evaluateInstance, Prog.bind_eq, Prog.pure_eq]
  split
  · exact fun _ _ => rfl
  · split
    · split
      · refine wp_op_silent (fsmMonitor_silent rfl) fun now => ?_
        exact update_wp { inst.setStatus .completed with updatedAt := now }
          (h.extend rfl List.prefix_rfl)
      · exact fun _ _ => rfl
    · exact evaluateTransitions_wp cfg definition _ 0 _ h

/-- The loop of `evaluate_all`: each instance of the list may still be written when its turn
    comes, because the turns before it were about other ids. -/
theorem evaluateEach_wp (insts : List FsmInstance)
    (hn : (insts.map FsmInstance.instanceId).Nodup) (h : ∀ inst ∈ insts, MayWrite st inst) :
    (evaluateEach cfg insts).wp fsmMonitor (fun _ _ => True) st := by
  induction insts generalizing st with
  | nil => trivial
  | cons inst insts ih =>
    rw [List.map_cons, List.nodup_cons] at hn
    have hinst := h inst List.mem_cons_self
    -- what the rest of the loop needs of the turn of `inst`
    have rest : ∀ st', OthersSeen inst.instanceId st st' →
        (evaluateEach cfg insts).wp fsmMonitor (fun _ _ => True) st' := by
      refine fun st' ho => ih hn.2 fun i hi => ho.mayWrite (fun he => ?_)
        (h i (List.mem_cons_of_mem _ hi))
      exact hn.1 (he ▸ List.mem_map_of_mem hi)
    simp only [evaluateEach, Prog.bind_eq]
    refine wp_storage_silent (fsmMonitor_silent rfl) fun r => ?_
    rcases r with e | _ | definition
    · exact rest st fun _ _ => rfl
    · have hfailed : MayWrite st (inst.setStatus .failed) := hinst.extend rfl List.prefix_rfl
      exact wp_storage.2 ⟨hfailed.allow_update, fun _ _ => rest _ fun k hk => lookup_after_update hk⟩
    · change (Prog.bind (evaluateInstance cfg inst definition) _).wp _ _ _
      rw [Prog.wp_bind]
      exact (evaluateInstance_wp cfg definition hinst).mono fun st' _ ho => rest st' ho

theorem evaluateAll_wp : (evaluateAll cfg).wp fsmMonitor (fun _ _ => True) st := by
  simp only [evaluateAll, Prog.bind_eq, Prog.pure_eq]
  refine wp_storage.2 ⟨allow_read rfl, fun r hexp => ?_⟩
  cases r with
  | error e => trivial
  | ok insts =>
    rw [Prog.wp_bind]
    refine Prog.wp.mono (evaluateEach_wp cfg insts hexp.1 fun inst hi => mayWrite_of_list hexp hi)
      fun st' _ _ => ?_
    exact wp_storage.2 ⟨allow_read rfl, fun _ _ => trivial⟩

/-- What an advance or a cancellation that succeeded has written. -/
def fsmPost : Request → View FsmInstance → Reply → Prop
  | .advanceInstance id _, st, .advanceInstance (.ok inst) =>
      inst ∈ st.written ∧ inst.instanceId = id
  | .cancelInstance id _, st, .cancelInstance (.ok ()) =>
      ∃ inst ∈ st.written, inst.instanceId = id ∧ inst.status = .cancelled
  | _, _, _ => True

theorem advanceInstance_wp (instanceId : String) (targetState : Option String) :
    (advanceInstance cfg instanceId targetState).wp fsmMonitor
      (fun st' r => ∀ inst, r = .ok inst → inst ∈ st'.written ∧ inst.instanceId = instanceId) st := by
  have refused : ∀ (st : View FsmInstance) (e : PaciNetError),
      (Prog.done (.error e) : Proc (Except PaciNetError FsmInstance)).wp fsmMonitor
        (fun st' r => ∀ inst, r = .ok inst →
          inst ∈ st'.written ∧ inst.instanceId = instanceId) st :=
    fun st e inst h => nomatch h
  simp only [advanceInstance, Prog.bind_eq, Prog.pure_eq]
  refine wp_storage.2 ⟨allow_read rfl, fun r hexp => ?_⟩
  rcases r with e | _ | inst
  · exact refused _ _
  · exact refused _ _
  · simp only
    split
    · exact refused _ _
    · rename_i hrun
      have hmay := mayWrite_of_get st instanceId (inst.isRunning_iff.1 (by simpa using hrun))
      refine wp_storage_silent (fsmMonitor_silent rfl) fun r => ?_
      rcases r with e | _ | definition
      · exact refused _ _
      · exact refused _ _
      · simp only
        split
        · exact refused _ _
        · split
          · exact refused _ _
          · rw [Prog.wp_bind]
            refine Prog.wp.mono (fireTransition_wp cfg _ _ _ definition hmay)
              fun st' inst' hi => ?_
            obtain ⟨rfl, hid, hmay'⟩ := hi
            refine wp_storage.2 ⟨hmay'.allow_update, fun r _ => ?_⟩
            cases r with
            | error e => exact refused _ _
            | ok u =>
              intro i hi
              cases hi
              exact ⟨mem_written inst', hid.trans hexp⟩

theorem cancelInstance_wp (instanceId reason : String) :
    (cancelInstance cfg instanceId reason).wp fsmMonitor (fun st' r => r = .ok () →
      ∃ inst ∈ st'.written, inst.instanceId = instanceId ∧ inst.status = .cancelled) st := by
  have refused : ∀ (st : View FsmInstance) (e : PaciNetError),
      (Prog.done (.error e) : Proc (Except PaciNetError Unit)).wp fsmMonitor
        (fun st' r => r = .ok () →
          ∃ inst ∈ st'.written, inst.instanceId = instanceId ∧ inst.status = .cancelled) st :=
    fun st e h => nomatch h
  simp only [cancelInstance, Prog.bind_eq, Prog.pure_eq]
  refine wp_storage.2 ⟨allow_read rfl, fun r hexp => ?_⟩
  rcases r with e | _ | inst
  · exact refused _ _
  · exact refused _ _
  · simp only
    split
    · exact refused _ _
    · rename_i hrun
      have hmay := mayWrite_of_get st instanceId (inst.isRunning_iff.1 (by simpa using hrun))
      refine wp_op_silent (fsmMonitor_silent rfl) fun updatedAt =>
        wp_op_silent (fsmMonitor_silent rfl) fun timestamp => ?_
      have hcancelled : MayWrite _ (inst.cancelled updatedAt timestamp reason) :=
        hmay.extend rfl (List.prefix_append _ _)
      refine wp_storage.2 ⟨hcancelled.allow_update, fun r _ => ?_⟩
      cases r with
      | error e => exact refused _ _
      | ok u => exact emitFsm_wp cfg _ fun _ => ⟨_, mem_written _, hexp, rfl⟩

/-- A start acts for, and stores, an instance that it has not seen. -/
theorem startFrom_wp (defName : String) (definition : FsmDefinition) (context : FsmContext)
    (h : ∀ k, fsmStore.lookup st k = none) :
    (startFrom cfg defName definition context).wp fsmMonitor (fun _ _ => True) st := by
  simp only [startFrom, Prog.bind_eq, Prog.pure_eq]
  refine wp_op_silent (fsmMonitor_silent rfl) fun now =>
    wp_op_silent (fsmMonitor_silent rfl) fun id => ?_
  have stored : ∀ context', (storage (.storeFsmInstance
      ((FsmInstance.new now id defName definition.initial context).setContext context'))).wp
      fsmMonitor (fun _ _ => True) st :=
    fun context' => ⟨(mayWrite_of_unseen (h _)).allow_store, fun _ _ => trivial⟩
  split
  · rw [Prog.done_bind]
    refine Prog.wp_bind.2 ((stored _).mono fun st' r _ => ?_)
    cases r <;> trivial
  · rw [Prog.wp_bind]
    refine Prog.wp.mono (executeActionOf_wp cfg _ (mayWrite_of_unseen (h _)))
      fun st' context' hst => ?_
    subst hst
    refine Prog.wp_bind.2 ((stored context').mono fun st' r _ => ?_)
    cases r <;> trivial

theorem startInstance_wp (defName rulesYaml : String) (compileOptions : Option CompileOptions)
    (h : ∀ k, fsmStore.lookup st k = none) :
    (startInstance cfg defName rulesYaml compileOptions).wp fsmMonitor (fun _ _ => True) st := by
  simp only [startInstance, Prog.bind_eq, Prog.pure_eq]
  refine wp_storage_silent (fsmMonitor_silent rfl) fun r => ?_
  rcases r with e | _ | definition
  · trivial
  · trivial
  · exact startFrom_wp cfg _ _ _ h

theorem startAdaptiveInstance_wp (defName : String) (rulesYaml : Option String)
    (compileOptions : Option CompileOptions) (targetLabelFilter : Labels)
    (h : ∀ k, fsmStore.lookup st k = none) :
    (startAdaptiveInstance cfg defName rulesYaml compileOptions targetLabelFilter).wp fsmMonitor
      (fun _ _ => True) st := by
  simp only [startAdaptiveInstance, Prog.bind_eq, Prog.pure_eq]
  refine wp_storage_silent (fsmMonitor_silent rfl) fun r => ?_
  rcases r with e | _ | definition
  · trivial
  · trivial
  · refine wp_storage_silent (fsmMonitor_silent rfl) fun r => ?_
    rcases r with e | _ | ⟨node, nodes⟩
    · trivial
    · trivial
    · exact startFrom_wp cfg _ _ _ h

/-- **Every request of the controller is correct under the monitor on its own.** -/
theorem serve_wp (q : Request) :
    (serve cfg q).wp fsmMonitor (fsmPost q) ⟨[], []⟩ := by
  have unseen : ∀ k, fsmStore.lookup ⟨[], []⟩ k = none := fun _ => rfl
  by_cases hq : q.isEngine = false
  · refine Prog.wp_of_calls (silent_of_aside (serve_plain cfg hq).aside) fun reply => ?_
    cases q <;> trivial
  · cases q with
    | startInstance defName rulesYaml compileOptions =>
      exact Prog.wp_bind.2 ((startInstance_wp cfg _ _ _ unseen).mono fun _ _ _ => trivial)
    | startAdaptiveInstance defName rulesYaml compileOptions targetLabelFilter =>
      exact Prog.wp_bind.2 ((startAdaptiveInstance_wp cfg _ _ _ _ unseen).mono
        fun _ _ _ => trivial)
    | evaluateAll => exact Prog.wp_bind.2 ((evaluateAll_wp cfg).mono fun _ _ _ => trivial)
    | advanceInstance instanceId targetState =>
      refine Prog.wp_bind.2 ((advanceInstance_wp cfg _ _).mono fun st r hr => ?_)
      cases r with
      | error e => trivial
      | ok inst => exact hr inst rfl
    | cancelInstance instanceId reason =>
      refine Prog.wp_bind.2 ((cancelInstance_wp cfg _ _).mono fun st r hr => ?_)
      cases r with
      | error e => trivial
      | ok u => exact hr rfl
    | _ => exact absurd rfl hq

theorem fsmStore_behaves :
    fsmStore.Behaves fsmLifecycle fsmExpect (controller cfg MemoryStorage) fsmPost where
  prog q _ := serve_wp cfg q
  exec _ _ _ _ _ _ _ _ _ hx := ⟨trivial, fsmExpect_of_exec hx, fun _ _ => trivial⟩

end Programs

end PaciNet

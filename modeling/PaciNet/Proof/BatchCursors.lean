import PaciNet.Proof.Batches
import PaciNet.Proof.InstanceSteps
import PaciNet.Proof.InstanceDeploys

/-!
# Where a cursor comes from

A batched deploy begins where the context of its instance says. That context has been read from
the store, or has come out of the deploys of the same task, and it goes back to the store: between
two executions nothing remembers whose batch it was that moved the cursor, nor of which list.

Here the cursors are followed. **In every run, whatever the interleaving, the cursor of a stored
instance is `0` or lies within a batch that an action of this instance has ended
(`cursorsLinked_of_steps`)**, and so does every cursor a task is about to begin a batch at.
-/

set_option autoImplicit false

namespace PaciNet

open Lib Prog

/-! ## What a task knows of cursors -/

/-- The batches of a task, and the cursors of the instances it has read. -/
structure CursorView where
  batches : BatchView
  read : List (String × Nat)

/-- The instances an answer contains. -/
def instancesIn : (o : Op) → o.Res → List FsmInstance
  | .storage (.getFsmInstance _), .ok (some inst) => [inst]
  | .storage (.listFsmInstances _ _), .ok insts => insts
  | _, _ => []

/-- The cursor is untouched, or the task has read it, or it is within a batch the task has ended. -/
def CursorView.Knows (v : CursorView) (instanceId : String) (cursor : Nat) : Prop :=
  cursor = 0 ∨ (instanceId, cursor) ∈ v.read ∨
    ∃ e ∈ v.batches.ended, e.1.instanceId = instanceId ∧ cursor ≤ e.2.stop

/-- The contract under which every instance has a cursor of a kind. -/
def FsmContract.ofCursors (P : String → Nat → Prop) : FsmContract :=
  ⟨fun _ _ => True, fun inst => P inst.instanceId inst.context.batchCursor⟩

/-- A task begins batches at cursors it knows, and writes instances with such cursors. -/
def cursorMonitor : Monitor Op Op.Res CursorView where
  allow v o := match o with
    | .mark (.batch iid _ cursor _) => v.Knows iid cursor
    | o => (FsmContract.ofCursors v.Knows).monitor.allow () o
  expect _ _ := True
  next v o r :=
    ⟨v.batches.next o,
      (instancesIn o r).map (fun inst => (inst.instanceId, inst.context.batchCursor)) ++ v.read⟩

/-- What the task knows of cursors. -/
def cursorView (t : Task) : CursorView := cursorMonitor.after ⟨⟨none, []⟩, []⟩ t.trace

/-- It knows its batches as before. -/
theorem cursorView_batches (t : Task) : (cursorView t).batches = batchView t := by
  have hafter (trace : List Answered) : ∀ v : CursorView,
      (cursorMonitor.after v trace).batches = batchMonitor.after v.batches trace := by
    induction trace with
    | nil => exact fun _ => rfl
    | cons e trace ih => exact fun v => ih (cursorMonitor.next v e.1 e.2)
  exact hafter t.trace _

theorem BatchView.ended_subset_next (v : BatchView) (o : Op) : v.ended ⊆ (v.next o).ended := by
  cases o with
  | mark m =>
    cases m with
    | passed iid state results =>
      simp only [BatchView.next]
      split
      · exact List.Subset.refl _
      · split
        · exact List.subset_cons_self _ _
        · exact List.Subset.refl _
    | _ => exact List.Subset.refl _
  | _ => exact List.Subset.refl _

/-- What is known stays known. -/
theorem CursorView.Knows.next {v : CursorView} {instanceId : String} {cursor : Nat}
    (h : v.Knows instanceId cursor) (o : Op) (r : o.Res) :
    (cursorMonitor.next v o r).Knows instanceId cursor := by
  rcases h with hzero | hread | ⟨e, he, hid, hstop⟩
  · exact .inl hzero
  · exact .inr (.inl (List.mem_append_right _ hread))
  · exact .inr (.inr ⟨e, v.batches.ended_subset_next o he, hid, hstop⟩)

/-- What is read is known. -/
theorem CursorView.knows_read {v : CursorView} {o : Op} {r : o.Res} {inst : FsmInstance}
    (h : inst ∈ instancesIn o r) :
    (cursorMonitor.next v o r).Knows inst.instanceId inst.context.batchCursor :=
  .inr (.inl (List.mem_append_left _ (List.mem_map_of_mem h)))

/-- What has to do with neither instances nor actions changes nothing. -/
theorem cursorMonitor_silent {o : Op} (htouches : o.touchesFsm = false)
    (hmark : o.marksAction = false) : cursorMonitor.Silent o := by
  intro v
  cases o with
  | storage c => cases c <;> first | exact ⟨trivial, fun _ => rfl⟩ | cases htouches
  | mark m => cases m <;> first | exact ⟨trivial, fun _ => rfl⟩ | cases hmark
  | _ => exact ⟨trivial, fun _ => rfl⟩

/-! ## The programs begin and write where they may -/

section Programs

variable [Extern] (cfg : ControllerConfig) {v : CursorView} {inst : FsmInstance}

omit [Extern] in
theorem BuiltPlain.cursorSilent [Extern] {cfg : ControllerConfig} {α : Type} {p : Proc α}
    (h : BuiltPlain cfg p) : p.Calls cursorMonitor.Silent :=
  (h.aside.calls.and h.not_marks).mono fun _ ho => cursorMonitor_silent ho.1 ho.2

/-- The task knows the cursor of the context for the instance. -/
def CursorView.KnowsOf (v : CursorView) (inst : FsmInstance) (context : FsmContext) : Prop :=
  v.Knows inst.instanceId context.batchCursor

/-- Passing on the nodes selected, where the context has the cursor after them: it is known then,
    if a batch of as many nodes has been begun, or if it was known already. -/
theorem deploySelected_knows (start : FsmContext) (selected : List Node) (rulesYaml : String)
    (h : v.KnowsOf inst start ∨ ∃ b, v.batches.begun = some b ∧
      b.action = ⟨inst.instanceId, inst.currentState⟩ ∧
        start.batchCursor ≤ (b.endedWith selected.length).stop) :
    (deploySelected cfg inst start selected rulesYaml).wp cursorMonitor
      (fun v context => v.KnowsOf inst context) v := by
  simp only [deploySelected, deployToNodes, Prog.bind_eq, Prog.bind_assoc, Prog.wp_bind]
  refine Prog.wp_of_unfolds (deployToNodesLoop_built cfg _ _ _ _ _ _).cursorSilent
    fun es out hloop => ?_
  obtain ⟨new, -, -, hresults, hids⟩ := deployToNodesLoop_collects cfg hloop
  have hlength : out.2.2.length = selected.length := by
    rw [hresults, List.nil_append]
    simpa using congrArg List.length hids
  refine wp_mark.2 ⟨trivial, fun _ => ?_⟩
  rw [Prog.wp_done]
  refine Prog.wp_of_calls (emitFsm_built cfg _).cursorSilent fun _ => ?_
  rcases h with hknown | ⟨b, hb, haction, hstop⟩
  · exact hknown.next _ _
  · refine .inr (.inr ⟨(b.action, b.endedWith out.2.2.length), ?_, ?_, ?_⟩)
    · simp only [cursorMonitor, BatchView.next, hb, haction, if_true]
      exact List.mem_cons_self
    · rw [haction]
    · rw [hlength]
      exact hstop

theorem deployBatch_knows (percent : Nat) (selected : List Node) (rulesYaml : String)
    (h : v.KnowsOf inst inst.context) :
    (deployBatch cfg inst percent selected rulesYaml).wp cursorMonitor
      (fun v context => v.KnowsOf inst context) v := by
  simp only [deployBatch, Prog.bind_eq, Prog.pure_eq]
  refine wp_mark.2 ⟨h, fun _ => ?_⟩
  split
  · exact h.next _ _
  · rename_i hcursor
    refine deploySelected_knows cfg _ _ _ (.inr ⟨_, rfl, rfl, ?_⟩)
    -- the cursor is cut off to 32 bits, which moves it back if at all
    have hcut := Nat.mod_le (min (inst.context.batchCursor +
      batchSize selected.length percent) selected.length) 4294967296
    simp only [BegunBatch.endedWith, List.length_drop, List.length_take, FsmContext.setCursor,
      asU32] at hcut ⊢
    omega

theorem executeDeploy_knows (action : DeployAction) (h : v.KnowsOf inst inst.context) :
    (executeDeploy cfg action inst).wp cursorMonitor (fun v context => v.KnowsOf inst context)
      v := by
  unfold executeDeploy
  split
  · exact h
  · refine wp_storage_silent (cursorMonitor_silent rfl rfl) fun r => ?_
    rcases r with e | _ | ⟨node, nodes⟩
    · exact h
    · exact h
    · simp only
      split
      · exact deploySelected_knows cfg _ _ _ (.inl h)
      · exact deployBatch_knows cfg _ _ _ h

theorem executeActionOf_knows (stateDef : StateDefinition) (h : v.KnowsOf inst inst.context) :
    (executeActionOf cfg stateDef inst).wp cursorMonitor (fun v context => v.KnowsOf inst context)
      v := by
  unfold executeActionOf
  split
  · exact h
  · have hstart := h.next (.mark (.startAction inst.instanceId inst.currentState)) ()
    refine wp_mark.2 ⟨trivial, fun _ => ?_⟩
    split
    · exact executeDeploy_knows cfg _ hstart
    · -- a rollback looks at no cursor
      simp only [executeRollback, Prog.bind_eq, Prog.pure_eq]
      split
      · exact hstart
      · exact Prog.wp_bind.2 (Prog.wp_of_calls (rollbackLoop_built cfg _ _ _ _).cursorSilent
          fun _ => hstart)
    · refine Prog.wp_bind.2 (Prog.wp_of_calls ?_ fun _ => hstart)
      exact (executeAlert_calls _ _).mono fun o ho => cursorMonitor_silent ho.1.2 ho.2
    · exact hstart

theorem fireTransition_knows (toState : String) (trigger : TransitionTrigger)
    (definition : FsmDefinition) (h : v.KnowsOf inst inst.context) :
    (fireTransition cfg inst toState trigger definition).wp cursorMonitor
      (fun v inst => v.KnowsOf inst inst.context) v := by
  have hemit (e : DateTime → FsmEvent) : (emitFsm cfg e).Calls cursorMonitor.Silent :=
    (emitFsm_built cfg e).cursorSilent
  refine wp_op_silent (cursorMonitor_silent rfl rfl) fun now => ?_
  refine Prog.wp_bind.2 (Prog.wp_of_calls (hemit _) fun _ => ?_)
  split
  · exact h
  · refine Prog.wp_bind.2 (Prog.wp.mono (executeActionOf_knows cfg _ ?_) fun v context hcontext => ?_)
    · exact h
    · unfold completeIfTerminal
      split
      · exact Prog.wp_bind.2 (Prog.wp_of_calls (hemit _) fun _ => hcontext)
      · exact hcontext

/-- A new instance has an untouched cursor. -/
theorem startFrom_knows (defName : String) (definition : FsmDefinition) {context : FsmContext}
    (hfresh : context.batchCursor = 0) :
    (startFrom cfg defName definition context).wp cursorMonitor (fun _ _ => True) v := by
  rw [startFrom_eq]
  refine wp_op_silent (cursorMonitor_silent rfl rfl) fun now => ?_
  refine wp_op_silent (cursorMonitor_silent rfl rfl) fun id => ?_
  refine Prog.wp_bind.2 (Prog.wp.mono (Q := fun v context' =>
    v.KnowsOf (.new now id defName definition.initial context) context') ?_ fun v context' h => ?_)
  · unfold executeInitial
    split
    · exact .inl hfresh
    · exact executeActionOf_knows cfg _ (.inl hfresh)
  · refine wp_storage.2 ⟨h, fun r _ => ?_⟩
    cases r <;> trivial

/-- **Every request begins batches and writes instances at cursors it knows.** -/
theorem cursorTracks : Tracks cfg cursorMonitor (fun _ _ => True)
    fun v inst => v.KnowsOf inst inst.context where
  stays h := h.next _ _
  aside htouches hmark := (cursorMonitor_silent htouches hmark _).1
  known _ := trivial
  gets _ := ⟨trivial, fun _ _ => CursorView.knows_read (List.mem_singleton_self _)⟩
  lists _ := ⟨trivial, fun _ _ _ hi => CursorView.knows_read hi⟩
  writes h := h
  deployment _ := startFrom_knows cfg _ _ rfl
  adaptive _ _ := startFrom_knows cfg _ _ rfl
  evaluated hknown _ _ _ := Prog.wp_of_unfolds
    ((shouldFire_plain _ _).mono fun _ ho => cursorMonitor_silent ho.1 ho.2) fun es out h => by
      obtain ⟨fires, inst'⟩ := out
      obtain ⟨context, ⟨m, rfl⟩, rfl⟩ := shouldFire_same h
      exact ⟨hknown, _, rfl⟩
  fired hknown _ _ _ := fireTransition_knows cfg _ _ _ hknown
  kept hknown hid hcontext _ _ := by
    show CursorView.Knows _ _ _
    rw [hid, hcontext]
    exact hknown

end Programs

/-! ## The cursors of a pool -/

/-- The cursor is untouched, or within a batch that an action of the instance has ended. -/
def Pool.Reached (c : Pool) (instanceId : String) (cursor : Nat) : Prop :=
  cursor = 0 ∨ ∃ state, ∃ b ∈ (c.sweep ⟨instanceId, state⟩).batches, cursor ≤ b.stop

/-- The cursors of the instances that are stored, or have been read, are within batches that have
    ended. -/
structure CursorsLinked (c : Pool) : Prop where
  watched : System.AllWatched cursorMonitor ⟨⟨none, []⟩, []⟩ (fun _ _ _ => True) (fun _ => True) c
  stored : (FsmContract.ofCursors c.Reached).Holds c.shared
  read : ∀ t ∈ c.threads, ∀ e ∈ (cursorView t).read, c.Reached e.1 e.2

/-- No batched deploy has moved the cursor of a stored instance. -/
def Pool.Untouched (c : Pool) : Prop :=
  ∀ inst ∈ c.shared.storage.fsmInstances.rows, inst.context.batchCursor = 0

theorem Pool.Untouched.linked {c : Pool} (h : c.Untouched) (hidle : c.threads = []) :
    CursorsLinked c where
  watched := System.allWatched_of_idle trivial hidle
  stored := ⟨fun _ _ _ => trivial, fun inst hi => .inl (h inst hi)⟩
  read t ht := by simp [hidle] at ht

/-- What a task knows is reached, if what it has read is. -/
theorem CursorsLinked.reached {c : Pool} (h : CursorsLinked c) {t : Task} (ht : t ∈ c.threads)
    {instanceId : String} {cursor : Nat} (hknows : (cursorView t).Knows instanceId cursor) :
    c.Reached instanceId cursor := by
  rcases hknows with hzero | hread | ⟨⟨⟨iid, state⟩, b⟩, he, rfl, hstop⟩
  · exact .inl hzero
  · exact h.read t ht _ hread
  · rw [cursorView_batches] at he
    exact .inr ⟨state, b, Pool.mem_batches.2 ⟨t, ht, he⟩, hstop⟩

/-- A batch that is about to begin has a cursor within a batch that has ended. -/
theorem CursorsLinked.begins {c : Pool} (h : CursorsLinked c) {t : Task} (ht : t ∈ c.threads)
    {b : BegunBatch} (hb : b ∈ beginning t) : c.Reached b.action.instanceId b.cursor := by
  have hw := h.watched.2 t ht
  simp only [beginning] at hb
  split at hb
  · rename_i iid state cursor selected f hprog
    obtain rfl := Option.some.inj hb
    rw [System.Watched, hprog] at hw
    exact h.reached ht hw.1
  · cases hb

section Run

variable [Extern] {cfg : ControllerConfig} {C : StepCondition} {c c' : Pool}

theorem cursorGuarantee (cfg : ControllerConfig) : (controller cfg MemoryStorage).Guarantee
    cursorMonitor ⟨⟨none, []⟩, []⟩ (fun _ _ _ => True) (fun _ => True) fun _ => True where
  prog q _ := (cursorTracks cfg).serve q
  exec _ _ _ _ _ _ _ _ _ _ := ⟨trivial, trivial, fun _ _ => trivial⟩

omit [Extern] in
/-- What is written stays within the contract if that is widened. -/
theorem allow_ofCursors {P P' : String → Nat → Prop} (h : ∀ id n, P id n → P' id n) {o : Op}
    (hallow : (FsmContract.ofCursors P).monitor.allow () o) :
    (FsmContract.ofCursors P').monitor.allow () o := by
  cases o with
  | storage c =>
    cases c with
    | storeFsmInstance inst | updateFsmInstance inst => exact h _ _ hallow
    | storeFsmDefinition d | deleteFsmDefinition name => exact hallow.elim
    | _ => trivial
  | _ => trivial

omit [Extern] in
/-- The instances that are read are as the contract has them. -/
theorem reached_of_expect {P : String → Nat → Prop} {o : Op} {r : o.Res} {inst : FsmInstance}
    (h : (FsmContract.ofCursors P).monitor.expect o r) (hi : inst ∈ instancesIn o r) :
    P inst.instanceId inst.context.batchCursor := by
  cases o with
  | storage call =>
    cases call with
    | getFsmInstance id =>
      rcases r with e | _ | inst'
      · cases hi
      · cases hi
      · rw [List.mem_singleton.1 hi]
        exact h
    | listFsmInstances name status =>
      rcases r with e | insts
      · cases hi
      · exact (h inst hi).1
    | _ => cases hi
  | _ => cases hi

/-- The batches that have ended stay. -/
theorem Pool.batches_subset_run {k : Nat} {x : Ext}
    (hs : (controller cfg MemoryStorage).step c (.run k x) = some c') (a : ActionId) :
    (c.sweep a).batches ⊆ (c'.sweep a).batches := by
  obtain ⟨t, o, f, r, w, new, ht, -, -, rfl⟩ := System.step_run hs
  intro b hb
  obtain ⟨u, hu, he⟩ := Pool.mem_batches.1 hb
  rw [Pool.mem_batches]
  rcases System.mem_after_of_mem ht hu with hstays | ⟨rfl, hmoved⟩
  · exact ⟨u, hstays, he⟩
  · refine ⟨_, hmoved, ?_⟩
    rw [batchView, Monitor.after_snoc]
    exact (batchView u).ended_subset_next o he

/-- The step of a task keeps the cursors within the batches. -/
theorem CursorsLinked.run {k : Nat} {x : Ext} (h : CursorsLinked c)
    (hs : (controller cfg MemoryStorage).step c (.run k x) = some c')
    (hwatched : System.AllWatched cursorMonitor ⟨⟨none, []⟩, []⟩ (fun _ _ _ => True)
      (fun _ => True) c') : CursorsLinked c' := by
  have hmore (id : String) (n : Nat) (hreached : c.Reached id n) : c'.Reached id n := by
    refine hreached.imp_right ?_
    rintro ⟨state, b, hb, hstop⟩
    exact ⟨state, b, Pool.batches_subset_run hs _ hb, hstop⟩
  obtain ⟨t, o, f, r, w, new, ht, hprog, hx, hc'⟩ := System.step_run hs
  have htmem := List.mem_of_getElem? ht
  have hallowed := ((cursorGuarantee cfg).acts h.watched ht hprog hx).allowed
  have hwrites : (FsmContract.ofCursors c'.Reached).monitor.allow () o := by
    refine allow_ofCursors (P := (cursorView t).Knows)
      (fun id n hknows => hmore id n (h.reached htmem hknows)) ?_
    cases o with
    | mark m => cases m <;> trivial
    | _ => exact hallowed
  have hholds : (FsmContract.ofCursors c'.Reached).Holds c.shared :=
    ⟨h.stored.known, fun inst hi => hmore _ _ (h.stored.good inst hi)⟩
  obtain ⟨hstored, hreads⟩ := hholds.exec hwrites hx
  constructor
  · exact hwatched
  · rw [hc'] at hstored ⊢
    exact hstored
  · intro u hu e he
    rw [hc'] at hu
    rcases System.mem_after hu with hold | rfl | ⟨q, -, rfl⟩
    · exact hmore _ _ (h.read u hold e he)
    · rw [cursorView, Monitor.after_snoc] at he
      rcases List.mem_append.1 he with hnew | hold
      · obtain ⟨inst, hi, rfl⟩ := List.mem_map.1 hnew
        exact reached_of_expect hreads hi
      · exact hmore _ _ (h.read t htmem e hold)
    · cases he

/-- So does the arrival of a request. -/
theorem CursorsLinked.arrive {q : Request} (h : CursorsLinked c)
    (hs : (controller cfg MemoryStorage).step c (.arrive q) = some c')
    (hwatched : System.AllWatched cursorMonitor ⟨⟨none, []⟩, []⟩ (fun _ _ _ => True)
      (fun _ => True) c') : CursorsLinked c' := by
  have hc' : c' = ⟨c.shared, c.threads ++ [(controller cfg MemoryStorage).start q]⟩ :=
    (Option.some.inj hs).symm
  have hmore (id : String) (n : Nat) (hreached : c.Reached id n) : c'.Reached id n := by
    refine hreached.imp_right ?_
    rintro ⟨state, b, hb, hstop⟩
    obtain ⟨u, hu, he⟩ := Pool.mem_batches.1 hb
    refine ⟨state, b, Pool.mem_batches.2 ⟨u, ?_, he⟩, hstop⟩
    rw [hc']
    exact List.mem_append_left _ hu
  constructor
  · exact hwatched
  · rw [hc'] at hmore ⊢
    exact ⟨h.stored.known, fun inst hi => hmore _ _ (h.stored.good inst hi)⟩
  · intro u hu e he
    rw [hc'] at hu
    rcases List.mem_append.1 hu with hold | hnew
    · exact hmore _ _ (h.read u hold e he)
    · rw [List.mem_singleton.1 hnew] at he
      cases he

/-- Every step keeps the cursors within the batches, if the environment leaves the instances
    alone. -/
theorem CursorsLinked.step {l : StepLabel} (hl : LeavesInstances c l)
    (hs : (controller cfg MemoryStorage).step c l = some c') (hc : CursorsLinked c) :
    CursorsLinked c' := by
  have hwatched := (cursorGuarantee cfg).step (C := fun _ _ => True)
    ⟨fun _ _ _ => trivial, fun _ _ _ _ => trivial⟩ trivial hs hc.watched
  cases l with
  | run k x => exact hc.run hs hwatched
  | arrive q => exact hc.arrive hs hwatched
  | env w =>
    cases hs
    have hleaves : w.storage.fsmInstances = c.shared.storage.fsmInstances := hl
    refine ⟨hwatched, ⟨fun _ _ _ => trivial, ?_⟩, hc.read⟩
    rw [hleaves]
    exact hc.stored.good

/-- **In every run the stored cursors are within batches of their instances**, if they were
    untouched at the start. -/
theorem cursorsLinked_of_steps (hC : ∀ c l, C c l → LeavesInstances c l)
    (h : (controller cfg MemoryStorage).Steps C c c') (hc : CursorsLinked c) : CursorsLinked c' :=
  h.invariant CursorsLinked (fun _ _ _ hl hs hc => hc.step (hC _ _ hl) hs) hc

end Run

end PaciNet

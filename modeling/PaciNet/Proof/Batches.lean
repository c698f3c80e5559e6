import PaciNet.Lib.Sweep
import PaciNet.Proof.Blocks
import PaciNet.Proof.Runs

/-!
# Batched deploys

A deploy action with a `batch_percent` works off the list of nodes it selects, one batch each time
it is executed. What carries it from one execution to the next is an index in the context of the
instance; the list is computed anew.

Each action of each instance is a sweep (`Lib/Sweep.lean`), and what the marks of a run say about
it is independent of how the operations on instances are interleaved: **as long as every batch
finds behind its cursor only nodes that stood before the end of an earlier batch of the same
action, every action has passed on what stands before the end of its batches.**
-/

set_option autoImplicit false

namespace PaciNet

open Lib

/-! ## What a task has done -/

/-- The action of a state of an instance. -/
structure ActionId where
  instanceId : String
  state : String
  deriving DecidableEq

/-- A batch a task has begun: the nodes selected, and the cursor it found. -/
structure BegunBatch where
  action : ActionId
  selected : List String
  cursor : Nat

/-- The batches a task has ended, and the one it has begun. -/
structure BatchView where
  begun : Option BegunBatch
  ended : List (ActionId × Batch String)

/-- The batch as it is when it has passed on a number of nodes. -/
def BegunBatch.endedWith (b : BegunBatch) (passed : Nat) : Batch String :=
  ⟨b.selected, b.cursor, b.cursor + passed⟩

/-- What a mark changes about it. -/
def BatchView.next (v : BatchView) : Op → BatchView
  | .mark (.startAction _ _) => { v with begun := none }
  | .mark (.batch iid state cursor selected) =>
    { v with begun := some ⟨⟨iid, state⟩, selected, cursor⟩ }
  | .mark (.passed iid state results) =>
    match v.begun with
    | none => v
    | some b =>
      if b.action = ⟨iid, state⟩ then
        ⟨none, (b.action, b.endedWith results.length) :: v.ended⟩
      else v
  | _ => v

/-- A task that has begun a batch passes on the nodes at the cursor. No node is listed twice. -/
def batchMonitor : Monitor Op Op.Res BatchView where
  allow v o := match o with
    | .mark (.batch _ _ _ selected) => selected.Nodup
    | .mark (.passed iid state results) => ∀ b ∈ v.begun, b.action = ⟨iid, state⟩ →
        results.map NodeActionResult.nodeId = (b.endedWith results.length).taken
    | _ => True
  expect := ListsOnce
  next v o _ := v.next o

/-- What the task has done about batches. -/
def batchView (t : Task) : BatchView := batchMonitor.after ⟨none, []⟩ t.trace

theorem batchMonitor_silent {o : Op} (h : o.marksAction = false) : batchMonitor.Silent o := by
  intro v
  cases o with
  | mark m => cases m <;> first | exact ⟨trivial, fun _ => rfl⟩ | cases h
  | _ => exact ⟨trivial, fun _ => rfl⟩

/-! ## The programs pass on what they begin -/

section Programs

variable [Extern] (cfg : ControllerConfig) {v : BatchView}

/-- What is built from deploys and plain operations is silent. -/
theorem BuiltPlain.silent {cfg : ControllerConfig} {α : Type} {p : Proc α}
    (h : BuiltPlain cfg p) : p.Calls batchMonitor.Silent :=
  h.not_marks.mono fun _ h => batchMonitor_silent h

/-- `deploy_to_nodes` has one result for each node, in their order. -/
theorem deployToNodesLoop_wp (rulesYaml : String) (options : CompileOptions) (nodes : List Node)
    (succeeded failed : Nat) (results : List NodeActionResult)
    {Q : BatchView → Nat × Nat × List NodeActionResult → Prop}
    (hQ : ∀ s f results', results'.map NodeActionResult.nodeId =
      results.map NodeActionResult.nodeId ++ nodes.map Node.nodeId → Q v (s, f, results')) :
    (deployToNodesLoop cfg rulesYaml options nodes succeeded failed results).wp
      batchMonitor Q v := by
  induction nodes generalizing succeeded failed results with
  | nil => exact hQ _ _ _ (by simp)
  | cons node nodes ih =>
    refine wp_storage_silent (batchMonitor_silent rfl) fun r => ?_
    cases r with
    | error e => exact ih _ _ _ fun s f results' h => hQ s f results' (by simp [h])
    | ok u =>
      refine Prog.wp_bind.2 (Prog.wp_of_calls ((deployToNode_not_marks cfg node _ _).mono
        fun _ h => batchMonitor_silent h) fun outcome => ?_)
      refine wp_storage_silent (batchMonitor_silent rfl) fun _ => ?_
      exact ih _ _ _ fun s f results' h => hQ s f results' (by simp [h])

/-- Passing on the nodes selected, which are those of the batch if one has been begun. -/
theorem deploySelected_wp (inst : FsmInstance) (context : FsmContext) (selected : List Node)
    (rulesYaml : String) (h : ∀ b ∈ v.begun, b.action = ⟨inst.instanceId, inst.currentState⟩ →
      selected.map Node.nodeId = (b.endedWith selected.length).taken) :
    (deploySelected cfg inst context selected rulesYaml).wp batchMonitor (fun _ _ => True) v := by
  simp only [deploySelected, deployToNodes, Prog.bind_eq, Prog.bind_assoc, Prog.wp_bind]
  refine deployToNodesLoop_wp cfg _ _ _ _ _ _ fun s f results hresults => ?_
  rw [List.map_nil, List.nil_append] at hresults
  have hlength : results.length = selected.length := by
    simpa using congrArg List.length hresults
  refine wp_mark.2 ⟨fun b hb hba => ?_, fun _ => ?_⟩
  · show results.map NodeActionResult.nodeId = (b.endedWith results.length).taken
    rw [hresults, hlength]
    exact h b hb hba
  · rw [Prog.wp_done]
    exact Prog.wp_of_calls (BuiltPlain.silent (emitFsm_built cfg _)) fun _ => trivial

theorem deployBatch_wp (inst : FsmInstance) (percent : Nat) (selected : List Node)
    (rulesYaml : String) (hnodup : (selected.map Node.nodeId).Nodup) :
    (deployBatch cfg inst percent selected rulesYaml).wp batchMonitor (fun _ _ => True) v := by
  simp only [deployBatch, Prog.bind_eq, Prog.pure_eq]
  refine ⟨hnodup, fun _ _ => ?_⟩
  split
  · trivial
  · rename_i hcursor
    refine deploySelected_wp cfg _ _ _ _ fun b hb _ => ?_
    cases hb
    -- the batch ends inside the list
    have hstop : min (inst.context.batchCursor + batchSize selected.length percent)
        selected.length ≤ selected.length := Nat.min_le_right _ _
    simp only [BegunBatch.endedWith, Batch.taken, Batch.before, List.length_drop, List.length_take,
      List.map_drop, List.map_take]
    congr 2
    omega

theorem executeDeploy_wp (action : DeployAction) (inst : FsmInstance) (hv : v.begun = none) :
    (executeDeploy cfg action inst).wp batchMonitor (fun _ _ => True) v := by
  unfold executeDeploy
  split
  · trivial
  · refine wp_storage.2 ⟨trivial, fun r hr => ?_⟩
    rcases r with e | _ | ⟨node, nodes⟩
    · trivial
    · trivial
    · have hnodup : ((applyLimit action.select.limit (node :: nodes)).map Node.nodeId).Nodup :=
        List.Nodup.sublist ((applyLimit_sublist _ _).map _) hr
      simp only
      split
      · refine deploySelected_wp cfg _ _ _ _ fun b hb => ?_
        -- reading the list begins no batch
        exact absurd (hv.symm.trans hb) (nomatch ·)
      · exact deployBatch_wp cfg _ _ _ _ hnodup

/-- An action forgets the batch another has begun, and then keeps to its own. -/
theorem executeAction_wp (action : ActionDefinition) (inst : FsmInstance) :
    (executeAction cfg action inst).wp batchMonitor (fun _ _ => True) v := by
  refine wp_mark.2 ⟨trivial, fun _ => ?_⟩
  split
  · exact executeDeploy_wp cfg _ _ rfl
  · exact Prog.wp_of_calls (BuiltPlain.silent (executeRollback_built cfg _ _)) fun _ => trivial
  · rename_i alertAction _ _ _
    refine Prog.wp_bind.2 (Prog.wp_of_calls ?_ fun _ => trivial)
    exact (executeAlert_calls alertAction inst).mono fun _ h => batchMonitor_silent h.2
  · trivial

/-- **Every request passes on the batches it begins.** -/
theorem serve_passesOn (q : Request) :
    (serve cfg q).wp batchMonitor (fun _ _ => True) v := by
  cases hq : q.isEngine with
  | false => exact Prog.wp_of_calls (serve_plain cfg hq).silent fun _ => trivial
  | true =>
    refine (serve_actions cfg hq).keeps (I := fun _ => True)
      (fun o ho => (batchMonitor_silent ho.2).keeps _) (fun β p hp v _ => ?_) v trivial
    obtain ⟨action, inst⟩ := hp
    exact executeAction_wp cfg action inst

end Programs

/-! ## The sweeps of a pool -/

/-- The list a mark says was selected by the action. -/
def Mark.selectedFor (a : ActionId) : Mark → Option (List String)
  | .batch iid state _ selected => if a = ⟨iid, state⟩ then some selected else none
  | _ => none

/-- The results a mark says the action had. -/
def Mark.resultsFor (a : ActionId) : Mark → List NodeActionResult
  | .passed iid state results => if a = ⟨iid, state⟩ then results else []
  | _ => []

namespace Pool

/-- The results of the nodes an action has passed to `deploy_to_nodes`. -/
def results (c : Pool) (a : ActionId) : List NodeActionResult :=
  c.shared.marks.flatMap (Mark.resultsFor a)

/-- The sweep of an action, from the marks and what the tasks have done. -/
def sweep (c : Pool) (a : ActionId) : Sweep String where
  lists := c.shared.marks.filterMap (Mark.selectedFor a)
  batches := c.threads.flatMap fun t =>
    (batchView t).ended.filterMap fun e => if e.1 = a then some e.2 else none
  passed := (c.results a).map NodeActionResult.nodeId

variable {c : Pool} {a : ActionId}

theorem mem_batches {b : Batch String} :
    b ∈ (c.sweep a).batches ↔ ∃ t ∈ c.threads, (a, b) ∈ (batchView t).ended := by
  simp only [sweep, List.mem_flatMap, List.mem_filterMap, Option.ite_none_right_eq_some,
    Option.some.injEq]
  constructor
  · rintro ⟨t, ht, ⟨a', b'⟩, he, rfl, rfl⟩
    exact ⟨t, ht, he⟩
  · rintro ⟨t, ht, he⟩
    exact ⟨t, ht, (a, b), he, rfl, rfl⟩

theorem mem_lists {selected : List String} : selected ∈ (c.sweep a).lists ↔
    ∃ cursor, .batch a.instanceId a.state cursor selected ∈ c.shared.marks := by
  simp only [sweep, List.mem_filterMap]
  constructor
  · rintro ⟨m, hm, h⟩
    cases m with
    | batch iid state cursor selected' =>
      simp only [Mark.selectedFor, Option.ite_none_right_eq_some, Option.some.injEq] at h
      obtain ⟨rfl, rfl⟩ := h
      exact ⟨cursor, hm⟩
    | _ => cases h
  · rintro ⟨cursor, hm⟩
    exact ⟨_, hm, if_pos rfl⟩

theorem mem_passed {n : String} : n ∈ (c.sweep a).passed ↔
    ∃ results, .passed a.instanceId a.state results ∈ c.shared.marks ∧
      n ∈ results.map NodeActionResult.nodeId := by
  simp only [sweep, results, List.mem_map, List.mem_flatMap]
  constructor
  · rintro ⟨r, ⟨m, hm, hr⟩, rfl⟩
    cases m with
    | passed iid state results =>
      simp only [Mark.resultsFor] at hr
      split at hr
      · rename_i ha
        subst ha
        exact ⟨results, hm, r, hr, rfl⟩
      · cases hr
    | _ => cases hr
  · rintro ⟨results, hm, r, hr, rfl⟩
    exact ⟨r, ⟨_, hm, by rwa [Mark.resultsFor, if_pos rfl]⟩, rfl⟩

end Pool

/-! ### One step -/

/-- A batch a task has begun after an operation is one it had begun before, or the operation
    begins it. -/
theorem BatchView.begun_next {v : BatchView} {o : Op} {b : BegunBatch}
    (h : (v.next o).begun = some b) : v.begun = some b ∨
      o = .mark (.batch b.action.instanceId b.action.state b.cursor b.selected) := by
  cases o with
  | mark m =>
    cases m with
    | startAction iid state => cases h
    | batch iid state cursor selected =>
      cases h
      exact .inr rfl
    | passed iid state results =>
      simp only [BatchView.next] at h
      split at h
      · exact .inl h
      · split at h
        · cases h
        · exact .inl h
    | _ => exact .inl h
  | _ => exact .inl h

/-- A batch a task has ended after an operation had ended before, or the operation ends it. -/
theorem BatchView.ended_next {v : BatchView} {o : Op} {e : ActionId × Batch String}
    (h : e ∈ (v.next o).ended) : e ∈ v.ended ∨ ∃ b results, v.begun = some b ∧
      o = .mark (.passed b.action.instanceId b.action.state results) ∧
      e = (b.action, b.endedWith results.length) := by
  cases o with
  | mark m =>
    cases m with
    | passed iid state results =>
      simp only [BatchView.next] at h
      split at h
      · exact .inl h
      · rename_i b hb
        split at h
        · rename_i ha
          rcases List.mem_cons.1 h with rfl | h
          · exact .inr ⟨b, results, hb, by rw [ha], rfl⟩
          · exact .inl h
        · exact .inl h
    | _ => exact .inl h
  | _ => exact .inl h

/-! ### Every run -/

/-- The batch a task is about to begin. -/
def beginning (t : Task) : Option BegunBatch :=
  match t.prog with
  | .call (.mark (.batch iid state cursor selected)) _ => some ⟨⟨iid, state⟩, selected, cursor⟩
  | _ => none

/-- Only the controller marks where its tasks are. Anything else may change at any time. -/
def OwnMarks : StepCondition
  | c, .env w => w.marks = c.shared.marks
  | _, _ => True

/-- Whenever a batch begins, it is as `P` says. -/
def WhenBeginning (P : Pool → BegunBatch → Prop) : StepCondition
  | c, .run k _ => ∀ t ∈ c.threads[k]?, ∀ b ∈ beginning t, P c b
  | _, _ => True

/-- Every batch begins where it may. -/
abbrev BeginsKept : StepCondition :=
  WhenBeginning fun c b => (c.sweep b.action).Kept b.selected b.cursor

/-- The invariant of the runs in which every batch begins where it may. -/
structure Swept (c : Pool) : Prop where
  watched : System.AllWatched batchMonitor ⟨none, []⟩ (fun _ _ _ => True) (fun _ => True) c
  covered : ∀ a, (c.sweep a).Covered
  begun : ∀ t ∈ c.threads, ∀ b, (batchView t).begun = some b →
    b.selected ∈ (c.sweep b.action).lists ∧ (c.sweep b.action).Behind b.selected b.cursor

/-- The controller has made more marks. -/
structure MoreMarks (c c' : Pool) : Prop where
  marks : c.shared.marks <+: c'.shared.marks

section Growth

variable {c c' : Pool}

theorem MoreMarks.lists (h : MoreMarks c c') (a : ActionId) :
    (c.sweep a).lists ⊆ (c'.sweep a).lists := by
  intro selected hs
  obtain ⟨cursor, hm⟩ := Pool.mem_lists.1 hs
  exact Pool.mem_lists.2 ⟨cursor, h.marks.mem hm⟩

theorem MoreMarks.passed (h : MoreMarks c c') (a : ActionId) :
    (c.sweep a).passed ⊆ (c'.sweep a).passed := by
  obtain ⟨more, hmore⟩ := h.marks
  simp only [Pool.sweep, Pool.results, ← hmore, List.flatMap_append, List.map_append]
  exact List.subset_append_left _ _

/-- The tasks know of batches what tasks knew before, or what is true by now. -/
theorem Swept.grow (h : Swept c) (hmore : MoreMarks c c')
    (hended : ∀ u ∈ c'.threads, ∀ a b, (a, b) ∈ (batchView u).ended →
      (∃ t ∈ c.threads, (a, b) ∈ (batchView t).ended) ∨ b.items ∈ (c'.sweep a).lists ∧
        (c'.sweep a).Behind b.items b.start ∧ b.taken ⊆ (c'.sweep a).passed)
    (hbegun : ∀ u ∈ c'.threads, ∀ b, (batchView u).begun = some b →
      (∃ t ∈ c.threads, (batchView t).begun = some b) ∨
        b.selected ∈ (c'.sweep b.action).lists ∧ (c'.sweep b.action).Behind b.selected b.cursor)
    (hwatched : System.AllWatched batchMonitor ⟨none, []⟩ (fun _ _ _ => True) (fun _ => True) c') :
    Swept c' where
  watched := hwatched
  covered a := by
    refine (h.covered a).mono (hmore.lists a) (hmore.passed a) fun b hb => ?_
    obtain ⟨u, hu, he⟩ := Pool.mem_batches.1 hb
    exact (hended u hu a b he).imp_left Pool.mem_batches.2
  begun u hu b hb := by
    rcases hbegun u hu b hb with ⟨t, ht, hold⟩ | hnew
    · obtain ⟨hlisted, hbehind⟩ := h.begun t ht b hold
      exact ⟨hmore.lists _ hlisted, hbehind.mono (hmore.lists _) (hmore.passed _)⟩
    · exact hnew

/-- A batch that is about to begin has no node twice. -/
theorem Swept.selected_nodup (h : Swept c) {t : Task} (ht : t ∈ c.threads) {b : BegunBatch}
    (hb : b ∈ beginning t) : b.selected.Nodup := by
  have hw := h.watched.2 t ht
  simp only [beginning] at hb
  split at hb
  · rename_i iid state cursor selected f hprog
    obtain rfl := Option.some.inj hb
    rw [System.Watched, hprog] at hw
    exact hw.1
  · cases hb

/-- A controller that has done nothing has swept nothing. -/
theorem swept_of_idle (hidle : c.threads = []) : Swept c where
  watched := System.allWatched_of_idle trivial hidle
  covered a := ⟨fun b hb => by simp [Pool.sweep, hidle] at hb,
    fun b hb => by simp [Pool.sweep, hidle] at hb⟩
  begun t ht := by simp [hidle] at ht

end Growth

section Run

variable [Extern] {cfg : ControllerConfig} {C : StepCondition} {c c' : Pool}

/-- Watching for batches needs nothing of the steps. -/
theorem batchGuarantee (cfg : ControllerConfig) : (controller cfg MemoryStorage).Guarantee
    batchMonitor ⟨none, []⟩ (fun _ _ _ => True) (fun _ => True) fun _ => True where
  prog q _ := serve_passesOn cfg q
  exec _ _ _ _ _ _ _ _ _ hx := ⟨trivial, listsOnce_of_exec hx, fun _ _ => trivial⟩

/-- The step of a task keeps the invariant. -/
theorem Swept.run {k : Nat} {x : Ext} (h : Swept c) (hkept : BeginsKept c (.run k x))
    (hs : (controller cfg MemoryStorage).step c (.run k x) = some c')
    (hwatched : System.AllWatched batchMonitor ⟨none, []⟩ (fun _ _ _ => True) (fun _ => True) c') :
    Swept c' := by
  obtain ⟨t, o, f, r, w, new, ht, hprog, hx, hc'⟩ := System.step_run hs
  have hmarks : c'.shared.marks = c.shared.marks ++ World.marksOf o := by
    rw [hc']
    exact (World.stepped_of_exec hx).marks
  have hmore : MoreMarks c c' := ⟨hmarks ▸ List.prefix_append _ _⟩
  have htmem := List.mem_of_getElem? ht
  have hallowed := ((batchGuarantee cfg).acts h.watched ht hprog hx).allowed
  -- a task of the next state is one of before, the one that moved, or a new one
  have hthreads (u : Task) (hu : u ∈ c'.threads) :
      u ∈ c.threads ∨ batchView u = (batchView t).next o ∨ batchView u = ⟨none, []⟩ := by
    rw [hc'] at hu
    rcases System.mem_after hu with hold | rfl | ⟨q, -, rfl⟩
    · exact .inl hold
    · exact .inr (.inl (Monitor.after_snoc _ _ _ _))
    · exact .inr (.inr rfl)
  refine h.grow hmore ?_ ?_ hwatched
  · intro u hu a b he
    rcases hthreads u hu with hold | hmoved | hnew
    · exact .inl ⟨u, hold, he⟩
    · rw [hmoved] at he
      rcases BatchView.ended_next he with hold | ⟨b₀, results, hb₀, rfl, heq⟩
      · exact .inl ⟨t, htmem, hold⟩
      · -- the batch that ends now was begun behind nodes that have been passed on
        cases heq
        obtain ⟨hlisted, hbehind⟩ := h.begun t htmem b₀ hb₀
        refine .inr ⟨hmore.lists _ hlisted, hbehind.mono (hmore.lists _) (hmore.passed _), ?_⟩
        rw [← hallowed b₀ hb₀ rfl]
        intro n hn
        refine Pool.mem_passed.2 ⟨results, ?_, hn⟩
        rw [hmarks]
        exact List.mem_append_right _ (List.mem_singleton_self _)
    · rw [hnew] at he
      cases he
  · intro u hu b hb
    rcases hthreads u hu with hold | hmoved | hnew
    · exact .inl ⟨u, hold, hb⟩
    · rw [hmoved] at hb
      rcases BatchView.begun_next hb with hold | rfl
      · exact .inl ⟨t, htmem, hold⟩
      · have hbegins : b ∈ beginning t := by simp [beginning, hprog]
        have hbehind := (h.covered b.action).behind (hkept t ht b hbegins)
        refine .inr ⟨Pool.mem_lists.2 ⟨b.cursor, ?_⟩, hbehind.mono (hmore.lists _) (hmore.passed _)⟩
        rw [hmarks]
        exact List.mem_append_right _ (List.mem_singleton_self _)
    · rw [hnew] at hb
      cases hb

/-- A step keeps the invariant, if a batch that begins with it begins where it may. -/
theorem Swept.step {l : StepLabel} (hown : OwnMarks c l) (hkept : BeginsKept c l)
    (hs : (controller cfg MemoryStorage).step c l = some c') (hc : Swept c) : Swept c' := by
  have hwatched := (batchGuarantee cfg).step (C := fun _ _ => True)
    ⟨fun _ _ _ => trivial, fun _ _ _ _ => trivial⟩ trivial hs hc.watched
  cases l with
  | run k x => exact hc.run hkept hs hwatched
  | arrive q =>
    cases hs
    refine hc.grow ⟨List.prefix_rfl⟩ (fun u hu a b he => ?_) (fun u hu b hb => ?_) hwatched
    all_goals rcases List.mem_append.1 hu with hu | hu
    · exact .inl ⟨u, hu, he⟩
    · rw [List.mem_singleton.1 hu] at he
      cases he
    · exact .inl ⟨u, hu, hb⟩
    · rw [List.mem_singleton.1 hu] at hb
      cases hb
  | env w =>
    cases hs
    have hmarks : w.marks = c.shared.marks := hown
    exact hc.grow ⟨hmarks ▸ List.prefix_rfl⟩ (fun u hu a b he => .inl ⟨u, hu, he⟩)
      (fun u hu b hb => .inl ⟨u, hu, hb⟩) hwatched

/-- **Where every batch begins where it may, the invariant holds throughout.** -/
theorem swept_of_steps (hC : ∀ c l, Swept c → C c l → OwnMarks c l ∧ BeginsKept c l)
    (h : (controller cfg MemoryStorage).Steps C c c') (hc : Swept c) : Swept c' :=
  h.invariant Swept (fun _ _ _ hl hs hc => hc.step (hC _ _ hc hl).1 (hC _ _ hc hl).2 hs) hc

end Run

end PaciNet

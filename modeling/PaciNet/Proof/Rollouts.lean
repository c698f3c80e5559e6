import PaciNet.Proof.BatchCursors

/-!
# Staged rollouts

Two laws of batched deploys, over every run of the controller: an action that finds all its
batches done has passed on every node it selects, and also when the fleet changes under it, as far
as the nodes stay. Neither holds of all runs. The cursor is shared by all states of an instance and
never reset, and it is an index into a list that is computed anew.

**Without another action that moves the cursor the first law holds, and the second as well where
no removal or insertion moves a node in front of the last batch.** Whose batch has moved a cursor
is not assumed: it is followed through the store (`BatchCursors`). An instance with one batched
action meets the condition of the first law (`RunTo.ownCursor`), and in a fleet that does not
change also that of the second (`RunTo.unshifted`).
-/

set_option autoImplicit false

namespace PaciNet

open Lib

/-! ## Runs, and conditions on them -/

instance {P : Pool → BegunBatch → Prop} [∀ c b, Decidable (P c b)] (c : Pool) (l : StepLabel) :
    Decidable (WhenBeginning P c l) :=
  match l with
  | .run k _ => inferInstanceAs (Decidable (∀ t ∈ c.threads[k]?, ∀ b ∈ beginning t, P c b))
  | .arrive _ => .isTrue trivial
  | .env _ => .isTrue trivial

/-- An action selects the nodes it has always selected. -/
abbrev SameSelection : StepCondition :=
  WhenBeginning fun c b => ∀ l ∈ (c.sweep b.action).lists, l = b.selected

/-- An action finds the cursor at the start, or not beyond where a batch of its own has left it. -/
abbrev OwnCursor : StepCondition :=
  WhenBeginning fun c b => b.cursor = 0 ∨
    ∃ b' ∈ (c.sweep b.action).batches, min b.cursor b.selected.length ≤ b'.stop

/-- Only one action of the instance has ended batches so far. -/
abbrev OneAction : StepCondition :=
  WhenBeginning fun c b => ∀ t ∈ c.threads, ∀ e ∈ (batchView t).ended,
    e.1.instanceId = b.action.instanceId → e.1 = b.action

/-- No node that the action has always selected, and that stood beyond its last batch in the list
    of that batch, has moved in front of the end of it. -/
abbrev Unshifted : StepCondition :=
  WhenBeginning fun c b => (c.sweep b.action).Unshifted b.selected

/-! ## The laws -/

section Laws

variable [Extern] (cfg : ControllerConfig)

/-- A run of a controller that starts without requests. -/
structure RunTo (C : StepCondition) (c₀ c : Pool) : Prop where
  idle : c₀.threads = []
  fresh : c₀.shared.marks = []
  steps : (controller cfg MemoryStorage).Steps C c₀ c

/-- The run may go on with a step of the task. -/
def Takes (C : StepCondition) (c : Pool) (t : Task) : Prop :=
  ∃ k x, c.threads[k]? = some t ∧ C c (.run k x)

/-- **All batches are done** only when every node the action selects has been passed on by it. -/
def CoversSelected (C : StepCondition) : Prop :=
  ∀ c₀ c, RunTo cfg C c₀ c → ∀ t, Takes C c t → ∀ b ∈ beginning t,
    b.selected.length ≤ b.cursor → ∀ n ∈ b.selected, n ∈ (c.sweep b.action).passed

/-- **All batches are done** only when every node that was selected throughout has been passed
    on by the action, if no instance had been through a batch at the start. -/
def CoversThroughout (C : StepCondition) : Prop :=
  ∀ c₀ c, c₀.Untouched → RunTo cfg C c₀ c → ∀ t, Takes C c t → ∀ b ∈ beginning t,
    b.selected.length ≤ b.cursor → ∀ n ∈ b.selected, (c.sweep b.action).Throughout n →
      n ∈ (c.sweep b.action).passed

end Laws

/-! ### Rollouts to run -/

/-- Deploy to half of all nodes at a time. -/
def halves : ActionDefinition := ⟨some ⟨⟨∅, none⟩, some 50, none⟩, none, none⟩

/-- A rollout by halves, repeated by hand, and left on success. -/
def byHalves : FsmDefinition where
  name := "staged"
  description := ""
  kind := .deployment
  initial := "staged"
  states := (∅ : AList fun _ : String => StateDefinition)
    |>.insert "done" ⟨none, [], true⟩
    |>.insert "staged" ⟨some halves, [
      ⟨"staged", some (.simple ⟨none, none, some true⟩), none⟩,
      ⟨"done", some (.simple ⟨some true, none, none⟩), none⟩], false⟩

/-- Two rollouts by halves, one after the other. -/
def twoRollouts : FsmDefinition where
  name := "staged"
  description := ""
  kind := .deployment
  initial := "first"
  states := (∅ : AList fun _ : String => StateDefinition)
    |>.insert "done" ⟨none, [], true⟩
    |>.insert "second" ⟨some halves, [⟨"done", none, some "10m"⟩], false⟩
    |>.insert "first" ⟨some halves, [⟨"second", some (.simple ⟨some true, none, none⟩), none⟩], false⟩

example : byHalves.validate = .ok () := by decide +kernel
example : twoRollouts.validate = .ok () := by decide +kernel

/-- A node that is online. -/
def onlineNode (nodeId agentAddress : String) : Node :=
  { Node.new 0 nodeId "host" agentAddress ∅ "1.0" with state := .online }

/-- A controller that knows a definition and some nodes, and the agent of "n1". -/
def Pool.withFleet (definition : FsmDefinition) (nodes : List Node) : Pool where
  shared :=
    { World.init (nodes.foldl (fun s node => (s.registerNode node).2)
        (MemoryStorage.new.storeFsmDefinition definition).2) with
      agents := (∅ : AList fun _ : String => AgentState).insert "http://agent:1" (.boot "n1") }
  threads := []

/-- Start the instance "u2", whose first batch takes "n1". -/
def startStaged : List StepLabel :=
  .arrive (.startInstance "staged" "rules: [a]" none) :: drawingTurns 0 0 20 .compiled

/-- Advance the instance up to where its action finds its batch. -/
def advanceToBatch (k : Nat) : List StepLabel :=
  .arrive (.advanceInstance "u2" none) :: drawingTurns k 100 5 .compiled

theorem Pool.withFleet_untouched (definition : FsmDefinition) (nodes : List Node) :
    (Pool.withFleet definition nodes).Untouched := by
  have hkept (s : MemoryStorage) :
      (nodes.foldl (fun s node => (s.registerNode node).2) s).fsmInstances = s.fsmInstances := by
    induction nodes generalizing s with
    | nil => rfl
    | cons node nodes ih => exact ih _
  intro inst hi
  have hnone : (Pool.withFleet definition nodes).shared.storage.fsmInstances =
      MemoryStorage.new.fsmInstances := hkept _
  rw [hnone] at hi
  exact absurd hi List.not_mem_nil

/-- A schedule that leads to where a task has a given property, and may move. -/
theorem exists_takes [Extern] (cfg : ControllerConfig) {C : StepCondition}
    {ok : Pool → StepLabel → Bool} (hok : ∀ c l, ok c l → C c l) {c₀ : Pool}
    (hidle : c₀.threads = []) (hfresh : c₀.shared.marks = []) (ls : List StepLabel) (k : Nat)
    (P : Pool → Task → Bool) (h : ((controller cfg MemoryStorage).run ok c₀ ls).any fun c =>
      ok c (.run k (.quiet 0 "")) && (c.threads[k]?).any (P c)) :
    ∃ c t, RunTo cfg C c₀ c ∧ Takes C c t ∧ P c t := by
  obtain ⟨c, hc, h⟩ := Option.any_eq_true _ _ |>.1 h
  obtain ⟨hl, ht⟩ := Bool.and_eq_true_iff.1 h
  obtain ⟨t, ht, hP⟩ := Option.any_eq_true _ _ |>.1 ht
  exact ⟨c, t, ⟨hidle, hfresh, System.steps_of_run hok hc⟩, ⟨k, _, ht, hok c _ hl⟩, hP⟩

theorem ownMarks_of_interleaved {c : Pool} {l : StepLabel} (h : interleaved c l) :
    OwnMarks c l := by
  cases l with
  | env w => cases h
  | _ => trivial

/-! ### The laws and their limits -/

variable {C : StepCondition} {c₀ c : Pool} {t : Task} {b : BegunBatch}

theorem Takes.whenBeginning {P : Pool → BegunBatch → Prop}
    (hC : ∀ c l, C c l → WhenBeginning P c l) (h : Takes C c t) (hb : b ∈ beginning t) : P c b := by
  obtain ⟨k, x, ht, hl⟩ := h
  exact hC c _ hl t ht b hb

/-- Where an action always selects the same nodes, its batches were batches of them. -/
theorem Swept.items (hc : Swept c) {k : Nat} {x : Ext} (hsame : SameSelection c (.run k x))
    (ht : c.threads[k]? = some t) (hb : b ∈ beginning t) :
    ∀ b' ∈ (c.sweep b.action).batches, b'.items = b.selected := fun b' hb' =>
  hsame t ht b hb _ ((hc.covered b.action).listed b' hb')

/-- A cursor of its own is enough for an action that always selects the same nodes. -/
theorem beginsKept_of_own {l : StepLabel} (hc : Swept c) (hsame : SameSelection c l)
    (hown : OwnCursor c l) : BeginsKept c l := by
  cases l with
  | run k x =>
    intro t ht b hb
    exact Sweep.kept_of_same (hc.items hsame ht hb) (hown t ht b hb)
  | _ => trivial

/-- For such an action no node moves. -/
theorem unshifted_of_same {l : StepLabel} (hc : Swept c) (hsame : SameSelection c l) :
    Unshifted c l := by
  cases l with
  | run k x =>
    intro t ht b hb
    exact Sweep.unshifted_of_same (hc.items hsame ht hb)
      (hc.selected_nodup (List.mem_of_getElem? ht) hb)
  | _ => trivial

/-- What stands behind the cursor of a batch that begins has been passed on. -/
theorem RunTo.behind [Extern] {cfg : ControllerConfig} (hrun : RunTo cfg C c₀ c)
    (hC : ∀ c l, Swept c → C c l → OwnMarks c l ∧ BeginsKept c l) (ht : Takes C c t)
    (hb : b ∈ beginning t) : (c.sweep b.action).Behind b.selected b.cursor := by
  have hswept := swept_of_steps hC hrun.steps (swept_of_idle hrun.idle)
  obtain ⟨k, x, ht, hl⟩ := ht
  exact (hswept.covered b.action).behind ((hC c _ hswept hl).2 t ht b hb)

/-! ### One action alone -/

/-- Where only one action has batches, the cursor is within one of them. -/
theorem CursorsLinked.own (hc : CursorsLinked c) {k : Nat} {x : Ext} (hone : OneAction c (.run k x))
    (ht : c.threads[k]? = some t) (hb : b ∈ beginning t) :
    b.cursor = 0 ∨ ∃ b' ∈ (c.sweep b.action).batches, b.cursor ≤ b'.stop := by
  refine (hc.begins (List.mem_of_getElem? ht) hb).imp_right ?_
  rintro ⟨state, b', hb', hstop⟩
  obtain ⟨u, hu, he⟩ := Pool.mem_batches.1 hb'
  have haction : (⟨b.action.instanceId, state⟩ : ActionId) = b.action := hone t ht b hb u hu _ he rfl
  rw [haction] at hb'
  exact ⟨b', hb', hstop⟩

/-- An action that is the only one with batches finds a cursor of its own. -/
theorem ownCursor_of_oneAction {l : StepLabel} (hc : CursorsLinked c) (hone : OneAction c l) :
    OwnCursor c l := by
  cases l with
  | run k x =>
    intro t ht b hb
    refine (hc.own hone ht hb).imp_right ?_
    rintro ⟨b', hb', hstop⟩
    exact ⟨b', hb', (Nat.min_le_left _ _).trans hstop⟩
  | _ => trivial

/-- An action that is the only one with batches begins where it may as long as the list has not
    moved. -/
theorem beginsKept_of_unshifted {l : StepLabel} (hswept : Swept c) (hc : CursorsLinked c)
    (hone : OneAction c l) (hsteady : Unshifted c l) : BeginsKept c l := by
  cases l with
  | run k x =>
    intro t ht b hb
    exact (hswept.covered b.action).kept_of_unshifted (hsteady t ht b hb) (hc.own hone ht hb)
  | _ => trivial

/-- The cursors are within the batches wherever the run goes. -/
theorem RunTo.linked [Extern] {cfg : ControllerConfig} (hrun : RunTo cfg C c₀ c)
    (huntouched : c₀.Untouched) (hC : ∀ c l, C c l → LeavesInstances c l) :
    RunTo cfg (fun c l => C c l ∧ CursorsLinked c) c₀ c ∧ CursorsLinked c := by
  have hstart : CursorsLinked c₀ := huntouched.linked hrun.idle
  have hsteps := hrun.steps.along CursorsLinked (fun c l c' hl hs hc => hc.step (hC c l hl) hs)
    hstart
  exact ⟨⟨hrun.idle, hrun.fresh, hsteps⟩, cursorsLinked_of_steps hC hrun.steps hstart⟩

/-- **Runs in which an instance has batches of one action only are runs in which the actions find
    cursors of their own.** -/
theorem RunTo.ownCursor [Extern] {cfg : ControllerConfig} (hrun : RunTo cfg C c₀ c)
    (huntouched : c₀.Untouched) (hC : ∀ c l, C c l → LeavesInstances c l ∧ OneAction c l) :
    RunTo cfg (fun c l => C c l ∧ OwnCursor c l) c₀ c := by
  obtain ⟨hlinked, -⟩ := hrun.linked huntouched fun c l hl => (hC c l hl).1
  refine ⟨hrun.idle, hrun.fresh, hlinked.steps.weaken fun c l hl => ⟨hl.1, ?_⟩⟩
  exact ownCursor_of_oneAction hl.2 (hC c l hl.1).2

/-- **Where the fleet does not change under a single action, no node moves.** -/
theorem RunTo.unshifted [Extern] {cfg : ControllerConfig} (hrun : RunTo cfg C c₀ c)
    (huntouched : c₀.Untouched)
    (hC : ∀ c l, C c l → OwnMarks c l ∧ LeavesInstances c l ∧ OneAction c l ∧ SameSelection c l) :
    RunTo cfg (fun c l => C c l ∧ Unshifted c l) c₀ c := by
  obtain ⟨hlinked, -⟩ := hrun.linked huntouched fun c l hl => (hC c l hl).2.1
  have hsteps := hlinked.steps.along Swept (fun c l c' hl hs hc => ?_) (swept_of_idle hrun.idle)
  · refine ⟨hrun.idle, hrun.fresh, hsteps.weaken ?_⟩
    rintro c l ⟨⟨hl, -⟩, hswept⟩
    exact ⟨hl, unshifted_of_same hswept (hC c l hl).2.2.2⟩
  · obtain ⟨hl, hc'⟩ := hl
    obtain ⟨hown, -, hone, hsame⟩ := hC c l hl
    exact hc.step hown (beginsKept_of_own hc hsame (ownCursor_of_oneAction hc' hone)) hs

/-- In runs where no removal or insertion moves a node in front of the last batch, every node that
    stays is covered. -/
theorem coversThroughout [Extern] (cfg : ControllerConfig) :
    CoversThroughout cfg fun c l =>
    OwnMarks c l ∧ LeavesInstances c l ∧ OneAction c l ∧ Unshifted c l := by
  intro c₀ c huntouched hrun t ht b hb hend n hn hthrough
  obtain ⟨hlinked, hc⟩ := hrun.linked huntouched fun _ _ hl => hl.2.1
  obtain ⟨k, x, ht, hl⟩ := ht
  refine (hlinked.behind ?_ ⟨k, x, ht, hl, hc⟩ hb).all hend hn hthrough
  rintro c l hswept ⟨⟨hown, -, hone, hsteady⟩, hc⟩
  exact ⟨hown, beginsKept_of_unshifted hswept hc hone hsteady⟩

/-- A node registers and a rollout by halves reaches it. -/
theorem coversThroughout_grown : ∃ c t b,
    @RunTo .sample plainConfig
      (fun c l => OwnMarks c l ∧ LeavesInstances c l ∧ OneAction c l ∧ Unshifted c l)
      (.withFleet byHalves [onlineNode "n1" "agent:1"]) c ∧
      beginning t = some b ∧ b.selected = ["n1", "u100"] ∧
      ∀ n ∈ b.selected, (c.sweep b.action).Throughout n → n ∈ (c.sweep b.action).passed := by
  obtain ⟨c, t, hrun, ht, hP⟩ := @exists_takes .sample plainConfig
    (fun c l => OwnMarks c l ∧ LeavesInstances c l ∧ OneAction c l ∧ Unshifted c l)
    (fun c l => interleaved c l && decide (OneAction c l ∧ Unshifted c l))
    (fun c l h => by
      obtain ⟨hi, hk⟩ := Bool.and_eq_true_iff.1 h
      exact ⟨ownMarks_of_interleaved hi, leavesInstances_sound c l hi, of_decide_eq_true hk⟩)
    (.withFleet byHalves [onlineNode "n1" "agent:1"]) rfl rfl
    (startStaged ++
      .arrive (.registerNode ⟨"host", "agent:2", ∅, "1.0", ∅⟩) :: drawingTurns 1 99 3 .compiled ++
      .arrive (.advanceInstance "u2" none) :: drawingTurns 2 200 20 (.elapsed false) ++
      advanceToBatch 3) 3
    (fun (_ : Pool) (t : Task) => (beginning t).any fun (b : BegunBatch) =>
      decide (b.selected = ["n1", "u100"] ∧ b.selected.length ≤ b.cursor)) (by decide +kernel)
  obtain ⟨b, hb, hP⟩ := Option.any_eq_true _ _ |>.1 hP
  obtain ⟨hselected, hend⟩ := of_decide_eq_true hP
  exact ⟨c, t, b, hrun, hb, hselected,
    @coversThroughout .sample plainConfig _ c (Pool.withFleet_untouched _ _) hrun t ht b hb hend⟩

/-- A node that has had its batch is removed, and the next one takes its place behind the cursor:
    all batches are done, and it was selected throughout. -/
theorem not_coversThroughout :
    ¬ @CoversThroughout .sample plainConfig fun c l => Interleaved c l ∧ OneAction c l := by
  intro h
  obtain ⟨c, t, hrun, ht, hP⟩ := @exists_takes .sample plainConfig
    (fun c l => Interleaved c l ∧ OneAction c l)
    (fun c l => interleaved c l && decide (OneAction c l))
    (fun c l h => (Bool.and_eq_true_iff.1 h).imp_right of_decide_eq_true)
    (.withFleet byHalves [onlineNode "n1" "agent:1", onlineNode "n2" "agent:2"])
    rfl rfl
    (startStaged ++ .arrive (.removeNode "n1") :: drawingTurns 1 99 1 .compiled ++
      advanceToBatch 2) 2
    (fun (c : Pool) (t : Task) => (beginning t).any fun (b : BegunBatch) =>
      decide (b.selected.length ≤ b.cursor ∧ "n2" ∈ b.selected ∧
        (∀ l ∈ (c.sweep b.action).lists, "n2" ∈ l) ∧ "n2" ∉ (c.sweep b.action).passed))
    (by decide +kernel)
  obtain ⟨b, hb, hP⟩ := Option.any_eq_true _ _ |>.1 hP
  obtain ⟨hend, hn, hthrough, hmissed⟩ := of_decide_eq_true hP
  exact hmissed (h _ c (Pool.withFleet_untouched _ _) hrun t ht b hb hend "n2" hn hthrough)

/-! ### An unchanging fleet -/

/-- In runs where no other action moves the cursor, every selected node is covered. -/
theorem coversSelected [Extern] (cfg : ControllerConfig) :
    CoversSelected cfg fun c l =>
    OwnMarks c l ∧ SameSelection c l ∧ OwnCursor c l := by
  intro c₀ c hrun t ht b hb hend n hn
  have hsame := ht.whenBeginning (fun _ _ hl => hl.2.1) hb
  have hbehind := hrun.behind (fun c l hc hl => ⟨hl.1, beginsKept_of_own hc hl.2.1 hl.2.2⟩) ht hb
  refine hbehind.all hend hn fun l hl => ?_
  rwa [hsame l hl]

/-- A rollout by halves is repeated until all batches are done. -/
theorem coversSelected_repeated : ∃ c t b,
    @RunTo .sample plainConfig (fun c l => OwnMarks c l ∧ SameSelection c l ∧ OwnCursor c l)
      (.withFleet byHalves [onlineNode "n1" "agent:1", onlineNode "n2" "agent:2"]) c ∧
      beginning t = some b ∧ b.selected = ["n1", "n2"] ∧
      ∀ n ∈ b.selected, n ∈ (c.sweep b.action).passed := by
  obtain ⟨c, t, hrun, ht, hP⟩ := @exists_takes .sample plainConfig
    (fun c l => OwnMarks c l ∧ SameSelection c l ∧ OwnCursor c l)
    (fun c l => interleaved c l && decide (SameSelection c l ∧ OwnCursor c l))
    (fun c l h => by
      obtain ⟨hi, hk⟩ := Bool.and_eq_true_iff.1 h
      exact ⟨ownMarks_of_interleaved hi, of_decide_eq_true hk⟩)
    (.withFleet byHalves [onlineNode "n1" "agent:1", onlineNode "n2" "agent:2"]) rfl rfl
    (startStaged ++
      .arrive (.advanceInstance "u2" none) :: drawingTurns 1 200 20 (.elapsed false) ++
      advanceToBatch 2) 2
    (fun (_ : Pool) (t : Task) => (beginning t).any fun (b : BegunBatch) =>
      decide (b.selected = ["n1", "n2"] ∧ b.selected.length ≤ b.cursor)) (by decide +kernel)
  obtain ⟨b, hb, hP⟩ := Option.any_eq_true _ _ |>.1 hP
  obtain ⟨hselected, hend⟩ := of_decide_eq_true hP
  exact ⟨c, t, b, hrun, hb, hselected, @coversSelected .sample plainConfig _ c hrun t ht b hb hend⟩

/-- The action of a second state finds the cursor where that of the first has left it: all its
    batches are done before it has passed on any node. -/
theorem not_coversSelected :
    ¬ @CoversSelected .sample plainConfig fun c l => Interleaved c l ∧ SameSelection c l := by
  intro h
  obtain ⟨c, t, hrun, ht, hP⟩ := @exists_takes .sample plainConfig
    (fun c l => Interleaved c l ∧ SameSelection c l)
    (fun c l => interleaved c l && decide (SameSelection c l))
    (fun c l h => (Bool.and_eq_true_iff.1 h).imp_right of_decide_eq_true)
    (.withFleet twoRollouts [onlineNode "n1" "agent:1"]) rfl rfl
    (startStaged ++ advanceToBatch 1) 1
    (fun (c : Pool) (t : Task) => (beginning t).any fun (b : BegunBatch) =>
      decide (b.selected.length ≤ b.cursor ∧ "n1" ∈ b.selected ∧
        "n1" ∉ (c.sweep b.action).passed)) (by decide +kernel)
  obtain ⟨b, hb, hP⟩ := Option.any_eq_true _ _ |>.1 hP
  obtain ⟨hend, hn, hmissed⟩ := of_decide_eq_true hP
  exact hmissed (h _ c hrun t ht b hb hend "n1" hn)

end PaciNet

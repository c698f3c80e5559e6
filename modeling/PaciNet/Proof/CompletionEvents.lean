import PaciNet.Lib.Steps
import PaciNet.Proof.FsmStore
import PaciNet.Proof.Runs

/-!
# Completion events

The engine takes the status of an instance away from running in four places. Two of them tell the
event bus: moving into a terminal state, and cancelling. The other two are in the evaluation and
do not: an instance that was started in a terminal state is completed, and one whose definition is
gone is failed, without a word.

**As long as every evaluation finds each running instance with its definition stored, and not in a
terminal state of it, each instance that has finished was announced exactly once, with its final
status, and no running one ever was.** The requests of a run are served one after the other, and
between them anything happens that leaves the instances alone.
-/

set_option autoImplicit false

namespace PaciNet

open Lib Prog

/-! ## What is told of an instance -/

/-- The final status that an event tells of the instance. -/
def FsmEvent.completionOf (id : String) : FsmEvent → Option String
  | .instanceCompleted instanceId _ finalStatus _ =>
      if instanceId = id then some finalStatus else none
  | _ => none

/-- The final statuses that were told of the instance, in order. -/
def World.completions (w : World MemoryStorage) (id : String) : List String :=
  w.fsmEvents.filterMap (FsmEvent.completionOf id)

/-- What is to be told of the instance as it is. -/
def FsmInstance.finalStatuses (inst : FsmInstance) : List String :=
  if inst.isRunning then [] else [inst.status.toString]

/-- The instance as it is stored has been announced: once with its status if it has left running,
    and not at all before. -/
def World.Announces (w : World MemoryStorage) (id : String) : Prop :=
  ∀ inst ∈ w.storage.fsmInstances.get? id, w.completions id = inst.finalStatuses

/-! ## Runs -/

/-- The instances with these ids, and what is told of them, stay as they are. -/
structure KeepsInstances (P : String → Prop) (w w' : World MemoryStorage) : Prop where
  instances : ∀ id, P id → w'.storage.fsmInstances.get? id = w.storage.fsmInstances.get? id
  completions : ∀ id, P id → w'.completions id = w.completions id
  issued : w.issued ⊆ w'.issued

/-- The definition of the instance is stored, and its current state is not terminal there. -/
def World.canEvaluate (w : World MemoryStorage) (inst : FsmInstance) : Bool :=
  (w.storage.fsmDefinitions.get? inst.definitionName).any fun definition =>
    (definition.states.lookup inst.currentState).all fun stateDef => !stateDef.terminal

/-- An evaluation finds each running instance with its definition, and not in a terminal state. -/
def EvaluatesLive (w : World MemoryStorage) : Request → Prop
  | .evaluateAll =>
      ∀ inst ∈ w.storage.fsmInstances.rows, inst.status = .running → w.canEvaluate inst = true
  | _ => True

section

variable [Extern] (cfg : ControllerConfig)

/-- A request of the engine that is served alone, or anything that leaves the instances alone. -/
inductive EngineStep (C : World MemoryStorage → Request → Prop) (w w' : World MemoryStorage) : Prop
  | request {q : Request} {reply : Reply} (engine : q.isEngine = true) (meets : C w q)
      (serves : (machine MemoryStorage).Exec Eq (serve cfg q) w reply w') : EngineStep C w w'
  | other (keeps : KeepsInstances (fun _ => True) w w') : EngineStep C w w'

/-- A sequential run of the engine. -/
abbrev EngineRun (C : World MemoryStorage → Request → Prop) :
    World MemoryStorage → World MemoryStorage → Prop :=
  Relation.ReflTransGen (EngineStep cfg C)

end

/-! ## What single operations do -/

namespace KeepsInstances

variable {P : String → Prop} {w w₁ w' : World MemoryStorage}

theorem refl (P : String → Prop) (w : World MemoryStorage) : KeepsInstances P w w :=
  ⟨fun _ _ => rfl, fun _ _ => rfl, List.Subset.refl _⟩

theorem trans (h : KeepsInstances P w w₁) (h' : KeepsInstances P w₁ w') :
    KeepsInstances P w w' where
  instances id hid := (h'.instances id hid).trans (h.instances id hid)
  completions id hid := (h'.completions id hid).trans (h.completions id hid)
  issued := List.Subset.trans h.issued h'.issued

theorem of_all (h : KeepsInstances (fun _ => True) w w') : KeepsInstances P w w' :=
  ⟨fun id _ => h.instances id trivial, fun id _ => h.completions id trivial, h.issued⟩

end KeepsInstances

/-- The FSM event an operation emits. -/
def World.tellsOf : Op → List FsmEvent
  | .emitFsm e => [e]
  | _ => []

/-- What every operation does to the FSM events and to the ids that have been drawn. -/
theorem World.told_of_exec [Extern] {x : Ext} {o : Op} {w w' : World MemoryStorage} {r : o.Res}
    {new : List Request} (h : exec x o w = some (r, w', new)) :
    w'.fsmEvents = w.fsmEvents ++ tellsOf o ∧ w.issued ⊆ w'.issued := by
  cases o with
  | deployRules addr req =>
    have hstrand (reached : Bool) : ((w.send addr req).strand addr req reached).fsmEvents =
        w.fsmEvents ∧ ((w.send addr req).strand addr req reached).issued = w.issued := by
      cases reached <;> exact ⟨rfl, rfl⟩
    simp only [exec] at h
    split at h
    · split at h
      · exact absurd h (by simp)
      · cases h
        exact ⟨(List.append_nil _).symm, List.Subset.refl _⟩
    · cases h
      obtain ⟨hevents, hissued⟩ := hstrand ‹_›
      exact ⟨by simp [hevents, tellsOf], by rw [hissued]; exact List.Subset.refl _⟩
    · cases h
      obtain ⟨hevents, hissued⟩ := hstrand ‹_›
      exact ⟨by simp [hevents, tellsOf], by rw [hissued]; exact List.Subset.refl _⟩
  | uuid =>
    simp only [exec] at h
    split at h
    · exact absurd h (by simp)
    · cases h
      exact ⟨(List.append_nil _).symm, List.subset_cons_self _ _⟩
  | joinSetNext joinSet =>
    simp only [exec] at h
    split at h
    · exact absurd h (by simp)
    · split at h
      · cases h
        exact ⟨(List.append_nil _).symm, List.Subset.refl _⟩
      · exact absurd h (by simp)
      · cases h
        exact ⟨(List.append_nil _).symm, List.Subset.refl _⟩
  | emitFsm e =>
    cases h
    exact ⟨rfl, List.Subset.refl _⟩
  | _ =>
    cases h
    exact ⟨(List.append_nil _).symm, List.Subset.refl _⟩

/-- The operation writes an instance or announces that one has finished. -/
def Op.finishes : Op → Bool
  | .storage (.storeFsmInstance _) | .storage (.updateFsmInstance _)
  | .emitFsm (.instanceCompleted _ _ _ _) => true
  | _ => false

/-- The operation writes a definition. -/
def Op.defines : Op → Bool
  | .storage (.storeFsmDefinition _) | .storage (.deleteFsmDefinition _) => true
  | _ => false

/-- Any other operation leaves the instances alone. -/
theorem keepsInstances_of_exec [Extern] {x : Ext} {o : Op} {w w' : World MemoryStorage}
    {r : o.Res} {new : List Request} (hx : World.exec x o w = some (r, w', new))
    (ho : o.finishes = false) : KeepsInstances (fun _ => True) w w' := by
  obtain ⟨hevents, hissued⟩ := World.told_of_exec hx
  have hstorage := (World.stepped_of_exec hx).storage
  refine ⟨fun id _ => ?_, fun id _ => ?_, hissued⟩
  · cases o with
    | storage c =>
      have hc : w'.storage = (Storage.call x.now c w.storage).2 := congrArg Prod.snd hstorage
      rw [hc, call_fsmInstances]
      cases c <;> first | rfl | cases ho
    | _ => exact congrArg (fun s : MemoryStorage => s.fsmInstances.get? id) hstorage
  · rw [World.completions, hevents, List.filterMap_append]
    have hnone : (World.tellsOf o).filterMap (FsmEvent.completionOf id) = [] := by
      cases o with
      | emitFsm e => cases e <;> first | rfl | cases ho
      | _ => rfl
    rw [hnone, List.append_nil, World.completions]

theorem definitions_of_exec [Extern] {x : Ext} {o : Op} {w w' : World MemoryStorage}
    {r : o.Res} {new : List Request} (hx : World.exec x o w = some (r, w', new))
    (ho : o.defines = false) : w'.storage.fsmDefinitions = w.storage.fsmDefinitions := by
  have hstorage := (World.stepped_of_exec hx).storage
  cases o with
  | storage c =>
    have hc : w'.storage = (Storage.call x.now c w.storage).2 := congrArg Prod.snd hstorage
    rw [hc, call_fsmDefinitions]
    cases c <;> first | rfl | cases ho
  | _ => exact congrArg MemoryStorage.fsmDefinitions hstorage

/-- The instances with these ids are left alone, and so is every definition. -/
structure KeepsEngine (P : String → Prop) (w w' : World MemoryStorage) : Prop
    extends KeepsInstances P w w' where
  definitions : w'.storage.fsmDefinitions = w.storage.fsmDefinitions

namespace KeepsEngine

variable {P : String → Prop} {w w₁ w' : World MemoryStorage}

theorem refl (P : String → Prop) (w : World MemoryStorage) : KeepsEngine P w w :=
  ⟨.refl P w, rfl⟩

theorem trans (h : KeepsEngine P w w₁) (h' : KeepsEngine P w₁ w') : KeepsEngine P w w' :=
  ⟨h.toKeepsInstances.trans h'.toKeepsInstances, h'.definitions.trans h.definitions⟩

theorem of_all (h : KeepsEngine (fun _ => True) w w') : KeepsEngine P w w' :=
  ⟨h.toKeepsInstances.of_all, h.definitions⟩

end KeepsEngine

/-! ## What the programs leave alone -/

/-- The operation neither writes an instance or a definition nor announces an end. -/
def Op.StandsBy (o : Op) : Prop := o.finishes = false ∧ o.defines = false

section Programs

variable [Extern] (cfg : ControllerConfig)

theorem keepsEngine_of_exec {x : Ext} {o : Op} {w w' : World MemoryStorage} {r : o.Res}
    {new : List Request} (hx : World.exec x o w = some (r, w', new)) (ho : o.StandsBy) :
    KeepsEngine (fun _ => True) w w' :=
  ⟨keepsInstances_of_exec hx ho.1, definitions_of_exec hx ho.2⟩

theorem ensures_keepsEngine {α : Type} {p : Proc α} (hp : p.Calls Op.StandsBy)
    {w : World MemoryStorage} :
    (machine MemoryStorage).Ensures Eq p (fun _ w' => KeepsEngine (fun _ => True) w w') w := by
  refine Machine.ensures_of_invariant (I := fun w' => KeepsEngine (fun _ => True) w w')
    ?_ ?_ hp (.refl _ w)
  · intro w₁ w₂ hw h
    exact hw ▸ h
  · intro o ho x w₁ r w₂ hx h
    exact h.trans (keepsEngine_of_exec hx ho)

/-- Reading the clock changes nothing. -/
theorem ensures_now {α : Type} {f : DateTime → Proc α} {Q : α → World MemoryStorage → Prop}
    {w : World MemoryStorage} (h : ∀ now, (machine MemoryStorage).Ensures Eq (f now) Q w) :
    (machine MemoryStorage).Ensures Eq ((op .now).bind f) Q w := by
  intro w₁ hw₁ x now w₂ hx
  subst hw₁
  cases hx
  exact h x.now

/-- A call that only reads the storage. -/
theorem ensures_reads {α : Type} {c : StorageCall} {f : c.Res → Proc α}
    {Q : α → World MemoryStorage → Prop} {w : World MemoryStorage}
    (hread : ∀ now, (Storage.call now c w.storage).2 = w.storage)
    (h : ∀ now, (machine MemoryStorage).Ensures Eq (f (Storage.call now c w.storage).1) Q w) :
    (machine MemoryStorage).Ensures Eq ((storage c).bind f) Q w := by
  refine ensures_storage.mpr ?_
  intro w₁ hw₁ now
  subst hw₁
  rw [hread now]
  exact h now

/-- The program is built from deploys and operations that stand by. -/
abbrev BuiltStandingBy {α : Type} (p : Proc α) : Prop := p.Built Op.StandsBy (DeployBlock cfg)

omit [Extern] in
theorem DeployBodyOp.standsBy {n : String} {o : Op} (h : DeployBodyOp n o) : o.StandsBy := by
  cases o with
  | storage c => cases c <;> first | exact ⟨rfl, rfl⟩ | exact h.elim
  | deployRules | now | uuid => exact ⟨rfl, rfl⟩
  | _ => exact h.elim

variable {cfg}

theorem DeployBlock.standsBy {β : Type} {p : Proc β} (h : DeployBlock cfg β p) :
    p.Calls Op.StandsBy := by
  have bare (node : Node) (rulesYaml : String) (options : CompileOptions) :
      (deployToNode cfg node rulesYaml options).Calls Op.StandsBy := by
    have hbody := (deployToNodeBody_calls cfg node rulesYaml options).mono fun _ h => h.standsBy
    exact calls_mark.2 ⟨⟨rfl, rfl⟩, hbody.bind fun _ => calls_mark.2 ⟨⟨rfl, rfl⟩, trivial⟩⟩
  cases h with
  | bare node rulesYaml options => exact bare node rulesYaml options
  | guarded n node rulesYaml options =>
    refine calls_storage.2 ⟨⟨rfl, rfl⟩, fun r => ?_⟩
    cases r with
    | error e => trivial
    | ok u =>
      exact (bare node rulesYaml options).bind fun _ =>
        calls_storage.2 ⟨⟨rfl, rfl⟩, fun _ => trivial⟩
  | spawned joinSet req node => exact ⟨⟨rfl, rfl⟩, fun _ => trivial⟩

theorem BuiltStandingBy.calls {α : Type} {p : Proc α} (h : BuiltStandingBy cfg p) :
    p.Calls Op.StandsBy :=
  Prog.Built.calls (fun _ h => h) (fun _ _ h => h.standsBy) h

variable (cfg)

theorem emitFsm_standsBy {e : DateTime → FsmEvent} (he : ∀ now, (Op.emitFsm (e now)).StandsBy) :
    BuiltStandingBy cfg (emitFsm cfg e) := by
  unfold emitFsm
  split
  · exact .perform ⟨rfl, rfl⟩ fun now => .perform (he now) fun _ => .done _
  · exact .done _

theorem deployToNodesLoop_standsBy (rulesYaml : String) (options : CompileOptions)
    (nodes : List Node) (s f : Nat) (rs : List NodeActionResult) :
    BuiltStandingBy cfg (deployToNodesLoop cfg rulesYaml options nodes s f rs) := by
  induction nodes generalizing s f rs with
  | nil => exact .done _
  | cons node nodes ih => exact built_guarded cfg rfl (fun e => ih _ _ _) fun outcome => ih _ _ _

theorem deploySelected_standsBy (inst : FsmInstance) (context : FsmContext) (selected : List Node)
    (rulesYaml : String) :
    BuiltStandingBy cfg (deploySelected cfg inst context selected rulesYaml) := by
  refine .bind (.bind (deployToNodesLoop_standsBy cfg _ _ _ _ _ _) fun _ => .done _) fun _ => ?_
  exact .perform ⟨rfl, rfl⟩ fun _ =>
    (emitFsm_standsBy cfg fun _ => ⟨rfl, rfl⟩).bind fun _ => .done _

theorem executeDeploy_standsBy (action : DeployAction) (inst : FsmInstance) :
    BuiltStandingBy cfg (executeDeploy cfg action inst) := by
  unfold executeDeploy
  split
  · exact .done _
  · refine .perform ⟨rfl, rfl⟩ fun r => ?_
    rcases r with e | _ | ⟨node, nodes⟩
    · exact .done _
    · exact .done _
    · simp only
      split
      · exact deploySelected_standsBy cfg _ _ _ _
      · refine .perform ⟨rfl, rfl⟩ fun _ => ?_
        simp only [Prog.pure_eq]
        split
        · exact .done _
        · exact deploySelected_standsBy cfg _ _ _ _

theorem rollbackNode_standsBy (nodeId : String) :
    BuiltStandingBy cfg (rollbackNode cfg nodeId) := by
  refine .perform ⟨rfl, rfl⟩ fun r => ?_
  rcases r with e | _ | ⟨newest, _ | ⟨prev, rest⟩⟩
  · exact .done _
  · exact .done _
  · exact .done _
  · refine .perform ⟨rfl, rfl⟩ fun r => ?_
    rcases r with e | _ | node
    · exact .done _
    · exact .done _
    · exact .block (.bare node prev.rulesYaml prev.options) fun outcome => .done _

theorem rollbackLoop_standsBy (nodeIds : List String) (s f : Nat) (rs : List NodeActionResult) :
    BuiltStandingBy cfg (rollbackLoop cfg nodeIds s f rs) := by
  induction nodeIds generalizing s f rs with
  | nil => exact .done _
  | cons nodeId nodeIds ih => exact (rollbackNode_standsBy cfg nodeId).bind fun r => ih _ _ _

/-- **Executing an action stands by**: it ends no instance and writes none. -/
theorem executeAction_standsBy (action : ActionDefinition) (inst : FsmInstance) :
    BuiltStandingBy cfg (executeAction cfg action inst) := by
  refine .perform ⟨rfl, rfl⟩ fun _ => ?_
  split
  · exact executeDeploy_standsBy cfg _ _
  · simp only [executeRollback]
    split
    · exact .done _
    · exact (rollbackLoop_standsBy cfg _ _ _ _).bind fun _ => .done _
  · refine .bind ?_ fun _ => .done _
    unfold executeAlert
    split
    · exact .done _
    · exact .perform ⟨rfl, rfl⟩ fun now => .perform ⟨rfl, rfl⟩ fun _ => .done _
  · exact .done _

theorem executeActionOf_standsBy (stateDef : StateDefinition) (inst : FsmInstance) :
    BuiltStandingBy cfg (executeActionOf cfg stateDef inst) := by
  unfold executeActionOf
  split
  · exact .done _
  · exact executeAction_standsBy cfg _ inst

/-! ## Working on one instance -/

/-- From `w` on the instance `id` was worked on: `inst` is the copy, and has been announced; the
    other instances were left alone. -/
structure Carries (id : String) (w : World MemoryStorage) (inst : FsmInstance)
    (w' : World MemoryStorage) : Prop where
  instanceId : inst.instanceId = id
  keeps : KeepsEngine (· ≠ id) w w'
  announced : w'.completions id = inst.finalStatuses

/-- From `w` on the instance `id` was worked on, and as it is stored it has been announced. -/
structure Handles (id : String) (w w' : World MemoryStorage) : Prop where
  keeps : KeepsEngine (· ≠ id) w w'
  announces : w'.Announces id

variable {cfg} {id : String} {inst inst' : FsmInstance} {w w' : World MemoryStorage}

omit [Extern] in
theorem FsmInstance.finalStatuses_running (h : inst.status = .running) :
    inst.finalStatuses = [] := by
  rw [finalStatuses, if_pos ((isRunning_iff inst).mpr h)]

omit [Extern] in
theorem FsmInstance.finalStatuses_congr (h : inst'.status = inst.status) :
    inst'.finalStatuses = inst.finalStatuses := by
  rw [finalStatuses, finalStatuses, isRunning, isRunning, h]

omit [Extern] in
theorem Carries.keepsEngine (h : Carries id w inst w') {w'' : World MemoryStorage}
    (hkeeps : KeepsEngine (fun _ => True) w' w'') : Carries id w inst w'' where
  instanceId := h.instanceId
  keeps := h.keeps.trans hkeeps.of_all
  announced := (hkeeps.completions id trivial).trans h.announced

omit [Extern] in
theorem Carries.copy (h : Carries id w inst w') (hid : inst'.instanceId = inst.instanceId)
    (hstatus : inst'.status = inst.status) : Carries id w inst' w' where
  instanceId := hid.trans h.instanceId
  keeps := h.keeps
  announced := h.announced.trans (FsmInstance.finalStatuses_congr hstatus).symm

omit [Extern] in
/-- What the storage has of an instance after a write of it. -/
theorem stored_written (w' : World MemoryStorage) (now : DateTime) {c : StorageCall}
    (hc : c = .updateFsmInstance inst ∨ c = .storeFsmInstance inst) :
    KeepsEngine (· ≠ inst.instanceId) w'
        { w' with storage := (Storage.call now c w'.storage).2 } ∧
      ∀ u ∈ (Storage.call now c w'.storage).2.fsmInstances.get? inst.instanceId, u = inst := by
  have hinstances : (Storage.call now c w'.storage).2.fsmInstances = w'.storage.fsmInstances ∧
      w'.storage.fsmInstances.get? inst.instanceId = none ∨
      (Storage.call now c w'.storage).2.fsmInstances = w'.storage.fsmInstances.insert inst := by
    rw [call_fsmInstances]
    rcases hc with rfl | rfl
    · simp only
      split
      · exact .inr rfl
      · exact .inl ⟨rfl, Option.not_isSome_iff_eq_none.mp ‹_›⟩
    · exact .inr rfl
  have hdefinitions : (Storage.call now c w'.storage).2.fsmDefinitions =
      w'.storage.fsmDefinitions := by
    rw [call_fsmDefinitions]
    rcases hc with rfl | rfl <;> rfl
  constructor
  · refine ⟨⟨fun k hk => ?_, fun _ _ => rfl, List.Subset.refl _⟩, hdefinitions⟩
    show (Storage.call now c w'.storage).2.fsmInstances.get? k = _
    rcases hinstances with ⟨hsame, -⟩ | hsame
    · rw [hsame]
    · rw [hsame, Table.get?_insert_ne hk]
  · intro u hu
    rcases hinstances with ⟨hsame, hnone⟩ | hsame
    · rw [hsame, hnone] at hu
      cases hu
    · rw [hsame, Table.get?_insert_self] at hu
      cases hu
      rfl

omit [Extern] in
/-- Writing the copy back. -/
theorem Carries.written (h : Carries id w inst w') (now : DateTime) {c : StorageCall}
    (hc : c = .updateFsmInstance inst ∨ c = .storeFsmInstance inst) :
    Handles id w { w' with storage := (Storage.call now c w'.storage).2 } := by
  obtain ⟨rfl, hkeeps, hannounced⟩ := h
  obtain ⟨hwritten, hstored⟩ := stored_written w' now hc
  refine ⟨hkeeps.trans hwritten, ?_⟩
  intro u hu
  rw [hstored u hu]
  exact hannounced

/-- The bus is told that an instance has finished. -/
theorem ensures_told (hbus : cfg.eventBus = true) (name finalStatus : String) :
    (machine MemoryStorage).Ensures Eq (emitFsm cfg (.instanceCompleted id name finalStatus))
      (fun _ w'' => KeepsEngine (· ≠ id) w' w'' ∧ w''.storage = w'.storage ∧
        w''.completions id = w'.completions id ++ [finalStatus]) w' := by
  rw [emitFsm, if_pos hbus]
  refine ensures_now fun now => ?_
  intro w₁ hw₁ x r w₂ hx
  subst hw₁
  have hx : World.exec x (.emitFsm _) w' = some (r, w₂, []) := hx
  obtain ⟨hevents, hissued⟩ := World.told_of_exec hx
  have hstorage : w₂.storage = w'.storage := (World.stepped_of_exec hx).storage
  have hcompletions (k : String) : w₂.completions k = w'.completions k ++
      (FsmEvent.completionOf k (.instanceCompleted id name finalStatus now)).toList := by
    rw [World.completions, hevents, List.filterMap_append, World.tellsOf, List.filterMap_cons]
    cases FsmEvent.completionOf k _ <;> rfl
  refine ⟨⟨⟨fun k _ => by rw [hstorage], fun k hk => ?_, hissued⟩, by rw [hstorage]⟩,
    hstorage, ?_⟩
  · rw [hcompletions, FsmEvent.completionOf, if_neg (Ne.symm hk)]
    exact List.append_nil _
  · rw [hcompletions, FsmEvent.completionOf, if_pos rfl]
    rfl

omit [Extern] in
theorem FsmInstance.finalStatuses_finished (h : inst.status ≠ .running) :
    inst.finalStatuses = [inst.status.toString] := by
  rw [finalStatuses, if_neg fun hrun => h ((isRunning_iff inst).mp hrun)]

/-! ## Transitions -/

/-- Evaluating whether a transition fires changes at most the context of the copy. -/
theorem shouldFire_carries (hcarries : Carries id w inst w') (currentState : String) (ti : Nat)
    (t : TransitionDefinition) :
    (machine MemoryStorage).Ensures Eq (shouldFire currentState ti t inst)
      (fun r w'' => r.2.status = inst.status ∧ Carries id w r.2 w'') w' := by
  have hquiet {o : Op} (ho : o.StandsBy) {x : Ext} {w₁ w₂ : World MemoryStorage} {r : o.Res}
      (hw : w' = w₁) (hx : World.exec x o w₁ = some (r, w₂, [])) : Carries id w inst w₂ := by
    subst hw
    exact hcarries.keepsEngine (keepsEngine_of_exec hx ho)
  unfold shouldFire
  split
  · intro w₁ hw₁ x obs w₂ hx
    exact ⟨rfl, (hquiet (o := .observe) ⟨rfl, rfl⟩ hw₁ hx).copy rfl rfl⟩
  · split
    · intro w₁ hw₁ x now w₂ hx
      exact ⟨rfl, hquiet (o := .now) ⟨rfl, rfl⟩ hw₁ hx⟩
    · exact ⟨rfl, hcarries⟩
  · exact ⟨rfl, hcarries⟩

/-- A terminal state completes the copy and tells the bus. -/
theorem completeIfTerminal_carries (hbus : cfg.eventBus = true) (hrun : inst.status = .running)
    (hcarries : Carries id w inst w') (stateDef : StateDefinition) :
    (machine MemoryStorage).Ensures Eq (completeIfTerminal cfg stateDef inst)
      (fun inst' w'' => Carries id w inst' w'') w' := by
  obtain ⟨rfl, hkeeps, hannounced⟩ := hcarries
  unfold completeIfTerminal
  split
  · refine Machine.ensures_bind.mpr (Machine.Ensures.mono (ensures_told hbus _ _) ?_)
    intro _ w₁ htold
    obtain ⟨hothers, -, hcompletions⟩ := htold
    refine ⟨rfl, hkeeps.trans hothers, ?_⟩
    rw [hcompletions, hannounced, FsmInstance.finalStatuses_running hrun,
      FsmInstance.finalStatuses_finished (by simp)]
    rfl
  · exact ⟨rfl, hkeeps, hannounced⟩

theorem fireTransition_carries (hbus : cfg.eventBus = true) (hrun : inst.status = .running)
    (hcarries : Carries id w inst w') (toState : String) (trigger : TransitionTrigger)
    (definition : FsmDefinition) :
    (machine MemoryStorage).Ensures Eq (fireTransition cfg inst toState trigger definition)
      (fun inst' w'' => Carries id w inst' w'') w' := by
  refine ensures_now fun now => ?_
  refine Machine.ensures_bind.mpr (Machine.Ensures.mono
    (ensures_keepsEngine (emitFsm_standsBy cfg fun _ => ⟨rfl, rfl⟩).calls) ?_)
  intro _ w₃ hkeeps
  have hcarries := hcarries.keepsEngine hkeeps
  split
  · exact hcarries.copy rfl rfl
  · rename_i stateDef _
    refine Machine.ensures_bind.mpr (Machine.Ensures.mono
      (ensures_keepsEngine (executeActionOf_standsBy cfg stateDef _).calls) ?_)
    intro context w₄ hkeeps
    have hcarries := hcarries.keepsEngine hkeeps
    refine completeIfTerminal_carries hbus ?_ (hcarries.copy ?_ ?_) stateDef
    · exact hrun
    · rfl
    · rfl

/-- Writing the copy back at the end. -/
theorem ensures_written (hcarries : Carries id w inst w') {α : Type}
    {f : StorageResult Unit → Proc α}
    {Q : α → World MemoryStorage → Prop}
    (hf : ∀ r w'', Handles id w w'' → (machine MemoryStorage).Ensures Eq (f r) Q w'') :
    (machine MemoryStorage).Ensures Eq ((storage (.updateFsmInstance inst)).bind f) Q w' := by
  refine ensures_storage.mpr ?_
  intro w₁ hw₁ now
  subst hw₁
  exact hf _ _ (hcarries.written now (.inl rfl))

/-! ## Evaluation -/

theorem evaluateTransitions_handles (hbus : cfg.eventBus = true) (hrun : inst.status = .running)
    (hcarries : Carries id w inst w') (definition : FsmDefinition) (currentState : String)
    (ti : Nat) (ts : List TransitionDefinition) :
    (machine MemoryStorage).Ensures Eq
      (evaluateTransitions cfg definition currentState ti ts inst)
      (fun _ w'' => Handles id w w'') w' := by
  induction ts generalizing ti inst w' with
  | nil => exact ensures_written hcarries fun _ _ h => h
  | cons t ts ih =>
    refine Machine.ensures_bind.mpr (Machine.Ensures.mono
      (shouldFire_carries hcarries currentState ti t) ?_)
    rintro ⟨fires, inst'⟩ w₁ ⟨hstatus, hcarries⟩
    have hrun : inst'.status = .running := hstatus.trans hrun
    simp only
    split
    · refine ensures_mark.mpr ?_
      intro w₂ hw₂
      subst hw₂
      have hmarked : KeepsEngine (fun _ => True) w₁
          { w₁ with marks := w₁.marks ++ [.fire inst' ti] } :=
        ⟨⟨fun _ _ => rfl, fun _ _ => rfl, List.Subset.refl _⟩, rfl⟩
      refine Machine.ensures_bind.mpr (Machine.Ensures.mono
        (fireTransition_carries hbus hrun (hcarries.keepsEngine hmarked) _ _ definition) ?_)
      intro inst'' w₃ hcarries
      exact ensures_written hcarries fun _ _ h => h
    · exact ih hrun hcarries (ti + 1)

/-- Evaluating a running instance that is not in a terminal state. -/
theorem evaluateInstance_handles (hbus : cfg.eventBus = true) (hrun : inst.status = .running)
    (htold : w.Announces inst.instanceId) (hcarries : Carries id w inst w)
    {definition : FsmDefinition}
    (hlive : (definition.states.lookup inst.currentState).all (!·.terminal) = true) :
    (machine MemoryStorage).Ensures Eq (evaluateInstance cfg inst definition)
      (fun _ w' => Handles id w w') w := by
  unfold evaluateInstance
  split
  · obtain ⟨rfl, hkeeps, -⟩ := hcarries
    exact ⟨hkeeps, htold⟩
  · rename_i stateDef hstate
    rw [hstate] at hlive
    have hterminal : ¬ stateDef.terminal = true := by simpa using hlive
    rw [if_neg hterminal]
    exact evaluateTransitions_handles hbus hrun hcarries definition _ _ _

omit [Extern] in
theorem Handles.canEvaluate (h : Handles id w w') (inst : FsmInstance) :
    w'.canEvaluate inst = w.canEvaluate inst := by
  rw [World.canEvaluate, h.keeps.definitions, World.canEvaluate]

end Programs

/-! ## The invariant -/

/-- Every instance has been announced, and of an id that was not drawn yet nothing is known. -/
structure World.Told (w : World MemoryStorage) : Prop where
  announces : ∀ id, w.Announces id
  undrawn : ∀ id, id ∉ w.issued →
    w.storage.fsmInstances.get? id = none ∧ w.completions id = []

namespace World.Told

variable {w w' : World MemoryStorage} {id : String} {inst : FsmInstance}

theorem keeps (h : w.Told) (hkeeps : KeepsInstances (fun _ => True) w w') : w'.Told where
  announces id inst hinst := by
    rw [hkeeps.completions id trivial]
    rw [hkeeps.instances id trivial] at hinst
    exact h.announces id inst hinst
  undrawn id hid := by
    rw [hkeeps.instances id trivial, hkeeps.completions id trivial]
    exact h.undrawn id fun hmem => hid (hkeeps.issued hmem)

theorem handles (h : w.Told) (hid : id ∈ w.issued) (hhandles : Handles id w w') : w'.Told := by
  obtain ⟨hkeeps, hannounces⟩ := hhandles
  constructor
  · intro k
    by_cases hk : k = id
    · rw [hk]
      exact hannounces
    · intro inst hinst
      rw [hkeeps.completions k hk]
      rw [hkeeps.instances k hk] at hinst
      exact h.announces k inst hinst
  · intro k hk
    have hfresh : k ∉ w.issued := fun hmem => hk (hkeeps.issued hmem)
    have hne : k ≠ id := fun heq => hfresh (heq ▸ hid)
    rw [hkeeps.instances k hne, hkeeps.completions k hne]
    exact h.undrawn k hfresh

/-- The id of a stored instance was drawn. -/
theorem drawn (h : w.Told) (hinst : w.storage.fsmInstances.get? id = some inst) :
    id ∈ w.issued := by
  by_contra hfresh
  rw [(h.undrawn id hfresh).1] at hinst
  cases hinst

/-- A stored instance is carried from where it is read. -/
theorem carries (h : w.Told) (hinst : w.storage.fsmInstances.get? id = some inst) :
    Carries id w inst w where
  instanceId := Table.key_of_get? hinst
  keeps := .refl _ w
  announced := h.announces id inst hinst

end World.Told

section Requests

variable [Extern] {cfg : ControllerConfig} {w : World MemoryStorage}

/-- The instances that are evaluated are stored, running and not at the end, each once. -/
structure World.Evaluates (w : World MemoryStorage) (insts : List FsmInstance) : Prop where
  ids : (insts.map FsmInstance.instanceId).Nodup
  stored : ∀ inst ∈ insts, w.storage.fsmInstances.get? inst.instanceId = some inst
  running : ∀ inst ∈ insts, inst.status = .running
  live : ∀ inst ∈ insts, w.canEvaluate inst = true

theorem evaluateEach_told (hbus : cfg.eventBus = true) {insts : List FsmInstance} (htold : w.Told)
    (hinsts : w.Evaluates insts) :
    (machine MemoryStorage).Ensures Eq (evaluateEach cfg insts) (fun _ w' => w'.Told) w := by
  induction insts generalizing w with
  | nil => exact htold
  | cons inst insts ih =>
    have hstored := hinsts.stored inst List.mem_cons_self
    have hrun := hinsts.running inst List.mem_cons_self
    obtain ⟨definition, hdefinition, hlive⟩ :=
      (Option.any_eq_true _ _).mp (hinsts.live inst List.mem_cons_self)
    obtain ⟨hnew, hids⟩ := List.nodup_cons.mp hinsts.ids
    refine ensures_reads (fun _ => rfl) fun now => ?_
    have hread : (Storage.call now (.getFsmDefinition inst.definitionName) w.storage).1 =
        .ok (some definition) := congrArg Except.ok hdefinition
    rw [hread]
    refine Machine.ensures_bind.mpr (Machine.Ensures.mono (evaluateInstance_handles hbus hrun
      (htold.announces _) (htold.carries hstored) hlive) ?_)
    intro _ w₂ hhandles
    refine ih (htold.handles (htold.drawn hstored) hhandles) ⟨hids, ?_, ?_, ?_⟩
    · intro u hu
      have hne : u.instanceId ≠ inst.instanceId := fun h => hnew (h ▸ List.mem_map_of_mem hu)
      rw [hhandles.keeps.instances _ hne]
      exact hinsts.stored u (List.mem_cons_of_mem _ hu)
    · intro u hu
      exact hinsts.running u (List.mem_cons_of_mem _ hu)
    · intro u hu
      rw [hhandles.canEvaluate]
      exact hinsts.live u (List.mem_cons_of_mem _ hu)

theorem evaluateAll_told (hbus : cfg.eventBus = true) (htold : w.Told)
    (hlive : EvaluatesLive w .evaluateAll) :
    (machine MemoryStorage).Ensures Eq (evaluateAll cfg) (fun _ w' => w'.Told) w := by
  refine ensures_reads (fun _ => rfl) fun now => ?_
  refine Machine.ensures_bind.mpr (Machine.Ensures.mono (evaluateEach_told hbus htold ?_) ?_)
  · have hstored (inst : FsmInstance) (hinst : inst ∈ w.storage.fsmInstances.rows.filter
        fun i => i.status == .running) : w.storage.fsmInstances.get? inst.instanceId = some inst ∧
          inst.status = .running ∧ w.canEvaluate inst = true := by
      obtain ⟨hrow, hstatus⟩ := List.mem_filter.mp hinst
      have hrun : inst.status = .running := by simpa using hstatus
      exact ⟨Table.mem_rows_iff.mp hrow, hrun, hlive inst hrow hrun⟩
    constructor
    · exact w.storage.fsmInstances.nodup.sublist (List.filter_sublist.map _)
    · exact fun inst hinst => (hstored inst hinst).1
    · exact fun inst hinst => (hstored inst hinst).2.1
    · exact fun inst hinst => (hstored inst hinst).2.2
  · intro _ w₂ htold
    exact ensures_reads (fun _ => rfl) fun _ => htold

theorem advanceInstance_told (hbus : cfg.eventBus = true) (htold : w.Told) (instanceId : String)
    (targetState : Option String) :
    (machine MemoryStorage).Ensures Eq (advanceInstance cfg instanceId targetState)
      (fun _ w' => w'.Told) w := by
  refine ensures_reads (fun _ => rfl) fun now => ?_
  split
  · exact htold
  · exact htold
  · rename_i inst hread
    have hstored : w.storage.fsmInstances.get? instanceId = some inst := Except.ok.inj hread
    split
    · exact htold
    · rename_i hnot
      have hrun : inst.status = .running := by simpa using hnot
      refine ensures_reads (fun _ => rfl) fun now => ?_
      split
      · exact htold
      · exact htold
      · rename_i definition _
        split
        · exact htold
        · split
          · exact htold
          · rename_i toState _
            refine Machine.ensures_bind.mpr (Machine.Ensures.mono
              (fireTransition_carries hbus hrun (htold.carries hstored) toState .manual
                definition) ?_)
            intro inst' w₃ hcarries
            refine ensures_written hcarries fun r w₄ hhandles => ?_
            have htold := htold.handles (htold.drawn hstored) hhandles
            cases r with
            | error e => exact htold
            | ok u => exact htold

/-- Cancelling writes first and tells afterwards. -/
theorem cancelInstance_told (hbus : cfg.eventBus = true) (htold : w.Told)
    (instanceId reason : String) :
    (machine MemoryStorage).Ensures Eq (cancelInstance cfg instanceId reason)
      (fun _ w' => w'.Told) w := by
  refine ensures_reads (fun _ => rfl) fun now => ?_
  split
  · exact htold
  · exact htold
  · rename_i inst hread
    have hstored : w.storage.fsmInstances.get? instanceId = some inst := Except.ok.inj hread
    split
    · exact htold
    · rename_i hnot
      have hrun : inst.status = .running := by simpa using hnot
      refine ensures_now fun updatedAt => ?_
      refine ensures_now fun timestamp => ?_
      have hid : inst.instanceId = instanceId := Table.key_of_get? hstored
      have hstored : w.storage.fsmInstances.get? inst.instanceId = some inst := hid ▸ hstored
      refine ensures_storage.mpr ?_
      intro w₁ hw₁ now
      subst hw₁
      have hwrites : (Storage.call now (.updateFsmInstance (inst.cancelled updatedAt timestamp
          reason)) w.storage).1 = .ok () := by
        show (w.storage.updateFsmInstance _).1 = _
        have hsome : (w.storage.fsmInstances.get? (inst.cancelled updatedAt timestamp
            reason).instanceId).isSome = true := Option.isSome_iff_exists.mpr ⟨inst, hstored⟩
        rw [MemoryStorage.updateFsmInstance, if_pos hsome]
      rw [hwrites]
      obtain ⟨hkeeps, hwritten⟩ := stored_written w now
        (c := .updateFsmInstance (inst.cancelled updatedAt timestamp reason)) (.inl rfl)
      refine Machine.ensures_bind.mpr (Machine.Ensures.mono (ensures_told hbus _ _) ?_)
      intro _ w₂ htells
      obtain ⟨hothers, hstorage, hcompletions⟩ := htells
      refine htold.handles (htold.drawn hstored) ⟨hkeeps.trans hothers, ?_⟩
      intro u hu
      rw [hstorage] at hu
      have hbefore : w.completions inst.instanceId = [] :=
        (htold.announces _ inst hstored).trans (FsmInstance.finalStatuses_running hrun)
      rw [hwritten u hu, hcompletions]
      exact congrArg (· ++ ["cancelled"]) hbefore

/-- An instance is started under an id that was not drawn before, and nobody is told. -/
theorem startFrom_told (htold : w.Told) (defName : String) (definition : FsmDefinition)
    (context : FsmContext) :
    (machine MemoryStorage).Ensures Eq (startFrom cfg defName definition context)
      (fun _ w' => w'.Told) w := by
  refine ensures_now fun now => ?_
  refine ensures_op.mpr ?_
  intro w₁ hw₁ y id w₂ hy
  subst hw₁
  have hfresh : id ∉ w.issued ∧ id ∈ w₂.issued := by
    simp only [World.exec] at hy
    split at hy
    · exact absurd hy (by simp)
    · cases hy
      exact ⟨‹_›, List.mem_cons_self⟩
  have hnothing := htold.undrawn id hfresh.1
  have hdrawn := keepsEngine_of_exec (o := .uuid) hy ⟨rfl, rfl⟩
  -- the new instance is carried from here on, and nobody knows of it
  have hcarries : Carries id w₂ (FsmInstance.new now id defName definition.initial context) w₂ :=
    ⟨rfl, .refl _ w₂, by
      rw [hdrawn.completions id trivial, hnothing.2, FsmInstance.finalStatuses_running rfl]⟩
  have htold := htold.keeps hdrawn.toKeepsInstances
  have hstored {context' : FsmContext} {w₃ : World MemoryStorage}
      (hkeeps : KeepsEngine (fun _ => True) w₂ w₃)
      {f : StorageResult Unit → Proc (Except PaciNetError FsmInstance)}
      (hf : ∀ r, (f r).Calls Op.StandsBy) :
      (machine MemoryStorage).Ensures Eq ((storage (.storeFsmInstance ((FsmInstance.new now id
        defName definition.initial context).setContext context'))).bind f)
        (fun _ w' => w'.Told) w₃ := by
    refine ensures_storage.mpr ?_
    intro w₄ hw₄ now'
    subst hw₄
    have hcopy : Carries id w₂ ((FsmInstance.new now id defName definition.initial
        context).setContext context') w₃ := (hcarries.keepsEngine hkeeps).copy rfl rfl
    have htold := htold.handles hfresh.2 (hcopy.written now' (.inr rfl))
    exact (ensures_keepsEngine (hf _)).mono fun _ _ hkeeps => htold.keeps hkeeps.toKeepsInstances
  simp only [Prog.bind_eq, Prog.pure_eq, Prog.done_bind]
  split
  · exact hstored (.refl _ w₂) fun r => by cases r <;> trivial
  · refine Machine.ensures_bind.mpr (Machine.Ensures.mono
      (ensures_keepsEngine (executeActionOf_standsBy cfg _ _).calls) ?_)
    intro context' w₃ hkeeps
    exact hstored hkeeps fun r => by cases r <;> trivial

theorem startInstance_told (htold : w.Told) (defName rulesYaml : String)
    (compileOptions : Option CompileOptions) :
    (machine MemoryStorage).Ensures Eq (startInstance cfg defName rulesYaml compileOptions)
      (fun _ w' => w'.Told) w := by
  refine ensures_reads (fun _ => rfl) fun now => ?_
  split
  · exact htold
  · exact htold
  · exact startFrom_told htold _ _ _

theorem startAdaptiveInstance_told (htold : w.Told) (defName : String) (rulesYaml : Option String)
    (compileOptions : Option CompileOptions) (targetLabelFilter : Labels) :
    (machine MemoryStorage).Ensures Eq
      (startAdaptiveInstance cfg defName rulesYaml compileOptions targetLabelFilter)
      (fun _ w' => w'.Told) w := by
  refine ensures_reads (fun _ => rfl) fun now => ?_
  split
  · exact htold
  · exact htold
  · refine ensures_reads (fun _ => rfl) fun now => ?_
    split
    · exact htold
    · exact htold
    · exact startFrom_told htold _ _ _

/-- **A request of the engine announces what it finishes**, if it evaluates live instances only. -/
theorem serve_told (hbus : cfg.eventBus = true) (htold : w.Told) {q : Request}
    (hengine : q.isEngine = true) (hlive : EvaluatesLive w q) :
    (machine MemoryStorage).Ensures Eq (serve cfg q) (fun _ w' => w'.Told) w := by
  have hreply {α : Type} {p : Proc α} {f : α → Reply}
      (hp : (machine MemoryStorage).Ensures Eq p (fun _ w' => w'.Told) w) :
      (machine MemoryStorage).Ensures Eq (p.reply f) (fun _ w' => w'.Told) w :=
    Machine.ensures_bind.mpr (hp.mono fun _ _ h => h)
  cases q with
  | startInstance => exact hreply (startInstance_told htold _ _ _)
  | startAdaptiveInstance => exact hreply (startAdaptiveInstance_told htold _ _ _ _)
  | evaluateAll => exact hreply (evaluateAll_told hbus htold hlive)
  | advanceInstance => exact hreply (advanceInstance_told hbus htold _ _)
  | cancelInstance => exact hreply (cancelInstance_told hbus htold _ _)
  | _ => cases hengine

omit [Extern] in
/-- From where nothing is stored and nothing was told. -/
theorem World.told_of_fresh (hrows : w.storage.fsmInstances.rows = [])
    (hevents : w.fsmEvents = []) : w.Told := by
  have hnone (id : String) : w.storage.fsmInstances.get? id = none := by
    rw [Table.get?_eq_none, hrows]
    exact fun u hu => absurd hu List.not_mem_nil
  have hnothing (id : String) : w.completions id = [] := by
    rw [completions, hevents]
    rfl
  refine ⟨fun id inst hinst => ?_, fun id _ => ⟨hnone id, hnothing id⟩⟩
  rw [hnone] at hinst
  cases hinst

theorem EngineRun.told (hbus : cfg.eventBus = true) {w₀ : World MemoryStorage}
    (h : EngineRun cfg EvaluatesLive w₀ w) (hfirst : w₀.Told) : w.Told := by
  induction h with
  | refl => exact hfirst
  | tail _ hstep ih =>
    cases hstep with
    | request hengine hlive hserves => exact hserves.ensures (serve_told hbus ih hengine hlive)
    | other hkeeps => exact ih.keeps hkeeps

end Requests

/-! ## The law -/

/-- **Every instance is announced exactly once when it has finished, and not before**, in every
    sequential run in which evaluations find live instances only. -/
theorem finishedAnnounced [Extern] (cfg : ControllerConfig) (hbus : cfg.eventBus = true)
    {w₀ w : World MemoryStorage} (hrows : w₀.storage.fsmInstances.rows = [])
    (hevents : w₀.fsmEvents = []) (h : EngineRun cfg EvaluatesLive w₀ w) (id : String) :
    w.Announces id :=
  (h.told hbus (World.told_of_fresh hrows hevents)).announces id

/-! ## Runs that can be computed -/

instance (w : World MemoryStorage) (q : Request) : Decidable (EvaluatesLive w q) :=
  match q with
  | .evaluateAll => inferInstanceAs (Decidable (∀ inst ∈ w.storage.fsmInstances.rows,
      inst.status = .running → w.canEvaluate inst = true))
  | .registerNode _ | .heartbeat _ | .removeNode _ | .deployPolicy _ | .batchDeployPolicy _
  | .rollbackPolicy _ _ | .restRemoveNode _ | .restDeployPolicy _ | .restBatchDeployPolicy _
  | .restRollbackPolicy _ _ | .batchTask _ _ _ | .recordAudit _ | .startInstance _ _ _
  | .startAdaptiveInstance _ _ _ _ | .advanceInstance _ _ | .cancelInstance _ _ =>
    inferInstanceAs (Decidable True)

/-- Serve a request alone, on given outside choices. -/
def serveAlone [Extern] (cfg : ControllerConfig) (w : World MemoryStorage)
    (l : Request × List Ext) : Option (World MemoryStorage) :=
  ((machine MemoryStorage).eval l.2 (serve cfg l.1) w).map Prod.snd

/-- A run of requests of the engine that can be computed and passes a check. -/
theorem exists_engineRun [Extern] (cfg : ControllerConfig)
    (C : World MemoryStorage → Request → Prop) [∀ w q, Decidable (C w q)]
    (requests : List (Request × List Ext)) (w : World MemoryStorage)
    (P : World MemoryStorage → Bool)
    (h : (runSteps (serveAlone cfg) (fun w l => l.1.isEngine = true ∧ C w l.1) requests w).any P) :
    ∃ w', EngineRun cfg C w w' ∧ P w' = true := by
  obtain ⟨w', hrun, hP⟩ := (Option.any_eq_true _ _).mp h
  refine ⟨w', Relation.ReflTransGen.mono ?_ _ _ (steps_of_runSteps hrun), hP⟩
  intro w₁ w₂ hstep
  obtain ⟨l, ⟨hengine, hl⟩, hstep⟩ := hstep
  obtain ⟨⟨reply, w₃⟩, heval, rfl⟩ := Option.map_eq_some_iff.mp hstep
  exact .request hengine hl (Machine.exec_of_eval (fun _ => rfl) heval)

/-- A controller with an event bus. -/
def busConfig : ControllerConfig := ⟨30, false, true⟩

/-- A rollout that starts in the given state and is done at the word of the operator. -/
def onApproval (initial : String) : FsmDefinition where
  name := "rollout"
  description := ""
  kind := .deployment
  initial := initial
  states := (∅ : AList fun _ : String => StateDefinition)
    |>.insert "done" ⟨none, [], true⟩
    |>.insert "staged" ⟨none, [⟨"done", some (.simple ⟨none, none, some true⟩), none⟩], false⟩

example : (onApproval "staged").validate = .ok () := by decide +kernel
example : (onApproval "done").validate = .ok () := by decide +kernel

/-- Only the definition is stored. -/
def World.defining (definition : FsmDefinition) : World MemoryStorage :=
  .init (MemoryStorage.new.storeFsmDefinition definition).2

/-- The rollout is started as "i1" and evaluated, in a number of operations. -/
def startAndEvaluate (evaluateOps : Nat) : List (Request × List Ext) :=
  [(.startInstance "rollout" "rules: [a]" none, List.replicate 4 (.quiet 0 "i1")),
   (.evaluateAll, List.replicate evaluateOps (.quiet 1 "i2"))]

/-- The instance "i1" has completed, and these statuses were told of it. -/
def World.completed (told : List String) (w : World MemoryStorage) : Bool :=
  (w.storage.fsmInstances.get? "i1").any (·.status == .completed) && w.completions "i1" == told

/-- A rollout that is evaluated once and then advanced by the operator. -/
theorem finishedAnnounced_onApproval :
    ∃ w, @EngineRun .sample busConfig EvaluatesLive (.defining (onApproval "staged")) w ∧
      w.completed ["completed"] = true ∧ w.Announces "i1" := by
  obtain ⟨w, hrun, hcompleted⟩ := @exists_engineRun .sample busConfig EvaluatesLive _
    (startAndEvaluate 5 ++ [(.advanceInstance "i1" none, List.replicate 8 (.quiet 2 "i3"))])
    (.defining (onApproval "staged")) (World.completed ["completed"]) (by decide +kernel)
  exact ⟨w, hrun, hcompleted, @finishedAnnounced .sample busConfig rfl _ _ rfl rfl hrun "i1"⟩

/-- A rollout that begins in a terminal state is completed by its first evaluation, and nobody is
    told. -/
theorem not_finishedAnnounced :
    ¬ ∀ w, @EngineRun .sample busConfig (fun _ _ => True) (.defining (onApproval "done")) w →
      ∀ id, w.Announces id := by
  intro h
  obtain ⟨w, hrun, hcompleted⟩ := @exists_engineRun .sample busConfig (fun _ _ => True) _
    (startAndEvaluate 5) (.defining (onApproval "done")) (World.completed []) (by decide +kernel)
  rw [World.completed, Bool.and_eq_true, beq_iff_eq] at hcompleted
  obtain ⟨hstatus, htold⟩ := hcompleted
  obtain ⟨inst, hstored, hdone⟩ := (Option.any_eq_true _ _).mp hstatus
  have hannounced := h w hrun "i1" inst hstored
  have hdone : inst.status = .completed := by simpa using hdone
  rw [htold, FsmInstance.finalStatuses_finished (by simp [hdone])] at hannounced
  cases hannounced

end PaciNet

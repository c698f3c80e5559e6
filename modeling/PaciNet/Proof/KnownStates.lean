import PaciNet.Core.Fsm.Valid
import PaciNet.Lib.Steps
import PaciNet.Proof.FsmContract
import PaciNet.Proof.FsmInterleaving
import PaciNet.Server.Methods

/-!
# The states of running instances

Definitions and instances are stored apart, and creating a definition replaces the one of its
name. An instance whose state the new definition does not have stays as it is for ever: it is
running, and every evaluation gives up on it. **The state of every running instance is a state of
the definition stored for it as long as no definition is replaced by one that lacks the state of a
running instance.** Nothing checks that.

The operations are executed one after the other here. While one is executed, everything but the
definitions and the instances may change.
-/

set_option autoImplicit false

namespace PaciNet

open Lib

/-! ## The law -/

/-- The operations on definitions and instances. -/
inductive FsmOperation where
  | createDefinition (definitionYaml : String)
  | deleteDefinition (name : String)
  | start (defName rulesYaml : String) (compileOptions : Option CompileOptions)
  | startAdaptive (defName : String) (rulesYaml : Option String)
      (compileOptions : Option CompileOptions) (targetLabelFilter : Labels)
  | advance (instanceId : String) (targetState : Option String)
  | cancel (instanceId reason : String)
  | evaluate

/-- The definitions and the instances are the same. -/
structure SameFsm (w w' : World MemoryStorage) : Prop where
  definitions : w'.storage.fsmDefinitions = w.storage.fsmDefinitions
  instances : w'.storage.fsmInstances = w.storage.fsmInstances

/-- Every running instance is in a state of the definition stored under its definition's name, if
    there is one. -/
def StatesKnown (w : World MemoryStorage) : Prop :=
  ∀ inst ∈ w.storage.fsmInstances.rows, inst.status = .running →
    ∀ d, w.storage.fsmDefinitions.get? inst.definitionName = some d →
      (d.states.lookup inst.currentState).isSome

section Law

variable [Extern] [Serde] (cfg : ControllerConfig)

/-- The program of an operation. -/
def FsmOperation.program : FsmOperation → Proc Unit
  | .createDefinition definitionYaml =>
    (createFsmDefinition definitionYaml).bind fun _ => .done ()
  | .deleteDefinition name => (deleteFsmDefinition name).bind fun _ => .done ()
  | .start defName rulesYaml compileOptions =>
    (startInstance cfg defName rulesYaml compileOptions).bind fun _ => .done ()
  | .startAdaptive defName rulesYaml compileOptions targetLabelFilter =>
    (startAdaptiveInstance cfg defName rulesYaml compileOptions targetLabelFilter).bind
      fun _ => .done ()
  | .advance instanceId targetState =>
    (advanceInstance cfg instanceId targetState).bind fun _ => .done ()
  | .cancel instanceId reason => (cancelInstance cfg instanceId reason).bind fun _ => .done ()
  | .evaluate => evaluateAll cfg

/-- A run of operations, each of them acceptable where it begins. -/
def FsmRun (C : World MemoryStorage → FsmOperation → Prop) :
    World MemoryStorage → World MemoryStorage → Prop :=
  Relation.ReflTransGen fun w w' => ∃ o, C w o ∧
    (machine MemoryStorage).Exec SameFsm (o.program cfg) w () w'

/-- In every run from a storage without definitions and instances, the states of the running
    instances are known. -/
def StatesAlwaysKnown (C : World MemoryStorage → FsmOperation → Prop) : Prop :=
  ∀ w w', w.storage.fsmDefinitions.rows = [] → w.storage.fsmInstances.rows = [] →
    FsmRun cfg C w w' → StatesKnown w'

/-- A definition that is created has the state of every running instance of its name. -/
def KeepsStates (w : World MemoryStorage) : FsmOperation → Prop
  | .createDefinition definitionYaml => ∀ d, parseDefinition grpc definitionYaml = .ok d →
      ∀ inst ∈ w.storage.fsmInstances.rows, inst.status = .running →
        inst.definitionName = d.name → (d.states.lookup inst.currentState).isSome
  | _ => True

end Law

/-! ## Writing definitions -/

/-- What holds between the operations. -/
structure FsmTables (w : World MemoryStorage) : Prop where
  valid : ∀ name d, w.storage.fsmDefinitions.get? name = some d → d.Valid
  states : StatesKnown w

theorem SameFsm.tables {w w' : World MemoryStorage} (h : SameFsm w w') (hw : FsmTables w) :
    FsmTables w' where
  valid := by rw [h.definitions]; exact hw.valid
  states := by
    intro inst hi
    rw [h.instances] at hi
    rw [h.definitions]
    exact hw.states inst hi

/-- A definition whose text is accepted is valid. -/
theorem valid_of_parse [Serde] {ε : Type} {P : Protocol ε} {yaml : String} {d : FsmDefinition}
    (h : parseDefinition P yaml = .ok d) : d.Valid := by
  simp only [parseDefinition] at h
  split at h
  · cases h
  · split at h
    · cases h
    · rename_i hvalid
      cases h
      exact FsmDefinition.valid_of_validate hvalid

/-- A new definition that has the states of the running instances. -/
theorem FsmTables.store {w : World MemoryStorage} {d : FsmDefinition} (hw : FsmTables w)
    (hd : d.Valid) (hkeeps : ∀ inst ∈ w.storage.fsmInstances.rows, inst.status = .running →
      inst.definitionName = d.name → (d.states.lookup inst.currentState).isSome) :
    FsmTables { w with storage := (w.storage.storeFsmDefinition d).2 } where
  valid name d' hget := by
    simp only [MemoryStorage.storeFsmDefinition, Table.get?_insert] at hget
    split at hget
    · cases hget
      exact hd
    · exact hw.valid name d' hget
  states inst hi hrun d' hget := by
    simp only [MemoryStorage.storeFsmDefinition, Table.get?_insert] at hget
    split at hget
    · rename_i hname
      cases hget
      exact hkeeps inst hi hrun hname
    · exact hw.states inst hi hrun d' hget

theorem FsmTables.delete {w : World MemoryStorage} (name : String) (hw : FsmTables w) :
    FsmTables { w with storage := (w.storage.deleteFsmDefinition name).2 } where
  valid name' d hget := by
    simp only [MemoryStorage.deleteFsmDefinition, Table.get?_erase] at hget
    split at hget
    · cases hget
    · exact hw.valid name' d hget
  states inst hi hrun d hget := by
    simp only [MemoryStorage.deleteFsmDefinition, Table.get?_erase] at hget
    split at hget
    · cases hget
    · exact hw.states inst hi hrun d hget

section Tables

variable [Extern] [Serde]

theorem createFsmDefinition_tables {yaml : String} {w : World MemoryStorage} (hw : FsmTables w)
    (hkeeps : KeepsStates w (.createDefinition yaml)) :
    (machine MemoryStorage).Ensures SameFsm (createFsmDefinition yaml)
      (fun _ w' => FsmTables w') w := by
  simp only [createFsmDefinition, storeDefinition]
  cases hparse : parseDefinition grpc yaml with
  | error e => exact hw
  | ok d =>
    intro w₁ hsame x r w₂ hx
    obtain ⟨rfl, rfl⟩ : _ ∧ _ := by simpa [machine, World.exec] using hx
    refine (hsame.tables hw).store (valid_of_parse hparse) fun inst hi => ?_
    rw [hsame.instances] at hi
    exact hkeeps d hparse inst hi

omit [Serde] in
theorem deleteFsmDefinition_tables (name : String) {w : World MemoryStorage} (hw : FsmTables w) :
    (machine MemoryStorage).Ensures SameFsm (deleteFsmDefinition name)
      (fun _ w' => FsmTables w') w := by
  intro w₁ hsame x r w₂ hx
  obtain ⟨rfl, rfl⟩ : _ ∧ _ := by simpa [machine, World.exec] using hx
  exact (hsame.tables hw).delete name

end Tables

/-! ## Moving instances -/

/-- What instances owe to the definitions in a table: a running one is in a state of its
    definition. -/
def stateContract (definitions : Table FsmDefinition.name) : FsmContract where
  Known name d := definitions.get? name = some d ∧ d.Valid
  Good inst := inst.status = .running → ∀ d, definitions.get? inst.definitionName = some d →
    (d.states.lookup inst.currentState).isSome

theorem stateContract_closed (definitions : Table FsmDefinition.name) :
    (stateContract definitions).Closed where
  started hknown _ d' hget := by
    obtain rfl := Option.some.inj (hknown.1.symm.trans hget)
    exact hknown.2.initial
  context h := h
  fired _ _ hknown hs ht _ d' hget := by
    obtain rfl := Option.some.inj (hknown.1.symm.trans hget)
    exact hknown.2.target _ _ hs _ ht
  completed _ _ _ _ _ hrun := by cases hrun
  updated h := h
  failed _ _ hrun := by cases hrun
  cancelled _ _ hrun := by cases hrun

/-- The two ways of saying it. -/
theorem FsmTables.holds {w : World MemoryStorage} (hw : FsmTables w) :
    (stateContract w.storage.fsmDefinitions).Holds w where
  known name d hget := ⟨hget, hw.valid name d hget⟩
  good inst hi hrun d hget := hw.states inst hi hrun d hget

theorem FsmTables.of_holds {definitions : Table FsmDefinition.name} {w : World MemoryStorage}
    (h : (stateContract definitions).Holds w) : FsmTables w where
  valid name d hget := (h.known name d hget).2
  states inst hi hrun d hget := h.good inst hi hrun d (h.known _ d hget).1

/-! ## Runs -/

section Runs

variable [Extern] [Serde] (cfg : ControllerConfig)

omit [Serde] in
/-- A program of the engine keeps the tables as they should be. -/
theorem FsmTables.ran {α : Type} {p : Proc α}
    (hp : ∀ definitions, p.wp (stateContract definitions).monitor (fun _ _ => True) ())
    {w w' : World MemoryStorage} {a : α} (h : (machine MemoryStorage).Exec SameFsm p w a w')
    (hw : FsmTables w) : FsmTables w' := by
  refine .of_holds (.ran ?_ (hp w.storage.fsmDefinitions) h hw.holds)
  intro w₁ w₂ hsame hholds
  constructor
  · rw [hsame.definitions]
    exact hholds.known
  · rw [hsame.instances]
    exact hholds.good

/-- **Every operation that does not take the state of a running instance away keeps the states
    known.** -/
theorem FsmTables.step {o : FsmOperation} {w w' : World MemoryStorage} (hw : FsmTables w)
    (ho : KeepsStates w o) (h : (machine MemoryStorage).Exec SameFsm (o.program cfg) w () w') :
    FsmTables w' := by
  have ended {α : Type} {p : Proc α} {K : FsmContract}
      (hp : p.wp K.monitor (fun _ _ => True) ()) :
      (p.bind fun _ => .done ()).wp K.monitor (fun _ (_ : Unit) => True) () :=
    Prog.wp_bind.2 (hp.mono fun _ _ _ => trivial)
  cases o with
  | createDefinition definitionYaml =>
    exact h.ensures (Q := fun _ w => FsmTables w)
      (Machine.ensures_bind.2 (createFsmDefinition_tables hw ho))
  | deleteDefinition name =>
    exact h.ensures (Q := fun _ w => FsmTables w)
      (Machine.ensures_bind.2 (deleteFsmDefinition_tables name hw))
  | start defName rulesYaml compileOptions =>
    exact hw.ran (fun _ => ended (FsmContract.startInstance_keeps cfg (stateContract_closed _)
      defName rulesYaml compileOptions)) h
  | startAdaptive defName rulesYaml compileOptions targetLabelFilter =>
    exact hw.ran (fun _ => ended (FsmContract.startAdaptiveInstance_keeps cfg
      (stateContract_closed _) defName rulesYaml compileOptions targetLabelFilter)) h
  | advance instanceId targetState =>
    exact hw.ran (fun _ => ended (FsmContract.advanceInstance_keeps cfg (stateContract_closed _)
      instanceId targetState)) h
  | cancel instanceId reason =>
    exact hw.ran (fun _ => ended (FsmContract.cancelInstance_keeps cfg (stateContract_closed _)
      instanceId reason)) h
  | evaluate =>
    exact hw.ran (fun _ => FsmContract.evaluateAll_keeps cfg (stateContract_closed _)) h

/-- **The states of running instances are known throughout every run** in which no definition
    is replaced by one that lacks them. -/
theorem statesAlwaysKnown : StatesAlwaysKnown cfg KeepsStates := by
  intro w w' hdefinitions hinstances hrun
  have hw : FsmTables w := by
    constructor
    · intro name d hget
      have := (Table.get?_eq_some.1 hget).1
      rw [hdefinitions] at this
      exact absurd this List.not_mem_nil
    · intro inst hi
      rw [hinstances] at hi
      exact absurd hi List.not_mem_nil
  have hend : FsmTables w' := by
    induction hrun with
    | refl => exact hw
    | tail _ hstep ih =>
      obtain ⟨o, ho, hexec⟩ := hstep
      exact ih.step cfg ho hexec
  exact hend.states

omit [Extern] in
/-- The decidable form of `KeepsStates`. -/
def keepsStates (w : World MemoryStorage) : FsmOperation → Bool
  | .createDefinition definitionYaml =>
    (parseDefinition grpc definitionYaml).toOption.all fun d =>
      w.storage.fsmInstances.rows.all fun inst => decide (inst.status = .running →
        inst.definitionName = d.name → (d.states.lookup inst.currentState).isSome)
  | _ => true

omit [Extern] in
theorem keepsStates_sound {w : World MemoryStorage} {o : FsmOperation}
    (h : keepsStates w o = true) : KeepsStates w o := by
  cases o with
  | createDefinition definitionYaml =>
    intro d hparse inst hi
    simp only [keepsStates, hparse, Except.toOption, Option.all_some] at h
    exact of_decide_eq_true (List.all_eq_true.1 h inst hi)
  | _ => trivial

/-- Perform operations with the given outside choices, as long as they are acceptable. -/
def performAll (ok : World MemoryStorage → FsmOperation → Bool) :
    List (FsmOperation × List Ext) → World MemoryStorage → Option (World MemoryStorage)
  | [], w => some w
  | (o, xs) :: rest, w =>
    if ok w o then
      ((machine MemoryStorage).eval xs (o.program cfg) w).bind fun r => performAll ok rest r.2
    else none

theorem fsmRun_of_performAll {ok : World MemoryStorage → FsmOperation → Bool}
    {C : World MemoryStorage → FsmOperation → Prop} (hok : ∀ w o, ok w o = true → C w o)
    {os : List (FsmOperation × List Ext)} {w w' : World MemoryStorage}
    (h : performAll cfg ok os w = some w') : FsmRun cfg C w w' := by
  induction os generalizing w with
  | nil =>
    cases h
    exact .refl
  | cons e rest ih =>
    rw [performAll] at h
    split at h
    · rename_i hacceptable
      obtain ⟨⟨u, w₁⟩, heval, hrest⟩ := Option.bind_eq_some_iff.1 h
      exact .head ⟨e.1, hok _ _ hacceptable, Machine.exec_of_eval (fun _ => ⟨rfl, rfl⟩) heval⟩
        (ih hrest)
    · exact absurd h (by simp)

end Runs

/-! ## Losing a state -/

/-- The canary without its first state. -/
def canaryOfHalf : FsmDefinition :=
  { canary with initial := "half", states := canary.states.erase "staged" }

/-- The texts of the two definitions. -/
@[reducible] def Serde.sample : Serde where
  fromYaml s := if s = "canary" then .ok canary else .ok canaryOfHalf
  toYaml d := .ok d.name
  annotationsJson _ _ := ""

/-- The canary is created, started, promoted, and created again without the state it was in. -/
theorem statesAlwaysKnown_promoted : ∃ w,
    @FsmRun .sample .sample plainConfig (@KeepsStates .sample) (.init .new) w ∧
      (∃ d, w.storage.fsmDefinitions.get? "canary" = some d ∧ d.states.lookup "staged" = none) ∧
        (∃ inst ∈ w.storage.fsmInstances.rows, inst.status = .running ∧
          inst.definitionName = "canary") ∧ StatesKnown w := by
  have hrun : (@performAll .sample .sample plainConfig (@keepsStates .sample)
      [(.createDefinition "canary", [.quiet 0 ""]),
        (.start "canary" "rules: [a]" none, List.replicate 4 (.quiet 0 "i1")),
        (.advance "i1" none, List.replicate 4 (.quiet 1 "")),
        (.createDefinition "canary of half", [.quiet 0 ""])]
      (.init .new)).any (fun w =>
        (w.storage.fsmDefinitions.get? "canary").any (fun (d : FsmDefinition) =>
          (d.states.lookup "staged").isNone) &&
            w.storage.fsmInstances.rows.any fun (inst : FsmInstance) =>
              decide (inst.status = .running ∧ inst.definitionName = "canary")) := by
    decide +kernel
  obtain ⟨w, hw, hend⟩ := Option.any_eq_true _ _ |>.1 hrun
  obtain ⟨hdefinition, hinst⟩ := Bool.and_eq_true_iff.1 hend
  obtain ⟨d, hd, hnone⟩ := Option.any_eq_true _ _ |>.1 hdefinition
  obtain ⟨inst, hi, hinst⟩ := List.any_eq_true.1 hinst
  have hsteps := @fsmRun_of_performAll .sample .sample plainConfig _ _
    (fun _ _ => @keepsStates_sound .sample _ _) _ _ _ hw
  exact ⟨w, hsteps, ⟨d, hd, Option.isNone_iff_eq_none.1 hnone⟩,
    ⟨inst, hi, of_decide_eq_true hinst⟩,
    @statesAlwaysKnown .sample .sample plainConfig _ _ rfl rfl hsteps⟩

/-- The canary is created, started, and created again without the state it is in. -/
theorem not_statesAlwaysKnown :
    ¬ @StatesAlwaysKnown .sample .sample plainConfig fun _ _ => True := by
  intro h
  have hrun : (@performAll .sample .sample plainConfig (fun _ _ => true)
      [(.createDefinition "canary", [.quiet 0 ""]),
        (.start "canary" "rules: [a]" none, List.replicate 4 (.quiet 0 "i1")),
        (.createDefinition "canary of half", [.quiet 0 ""])]
      (.init .new)).any (fun w => w.storage.fsmInstances.rows.any fun (inst : FsmInstance) =>
        decide (inst.status = .running) &&
          (w.storage.fsmDefinitions.get? inst.definitionName).any fun (d : FsmDefinition) =>
            (d.states.lookup inst.currentState).isNone) := by decide +kernel
  obtain ⟨w, hw, hlost⟩ := Option.any_eq_true _ _ |>.1 hrun
  obtain ⟨inst, hi, hlost⟩ := List.any_eq_true.1 hlost
  obtain ⟨hstatus, hlost⟩ := Bool.and_eq_true_iff.1 hlost
  obtain ⟨d, hd, hnone⟩ := Option.any_eq_true _ _ |>.1 hlost
  have hsteps := @fsmRun_of_performAll .sample .sample plainConfig _ _
    (fun _ _ _ => trivial) _ _ _ hw
  have hknown := h (.init .new) w rfl rfl hsteps inst hi (of_decide_eq_true hstatus) d hd
  rw [Option.isNone_iff_eq_none.1 hnone] at hknown
  cases hknown

end PaciNet

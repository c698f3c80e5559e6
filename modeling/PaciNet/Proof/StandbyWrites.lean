import PaciNet.Proof.KnownStates
import PaciNet.Proof.Standby

/-!
# The writes of a standby

Each gRPC request that writes does so on a standby too: for each there is a storage in which it
changes something, or asks an agent, when the standby serves it alone.
-/

set_option autoImplicit false

namespace PaciNet

open Lib

/-- A standby with the given storage. -/
def World.standby (s : MemoryStorage) : World MemoryStorage := { World.init s with leader := false }

/-! ## Runs that refute -/

section Refute

variable [Extern] [Serde] (state : ManagementState) {w : World MemoryStorage}
  {q : ManagementRequest}

/-- What a program reaches on its own, the management API reaches. -/
theorem management_reach {α : Type} {p p' : Proc α} {w' : World MemoryStorage}
    (h : (machine MemoryStorage).Reach p w p' w') :
    (management state MemoryStorage).toMachine.Reach p w p' w' := by
  refine h.of_exec fun x o s r s' hx => ?_
  show (World.exec x o s).map _ = _
  rw [show World.exec x o s = some (r, s', []) from hx]
  rfl

/-- The request comes to an end and has changed the storage. -/
theorem writes_of_finishes (hleader : w.leader = false)
    (h : (machine MemoryStorage).Finishes (fun _ w' => w'.storage ≠ w.storage)
      (q.program state) w) : ¬ WritesNothing state MemoryStorage q := by
  intro hnothing
  obtain ⟨u, w', hreach, hne⟩ := h
  obtain ⟨t, hrun, hdone⟩ := System.steps_of_reach_alone (Y := management state MemoryStorage)
    (C := ServedAlone) (management_reach state hreach) (fun _ _ _ => trivial)
    (t := (management state MemoryStorage).start (.request q)) rfl
  exact hne ((hnothing w _ hleader hrun).2 fun t' ht => List.mem_singleton.1 ht ▸ hdone)

/-- The request has asked an agent. -/
theorem writes_of_asks (hleader : w.leader = false)
    (h : (machine MemoryStorage).Can (fun w' => w'.sent ≠ w.sent) (q.program state) w) :
    ¬ WritesNothing state MemoryStorage q := by
  intro hnothing
  obtain ⟨p', w', hreach, hne⟩ := h
  obtain ⟨t, hrun, -⟩ := System.steps_of_reach_alone (Y := management state MemoryStorage)
    (C := ServedAlone) (management_reach state hreach) (fun _ _ _ => trivial)
    (t := (management state MemoryStorage).start (.request q)) rfl
  exact hne (hnothing w _ hleader hrun).1

end Refute

section Rules

variable [Extern] {α β ε : Type} {w : World MemoryStorage} {P : Protocol ε}

/-- A storage call that is answered with `r`. -/
theorem finishes_storage {Q : α → World MemoryStorage → Prop} {c : StorageCall} {f : c.Res → Proc α}
    {r : c.Res} {s : MemoryStorage} (hc : Storage.call 0 c w.storage = (r, s))
    (h : (machine MemoryStorage).Finishes Q (f r) { w with storage := s }) :
    (machine MemoryStorage).Finishes Q
      (@Prog.bind Op Op.Res (no_index c.Res) α (storage c) f) w := by
  have hx : World.exec (.quiet 0 "") (.storage c) w = some (r, { w with storage := s }, []) := by
    simp only [Ext.quiet, World.exec, hc]
  exact .perform _ hx h

/-- `blocking(..).await?` on a call that succeeds. -/
theorem finishes_blocking {Q : Except ε β → World MemoryStorage → Prop}
    {p : Proc (StorageResult α)} {f : α → Proc (Except ε β)}
    (h : (machine MemoryStorage).Finishes (fun r w' => ∃ a, r = .ok a ∧
      (machine MemoryStorage).Finishes Q (f a) w') p w) :
    (machine MemoryStorage).Finishes Q (blocking P p f) w := by
  refine .bind (.bind (h.mono ?_))
  rintro _ w' ⟨a, rfl, ha⟩
  exact .done ha

theorem finishes_call {c : StorageCall} {Q : c.Res → World MemoryStorage → Prop} {r : c.Res}
    {s : MemoryStorage} (hc : Storage.call 0 c w.storage = (r, s))
    (h : Q r { w with storage := s }) : (machine MemoryStorage).Finishes Q (storage c) w := by
  have hx : World.exec (.quiet 0 "") (.storage c) w = some (r, { w with storage := s }, []) := by
    simp only [Ext.quiet, World.exec, hc]
  exact ⟨r, _, .step _ hx .refl, h⟩

/-- Without an event bus nothing is emitted, and with one the event is. -/
theorem finishes_emitFsm {cfg : ControllerConfig} {e : DateTime → FsmEvent}
    {Q : α → World MemoryStorage → Prop} {f : Unit → Proc α}
    (h : ∀ w' : World MemoryStorage, w'.storage = w.storage →
      (machine MemoryStorage).Finishes Q (f ()) w') :
    (machine MemoryStorage).Finishes Q ((emitFsm cfg e).bind f) w := by
  unfold emitFsm
  split
  · exact .perform (.quiet 0 "") rfl (.perform (.quiet 0 "") rfl (h _ rfl))
  · exact h w rfl

theorem finishes_emitNode {cfg : ControllerConfig} {e : DateTime → NodeEvent}
    {Q : α → World MemoryStorage → Prop} {f : Unit → Proc α}
    (h : ∀ w' : World MemoryStorage, w'.storage = w.storage →
      (machine MemoryStorage).Finishes Q (f ()) w') :
    (machine MemoryStorage).Finishes Q ((emitNode cfg e).bind f) w := by
  unfold emitNode
  split
  · exact .perform (.quiet 0 "") rfl (.perform (.quiet 0 "") rfl (h _ rfl))
  · exact h w rfl

end Rules

/-! ## Deploys -/

/-- Every capability there is. -/
def allCapabilities : Labels :=
  (∅ : Labels)
    |>.insert "compile.axi" "true" |>.insert "compile.ports" "true"
    |>.insert "compile.dynamic" "true" |>.insert "compile.width" "true"
    |>.insert "compile.target" "true" |>.insert "compile.ptp" "true"
    |>.insert "compile.rss" "true" |>.insert "compile.rss_queues" "true"
    |>.insert "compile.int" "true" |>.insert "compile.int_switch_id" "true"

/-- A node that has them. -/
def Node.capable (nodeId : String) (labels : Labels) : Node :=
  { Node.new 0 nodeId "" "" labels "" with capabilities := allCapabilities }

/-- It accepts all options. -/
theorem ensureNodeCapabilities_capable (nodeId : String) (labels : Labels)
    (options : CompileOptions) :
    ensureNodeCapabilities (.capable nodeId labels) options = .ok () := by
  have hkeys : ∀ key ∈ ["compile.axi", "compile.ports", "compile.dynamic", "compile.width",
      "compile.target", "compile.ptp", "compile.rss", "compile.rss_queues", "compile.int",
      "compile.int_switch_id"],
      (allCapabilities.lookup key).any fun v => asciiLowercase v == "true" := by decide +kernel
  have hall : ∀ r ∈ requiredCapabilities options, capabilityTrue (.capable nodeId labels) r.2 :=
    fun r hr => hkeys r.2 (List.mem_map_of_mem (f := Prod.snd) hr)
  have hnone : (requiredCapabilities options).find?
      (fun r => r.1 && !capabilityTrue (.capable nodeId labels) r.2) = none := by
    rw [List.find?_eq_none]
    intro r hr
    simp [hall r hr]
  simp only [ensureNodeCapabilities, hnone]

section Deploys

variable [Extern] (cfg : ControllerConfig)

/-- A deploy to a capable node that is not active asks the agent. -/
theorem deployToNode_asks (nodeId : String) (labels : Labels) (rulesYaml : String)
    (options : CompileOptions) (w : World MemoryStorage) :
    (machine MemoryStorage).Can (fun w' => w'.sent ≠ w.sent)
      (deployToNode cfg (.capable nodeId labels) rulesYaml options) w := by
  let x : Ext := .quiet 0 ""
  refine .perform x rfl (.bind ?_)
  simp only [deployToNodeBody, ensureNodeCapabilities_capable, Prog.bind_eq]
  refine .perform x rfl ?_
  show (machine MemoryStorage).Can _ (storeAndForward cfg _ _ _ _) _
  refine .perform x rfl (.perform x rfl (.perform x rfl (.perform x rfl (.here ?_))))
  intro h
  simpa [World.send, World.strand] using congrArg List.length h

/-- So does a guarded one, if the guard is free. -/
theorem guarded_asks {α : Type} {nodeId : String} {labels : Labels} {rulesYaml : String}
    {options : CompileOptions} {k : StorageResult Unit → Proc α} {f : DeployOutcome → Proc α}
    {w : World MemoryStorage} (hfree : nodeId ∉ w.storage.deploying)
    (hk : k (.ok ()) = (deployToNode cfg (.capable nodeId labels) rulesYaml options).bind
      fun outcome => (storage (.endDeploy nodeId)).bind fun _ => f outcome) :
    (machine MemoryStorage).Can (fun w' => w'.sent ≠ w.sent)
      ((storage (.beginDeploy nodeId)).bind k) w := by
  have hbegin : w.storage.beginDeploy nodeId =
      (.ok (), { w.storage with deploying := insert nodeId w.storage.deploying }) := if_neg hfree
  refine can_storage 0 hbegin ?_
  rw [hk]
  exact .bind (deployToNode_asks cfg nodeId labels rulesYaml options
    { w with storage := { w.storage with deploying := insert nodeId w.storage.deploying } })

end Deploys

/-! ## Each method that writes -/

section Methods

variable [Extern] [Serde] (state : ManagementState)

theorem grpc_writes {q : GrpcRequest} {s : MemoryStorage}
    (h : (machine MemoryStorage).Finishes (fun _ w' => w'.storage ≠ s) (serveGrpc state q)
      (.standby s)) : ¬ WritesNothing state MemoryStorage (.grpc q) :=
  writes_of_finishes state (w := .standby s) rfl (.bind (h.mono fun _ _ hne => .done hne))

theorem grpc_asks {q : GrpcRequest} {s : MemoryStorage}
    (h : (machine MemoryStorage).Can (fun w' => w'.sent ≠ []) (serveGrpc state q)
      (.standby s)) : ¬ WritesNothing state MemoryStorage (.grpc q) :=
  writes_of_asks state (w := .standby s) rfl (.bind h)

theorem removeNode_writes (nodeId : String) :
    ¬ WritesNothing state MemoryStorage (.grpc (.removeNode nodeId)) := by
  let s := (MemoryStorage.new.registerNode (.capable nodeId ∅)).2
  have hget : s.nodes.get? nodeId = some (.capable nodeId ∅) :=
    Table.get?_eq_some.2 ⟨Table.mem_rows_insert.2 (.inl rfl), rfl⟩
  have hremove : s.removeNode nodeId = (.ok true, (s.removeNode nodeId).2) := by
    simp only [MemoryStorage.removeNode, hget, Option.isSome_some]
  have hne : (s.removeNode nodeId).2 ≠ s := by
    intro h
    have := congrArg (fun s : MemoryStorage => s.nodes.get? nodeId) h
    simp [MemoryStorage.removeNode, hget] at this
  refine grpc_writes state (s := s) ?_
  show (machine MemoryStorage).Finishes _ ((nodeForEvent state.config nodeId).bind _) _
  refine .bind (Machine.Finishes.mono (Q := fun _ w' => w'.storage = s) ?_ ?_)
  · unfold nodeForEvent
    split
    · exact finishes_storage rfl (.done rfl)
    · exact .done rfl
  · intro before w' hw'
    have hcall : Storage.call 0 (.removeNode nodeId) w'.storage =
        (.ok true, (s.removeNode nodeId).2) := by rw [hw']; exact hremove
    refine finishes_storage hcall ?_
    cases before with
    | none => exact .done hne
    | some node => exact finishes_emitNode fun w'' hw'' => .done (by rw [hw'']; exact hne)

theorem deleteFsmDefinition_writes (name : String) :
    ¬ WritesNothing state MemoryStorage (.grpc (.deleteFsmDefinition name)) := by
  let s := (MemoryStorage.new.storeFsmDefinition { canary with name := name }).2
  have hget : s.fsmDefinitions.get? name = some { canary with name := name } :=
    Table.get?_eq_some.2 ⟨Table.mem_rows_insert.2 (.inl rfl), rfl⟩
  refine grpc_writes state (s := s) (.perform (.quiet 0 "") rfl (.done ?_))
  refine ne_of_apply_ne (fun s : MemoryStorage => s.fsmDefinitions.get? name) ?_
  show (s.fsmDefinitions.erase name).get? name ≠ s.fsmDefinitions.get? name
  simp [hget]

theorem createFsmDefinition_writes {yaml : String} {d : FsmDefinition}
    (h : parseDefinition grpc yaml = .ok d) :
    ¬ WritesNothing state MemoryStorage (.grpc (.createFsmDefinition yaml)) := by
  refine grpc_writes state (s := .new) ?_
  simp only [serveGrpc, createFsmDefinition, storeDefinition, h]
  refine .perform (.quiet 0 "") rfl (.done ?_)
  refine ne_of_apply_ne (fun s : MemoryStorage => s.fsmDefinitions.get? d.name) ?_
  show (Table.insert _ d).get? d.name ≠ none
  simp

theorem createPolicyTemplate_writes (req : CreateTemplateRequest) :
    ¬ WritesNothing state MemoryStorage (.grpc (.createPolicyTemplate req)) := by
  refine grpc_writes state (s := .new) ?_
  refine .perform (.quiet 0 "") rfl (.perform (.quiet 0 "") rfl (.done ?_))
  refine ne_of_apply_ne (fun s : MemoryStorage => s.templates.get? req.name) ?_
  show (Table.insert _ (req.template 0)).get? (req.template 0).name ≠ none
  simp

theorem deletePolicyTemplate_writes (name : String) :
    ¬ WritesNothing state MemoryStorage (.grpc (.deletePolicyTemplate name)) := by
  let template : PolicyTemplate := ⟨name, "", "", [], 0, 0⟩
  let s := (MemoryStorage.new.storeTemplate template).2
  have hget : s.templates.get? name = some template :=
    Table.get?_eq_some.2 ⟨Table.mem_rows_insert.2 (.inl rfl), rfl⟩
  have hdelete : Storage.call 0 (.deleteTemplate name) s =
      (.ok true, (s.deleteTemplate name).2) := by
    simp only [Storage.call, MemoryStorage.deleteTemplate, hget, Option.isSome_some]
  refine grpc_writes state (s := s) ?_
  refine finishes_blocking ?_
  refine finishes_call (w := .standby s) hdelete ⟨true, rfl, .done ?_⟩
  refine ne_of_apply_ne (fun s : MemoryStorage => s.templates.get? name) ?_
  show (s.templates.erase name).get? name ≠ s.templates.get? name
  simp [hget]

omit [Extern] [Serde] in
/-- Keys that are removed are not there any more. -/
theorem lookup_removed {m : Labels} {ks : List String} {k : String}
    (h : k ∈ ks ∨ m.lookup k = none) : (ks.foldl (fun m k => m.erase k) m).lookup k = none := by
  induction ks generalizing m with
  | nil => exact h.resolve_left List.not_mem_nil
  | cons k' ks ih =>
    refine ih ?_
    by_cases hk : k = k'
    · exact .inr (by rw [hk, AList.lookup_erase])
    · rcases h with h | h
      · exact .inl ((List.mem_cons.1 h).resolve_left hk)
      · exact .inr (by rw [AList.lookup_erase_ne hk, h])

omit [Extern] [Serde] in
/-- Setting or removing annotations changes those of some node. -/
theorem exists_annotated {set : Labels} {remove : List String} (h : set ≠ ∅ ∨ remove ≠ []) :
    ∃ a : Labels, MemoryStorage.annotate a set remove ≠ a := by
  by_cases hset : set = ∅
  · -- only removals: a node with the first of the keys loses it
    subst hset
    obtain ⟨k, ks, rfl⟩ := List.exists_cons_of_ne_nil (h.resolve_left fun h => h rfl)
    refine ⟨(∅ : Labels).insert k "", fun heq => ?_⟩
    have hgone := congrArg (AList.lookup k) heq
    rw [AList.lookup_insert] at hgone
    have hnone : ((k :: ks).foldl (fun m k => m.erase k) ((∅ : Labels).insert k "")).lookup k =
        none := lookup_removed (.inl (List.mem_cons_self ..))
    cases hnone.symm.trans hgone
  · -- a node without annotations gets the last of those that are set
    rcases List.eq_nil_or_concat set.entries with hnil | ⟨es, e, hes⟩
    · exact absurd (AList.ext hnil) hset
    · refine ⟨∅, fun heq => ?_⟩
      have hlast := congrArg (AList.lookup e.1) heq
      simp only [MemoryStorage.annotate, hes, List.concat_eq_append, List.foldl_append,
        List.foldl_cons, List.foldl_nil, AList.lookup_insert] at hlast
      cases hlast

theorem setNodeAnnotations_writes {nodeId : String} {set : Labels} {remove : List String}
    (h : set ≠ ∅ ∨ remove ≠ []) :
    ¬ WritesNothing state MemoryStorage (.grpc (.setNodeAnnotations nodeId set remove)) := by
  obtain ⟨annotations, hne⟩ := exists_annotated h
  let node : Node := { Node.capable nodeId ∅ with annotations := annotations }
  let s := (MemoryStorage.new.registerNode node).2
  have hget : s.nodes.get? nodeId = some node :=
    Table.get?_eq_some.2 ⟨Table.mem_rows_insert.2 (.inl rfl), rfl⟩
  have hupdate : Storage.call 0 (.updateAnnotations nodeId set remove) s =
      (.ok (), (s.updateAnnotations nodeId set remove).2) := by
    simp only [Storage.call, MemoryStorage.updateAnnotations, hget, Option.isSome_some, if_true]
  refine grpc_writes state (s := s) ?_
  refine finishes_blocking ?_
  refine finishes_call (w := .standby s) hupdate ⟨(), rfl, .done ?_⟩
  refine ne_of_apply_ne (fun s : MemoryStorage => s.nodes.get? nodeId) ?_
  show (s.updateAnnotations nodeId set remove).2.nodes.get? nodeId ≠ s.nodes.get? nodeId
  rw [MemoryStorage.updateAnnotations_snd, Table.get?_modify, if_pos rfl, hget]
  intro hsame
  exact hne (congrArg Node.annotations (Option.some.inj hsame))

/-! ### The engine -/

omit [Extern] [Serde] in
/-- A definition with one state, which one can leave for the given state. -/
def oneState (name target : String) : FsmDefinition :=
  { canary with
    name := name
    initial := "only"
    states := (∅ : AList fun _ : String => StateDefinition).insert "only"
      ⟨none, [⟨target, none, none⟩], false⟩ }

omit [Serde] in
/-- An instance of a definition without an action is stored. -/
theorem startFrom_writes (cfg : ControllerConfig) (name : String) (context : FsmContext)
    {w : World MemoryStorage} (hissued : w.issued = []) (hfresh : w.storage.fsmInstances.rows = []) :
    (machine MemoryStorage).Finishes (fun _ w' => w'.storage ≠ w.storage)
      (startFrom cfg name (oneState name "only") context) w := by
  have huuid : World.exec (.quiet 0 "id") .uuid w = some ("id", { w with issued := ["id"] }, []) := by
    simp [World.exec, Ext.quiet, hissued]
  refine .perform (.quiet 0 "") rfl (.perform _ huuid ?_)
  simp only [oneState, executeActionOf, Prog.bind_eq]
  refine .perform (.quiet 0 "") rfl (.done ?_)
  refine ne_of_apply_ne (fun s : MemoryStorage => s.fsmInstances.rows) ?_
  rw [hfresh]
  exact List.ne_nil_of_mem (Table.mem_rows_insert.2 (.inl rfl))

theorem startFsm_writes {req : StartFsmRequest} (h : state.fsmEngine) :
    ¬ WritesNothing state MemoryStorage (.grpc (.startFsm req)) := by
  let s := ((MemoryStorage.new.storeFsmDefinition (oneState req.definitionName "only")).2.registerNode
    (.capable "n" req.targetLabelFilter)).2
  have hdefinition : Storage.call 0 (.getFsmDefinition req.definitionName) s =
      (.ok (some (oneState req.definitionName "only")), s) :=
    congrArg (fun d => (Except.ok d, s))
      (Table.get?_eq_some.2 ⟨Table.mem_rows_insert.2 (.inl rfl), rfl⟩)
  have hmatches : (Node.capable "n" req.targetLabelFilter).matchesLabels req.targetLabelFilter := by
    refine List.all_eq_true.2 fun e he => ?_
    exact beq_iff_eq.2 (AList.mem_lookup_iff.2 he)
  have hnodes : Storage.call 0 (.listNodes req.targetLabelFilter) s =
      (.ok [.capable "n" req.targetLabelFilter], s) :=
    congrArg (fun nodes => (Except.ok nodes, s)) (List.filter_cons_of_pos hmatches)
  refine grpc_writes state (s := s) ?_
  simp only [serveGrpc, withEngine, h, if_true, startOnEngine, Prog.bind_eq]
  refine .bind ?_
  split
  · refine .bind (.mono (Q := fun _ (w' : World MemoryStorage) => w'.storage ≠ s) ?_ ?_)
    · exact finishes_storage (w := .standby s) hdefinition (startFrom_writes _ _ _ rfl rfl)
    · rintro (e | inst) w' hne <;> exact .done (.done hne)
  · refine .bind (.mono (Q := fun _ (w' : World MemoryStorage) => w'.storage ≠ s) ?_ ?_)
    · refine finishes_storage (w := .standby s) hdefinition ?_
      exact finishes_storage (w := .standby s) hnodes (startFrom_writes _ _ _ rfl rfl)
    · rintro (e | inst) w' hne <;> exact .done (.done hne)

omit [Extern] [Serde] in
/-- A storage with a running instance in the only state of its definition. -/
def withRunning (id target : String) : MemoryStorage :=
  ((MemoryStorage.new.storeFsmDefinition (oneState "d" target)).2.storeFsmInstance
    (.new 0 id "d" "only" (.forAdaptivePolicy []))).2

omit [Extern] [Serde] in
theorem get?_withRunning (id target : String) :
    (withRunning id target).fsmInstances.get? id =
      some (.new 0 id "d" "only" (.forAdaptivePolicy [])) :=
  Table.get?_eq_some.2 ⟨Table.mem_rows_insert.2 (.inl rfl), rfl⟩

omit [Serde] in
/-- Writing the instance back with a longer history changes the storage. -/
theorem finishes_update {id target : String} {inst : FsmInstance} {w : World MemoryStorage}
    {α : Type} {f : StorageResult Unit → Proc α} {Q : α → World MemoryStorage → Prop}
    (hw : w.storage = withRunning id target)
    (hid : inst.instanceId = id) (hlen : inst.history.length = 2)
    (hf : ∀ w' : World MemoryStorage, w'.storage ≠ withRunning id target →
      (machine MemoryStorage).Finishes Q (f (.ok ())) w') :
    (machine MemoryStorage).Finishes Q ((storage (.updateFsmInstance inst)).bind f) w := by
  subst hid
  have hupdate : Storage.call 0 (.updateFsmInstance inst) w.storage =
      (.ok (), { withRunning inst.instanceId target with
        fsmInstances := (withRunning inst.instanceId target).fsmInstances.insert inst }) := by
    rw [hw]
    simp only [Storage.call, MemoryStorage.updateFsmInstance, get?_withRunning, Option.isSome_some,
      if_true]
  refine finishes_storage hupdate (hf _ ?_)
  refine ne_of_apply_ne (fun s : MemoryStorage => s.fsmInstances.get? inst.instanceId) ?_
  simp only [Table.get?_insert_self, get?_withRunning]
  intro h
  rw [Option.some.inj h] at hlen
  cases hlen

omit [Serde] in
/-- An instance leaves the only state of its definition. -/
theorem finishes_fire (cfg : ControllerConfig) (inst : FsmInstance) (target : String)
    (w : World MemoryStorage) :
    (machine MemoryStorage).Finishes (fun inst' w' => w'.storage = w.storage ∧
        inst'.instanceId = inst.instanceId ∧ inst'.history.length = inst.history.length + 1)
      (fireTransition cfg inst target .manual (oneState "d" target)) w := by
  simp only [fireTransition, Prog.bind_eq]
  refine .perform (.quiet 0 "") rfl (finishes_emitFsm fun w' hw' => ?_)
  split
  · exact .done ⟨hw', rfl, by simp [FsmInstance.transition]⟩
  · rename_i stateDef hs
    -- there is but one state, and it has no action
    have hstate : stateDef = ⟨none, [⟨target, none, none⟩], false⟩ := by
      by_cases ht : target = "only"
      · subst ht
        exact (Option.some.inj hs).symm
      · rw [show (oneState "d" target).states.lookup target = _ from
          AList.lookup_insert_ne ht] at hs
        cases hs
    subst hstate
    exact .done ⟨hw', rfl, by simp [FsmInstance.transition]⟩

theorem advanceFsm_writes {id targetState : String} (h : state.fsmEngine) :
    ¬ WritesNothing state MemoryStorage (.grpc (.advanceFsm id targetState)) := by
  let target := (given targetState).getD "only"
  let s := withRunning id target
  have hinstance : Storage.call 0 (.getFsmInstance id) s =
      (.ok (some (.new 0 id "d" "only" (.forAdaptivePolicy []))), s) :=
    congrArg (fun inst => (Except.ok inst, s)) (get?_withRunning id target)
  have hdefinition : Storage.call 0 (.getFsmDefinition "d") s =
      (.ok (some (oneState "d" target)), s) := rfl
  have htarget : advanceTarget ⟨none, [⟨target, none, none⟩], false⟩ "only" (given targetState) =
      .ok target := by
    simp only [target]
    cases given targetState <;> simp [advanceTarget]
  refine grpc_writes state (s := s) ?_
  simp only [serveGrpc, withEngine, h, if_true, advanceOnEngine, Prog.bind_eq]
  refine .bind (.bind ?_)
  refine finishes_storage (w := .standby s) hinstance ?_
  refine finishes_storage (w := .standby s) hdefinition ?_
  have hlookup : (oneState "d" target).states.lookup "only" =
      some ⟨none, [⟨target, none, none⟩], false⟩ := AList.lookup_insert _
  simp only [FsmInstance.new, hlookup, htarget]
  refine .bind (.mono (finishes_fire state.config _ target _) fun inst w hinst => ?_)
  obtain ⟨hw, hid, hlen⟩ := hinst
  exact finishes_update hw hid hlen fun w' hne => .done (.done (.done hne))

theorem cancelFsm_writes {id reason : String} (h : state.fsmEngine) :
    ¬ WritesNothing state MemoryStorage (.grpc (.cancelFsm id reason)) := by
  let s := withRunning id "only"
  have hinstance : Storage.call 0 (.getFsmInstance id) s =
      (.ok (some (.new 0 id "d" "only" (.forAdaptivePolicy []))), s) :=
    congrArg (fun inst => (Except.ok inst, s)) (get?_withRunning id "only")
  refine grpc_writes state (s := s) ?_
  simp only [serveGrpc, withEngine, h, if_true, cancelOnEngine, Prog.bind_eq]
  refine .bind (.bind ?_)
  refine finishes_storage (w := .standby s) hinstance ?_
  refine .perform (.quiet 0 "") rfl (.perform (.quiet 0 "") rfl ?_)
  refine finishes_update rfl rfl rfl fun w' hne => finishes_emitFsm fun w'' hw'' => ?_
  exact .done (.done (.done (by rw [hw'']; exact hne)))

/-! ### Deploys and rollbacks -/

theorem deployPolicy_asks (req : DeployPolicyRequest) :
    ¬ WritesNothing state MemoryStorage (.grpc (.deployPolicy req)) := by
  let s := (MemoryStorage.new.registerNode (.capable req.nodeId ∅)).2
  have hnode : Storage.call 0 (.getNode req.nodeId) s =
      (.ok (some (.capable req.nodeId ∅)), s) :=
    congrArg (fun node => (Except.ok node, s))
      (Table.get?_eq_some.2 ⟨Table.mem_rows_insert.2 (.inl rfl), rfl⟩)
  refine grpc_asks state (s := s) ?_
  refine can_storage (w := .standby s) 0 hnode ?_
  exact guarded_asks state.config (w := .standby s) (Finset.notMem_empty _) (Prog.bind_assoc _ _ _)

theorem rollbackPolicy_asks (nodeId : String) (targetVersion : Nat) :
    ¬ WritesNothing state MemoryStorage (.grpc (.rollbackPolicy nodeId targetVersion)) := by
  let policy : Policy := requestedPolicy nodeId "" "" 0 .default
  let target : PolicyVersion := { policy with version := targetVersion }
  let last : PolicyVersion := { policy with version := targetVersion + 1 }
  let s : MemoryStorage := { (MemoryStorage.new.registerNode (.capable nodeId ∅)).2 with
    policyVersions := (∅ : AList fun _ : String => List PolicyVersion).insert nodeId [target, last] }
  have hnode : Storage.call 0 (.getNode nodeId) s = (.ok (some (.capable nodeId ∅)), s) :=
    congrArg (fun node => (Except.ok node, s))
      (Table.get?_eq_some.2 ⟨Table.mem_rows_insert.2 (.inl rfl), rfl⟩)
  have hversions : s.policyVersions.lookup nodeId = some [target, last] := AList.lookup_insert _
  have hhistory : Storage.call 0 (.getPolicyHistory nodeId 10) s = (.ok [last, target], s) := by
    simp [Storage.call, MemoryStorage.getPolicyHistory, MemoryStorage.versionsOf, hversions]
  have hchoice : chooseRollback targetVersion [last, target] = .version target := by
    simp only [chooseRollback]
    split
    · rfl
    · simp [last, target]
  refine grpc_asks state (s := s) ?_
  refine can_storage (w := .standby s) 0 hnode ?_
  refine can_storage (w := .standby s) 0 hhistory ?_
  simp only [hchoice]
  exact guarded_asks state.config (w := .standby s) (Finset.notMem_empty _) (Prog.bind_assoc _ _ _)

/-- The task of the one node that is selected asks its agent. -/
theorem batchDeployPolicy_asks (req : BatchDeployPolicyRequest) :
    ¬ WritesNothing state MemoryStorage (.grpc (.batchDeployPolicy req)) := by
  intro hnothing
  let Y := management state MemoryStorage
  let node := Node.capable "n" req.labelFilter
  let s := (MemoryStorage.new.registerNode node).2
  let w₁ : World MemoryStorage := { World.standby s with joinSets := [⟨0, []⟩] }
  let w₂ := w₁.updateJoinSet 0 fun j => { j with pending := j.pending + 1 }
  have hmatches : node.matchesLabels req.labelFilter :=
    List.all_eq_true.2 fun e he => beq_iff_eq.2 (AList.mem_lookup_iff.2 he)
  have hnodes : Storage.call 0 (.listNodes req.labelFilter) s = (.ok [node], s) :=
    congrArg (fun nodes => (Except.ok nodes, s)) (List.filter_cons_of_pos hmatches)
  have hlist : World.exec (.quiet 0 "") (.storage (.listNodes req.labelFilter)) (.standby s) =
      some (.ok [node], .standby s, []) := by
    show (let (r, s') := Storage.call 0 (.listNodes req.labelFilter) s
      some (r, { World.standby s with storage := s' }, [])) = _
    rw [hnodes]
    rfl
  -- up to where the task is started
  obtain ⟨k, hreach⟩ : ∃ k, (machine MemoryStorage).Reach (batchDeployPolicy req) (.standby s)
      ((op (.joinSetSpawn 0 (req.single node) node)).bind k) w₁ :=
    ⟨_, .perform (.quiet 0 "") hlist (.perform (.quiet 0 "") rfl .refl)⟩
  obtain ⟨t₁, hrun₁, hp₁⟩ := System.steps_of_reach_alone (Y := Y) (C := ServedAlone)
    (management_reach state hreach.bind) (fun _ _ _ => trivial)
    (t := Y.start (.request (.grpc (.batchDeployPolicy req)))) rfl
  -- the task is started, and runs
  let task : Request := .batchTask 0 (req.single node) node
  have hspawn : Y.exec (.quiet 0 "") (.joinSetSpawn 0 (req.single node) node) w₁ =
      some ((), w₂, [.task task]) := rfl
  obtain ⟨c₂, hstep, htask, hshared⟩ : ∃ c₂, Y.step ⟨w₁, [t₁]⟩ (.run 0 (.quiet 0 "")) = some c₂ ∧
      c₂.threads[1]? = some (Y.start (.task task)) ∧ c₂.shared = w₂ :=
    ⟨_, System.step_of_exec (c := ⟨w₁, [t₁]⟩) (i := 0) rfl hp₁ hspawn, rfl, rfl⟩
  obtain ⟨p', w', hasks, hne⟩ : (machine MemoryStorage).Can (fun w' => w'.sent ≠ w₂.sent)
      (batchTask state.config 0 (req.single node) node) w₂ :=
    .bind (guarded_asks state.config (Finset.notMem_empty _) rfl)
  obtain ⟨c, t, hrun, -, -, rfl⟩ := System.steps_of_reach (Y := Y) (C := ServedAlone)
    (management_reach state hasks.bind.bind) (fun _ _ _ => trivial) htask rfl hshared
  exact hne (hnothing (.standby s) c rfl
    ((hrun₁.tail ⟨.run 0 (.quiet 0 ""), trivial, hstep⟩).trans hrun)).1

/-- **On a standby every gRPC request that writes does so**, for some storage. -/
theorem writes_of_writesUnguarded {q : ManagementRequest} (hq : q.WritesUnguarded state) :
    ¬ WritesNothing state MemoryStorage q := by
  cases q with
  | rest q => exact hq.elim
  | grpc q =>
    cases q with
    | removeNode nodeId => exact removeNode_writes state nodeId
    | deployPolicy req => exact deployPolicy_asks state req
    | batchDeployPolicy req => exact batchDeployPolicy_asks state req
    | rollbackPolicy nodeId targetVersion => exact rollbackPolicy_asks state nodeId targetVersion
    | createFsmDefinition definitionYaml =>
      obtain ⟨d, hd⟩ := hq
      exact createFsmDefinition_writes state hd
    | deleteFsmDefinition name => exact deleteFsmDefinition_writes state name
    | startFsm req => exact startFsm_writes state hq
    | advanceFsm instanceId targetState => exact advanceFsm_writes state hq
    | cancelFsm instanceId reason => exact cancelFsm_writes state hq
    | setNodeAnnotations nodeId annotations removeKeys => exact setNodeAnnotations_writes state hq
    | createPolicyTemplate req => exact createPolicyTemplate_writes state req
    | deletePolicyTemplate name => exact deletePolicyTemplate_writes state name
    | _ => exact hq.elim

/-! ## The flag is looked at -/

/-- **A standby writes nothing for a request, whatever is stored, if and only if the request is
    not a gRPC request that writes.** -/
theorem writesNothing_iff (q : ManagementRequest) :
    WritesNothing state MemoryStorage q ↔ ¬ q.WritesUnguarded state :=
  ⟨fun h hq => writes_of_writesUnguarded state hq h, writesNothing_of_not state readsKeep_memory⟩

end Methods

/-- A gRPC service with an engine and no event bus. -/
def ManagementState.plain : ManagementState := ⟨plainConfig, true, false, "dark"⟩

/-- A standby removes a node when it is asked to by gRPC. -/
theorem not_writesNothing : ¬ ∀ q : ManagementRequest,
    @WritesNothing .sample .sample .plain MemoryStorage _ q := by
  intro h
  exact @removeNode_writes .sample .sample .plain "n1" (h (.grpc (.removeNode "n1")))

end PaciNet

import PaciNet.Lib.Pool
import PaciNet.Proof.DryRun
import PaciNet.Server.Methods

/-!
# What a standby writes

A controller that does not hold the lease is to leave the storage and the agents alone. The REST
handlers that write ask for the flag before they do anything; the gRPC methods never do. **A
standby leaves everything as it is when it serves a request, whatever is stored, if and only if
the request is not a gRPC request that writes.**
-/

set_option autoImplicit false

namespace PaciNet

open Lib

/-! ## The law -/

/-- A request of the management API. -/
inductive ManagementRequest where
  | grpc (q : GrpcRequest)
  | rest (q : RestRequest)

/-- What runs while a management request is served: the request and the tasks it starts. -/
inductive Handling where
  | request (q : ManagementRequest)
  | task (q : Request)

section Law

variable [Extern] [Serde] (state : ManagementState)

/-- The program of a management request. -/
def ManagementRequest.program : ManagementRequest → Proc Unit
  | .grpc q => (serveGrpc state q).bind fun _ => .done ()
  | .rest q => (serveRest state q).bind fun _ => .done ()

/-- The management API over a storage backend. -/
def management (σ : Type) [Storage σ] : System Op Op.Res (World σ) Ext Handling Unit where
  exec x o w := (World.exec x o w).map fun r => (r.1, r.2.1, r.2.2.map .task)
  prog
    | .request q => q.program state
    | .task q => (serve state.config q).bind fun _ => .done ()

/-- Nothing but the tasks that are there runs. -/
def ServedAlone {σ : Type} :
    Config Op Op.Res (World σ) Handling Unit → Label (World σ) Ext Handling → Prop := fun _ l =>
  match l with
  | .run _ _ => True
  | _ => False

/-- **A standby that serves the request asks no agent, and leaves the storage as it was** when
    everything the request started is done. -/
def WritesNothing (σ : Type) [Storage σ] (q : ManagementRequest) : Prop :=
  ∀ (w : World σ) (c : Config Op Op.Res (World σ) Handling Unit), w.leader = false →
    (management state σ).Steps ServedAlone ⟨w, [(management state σ).start (.request q)]⟩ c →
      c.shared.sent = w.sent ∧
        ((∀ t ∈ c.threads, t.prog = .done ()) → c.shared.storage = w.storage)

/-- A gRPC request that writes: it is of one of the writing methods, the engine is there if it
    takes one, a definition is accepted, and annotations are indeed set or removed. -/
def GrpcRequest.Writes : GrpcRequest → Prop
  | .removeNode _ | .deployPolicy _ | .batchDeployPolicy _ | .rollbackPolicy _ _
  | .deleteFsmDefinition _ | .createPolicyTemplate _ | .deletePolicyTemplate _ => True
  | .startFsm _ | .advanceFsm _ _ | .cancelFsm _ _ => state.fsmEngine
  | .createFsmDefinition definitionYaml => ∃ d, parseDefinition grpc definitionYaml = .ok d
  | .setNodeAnnotations _ annotations removeKeys => annotations ≠ ∅ ∨ removeKeys ≠ []
  | _ => False

/-- The request is a gRPC request that writes. -/
def ManagementRequest.WritesUnguarded : ManagementRequest → Prop
  | .grpc q => q.Writes state
  | .rest _ => False

end Law

/-! ## Operations that leave the storage alone -/

/-- The calls that only read. -/
def StorageCall.isRead : StorageCall → Bool
  | .getNode _ | .listNodes _ | .getCounters _ | .getFlowCounters _ | .getPolicy _
  | .getPolicyHistory _ _ | .getPoliciesForNodes _ | .getDeployments _ _ | .statusSummary
  | .getFsmDefinition _ | .listFsmDefinitions _ | .getFsmInstance _ | .listFsmInstances _ _
  | .queryEvents _ _ _ _ _ | .countEvents | .queryAudit _ _ _ _ _ | .getTemplate _
  | .listTemplates _ | .queryWebhookDeliveries _ _ => true
  -- nothing to set and nothing to remove
  | .updateAnnotations _ set remove => set = ∅ ∧ remove = []
  | _ => false

/-- The operations a standby may perform. -/
def Op.isRead : Op → Bool
  | .storage c => c.isRead
  | .now | .isLeader => true
  | _ => false

/-- A backend whose reads leave it as it is. -/
def ReadsKeep (σ : Type) [Storage σ] : Prop :=
  ∀ (now : DateTime) (c : StorageCall) (s : σ), c.isRead → (Storage.call now c s).2 = s

theorem readsKeep_memory : ReadsKeep MemoryStorage := by
  intro now c s hc
  rw [MemoryStorage.call_snd]
  cases c with
  | updateAnnotations nodeId set remove =>
    obtain ⟨rfl, rfl⟩ : set = ∅ ∧ remove = [] := by simpa [StorageCall.isRead] using hc
    have hsame : s.nodes.modify nodeId (fun node =>
        { node with annotations := MemoryStorage.annotate node.annotations ∅ [] }) (fun _ => rfl) =
          s.nodes := Table.modify_eq_self _ fun _ _ => rfl
    simp only [MemoryStorage.after, hsame]
  | _ => first | rfl | cases hc

/-- The monitor of what a standby serves without writing. -/
def standbyMonitor : Monitor Op Op.Res Unit where
  allow _ o := o.isRead
  expect
    | .isLeader, r => r = false
    | _, _ => True
  next _ _ _ := ()

/-- The standby and its storage are as they were, and no agent was asked. -/
structure StandsBy {σ : Type} (w w' : World σ) : Prop where
  storage : w'.storage = w.storage
  sent : w'.sent = w.sent
  leader : w'.leader = false

theorem StandsBy.exec [Extern] {σ : Type} [Storage σ] (hreads : ReadsKeep σ) {x : Ext} {o : Op}
    {w s s' : World σ} {r : o.Res} {new : List Request} (h : StandsBy w s) (ho : o.isRead)
    (hx : World.exec x o s = some (r, s', new)) :
    StandsBy w s' ∧ standbyMonitor.expect o r ∧ new = [] := by
  have hstep := World.stepped_of_exec hx
  have hstorage := hstep.storage
  cases o with
  | storage c =>
    have hc : s'.storage = (Storage.call x.now c s.storage).2 := congrArg Prod.snd hstorage
    refine ⟨⟨?_, ?_, ?_⟩, trivial, hstep.new⟩
    · rw [hc, hreads x.now c s.storage ho, h.storage]
    · rw [hstep.sent, h.sent]
      exact List.append_nil _
    · rw [hstep.leader, h.leader]
  | now => cases hx; exact ⟨h, trivial, rfl⟩
  | isLeader => cases hx; exact ⟨h, h.leader, rfl⟩
  | _ => cases ho

/-! ## Requests that leave the storage alone -/

/-- The program runs on a standby without writing. -/
abbrev Reads {α : Type} (p : Proc α) : Prop := p.wp standbyMonitor (fun _ _ => True) ()

theorem reads_of_calls {α : Type} {p : Proc α} (hp : p.Calls (·.isRead)) : Reads p := by
  induction p with
  | done a => trivial
  | call o k ih => exact ⟨hp.1, fun r _ => ih r (hp.2 r)⟩

theorem reads_bind {α β : Type} {p : Proc α} {f : α → Proc β} (hp : Reads p)
    (hf : ∀ a, Reads (f a)) : Reads (p.bind f) :=
  Prog.wp_bind.2 (hp.mono fun _ a _ => hf a)

/-- What a standby is refused is not done. -/
theorem requireLeader_reads {α : Type} (f : Unit → Proc (Except AppError α)) :
    Reads (requireLeader.orReturn f) := by
  refine ⟨rfl, fun r hr => ?_⟩
  obtain rfl : r = false := hr
  trivial

section Reading

variable {ε α β : Type} {P : Protocol ε}

theorem blocking_calls {Q : Op → Prop} {p : Proc (StorageResult α)}
    {f : α → Proc (Except ε β)} (hp : p.Calls Q) (hf : ∀ a, (f a).Calls Q) :
    (blocking P p f).Calls Q := by
  unfold blocking
  exact .orReturn (.bind hp fun _ => Prog.calls_done _ _) hf

theorem ask_calls {Q : Op → Prop} {p : Proc (StorageResult α)} {f : α → Except ε β}
    (hp : p.Calls Q) : (ask P p f).Calls Q :=
  blocking_calls hp fun _ => trivial

theorem nodesAndPolicies_calls {Q : Op → Prop} {labelFilter : Labels}
    {f : List Node → List (String × Policy) → Proc (Except ε β)}
    (hQ : ∀ c : StorageCall, c.isRead → Q (.storage c)) (hf : ∀ ns ps, (f ns ps).Calls Q) :
    (nodesAndPolicies P labelFilter f).Calls Q :=
  blocking_calls (Prog.calls_perform.2 (hQ _ rfl)) fun nodes =>
    blocking_calls (Prog.calls_perform.2 (hQ _ rfl)) fun policies => hf nodes policies

theorem readNode_calls (nodeId : String) : (readNode P nodeId).Calls (·.isRead) := by
  refine blocking_calls (Prog.calls_perform.2 rfl) fun node => ?_
  split
  · trivial
  · exact blocking_calls (Prog.calls_perform.2 rfl) fun policy => ⟨rfl, fun _ => trivial⟩

theorem readCounters_calls {nodeId : String} {counters : Proc (StorageResult (Option (List α)))}
    (h : counters.Calls (·.isRead)) : (readCounters P nodeId counters).Calls (·.isRead) :=
  blocking_calls h fun _ => ⟨rfl, fun _ => trivial⟩

theorem counterSets_calls {counters : String → Proc (StorageResult (Option (List α)))}
    (h : ∀ n, (counters n).Calls (·.isRead)) (nodes : List Node) :
    (counterSets P counters nodes).Calls (·.isRead) := by
  induction nodes with
  | nil => trivial
  | cons node nodes ih =>
    refine blocking_calls (h _) fun cs => ?_
    cases cs with
    | none => exact ih
    | some cs => exact ⟨rfl, fun now => ih.orReturn fun _ => trivial⟩

theorem readAggregate_calls {labelFilter : Labels}
    {counters : String → Proc (StorageResult (Option (List α)))}
    (h : ∀ n, (counters n).Calls (·.isRead)) :
    (readAggregate P labelFilter counters).Calls (·.isRead) :=
  blocking_calls (Prog.calls_perform.2 rfl) fun nodes => counterSets_calls h nodes

theorem readFleetStatus_calls (labelFilter : Labels) :
    (readFleetStatus P labelFilter).Calls (·.isRead) :=
  nodesAndPolicies_calls (fun _ h => h) fun _ _ => ⟨rfl, fun _ => trivial⟩

theorem withFilter_calls {parse : String → Except String α} {text : Option String}
    {f : Option α → Proc (Except ε β)} {Q : Op → Prop} (hf : ∀ a, (f a).Calls Q) :
    (withFilter P parse text f).Calls Q := by
  cases text with
  | none => exact hf none
  | some s =>
    simp only [withFilter]
    split
    · trivial
    · exact hf _

theorem readFsmDefinitions_calls (kind : Option String) :
    (readFsmDefinitions P kind).Calls (·.isRead) := by
  unfold readFsmDefinitions
  exact withFilter_calls fun _ => ask_calls (Prog.calls_perform.2 rfl)

theorem readFsmInstances_calls (definitionName status : Option String) :
    (readFsmInstances P definitionName status).Calls (·.isRead) := by
  unfold readFsmInstances
  exact withFilter_calls fun _ => ask_calls (Prog.calls_perform.2 rfl)

theorem describeNodes_calls (policies : List (String × Policy)) (nodes : List Node) :
    (describeNodes policies nodes).Calls (·.isRead) := by
  induction nodes with
  | nil => trivial
  | cons node nodes ih => exact ⟨rfl, fun now => ih.bind fun _ => trivial⟩

end Reading

section Serving

variable [Extern] [Serde] (state : ManagementState)

/-- **A gRPC request that does not write only reads.** -/
theorem serveGrpc_reads {q : GrpcRequest} (hq : ¬ q.Writes state) : Reads (serveGrpc state q) := by
  cases q with
  | listNodes labelFilter =>
    exact reads_of_calls (nodesAndPolicies_calls (fun _ h => h) fun nodes policies =>
      (describeNodes_calls policies nodes).bind fun _ => trivial)
  | getNode nodeId => exact reads_of_calls (readNode_calls nodeId)
  | getNodeCounters nodeId =>
    exact reads_of_calls (readCounters_calls (Prog.calls_perform.2 rfl))
  | getAggregateCounters labelFilter =>
    exact reads_of_calls (readAggregate_calls fun _ => Prog.calls_perform.2 rfl)
  | getFleetStatus labelFilter => exact reads_of_calls (readFleetStatus_calls labelFilter)
  | createFsmDefinition definitionYaml =>
    simp only [GrpcRequest.Writes, not_exists] at hq
    simp only [serveGrpc, createFsmDefinition, storeDefinition]
    cases hparse : parseDefinition grpc definitionYaml with
    | error e => trivial
    | ok d => exact absurd hparse (hq d)
  | listFsmDefinitions kind => exact reads_of_calls (readFsmDefinitions_calls _)
  | listFsmInstances definitionName status => exact reads_of_calls (readFsmInstances_calls _ _)
  | startFsm req => simp_all [GrpcRequest.Writes, serveGrpc, withEngine]
  | advanceFsm instanceId targetState => simp_all [GrpcRequest.Writes, serveGrpc, withEngine]
  | cancelFsm instanceId reason => simp_all [GrpcRequest.Writes, serveGrpc, withEngine]
  | setNodeAnnotations nodeId annotations removeKeys =>
    simp only [GrpcRequest.Writes, not_or, not_not] at hq
    obtain ⟨rfl, rfl⟩ := hq
    exact reads_of_calls (blocking_calls
      (Prog.calls_perform.2 (by simp [Op.isRead, StorageCall.isRead])) fun _ => trivial)
  | watchFsmEvents instanceId => trivial
  | watchCounters nodeId => trivial
  | watchNodeEvents labelFilter => trivial
  | removeNode nodeId => exact absurd trivial hq
  | deployPolicy req => exact absurd trivial hq
  | batchDeployPolicy req => exact absurd trivial hq
  | rollbackPolicy nodeId targetVersion => exact absurd trivial hq
  | deleteFsmDefinition name => exact absurd trivial hq
  | createPolicyTemplate req => exact absurd trivial hq
  | deletePolicyTemplate name => exact absurd trivial hq
  | _ => exact reads_of_calls (ask_calls (Prog.calls_perform.2 rfl))

/-- **A REST request on a standby only reads.** -/
theorem serveRest_reads (q : RestRequest) : Reads (serveRest state q) := by
  cases q with
  | healthCheck => exact reads_of_calls ⟨rfl, fun _ => trivial⟩
  | listNodes label =>
    exact reads_of_calls (nodesAndPolicies_calls (fun _ h => h) fun _ _ => ⟨rfl, fun _ => trivial⟩)
  | getNode id => exact reads_of_calls (readNode_calls id)
  | getNodeCounters id => exact reads_of_calls (readCounters_calls (Prog.calls_perform.2 rfl))
  | getNodeFlowCounters id => exact reads_of_calls (readCounters_calls (Prog.calls_perform.2 rfl))
  | getAggregateCounters label =>
    exact reads_of_calls (readAggregate_calls fun _ => Prog.calls_perform.2 rfl)
  | getAggregateFlowCounters label =>
    exact reads_of_calls (readAggregate_calls fun _ => Prog.calls_perform.2 rfl)
  | getFleetStatus label => exact reads_of_calls (readFleetStatus_calls _)
  | listFsmDefinitions kind => exact reads_of_calls (readFsmDefinitions_calls _)
  | listFsmInstances definition status => exact reads_of_calls (readFsmInstances_calls _ _)
  | getUiTheme => trivial
  | setUiTheme theme => trivial
  | sseNodeEvents label => trivial
  | sseCounterEvents node => trivial
  | sseFsmEvents instanceId => trivial
  | removeNode id => exact requireLeader_reads _
  | rollbackPolicy id targetVersion => exact requireLeader_reads _
  | setAnnotations id annotations removeKeys => exact requireLeader_reads _
  | deployPolicy body => exact requireLeader_reads _
  | batchDeployPolicy body => exact requireLeader_reads _
  | createFsmDefinition definitionYaml => exact requireLeader_reads _
  | deleteFsmDefinition name => exact requireLeader_reads _
  | startFsm body => exact requireLeader_reads _
  | advanceFsm id targetState => exact requireLeader_reads _
  | cancelFsm id reason => exact requireLeader_reads _
  | createTemplate body => exact requireLeader_reads _
  | deleteTemplate name => exact requireLeader_reads _
  | _ => exact reads_of_calls (ask_calls (Prog.calls_perform.2 rfl))

theorem program_reads {q : ManagementRequest} (hq : ¬ q.WritesUnguarded state) :
    Reads (q.program state) := by
  cases q with
  | grpc q => exact reads_bind (serveGrpc_reads state hq) fun _ => trivial
  | rest q => exact reads_bind (serveRest_reads state q) fun _ => trivial

/-- **A request that does not write unguarded writes nothing**, over every backend. -/
theorem writesNothing_of_not {σ : Type} [Storage σ] (hreads : ReadsKeep σ) {q : ManagementRequest}
    (hq : ¬ q.WritesUnguarded state) : WritesNothing state σ q := by
  intro w c hleader hrun
  have hG : (management state σ).Guarantee standbyMonitor () (fun _ _ _ => True) (StandsBy w)
      (fun h => h = .request q) := by
    constructor
    · rintro _ rfl
      exact program_reads state hq
    · intro st x o s r s' new hJ hallow hx
      obtain ⟨⟨r', s'', new'⟩, hexec, heq⟩ := Option.map_eq_some_iff.1 hx
      cases heq
      obtain ⟨hJ', hexpect, rfl⟩ := hJ.exec hreads hallow hexec
      exact ⟨hJ', hexpect, fun _ h => absurd h List.not_mem_nil⟩
  have hwatched := hrun.watched hG ⟨fun _ _ h => h.elim, fun _ _ h => h.elim⟩
    ⟨⟨rfl, rfl, hleader⟩, fun t ht => List.mem_singleton.1 ht ▸ hG.start rfl⟩
  exact ⟨hwatched.1.sent, fun _ => hwatched.1.storage⟩

end Serving

end PaciNet

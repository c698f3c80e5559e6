import PaciNet.Core.Fsm.Instance

/-!
# The `Storage` trait

A call of the trait is a value of `StorageCall`, and `StorageCall.Res` is the type it returns.
A backend answers calls: it is a state and one function from the state before a call to the
result and the state after it. The clock reading a method takes for itself is an argument.

Having the trait as data is what lets one theorem speak about *every* storage operation, and
one controller program run over either backend.
-/

set_option autoImplicit false

namespace PaciNet

/-- Total nodes, nodes by state, oldest heartbeat. -/
structure StatusSummary where
  total : Nat
  byState : AList fun _ : String => Nat
  oldest : Option DateTime

/-- A call of the `Storage` trait. -/
inductive StorageCall where
  | registerNode (node : Node)
  | getNode (nodeId : String)
  | listNodes (labelFilter : Labels)
  | removeNode (nodeId : String)
  | updateHeartbeat (nodeId : String) (state : NodeState) (uptime : Nat)
  | updateNodeState (nodeId : String) (state : NodeState)
  | storeCounters (nodeId : String) (counters : List RuleCounter)
  | getCounters (nodeId : String)
  | storeFlowCounters (nodeId : String) (counters : List FlowCounter)
  | getFlowCounters (nodeId : String)
  | storePolicy (policy : Policy)
  | getPolicy (nodeId : String)
  | getPolicyHistory (nodeId : String) (limit : Nat)
  | getPoliciesForNodes (nodeIds : List String)
  | recordDeployment (record : DeploymentRecord)
  | getDeployments (nodeId : String) (limit : Nat)
  | beginDeploy (nodeId : String)
  | endDeploy (nodeId : String)
  | markStaleNodes (threshold : Int)
  | statusSummary
  | storeFsmDefinition (d : FsmDefinition)
  | getFsmDefinition (name : String)
  | listFsmDefinitions (kind : Option FsmKind)
  | deleteFsmDefinition (name : String)
  | storeFsmInstance (inst : FsmInstance)
  | getFsmInstance (id : String)
  | updateFsmInstance (inst : FsmInstance)
  | listFsmInstances (defName : Option String) (status : Option FsmInstanceStatus)
  | storeEvent (event : PersistentEvent)
  | queryEvents (eventType source : Option String) (since until_ : Option DateTime) (limit : Nat)
  | pruneEvents (olderThan : DateTime)
  | countEvents
  | updateAnnotations (nodeId : String) (set : Labels) (remove : List String)
  | storeAudit (entry : AuditEntry)
  | queryAudit (action resourceType resourceId : Option String) (since : Option DateTime)
      (limit : Nat)
  | storeTemplate (template : PolicyTemplate)
  | getTemplate (name : String)
  | listTemplates (tag : Option String)
  | deleteTemplate (name : String)
  | storeWebhookDelivery (delivery : WebhookDelivery)
  | queryWebhookDeliveries (instanceId : Option String) (limit : Nat)

/-- `Result<α, PaciNetError>`. -/
abbrev StorageResult (α : Type) := Except PaciNetError α

/-- What a call returns. -/
@[reducible] def StorageCall.Res : StorageCall → Type
  | registerNode _ => StorageResult String
  | getNode _ => StorageResult (Option Node)
  | listNodes _ => StorageResult (List Node)
  | removeNode _ => StorageResult Bool
  | updateHeartbeat _ _ _ => StorageResult Bool
  | updateNodeState _ _ => StorageResult Bool
  | storeCounters _ _ => StorageResult Unit
  | getCounters _ => StorageResult (Option (List RuleCounter))
  | storeFlowCounters _ _ => StorageResult Unit
  | getFlowCounters _ => StorageResult (Option (List FlowCounter))
  | storePolicy _ => StorageResult Nat
  | getPolicy _ => StorageResult (Option Policy)
  | getPolicyHistory _ _ => StorageResult (List PolicyVersion)
  | getPoliciesForNodes _ => StorageResult (List (String × Policy))
  | recordDeployment _ => StorageResult Unit
  | getDeployments _ _ => StorageResult (List DeploymentRecord)
  | beginDeploy _ => StorageResult Unit
  | endDeploy _ => Unit
  | markStaleNodes _ => StorageResult (List String)
  | statusSummary => StorageResult StatusSummary
  | storeFsmDefinition _ => StorageResult Unit
  | getFsmDefinition _ => StorageResult (Option FsmDefinition)
  | listFsmDefinitions _ => StorageResult (List FsmDefinition)
  | deleteFsmDefinition _ => StorageResult Bool
  | storeFsmInstance _ => StorageResult Unit
  | getFsmInstance _ => StorageResult (Option FsmInstance)
  | updateFsmInstance _ => StorageResult Unit
  | listFsmInstances _ _ => StorageResult (List FsmInstance)
  | storeEvent _ => StorageResult Unit
  | queryEvents _ _ _ _ _ => StorageResult (List PersistentEvent)
  | pruneEvents _ => StorageResult Nat
  | countEvents => StorageResult Nat
  | updateAnnotations _ _ _ => StorageResult Unit
  | storeAudit _ => StorageResult Unit
  | queryAudit _ _ _ _ _ => StorageResult (List AuditEntry)
  | storeTemplate _ => StorageResult Unit
  | getTemplate _ => StorageResult (Option PolicyTemplate)
  | listTemplates _ => StorageResult (List PolicyTemplate)
  | deleteTemplate _ => StorageResult Bool
  | storeWebhookDelivery _ => StorageResult Unit
  | queryWebhookDeliveries _ _ => StorageResult (List WebhookDelivery)

/-- A storage backend with state `σ`. -/
class Storage (σ : Type) where
  call : DateTime → (c : StorageCall) → σ → c.Res × σ

/-- A call of the trait, and the clock when it is made. -/
abbrev TimedCall := DateTime × StorageCall

/-- A call and what it was answered. -/
abbrev AnsweredCall := (c : StorageCall) × c.Res

/-- Calls one after the other, each with its answer. -/
def Storage.answers {σ : Type} [Storage σ] : List TimedCall → σ → List AnsweredCall
  | [], _ => []
  | c :: calls, s => ⟨c.2, (Storage.call c.1 c.2 s).1⟩ :: answers calls (Storage.call c.1 c.2 s).2

@[simp] theorem Storage.length_answers {σ : Type} [Storage σ] (calls : List TimedCall) (s : σ) :
    (answers calls s).length = calls.length := by
  induction calls generalizing s with
  | nil => rfl
  | cons c calls ih => rw [answers, List.length_cons, List.length_cons, ih]

/-- What holds of each answer, given those before it, and what carries over. -/
theorem Storage.answers_of_step {σ : Type} [Storage σ] {C : TimedCall → Prop} {n : Nat}
    {I : List AnsweredCall → σ → Prop} {P : List AnsweredCall → AnsweredCall → Prop}
    (hstep : ∀ before s c, C c → before.length < n → I before s →
      P before ⟨c.2, (Storage.call c.1 c.2 s).1⟩ ∧
        I (before ++ [⟨c.2, (Storage.call c.1 c.2 s).1⟩]) (Storage.call c.1 c.2 s).2)
    {calls : List TimedCall} (hC : ∀ c ∈ calls, C c) (first : List AnsweredCall)
    {before after : List AnsweredCall} {a : AnsweredCall} {s : σ} (hI : I first s)
    (hn : first.length + calls.length ≤ n) (h : answers calls s = before ++ a :: after) :
    P (first ++ before) a := by
  induction calls generalizing first before s with
  | nil => simp [answers] at h
  | cons c calls ih =>
    rw [List.length_cons] at hn
    obtain ⟨hP, hI⟩ := hstep first s c (hC c List.mem_cons_self) (by omega) hI
    cases before with
    | nil =>
      rw [answers, List.nil_append, List.cons.injEq] at h
      rw [← h.1, List.append_nil]
      exact hP
    | cons b before =>
      rw [answers, List.cons_append, List.cons.injEq] at h
      rw [← h.1, List.append_cons]
      refine ih (fun d hd => hC d (List.mem_cons_of_mem c hd)) _ hI ?_ h.2
      rw [List.length_append, List.length_singleton]
      omega

/-- The state after the calls. -/
def Storage.stateAfter {σ : Type} [Storage σ] (calls : List TimedCall) (s : σ) : σ :=
  calls.foldl (fun s c => (Storage.call c.1 c.2 s).2) s

/-- What each call carries over holds after all of them. -/
theorem Storage.state_of_step {σ : Type} [Storage σ] {C : TimedCall → Prop} {n : Nat}
    {I : List AnsweredCall → σ → Prop}
    (hstep : ∀ before s c, C c → before.length < n → I before s →
      I (before ++ [⟨c.2, (Storage.call c.1 c.2 s).1⟩]) (Storage.call c.1 c.2 s).2)
    {calls : List TimedCall} (hC : ∀ c ∈ calls, C c) (first : List AnsweredCall) {s : σ}
    (hI : I first s) (hn : first.length + calls.length ≤ n) :
    I (first ++ answers calls s) (stateAfter calls s) := by
  induction calls generalizing first s with
  | nil =>
    rw [answers, List.append_nil]
    exact hI
  | cons c calls ih =>
    rw [List.length_cons] at hn
    have hnext := hstep first s c (hC c List.mem_cons_self) (by omega) hI
    rw [answers, List.append_cons]
    refine ih (fun d hd => hC d (List.mem_cons_of_mem c hd)) _ hnext ?_
    rw [List.length_append, List.length_singleton]
    omega

/-- A node matches a label filter when it has every label of it. -/
def Node.matchesLabels (node : Node) (labelFilter : Labels) : Bool :=
  labelFilter.entries.all fun e => node.labels.lookup e.1 == some e.2

end PaciNet

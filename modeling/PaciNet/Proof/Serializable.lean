import PaciNet.Lib.Section
import PaciNet.Proof.DeployGuard
import PaciNet.Proof.RollbackTarget

/-!
# Deploys and rollbacks of one node, one after the other

A deploy reads the record of its node, and a rollback the versions too, before it takes the guard
of the node. It then goes on with what it has read. Somebody else may have deployed in between: the
rollback then goes back to a version that is not the previous one any more, and the deploy compares
what it is asked for with the state of a node that has changed.

**Deploys and rollbacks of a node that take its guard are serializable where what they have read
is still stored when they take it.** The run they make, one after the other in the order in which
they took the guard, stores the same, and answers each of them the same.
-/

set_option autoImplicit false

namespace PaciNet

open Lib Prog

/-! ## What the requests see of the world -/

/-- What is stored about a node is the same. -/
structure SameStored (n : String) (s u : MemoryStorage) : Prop where
  node : s.nodes.get? n = u.nodes.get? n
  policy : s.policies.get? n = u.policies.get? n
  versions : s.versionsOf n = u.versionsOf n
  deploying : n ∈ s.deploying ↔ n ∈ u.deploying

/-- The calls a deploy or rollback of the node makes. -/
def StorageCall.IsAbout (n : String) : StorageCall → Prop
  | .getNode m | .getPolicy m | .getPolicyHistory m _ | .updateNodeState m _ | .beginDeploy m
  | .endDeploy m => m = n
  | .storePolicy p => p.nodeId = n
  | .recordDeployment _ | .storeAudit _ => True
  | _ => False

theorem versionsOf_storePolicy (s : MemoryStorage) (policy : Policy) (n : String) :
    (s.storePolicy policy).2.versionsOf n =
      if n = policy.nodeId then
        s.versionsOf n ++ [{ policy with version := (s.versionsOf n).length + 1 }]
      else s.versionsOf n := by
  show ((s.policyVersions.insert policy.nodeId _).lookup n).getD [] = _
  split
  · rename_i h
    rw [h, AList.lookup_insert]
    rfl
  · rename_i h
    rw [AList.lookup_insert_ne h]
    rfl

/-- A call about a node is answered from what is stored about it, and changes it accordingly. -/
theorem call_congr {n : String} {c : StorageCall} (hc : c.IsAbout n) {s u : MemoryStorage}
    (h : SameStored n s u) (now now' : DateTime) :
    (Storage.call now c s).1 = (Storage.call now' c u).1 ∧
      SameStored n (Storage.call now c s).2 (Storage.call now' c u).2 := by
  cases c with
  | getNode m =>
    obtain rfl : m = n := hc
    exact ⟨congrArg Except.ok h.node, h⟩
  | getPolicy m =>
    obtain rfl : m = n := hc
    exact ⟨congrArg Except.ok h.policy, h⟩
  | getPolicyHistory m limit =>
    obtain rfl : m = n := hc
    refine ⟨?_, h⟩
    show Except.ok ((s.versionsOf m).reverse.take limit) = _
    rw [h.versions]
    rfl
  | updateNodeState m state =>
    obtain rfl : m = n := hc
    refine ⟨?_, ?_⟩
    · show (s.updateNodeState m state).1 = (u.updateNodeState m state).1
      unfold MemoryStorage.updateNodeState
      rw [h.node]
      split
      · split <;> rfl
      · rfl
    · rw [MemoryStorage.call_snd, MemoryStorage.call_snd]
      refine ⟨?_, h.policy, h.versions, h.deploying⟩
      simp only [MemoryStorage.after, Table.get?_modify, h.node]
  | storePolicy p =>
    obtain rfl : p.nodeId = n := hc
    refine ⟨?_, h.node, ?_, ?_, h.deploying⟩
    · show Except.ok ((s.versionsOf p.nodeId).length + 1) = _
      rw [h.versions]
      rfl
    · show (s.policies.insert p).get? _ = (u.policies.insert p).get? _
      rw [Table.get?_insert_self, Table.get?_insert_self]
    · show (s.storePolicy p).2.versionsOf _ = (u.storePolicy p).2.versionsOf _
      rw [versionsOf_storePolicy, versionsOf_storePolicy, h.versions]
  | recordDeployment d => exact ⟨rfl, h.node, h.policy, h.versions, h.deploying⟩
  | storeAudit entry => exact ⟨rfl, h.node, h.policy, h.versions, h.deploying⟩
  | beginDeploy m =>
    obtain rfl : m = n := hc
    refine ⟨?_, ?_⟩
    · show (s.beginDeploy m).1 = (u.beginDeploy m).1
      unfold MemoryStorage.beginDeploy
      by_cases hm : m ∈ s.deploying
      · rw [if_pos hm, if_pos (h.deploying.1 hm)]
      · rw [if_neg hm, if_neg fun hu => hm (h.deploying.2 hu)]
    · rw [MemoryStorage.call_snd, MemoryStorage.call_snd]
      refine ⟨h.node, h.policy, h.versions, ?_⟩
      show m ∈ insert m s.deploying ↔ m ∈ insert m u.deploying
      simp
  | endDeploy m =>
    obtain rfl : m = n := hc
    refine ⟨rfl, h.node, h.policy, h.versions, ?_⟩
    show m ∈ s.deploying.erase m ↔ m ∈ u.deploying.erase m
    simp
  | _ => exact hc.elim

/-- What a deploy or rollback of the node sees of the world, and changes there. -/
structure NodeView where
  node : Option Node
  policy : Option Policy
  versions : List PolicyVersion
  deploying : Bool
  leader : Bool
  reachable : String → Bool

def nodeView (n : String) (w : World MemoryStorage) : NodeView where
  node := w.storage.nodes.get? n
  policy := w.storage.policies.get? n
  versions := w.storage.versionsOf n
  deploying := decide (n ∈ w.storage.deploying)
  leader := w.leader
  reachable addr := (w.agents.lookup addr).isSome

theorem nodeView_storage {n : String} {w u : World MemoryStorage} {s t : MemoryStorage}
    (h : nodeView n w = nodeView n u) (hs : SameStored n s t) :
    nodeView n { w with storage := s } = nodeView n { u with storage := t } := by
  simp only [nodeView, NodeView.mk.injEq] at h ⊢
  exact ⟨hs.node, hs.policy, hs.versions, by simp [hs.deploying], h.2.2.2.2⟩

theorem sameStored_of_nodeView {n : String} {w u : World MemoryStorage}
    (h : nodeView n w = nodeView n u) : SameStored n w.storage u.storage := by
  simp only [nodeView, NodeView.mk.injEq] at h
  exact ⟨h.1, h.2.1, h.2.2.1, by simpa using h.2.2.2.1⟩

/-! ## The section -/

/-- A thread of the law is in its section from `begin_deploy` to `end_deploy`. -/
def nodeSection (n : String) : Section Op Op.Res (World MemoryStorage) NodeView where
  view := nodeView n
  busy v := v.deploying
  takes
    | .storage (.beginDeploy m) => m = n
    | _ => false
  granted o r := deployGuard.took o r
  leaves
    | .storage (.endDeploy m) => m = n
    | _ => false
  reads
    | .storage (.getNode m) | .storage (.getPolicyHistory m _) => m = n
    | .storage (.storeAudit _) | .isLeader => True
    | _ => False
  works o := DeployBodyOp n o ∨ ∃ m, o = .mark m
  trails
    | .uuid | .now | .recordAudit _ => True
    | _ => False

/-- What is known of every answer, in a world led or not led as told. -/
def AnswersAsLed (leader : Bool) : (o : Op) → o.Res → Prop
  | .isLeader, r => r = leader
  | .storage (.getNode m), r => ∀ node, r = .ok (some node) → node.nodeId = m
  | .storage (.storeAudit _), r => r = .ok ()
  | _, _ => True

/-- The ids that are drawn. -/
def uuids : Draws Op Op.Res (World MemoryStorage) String where
  drawn
    | .uuid, r => some r
    | _, _ => none
  issued := World.issued

theorem uuids_lawful [Extern] : uuids.Lawful (machine MemoryStorage) := by
  intro x o w r w' new hx
  cases o with
  | uuid =>
    have hx : World.exec x .uuid w = some (r, w', new) := hx
    simp only [World.exec] at hx
    split at hx
    · exact absurd hx (by simp)
    · rename_i hfresh
      cases hx
      refine ⟨?_, rfl⟩
      rintro u ⟨⟩
      exact hfresh
  | deployRules addr req =>
    have hx : World.exec x (.deployRules addr req) w = some (r, w', new) := hx
    refine ⟨fun u hu => absurd hu (Option.not_mem_none u), ?_⟩
    show w'.issued = w.issued
    simp only [World.exec] at hx
    split at hx
    · split at hx
      · exact absurd hx (by simp)
      · cases hx
        rfl
    · cases hx
      unfold World.strand
      split <;> rfl
    · cases hx
      unfold World.strand
      split <;> rfl
  | joinSetNext joinSet =>
    have hx : World.exec x (.joinSetNext joinSet) w = some (r, w', new) := hx
    refine ⟨fun u hu => absurd hu (Option.not_mem_none u), ?_⟩
    show w'.issued = w.issued
    simp only [World.exec] at hx
    split at hx
    · exact absurd hx (by simp)
    · split at hx
      · cases hx
        rfl
      · exact absurd hx (by simp)
      · cases hx
        rfl
  | _ =>
    cases hx
    exact ⟨fun u hu => absurd hu (Option.not_mem_none u), rfl⟩

section Section

variable {n : String}

theorem nodeSection_takes {o : Op} (h : (nodeSection n).takes o = true) :
    o = .storage (.beginDeploy n) := by
  cases o with
  | storage c =>
    cases c with
    | beginDeploy m =>
      have hm : m = n := by simpa [nodeSection] using h
      rw [hm]
    | _ => simp [nodeSection] at h
  | _ => simp [nodeSection] at h

theorem nodeSection_leaves {o : Op} (h : (nodeSection n).leaves o = true) :
    o = .storage (.endDeploy n) := by
  cases o with
  | storage c =>
    cases c with
    | endDeploy m =>
      have hm : m = n := by simpa [nodeSection] using h
      rw [hm]
    | _ => simp [nodeSection] at h
  | _ => simp [nodeSection] at h

/-- The operations of the section are the storage calls about the node, and some others. -/
theorem isAbout_of_covers {c : StorageCall} (h : (nodeSection n).Covers (.storage c)) :
    c.IsAbout n := by
  rcases h with h | h | (h | ⟨m, h⟩) | h | h
  · cases c <;> first | exact h | exact h.elim
  · cases nodeSection_takes h
    rfl
  · cases c <;> first | exact h | exact h.1 | exact h.elim | trivial
  · cases h
  · cases nodeSection_leaves h
    rfl
  · exact h.elim

theorem nodeView_strand (w : World MemoryStorage) (addr : String) (req : DeployRulesRequest)
    (reached : Bool) : nodeView n (w.strand addr req reached) = nodeView n w := by
  cases reached <;> rfl

variable [Extern]

/-- What an agent answers does not depend on what it runs. -/
theorem deployRules_response (a b : AgentState) (now : DateTime)
    (compile : Except String CompileResult) (req : DeployRulesRequest) :
    (a.deployRules now compile req).1 = (b.deployRules now compile req).1 := by
  cases compile <;> rfl

/-- An agent that was there is still there. -/
theorem nodeView_agentDeploys {w : World MemoryStorage} {addr : String} {a : AgentState}
    (ha : w.agents.lookup addr = some a) (now : DateTime)
    (compile : Except String CompileResult) (req : DeployRulesRequest) :
    nodeView n (w.agentDeploys now addr a compile req).2 = nodeView n w := by
  simp only [nodeView, World.agentDeploys, NodeView.mk.injEq, true_and]
  refine ⟨rfl, funext fun addr' => ?_⟩
  by_cases h : addr' = addr
  · rw [h, AList.lookup_insert, ha]
    rfl
  · rw [AList.lookup_insert_ne h]

/-- What is not a storage call leaves the view alone, and can be done in any world with it. -/
theorem replay_of_not_storage {o : Op} (hcovers : (nodeSection n).Covers o) (ho : ∀ c, o ≠ .storage c)
    {x : Ext} {w w' u : World MemoryStorage} {r : o.Res} {new : List Request}
    (hx : World.exec x o w = some (r, w', new)) (hview : nodeView n w = nodeView n u)
    (hfresh : ∀ v ∈ uuids.drawn o r, v ∉ u.issued) :
    nodeView n w' = nodeView n w ∧
      ∃ u' new', World.exec x o u = some (r, u', new') ∧ nodeView n u' = nodeView n u := by
  have hleader : w.leader = u.leader := congrArg NodeView.leader hview
  have hreachable : ∀ addr, (w.agents.lookup addr).isSome = (u.agents.lookup addr).isSome :=
    fun addr => congrFun (congrArg NodeView.reachable hview) addr
  cases o with
  | storage c => exact absurd rfl (ho c)
  | deployRules addr req =>
    simp only [World.exec] at hx ⊢
    split at hx
    · split at hx
      · exact absurd hx (by simp)
      · rename_i compile _ _ a ha
        have ha : w.agents.lookup addr = some a := ha
        obtain ⟨b, hb⟩ := Option.isSome_iff_exists.1
          ((hreachable addr).symm.trans (Option.isSome_iff_exists.2 ⟨a, ha⟩))
        have hb : (u.send addr req).agents.lookup addr = some b := hb
        cases hx
        refine ⟨nodeView_agentDeploys (w := w.send addr req) ha _ _ _, ?_⟩
        rw [hb]
        refine ⟨((u.send addr req).agentDeploys x.now addr b compile req).2, [], ?_,
          nodeView_agentDeploys (w := u.send addr req) hb x.now compile req⟩
        exact congrArg (fun response => some (AgentAnswer.response response, _, []))
          (deployRules_response b a x.now compile req)
    · cases hx
      exact ⟨nodeView_strand _ _ _ _, _, _, rfl, nodeView_strand _ _ _ _⟩
    · cases hx
      exact ⟨nodeView_strand _ _ _ _, _, _, rfl, nodeView_strand _ _ _ _⟩
  | uuid =>
    simp only [World.exec] at hx
    split at hx
    · exact absurd hx (by simp)
    · cases hx
      refine ⟨rfl, { u with issued := x.uuid :: u.issued }, [], ?_, rfl⟩
      rw [World.exec, if_neg (hfresh _ rfl)]
  | now =>
    cases hx
    exact ⟨rfl, u, [], rfl, rfl⟩
  | isLeader =>
    cases hx
    refine ⟨rfl, u, [], ?_, rfl⟩
    rw [hleader]
    rfl
  | recordAudit entry =>
    cases hx
    exact ⟨rfl, u, _, rfl, rfl⟩
  | mark m =>
    cases hx
    exact ⟨rfl, _, _, rfl, rfl⟩
  | _ =>
    -- the other operations are none of the section
    rcases hcovers with h | h | (h | ⟨m, h⟩) | h | h
    · exact h.elim
    · cases nodeSection_takes h
    · exact h.elim
    · cases h
    · cases nodeSection_leaves h
    · exact h.elim

theorem quiet_of_not_storage {o : Op} (hcovers : (nodeSection n).Covers o)
    (ho : ∀ c, o ≠ .storage c) (x : Ext) {w w' : World MemoryStorage} {r : o.Res}
    {new : List Request} (hx : World.exec x o w = some (r, w', new)) :
    nodeView n w' = nodeView n w :=
  (replay_of_not_storage hcovers ho hx rfl (uuids_lawful hx).1).1

/-- A storage call of the section, in two worlds with one view. -/
theorem replay_storage {c : StorageCall} (hcovers : (nodeSection n).Covers (.storage c)) {x : Ext}
    {w w' u : World MemoryStorage} {r : c.Res} {new : List Request}
    (hx : World.exec x (.storage c) w = some (r, w', new)) (hview : nodeView n w = nodeView n u) :
    ∃ u', World.exec x (.storage c) u = some (r, u', []) ∧ nodeView n u' = nodeView n w' := by
  cases hx
  obtain ⟨hr, hs⟩ := call_congr (isAbout_of_covers hcovers) (sameStored_of_nodeView hview) x.now x.now
  refine ⟨{ u with storage := (Storage.call x.now c u.storage).2 }, ?_, ?_⟩
  · exact congrArg (fun r => some (r, { u with storage := (Storage.call x.now c u.storage).2 }, []))
      hr.symm
  · exact (nodeView_storage hview hs).symm

theorem nodeSection_replays : (nodeSection n).Replays (machine MemoryStorage) uuids := by
  rintro ⟨o, r⟩ u v' hfresh ⟨hcovers, x, w, w', new, hx, hview, rfl⟩
  have hx : World.exec x o w = some (r, w', new) := hx
  by_cases ho : ∃ c, o = .storage c
  · obtain ⟨c, rfl⟩ := ho
    obtain ⟨u', hu, hview'⟩ := replay_storage hcovers hx hview
    exact ⟨x, u', [], hu, hview'⟩
  · obtain ⟨hquiet, u', new', hu, hview'⟩ :=
      replay_of_not_storage hcovers (fun c hc => ho ⟨c, hc⟩) hx hview hfresh
    exact ⟨x, u', new', hu, hview'.trans (hview.symm.trans hquiet.symm)⟩

theorem nodeSection_lawful : (nodeSection n).Lawful (machine MemoryStorage) where
  quiet := by
    intro x o w r w' new hx ho
    have hcovers : (nodeSection n).Covers o :=
      ho.elim .inl fun h => .inr (.inr (.inr (.inr h)))
    cases o with
    | storage c =>
      cases hx
      rcases ho with ho | ho
      · cases c with
        | getNode m => rfl
        | getPolicyHistory m limit => rfl
        | storeAudit entry => rfl
        | _ => exact ho.elim
      · exact ho.elim
    | _ => exact quiet_of_not_storage hcovers (by simp) x hx
  taken := by
    intro x o w r w' new hx ho
    obtain rfl := nodeSection_takes ho
    cases hx
    refine ⟨?_, ?_⟩
    · show deployGuard.took (.storage (.beginDeploy n)) (Storage.call x.now (.beginDeploy n) w.storage).1 = !decide _
      rw [took_beginDeploy, decide_not]
    · show decide (n ∈ (Storage.call x.now (.beginDeploy n) w.storage).2.deploying) = true
      rw [call_deploying]
      simp
  works := by
    intro x o w r w' new hx ho hbusy
    have hcovers : (nodeSection n).Covers o := .inr (.inr (.inl ho))
    cases o with
    | storage c =>
      cases hx
      have hold : decide (n ∈ w.storage.deploying) = true := hbusy
      show decide (n ∈ (Storage.call x.now c w.storage).2.deploying) = true
      rw [call_deploying]
      rcases ho with ho | ⟨m, ho⟩
      · cases c with
        | beginDeploy m => exact ho.elim
        | endDeploy m => exact ho.elim
        | removeNode m => exact ho.elim
        | _ => exact hold
      · cases ho
    | _ =>
      rw [show (nodeSection n).view w' = (nodeSection n).view w from
        quiet_of_not_storage hcovers (by simp) x hx]
      exact hbusy
  trailing := by
    intro x o w r w' new hx ho u
    have hcovers : (nodeSection n).Covers o := .inr (.inr (.inr (.inr ho)))
    refine ⟨hcovers, ?_⟩
    cases o with
    | uuid =>
      -- the same world with no id drawn yet has the same view
      let v : World MemoryStorage := { u with issued := [] }
      exact ⟨⟨0, r, .elapsed false⟩, v, { v with issued := [r] }, [], rfl, rfl, rfl⟩
    | now => exact ⟨⟨r, "", .elapsed false⟩, u, u, [], rfl, rfl, rfl⟩
    | recordAudit entry => exact ⟨x, u, u, _, rfl, rfl, rfl⟩
    | _ => exact ho.elim

end Section

/-! ## The programs keep to it -/

/-- A deploy or rollback of the node that is to take its guard. -/
def Request.guardedOn (n : String) : Request → Bool
  | .deployPolicy req => req.nodeId = n
  | .rollbackPolicy m _ | .restRollbackPolicy m _ => m = n
  | .restDeployPolicy body => body.nodeId = n && !body.dryRun
  | _ => false

/-- It is one of them, or the entry in the audit log that one of them leaves. -/
def OnNode (n : String) (q : Request) : Prop := q.guardedOn n ∨ ∃ entry, q = .recordAudit entry

/-- A finished task is not in its section. -/
def Outgoing (_ : Request) (p : Phase) (_ : Reply) : Prop := p ≠ .inside

/-- The monitor of the section. -/
abbrev nodeMonitor (n : String) (leader : Bool) : Monitor Op Op.Res Phase :=
  (nodeSection n).monitor (AnswersAsLed leader)

section Programs

variable {n : String} {leader : Bool}

/-- What a request finds out before it takes the guard. -/
theorem wp_read {α : Type} {o : Op} {f : o.Res → Proc α} {Q : Phase → α → Prop}
    (hreads : (nodeSection n).reads o) (htakes : (nodeSection n).takes o = false)
    (hf : ∀ r : o.Res, AnswersAsLed leader o r → (f r).wp (nodeMonitor n leader) Q .before) :
    (Prog.call o f).wp (nodeMonitor n leader) Q .before := by
  refine ⟨.inl hreads, ?_⟩
  intro r hr
  have hnext : (nodeSection n).next .before o r = .before := by
    rw [Section.next, htakes]
    rfl
  show (f r).wp _ Q ((nodeSection n).next .before o r)
  rw [hnext]
  exact hf r hr

/-- What a request does after it has released the guard. -/
theorem wp_trailing {α : Type} {p : Proc α} {Q : Phase → α → Prop}
    (hp : p.Calls (nodeSection n).trails) (hQ : ∀ a, Q .after a) :
    p.wp (nodeMonitor n leader) Q .after := by
  induction p with
  | done a => exact hQ a
  | call o k ih => exact ⟨hp.1, fun r _ => ih r (hp.2 r)⟩

theorem wp_requireLeader {α : Type} {f : Unit → Proc (Except AppError α)}
    {Q : Phase → Except AppError α → Prop} (hQ : ∀ a, Q .before a)
    (hf : (f ()).wp (nodeMonitor n leader) Q .before) :
    (requireLeader.orReturn f).wp (nodeMonitor n leader) Q .before := by
  refine wp_read trivial rfl ?_
  intro r _
  cases r with
  | true => exact hf
  | false => exact hQ _

variable [Extern] (cfg : ControllerConfig)

theorem wp_inside_deploy {node : Node} (hnode : node.nodeId = n) (rulesYaml : String)
    (options : CompileOptions) :
    (deployToNode cfg node rulesYaml options).wp (nodeMonitor n leader)
      (fun p _ => p = .inside) .inside := by
  subst hnode
  refine Section.wp_inside ?_ fun _ => rfl
  have hbody : (deployToNodeBody cfg node rulesYaml options).Calls fun o =>
      (nodeSection node.nodeId).works o ∧ (nodeSection node.nodeId).leaves o = false := by
    refine (deployToNodeBody_calls cfg node rulesYaml options).mono ?_
    intro o ho
    refine ⟨.inl ho, ?_⟩
    by_contra hleaves
    cases nodeSection_leaves (by simpa using hleaves)
    exact ho
  exact calls_mark.2 ⟨⟨.inr ⟨_, rfl⟩, rfl⟩, hbody.bind fun _ =>
    calls_mark.2 ⟨⟨.inr ⟨_, rfl⟩, rfl⟩, trivial⟩⟩

/-- The shape in which a guarded deploy is written in the source. -/
theorem wp_guarded {α : Type} {node : Node} (hnode : node.nodeId = n) {rulesYaml : String}
    {options : CompileOptions} {k : StorageResult Unit → Proc α} {f : DeployOutcome → Proc α}
    {Q : Phase → α → Prop}
    (hk : k (.ok ()) = (deployToNode cfg node rulesYaml options).bind fun outcome =>
      (storage (.endDeploy n)).bind fun _ => f outcome)
    (herr : ∀ e, (k (.error e)).wp (nodeMonitor n leader) Q .before)
    (hf : ∀ outcome, (f outcome).wp (nodeMonitor n leader) Q .after) :
    ((storage (.beginDeploy n)).bind k).wp (nodeMonitor n leader) Q .before := by
  have htakes : (nodeSection n).takes (.storage (.beginDeploy n)) = true := by simp [nodeSection]
  have hleaves : (nodeSection n).leaves (.storage (.endDeploy n)) = true := by simp [nodeSection]
  refine wp_storage.2 ⟨.inr htakes, ?_⟩
  intro r _
  cases r with
  | error e =>
    have hnext : (nodeSection n).next .before (.storage (.beginDeploy n)) (.error e) = .before := by
      simp [Section.next, nodeSection, deployGuard]
    show (k (.error e)).wp _ Q ((nodeSection n).next .before _ _)
    rw [hnext]
    exact herr e
  | ok u =>
    have hnext : (nodeSection n).next .before (.storage (.beginDeploy n)) (.ok ()) = .inside := by
      simp [Section.next, nodeSection, deployGuard]
    show (k (.ok ())).wp _ Q ((nodeSection n).next .before _ _)
    rw [hnext, hk]
    refine Prog.wp_bind.2 ((wp_inside_deploy cfg hnode rulesYaml options).mono ?_)
    rintro p outcome rfl
    refine wp_storage.2 ⟨.inr hleaves, ?_⟩
    intro r _
    have hnext : (nodeSection n).next .inside (.storage (.endDeploy n)) r = .after := by
      rw [Section.next, if_pos hleaves]
    show (f outcome).wp _ Q ((nodeSection n).next .inside (.storage (.endDeploy n)) r)
    rw [hnext]
    exact hf outcome

theorem deployPolicy_wp {req : DeployPolicyRequest} (hq : req.nodeId = n) :
    (deployPolicy cfg req).wp (nodeMonitor n leader) (fun p _ => p ≠ .inside) .before := by
  subst hq
  refine wp_read rfl rfl ?_
  rintro (e | _ | node) hr
  · exact Phase.noConfusion
  · exact Phase.noConfusion
  · refine wp_guarded cfg (hr node rfl) (Prog.bind_assoc _ _ _) ?_ ?_
    · exact fun e => Phase.noConfusion
    · exact fun outcome => Phase.noConfusion

theorem rollbackPolicy_wp (targetVersion : Nat) :
    (rollbackPolicy cfg n targetVersion).wp (nodeMonitor n leader) (fun p _ => p ≠ .inside)
      .before := by
  refine wp_read rfl rfl ?_
  rintro (e | _ | node) hr
  · exact Phase.noConfusion
  · exact Phase.noConfusion
  · refine wp_read rfl rfl ?_
    rintro (e | versions) -
    · exact Phase.noConfusion
    · rw [Prog.done_bind]
      simp only
      split
      · exact Phase.noConfusion
      · exact Phase.noConfusion
      · refine wp_guarded cfg (hr node rfl) (Prog.bind_assoc _ _ _) ?_ ?_
        · exact fun e => Phase.noConfusion
        · exact fun outcome => Phase.noConfusion

theorem restDeployPolicy_wp {body : DeployRequest} (hq : body.nodeId = n)
    (hrun : body.dryRun = false) :
    (restDeployPolicy cfg body).wp (nodeMonitor n leader) (fun p _ => p ≠ .inside) .before := by
  subst hq
  refine wp_requireLeader (fun _ => Phase.noConfusion) ?_
  refine wp_read rfl rfl ?_
  rintro (e | _ | node) hr
  · exact Phase.noConfusion
  · exact Phase.noConfusion
  · simp only [hrun]
    refine wp_guarded cfg (hr node rfl) rfl ?_ ?_
    · exact fun e => Phase.noConfusion
    · intro outcome
      refine wp_trailing ?_ fun _ => Phase.noConfusion
      exact ⟨trivial, fun _ => ⟨trivial, fun _ => ⟨trivial, fun _ => trivial⟩⟩⟩

theorem restRollbackPolicy_wp (targetVersion : Nat) :
    (restRollbackPolicy cfg n targetVersion).wp (nodeMonitor n leader) (fun p _ => p ≠ .inside)
      .before := by
  refine wp_requireLeader (fun _ => Phase.noConfusion) ?_
  refine wp_read rfl rfl ?_
  rintro (e | _ | node) hr
  · exact Phase.noConfusion
  · exact Phase.noConfusion
  · refine wp_read rfl rfl ?_
    rintro (e | versions) -
    · exact Phase.noConfusion
    · rw [Prog.done_bind]
      simp only
      split
      · exact Phase.noConfusion
      · exact Phase.noConfusion
      · refine wp_guarded cfg (hr node rfl) rfl ?_ ?_
        · exact fun e => Phase.noConfusion
        · exact fun outcome => Phase.noConfusion

theorem serve_onNode {q : Request} (hq : OnNode n q) :
    (serve cfg q).wp (nodeMonitor n leader) (Outgoing q) .before := by
  rcases hq with hq | ⟨entry, rfl⟩
  · cases q with
    | deployPolicy req =>
      exact Prog.wp_bind.2 (deployPolicy_wp cfg (of_decide_eq_true hq))
    | rollbackPolicy m targetVersion =>
      obtain rfl : m = n := of_decide_eq_true hq
      exact Prog.wp_bind.2 (rollbackPolicy_wp cfg targetVersion)
    | restDeployPolicy body =>
      simp only [Request.guardedOn, Bool.and_eq_true, decide_eq_true_eq, Bool.not_eq_true'] at hq
      exact Prog.wp_bind.2 (restDeployPolicy_wp cfg hq.1 hq.2)
    | restRollbackPolicy m targetVersion =>
      obtain rfl : m = n := of_decide_eq_true hq
      exact Prog.wp_bind.2 (restRollbackPolicy_wp cfg targetVersion)
    | _ => cases hq
  · exact wp_read trivial rfl fun _ _ => Phase.noConfusion

/-- What the storage and the leader flag answer. -/
theorem answersAsLed_of_exec {x : Ext} {o : Op} {w w' : World MemoryStorage} {r : o.Res}
    {new : List Request} (hleader : w.leader = leader) (hx : World.exec x o w = some (r, w', new)) :
    AnswersAsLed leader o r := by
  cases o with
  | isLeader =>
    cases hx
    exact hleader
  | storage c =>
    cases hx
    cases c with
    | getNode m =>
      intro node hnode
      exact Table.key_of_get? (Except.ok.inj hnode)
    | storeAudit entry => rfl
    | _ => trivial
  | _ => trivial

theorem nodeSection_guarantee :
    (controller cfg MemoryStorage).Guarantee (nodeMonitor n leader) .before Outgoing
      (fun w => w.leader = leader) (OnNode n) where
  prog _ hq := serve_onNode cfg hq
  exec := by
    intro p x o w r w' new hleader hallow hx
    have hs := World.stepped_of_exec hx
    refine ⟨hs.leader.trans hleader, answersAsLed_of_exec hleader hx, ?_⟩
    intro q hq
    rw [hs.new] at hq
    have hcovers := Section.covers_of_allow hallow
    cases o with
    | recordAudit entry => exact .inr ⟨entry, List.mem_singleton.1 hq⟩
    | joinSetSpawn joinSet req node =>
      rcases hcovers with h | h | (h | ⟨m, h⟩) | h | h
      · exact h.elim
      · cases nodeSection_takes h
      · exact h.elim
      · cases h
      · cases nodeSection_leaves h
      · exact h.elim
    | _ => exact nomatch hq

end Programs

/-! ## The law -/

/-- Deploys and rollbacks of the node arrive, and their tasks run in any order. -/
def OnlyOnNode (n : String) : StepCondition
  | _, .arrive q => q.guardedOn n
  | _, .run _ _ => True
  | _, .env _ => False

/-- The task has replied. -/
def Finished (t : Task) : Prop := ∃ reply, t.prog = .done reply

/-- The task has taken the guard of the node, and was not refused it. -/
def AcquiredGuard (n : String) (t : Task) : Prop :=
  ⟨.storage (.beginDeploy n), .ok ()⟩ ∈ t.trace ∧
    ∀ e, ⟨.storage (.beginDeploy n), .error e⟩ ∉ t.trace

/-- The answers of the agents to the calls of a task, in their order. -/
def agentAnswers (trace : List ((o : Op) × o.Res)) : List AgentAnswer :=
  trace.filterMap fun e => match e with
    | ⟨.deployRules _ _, r⟩ => some r
    | _ => none

/-- Two executions of one request with one reply, for which the agents do the same as far as both
    call them. -/
structure SameExecution (t u : Task) : Prop where
  req : u.req = t.req
  prog : u.prog = t.prog
  agents : ∀ a ∈ (agentAnswers t.trace).zip (agentAnswers u.trace), a.1 = a.2

/-- The stored policy, versions and record of the node are the same. -/
def SameNode (n : String) (w u : World MemoryStorage) : Prop :=
  w.storage.policies.get? n = u.storage.policies.get? n ∧
    w.storage.versionsOf n = u.storage.versionsOf n ∧
    w.storage.nodes.get? n = u.storage.nodes.get? n

/-- **Deploys and rollbacks of a node that take its guard are serializable**: some serial execution
    of the same requests ends with the same stored for the node and the same replies. -/
def Serializable [Extern] (cfg : ControllerConfig) (n : String) (C : StepCondition) : Prop :=
  ∀ (c₀ c : Pool), c₀.threads = [] →
    (controller cfg MemoryStorage).Steps (fun c l => OnlyOnNode n c l ∧ C c l) c₀ c →
    (∀ t ∈ c.threads, t.req.guardedOn n → Finished t ∧ AcquiredGuard n t) →
    ∃ (order : List Nat) (us : List Task) (w : World MemoryStorage),
      (order.Nodup ∧ ∀ i, i ∈ order ↔ ∃ t, c.threads[i]? = some t ∧ t.req.guardedOn n) ∧
      (controller cfg MemoryStorage).SerialRun us c₀.shared w ∧
      List.Forall₂ (fun i u => ∃ t, c.threads[i]? = some t ∧ SameExecution t u) order us ∧
      SameNode n c.shared w

/-- The storage would answer a reading of the record or the versions of a node so now. -/
def stillStored (s : MemoryStorage) : (o : Op) → o.Res → Bool
  | .storage (.getNode m), r => r = s.getNode m
  | .storage (.getPolicyHistory m limit), r => r = s.getPolicyHistory m limit
  | _, _ => true

/-- The task is about to take the guard of the node. -/
def takesGuard (n : String) (t : Task) : Bool :=
  match t.prog with
  | .call (.storage (.beginDeploy m)) _ => m = n
  | _ => false

/-- **What a task that takes the guard of the node has read is still stored.** -/
def ReadingsCurrent (n : String) : StepCondition
  | c, .run i _ => ∀ t ∈ c.threads[i]?, takesGuard n t → n ∉ c.shared.storage.deploying →
      ∀ e ∈ t.trace, stillStored c.shared.storage e.1 e.2
  | _, _ => True

section Law

variable {n : String}

theorem sameExecution_refl (t : Task) : SameExecution t t := by
  refine ⟨rfl, rfl, ?_⟩
  intro a ha
  obtain ⟨i, hi⟩ := List.getElem?_of_mem ha
  rw [List.getElem?_zip_eq_some] at hi
  exact Option.some.inj (hi.1.symm.trans hi.2)

/-- A reading that is still stored is one that can be made now. -/
theorem fits_of_stillStored [Extern] {w : World MemoryStorage} {e : (o : Op) × o.Res}
    (hreads : (nodeSection n).reads e.1) (hexpect : AnswersAsLed w.leader e.1 e.2)
    (hstored : stillStored w.storage e.1 e.2) :
    (nodeSection n).Fits (machine MemoryStorage) e (nodeView n w) (nodeView n w) := by
  refine ⟨.inl hreads, .quiet 0 "", w, ?_⟩
  obtain ⟨o, r⟩ := e
  cases o with
  | isLeader =>
    obtain rfl : r = w.leader := hexpect
    exact ⟨w, [], rfl, rfl, rfl⟩
  | storage c =>
    cases c with
    | getNode m =>
      obtain rfl : r = w.storage.getNode m := of_decide_eq_true hstored
      exact ⟨w, [], rfl, rfl, rfl⟩
    | getPolicyHistory m limit =>
      obtain rfl : r = w.storage.getPolicyHistory m limit := of_decide_eq_true hstored
      exact ⟨w, [], rfl, rfl, rfl⟩
    | storeAudit entry =>
      obtain rfl : r = .ok () := hexpect
      exact ⟨{ w with storage := (w.storage.storeAudit entry).2 }, [], rfl, rfl, rfl⟩
    | _ => exact hreads.elim
  | _ => exact hreads.elim

theorem validated_of_readingsCurrent [Extern] {c : Pool} {l : StepLabel}
    (honly : OnlyOnNode n c l) (hcurrent : ReadingsCurrent n c l) :
    (nodeSection n).Validated (machine MemoryStorage) (AnswersAsLed c.shared.leader) c l := by
  cases l with
  | arrive q => trivial
  | env w => exact honly.elim
  | run i x =>
    intro t ht
    have hcurrent := hcurrent t ht
    unfold Section.UpToDate
    unfold takesGuard at hcurrent
    split
    · trivial
    · rename_i o k hk
      intro htakes hfree e he hreads hexpect
      obtain rfl := nodeSection_takes htakes
      rw [hk] at hcurrent
      exact fits_of_stillStored hreads hexpect (hcurrent (by simp) (of_decide_eq_false hfree) e he)

theorem serializable [Extern] (cfg : ControllerConfig) (n : String) :
    Serializable cfg n (ReadingsCurrent n) := by
  intro c₀ c hidle hrun hall
  have hrelies : System.Relies (fun c l => OnlyOnNode n c l ∧ ReadingsCurrent n c l)
      (fun w => w.leader = c₀.shared.leader) (OnNode n) :=
    ⟨fun c q h => .inl h.1, fun c w h => h.1.elim⟩
  have hguarantee : (controller cfg MemoryStorage).Guarantee (nodeMonitor n c₀.shared.leader)
      .before Outgoing (fun w => w.leader = c₀.shared.leader) (OnNode n) :=
    nodeSection_guarantee cfg
  have hstart : System.AllWatched (nodeMonitor n c₀.shared.leader) .before Outgoing
      (fun w => w.leader = c₀.shared.leader) c₀ := System.allWatched_of_idle rfl hidle
  have hserved := hrun.served hguarantee hrelies hstart (by simp [hidle])
  have hunfolds := hrun.unfolds hidle
  have hwatched := hrun.watched hguarantee hrelies hstart
  -- a task that is not a deploy or rollback does not ask for the guard
  have hinternal : ∀ t ∈ c.threads, t.req.guardedOn n = false → ∀ e ∈ t.trace,
      (nodeSection n).takes e.1 = false := by
    intro t ht hreq e he
    rcases hserved t ht with h | ⟨entry, hentry⟩
    · exact absurd h (by simp [hreq])
    · have hcalls : (serve cfg t.req).Calls fun o => (nodeSection n).takes o = false := by
        rw [hentry]
        exact ⟨rfl, fun _ => trivial⟩
      exact (hunfolds t ht).calls hcalls e he
  have hnone : ∀ t ∈ c.threads, ¬ (nodeSection n).Refused t := by
    rintro t ht ⟨⟨o, r⟩, he, htakes, hrefused⟩
    cases hreq : t.req.guardedOn n with
    | false => simp [hinternal t ht hreq _ he] at htakes
    | true =>
      obtain rfl := nodeSection_takes htakes
      cases r with
      | ok u => exact absurd hrefused (by simp [nodeSection, deployGuard])
      | error e => exact (hall t ht hreq).2.2 e he
  obtain ⟨order, horder⟩ := nodeSection_lawful.ordered hguarantee hrelies
    (fun c l hleader h => hleader ▸ validated_of_readingsCurrent h.1 h.2) hrun rfl hidle hnone
  obtain ⟨us, w, hserial, hview, hus⟩ := horder.serialRun nodeSection_replays uuids_lawful
    (uuids_lawful.fresh (fun c w h => h.1.elim) hrun hidle) hunfolds
  refine ⟨order, us, w, ⟨horder.nodup, fun i => ?_⟩, hserial, ?_, ?_⟩
  · refine (horder.entered i).trans ⟨?_, ?_⟩
    · rintro ⟨t, ht, hphase⟩
      refine ⟨t, ht, ?_⟩
      by_contra hreq
      exact hphase (Section.phase_eq_before
        (hinternal t (List.mem_of_getElem? ht) (by simpa using hreq)))
    · rintro ⟨t, ht, hreq⟩
      have hacquired := (hall t (List.mem_of_getElem? ht) hreq).2
      exact ⟨t, ht, Section.phase_ne_before hacquired.1 (by simp [nodeSection]) rfl⟩
  · refine hus.imp ?_
    intro i u hu
    exact ⟨u, hu, sameExecution_refl u⟩
  · have hview : nodeView n w = nodeView n c.shared := hview
    exact ⟨(congrArg NodeView.policy hview).symm, (congrArg NodeView.versions hview).symm,
      (congrArg NodeView.node hview).symm⟩

end Law

/-! ## Two rollbacks to the previous version -/

/-- The options of versions that every node can compile. -/
def plainOptions : CompileOptions := normalizeOptions .default

/-- The node has been deployed to `k` times, the last two times different rules, and the last are
    stored. -/
structure Alternates (n : String) (k : Nat) (w : World MemoryStorage) : Prop where
  node : (w.storage.nodes.get? n).isSome
  count : (w.storage.versionsOf n).length = k
  differ : ∃ newest prev rest, (w.storage.versionsOf n).reverse = newest :: prev :: rest ∧
    newest.rulesYaml ≠ prev.rulesYaml ∧ newest.options = plainOptions ∧
    prev.options = plainOptions ∧
    (w.storage.policies.get? n).map Policy.rulesYaml = some newest.rulesYaml

theorem node_isSome_of_exec [Extern] {n : String} {x : Ext} {o : Op} {w w' : World MemoryStorage}
    {r : o.Res} {new : List Request} (ho : LeavesPolicies n o)
    (hx : World.exec x o w = some (r, w', new)) (hw : (w.storage.nodes.get? n).isSome) :
    (w'.storage.nodes.get? n).isSome := by
  have hs := (World.stepped_of_exec hx).storage
  cases o with
  | storage c =>
    have hc : w'.storage = w.storage.after x.now c := by
      rw [← MemoryStorage.call_snd]
      exact congrArg Prod.snd hs
    rw [hc]
    cases c with
    | registerNode node =>
      show ((w.storage.nodes.insert node).get? n).isSome
      rw [Table.get?_insert]
      split
      · rfl
      · exact hw
    | removeNode m =>
      show ((w.storage.nodes.erase m).get? n).isSome
      rw [Table.get?_erase, if_neg (Ne.symm ho)]
      exact hw
    | updateHeartbeat m state uptime =>
      simp only [MemoryStorage.after, Table.get?_modify]
      split <;> simp [hw]
    | updateNodeState m state =>
      simp only [MemoryStorage.after, Table.get?_modify]
      split <;> simp [hw]
    | updateAnnotations m set remove =>
      simp only [MemoryStorage.after, Table.get?_modify]
      split <;> simp [hw]
    | markStaleNodes threshold =>
      simp only [MemoryStorage.after, MemoryStorage.markStaleNodes, Table.get?_mapAll]
      simp [hw]
    | _ => exact hw
  | _ =>
    have hc : w'.storage = w.storage := hs
    rw [hc]
    exact hw

theorem Alternates.of_exec [Extern] {n : String} {k : Nat} {x : Ext} {o : Op}
    {w w' : World MemoryStorage} {r : o.Res} {new : List Request} (ho : LeavesPolicies n o)
    (hx : World.exec x o w = some (r, w', new)) (h : Alternates n k w) : Alternates n k w' := by
  have hsame := samePolicies_of_exec ho hx
  refine ⟨node_isSome_of_exec ho hx h.node, ?_, ?_⟩
  · rw [hsame.versions]
    exact h.count
  · rw [hsame.versions, hsame.policy]
    exact h.differ

/-- Every node can compile the plain options. -/
theorem ensureNodeCapabilities_plain (node : Node) :
    ensureNodeCapabilities node plainOptions = .ok () := rfl

section Alone

variable [Extern] (cfg : ControllerConfig) {n : String} {k : Nat} {w : World MemoryStorage}

/-- A storage call whose answer is known. -/
theorem ensures_answered {α : Type} {c : StorageCall} {f : c.Res → Proc α}
    {Q : α → World MemoryStorage → Prop} {r : c.Res} {t : MemoryStorage}
    (hc : ∀ now, Storage.call now c w.storage = (r, t))
    (h : (machine MemoryStorage).Ensures Eq (f r) Q { w with storage := t }) :
    (machine MemoryStorage).Ensures Eq
      (@Prog.bind Op Op.Res (no_index c.Res) α (storage c) f) Q w := by
  refine ensures_storage.2 ?_
  rintro _ rfl now
  rw [hc now]
  exact h

/-- What leaves the policies alone keeps the node where it is. -/
theorem ensures_alternates {α : Type} {p : Proc α} (hp : p.Calls (LeavesPolicies n))
    (h : Alternates n k w) :
    (machine MemoryStorage).Ensures Eq p (fun _ w' => Alternates n k w') w :=
  Machine.ensures_of_invariant (fun _ _ heq h => heq ▸ h)
    (fun _ ho _ _ _ _ hx h => h.of_exec ho hx) hp h

/-- Once the previous version is stored again, there is one more. -/
theorem storeAndForward_alternates {node : Node} (hnode : node.nodeId = n)
    (h : Alternates n k w) {newest prev : PolicyVersion} {rest : List PolicyVersion}
    (hversions : (w.storage.versionsOf n).reverse = newest :: prev :: rest)
    (hdiffer : newest.rulesYaml ≠ prev.rulesYaml) (hplain : newest.options = plainOptions)
    (hash : String) :
    (machine MemoryStorage).Ensures Eq
      (storeAndForward cfg node prev.rulesYaml hash plainOptions)
      (fun _ w' => Alternates n (k + 1) w') w := by
  subst hnode
  refine ensures_op.2 ?_
  rintro _ rfl x deployedAt w₁ hx
  obtain rfl : w₁ = w := (congrArg (fun r => r.2.1) (Option.some.inj hx)).symm
  refine ensures_storage.2 ?_
  rintro _ rfl now
  let policy := requestedPolicy node.nodeId prev.rulesYaml hash deployedAt plainOptions
  have hstored : (w₁.storage.storePolicy policy).2.versionsOf node.nodeId =
      w₁.storage.versionsOf node.nodeId ++
        [{ policy with version := (w₁.storage.versionsOf node.nodeId).length + 1 }] := by
    rw [versionsOf_storePolicy]
    exact if_pos rfl
  refine ensures_alternates ?_ ⟨h.node, ?_, ?_⟩
  · show Prog.Calls _ (Prog.bind _ _)
    rw [calls_storage]
    simp [LeavesPolicies]
  · show ((w₁.storage.storePolicy policy).2.versionsOf node.nodeId).length = k + 1
    rw [hstored, List.length_append, h.count]
    rfl
  · refine ⟨{ policy with version := (w₁.storage.versionsOf node.nodeId).length + 1 }, newest,
      prev :: rest, ?_, Ne.symm hdiffer, ?_, hplain, ?_⟩
    · show ((w₁.storage.storePolicy policy).2.versionsOf node.nodeId).reverse = _
      rw [hstored, List.reverse_append, hversions]
      rfl
    · rfl
    · show ((w₁.storage.policies.insert policy).get? policy.nodeId).map Policy.rulesYaml = _
      rw [Table.get?_insert_self]
      rfl

theorem deployToNodeBody_alternates {node : Node} (hnode : node.nodeId = n)
    (h : Alternates n k w) {newest prev : PolicyVersion} {rest : List PolicyVersion}
    (hversions : (w.storage.versionsOf n).reverse = newest :: prev :: rest)
    (hdiffer : newest.rulesYaml ≠ prev.rulesYaml) (hplain : newest.options = plainOptions)
    (hprev : prev.options = plainOptions)
    (hpolicy : (w.storage.policies.get? n).map Policy.rulesYaml = some newest.rulesYaml) :
    (machine MemoryStorage).Ensures Eq (deployToNodeBody cfg node prev.rulesYaml prev.options)
      (fun _ w' => Alternates n (k + 1) w') w := by
  obtain ⟨policy, hstored, hrules⟩ := Option.map_eq_some_iff.1 hpolicy
  have hnormal : normalizeOptions prev.options = plainOptions := by
    rw [hprev]
    rfl
  simp only [deployToNodeBody, hnormal, ensureNodeCapabilities_plain]
  refine ensures_answered (r := .ok (some policy)) (t := w.storage) (fun _ => ?_) ?_
  · show (w.storage.getPolicy node.nodeId, w.storage) = _
    rw [MemoryStorage.getPolicy, hnode, hstored]
  -- other rules are stored than those that are asked for
  have hother : policyMatchesRequest policy prev.rulesYaml (policyHash prev.rulesYaml)
      plainOptions = false := by
    rw [Bool.eq_false_iff]
    intro hmatches
    exact hdiffer (hrules.symm.trans (policyMatchesRequest_iff.1 hmatches).1)
  simp only [Option.any_some, hother, Bool.and_false]
  exact storeAndForward_alternates cfg hnode h hversions hdiffer hplain _

/-- A rollback that nobody disturbs stores the previous version as a new one. -/
theorem rollbackPolicy_alternates (h : Alternates n k w) (hfree : n ∉ w.storage.deploying) :
    (machine MemoryStorage).Ensures Eq (rollbackPolicy cfg n 0)
      (fun _ w' => Alternates n (k + 1) w' ∧ n ∉ w'.storage.deploying) w := by
  obtain ⟨node, hnode⟩ := Option.isSome_iff_exists.1 h.node
  obtain ⟨newest, prev, rest, hversions, hdiffer, hnewest, hprev, hpolicy⟩ := h.differ
  have hid : node.nodeId = n := Table.key_of_get? hnode
  -- what it reads
  refine ensures_answered (r := .ok (some node)) (t := w.storage) (fun _ => ?_) ?_
  · show (w.storage.getNode n, w.storage) = _
    rw [MemoryStorage.getNode, hnode]
  refine ensures_answered (r := .ok (newest :: prev :: rest.take 8)) (t := w.storage)
    (fun _ => ?_) ?_
  · show (w.storage.getPolicyHistory n 10, w.storage) = _
    rw [MemoryStorage.getPolicyHistory, hversions]
    rfl
  -- the guard
  let t : MemoryStorage := { w.storage with deploying := insert n w.storage.deploying }
  refine ensures_answered (r := .ok ()) (t := t) (fun _ => ?_) ?_
  · show w.storage.beginDeploy n = _
    rw [MemoryStorage.beginDeploy, if_neg hfree]
  refine Machine.ensures_bind.2 (Machine.Ensures.mono (Q := fun _ w' => Alternates n (k + 1) w')
    ?_ ?_)
  · refine Machine.ensures_bind.2 (Machine.Ensures.mono ?_ fun _ _ h => h)
    refine ensures_mark.2 ?_
    rintro _ rfl
    refine Machine.ensures_bind.2 (Machine.Ensures.mono (Q := fun _ w' => Alternates n (k + 1) w')
      ?_ fun _ w' h => ?_)
    · let w₁ : World MemoryStorage :=
        { w with storage := t, marks := w.marks ++ [.enterDeploy node.nodeId] }
      exact deployToNodeBody_alternates (w := w₁) cfg hid ⟨h.node, h.count, h.differ⟩ hversions
        hdiffer hnewest hprev hpolicy
    · exact ensures_alternates ⟨trivial, fun _ => trivial⟩ h
  · intro response w' h
    refine ensures_storage.2 ?_
    rintro _ rfl now
    refine ⟨⟨h.node, h.count, h.differ⟩, ?_⟩
    show n ∉ w'.storage.deploying.erase n
    simp

/-- A gRPC rollback starts no task. -/
theorem rollbackPolicy_startsNone (n : String) (targetVersion : Nat) :
    (serve cfg (.rollbackPolicy n targetVersion)).Calls fun o => World.spawnsOf o = [] := by
  have hdeploy (node : Node) (rulesYaml : String) (options : CompileOptions) :
      (deployToNode cfg node rulesYaml options).Calls fun o => World.spawnsOf o = [] := by
    have hbody : (deployToNodeBody cfg node rulesYaml options).Calls
        fun o => World.spawnsOf o = [] := by
      refine (deployToNodeBody_calls cfg node rulesYaml options).mono ?_
      intro o ho
      cases o with
      | recordAudit entry => exact ho.elim
      | joinSetSpawn joinSet req node => exact ho.elim
      | _ => rfl
    exact calls_mark.2 ⟨rfl, hbody.bind fun _ => calls_mark.2 ⟨rfl, trivial⟩⟩
  refine .bind ?_ fun _ => trivial
  refine calls_storage.2 ⟨rfl, ?_⟩
  rintro (e | _ | node)
  · trivial
  · trivial
  · refine calls_storage.2 ⟨rfl, ?_⟩
    rintro (e | versions)
    · trivial
    · simp only
      split
      · trivial
      · trivial
      · refine calls_storage.2 ⟨rfl, ?_⟩
        rintro (e | u)
        · trivial
        · exact .bind (.bind (hdeploy _ _ _) fun _ => trivial) fun _ =>
            calls_storage.2 ⟨rfl, fun _ => trivial⟩

/-- Rollbacks that run one after the other each store a version. -/
theorem serialRun_alternates {us : List Task} {w' : World MemoryStorage}
    (hus : ∀ u ∈ us, u.req = .rollbackPolicy n 0 ∧ Finished u) (h : Alternates n k w)
    (hfree : n ∉ w.storage.deploying)
    (hrun : (controller cfg MemoryStorage).SerialRun us w w') : Alternates n (k + us.length) w' := by
  induction us generalizing k w with
  | nil =>
    obtain rfl : w' = w := hrun
    exact h
  | cons u us ih =>
    obtain ⟨hunfolds, w₁, hperforms, hrest⟩ := hrun
    obtain ⟨hreq, reply, hreply⟩ := hus u List.mem_cons_self
    have hcalls : (serve cfg u.req).Calls fun o => ∀ x w r w' new,
        (machine MemoryStorage).exec x o w = some (r, w', new) → new = [] := by
      rw [hreq]
      refine (rollbackPolicy_startsNone cfg n 0).mono ?_
      intro o ho x w r w' new hx
      rw [(World.stepped_of_exec hx).new, ho]
    rw [hreply] at hunfolds
    have hexec := Machine.Exec.of_performs hcalls hunfolds hperforms
    rw [hreq] at hexec
    obtain ⟨h₁, hfree₁⟩ : Alternates n (k + 1) w₁ ∧ n ∉ w₁.storage.deploying := by
      refine hexec.ensures (Q := fun _ w' => Alternates n (k + 1) w' ∧ n ∉ w'.storage.deploying) ?_
      refine Machine.ensures_bind.2
        (Machine.Ensures.mono (rollbackPolicy_alternates cfg h hfree) ?_)
      exact fun _ _ h => h
    rw [List.length_cons, Nat.add_comm us.length 1, ← Nat.add_assoc]
    exact ih (fun u hu => hus u (List.mem_cons_of_mem _ hu)) h₁ hfree₁ hrest

end Alone

/-! ## Runs that can be computed -/

/-- A controller with the node "n1", to which two policies were deployed. -/
def Pool.twiceDeployed : Pool := ⟨.storing ["rules: [a]", "rules: [b]"], []⟩

/-- A request to go back to the previous version. -/
def rollbackN1 : Request := .rollbackPolicy "n1" 0

def Request.isRollbackN1 : Request → Bool
  | .rollbackPolicy n targetVersion => n = "n1" && targetVersion = 0
  | _ => false

/-- The task has served a rollback to the previous version, under the guard. -/
def rolledBack (t : Task) : Bool :=
  t.req.isRollbackN1 &&
    (match t.prog with | .done _ => true | .call _ _ => false) &&
    (t.trace.any fun e => match e with
      | ⟨.storage (.beginDeploy m), .ok ()⟩ => m = "n1"
      | _ => false) &&
    t.trace.all fun e => match e with
      | ⟨.storage (.beginDeploy m), .error _⟩ => m ≠ "n1"
      | _ => true

theorem rolledBack_sound {t : Task} (h : rolledBack t) :
    t.req = rollbackN1 ∧ Finished t ∧ AcquiredGuard "n1" t := by
  simp only [rolledBack, Bool.and_eq_true] at h
  obtain ⟨⟨⟨hreq, hdone⟩, htaken⟩, hnone⟩ := h
  refine ⟨?_, ?_, ?_, ?_⟩
  · cases hq : t.req with
    | rollbackPolicy n targetVersion =>
      rw [hq] at hreq
      simp only [Request.isRollbackN1, Bool.and_eq_true, decide_eq_true_eq] at hreq
      rw [hreq.1, hreq.2]
      rfl
    | _ => simp [hq, Request.isRollbackN1] at hreq
  · cases hprog : t.prog with
    | done reply => exact ⟨reply, hprog⟩
    | call o k => simp [hprog] at hdone
  · obtain ⟨e, he, htaken⟩ := List.any_eq_true.1 htaken
    split at htaken
    · rename_i m
      rw [← of_decide_eq_true htaken]
      exact he
    · exact absurd htaken (by simp)
  · intro e he
    have := List.all_eq_true.1 hnone _ he
    simp at this

/-- Serialized or not, every task of the pool is one of them. -/
def allRolledBack (c : Pool) : Bool := c.threads.all rolledBack

/-- Each reads what is stored and the guard is taken twice, one after the other. -/
def overlappingRollbacks : List StepLabel :=
  [.arrive rollbackN1, .arrive rollbackN1] ++ drawingTurns 0 0 2 .compiled ++
    drawingTurns 1 2 2 .compiled ++ drawingTurns 0 4 12 .compiled ++ drawingTurns 1 16 9 .compiled

/-- The second reads when the first is through. -/
def serialRollbacks : List StepLabel :=
  [.arrive rollbackN1, .arrive rollbackN1] ++ drawingTurns 0 0 14 .compiled ++
    drawingTurns 1 14 14 .compiled

/-- The check of the runs here. -/
def onlyOnN1 : Pool → StepLabel → Bool
  | _, .arrive q => q.guardedOn "n1"
  | _, .run _ _ => true
  | _, .env _ => false

theorem onlyOnN1_sound {c : Pool} {l : StepLabel} (h : onlyOnN1 c l) : OnlyOnNode "n1" c l := by
  cases l with
  | arrive q => exact h
  | run i x => trivial
  | env w => exact nomatch h

instance (n : String) : (c : Pool) → (l : StepLabel) → Decidable (ReadingsCurrent n c l)
  | c, .run i _ => inferInstanceAs (Decidable (∀ t ∈ c.threads[i]?, _ → _ → ∀ e ∈ t.trace, _))
  | _, .arrive _ | _, .env _ => .isTrue trivial

theorem alternates_twiceDeployed : Alternates "n1" 2 Pool.twiceDeployed.shared where
  node := by decide +kernel
  count := by decide +kernel
  differ := by
    let version (rulesYaml : String) (k : Nat) : PolicyVersion :=
      { requestedPolicy "n1" rulesYaml (@policyHash .sample rulesYaml) 0 plainOptions with version := k }
    exact ⟨version "rules: [b]" 2, version "rules: [a]" 1, [], by decide +kernel⟩

/-- Two rollbacks, the second after the first. -/
theorem serializable_rollbacks :
    ∃ (c : Pool) (order : List Nat) (us : List Task) (w : World MemoryStorage),
      (∀ t ∈ c.threads, AcquiredGuard "n1" t) ∧ (c.shared.storage.versionsOf "n1").length = 4 ∧
      (@controller .sample plainConfig MemoryStorage _).SerialRun us Pool.twiceDeployed.shared w ∧
      List.Forall₂ (fun i u => ∃ t, c.threads[i]? = some t ∧ SameExecution t u) order us ∧
      SameNode "n1" c.shared w := by
  obtain ⟨c, _, hrun, -, hc⟩ := System.steps_of_runs
    (C := fun c l => OnlyOnNode "n1" c l ∧ ReadingsCurrent "n1" c l)
    (@controller .sample plainConfig MemoryStorage _) Pool.twiceDeployed
    (fun c l (h : onlyOnN1 c l && decide (ReadingsCurrent "n1" c l)) => by
      obtain ⟨honly, hcurrent⟩ := Bool.and_eq_true_iff.1 h
      exact ⟨onlyOnN1_sound honly, of_decide_eq_true hcurrent⟩)
    serialRollbacks []
    (fun c _ => allRolledBack c && decide ((c.shared.storage.versionsOf "n1").length = 4))
    (by decide +kernel)
  obtain ⟨hall, hversions⟩ := Bool.and_eq_true_iff.1 hc
  have hall : ∀ t ∈ c.threads, Finished t ∧ AcquiredGuard "n1" t := fun t ht =>
    (rolledBack_sound (List.all_eq_true.1 hall t ht)).2
  obtain ⟨order, us, w, -, hserial, hus, hsame⟩ := @serializable .sample plainConfig "n1"
    Pool.twiceDeployed c rfl hrun fun t ht _ => hall t ht
  exact ⟨c, order, us, w, fun t ht => (hall t ht).2, of_decide_eq_true hversions, hserial, hus,
    hsame⟩

/-- Two rollbacks that both read before either takes the guard go back to one version, and the
    second changes nothing. One after the other each adds a version. -/
theorem not_serializable :
    ¬ @Serializable .sample plainConfig "n1" fun _ _ => True := by
  intro h
  obtain ⟨c, _, hrun, -, hc⟩ := System.steps_of_runs
    (C := fun c l => OnlyOnNode "n1" c l ∧ True)
    (@controller .sample plainConfig MemoryStorage _) Pool.twiceDeployed
    (fun c l (hl : onlyOnN1 c l) => ⟨onlyOnN1_sound hl, trivial⟩) overlappingRollbacks []
    (fun c _ => allRolledBack c && decide (c.threads.length = 2 ∧
      (c.shared.storage.versionsOf "n1").length = 3))
    (by decide +kernel)
  obtain ⟨hall, hcounts⟩ := Bool.and_eq_true_iff.1 hc
  obtain ⟨hlength, hversions⟩ := of_decide_eq_true hcounts
  have hall : ∀ t ∈ c.threads, t.req = rollbackN1 ∧ Finished t ∧ AcquiredGuard "n1" t :=
    fun t ht => rolledBack_sound (List.all_eq_true.1 hall t ht)
  obtain ⟨order, us, w, ⟨hnd, horder⟩, hserial, hus, -, hsame, -⟩ := h Pool.twiceDeployed c rfl hrun
    fun t ht _ => (hall t ht).2
  -- both tasks are in the order
  have hperm : order.Perm (List.range 2) := by
    refine (List.perm_ext_iff_of_nodup hnd List.nodup_range).2 ?_
    intro i
    rw [horder i, List.mem_range, ← hlength]
    constructor
    · rintro ⟨t, ht, -⟩
      exact (List.getElem?_eq_some_iff.1 ht).1
    · intro hi
      refine ⟨c.threads[i], List.getElem?_eq_getElem hi, ?_⟩
      rw [(hall _ (List.getElem_mem hi)).1]
      rfl
  have hcount : us.length = 2 := by
    rw [← hus.length_eq, hperm.length_eq, List.length_range]
  have hthreads : ∀ u ∈ us, u.req = .rollbackPolicy "n1" 0 ∧ Finished u := by
    refine ((List.forall₂_and_left (R := fun _ _ => True) us order).1
      (List.Forall₂.flip (hus.imp ?_))).1
    rintro i u ⟨t, ht, hsame⟩
    obtain ⟨hreq, ⟨reply, hreply⟩, -⟩ := hall t (List.mem_of_getElem? ht)
    exact ⟨⟨hsame.req.trans hreq, reply, hsame.prog.trans hreply⟩, trivial⟩
  have hfour := (@serialRun_alternates .sample plainConfig "n1" 2 _ us w hthreads
    alternates_twiceDeployed (by decide +kernel) hserial).count
  rw [← hsame, hversions, hcount] at hfour
  exact absurd hfour (by decide)

end PaciNet

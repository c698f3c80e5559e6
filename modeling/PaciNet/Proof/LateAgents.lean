import PaciNet.Proof.Runs
import PaciNet.Server.Exchange

/-!
# Late agents and newer deploys

The agent installs the rules of whichever request it finishes, and nothing tells it that a request
is older than the one whose rules it runs. So a deploy that the controller has given up can undo
the one after it.

**Once success is recorded for the newest request, the agent runs its rules**, as long as no other
request with other rules is accepted after it.
-/

set_option autoImplicit false

namespace PaciNet

open Lib

namespace Exchange

/-- If success is recorded for the newest request, the agent runs its rules. -/
def NewestRuns (s : Exchange) : Prop :=
  ∀ k, (k, .success) ∈ s.recorded → k + 1 = s.sent.length →
    s.agent.activeRulesYaml = s.rulesOf k

/-- The agent's compiler accepts the rules. -/
def accepts : Except String CompileResult → Bool
  | .ok result => result.success
  | .error _ => false

/-- **No request is accepted after the newest one**, unless it carries the same rules. -/
def InOrder (s : Exchange) : Event → Prop
  | .finish k _ compile =>
    accepts compile → s.acceptedNewest → s.rulesOf k = s.rulesOf (s.sent.length - 1)
  | _ => True

instance (s : Exchange) : (e : Event) → Decidable (s.InOrder e)
  | .finish _ _ _ => inferInstanceAs (Decidable (_ → _ → _))
  | .send _ | .lose _ | .receive _ | .fail _ _ | .elapse _ => .isTrue trivial

/-- What is true in every state that is reached in order. -/
structure Sound (s : Exchange) : Prop where
  /-- Only what was sent is answered. -/
  answered : ∀ a ∈ s.answered, a.1 < s.sent.length
  /-- Success is recorded for what the agent has accepted. -/
  recorded : ∀ k, (k, .success) ∈ s.recorded → ∃ a ∈ s.answered, a.1 = k ∧ a.2.success = true
  /-- The rules of the newest request run once they are accepted. -/
  newest : s.acceptedNewest → s.agent.activeRulesYaml = s.rulesOf (s.sent.length - 1)

theorem Sound.runs {s : Exchange} (h : s.Sound) : s.NewestRuns := by
  intro k hk hlast
  obtain ⟨a, ha, rfl, hsuccess⟩ := h.recorded k hk
  have haccepted : s.acceptedNewest :=
    List.any_eq_true.2 ⟨a, ha, by simp [hlast, hsuccess]⟩
  rw [h.newest haccepted, show s.sent.length - 1 = a.1 by omega]

theorem sound_boot (nodeId : String) : (boot nodeId).Sound where
  answered _ h := absurd h List.not_mem_nil
  recorded _ h := absurd h List.not_mem_nil
  newest h := absurd h (by simp [boot, acceptedNewest])

section Step

variable [Extern] (cfg : ControllerConfig) {s s' : Exchange}

omit [Extern] in
/-- Only an accepting answer is recorded as a success. -/
theorem concludeDeploy_success {answer : AgentAnswer}
    (h : (concludeDeploy cfg answer).2.2.2 = .success) :
    ∃ r : DeployRulesResponse, answer = .response r ∧ r.success = true := by
  cases answer with
  | response r =>
    refine ⟨r, rfl, ?_⟩
    by_contra hr
    simp [concludeDeploy, hr] at h
  | failed err => exact nomatch h
  | elapsed => exact nomatch h

omit [Extern] in
/-- Recording a result touches neither the agent nor the requests. -/
theorem Sound.conclude {k : Nat} {answer : AgentAnswer} (h : s.Sound)
    (hanswer : ∀ r, answer = .response r → r.success →
      ∃ a ∈ s.answered, a.1 = k ∧ a.2.success = true)
    (hs : s.conclude cfg k answer = some s') : s'.Sound := by
  simp only [Exchange.conclude] at hs
  split at hs
  · cases hs
    refine ⟨h.answered, fun j hj => ?_, h.newest⟩
    rcases List.mem_append.1 hj with hj | hj
    · exact h.recorded j hj
    · obtain ⟨rfl, hresult⟩ := Prod.mk.inj (List.mem_singleton.1 hj)
      obtain ⟨r, rfl, hr⟩ := concludeDeploy_success cfg hresult.symm
      exact hanswer r rfl hr
  · exact nomatch hs

/-- What `deploy_rules` does to the active rules. -/
theorem deployRules_rules (a : AgentState) (now : DateTime)
    (compile : Except String CompileResult) (req : DeployRulesRequest) :
    (a.deployRules now compile req).1.success = accepts compile ∧
      (a.deployRules now compile req).2.activeRulesYaml =
        if accepts compile then some req.rulesYaml else a.activeRulesYaml := by
  cases compile with
  | error e => exact ⟨rfl, rfl⟩
  | ok result =>
    refine ⟨rfl, ?_⟩
    show (if result.success then _ else a).activeRulesYaml = _
    by_cases h : result.success = true <;> simp [h, accepts]

/-- The agent comes to the end of a request. -/
theorem Sound.finish {k : Nat} {now : DateTime} {compile : Except String CompileResult}
    {req : DeployRulesRequest} (h : s.Sound) (hk : s.sent[k]? = some req)
    (hC : s.InOrder (.finish k now compile)) :
    Sound { s with
      agent := (s.agent.deployRules now compile req).2
      atAgent := s.atAgent.erase k
      answered := s.answered ++ [(k, (s.agent.deployRules now compile req).1)] } := by
  obtain ⟨hsuccess, hrules⟩ := deployRules_rules s.agent now compile req
  have hlt : k < s.sent.length := (List.getElem?_eq_some_iff.1 hk).1
  have hreq : s.rulesOf k = some req.rulesYaml := by rw [rulesOf, hk]; rfl
  refine ⟨fun a ha => ?_, fun j hj => ?_, fun hnewest => ?_⟩
  · rcases List.mem_append.1 ha with ha | ha
    · exact h.answered a ha
    · rw [List.mem_singleton.1 ha]
      exact hlt
  · obtain ⟨a, ha, hkey⟩ := h.recorded j hj
    exact ⟨a, List.mem_append_left _ ha, hkey⟩
  · show (s.agent.deployRules now compile req).2.activeRulesYaml = s.rulesOf (s.sent.length - 1)
    rw [hrules]
    by_cases hacc : accepts compile = true
    · rw [if_pos hacc, ← hreq]
      by_cases hold : s.acceptedNewest = true
      · exact hC hacc hold
      · -- the newest request is the one that was accepted just now
        have hlast : k + 1 = s.sent.length := by
          simp only [acceptedNewest, List.any_append, Bool.or_eq_true] at hnewest hold
          have := hnewest.resolve_left hold
          simp only [List.any_cons, List.any_nil, Bool.or_false, Bool.and_eq_true,
            beq_iff_eq] at this
          exact this.1
        rw [show s.sent.length - 1 = k by omega]
    · rw [if_neg hacc]
      refine h.newest ?_
      simpa [acceptedNewest, hsuccess, hacc] using hnewest

/-- **Every event in order keeps the exchange sound.** -/
theorem Sound.step {e : Event} (h : s.Sound) (hC : s.InOrder e)
    (hs : Exchange.step cfg s e = some s') : s'.Sound := by
  cases e with
  | send req =>
    cases hs
    refine ⟨fun a ha => ?_, h.recorded, fun hnewest => ?_⟩
    · have := h.answered a ha
      simp only [List.length_append, List.length_singleton]
      omega
    · -- nothing has answered the request sent just now
      obtain ⟨a, ha, hlast⟩ := List.any_eq_true.1 hnewest
      have := h.answered a ha
      simp only [List.length_append, List.length_singleton, Bool.and_eq_true, beq_iff_eq] at hlast
      omega
  | lose k =>
    cases hs
    exact ⟨h.answered, h.recorded, h.newest⟩
  | finish k now compile =>
    simp only [Exchange.step] at hs
    split at hs
    · exact nomatch hs
    · rename_i req hk
      split at hs
      · cases hs
        exact h.finish hk hC
      · exact nomatch hs
  | receive k =>
    simp only [Exchange.step] at hs
    split at hs
    · exact nomatch hs
    · rename_i a ha
      refine h.conclude cfg (fun r hr hsuccess => ?_) hs
      obtain rfl : a.2 = r := AgentAnswer.response.inj hr
      exact ⟨a, List.mem_of_find?_eq_some ha, by simpa using List.find?_some ha, hsuccess⟩
  | fail k err => exact h.conclude cfg (fun r hr => absurd hr (by simp)) hs
  | elapse k => exact h.conclude cfg (fun r hr => absurd hr (by simp)) hs

end Step

/-! ## The world's agents

The operations of `World` on an agent are such events: a task that asks the agent and waits is a
`send` up to its `receive`, `fail` or `elapse`, and a late completion is a `finish`. -/

/-- The exchange with the agent at a URL, as the world has it. -/
structure Of (w : World MemoryStorage) (url : String) (s : Exchange) : Prop where
  agent : w.agents.lookup url = some s.agent
  inflight : ((w.inflight.filter fun e => e.1 = url).map Prod.snd).Perm
    (s.atAgent.filterMap fun k => s.sent[k]?)
  atAgent : ∀ k ∈ s.atAgent, k < s.sent.length
  answered : ∀ a ∈ s.answered, a.1 < s.sent.length
  awaited : ∀ k ∈ s.awaited, k < s.sent.length

/-- Any events, in any order. -/
abbrev Events [Extern] (cfg : ControllerConfig) : Exchange → Exchange → Prop :=
  Steps (Exchange.step cfg) fun _ _ => True

section World

variable [Extern] (cfg : ControllerConfig) {w w' : World MemoryStorage} {url : String}
  {s : Exchange}

omit [Extern] in
/-- What is left with the agent, read in the longer log. -/
theorem Of.filterMap_sent (h : s.Of w url) (req : DeployRulesRequest) :
    (s.atAgent.filterMap fun k => (s.sent ++ [req])[k]?) =
      s.atAgent.filterMap fun k => s.sent[k]? :=
  List.filterMap_congr fun k hk => List.getElem?_append_left (h.atAgent k hk)

omit [Extern] in
/-- The number of the next request is free. -/
theorem Of.next_notMem (h : s.Of w url) : s.sent.length ∉ s.atAgent :=
  fun hmem => Nat.lt_irrefl _ (h.atAgent _ hmem)

/-- The exchange once a request has been sent. -/
def sending (s : Exchange) (req : DeployRulesRequest) : Exchange :=
  { s with
    sent := s.sent ++ [req]
    atAgent := s.atAgent ++ [s.sent.length]
    awaited := s.awaited ++ [s.sent.length] }

/-- The exchange once the newest request has come to its end for the controller, too. -/
def concluded (s : Exchange) (req : DeployRulesRequest) (agent : AgentState) (atAgent : List Nat)
    (answered : List (Nat × DeployRulesResponse)) (result : DeploymentResult) : Exchange where
  agent := agent
  sent := s.sent ++ [req]
  atAgent := atAgent
  answered := answered
  awaited := (s.awaited ++ [s.sent.length]).erase s.sent.length
  recorded := s.recorded ++ [(s.sent.length, result)]

omit [Extern] in
/-- The newest request comes to its end with any answer. -/
theorem conclude_sending (req : DeployRulesRequest) (answer : AgentAnswer) (agent : AgentState)
    (atAgent : List Nat) (answered : List (Nat × DeployRulesResponse)) :
    conclude cfg { s.sending req with
        agent := agent
        atAgent := atAgent
        answered := answered } s.sent.length answer =
      some (s.concluded req agent atAgent answered (concludeDeploy cfg answer).2.2.2) :=
  if_pos (by simp [sending])

omit [Extern] in
/-- The world's view of an exchange whose newest request has come to its end. -/
theorem Of.concluded {agent : AgentState} {atAgent : List Nat}
    {answered : List (Nat × DeployRulesResponse)} {req : DeployRulesRequest}
    {result : DeploymentResult} (h : s.Of w url) (hagent : w'.agents.lookup url = some agent)
    (hinflight : ((w'.inflight.filter fun e => e.1 = url).map Prod.snd).Perm
      (atAgent.filterMap fun k => (s.sent ++ [req])[k]?))
    (hat : ∀ k ∈ atAgent, k < s.sent.length + 1)
    (hanswered : ∀ a ∈ answered, a.1 < s.sent.length + 1) :
    (s.concluded req agent atAgent answered result).Of w' url := by
  have hlen : (s.sent ++ [req]).length = s.sent.length + 1 := List.length_append
  refine ⟨hagent, hinflight, fun k hk => ?_, fun a ha => ?_, fun k hk => ?_⟩
  · exact hlen ▸ hat k hk
  · exact hlen ▸ hanswered a ha
  · rcases List.mem_append.1 (List.mem_of_mem_erase hk) with hk | hk
    · exact hlen ▸ (h.awaited k hk).trans (Nat.lt_succ_self _)
    · rw [List.mem_singleton.1 hk]
      exact hlen ▸ Nat.lt_succ_self _

/-- What an operation of a task is as an exchange: the request is sent, and its result recorded. -/
def Exchanged (s : Exchange) (w' : World MemoryStorage) (url : String) (req : DeployRulesRequest)
    (answer : AgentAnswer) : Prop :=
  ∃ s', Events cfg s s' ∧ s'.Of w' url ∧ s'.sent = s.sent ++ [req] ∧
    (s.sent.length, (concludeDeploy cfg answer).2.2.2) ∈ s'.recorded

omit [Extern] in
/-- Sending a request leaves the others where they are. -/
theorem Of.erase_sent (h : s.Of w url) :
    (s.atAgent ++ [s.sent.length]).erase s.sent.length = s.atAgent := by
  rw [List.erase_append_right _ h.next_notMem]
  simp

omit [Extern] in
theorem Of.atAgent_succ (h : s.Of w url) : ∀ k ∈ s.atAgent, k < s.sent.length + 1 :=
  fun k hk => (h.atAgent k hk).trans (Nat.lt_succ_self _)

omit [Extern] in
theorem Of.answered_succ (h : s.Of w url) : ∀ a ∈ s.answered, a.1 < s.sent.length + 1 :=
  fun a ha => (h.answered a ha).trans (Nat.lt_succ_self _)

/-- A request that is given up stays with the agent if it has reached it. -/
theorem Of.givenUp {req : DeployRulesRequest} {answer : AgentAnswer} {e : Event}
    (h : s.Of w url) (reached : Bool)
    (he : ∀ s₁ : Exchange, Exchange.step cfg s₁ e = s₁.conclude cfg s.sent.length answer) :
    Exchanged cfg s ((w.send url req).strand url req reached) url req answer := by
  have hgive : Events cfg s (s.concluded req s.agent (s.atAgent ++ [s.sent.length]) s.answered
      (concludeDeploy cfg answer).2.2.2) :=
    .head ⟨.send req, trivial, rfl⟩
      (.single ⟨e, trivial, (he _).trans (conclude_sending cfg req answer _ _ _)⟩)
  have hmem : ∀ {l : List (Nat × DeploymentResult)} {r : Nat × DeploymentResult}, r ∈ l ++ [r] :=
    List.mem_append_right _ (List.mem_singleton.2 rfl)
  cases reached with
  | true =>
    refine ⟨_, hgive, h.concluded h.agent ?_ ?_ h.answered_succ, rfl, hmem⟩
    · simp only [World.strand, World.send, if_true, List.filter_append, List.map_append,
        List.filterMap_append, h.filterMap_sent]
      simpa using h.inflight.append_right _
    · intro k hk
      rcases List.mem_append.1 hk with hk | hk
      · exact h.atAgent_succ k hk
      · exact List.mem_singleton.1 hk ▸ Nat.lt_succ_self _
  | false =>
    refine ⟨_, hgive.tail ⟨.lose s.sent.length, trivial, rfl⟩, ?_, rfl, hmem⟩
    show (s.concluded req s.agent ((s.atAgent ++ [s.sent.length]).erase s.sent.length) _ _).Of _ _
    rw [h.erase_sent]
    refine h.concluded h.agent ?_ h.atAgent_succ h.answered_succ
    rw [h.filterMap_sent]
    exact h.inflight

/-- A request that is answered in time. -/
theorem Of.answeredBy {req : DeployRulesRequest} (h : s.Of w url) (now : DateTime)
    (compile : Except String CompileResult) :
    Exchanged cfg s ((w.send url req).agentDeploys now url s.agent compile req).2 url req
      (.response ((w.send url req).agentDeploys now url s.agent compile req).1) := by
  have hlast : (s.sent ++ [req])[s.sent.length]? = some req := by simp
  let answered := s.answered ++ [(s.sent.length, (s.agent.deployRules now compile req).1)]
  let finished : Exchange := { s.sending req with
    agent := (s.agent.deployRules now compile req).2
    atAgent := s.atAgent
    answered := answered }
  have hfinish : Exchange.step cfg (s.sending req) (.finish s.sent.length now compile) =
      some finished := by
    simp only [Exchange.step, sending, hlast, h.erase_sent]
    exact if_pos (List.mem_append_right _ (List.mem_singleton.2 rfl))
  -- no earlier answer carries the number of the request
  have hfind : answered.find? (fun a => a.1 == s.sent.length) =
      some (s.sent.length, (s.agent.deployRules now compile req).1) := by
    have hnone : s.answered.find? (fun a => a.1 == s.sent.length) = none := by
      refine List.find?_eq_none.2 fun a ha => ?_
      have := h.answered a ha
      simp only [beq_iff_eq]
      omega
    simp [answered, List.find?_append, hnone]
  have hreceive : Exchange.step cfg finished (.receive s.sent.length) =
      some (s.concluded req (s.agent.deployRules now compile req).2 s.atAgent answered
        (concludeDeploy cfg (.response (s.agent.deployRules now compile req).1)).2.2.2) := by
    simp only [Exchange.step, finished, hfind]
    exact conclude_sending cfg req _ _ _ _
  refine ⟨_, .head ⟨.send req, trivial, rfl⟩ (.head ⟨_, trivial, hfinish⟩
    (.single ⟨_, trivial, hreceive⟩)), h.concluded ?_ ?_ h.atAgent_succ ?_, rfl,
      List.mem_append_right _ (List.mem_singleton.2 rfl)⟩
  · exact AList.lookup_insert ..
  · rw [h.filterMap_sent]
    exact h.inflight
  · intro a ha
    rcases List.mem_append.1 ha with ha | ha
    · exact h.answered_succ a ha
    · exact List.mem_singleton.1 ha ▸ Nat.lt_succ_self _

/-- **Every request a task makes of the agent is an exchange**, recorded with its answer. -/
theorem Of.deployRules {x : Ext} {req : DeployRulesRequest} {answer : AgentAnswer}
    {new : List Request} (h : s.Of w url)
    (hx : World.exec x (.deployRules url req) w = some (answer, w', new)) :
    Exchanged cfg s w' url req answer := by
  simp only [World.exec] at hx
  split at hx
  · rename_i compile _
    split at hx
    · exact absurd hx (by simp)
    · rename_i a ha
      obtain rfl : a = s.agent := Option.some.inj (ha.symm.trans h.agent)
      cases hx
      exact h.answeredBy cfg x.now compile
  · rename_i err reached _
    cases hx
    exact h.givenUp cfg reached (fun _ => rfl : ∀ s₁ : Exchange,
      Exchange.step cfg s₁ (.fail s.sent.length err) = s₁.conclude cfg s.sent.length (.failed err))
  · rename_i reached _
    cases hx
    exact h.givenUp cfg reached (fun _ => rfl : ∀ s₁ : Exchange,
      Exchange.step cfg s₁ (.elapse s.sent.length) = s₁.conclude cfg s.sent.length .elapsed)

/-- A request that completes late is an exchange too, or concerns another agent. -/
theorem Of.completes {now : DateTime} {k : Nat} {compile : Except String CompileResult}
    (h : s.Of w url) :
    ∃ s', Events cfg s s' ∧ s'.Of (w.completes now k compile) url ∧ s'.sent = s.sent := by
  cases hk : w.inflight[k]? with
  | none =>
    refine ⟨s, .refl, ?_, rfl⟩
    simpa only [World.completes, hk] using h
  | some e =>
    obtain ⟨addr, req⟩ := e
    have hperm : w.inflight.Perm ((addr, req) :: w.inflight.eraseIdx k) := by
      obtain ⟨hlt, hget⟩ := List.getElem?_eq_some_iff.1 hk
      rw [← hget]
      exact (List.getElem_cons_eraseIdx_perm hlt).symm
    have hfilter := (hperm.filter fun e => e.1 = url).map Prod.snd
    by_cases haddr : addr = url
    · subst haddr
      simp only [World.completes, hk, h.agent]
      -- the request is one that the agent has not finished
      have hpending := h.inflight.symm.trans hfilter
      simp only [List.filter_cons, decide_true, if_true, List.map_cons] at hpending
      obtain ⟨j, hj, hreq⟩ := List.mem_filterMap.1 (hpending.mem_iff.2 List.mem_cons_self)
      refine ⟨{ s with
          agent := (s.agent.deployRules now compile req).2
          atAgent := s.atAgent.erase j
          answered := s.answered ++ [(j, (s.agent.deployRules now compile req).1)] },
        .single ⟨.finish j now compile, trivial, ?_⟩, ?_, rfl⟩
      · simp only [Exchange.step, hreq, if_pos hj]
      · refine ⟨AList.lookup_insert .., ?_, fun i hi => h.atAgent i (List.mem_of_mem_erase hi),
          fun a ha => ?_, h.awaited⟩
        · have hrest :=
            ((List.perm_cons_erase hj).filterMap fun k => s.sent[k]?).symm.trans hpending
          rw [List.filterMap_cons_some hreq] at hrest
          exact (hrest.cons_inv).symm
        · rcases List.mem_append.1 ha with ha | ha
          · exact h.answered a ha
          · rw [List.mem_singleton.1 ha]
            exact h.atAgent j hj
    · refine ⟨s, .refl, ?_, rfl⟩
      have hrest : ((w.inflight.eraseIdx k).filter fun e => e.1 = url).map Prod.snd |>.Perm
          (s.atAgent.filterMap fun k => s.sent[k]?) := by
        simp only [List.filter_cons, haddr, decide_false, Bool.false_eq_true, if_false] at hfilter
        exact hfilter.symm.trans h.inflight
      simp only [World.completes, hk]
      split
      · exact ⟨h.agent, hrest, h.atAgent, h.answered, h.awaited⟩
      · exact ⟨(AList.lookup_insert_ne (Ne.symm haddr)).trans h.agent, hrest, h.atAgent, h.answered,
          h.awaited⟩

end World

end Exchange

open Exchange

/-- **In every run in which no request is accepted after the newest one, unless with the same
    rules, the newest request's rules run once its success is recorded.** -/
theorem newestRuns [Extern] (cfg : ControllerConfig) {nodeId : String} {s : Exchange}
    (h : Steps (Exchange.step cfg) InOrder (boot nodeId) s) : s.NewestRuns :=
  (h.invariant (fun _ _ _ hC hs hsound => hsound.step cfg hC hs) (sound_boot nodeId)).runs

/-- A request for some rules. -/
def rulesRequest (rulesYaml : String) : DeployRulesRequest := ⟨rulesYaml, some .default⟩

/-- A compiler that accepts. -/
def compiled : Except String CompileResult := .ok ⟨true, "Compiled", []⟩

/-- A deploy that times out and one that succeeds: the events up to the second success. -/
def timeoutThenSuccess : List Exchange.Event :=
  [.send (rulesRequest "rules: [a]"), .elapse 0, .send (rulesRequest "rules: [b]"),
    .finish 1 0 compiled, .receive 1]

/-- The agent gives the first deploy up. -/
theorem newestRuns_lost : ∃ s : Exchange,
    Steps (@Exchange.step .sample plainConfig) InOrder (boot "n1") s ∧
      (1, .success) ∈ s.recorded ∧ s.NewestRuns := by
  have hrun : (runSteps (@Exchange.step .sample plainConfig) InOrder
      (timeoutThenSuccess ++ [.lose 0]) (boot "n1")).any
        fun s => decide ((1, .success) ∈ s.recorded) := by
    decide +kernel
  obtain ⟨s, hs, hrec⟩ := (Option.any_eq_true _ _).1 hrun
  have hsteps := steps_of_runSteps hs
  exact ⟨s, hsteps, of_decide_eq_true hrec, @newestRuns .sample plainConfig "n1" s hsteps⟩

/-- The agent finishes the first deploy last. -/
theorem not_newestRuns : ¬ ∀ s : Exchange,
    Steps (@Exchange.step .sample plainConfig) (fun _ _ => True) (boot "n1") s → s.NewestRuns := by
  intro h
  have hrun : (runSteps (@Exchange.step .sample plainConfig) (fun _ _ => True)
      (timeoutThenSuccess ++ [.finish 0 0 compiled]) (boot "n1")).any fun s =>
        decide ((1, .success) ∈ s.recorded ∧ 1 + 1 = s.sent.length ∧
          s.agent.activeRulesYaml ≠ s.rulesOf 1) := by
    decide +kernel
  obtain ⟨s, hs, hbad⟩ := (Option.any_eq_true _ _).1 hrun
  obtain ⟨hrec, hlast, hne⟩ := of_decide_eq_true hbad
  exact hne (h s (steps_of_runSteps hs) 1 hrec hlast)

end PaciNet

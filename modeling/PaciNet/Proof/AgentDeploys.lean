import PaciNet.Proof.AgentStages

/-!
# What an agent has active

The controller's model knows an agent that takes over a deploy in one step
(`AgentState.deployRules`). The process is shown to be that agent: **whenever nobody writes, its
state is what the deploys that were taken over leave of an agent that takes each of them over in one
step, and what a reader was given is what that agent had after some of them**.

A deploy is taken over only if it was compiled: `pacgate` was run three times, one after the other,
on a file that held exactly the rules of the request, and each time had nothing to object. Other
handlers run the same program at the same time, on their own files.
-/

set_option autoImplicit false

namespace PaciNet

open Lib

namespace DeployStage

section

variable [Extern] [SerdeJsonText] {st : DeployStage} {α : Type}

theorem wp_op {o : AgentOp} {f : o.Res → AgentProc α} {Q : DeployStage → α → Prop}
    (hallow : st.allow o) (hf : ∀ r, (f r).wp monitor Q (st.next o r)) :
    ((agentOp o).bind f).wp monitor Q st := ⟨hallow, fun r _ => hf r⟩

/-- The handler has its own file, with a text in it. -/
structure HasFile (st : DeployStage) (path text : String) : Prop where
  drawn : st.drawn.map tmpFile = some path
  text : st.text = some text

/-- A run of `pacgate` on its own file. -/
theorem pacgate_wp {path text : String} {args : List String} (hfile : st.HasFile path text)
    (hargs : args[1]? = some path) {f : Option (Except String Output) → AgentProc α}
    {Q : DeployStage → α → Prop} (hdropped : (f none).wp monitor Q { st with mishap := true })
    (hfailed : ∀ e, (f (some (.error e))).wp monitor Q st)
    (hended : ∀ output, (f (some (.ok output))).wp monitor Q
      { st with runs := st.runs ++ [⟨args, some text, output⟩] }) :
    ((agentOp (.pacgate args)).bind f).wp monitor Q st := by
  refine wp_op ⟨by simp [hfile.text], path, hargs, hfile.drawn⟩ fun r => ?_
  cases r with
  | none => exact hdropped
  | some r =>
    cases r with
    | error e => exact hfailed e
    | ok output =>
      rw [show st.next (.pacgate args) (some (.ok output)) =
        { st with runs := st.runs ++ [⟨args, some text, output⟩] } by rw [next, hfile.text]]
      exact hended output

theorem runValidate_wp {path text : String} (hfile : st.HasFile path text)
    {Q : DeployStage → Except Stopped Unit → Prop}
    (hdropped : Q { st with mishap := true } (.error .dropped))
    (hfailed : ∀ e runs, Q { st with runs := st.runs ++ runs } (.error (.failed e)))
    (hok : ∀ run : PacgateRun, run.args = validateArgs path → run.input = some text →
      run.output.success = true → Q { st with runs := st.runs ++ [run] } (.ok ())) :
    (runValidate path).wp monitor Q st := by
  refine pacgate_wp hfile rfl hdropped (fun e => ?_) fun output => ?_
  · simpa using hfailed _ []
  · by_cases hsuccess : output.success = true
    · simp only [hsuccess, if_true, Prog.pure_eq, Prog.wp_done]
      exact hok ⟨_, _, output⟩ rfl rfl hsuccess
    · simp only [hsuccess, Bool.false_eq_true, if_false, Prog.pure_eq, Prog.wp_done]
      exact hfailed _ _

theorem runLint_wp {path text : String} {options : CompileOptions} (hfile : st.HasFile path text)
    {Q : DeployStage → Except Stopped (List String) → Prop}
    (hdropped : Q { st with mishap := true } (.error .dropped))
    (hfailed : ∀ e runs, Q { st with runs := st.runs ++ runs } (.error (.failed e)))
    (hok : ∀ (run : PacgateRun) (warnings : List String), run.args = lintArgs path options →
      run.input = some text → lintOutcome run.output = .ok warnings →
      Q { st with runs := st.runs ++ [run] } (.ok warnings)) :
    (runLint path options).wp monitor Q st := by
  refine pacgate_wp hfile rfl hdropped (fun e => ?_) fun output => ?_
  · simpa using hfailed _ []
  · show Q _ (lintOutcome output)
    cases houtcome : lintOutcome output with
    | error e =>
      cases e with
      | failed e => exact hfailed e _
      | dropped => exact absurd houtcome (lintOutcome_ne_dropped output)
    | ok warnings => exact hok ⟨_, _, output⟩ warnings rfl rfl houtcome

theorem runCompile_wp {path text : String} {options : CompileOptions} {warnings : List String}
    (hfile : st.HasFile path text) {Q : DeployStage → Except Stopped CompileResult → Prop}
    (hdropped : Q { st with mishap := true } (.error .dropped))
    (hfailed : ∀ e runs, Q { st with runs := st.runs ++ runs } (.error (.failed e)))
    (hrefused : ∀ (result : CompileResult) runs, result.success = false →
      Q { st with runs := st.runs ++ runs } (.ok result))
    (hok : ∀ (run : PacgateRun) (result : CompileResult), run.args = compileArgs path options →
      run.input = some text → compileOutcome warnings run.output = .ok result →
      result.success = true → Q { st with runs := st.runs ++ [run] } (.ok result)) :
    (runCompile path options warnings).wp monitor Q st := by
  refine pacgate_wp hfile rfl hdropped (fun e => ?_) fun output => ?_
  · simpa using hrefused _ [] rfl
  · show Q _ (compileOutcome warnings output)
    cases houtcome : compileOutcome warnings output with
    | error e =>
      cases e with
      | failed e => exact hfailed e _
      | dropped => exact absurd houtcome (compileOutcome_ne_dropped warnings output)
    | ok result =>
      by_cases hsuccess : result.success = true
      · exact hok ⟨_, _, output⟩ result rfl rfl houtcome hsuccess
      · exact hrefused result _ (Bool.eq_false_of_not_eq_true hsuccess)

/-- **What `run_with_preflight` reports as compiled was validated, linted and compiled**, and a
    handler that was dropped in it has left its file behind. -/
theorem runWithPreflight_wp {path text : String} {options : CompileOptions}
    (hfile : st.HasFile path text) {Q : DeployStage → Except Stopped CompileResult → Prop}
    (hdropped : ∀ runs, Q { st with runs := st.runs ++ runs, mishap := true } (.error .dropped))
    (hfailed : ∀ e runs, Q { st with runs := st.runs ++ runs } (.error (.failed e)))
    (hrefused : ∀ (result : CompileResult) runs, result.success = false →
      Q { st with runs := st.runs ++ runs } (.ok result))
    (hok : ∀ (result : CompileResult) validate lint compile,
      CompiledBy path text options result validate lint compile →
      Q { st with runs := st.runs ++ [validate, lint, compile] } (.ok result)) :
    (runWithPreflight path options).wp monitor Q st := by
  unfold runWithPreflight Prog.orReturn
  rw [Prog.wp_bind]
  refine runValidate_wp hfile ?_ (fun e runs => hfailed e runs)
    fun validate hvalidate hinput₁ hended₁ => ?_
  · simpa using hdropped []
  show ((runLint path options).orReturn fun warnings => runCompile path options warnings).wp
    monitor Q _
  unfold Prog.orReturn
  rw [Prog.wp_bind]
  have hfile₁ : HasFile { st with runs := st.runs ++ [validate] } path text :=
    ⟨hfile.drawn, hfile.text⟩
  refine runLint_wp hfile₁ (hdropped _) (fun e runs => ?_)
    fun lint warnings hlint hinput₂ houtcome₂ => ?_
  · simpa using hfailed e (validate :: runs)
  have hfile₂ : HasFile { st with runs := st.runs ++ [validate] ++ [lint] } path text :=
    ⟨hfile.drawn, hfile.text⟩
  obtain ⟨hended₂, hnoError, rfl⟩ := lintOutcome_ok houtcome₂
  refine runCompile_wp hfile₂ ?_ (fun e runs => ?_) (fun result runs hresult => ?_)
    fun compile result hcompile hinput₃ houtcome₃ hresult => ?_
  · simpa using hdropped [validate, lint]
  · simpa using hfailed e (validate :: lint :: runs)
  · simpa using hrefused result (validate :: lint :: runs) hresult
  · obtain ⟨hended₃, out, hout, hstatus, hresult⟩ := compileOutcome_ok houtcome₃ hresult
    have h := hok result validate lint compile
      ⟨hvalidate, hlint, hcompile, by simp [hinput₁, hinput₂, hinput₃],
        by simp [hended₁, hended₂, hended₃], hnoError, out, hout, hstatus, hresult⟩
    simpa using h

/-- A handler after `compile`: it holds the lock it held, has removed its file or may have left it
    behind, and what it reports as compiled was. -/
structure After (st st' : DeployStage) (rulesYaml : String) (options : CompileOptions)
    (r : Except Stopped CompileResult) : Prop where
  hold : st'.hold = st.hold
  seen : st'.seen = st.seen
  deploy : st'.deploy = st.deploy
  tidy : st'.removed = true ∨ st'.mishap = true
  compiled : ∀ result, r = .ok result → result.success = true →
    Compiled st'.runs rulesYaml options result

/-- A handler that has come to compile for the first time. -/
structure Fresh (st : DeployStage) : Prop where
  drawn : st.drawn = none
  text : st.text = none
  removed : st.removed = false

theorem compileRules_wp {rulesYaml : String} {options : CompileOptions} (hst : st.Fresh) :
    (compileRules rulesYaml options).wp monitor (fun st' r => After st st' rulesYaml options r)
      st := by
  refine wp_op ⟨hst.drawn, hst.text⟩ fun uuid => ?_
  refine wp_op ⟨rfl, hst.text, hst.removed⟩ fun written => ?_
  rcases written with - | (e | ⟨⟩)
  · exact ⟨rfl, rfl, rfl, .inr rfl, fun _ h => nomatch h⟩
  · exact ⟨rfl, rfl, rfl, .inr rfl, fun _ h => nomatch h⟩
  have hfile : HasFile { st with drawn := some uuid, text := some rulesYaml } (tmpFile uuid)
      rulesYaml := ⟨rfl, rfl⟩
  -- whatever the runs reported, the file is removed in the end
  have hremove (runs : List PacgateRun) (r : Except Stopped CompileResult)
      (hr : ∀ result, r = .ok result → result.success = true →
        Compiled runs rulesYaml options result) :
      (removeTmpFile (tmpFile uuid) r).wp monitor (fun st' r => After st st' rulesYaml options r)
        { st with drawn := some uuid, text := some rulesYaml, runs := runs } := by
    refine wp_op rfl fun removed => ?_
    rcases removed with - | (e | ⟨⟩)
    · exact ⟨rfl, rfl, rfl, .inr rfl, fun _ h => nomatch h⟩
    · exact ⟨rfl, rfl, rfl, .inr rfl, hr⟩
    · exact ⟨rfl, rfl, rfl, .inl rfl, hr⟩
  show ((runWithPreflight (tmpFile uuid) options).bind _).wp monitor _ _
  rw [Prog.wp_bind]
  refine runWithPreflight_wp hfile (fun runs => ?_) (fun e runs => ?_)
    (fun result runs hresult => ?_) fun result validate lint compile hby => ?_
  · exact ⟨rfl, rfl, rfl, .inr rfl, fun _ h => nomatch h⟩
  · exact hremove _ _ fun _ h => nomatch h
  · refine hremove _ _ fun result' h hsuccess => ?_
    cases h
    exact absurd (hsuccess.symm.trans hresult) (by simp)
  · refine hremove _ _ fun result' h hsuccess => ?_
    cases h
    exact ⟨_, validate, lint, compile, hby, List.sublist_append_right _ _⟩

/-- **What is written under the lock is what an agent does that takes the deploy over in one
    step.** -/
theorem takeOver_wp {req : DeployRulesRequest} {result : CompileResult}
    (hhold : st.hold = .writing id) (hdeploy : st.deploy = none)
    (hsuccess : result.success = true)
    (hcompiled : Compiled st.runs req.rulesYaml (req.options.getD .default) result) :
    (takeOver req result).wp monitor (fun st' _ => ∃ time,
      st' = { st with hold := .writing id, deploy := some ⟨req, result, time⟩ }) st := by
  refine wp_op ⟨id, hhold⟩ fun _ => ?_
  refine wp_op ⟨_, by rw [next, hhold]; rfl⟩ fun _ => ?_
  refine wp_op trivial fun time => ?_
  refine wp_op ⟨_, by simp only [next, hhold]; rfl⟩ fun _ => ?_
  refine ⟨⟨hdeploy, ⟨hsuccess, hcompiled⟩, _, by simp only [next, hhold]; rfl, fun a => ?_⟩,
    fun _ _ => ⟨time, rfl⟩⟩
  simp [Deploy.apply, AgentState.deployRules, hsuccess]

/-- What the reply to a request tells about its handler. -/
def Answered (st : DeployStage) (nodeId pacgateVersion : String) :
    AgentRequest → AgentReply → Prop
  | .deployRules req, .deployRules (some resp) =>
    resp.success = false ∧ st.deploy = none ∨
      ∃ d, st.deploy = some d ∧ d.req = req ∧
        resp = ⟨true, d.result.message, d.result.warnings⟩
  | .deployRules _, .deployRules none => st.deploy = none
  | .getStatus, .getStatus (some resp) => st.deploy = none ∧ ∃ active hash uptime,
    st.seen = [hash, active] ∧
      resp = ⟨(if active.isSome then ProtoNodeState.active else .online).toInt, pacgateVersion,
        hash.getD "", uptime⟩
  | .heartbeat, .heartbeat (some req) => st.deploy = none ∧ ∃ active uptime, st.seen = [active] ∧
    req = ⟨nodeId, (if active.isSome then ProtoNodeState.active else .online).toInt, uptime⟩
  | .getStatus, .getStatus none | .heartbeat, .heartbeat none => st.deploy = none
  | _, _ => False

/-- Where a handler ends: it holds no lock, has removed its file or may have left it behind, and
    has answered. -/
structure Ended (nodeId pacgateVersion : String) (q : AgentRequest) (st : DeployStage)
    (reply : AgentReply) : Prop where
  hold : st.hold = .none
  tidy : ∀ uuid, st.drawn = some uuid → st.removed = true ∨ st.mishap = true
  answered : st.Answered nodeId pacgateVersion q reply

variable {nodeId pacgateVersion : String}

theorem deployRules_wp (req : DeployRulesRequest) :
    ((agent nodeId pacgateVersion).prog (.deployRules req)).wp monitor
      (Ended nodeId pacgateVersion (.deployRules req)) start := by
  show ((agentDeployRules req).bind _).wp monitor _ _
  rw [Prog.wp_bind]
  refine wp_op ⟨rfl, rfl⟩ fun permit => ?_
  cases permit with
  | none => exact ⟨rfl, fun _ h => (nomatch h), rfl⟩
  | some permit =>
    show ((compileRules req.rulesYaml (req.options.getD .default)).bind _).wp monitor _ _
    rw [Prog.wp_bind]
    refine (compileRules_wp ⟨rfl, rfl, rfl⟩).mono fun st' r hafter => ?_
    refine wp_op (hafter.hold.trans rfl) fun _ => ?_
    have hdeploy : st'.deploy = none := hafter.deploy
    rcases r with (e | ⟨⟩) | result
    · exact ⟨rfl, fun _ _ => hafter.tidy, .inl ⟨rfl, hdeploy⟩⟩
    · exact ⟨rfl, fun _ _ => hafter.tidy, hdeploy⟩
    · by_cases hsuccess : result.success = true
      · simp only [hsuccess, if_true]
        refine wp_op rfl fun granted => ?_
        rcases granted with - | ⟨⟩
        · exact ⟨rfl, fun _ _ => hafter.tidy, hdeploy⟩
        · show ((takeOver req result).bind _).wp monitor _ _
          rw [Prog.wp_bind]
          refine (takeOver_wp ?_ ?_ hsuccess ?_).mono ?_
          · rfl
          · exact hdeploy
          · exact hafter.compiled result rfl hsuccess
          · rintro _ _ ⟨time, rfl⟩
            refine wp_op rfl fun _ => ?_
            exact ⟨rfl, fun _ _ => hafter.tidy, .inr ⟨_, rfl, rfl, rfl⟩⟩
      · simp only [hsuccess]
        exact ⟨rfl, fun _ _ => hafter.tidy, .inl ⟨rfl, hdeploy⟩⟩

theorem getStatus_wp : ((agent nodeId pacgateVersion).prog .getStatus).wp monitor
    (Ended nodeId pacgateVersion .getStatus) start := by
  show ((getStatus pacgateVersion).bind _).wp monitor _ _
  rw [Prog.wp_bind]
  refine wp_op ⟨rfl, rfl⟩ fun permit => ?_
  cases permit with
  | none => exact ⟨rfl, fun _ h => (nomatch h), rfl⟩
  | some permit =>
    refine wp_op trivial fun uptime => ?_
    refine wp_op ⟨permit, rfl⟩ fun active => ?_
    refine wp_op ⟨permit, rfl⟩ fun hash => ?_
    refine wp_op rfl fun _ => ?_
    exact ⟨rfl, fun _ h => (nomatch h), rfl, active, hash, uptime, rfl, rfl⟩

theorem heartbeat_wp : ((agent nodeId pacgateVersion).prog .heartbeat).wp monitor
    (Ended nodeId pacgateVersion .heartbeat) start := by
  show ((heartbeatRequest nodeId).bind _).wp monitor _ _
  rw [Prog.wp_bind]
  refine wp_op ⟨rfl, rfl⟩ fun permit => ?_
  cases permit with
  | none => exact ⟨rfl, fun _ h => (nomatch h), rfl⟩
  | some permit =>
    refine wp_op trivial fun uptime => ?_
    refine wp_op ⟨permit, rfl⟩ fun active => ?_
    refine wp_op rfl fun _ => ?_
    exact ⟨rfl, fun _ h => (nomatch h), rfl, active, uptime, rfl, rfl⟩

end

end DeployStage

/-! ## Runs of the process -/

section

variable [Extern] [SerdeJsonText] {nodeId pacgateVersion : String}

theorem agent_exec {o : AgentOp} {r : o.Res} {x : AgentExt} {w w' : AgentWorld}
    {new : List AgentRequest} (h : (agent nodeId pacgateVersion).exec x o w = some (r, w', new)) :
    AgentWorld.exec x o w = some (r, w') := by
  obtain ⟨⟨r', w₁⟩, hx, heq⟩ := Option.map_eq_some_iff.1 h
  cases heq
  exact hx

/-- A handler hands over a deploy where the agent takes it over. -/
theorem DeployStage.handsOver {st : DeployStage} {x : AgentExt} {o : AgentOp} {r : o.Res}
    {w w' : AgentWorld} (hallow : st.allow o) (hx : AgentWorld.exec x o w = some (r, w')) :
    (st.next o r).deploy = st.deploy ∧ w'.deploys = w.deploys ∨
      ∃ d, st.deploy = none ∧ (st.next o r).deploy = some d ∧ w'.deploys = w.deploys ++ [d] := by
  cases o with
  | deployed req result time =>
    cases hx
    exact .inr ⟨_, hallow.1, rfl, rfl⟩
  | readLock | writeLock | uuid | removeFile _ | pacgate _ | writeFile _ _ =>
    refine .inl ?_
    simp only [AgentWorld.exec] at hx
    repeat' split at hx
    all_goals cases hx
    all_goals exact ⟨rfl, rfl⟩
  | _ =>
    cases hx
    exact .inl ⟨rfl, rfl⟩

theorem agent_tended : (agent nodeId pacgateVersion).Tended DeployStage.monitor DeployStage.start
    (DeployStage.Ended nodeId pacgateVersion) (agentOwnership nodeId) where
  prog
    | .deployRules req => DeployStage.deployRules_wp req
    | .getStatus => DeployStage.getStatus_wp
    | .heartbeat => DeployStage.heartbeat_wp
  symm _ _ h := h.symm
  start _ := ⟨DeployStage.owns_start, fun _ => DeployStage.apart_start⟩
  own hw hst hallow hx := by
    have hstep := AgentWorld.own_step hw hst hallow (agent_exec hx)
    exact ⟨hstep.1, hstep.2, trivial⟩
  other hw hst hsu hapart hallow hx :=
    AgentWorld.other_step hw hst hsu hapart hallow (agent_exec hx)

theorem AgentWorld.kept_boot : (boot nodeId).Kept nodeId where
  idle _ := rfl
  readers h := absurd rfl h
  permits _ h := nomatch h
  nodup := List.nodup_nil
  compiled _ h := nomatch h

/-- A pool of handlers over one agent. -/
abbrev AgentPool := Config AgentOp AgentOp.Res AgentWorld AgentRequest AgentReply

/-- Requests arrive and handlers take their turns; nobody else touches the agent or its files. -/
def AgentAlone (_ : AgentPool) : Label AgentWorld AgentExt AgentRequest → Prop
  | .env _ => False
  | _ => True

/-- The deploy that was taken over from a handler. -/
def deployOf (t : Thread AgentOp AgentOp.Res AgentRequest AgentReply) : Option Deploy :=
  (System.stageOf DeployStage.monitor DeployStage.start t).deploy

/-- What an answer says about the agent that takes over each deploy in one step, given the deploys
    it has taken over and the one it has taken over from the handler. -/
def AgentReply.Explained (nodeId pacgateVersion : String) (deploys : List Deploy)
    (taken : Option Deploy) : AgentRequest → AgentReply → Prop
  | .deployRules req, .deployRules (some resp) => resp.success = false ∧ taken = none ∨
    ∃ d, taken = some d ∧ d.req = req ∧
      ∀ a : AgentState, (a.deployRules d.time (.ok d.result) req).1 = resp
  | .getStatus, .getStatus (some resp) => taken = none ∧ ∃ ds uptime, ds <+: deploys ∧
    resp = ⟨(agentAfter nodeId ds).reportedState.toInt, pacgateVersion,
      (agentAfter nodeId ds).activePolicyHash.getD "", uptime⟩
  | .heartbeat, .heartbeat (some req) => taken = none ∧ ∃ ds uptime, ds <+: deploys ∧
    req = (agentAfter nodeId ds).heartbeat uptime
  | .deployRules _, .deployRules none | .getStatus, .getStatus none
  | .heartbeat, .heartbeat none => taken = none
  | _, _ => False

/-- The process is the agent that takes over each deploy in one step. -/
structure TakesOver (nodeId pacgateVersion : String) (c : AgentPool) : Prop where
  state : c.shared.writing = false → c.shared.agent = agentAfter nodeId c.shared.deploys
  readers : ∀ t ∈ c.threads, ∀ k, t.prog = .call .activePolicyHash k → c.shared.writing = false
  sound : ∀ d ∈ c.shared.deploys, d.Sound c.shared.runs
  once : c.shared.deploys.Perm (c.threads.filterMap deployOf)
  answers : ∀ t ∈ c.threads, ∀ reply, t.prog = .done reply →
    reply.Explained nodeId pacgateVersion c.shared.deploys (deployOf t) t.req

omit [SerdeJsonText] in
theorem agentAfter_nodeId (ds : List Deploy) : (agentAfter nodeId ds).nodeId = nodeId := by
  induction ds using List.reverseRecOn with
  | nil => rfl
  | append_singleton ds d ih =>
    rw [agentAfter_concat, Deploy.apply, AgentState.deployRules]
    split
    · exact ih
    · exact ih

omit [SerdeJsonText] in
/-- What a handler has read is what the agent had after some of the deploys. -/
theorem DeployStage.Answered.explained {st : DeployStage} {w : AgentWorld} {q : AgentRequest}
    {reply : AgentReply} (h : st.Answered nodeId pacgateVersion q reply)
    (howns : st.Owns nodeId w) (hsound : ∀ d ∈ w.deploys, d.result.success = true) :
    reply.Explained nodeId pacgateVersion w.deploys st.deploy q := by
  obtain ⟨ds, hprefix, hseen⟩ := howns.seen
  cases q with
  | deployRules req =>
    rcases reply with (_ | resp) | _ | _
    · exact h
    · refine h.imp_right ?_
      rintro ⟨d, hd, hreq, rfl⟩
      refine ⟨d, hd, hreq, fun a => ?_⟩
      rw [AgentState.deployRules, hsound d (howns.deploy d hd)]
    · exact False.elim h
    · exact False.elim h
  | getStatus =>
    rcases reply with _ | (_ | resp) | _
    · exact False.elim h
    · exact h
    · obtain ⟨hdeploy, active, hash, uptime, hst, rfl⟩ := h
      refine ⟨hdeploy, ds, uptime, hprefix, ?_⟩
      rw [AgentState.reportedState, ← hseen hash (by simp [hst]), hseen active (by simp [hst]),
        hseen hash (by simp [hst])]
    · exact False.elim h
  | heartbeat =>
    rcases reply with _ | _ | (_ | req)
    · exact False.elim h
    · exact False.elim h
    · exact h
    · obtain ⟨hdeploy, active, uptime, hst, rfl⟩ := h
      refine ⟨hdeploy, ds, uptime, hprefix, ?_⟩
      rw [AgentState.heartbeat, AgentState.reportedState, agentAfter_nodeId,
        hseen active (by simp [hst])]

/-- **In every run of the process, any number of handlers at a time, any of them dropped at any
    await, the process is the agent that takes over each deploy in one step.** -/
theorem agent_takesOver {c : AgentPool}
    (h : (agent nodeId pacgateVersion).Steps AgentAlone ⟨.boot nodeId, []⟩ c) :
    TakesOver nodeId pacgateVersion c := by
  have hclosed : System.Closed AgentAlone := fun _ _ henv => henv
  have hsettled := System.Steps.settled agent_tended hclosed.undisturbed h rfl AgentWorld.kept_boot
  have hkept : c.shared.Kept nodeId := hsettled.invariant
  refine ⟨hkept.idle, fun t ht k hk => ?_, hkept.compiled, ?_, fun t ht reply hreply => ?_⟩
  · have hwatched := hsettled.watched t ht
    rw [System.Watched, hk] at hwatched
    obtain ⟨permit, hhold⟩ := hwatched.1
    exact hkept.not_writing ((hsettled.owns t ht).reading permit hhold).1
  · refine System.Steps.handedOver agent_tended ?_ hclosed h rfl AgentWorld.kept_boot rfl rfl
    intro st x o s r s' new hallow hx
    exact DeployStage.handsOver hallow (agent_exec hx)
  · have hwatched := hsettled.watched t ht
    rw [System.Watched, hreply] at hwatched
    exact hwatched.answered.explained (hsettled.owns t ht) fun d hd => (hkept.compiled d hd).1

end

/-! ### A run -/

/-- The decidable part of `AgentAlone`. -/
def agentAlone (_ : AgentPool) : Label AgentWorld AgentExt AgentRequest → Bool
  | .env _ => false
  | _ => true

theorem agentAlone_sound (c : AgentPool) (l : Label AgentWorld AgentExt AgentRequest)
    (h : agentAlone c l) : AgentAlone c l := by
  cases l with
  | env s => exact absurd h (by simp [agentAlone])
  | arrive q => exact trivial
  | run i x => exact trivial

/-- A moment at which all goes well, and a process writes the given bytes. -/
def AgentExt.good (stdout : List UInt8) : AgentExt where
  now := 0
  uptime := 60
  uuid := "u1"
  dropped := false
  io := .ok ()
  left := none
  output := .ok ⟨true, stdout, []⟩

/-- The rules of a request are validated, linted with a warning, compiled and taken over; then the
    status is read. -/
def compiledAndRead : List (Label AgentWorld AgentExt AgentRequest) :=
  [.arrive (.deployRules ⟨"rules: [a]", none⟩), .arrive .getStatus] ++
    Label.turns 0 4 (.good []) ++ [.run 0 (.good [0x6c, 0x69, 0x6e, 0x74])] ++
    [.run 0 (.good [0x6f, 0x6b])] ++ Label.turns 0 9 (.good []) ++ Label.turns 1 5 (.good [])

theorem agent_takesOver_one : ∃ c : AgentPool,
    c.shared.deploys.map (·.result.warnings) = [["W1: broad rule"]] ∧
      @TakesOver .sample .sample "n1" "0.1" c := by
  obtain ⟨c, _, hrun, -, hc⟩ := System.steps_of_runs (@agent .sample .sample "n1" "0.1")
    ⟨.boot "n1", []⟩ agentAlone_sound compiledAndRead []
    (fun c _ => decide (c.shared.deploys.map (·.result.warnings) = [["W1: broad rule"]]))
    (by decide +kernel)
  exact ⟨c, of_decide_eq_true hc, @agent_takesOver .sample .sample "n1" "0.1" c hrun⟩

end PaciNet

import PaciNet.Agent.Service
import PaciNet.Lib.Owned

/-!
# The stages of an agent's handlers

The handlers of an agent share its state, and their accesses to it are many. Where a handler is in
its code is a function of its trace: the lock it holds, the id it has drawn for its file, what it
has written into that, which runs of `pacgate` it has seen the end of, and what it has read of the
state or written to it.

**A handler that locks before it touches the state, and keeps to its own file, can rely on both**
(`AgentWorld.own_step`, `AgentWorld.other_step`): its file holds what it wrote until it removes it,
a reader sees the state as the last writer left it, and a writer finds the state as it was when it
came, plus what it has done to it itself.
-/

set_option autoImplicit false

namespace PaciNet

open Lib

/-! ## The agent in one step -/

/-- What a deploy does to an agent that takes it over in one step. -/
def Deploy.apply [Extern] (d : Deploy) (a : AgentState) : AgentState :=
  (a.deployRules d.time (.ok d.result) d.req).2

/-- An agent after some deploys. -/
def agentAfter [Extern] (nodeId : String) (deploys : List Deploy) : AgentState :=
  deploys.foldl (fun a d => d.apply a) (.boot nodeId)

@[simp] theorem agentAfter_concat [Extern] (nodeId : String) (deploys : List Deploy) (d : Deploy) :
    agentAfter nodeId (deploys ++ [d]) = d.apply (agentAfter nodeId deploys) := by
  simp [agentAfter]

/-! ## Compiled rules -/

section

variable [SerdeJsonText]

/-- The three runs on the file had nothing to object to the rules, and the result tells their
    warnings. -/
structure CompiledBy (path rulesYaml : String) (options : CompileOptions) (result : CompileResult)
    (validate lint compile : PacgateRun) : Prop where
  validateArgs : validate.args = validateArgs path
  lintArgs : lint.args = lintArgs path options
  compileArgs : compile.args = compileArgs path options
  input : ∀ run ∈ [validate, lint, compile], run.input = some rulesYaml
  success : ∀ run ∈ [validate, lint, compile], run.output.success = true
  noError : ∀ parsed, lint.output.findings = some parsed → parsed.lines "error" = []
  result : ∃ out, compile.output.compiled = some out ∧ out.status = "ok" ∧
    result = ⟨true, "Compilation successful",
      lint.output.findings.elim [] (·.lines "warning") ++ out.warnings ++
        if compile.output.stderrText = "" then [] else [compile.output.stderrText]⟩

/-- Among the runs are three, in this order, that compiled the rules. -/
def Compiled (runs : List PacgateRun) (rulesYaml : String) (options : CompileOptions)
    (result : CompileResult) : Prop :=
  ∃ path validate lint compile, CompiledBy path rulesYaml options result validate lint compile ∧
    [validate, lint, compile].Sublist runs

theorem Compiled.mono {runs runs' : List PacgateRun} {rulesYaml : String}
    {options : CompileOptions} {result : CompileResult}
    (h : Compiled runs rulesYaml options result) (hsub : runs.Sublist runs') :
    Compiled runs' rulesYaml options result := by
  obtain ⟨path, validate, lint, compile, hby, hruns⟩ := h
  exact ⟨path, validate, lint, compile, hby, hruns.trans hsub⟩

/-- The deploy was compiled before it was taken over. -/
def Deploy.Sound (d : Deploy) (runs : List PacgateRun) : Prop :=
  d.result.success = true ∧
    Compiled runs d.req.rulesYaml (d.req.options.getD .default) d.result

theorem Deploy.Sound.mono {d : Deploy} {runs runs' : List PacgateRun} (h : d.Sound runs)
    (hsub : runs.Sublist runs') : d.Sound runs' := ⟨h.1, h.2.mono hsub⟩

/-- What `run_lint` accepts has no error among its findings. -/
theorem lintOutcome_ok {output : Output} {warnings : List String}
    (h : lintOutcome output = .ok warnings) :
    output.success = true ∧
      (∀ parsed, output.findings = some parsed → parsed.lines "error" = []) ∧
      warnings = output.findings.elim [] (·.lines "warning") := by
  unfold lintOutcome at h
  by_cases hsuccess : output.success = true
  · rw [hsuccess] at h
    cases hfindings : output.findings with
    | none =>
      rw [hfindings] at h
      exact ⟨hsuccess, by simp, (Except.ok.inj h).symm⟩
    | some parsed =>
      simp only [hfindings, Bool.not_true, Bool.false_eq_true, if_false] at h
      by_cases herrors : parsed.lines "error" = []
      · rw [if_neg (not_not_intro herrors)] at h
        refine ⟨hsuccess, ?_, (Except.ok.inj h).symm⟩
        intro other hother
        rw [← Option.some.inj hother]
        exact herrors
      · rw [if_pos herrors] at h
        cases h
  · rw [Bool.eq_false_of_not_eq_true hsuccess] at h
    cases h

/-- Only a handler that is dropped stops as one that was. -/
theorem lintOutcome_ne_dropped (output : Output) : lintOutcome output ≠ .error .dropped := by
  unfold lintOutcome
  split
  · simp
  · split
    · simp
    · simp only []
      split <;> simp

theorem compileOutcome_ne_dropped (lintWarnings : List String) (output : Output) :
    compileOutcome lintWarnings output ≠ .error .dropped := by
  unfold compileOutcome
  split
  · simp
  · split
    · simp
    · split <;> simp

/-- A compile that succeeded ended well and said so. -/
theorem compileOutcome_ok {output : Output} {lintWarnings : List String} {result : CompileResult}
    (h : compileOutcome lintWarnings output = .ok result) (hresult : result.success = true) :
    output.success = true ∧ ∃ out, output.compiled = some out ∧ out.status = "ok" ∧
      result = ⟨true, "Compilation successful", lintWarnings ++ out.warnings ++
        if output.stderrText = "" then [] else [output.stderrText]⟩ := by
  unfold compileOutcome at h
  by_cases hsuccess : output.success = true
  · rw [hsuccess] at h
    cases hcompiled : output.compiled with
    | none =>
      rw [hcompiled] at h
      cases h
    | some parsed =>
      simp only [hcompiled, Bool.not_true, Bool.false_eq_true, if_false] at h
      by_cases hstatus : parsed.status = "ok"
      · rw [if_neg (not_not_intro hstatus)] at h
        refine ⟨hsuccess, parsed, rfl, hstatus, ?_⟩
        rw [← Except.ok.inj h]
        split <;> simp
      · rw [if_pos hstatus] at h
        rw [← Except.ok.inj h] at hresult
        cases hresult
  · rw [Bool.eq_false_of_not_eq_true hsuccess] at h
    rw [← Except.ok.inj h] at hresult
    cases hresult

end

/-! ## Stages -/

/-- The lock a handler holds. A writer has done some of what it does to the state. -/
inductive Hold where
  | none
  | reading (permit : Nat)
  | writing (part : AgentState → AgentState)

/-- The writer does one thing more. -/
def Hold.write (g : AgentState → AgentState) : Hold → Hold
  | .writing part => .writing (g ∘ part)
  | hold => hold

/-- Where a handler is: the lock it holds, the id it has drawn, what stands in its file, whether it
    has removed that or may have left it behind, the runs on it, the hashes it has read, and the
    deploy the state has taken over from it. -/
structure DeployStage where
  hold : Hold
  drawn : Option String
  text : Option String
  removed : Bool
  mishap : Bool
  runs : List PacgateRun
  seen : List (Option String)
  deploy : Option Deploy

namespace DeployStage

def start : DeployStage := ⟨.none, none, none, false, false, [], [], none⟩

/-- What one operation does to it. -/
def next (st : DeployStage) : (o : AgentOp) → o.Res → DeployStage
  | .readLock, some permit => { st with hold := .reading permit }
  | .readUnlock _, _ => { st with hold := .none }
  | .writeLock, some () => { st with hold := .writing id }
  | .writeUnlock, _ => { st with hold := .none }
  | .uuid, uuid => { st with drawn := some uuid }
  | .writeFile _ text, some (.ok ()) => { st with text := some text }
  | .writeFile _ _, _ => { st with mishap := true }
  | .removeFile _, some (.ok ()) => { st with text := none, removed := true }
  | .removeFile _, _ => { st with text := none, mishap := true }
  | .pacgate args, some (.ok output) => { st with runs := st.runs ++ [⟨args, st.text, output⟩] }
  | .pacgate _, none => { st with mishap := true }
  | .activePolicyHash, hash => { st with seen := hash :: st.seen }
  | .setActivePolicyHash hash, _ =>
    { st with hold := st.hold.write fun a => { a with activePolicyHash := some hash } }
  | .setActiveRulesYaml rulesYaml, _ =>
    { st with hold := st.hold.write fun a => { a with activeRulesYaml := some rulesYaml } }
  | .setDeployedAt time, _ =>
    { st with hold := st.hold.write fun a => { a with deployedAt := some time } }
  | .deployed req result time, _ =>
    { st with hold := .writing id, deploy := some ⟨req, result, time⟩ }
  | _, _ => st

variable [Extern] [SerdeJsonText]

/-- What a handler may do: lock before it reads or writes the state, keep to its own file, and have
    a deploy taken over once it is compiled and written. -/
def allow (st : DeployStage) : AgentOp → Prop
  | .readLock => st.hold = .none ∧ st.seen = []
  | .writeLock => st.hold = .none
  | .readUnlock permit => st.hold = .reading permit
  | .writeUnlock => st.hold = .writing id
  | .uuid => st.drawn = none ∧ st.text = none
  | .writeFile path _ => st.drawn.map tmpFile = some path ∧ st.text = none ∧ st.removed = false
  | .removeFile path => st.drawn.map tmpFile = some path
  | .pacgate args =>
    st.text.isSome ∧ ∃ path, args[1]? = some path ∧ st.drawn.map tmpFile = some path
  | .now | .uptime => True
  | .activePolicyHash => ∃ permit, st.hold = .reading permit
  | .setActivePolicyHash _ | .setActiveRulesYaml _ | .setDeployedAt _ =>
    ∃ part, st.hold = .writing part
  | .deployed req result time => st.deploy = none ∧ Deploy.Sound ⟨req, result, time⟩ st.runs ∧
    ∃ part, st.hold = .writing part ∧
      ∀ a, { part a with accepted := some req } = Deploy.apply ⟨req, result, time⟩ a

/-- The monitor of the handlers. -/
def monitor : Monitor AgentOp AgentOp.Res DeployStage where
  allow := allow
  expect _ _ := True
  next := next

end DeployStage

/-! ## What a handler owns -/

section

variable [Extern]

/-- What the stage of a handler says about the agent. -/
structure DeployStage.Owns (st : DeployStage) (nodeId : String) (w : AgentWorld) : Prop where
  reading : ∀ permit, st.hold = .reading permit → permit ∈ w.permits ∧
    ∀ hash ∈ st.seen, hash = w.agent.activePolicyHash
  writing : ∀ part, st.hold = .writing part →
    w.writing = true ∧ w.agent = part (agentAfter nodeId w.deploys)
  drawn : ∀ uuid, st.drawn = some uuid → uuid ∈ w.drawn
  text : ∀ path text, st.drawn.map tmpFile = some path → st.text = some text →
    w.files.lookup path = some text
  runs : st.runs.Sublist w.runs
  seen : ∃ deploys, deploys <+: w.deploys ∧
    ∀ hash ∈ st.seen, hash = (agentAfter nodeId deploys).activePolicyHash
  deploy : ∀ d, st.deploy = some d → d ∈ w.deploys

/-- What holds of an agent at any time. -/
structure AgentWorld.Kept [SerdeJsonText] (nodeId : String) (w : AgentWorld) : Prop where
  idle : w.writing = false → w.agent = agentAfter nodeId w.deploys
  readers : w.permits ≠ [] → w.writing = false
  permits : ∀ permit ∈ w.permits, permit < w.nextPermit
  nodup : w.permits.Nodup
  compiled : ∀ d ∈ w.deploys, d.Sound w.runs

/-- Two handlers have drawn different ids, and hold locks they can hold together. -/
structure DeployStage.Apart (st su : DeployStage) : Prop where
  drawn : ∀ uuid, st.drawn = some uuid → su.drawn ≠ some uuid
  permits : ∀ permit, st.hold = .reading permit → su.hold ≠ .reading permit
  writers : ∀ part part', st.hold = .writing part → su.hold ≠ .writing part'

/-- What the handlers of an agent own. -/
def agentOwnership [SerdeJsonText] (nodeId : String) : Ownership DeployStage AgentWorld where
  invariant := AgentWorld.Kept nodeId
  owns st w := st.Owns nodeId w
  apart := DeployStage.Apart

omit [Extern] in
theorem tmpFile_inj {a b : String} (h : tmpFile a = tmpFile b) : a = b := by
  unfold tmpFile at h
  exact (String.append_right_inj _).1 ((String.append_left_inj _).1 h)

variable {nodeId : String} {st su : DeployStage} {w w' : AgentWorld} {x : AgentExt}

theorem DeployStage.owns_start : DeployStage.start.Owns nodeId w where
  reading _ h := nomatch h
  writing _ h := nomatch h
  drawn _ h := nomatch h
  text _ _ h := nomatch h
  runs := List.nil_sublist _
  seen := ⟨[], List.nil_prefix, fun _ h => nomatch h⟩
  deploy _ h := nomatch h

omit [Extern] in
theorem DeployStage.apart_start : DeployStage.start.Apart su where
  drawn _ h := nomatch h
  permits _ h := nomatch h
  writers _ _ h := nomatch h

omit [Extern] in
theorem DeployStage.Apart.symm (h : st.Apart su) : su.Apart st where
  drawn uuid hsu hst := h.drawn uuid hst hsu
  permits permit hsu hst := h.permits permit hst hsu
  writers part part' hsu hst := h.writers part' part hst hsu

omit [Extern] in
/-- Only the id and the lock of a handler matter to the others. -/
theorem DeployStage.Apart.congr {st' : DeployStage} (h : st.Apart su)
    (hdrawn : st'.drawn = st.drawn) (hhold : st'.hold = st.hold) : st'.Apart su where
  drawn uuid hst := h.drawn uuid (hdrawn ▸ hst)
  permits permit hst := h.permits permit (hhold ▸ hst)
  writers part part' hst := h.writers part part' (hhold ▸ hst)

omit [Extern] in
/-- A handler may lock what it likes as far as one is concerned that holds no lock. -/
theorem DeployStage.Apart.unlocked {st' : DeployStage} (h : st.Apart su) (hsu : su.hold = .none)
    (hdrawn : st'.drawn = st.drawn) : st'.Apart su where
  drawn uuid hst := h.drawn uuid (hdrawn ▸ hst)
  permits _ _ hsuhold := absurd (hsu.symm.trans hsuhold) (by simp)
  writers _ _ _ hsuhold := absurd (hsu.symm.trans hsuhold) (by simp)

omit [Extern] in
/-- The files of two handlers are different ones. -/
theorem DeployStage.Apart.path_ne (h : st.Apart su) {path path' : String}
    (hpath : st.drawn.map tmpFile = some path) (hpath' : su.drawn.map tmpFile = some path') :
    path' ≠ path := by
  rintro rfl
  obtain ⟨uuid, huuid, hfile⟩ := Option.map_eq_some_iff.1 hpath
  obtain ⟨uuid', huuid', hfile'⟩ := Option.map_eq_some_iff.1 hpath'
  rw [tmpFile_inj (hfile'.trans hfile.symm)] at huuid'
  exact h.drawn uuid huuid huuid'

omit [Extern] in
/-- What stands in another file than the one that is left. -/
theorem AgentWorld.lookup_leave {path path' : String} (h : path' ≠ path) (left : Option String) :
    (w.leave path left).files.lookup path' = w.files.lookup path' := by
  cases left with
  | none => exact AList.lookup_erase_ne h
  | some text => exact AList.lookup_insert_ne h

/-- The part of a handler stays if its file does and nothing is taken from the rest. -/
theorem DeployStage.Owns.beside (hst : st.Owns nodeId w) {files : AList fun _ : String => String}
    {drawn : List String} {runs : List PacgateRun} (hdrawn : ∀ uuid ∈ w.drawn, uuid ∈ drawn)
    (hruns : w.runs.Sublist runs)
    (hfiles : ∀ path text, st.drawn.map tmpFile = some path → st.text = some text →
      files.lookup path = some text) :
    st.Owns nodeId { w with files := files, drawn := drawn, runs := runs } where
  reading := hst.reading
  writing := hst.writing
  drawn uuid h := hdrawn uuid (hst.drawn uuid h)
  text := hfiles
  runs := hst.runs.trans hruns
  seen := hst.seen
  deploy := hst.deploy

/-- The part of a handler stays whatever becomes of the file of another. -/
theorem DeployStage.Owns.elsewhere (hsu : su.Owns nodeId w) (hapart : st.Apart su) {path : String}
    (hpath : st.drawn.map tmpFile = some path) {files : AList fun _ : String => String}
    (hfiles : ∀ path', path' ≠ path → files.lookup path' = w.files.lookup path') :
    su.Owns nodeId { w with files := files } :=
  hsu.beside (fun _ h => h) (List.Sublist.refl _) fun path' text hpath' h =>
    (hfiles path' (hapart.path_ne hpath hpath')).trans (hsu.text path' text hpath' h)

/-- A writer does one thing more to the state. -/
theorem DeployStage.Owns.written (hst : st.Owns nodeId w) {part : AgentState → AgentState}
    (hhold : st.hold = .writing part) (g : AgentState → AgentState) :
    DeployStage.Owns { st with hold := st.hold.write g } nodeId { w with agent := g w.agent } := by
  obtain ⟨hwriting, hagent⟩ := hst.writing part hhold
  refine ⟨fun permit h => ?_, fun part' h => ?_, hst.drawn, hst.text, hst.runs, hst.seen,
    hst.deploy⟩
  · simp [hhold, Hold.write] at h
  · simp only [hhold, Hold.write, Hold.writing.injEq] at h
    subst h
    exact ⟨hwriting, by rw [hagent]; rfl⟩

/-! ## Steps -/

variable [SerdeJsonText]

/-- A reader keeps a writer out. -/
theorem AgentWorld.Kept.not_writing (hw : w.Kept nodeId) {permit : Nat}
    (h : permit ∈ w.permits) : w.writing = false :=
  hw.readers (List.ne_nil_of_mem h)

/-- A change of the files, of the ids that were drawn, or one more run, leaves the rest alone. -/
theorem AgentWorld.Kept.beside (hw : w.Kept nodeId) {files : AList fun _ : String => String}
    {drawn : List String} {runs : List PacgateRun} (hruns : w.runs.Sublist runs) :
    AgentWorld.Kept nodeId { w with files := files, drawn := drawn, runs := runs } where
  idle := hw.idle
  readers := hw.readers
  permits := hw.permits
  nodup := hw.nodup
  compiled d hd := (hw.compiled d hd).mono hruns

/-- The state while a writer writes. -/
theorem AgentWorld.Kept.written (hw : w.Kept nodeId) (hwriting : w.writing = true)
    (a : AgentState) : AgentWorld.Kept nodeId { w with agent := a } where
  idle h := absurd (hwriting.symm.trans h) (by simp)
  readers := hw.readers
  permits := hw.permits
  nodup := hw.nodup
  compiled := hw.compiled

/-- While another handler writes, one neither reads nor writes. -/
theorem DeployStage.Owns.unwritten (hsu : su.Owns nodeId w) (hw : w.Kept nodeId)
    (hapart : st.Apart su) {part : AgentState → AgentState} (hhold : st.hold = .writing part)
    (hwriting : w.writing = true) : su.hold = .none := by
  cases hsuhold : su.hold with
  | none => rfl
  | reading permit =>
    have hfree := hw.not_writing (hsu.reading permit hsuhold).1
    exact absurd (hwriting.symm.trans hfree) (by simp)
  | writing part' => exact absurd hsuhold (hapart.writers part part' hhold)

/-- **Every operation that a handler may perform keeps the agent in order and brings the handler to
    a stage whose part is there.** -/
theorem AgentWorld.own_step {o : AgentOp} {r : o.Res} (hw : w.Kept nodeId)
    (hst : st.Owns nodeId w) (hallow : st.allow o) (hx : AgentWorld.exec x o w = some (r, w')) :
    w'.Kept nodeId ∧ (st.next o r).Owns nodeId w' := by
  cases o with
  | readLock =>
    simp only [exec] at hx
    split at hx
    · cases hx
      exact ⟨hw, hst⟩
    split at hx
    · cases hx
    rename_i hfree
    cases hx
    have hidle : w.writing = false := by simpa using hfree
    refine ⟨⟨hw.idle, fun _ => hidle, fun permit h => ?_, ?_, hw.compiled⟩,
      ⟨fun permit h => ?_, fun part h => (nomatch h), hst.drawn, hst.text, hst.runs, hst.seen,
        hst.deploy⟩⟩
    · rcases List.mem_cons.1 h with rfl | h
      · exact Nat.lt_succ_self _
      · exact Nat.lt_succ_of_lt (hw.permits permit h)
    · exact List.nodup_cons.2 ⟨fun h => Nat.lt_irrefl _ (hw.permits _ h), hw.nodup⟩
    · cases h
      refine ⟨List.mem_cons_self, fun hash h => ?_⟩
      rw [show (st.next .readLock (some w.nextPermit)).seen = st.seen from rfl, hallow.2] at h
      exact nomatch h
  | readUnlock permit =>
    cases hx
    refine ⟨⟨hw.idle, fun h => ?_, fun permit h => ?_, hw.nodup.erase _, hw.compiled⟩,
      ⟨fun permit h => (nomatch h), fun part h => (nomatch h), hst.drawn, hst.text, hst.runs,
        hst.seen, hst.deploy⟩⟩
    · obtain ⟨permit, hmem⟩ := List.exists_mem_of_ne_nil _ h
      exact hw.not_writing (List.mem_of_mem_erase hmem)
    · exact hw.permits permit (List.mem_of_mem_erase h)
  | writeLock =>
    simp only [exec] at hx
    split at hx
    · cases hx
      exact ⟨hw, hst⟩
    split at hx
    · cases hx
    rename_i hfree
    cases hx
    obtain ⟨hidle, hpermits⟩ : w.writing = false ∧ w.permits = [] := by simpa using hfree
    refine ⟨⟨fun h => absurd h (by simp), fun h => absurd hpermits h, hw.permits, hw.nodup,
      hw.compiled⟩, ⟨fun permit h => (nomatch h), fun part h => ?_, hst.drawn, hst.text, hst.runs,
        hst.seen, hst.deploy⟩⟩
    cases h
    exact ⟨rfl, hw.idle hidle⟩
  | writeUnlock =>
    cases hx
    obtain ⟨hwriting, hagent⟩ := hst.writing id hallow
    refine ⟨⟨fun _ => hagent, fun _ => rfl, hw.permits, hw.nodup, hw.compiled⟩,
      ⟨fun permit h => (nomatch h), fun part h => (nomatch h), hst.drawn, hst.text, hst.runs,
        hst.seen, hst.deploy⟩⟩
  | uuid =>
    simp only [exec] at hx
    split at hx
    · cases hx
    cases hx
    have hbeside : DeployStage.Owns st nodeId { w with drawn := x.uuid :: w.drawn } :=
      hst.beside (fun uuid h => List.mem_cons_of_mem x.uuid h) (List.Sublist.refl w.runs) hst.text
    refine ⟨hw.beside (List.Sublist.refl _), ⟨hbeside.reading, hbeside.writing, fun uuid h => ?_,
      fun path text _ h => ?_, hbeside.runs, hbeside.seen, hbeside.deploy⟩⟩
    · cases h
      exact List.mem_cons_self
    · rw [show (st.next .uuid x.uuid).text = st.text from rfl, hallow.2] at h
      exact nomatch h
  | writeFile path text =>
    obtain ⟨hpath, htext, -⟩ := hallow
    -- nothing is known of the file after a failure
    have hleft : (w.leave path x.left).Kept nodeId ∧
        DeployStage.Owns { st with mishap := true } nodeId (w.leave path x.left) := by
      have hbeside : DeployStage.Owns st nodeId { w with files := (w.leave path x.left).files } :=
        hst.beside (fun _ h => h) (List.Sublist.refl w.runs) fun path' text' _ h =>
          absurd (htext.symm.trans h) (by simp)
      exact ⟨hw.beside (List.Sublist.refl _), ⟨hbeside.reading, hbeside.writing, hbeside.drawn,
        hbeside.text, hbeside.runs, hbeside.seen, hbeside.deploy⟩⟩
    simp only [exec] at hx
    split at hx
    · cases hx
      exact hleft
    split at hx
    · cases hx
      refine ⟨hw.beside (List.Sublist.refl _), ⟨hst.reading, hst.writing, hst.drawn,
        fun path' text' hpath' h => ?_, hst.runs, hst.seen, hst.deploy⟩⟩
      obtain rfl : path = path' := Option.some.inj (hpath.symm.trans hpath')
      cases h
      exact AList.lookup_insert _
    · cases hx
      exact hleft
  | removeFile path =>
    -- the file is not spoken of any more
    have hgone (files : AList fun _ : String => String) (removed mishap : Bool) :
        AgentWorld.Kept nodeId { w with files := files } ∧
          DeployStage.Owns { st with text := none, removed := removed, mishap := mishap } nodeId
            { w with files := files } :=
      ⟨hw.beside (List.Sublist.refl _), ⟨hst.reading, hst.writing, hst.drawn,
        fun _ _ _ h => (nomatch h), hst.runs, hst.seen, hst.deploy⟩⟩
    simp only [exec] at hx
    split at hx
    · cases hx
      exact hgone _ _ _
    split at hx
    · cases hx
      exact hgone _ _ _
    · cases hx
      exact hgone _ _ _
  | pacgate args =>
    simp only [exec] at hx
    split at hx
    · cases hx
      exact ⟨hw, ⟨hst.reading, hst.writing, hst.drawn, hst.text, hst.runs, hst.seen, hst.deploy⟩⟩
    split at hx
    · rename_i output _
      cases hx
      have hbeside := hst.beside (fun _ h => h) (List.sublist_append_left w.runs
        [⟨args, args[1]?.bind fun path => w.files.lookup path, output⟩]) hst.text
      refine ⟨hw.beside (List.sublist_append_left _ _), ⟨hbeside.reading, hbeside.writing,
        hbeside.drawn, hbeside.text, ?_, hbeside.seen, hbeside.deploy⟩⟩
      obtain ⟨htext, path, hpath, hdrawn⟩ := hallow
      obtain ⟨text, htext⟩ := Option.isSome_iff_exists.1 htext
      have hinput : (args[1]?.bind fun path => w.files.lookup path) = st.text := by
        rw [hpath, htext]
        exact hst.text path text hdrawn htext
      rw [hinput]
      exact hst.runs.append (List.Sublist.refl _)
    · cases hx
      exact ⟨hw, hst⟩
  | now =>
    cases hx
    exact ⟨hw, hst⟩
  | uptime =>
    cases hx
    exact ⟨hw, hst⟩
  | activePolicyHash =>
    cases hx
    obtain ⟨permit, hhold⟩ := hallow
    obtain ⟨hpermit, hseen⟩ := hst.reading permit hhold
    have hall : ∀ hash ∈ w.agent.activePolicyHash :: st.seen,
        hash = w.agent.activePolicyHash := by
      intro hash h
      rcases List.mem_cons.1 h with rfl | h
      · rfl
      · exact hseen hash h
    refine ⟨hw, ⟨fun permit' h => ⟨(hst.reading permit' h).1, hall⟩, hst.writing, hst.drawn,
      hst.text, hst.runs, ⟨w.deploys, List.prefix_rfl, ?_⟩, hst.deploy⟩⟩
    rw [← hw.idle (hw.not_writing hpermit)]
    exact hall
  | setActivePolicyHash hash =>
    cases hx
    obtain ⟨part, hhold⟩ := hallow
    exact ⟨hw.written (hst.writing part hhold).1 _, hst.written hhold _⟩
  | setActiveRulesYaml rulesYaml =>
    cases hx
    obtain ⟨part, hhold⟩ := hallow
    exact ⟨hw.written (hst.writing part hhold).1 _, hst.written hhold _⟩
  | setDeployedAt time =>
    cases hx
    obtain ⟨part, hhold⟩ := hallow
    exact ⟨hw.written (hst.writing part hhold).1 _, hst.written hhold _⟩
  | deployed req result time =>
    cases hx
    obtain ⟨-, hcompiled, part, hhold, hpart⟩ := hallow
    obtain ⟨hwriting, hagent⟩ := hst.writing part hhold
    obtain ⟨deploys, hprefix, hseen⟩ := hst.seen
    refine ⟨⟨fun h => absurd (hwriting.symm.trans h) (by simp), hw.readers, hw.permits, hw.nodup,
      fun d hd => ?_⟩, ⟨fun permit h => (nomatch h), fun part' h => ?_, hst.drawn, hst.text,
        hst.runs, ⟨deploys, hprefix.trans (List.prefix_append _ _), hseen⟩, fun d hd => ?_⟩⟩
    · rcases List.mem_append.1 hd with hd | hd
      · exact hw.compiled d hd
      · rw [List.mem_singleton.1 hd]
        exact hcompiled.mono hst.runs
    · cases h
      refine ⟨hwriting, ?_⟩
      rw [agentAfter_concat, ← hpart, ← hagent]
      rfl
    · cases hd
      exact List.mem_append_right _ (List.mem_singleton_self _)

/-- **No operation that a handler may perform takes from another what it has.** -/
theorem AgentWorld.other_step {o : AgentOp} {r : o.Res} (hw : w.Kept nodeId)
    (hst : st.Owns nodeId w) (hsu : su.Owns nodeId w) (hapart : st.Apart su)
    (hallow : st.allow o) (hx : AgentWorld.exec x o w = some (r, w')) :
    su.Owns nodeId w' ∧ (st.next o r).Apart su := by
  -- a writer is the only one who holds a lock
  have unwritten {part : AgentState → AgentState} (hhold : st.hold = .writing part) :
      su.hold = .none := hsu.unwritten hw hapart hhold (hst.writing part hhold).1
  have written (a : AgentState) {part : AgentState → AgentState} (hhold : st.hold = .writing part)
      (deploys : List Deploy) (hdeploys : w.deploys <+: deploys) :
      su.Owns nodeId { w with agent := a, deploys := deploys } := by
    have hnone := unwritten hhold
    obtain ⟨ds, hprefix, hseen⟩ := hsu.seen
    exact ⟨fun permit h => absurd (hnone.symm.trans h) (by simp),
      fun part' h => absurd (hnone.symm.trans h) (by simp), hsu.drawn, hsu.text, hsu.runs,
      ⟨ds, hprefix.trans hdeploys, hseen⟩, fun d hd => hdeploys.subset (hsu.deploy d hd)⟩
  cases o with
  | readLock =>
    simp only [exec] at hx
    split at hx
    · cases hx
      exact ⟨hsu, hapart⟩
    split at hx
    · cases hx
    cases hx
    refine ⟨⟨fun permit h => ?_, hsu.writing, hsu.drawn, hsu.text, hsu.runs, hsu.seen,
      hsu.deploy⟩, ⟨hapart.drawn, fun permit h hsuhold => ?_, fun part _ h => (nomatch h)⟩⟩
    · exact ⟨List.mem_cons_of_mem _ (hsu.reading permit h).1, (hsu.reading permit h).2⟩
    · cases h
      exact Nat.lt_irrefl _ (hw.permits _ (hsu.reading _ hsuhold).1)
  | readUnlock permit =>
    cases hx
    refine ⟨⟨fun permit' h => ⟨?_, (hsu.reading permit' h).2⟩, hsu.writing, hsu.drawn, hsu.text,
      hsu.runs, hsu.seen, hsu.deploy⟩, ⟨hapart.drawn, fun _ h => (nomatch h),
        fun _ _ h => (nomatch h)⟩⟩
    refine (List.mem_erase_of_ne ?_).2 (hsu.reading permit' h).1
    rintro rfl
    exact hapart.permits _ hallow h
  | writeLock =>
    simp only [exec] at hx
    split at hx
    · cases hx
      exact ⟨hsu, hapart⟩
    split at hx
    · cases hx
    rename_i hfree
    cases hx
    obtain ⟨hidle, hpermits⟩ : w.writing = false ∧ w.permits = [] := by simpa using hfree
    have hnone : ∀ part, su.hold ≠ .writing part := by
      intro part h
      exact absurd ((hsu.writing part h).1.symm.trans hidle) (by simp)
    refine ⟨⟨hsu.reading, fun part h => absurd h (hnone part), hsu.drawn, hsu.text, hsu.runs,
      hsu.seen, hsu.deploy⟩, ⟨hapart.drawn, fun _ h => (nomatch h), fun _ part _ => hnone part⟩⟩
  | writeUnlock =>
    cases hx
    have hnone := unwritten hallow
    refine ⟨⟨hsu.reading, fun part h => absurd (hnone.symm.trans h) (by simp), hsu.drawn, hsu.text,
      hsu.runs, hsu.seen, hsu.deploy⟩,
      ⟨hapart.drawn, fun _ h => (nomatch h), fun _ _ h => (nomatch h)⟩⟩
  | uuid =>
    simp only [exec] at hx
    split at hx
    · cases hx
    rename_i hfresh
    cases hx
    refine ⟨hsu.beside (fun uuid h => List.mem_cons_of_mem x.uuid h) (List.Sublist.refl _)
      hsu.text, ⟨fun uuid h hsudrawn => ?_, hapart.permits, hapart.writers⟩⟩
    cases h
    exact hfresh (hsu.drawn _ hsudrawn)
  | writeFile path text =>
    obtain ⟨hpath, -⟩ := hallow
    simp only [exec] at hx
    split at hx
    · cases hx
      exact ⟨hsu.elsewhere hapart hpath fun _ h => AgentWorld.lookup_leave h _,
        hapart.congr rfl rfl⟩
    split at hx
    · cases hx
      exact ⟨hsu.elsewhere hapart hpath fun _ h => AList.lookup_insert_ne h,
        hapart.congr rfl rfl⟩
    · cases hx
      exact ⟨hsu.elsewhere hapart hpath fun _ h => AgentWorld.lookup_leave h _,
        hapart.congr rfl rfl⟩
  | removeFile path =>
    simp only [exec] at hx
    split at hx
    · cases hx
      exact ⟨hsu.elsewhere hapart hallow fun _ h => AgentWorld.lookup_leave h _,
        hapart.congr rfl rfl⟩
    split at hx
    · cases hx
      exact ⟨hsu.elsewhere hapart hallow fun _ h => AList.lookup_erase_ne h,
        hapart.congr rfl rfl⟩
    · cases hx
      exact ⟨hsu, hapart.congr rfl rfl⟩
  | pacgate args =>
    simp only [exec] at hx
    split at hx
    · cases hx
      exact ⟨hsu, hapart.congr rfl rfl⟩
    split at hx
    · cases hx
      exact ⟨hsu.beside (fun _ h => h) (List.sublist_append_left _ _) hsu.text,
        hapart.congr rfl rfl⟩
    · cases hx
      exact ⟨hsu, hapart⟩
  | now =>
    cases hx
    exact ⟨hsu, hapart⟩
  | uptime =>
    cases hx
    exact ⟨hsu, hapart⟩
  | activePolicyHash =>
    cases hx
    exact ⟨hsu, hapart.congr rfl rfl⟩
  | setActivePolicyHash hash =>
    cases hx
    obtain ⟨part, hhold⟩ := hallow
    exact ⟨written _ hhold _ List.prefix_rfl, hapart.unlocked (unwritten hhold) rfl⟩
  | setActiveRulesYaml rulesYaml =>
    cases hx
    obtain ⟨part, hhold⟩ := hallow
    exact ⟨written _ hhold _ List.prefix_rfl, hapart.unlocked (unwritten hhold) rfl⟩
  | setDeployedAt time =>
    cases hx
    obtain ⟨part, hhold⟩ := hallow
    exact ⟨written _ hhold _ List.prefix_rfl, hapart.unlocked (unwritten hhold) rfl⟩
  | deployed req result time =>
    cases hx
    obtain ⟨-, -, part, hhold, -⟩ := hallow
    exact ⟨written _ hhold _ (List.prefix_append _ _), hapart.unlocked (unwritten hhold) rfl⟩

end

end PaciNet

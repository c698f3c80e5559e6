import PaciNet.Lib.Serial
import PaciNet.Proof.AgentDeploys

/-!
# What an agent leaves in its directory

Each deploy writes its rules to a file under an id of its own. **A file that is there belongs to one
deploy, which is still going on or had a mishap**: it could not write the file or remove it,
or it was dropped while it did or while `pacgate` ran. A deploy that is refused removes its file as
one that succeeds does.
-/

set_option autoImplicit false

namespace PaciNet

open Lib

/-- What can keep a handler from removing its file. -/
def Mishap : (o : AgentOp) × o.Res → Prop
  | ⟨.writeFile _ _, r⟩ => r ≠ some (.ok ())
  | ⟨.removeFile _, r⟩ => r ≠ some (.ok ())
  | ⟨.pacgate _, r⟩ => r = none
  | _ => False

namespace DeployStage

/-- The file is the one of the handler, who has not removed it. -/
def Claims (st : DeployStage) (path : String) : Prop :=
  st.drawn.map tmpFile = some path ∧ st.removed = false

theorem next_drawn (st : DeployStage) (o : AgentOp) (r : o.Res) :
    (st.next o r).drawn = st.drawn ∨
      ∃ uuid, (⟨o, r⟩ : (o : AgentOp) × o.Res) = ⟨.uuid, uuid⟩ ∧
        (st.next o r).drawn = some uuid := by
  cases o with
  | uuid => exact .inr ⟨r, rfl, rfl⟩
  | readLock | writeLock =>
    cases r <;> exact .inl rfl
  | writeFile _ _ | removeFile _ | pacgate _ =>
    rcases r with _ | (_ | ⟨⟩) <;> exact .inl rfl
  | _ => exact .inl rfl

theorem next_mishap (st : DeployStage) (o : AgentOp) (r : o.Res) (h : (st.next o r).mishap = true) :
    st.mishap = true ∨ Mishap ⟨o, r⟩ := by
  cases o with
  | readLock | writeLock =>
    cases r <;> exact .inl h
  | writeFile _ _ | removeFile _ =>
    rcases r with _ | (_ | ⟨⟩)
    · exact .inr (by simp [Mishap])
    · exact .inr (by simp [Mishap])
    · exact .inl h
  | pacgate _ =>
    rcases r with _ | (_ | _)
    · exact .inr rfl
    · exact .inl h
    · exact .inl h
  | _ => exact .inl h

variable [Extern] [SerdeJsonText] {trace : List ((o : AgentOp) × o.Res)}

/-- The id a handler has drawn is the answer to an operation. -/
theorem uuid_mem {uuid : String} (h : (monitor.after start trace).drawn = some uuid) :
    ⟨.uuid, uuid⟩ ∈ trace := by
  induction trace using List.reverseRecOn with
  | nil => exact nomatch h
  | append_singleton trace e ih =>
    rw [Monitor.after_snoc] at h
    rcases next_drawn (monitor.after start trace) e.1 e.2 with heq | ⟨uuid', he, heq⟩
    · exact List.mem_append_left _ (ih (heq.symm.trans h))
    · obtain rfl : uuid' = uuid := Option.some.inj (heq.symm.trans h)
      exact List.mem_append_right _ (List.mem_singleton.2 he.symm)

theorem mishap_mem (h : (monitor.after start trace).mishap = true) : ∃ e ∈ trace, Mishap e := by
  induction trace using List.reverseRecOn with
  | nil => exact nomatch h
  | append_singleton trace e ih =>
    rw [Monitor.after_snoc] at h
    rcases next_mishap (monitor.after start trace) e.1 e.2 h with h | h
    · obtain ⟨e', he', hmishap⟩ := ih h
      exact ⟨e', List.mem_append_left _ he', hmishap⟩
    · exact ⟨e, List.mem_append_right _ (List.mem_singleton_self e), h⟩

omit [Extern] [SerdeJsonText] in
/-- An operation that does nothing to files leaves the claims as they are. -/
theorem claims_or {st st' : DeployStage} {path : String} {present : Prop} (hpresent : present)
    (hdrawn : st'.drawn = st.drawn) (hremoved : st'.removed = st.removed) :
    st'.Claims path ∨ (present ∧ ¬ st.Claims path) := by
  by_cases h : st.Claims path
  · exact .inl ⟨hdrawn ▸ h.1, hremoved ▸ h.2⟩
  · exact .inr ⟨hpresent, h⟩

omit [Extern] [SerdeJsonText] in
/-- A removal that nobody waits for brings in no file. -/
theorem present_of_leave {w : AgentWorld} {path path' : String} {left : Option String}
    (h : path ∈ (w.leave path' (left.bind fun _ => w.files.lookup path')).files) :
    path ∈ w.files := by
  cases hleft : left.bind fun _ => w.files.lookup path' with
  | none =>
    rw [hleft] at h
    exact (AList.mem_erase.1 h).2
  | some text =>
    rw [hleft] at h
    rcases (AList.mem_insert _).1 h with rfl | h
    · obtain ⟨_, -, hlookup⟩ := Option.bind_eq_some_iff.1 hleft
      exact AList.lookup_isSome.1 (by simp [hlookup])
    · exact h

variable {nodeId pacgateVersion : String}

/-- A handler claims the file it writes, and gives it up when it has removed it. -/
theorem givesUp : System.GivesUp (agent nodeId pacgateVersion) monitor (agentOwnership nodeId)
    (fun w path => path ∈ w.files) Claims := by
  intro st x o w r w' new _ hallow hx path hpath
  have hx := agent_exec hx
  -- what is there in another file than the handler's own was there before
  have other {path' : String} (hpath' : st.drawn.map tmpFile = some path') (hne : path ≠ path')
      (hbefore : path ∈ w.files) : path ∈ w.files ∧ ¬ st.Claims path :=
    ⟨hbefore, fun h => hne (Option.some.inj (h.1.symm.trans hpath'))⟩
  have left {path' : String} {left : Option String} (hne : path ≠ path')
      (h : path ∈ (w.leave path' left).files) : path ∈ w.files := by
    rw [← AList.lookup_isSome, AgentWorld.lookup_leave hne] at h
    exact AList.lookup_isSome.1 h
  cases o with
  | writeFile path' text =>
    obtain ⟨hpath', -, hremoved⟩ := hallow
    by_cases heq : path = path'
    · subst heq
      refine .inl ?_
      rcases r with _ | (_ | ⟨⟩) <;> exact ⟨hpath', hremoved⟩
    · refine .inr (other hpath' heq ?_)
      simp only [AgentWorld.exec] at hx
      split at hx
      · cases hx
        exact left heq hpath
      split at hx
      · cases hx
        exact (AList.mem_insert _).1 hpath |>.resolve_left heq
      · cases hx
        exact left heq hpath
  | removeFile path' =>
    simp only [AgentWorld.exec] at hx
    split at hx
    · cases hx
      exact claims_or (present_of_leave hpath) rfl rfl
    split at hx
    · cases hx
      obtain ⟨hne, hbefore⟩ := AList.mem_erase.1 hpath
      exact .inr (other hallow hne hbefore)
    · cases hx
      exact claims_or hpath rfl rfl
  | uuid =>
    simp only [AgentWorld.exec] at hx
    split at hx
    · cases hx
    cases hx
    exact .inr ⟨hpath, fun h => absurd (hallow.1 ▸ h.1) (by simp)⟩
  | readLock | writeLock | pacgate _ =>
    simp only [AgentWorld.exec] at hx
    repeat' split at hx
    all_goals cases hx
    all_goals exact claims_or hpath rfl rfl
  | _ =>
    cases hx
    exact claims_or hpath rfl rfl

end DeployStage

/-- The ids that the handlers of an agent draw for their files. -/
def fileIds : Draws AgentOp AgentOp.Res AgentWorld String where
  drawn
    | .uuid, r => some r
    | _, _ => none
  issued := AgentWorld.drawn

theorem fileIds_lawful [Extern] [SerdeJsonText] {nodeId pacgateVersion : String} :
    fileIds.Lawful (agent nodeId pacgateVersion).toMachine := by
  intro x o w r w' new hx
  have hx := agent_exec hx
  cases o with
  | uuid =>
    simp only [AgentWorld.exec] at hx
    split at hx
    · exact absurd hx (by simp)
    · rename_i hfresh
      cases hx
      refine ⟨?_, rfl⟩
      rintro uuid ⟨⟩
      exact hfresh
  | readLock | writeLock | pacgate _ | writeFile _ _ | removeFile _ =>
    refine ⟨fun uuid huuid => absurd huuid (Option.not_mem_none uuid), ?_⟩
    simp only [AgentWorld.exec] at hx
    repeat' split at hx
    all_goals cases hx
    all_goals rfl
  | _ =>
    cases hx
    exact ⟨fun uuid huuid => absurd huuid (Option.not_mem_none uuid), rfl⟩

/-- **In every run of the process, a file that is there belongs to one deploy, which is still going
    on or had a mishap.** -/
theorem tmpFiles_accounted [Extern] [SerdeJsonText] {nodeId pacgateVersion : String}
    {c : AgentPool} (h : (agent nodeId pacgateVersion).Steps AgentAlone ⟨.boot nodeId, []⟩ c)
    {path : String} (hpath : path ∈ c.shared.files) :
    ∃ t ∈ c.threads, ∃ uuid, ⟨.uuid, uuid⟩ ∈ t.trace ∧ tmpFile uuid = path ∧
      (∀ t' ∈ c.threads, ⟨.uuid, uuid⟩ ∈ t'.trace → t' = t) ∧
      ((∃ o k, t.prog = .call o k) ∨ ∃ e ∈ t.trace, Mishap e) := by
  have hclosed : System.Closed AgentAlone := fun _ _ henv => henv
  obtain ⟨t, ht, hfile, hremoved⟩ := System.Steps.accounted agent_tended DeployStage.givesUp
    hclosed h rfl AgentWorld.kept_boot (fun path h => absurd h (AList.notMem_empty path)) path hpath
  obtain ⟨uuid, huuid, rfl⟩ := Option.map_eq_some_iff.1 hfile
  have hdrawn := DeployStage.uuid_mem huuid
  have hfresh := fileIds_lawful.fresh (fun _ _ henv => (nomatch henv)) h rfl
  refine ⟨t, ht, uuid, hdrawn, rfl, fun t' ht' hdrawn' => ?_, ?_⟩
  · exact hfresh.thread_unique ht ht' (Draws.mem_ids hdrawn rfl) (Draws.mem_ids hdrawn' rfl)
  cases hprog : t.prog with
  | call o k => exact .inl ⟨o, k, rfl⟩
  | done reply =>
    have hsettled := System.Steps.settled agent_tended hclosed.undisturbed h rfl AgentWorld.kept_boot
    have hwatched := hsettled.watched t ht
    rw [System.Watched, hprog] at hwatched
    rcases hwatched.tidy uuid huuid with htidy | hmishap
    · exact absurd (hremoved.symm.trans htidy) (by simp)
    · exact .inr (DeployStage.mishap_mem hmishap)

/-- The handler is dropped while the rules are linted. -/
def droppedInLint : List (Label AgentWorld AgentExt AgentRequest) :=
  .arrive (.deployRules ⟨"rules: [a]", none⟩) :: Label.turns 0 4 (.good []) ++
    Label.turns 0 2 { AgentExt.good [] with dropped := true }

theorem tmpFiles_accounted_dropped : ∃ c : AgentPool, ∃ path ∈ c.shared.files,
    ∃ t ∈ c.threads, ∃ uuid, ⟨.uuid, uuid⟩ ∈ t.trace ∧ tmpFile uuid = path ∧
      (∀ t' ∈ c.threads, ⟨.uuid, uuid⟩ ∈ t'.trace → t' = t) ∧
      ((∃ o k, t.prog = .call o k) ∨ ∃ e ∈ t.trace, Mishap e) := by
  obtain ⟨c, _, hrun, -, hc⟩ := System.steps_of_runs (@agent .sample .sample "n1" "0.1")
    ⟨.boot "n1", []⟩ agentAlone_sound droppedInLint []
    (fun c _ => decide ("/tmp/pacinet-rules-u1.yaml" ∈ c.shared.files)) (by decide +kernel)
  have hpath := of_decide_eq_true hc
  exact ⟨c, _, hpath, @tmpFiles_accounted .sample .sample "n1" "0.1" c hrun _ hpath⟩

end PaciNet

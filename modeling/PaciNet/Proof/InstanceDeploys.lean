import PaciNet.Proof.Batches
import PaciNet.Proof.OutcomeConditions

/-!
# The deploys of an instance

What an instance has deployed is kept in its context in three places: the lists of deployed and of
failed nodes, which only ever grow, and the result of the last action. What its deploys came to is
in none of them once there have been several to one node.

Here a run of an instance is the list of the states it enters, with the answers to the operations
on each entry, whatever was answered to them. **`Entry.effect` says what one entry does to the
three**, and which deploys it made: statements about runs are inductions over it.
-/

set_option autoImplicit false

namespace PaciNet

open Lib Prog

/-! ## Runs of an instance -/

/-- A state that was entered: the entry, the answers to its operations, and the instance after. -/
structure EntryStep where
  entry : Entry
  answers : List Answered
  inst : FsmInstance

/-- The name of the state that is entered. -/
def Entry.state : Entry → String
  | .started _ definition _ => definition.initial
  | .fired _ toState _ _ => toState

/-- The definition by which it is entered. -/
def Entry.definition : Entry → FsmDefinition
  | .started _ definition _ => definition
  | .fired _ _ _ definition => definition

/-- The action of the state that is entered. -/
def Entry.action? (e : Entry) : Option ActionDefinition := e.stateDef?.bind (·.action)

/-- What a deploy action passed on. -/
def passedOn : Answered → List NodeActionResult
  | ⟨.mark (.passed _ _ results), _⟩ => results
  | _ => []

/-- The nodes that a listing came to. -/
def listing : Answered → Option (List Node)
  | ⟨.storage (.listNodes _), .ok nodes⟩ => some nodes
  | _ => none

/-- The first listing of nodes. -/
def listedNodes (es : List Answered) : Option (List Node) := es.findSome? listing

/-- The answer is the record of the node. -/
def findsNode (nodeId : String) : Answered → Bool
  | ⟨.storage (.getNode n), .ok (some _)⟩ => n == nodeId
  | _ => false

/-- The nodes a deploy action works on this time, if there are batches left. -/
def DeployAction.selects (action : DeployAction) (cursor : Nat) (nodes : List Node) :
    Option (List Node) :=
  let selected := applyLimit action.select.limit nodes
  match action.batchPercent with
  | none => some selected
  | some percent =>
    if cursor ≥ selected.length then none
    else
      let stop := min (cursor + batchSize selected.length percent) selected.length
      some ((selected.take stop).drop cursor)

/-- What entering a state comes to: nothing that concerns the lists and the result, a deploy that
    finds no node, one that finds all its batches done, one to some nodes, or a rollback. -/
inductive Plan where
  | nothing
  | noNodes
  | batchesDone (total : Nat)
  | deploys (nodes : List Node)
  | rollsBack

/-- The plan of a deploy action, once the nodes have been listed. -/
def DeployAction.plan (action : DeployAction) (context : FsmContext)
    (listed : Option (List Node)) : Plan :=
  match context.rulesYaml, listed with
  | some _, some [] => .noNodes
  | some _, some nodes =>
    match action.selects context.batchCursor nodes with
    | some now => .deploys now
    | none => .batchesDone (applyLimit action.select.limit nodes).length
  | _, _ => .nothing

def ActionDefinition.plan (action : ActionDefinition) (context : FsmContext)
    (listed : Option (List Node)) : Plan :=
  match action.deploy, action.rollback with
  | some deploy, _ => deploy.plan context listed
  | none, some _ => if context.deployedNodes = [] then .nothing else .rollsBack
  | none, none => .nothing

/-- The plan of a state, if it is defined and has an action. -/
def planOf (action? : Option ActionDefinition) (context : FsmContext)
    (listed : Option (List Node)) : Plan :=
  match action? with
  | none => .nothing
  | some action => action.plan context listed

namespace EntryStep

variable (s : EntryStep)

def plan : Plan := planOf s.entry.action? s.entry.context (listedNodes s.answers)

/-- The deploys of the entry with what they came to: those of its deploy action, or those that its
    rollback got as far as making. -/
def deploys : List NodeActionResult :=
  match s.plan with
  | .deploys _ => s.answers.flatMap passedOn
  | .rollsBack =>
    ((s.inst.context.lastActionResult.map ActionResult.nodeResults).getD []).filter fun r =>
      s.answers.any (findsNode r.nodeId)
  | _ => []

end EntryStep

/-- The states an instance enters, from a context on. Between two entries nothing but the first-true
    times of its conditions changes in its context. -/
def Career [Extern] (cfg : ControllerConfig) : FsmContext → List EntryStep → Prop
  | _, [] => True
  | context, s :: ss =>
    SameButFirstTrue context s.entry.context ∧ s.entry.Enters cfg s.answers s.inst ∧
      Career cfg s.inst.context ss

/-- The statement holds of every context on the way, and of the deploys made until then. -/
def EveryContext (P : FsmContext → List NodeActionResult → Prop) :
    FsmContext → List NodeActionResult → List EntryStep → Prop
  | context, ds, [] => P context ds
  | context, ds, s :: ss =>
    P context ds ∧ P s.entry.context ds ∧ EveryContext P s.inst.context (ds ++ s.deploys) ss

/-- The condition holds of every entry and the deploys made before. -/
def EveryEntry (C : List NodeActionResult → EntryStep → Prop) :
    List NodeActionResult → List EntryStep → Prop
  | _, [] => True
  | ds, s :: ss => C ds s ∧ EveryEntry C (ds ++ s.deploys) ss

/-- A new context: nothing has been deployed. -/
structure FsmContext.Unused (context : FsmContext) : Prop where
  deployedNodes : context.deployedNodes = []
  failedNodes : context.failedNodes = []
  lastActionResult : context.lastActionResult = none

/-- What the latest deploy to the node came to, if there was one. -/
def latestOutcome (ds : List NodeActionResult) (n : String) : Option Bool :=
  (ds.reverse.find? fun r => r.nodeId = n).map NodeActionResult.success

/-- **A statement holds throughout a run if and only if every entry meets a condition**, if for a
    single entry it holds afterwards if and only if the condition does. -/
theorem Career.everyContext_iff [Extern] {cfg : ControllerConfig}
    {I P : FsmContext → List NodeActionResult → Prop} {C : List NodeActionResult → EntryStep → Prop}
    (hsame : ∀ {context context' ds}, SameButFirstTrue context context' →
      (I context ds → I context' ds) ∧ (P context ds → P context' ds))
    (hstep : ∀ ds (s : EntryStep), s.entry.Enters cfg s.answers s.inst → I s.entry.context ds →
      P s.entry.context ds → I s.inst.context (ds ++ s.deploys) ∧
        (P s.inst.context (ds ++ s.deploys) ↔ C ds s))
    {context : FsmContext} {ds : List NodeActionResult} {ss : List EntryStep}
    (hI : I context ds) (hP : P context ds) (hrun : Career cfg context ss) :
    EveryContext P context ds ss ↔ EveryEntry C ds ss := by
  induction ss generalizing context ds with
  | nil => exact iff_of_true hP trivial
  | cons s ss ih =>
    obtain ⟨hbetween, henters, hrest⟩ := hrun
    obtain ⟨hnext, hiff⟩ := hstep ds s henters ((hsame hbetween).1 hI) ((hsame hbetween).2 hP)
    have hbefore : P s.entry.context ds := (hsame hbetween).2 hP
    constructor
    · intro h
      have hafter : P s.inst.context (ds ++ s.deploys) := by
        have hevery := h.2.2
        cases ss with
        | nil => exact hevery
        | cons s' ss => exact hevery.1
      exact ⟨hiff.mp hafter, (ih hnext hafter hrest).mp h.2.2⟩
    · intro h
      exact ⟨hP, hbefore, (ih hnext (hiff.mpr h.1) hrest).mpr h.2⟩

/-! ## The latest deploy to a node -/

section Latest

variable {ds new : List NodeActionResult} {n : String}

theorem latestOutcome_append_of_mem {b : Bool} (hmem : ∃ r ∈ new, r.nodeId = n)
    (hall : ∀ r ∈ new, r.nodeId = n → r.success = b) :
    latestOutcome (ds ++ new) n = some b := by
  have hsome : (new.reverse.find? fun r => r.nodeId = n).isSome = true := by
    obtain ⟨r, hr, hid⟩ := hmem
    rw [List.find?_isSome]
    exact ⟨r, List.mem_reverse.mpr hr, decide_eq_true hid⟩
  obtain ⟨r, hfind⟩ := Option.isSome_iff_exists.mp hsome
  have hr : r ∈ new := List.mem_reverse.mp (List.mem_of_find?_eq_some hfind)
  have hid : r.nodeId = n := by simpa using List.find?_some hfind
  rw [latestOutcome, List.reverse_append, List.find?_append, hfind]
  exact congrArg some (hall r hr hid)

theorem latestOutcome_append_of_notMem (hnone : ∀ r ∈ new, r.nodeId ≠ n) :
    latestOutcome (ds ++ new) n = latestOutcome ds n := by
  have hfind : (new.reverse.find? fun r => r.nodeId = n) = none := by
    rw [List.find?_eq_none]
    intro r hr
    simpa using hnone r (List.mem_reverse.mp hr)
  rw [latestOutcome, List.reverse_append, List.find?_append, hfind]
  rfl

end Latest

/-! ## What an action does to the lists -/

/-- What a context says of the deploys. -/
def FsmContext.lists (context : FsmContext) : List String × List String × Option ActionResult :=
  (context.deployedNodes, context.failedNodes, context.lastActionResult)

theorem SameButFirstTrue.lists {context context' : FsmContext}
    (h : SameButFirstTrue context context') : context'.lists = context.lists := by
  obtain ⟨m, rfl⟩ := h
  rfl

/-- The numbers of a result are those of its node results. -/
structure ActionResult.Tallied (r : ActionResult) : Prop where
  succeeded : r.succeeded = r.nodeResults.countP (·.success)
  failed : r.failed = r.nodeResults.countP (!·.success)
  total : r.total = asU32 r.nodeResults.length

/-- What an action does to the lists and the result, given the answers to its operations. -/
inductive Effect (before after : FsmContext) (es : List Answered) : Plan → Prop
  | nothing (lists : after.lists = before.lists) : Effect before after es .nothing
  | noNodes
      (lists : after.lists = (before.deployedNodes, before.failedNodes, some ⟨0, 0, 0, []⟩)) :
      Effect before after es .noNodes
  | batchesDone {total : Nat}
      (lists : after.lists = (before.deployedNodes, before.failedNodes, some {
        succeeded := asU32 before.deployedNodes.length
        failed := asU32 before.failedNodes.length
        total := asU32 total
        nodeResults := [] })) :
      Effect before after es (.batchesDone total)
  | deploys {now : List Node} {r : ActionResult} (tallied : r.Tallied)
      (passed : es.flatMap passedOn = r.nodeResults)
      (nodeIds : r.nodeResults.map NodeActionResult.nodeId = now.map Node.nodeId)
      (lists : after.lists = (
        pushNew before.deployedNodes ((r.nodeResults.filter (·.success)).map (·.nodeId)),
        pushNew before.failedNodes ((r.nodeResults.filter (!·.success)).map (·.nodeId)),
        some r)) :
      Effect before after es (.deploys now)
  | rollsBack {r : ActionResult} (tallied : r.Tallied)
      (nodeIds : r.nodeResults.map NodeActionResult.nodeId = before.deployedNodes)
      (found : ∀ res ∈ r.nodeResults, res.success = true → es.any (findsNode res.nodeId) = true)
      (lists : after.lists = (before.deployedNodes, before.failedNodes, some r)) :
      Effect before after es .rollsBack

section Actions

variable [Extern] (cfg : ControllerConfig) {es : List Answered}

/-- The accumulators of the two loops count what they collect. -/
structure Collected (nodeIds : List String) (succeeded failed : Nat)
    (results : List NodeActionResult) (out : Nat × Nat × List NodeActionResult)
    (new : List NodeActionResult) : Prop where
  succeeded : out.1 = succeeded + new.countP (·.success)
  failed : out.2.1 = failed + new.countP (!·.success)
  results : out.2.2 = results ++ new
  nodeIds : new.map NodeActionResult.nodeId = nodeIds

omit [Extern] in
theorem Collected.cons {n : String} {nodeIds : List String} {succeeded failed : Nat}
    {results new : List NodeActionResult} {out : Nat × Nat × List NodeActionResult}
    {r : NodeActionResult} (hid : r.nodeId = n)
    (h : Collected nodeIds (if r.success then succeeded + 1 else succeeded)
      (if r.success then failed else failed + 1) (results ++ [r]) out new) :
    Collected (n :: nodeIds) succeeded failed results out (r :: new) := by
  obtain ⟨hsucceeded, hfailed, hresults, hids⟩ := h
  constructor
  · rw [hsucceeded, List.countP_cons]
    cases r.success
    · simp
    · simp [Nat.add_assoc, Nat.add_comm]
  · rw [hfailed, List.countP_cons]
    cases r.success
    · simp [Nat.add_assoc, Nat.add_comm]
    · simp
  · rw [hresults, List.append_assoc, List.singleton_append]
  · rw [List.map_cons, hids, hid]

theorem deployToNodesLoop_collects {rulesYaml : String} {options : CompileOptions}
    {nodes : List Node} {succeeded failed : Nat} {results : List NodeActionResult}
    {out : Nat × Nat × List NodeActionResult}
    (h : (deployToNodesLoop cfg rulesYaml options nodes succeeded failed results).Unfolds es
      (.done out)) :
    ∃ new, Collected (nodes.map Node.nodeId) succeeded failed results out new := by
  induction nodes generalizing succeeded failed results es with
  | nil =>
    cases h.done_inv.2
    exact ⟨[], by simp, by simp, by simp, rfl⟩
  | cons node nodes ih =>
    obtain ⟨guard, es₁, rfl, h₁⟩ := h.call_inv
    rw [Prog.done_bind] at h₁
    cases guard with
    | error e =>
      obtain ⟨new, hnew⟩ := ih h₁
      exact ⟨⟨node.nodeId, false, "Concurrent deploy in progress"⟩ :: new, .cons rfl hnew⟩
    | ok u =>
      obtain ⟨es₂, es₃, outcome, rfl, -, h₂⟩ := Prog.unfolds_bind.mp h₁
      obtain ⟨_, es₄, rfl, h₃⟩ := h₂.call_inv
      obtain ⟨new, hnew⟩ := ih h₃
      exact ⟨⟨node.nodeId, outcome.success, outcome.message⟩ :: new, .cons rfl hnew⟩

/-- A rollback that succeeds on a node has found it. -/
theorem rollbackNode_finds {nodeId : String} {r : NodeActionResult}
    (h : (rollbackNode cfg nodeId).Unfolds es (.done r)) :
    r.nodeId = nodeId ∧ (r.success = true → es.any (findsNode nodeId) = true) := by
  obtain ⟨versions, es₁, rfl, h₁⟩ := h.call_inv
  rw [Prog.done_bind] at h₁
  rcases versions with e | _ | ⟨newest, _ | ⟨prev, rest⟩⟩
  · cases h₁.done_inv.2
    exact ⟨rfl, fun h => absurd h (by simp)⟩
  · cases h₁.done_inv.2
    exact ⟨rfl, fun h => absurd h (by simp)⟩
  · cases h₁.done_inv.2
    exact ⟨rfl, fun h => absurd h (by simp)⟩
  · obtain ⟨found, es₂, rfl, h₂⟩ := h₁.call_inv
    rw [Prog.done_bind] at h₂
    rcases found with e | _ | node
    · cases h₂.done_inv.2
      exact ⟨rfl, fun h => absurd h (by simp)⟩
    · cases h₂.done_inv.2
      exact ⟨rfl, fun h => absurd h (by simp)⟩
    · obtain ⟨es₃, es₄, outcome, rfl, -, h₃⟩ := Prog.unfolds_bind.mp h₂
      cases h₃.done_inv.2
      exact ⟨rfl, fun _ => by simp [findsNode]⟩

theorem rollbackLoop_collects {nodeIds : List String} {succeeded failed : Nat}
    {results : List NodeActionResult} {out : Nat × Nat × List NodeActionResult}
    (h : (rollbackLoop cfg nodeIds succeeded failed results).Unfolds es (.done out)) :
    ∃ new, Collected nodeIds succeeded failed results out new ∧
      ∀ r ∈ new, r.success = true → es.any (findsNode r.nodeId) = true := by
  induction nodeIds generalizing succeeded failed results es with
  | nil =>
    cases h.done_inv.2
    exact ⟨[], ⟨by simp, by simp, by simp, rfl⟩, fun r hr => absurd hr List.not_mem_nil⟩
  | cons nodeId nodeIds ih =>
    obtain ⟨es₁, es₂, r, rfl, h₁, h₂⟩ := Prog.unfolds_bind.mp h
    obtain ⟨new, hnew, hfound⟩ := ih h₂
    obtain ⟨hid, hfinds⟩ := rollbackNode_finds cfg h₁
    refine ⟨r :: new, .cons hid hnew, fun r' hr' hsuccess => ?_⟩
    rw [List.any_append, Bool.or_eq_true]
    rcases List.mem_cons.mp hr' with rfl | hr'
    · rw [hid]
      exact .inl (hfinds hsuccess)
    · exact .inr (hfound r' hr' hsuccess)

/-- The operation tells nothing of deploys: it neither lists nodes, nor looks one up, nor marks
    what was passed on. -/
def Op.TellsNothing : Op → Prop
  | .mark (.passed _ _ _) | .storage (.listNodes _) | .storage (.getNode _) => False
  | _ => True

omit [Extern] in
/-- Its answer tells nothing either. -/
theorem Op.TellsNothing.answer {e : Answered} (h : e.1.TellsNothing) :
    passedOn e = [] ∧ listing e = none ∧ ∀ n, findsNode n e = false := by
  obtain ⟨o, r⟩ := e
  cases o with
  | storage c =>
    cases c with
    | listNodes | getNode => exact h.elim
    | _ => exact ⟨rfl, rfl, fun _ => rfl⟩
  | mark m =>
    cases m with
    | passed => exact h.elim
    | _ => exact ⟨rfl, rfl, fun _ => rfl⟩
  | _ => exact ⟨rfl, rfl, fun _ => rfl⟩

/-- The answers tell the same of deploys. -/
structure TellsSame (es es' : List Answered) : Prop where
  passed : es'.flatMap passedOn = es.flatMap passedOn
  listed : listedNodes es' = listedNodes es
  found : ∀ n, es'.any (findsNode n) = es.any (findsNode n)

omit [Extern] in
theorem TellsSame.around {before es after : List Answered}
    (hbefore : ∀ e ∈ before, e.1.TellsNothing) (hafter : ∀ e ∈ after, e.1.TellsNothing) :
    TellsSame es (before ++ (es ++ after)) := by
  have hpassed {es' : List Answered} (h : ∀ e ∈ es', e.1.TellsNothing) :
      es'.flatMap passedOn = [] := List.flatMap_eq_nil_iff.mpr fun e he => (h e he).answer.1
  have hlisted {es' : List Answered} (h : ∀ e ∈ es', e.1.TellsNothing) :
      es'.findSome? listing = none := List.findSome?_eq_none_iff.mpr fun e he => (h e he).answer.2.1
  have hfound (n : String) {es' : List Answered} (h : ∀ e ∈ es', e.1.TellsNothing) :
      es'.any (findsNode n) = false := List.any_eq_false.mpr fun e he => by
    rw [(h e he).answer.2.2 n]
    exact Bool.false_ne_true
  constructor
  · rw [List.flatMap_append, List.flatMap_append, hpassed hbefore, hpassed hafter,
      List.nil_append, List.append_nil]
  · rw [listedNodes, List.findSome?_append, List.findSome?_append, hlisted hbefore,
      hlisted hafter, Option.none_or, Option.or_none, listedNodes]
  · intro n
    rw [List.any_append, List.any_append, hfound n hbefore, hfound n hafter, Bool.false_or,
      Bool.or_false]

omit [Extern] in
theorem Effect.congr {before before' after after' : FsmContext} {es' : List Answered} {plan : Plan}
    (h : Effect before after es plan) (hbefore : before'.lists = before.lists)
    (hafter : after'.lists = after.lists)
    (hpassed : es'.flatMap passedOn = es.flatMap passedOn)
    (hfound : ∀ n, es'.any (findsNode n) = es.any (findsNode n)) :
    Effect before' after' es' plan := by
  have hdeployed : before'.deployedNodes = before.deployedNodes := congrArg Prod.fst hbefore
  have hfailed : before'.failedNodes = before.failedNodes :=
    congrArg (fun l => l.2.1) hbefore
  cases h with
  | nothing lists => exact .nothing (by rw [hafter, hbefore, lists])
  | noNodes lists => exact .noNodes (by rw [hafter, hdeployed, hfailed, lists])
  | batchesDone lists => exact .batchesDone (by rw [hafter, hdeployed, hfailed, lists])
  | deploys tallied passed nodeIds lists =>
    exact .deploys tallied (hpassed.trans passed) nodeIds
      (by rw [hafter, hdeployed, hfailed, lists])
  | rollsBack tallied nodeIds found lists =>
    refine .rollsBack tallied (nodeIds.trans hdeployed.symm) (fun r hr hsuccess => ?_)
      (by rw [hafter, hdeployed, hfailed, lists])
    rw [hfound]
    exact found r hr hsuccess

omit [Extern] in
/-- An answer that is neither what was passed on nor a node that was looked up. -/
theorem Effect.cons {before after : FsmContext} {plan : Plan} {e : Answered}
    (h : Effect before after es plan) (hpassed : passedOn e = [])
    (hfound : ∀ n, findsNode n e = false) : Effect before after (e :: es) plan := by
  refine h.congr rfl rfl ?_ fun n => ?_
  · rw [List.flatMap_cons, hpassed, List.nil_append]
  · rw [List.any_cons, hfound, Bool.false_or]

omit [Extern] in
theorem emitFsm_tellsNothing (e : DateTime → FsmEvent) :
    (emitFsm cfg e).Calls Op.TellsNothing := by
  unfold emitFsm
  split
  · exact ⟨trivial, fun _ => ⟨trivial, fun _ => trivial⟩⟩
  · trivial

omit [Extern] in
/-- Only marks of the action pass results on. -/
theorem passedOn_of_not_marks (h : ∀ e ∈ es, e.1.marksAction = false) :
    es.flatMap passedOn = [] := by
  refine List.flatMap_eq_nil_iff.mpr fun e he => ?_
  have hmark := h e he
  obtain ⟨o, r⟩ := e
  cases o with
  | mark m =>
    cases m with
    | passed => exact absurd hmark (by simp [Op.marksAction, Mark.ofAction])
    | _ => rfl
  | _ => rfl

/-- What an execution does from where its nodes are known: it has a result for each of them, passes
    the results on with the one mark it makes, and records them. -/
theorem deploySelected_inv {inst : FsmInstance} {start context : FsmContext}
    {selected : List Node} {rulesYaml : String}
    (h : (deploySelected cfg inst start selected rulesYaml).Unfolds es (.done context)) :
    ∃ (r : ActionResult) (es₁ es₂ : List Answered), r.Tallied ∧
      r.nodeResults.map NodeActionResult.nodeId = selected.map Node.nodeId ∧
      es = es₁ ++ ⟨.mark (.passed inst.instanceId inst.currentState r.nodeResults), ()⟩ :: es₂ ∧
      (∀ e ∈ es₁, e.1.marksAction = false) ∧ (∀ e ∈ es₂, e.1.marksAction = false) ∧
      context = ((start.addTargets (selected.map Node.nodeId)).recordResults
        r.nodeResults).setResult r := by
  simp only [deploySelected, deployToNodes, Prog.bind_eq, Prog.pure_eq, Prog.bind_assoc] at h
  obtain ⟨es₁, es₂, out, rfl, hloop, h₁⟩ := Prog.unfolds_bind.mp h
  obtain ⟨new, hsucceeded, hfailed, hresults, hids⟩ := deployToNodesLoop_collects cfg hloop
  obtain ⟨_, es₃, rfl, h₂⟩ := h₁.call_inv
  rw [Prog.done_bind] at h₂
  obtain ⟨es₄, es₅, _, rfl, hemit, h₃⟩ := Prog.unfolds_bind.mp h₂
  obtain ⟨rfl, heq⟩ := h₃.done_inv
  cases heq
  rw [Nat.zero_add] at hsucceeded hfailed
  rw [List.nil_append] at hresults
  have hlength : new.length = selected.length := by
    simpa using congrArg List.length hids
  refine ⟨⟨out.1, out.2.1, asU32 selected.length, out.2.2⟩, es₁, es₄, ?_, ?_, ?_, ?_, ?_, rfl⟩
  · constructor
    · rw [hresults]
      exact hsucceeded
    · rw [hresults]
      exact hfailed
    · rw [hresults, hlength]
  · rw [hresults, hids]
  · rw [List.append_nil]
  · exact hloop.calls (deployToNodesLoop_built cfg _ _ _ _ _ _).not_marks
  · exact hemit.calls (emitFsm_built cfg _).not_marks

theorem deploySelected_effect {inst : FsmInstance} {start context : FsmContext}
    {selected : List Node} {rulesYaml : String}
    (h : (deploySelected cfg inst start selected rulesYaml).Unfolds es (.done context)) :
    Effect start context es (.deploys selected) := by
  obtain ⟨r, es₁, es₂, htallied, hids, rfl, hbefore, hafter, rfl⟩ := deploySelected_inv cfg h
  refine .deploys htallied ?_ hids rfl
  rw [List.flatMap_append, passedOn_of_not_marks hbefore, List.nil_append, List.flatMap_cons,
    passedOn_of_not_marks hafter, List.append_nil]
  rfl

/-- **What a deploy action does to the lists.** -/
theorem executeDeploy_effect {action : DeployAction} {inst : FsmInstance} {context : FsmContext}
    (h : (executeDeploy cfg action inst).Unfolds es (.done context)) :
    Effect inst.context context es (action.plan inst.context (listedNodes es)) := by
  unfold executeDeploy at h
  split at h
  · rename_i hrules
    obtain ⟨rfl, heq⟩ := h.done_inv
    cases heq
    have hplan : action.plan inst.context (listedNodes []) = .nothing := by
      simp [DeployAction.plan, hrules]
    rw [hplan]
    exact .nothing rfl
  · rename_i rulesYaml hrules
    obtain ⟨answer, es₁, rfl, h₁⟩ := h.call_inv
    rw [Prog.done_bind] at h₁
    rcases answer with e | nodes
    · obtain ⟨rfl, heq⟩ := h₁.done_inv
      cases heq
      have hplan : action.plan inst.context (listedNodes
          [⟨.storage (.listNodes action.select.label), .error e⟩]) = .nothing := by
        simp [DeployAction.plan, listedNodes, listing]
      rw [hplan]
      exact .nothing rfl
    · have hlisted : listedNodes (⟨.storage (.listNodes action.select.label), .ok nodes⟩ :: es₁) =
          some nodes := rfl
      rw [hlisted]
      cases nodes with
      | nil =>
        obtain ⟨rfl, heq⟩ := h₁.done_inv
        cases heq
        have hplan : action.plan inst.context (some []) = .noNodes := by
          simp [DeployAction.plan, hrules]
        rw [hplan]
        exact .noNodes rfl
      | cons node nodes =>
        have hplan : action.plan inst.context (some (node :: nodes)) =
            match action.selects inst.context.batchCursor (node :: nodes) with
            | some now => .deploys now
            | none => .batchesDone (applyLimit action.select.limit (node :: nodes)).length := by
          simp [DeployAction.plan, hrules]
        rw [hplan]
        simp only at h₁
        split at h₁
        · rename_i hpercent
          have hselects : action.selects inst.context.batchCursor (node :: nodes) =
              some (applyLimit action.select.limit (node :: nodes)) := by
            rw [DeployAction.selects, hpercent]
          rw [hselects]
          exact (deploySelected_effect cfg h₁).cons rfl fun _ => rfl
        · rename_i percent hpercent
          obtain ⟨_, es₂, rfl, h₂⟩ := h₁.call_inv
          rw [Prog.done_bind] at h₂
          split at h₂
          · rename_i hdone
            have hselects : action.selects inst.context.batchCursor (node :: nodes) = none := by
              rw [DeployAction.selects, hpercent]
              exact if_pos hdone
            obtain ⟨rfl, heq⟩ := h₂.done_inv
            cases heq
            rw [hselects]
            exact .batchesDone rfl
          · rename_i hleft
            have hselects : action.selects inst.context.batchCursor (node :: nodes) = some
                (((applyLimit action.select.limit (node :: nodes)).take
                  (min (inst.context.batchCursor + batchSize
                    (applyLimit action.select.limit (node :: nodes)).length percent)
                    (applyLimit action.select.limit (node :: nodes)).length)).drop
                  inst.context.batchCursor) := by
              rw [DeployAction.selects, hpercent]
              exact if_neg hleft
            have heffect := (deploySelected_effect cfg h₂).congr
              (show inst.context.lists = (inst.context.setCursor _).lists from rfl) rfl rfl
              fun _ => rfl
            rw [hselects]
            exact (heffect.cons rfl fun _ => rfl).cons rfl fun _ => rfl

/-- **What a rollback does to the lists.** -/
theorem executeRollback_effect {action : RollbackAction} {inst : FsmInstance}
    {context : FsmContext} (h : (executeRollback cfg action inst).Unfolds es (.done context)) :
    Effect inst.context context es
      (if inst.context.deployedNodes = [] then .nothing else .rollsBack) := by
  simp only [executeRollback] at h
  split at h
  · rename_i hnone
    obtain ⟨rfl, heq⟩ := h.done_inv
    cases heq
    rw [if_pos hnone]
    exact .nothing rfl
  · rename_i hsome
    obtain ⟨es₁, es₂, out, rfl, hloop, h₁⟩ := Prog.unfolds_bind.mp h
    obtain ⟨rfl, heq⟩ := h₁.done_inv
    cases heq
    obtain ⟨new, ⟨hsucceeded, hfailed, hresults, hids⟩, hfound⟩ := rollbackLoop_collects cfg hloop
    rw [Nat.zero_add] at hsucceeded hfailed
    rw [List.nil_append] at hresults
    rw [if_neg hsome, List.append_nil]
    refine .rollsBack (r := ⟨out.1, out.2.1, asU32 inst.context.deployedNodes.length, out.2.2⟩)
      ?_ ?_ ?_ rfl
    · constructor
      · rw [hresults]
        exact hsucceeded
      · rw [hresults]
        exact hfailed
      · have hlength : new.length = inst.context.deployedNodes.length := by
          simpa using congrArg List.length hids
        rw [hresults, hlength]
    · rw [hresults]
      exact hids
    · rw [hresults]
      exact hfound

/-- What executing an action does to the lists. -/
theorem executeAction_effect {action : ActionDefinition} {inst : FsmInstance}
    {context : FsmContext} (h : (executeAction cfg action inst).Unfolds es (.done context)) :
    Effect inst.context context es (action.plan inst.context (listedNodes es)) := by
  obtain ⟨u, es₁, rfl, h₁⟩ := h.call_inv
  rw [Prog.done_bind] at h₁
  have hlisted : listedNodes (⟨.mark (.startAction inst.instanceId inst.currentState), u⟩ :: es₁) =
      listedNodes es₁ := rfl
  rw [hlisted]
  refine Effect.cons ?_ rfl fun _ => rfl
  unfold ActionDefinition.plan
  cases hdeploy : action.deploy with
  | some deploy =>
    rw [hdeploy] at h₁
    exact executeDeploy_effect cfg h₁
  | none =>
    rw [hdeploy] at h₁
    cases hrollback : action.rollback with
    | some rollback =>
      rw [hrollback] at h₁
      exact executeRollback_effect cfg h₁
    | none =>
      rw [hrollback] at h₁
      cases halert : action.alert with
      | none =>
        rw [halert] at h₁
        cases h₁.done_inv.2
        exact .nothing rfl
      | some alert =>
        rw [halert] at h₁
        obtain ⟨es₂, es₃, _, rfl, -, h₂⟩ := Prog.unfolds_bind.mp h₁
        cases h₂.done_inv.2
        exact .nothing rfl

theorem executeActionOf_effect {stateDef : StateDefinition} {inst : FsmInstance}
    {context : FsmContext} (h : (executeActionOf cfg stateDef inst).Unfolds es (.done context)) :
    Effect inst.context context es (planOf stateDef.action inst.context (listedNodes es)) := by
  unfold executeActionOf at h
  unfold planOf
  cases haction : stateDef.action with
  | none =>
    rw [haction] at h
    cases h.done_inv.2
    exact .nothing rfl
  | some action =>
    rw [haction] at h
    exact executeAction_effect cfg h

/-- The action of the state was executed, among operations whose answers tell nothing, and turned
    one context into the other. -/
def Executes (stateDef : StateDefinition) (before after : FsmContext) (es : List Answered) :
    Prop :=
  ∃ inst es', SameButFirstTrue before inst.context ∧ TellsSame es' es ∧
    (executeActionOf cfg stateDef inst).Unfolds es' (.done after)

/-- What tells nothing may stand around the action. -/
theorem executes_around {stateDef : StateDefinition} {inst : FsmInstance}
    {before after : FsmContext} (hbefore : SameButFirstTrue before inst.context)
    (h : (executeActionOf cfg stateDef inst).Unfolds es (.done after)) (es₁ es₂ : List Answered)
    (h₁ : ∀ e ∈ es₁, e.1.TellsNothing) (h₂ : ∀ e ∈ es₂, e.1.TellsNothing) :
    Executes cfg stateDef before after (es₁ ++ (es ++ es₂)) :=
  ⟨inst, es, hbefore, .around h₁ h₂, h⟩

theorem fireTransition_executes {inst inst' : FsmInstance} {toState : String}
    {trigger : TransitionTrigger} {definition : FsmDefinition}
    (h : (fireTransition cfg inst toState trigger definition).Unfolds es (.done inst')) :
    (definition.states.lookup toState = none ∧ SameButFirstTrue inst.context inst'.context) ∨
      ∃ stateDef, definition.states.lookup toState = some stateDef ∧
        Executes cfg stateDef inst.context inst'.context es := by
  have hforgets : SameButFirstTrue inst.context (inst.context.forgetState inst.currentState) :=
    ⟨_, rfl⟩
  obtain ⟨now, es₁, rfl, h₁⟩ := h.call_inv
  rw [Prog.done_bind] at h₁
  obtain ⟨es₂, es₃, _, rfl, hemit, h₂⟩ := Prog.unfolds_bind.mp h₁
  cases hstate : definition.states.lookup toState with
  | none =>
    rw [hstate] at h₂
    cases h₂.done_inv.2
    exact .inl ⟨rfl, hforgets⟩
  | some stateDef =>
    rw [hstate] at h₂
    obtain ⟨es₄, es₅, context, rfl, h₄, h₅⟩ := Prog.unfolds_bind.mp h₂
    have hbefore : ∀ e ∈ (⟨.now, now⟩ :: es₂ : List Answered), e.1.TellsNothing := by
      intro e he
      rcases List.mem_cons.mp he with rfl | he
      · trivial
      · exact hemit.calls (emitFsm_tellsNothing cfg _) e he
    have hafter : inst'.context = context ∧ ∀ e ∈ es₅, e.1.TellsNothing := by
      unfold completeIfTerminal at h₅
      split at h₅
      · obtain ⟨es₆, es₇, _, rfl, hemit', h₇⟩ := Prog.unfolds_bind.mp h₅
        obtain ⟨rfl, heq⟩ := h₇.done_inv
        cases heq
        refine ⟨rfl, ?_⟩
        rw [List.append_nil]
        exact hemit'.calls (emitFsm_tellsNothing cfg _)
      · obtain ⟨rfl, heq⟩ := h₅.done_inv
        cases heq
        exact ⟨rfl, fun e he => absurd he List.not_mem_nil⟩
    rw [hafter.1]
    exact .inr ⟨stateDef, rfl, executes_around cfg hforgets h₄ _ es₅ hbefore hafter.2⟩

theorem startFrom_executes {defName : String} {definition : FsmDefinition} {context : FsmContext}
    {inst : FsmInstance}
    (h : (startFrom cfg defName definition context).Unfolds es (.done (.ok inst))) :
    (definition.states.lookup definition.initial = none ∧ SameButFirstTrue context inst.context) ∨
      ∃ stateDef, definition.states.lookup definition.initial = some stateDef ∧
        Executes cfg stateDef context inst.context es := by
  rw [startFrom_eq] at h
  obtain ⟨now, es₁, rfl, h₁⟩ := h.call_inv
  rw [Prog.done_bind] at h₁
  obtain ⟨id, es₂, rfl, h₂⟩ := h₁.call_inv
  rw [Prog.done_bind] at h₂
  obtain ⟨es₃, es₄, context', rfl, h₃, h₄⟩ := Prog.unfolds_bind.mp h₂
  obtain ⟨stored, es₅, rfl, h₅⟩ := h₄.call_inv
  rw [Prog.done_bind] at h₅
  have hstored : es₅ = [] ∧ inst.context = context' := by
    cases stored with
    | error e => exact absurd h₅.done_inv.2 (by simp)
    | ok u =>
      obtain ⟨rfl, heq⟩ := h₅.done_inv
      cases heq
      exact ⟨rfl, rfl⟩
  obtain ⟨rfl, hcontext⟩ := hstored
  rw [hcontext]
  unfold executeInitial at h₃
  cases hstate : definition.states.lookup definition.initial with
  | none =>
    rw [hstate] at h₃
    cases h₃.done_inv.2
    exact .inl ⟨rfl, .refl _⟩
  | some stateDef =>
    rw [hstate] at h₃
    refine .inr ⟨stateDef, rfl, executes_around cfg (.refl context) h₃
      [⟨.now, now⟩, ⟨.uuid, id⟩] [⟨_, stored⟩] ?_ ?_⟩
    · intro e he
      rcases List.mem_pair.mp he with rfl | rfl
      · trivial
      · trivial
    · intro e he
      rw [List.mem_singleton.mp he]
      trivial

/-- **Entering a state executes its action**, if it is defined. -/
theorem Entry.executes {e : Entry} {inst : FsmInstance} (h : e.Enters cfg es inst) :
    (e.stateDef? = none ∧ SameButFirstTrue e.context inst.context) ∨
      ∃ stateDef, e.stateDef? = some stateDef ∧
        Executes cfg stateDef e.context inst.context es := by
  cases e with
  | started => exact startFrom_executes cfg h
  | fired => exact fireTransition_executes cfg h

/-- **What entering a state does to the lists and the result**, and the deploys it makes. -/
theorem Entry.effect {e : Entry} {inst : FsmInstance} (h : e.Enters cfg es inst) :
    Effect e.context inst.context es (planOf e.action? e.context (listedNodes es)) := by
  unfold Entry.action?
  rcases Entry.executes cfg h with ⟨hnone, hsame⟩ | ⟨stateDef, hstate, inst₀, es', hsame, htells, h⟩
  · rw [hnone]
    exact .nothing hsame.lists
  · rw [hstate, htells.listed]
    have heffect := executeActionOf_effect cfg h
    obtain ⟨m, hm⟩ := hsame
    rw [hm] at heffect
    exact heffect.congr rfl rfl htells.passed htells.found

end Actions

/-- Every context on the way is a context before or after an entry. -/
theorem EveryContext.after {P : FsmContext → List NodeActionResult → Prop} {context : FsmContext}
    {ds : List NodeActionResult} {ss : List EntryStep} (h : EveryContext P context ds ss)
    {s : EntryStep} (hs : s ∈ ss) : ∃ ds', P s.inst.context ds' := by
  induction ss generalizing context ds with
  | nil => exact absurd hs List.not_mem_nil
  | cons s' ss ih =>
    rcases List.mem_cons.mp hs with rfl | hs
    · cases ss with
      | nil => exact ⟨_, h.2.2⟩
      | cons s' ss => exact ⟨_, h.2.2.1⟩
    · exact ih h.2.2 hs

/-! ## Runs that can be computed -/

section Computed

variable [Extern] (cfg : ControllerConfig)

/-- Move the instance into one state after the other, alone, on given outside choices. -/
def evalFired (definition : FsmDefinition) :
    List (String × List Ext) → FsmInstance → World MemoryStorage → Option (List EntryStep)
  | [], _, _ => some []
  | (toState, xs) :: rest, inst, w =>
    ((machine MemoryStorage).evalAnswers xs
      (fireTransition cfg inst toState .condition definition) w).bind fun res =>
        (evalFired definition rest res.2.1 res.2.2).map fun ss =>
          ⟨.fired inst toState .condition definition, res.1, res.2.1⟩ :: ss

/-- Start an instance of the definition, and move it on. -/
def evalCareer (definition : FsmDefinition) (context : FsmContext) (xs : List Ext)
    (rest : List (String × List Ext)) (w : World MemoryStorage) : Option (List EntryStep) :=
  ((machine MemoryStorage).evalAnswers xs
    (startFrom cfg definition.name definition context) w).bind fun res =>
      res.2.1.toOption.bind fun inst =>
        (evalFired cfg definition rest inst res.2.2).map fun ss =>
          ⟨.started definition.name definition context, res.1, inst⟩ :: ss

variable {cfg}

theorem career_of_evalFired {definition : FsmDefinition} {fired : List (String × List Ext)}
    {inst : FsmInstance} {w : World MemoryStorage} {ss : List EntryStep}
    (h : evalFired cfg definition fired inst w = some ss) :
    Career cfg inst.context ss ∧ ∀ s ∈ ss, s.entry.definition = definition := by
  induction fired generalizing inst w ss with
  | nil =>
    obtain rfl := Option.some.inj h
    exact ⟨trivial, fun s hs => absurd hs List.not_mem_nil⟩
  | cons f fired ih =>
    obtain ⟨⟨es, inst', w'⟩, heval, h⟩ := Option.bind_eq_some_iff.mp h
    obtain ⟨ss, hss, rfl⟩ := Option.map_eq_some_iff.mp h
    obtain ⟨hrun, hdefinition⟩ := ih hss
    exact ⟨⟨.refl _, (Machine.unfolds_of_evalAnswers heval).1, hrun⟩,
      List.forall_mem_cons.mpr ⟨rfl, hdefinition⟩⟩

/-- What is computed is a run of an instance of the definition. -/
theorem career_of_evalCareer {definition : FsmDefinition} {context : FsmContext} {xs : List Ext}
    {fired : List (String × List Ext)} {w : World MemoryStorage} {ss : List EntryStep}
    (h : evalCareer cfg definition context xs fired w = some ss) :
    Career cfg context ss ∧ ∀ s ∈ ss, s.entry.definition = definition := by
  obtain ⟨⟨es, reply, w'⟩, heval, hss⟩ := Option.bind_eq_some_iff.mp h
  obtain ⟨inst, hreply, hss⟩ := Option.bind_eq_some_iff.mp hss
  obtain ⟨ss, hfired, rfl⟩ := Option.map_eq_some_iff.mp hss
  have hstarted := (Machine.unfolds_of_evalAnswers heval).1
  cases reply with
  | error e => cases hreply
  | ok inst' =>
    obtain rfl := Option.some.inj hreply
    obtain ⟨hrun, hdefinition⟩ := career_of_evalFired hfired
    exact ⟨⟨.refl _, hstarted, hrun⟩, List.forall_mem_cons.mpr ⟨rfl, hdefinition⟩⟩

variable (cfg) in
/-- A run that can be computed and passes a check. -/
theorem exists_career (definition : FsmDefinition) (context : FsmContext) (xs : List Ext)
    (fired : List (String × List Ext)) (w : World MemoryStorage) (P : List EntryStep → Bool)
    (h : (evalCareer cfg definition context xs fired w).any P) :
    ∃ ss, Career cfg context ss ∧ P ss = true := by
  obtain ⟨ss, hss, hP⟩ := (Option.any_eq_true _ _).mp h
  exact ⟨ss, (career_of_evalCareer hss).1, hP⟩

end Computed

/-- Deploy everywhere, and where a deploy failed try again, in one batch, as often as the operator
    asks for it. -/
def retrying (initial : String) : FsmDefinition where
  name := "retrying"
  description := ""
  kind := .deployment
  initial := initial
  states := (∅ : AList fun _ : String => StateDefinition)
    |>.insert "done" ⟨none, [], true⟩
    |>.insert "retry" ⟨some ⟨some ⟨⟨∅, none⟩, some 100, none⟩, none, none⟩, [
      ⟨"retry", some (.simple ⟨none, none, some true⟩), none⟩,
      ⟨"done", some (.simple ⟨some true, none, none⟩), none⟩], false⟩
    |>.insert "rollout" ⟨some ⟨some ⟨⟨∅, none⟩, none, none⟩, none, none⟩, [
      ⟨"retry", some (.simple ⟨none, some true, none⟩), none⟩,
      ⟨"done", some (.simple ⟨some true, none, none⟩), none⟩], false⟩

example : (retrying "rollout").validate = .ok () := by decide +kernel

/-- The node "n1" is registered. -/
def World.withN1 : World MemoryStorage :=
  .withAgent (MemoryStorage.new.registerNode registeredN1).2

/-- The start of an instance whose first action takes a number of operations, in which its deploy
    to "n1" ends with the delivery. -/
def startOn (ops : Nat) (delivery : Delivery) : List Ext :=
  [.quiet 0 "", .quiet 0 "i1"] ++ List.replicate ops ⟨1, "d1", delivery⟩

/-- A retry, in a number of operations, that reaches the agent. -/
def retryIn (ops : Nat) : String × List Ext := ("retry", List.replicate ops ⟨2, "d2", .compiled⟩)

end PaciNet

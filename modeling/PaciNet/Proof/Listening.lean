import Mathlib.Logic.Function.Basic
import PaciNet.Lib.Owned
import PaciNet.Server.Streams

/-!
# What a task has heard

A task of the process is followed by what its operations on the event bus answer: where its
receivers are, what they have given it, and what it has done with that. All of it is told from the
trace of the task (`Listening`). What stands behind it is a fact about the bus: **what a receiver
has given covers what was sent on its channel since it subscribed**, whatever the other tasks do
(`listening_settled`). Nothing that a task holds is ever taken from it, since a channel only grows.
-/

set_option autoImplicit false

namespace PaciNet

open Lib Lib.Broadcast

/-! ## The trace of a task -/

/-- A receiver: where it subscribed, where it is, and what it has given. -/
structure Receiver (α : Type) where
  start : Nat
  next : Nat
  got : List (Received α)

/-- An event, with the channel it came from. -/
abbrev Tagged := (c : Channel) × c.Event

/-- The event, if it came from the channel. -/
def Tagged.onChannel (c : Channel) (e : Tagged) : Option c.Event :=
  if h : e.1 = c then some (h ▸ e.2) else none

@[simp] theorem Tagged.onChannel_self (c : Channel) (e : c.Event) :
    Tagged.onChannel c ⟨c, e⟩ = some e := by
  simp [onChannel]

theorem Tagged.onChannel_ne {c d : Channel} (e : d.Event) (h : d ≠ c) :
    Tagged.onChannel c ⟨d, e⟩ = none := by
  simp [onChannel, h]

/-- What a task has heard and done: its receivers, how often one of them has answered, what it has
    yielded, the events a `select` has given it, what it was told when it asked whether the process
    leads, what it has written to the event log, the channels with a gap since the last event, and
    whether it has been dropped. -/
structure Listening where
  rx : (c : Channel) → Option (Receiver c.Event)
  heard : Nat
  yielded : List Streamed
  picked : List Tagged
  leads : List Bool
  stored : List PersistentEvent
  gaps : List Channel
  gone : Bool

namespace Listening

/-- A task that has not done anything. -/
def start : Listening := ⟨fun _ => none, 0, [], [], [], [], [], false⟩

/-- A receiver has given something. -/
def given (st : Listening) (c : Channel) (r : Received c.Event) (next : Nat) : Listening :=
  let x := (st.rx c).map fun x => ⟨x.start, next, x.got ++ [r]⟩
  { st with rx := Function.update st.rx c x, heard := st.heard + 1 }

/-- A `select` has given something. -/
def pick (st : Listening) (c : Channel) (r : Received c.Event) : Listening :=
  { st with
    picked := st.picked ++ r.value.toList.map (Sigma.mk c)
    gaps := if r.value.isSome then [] else st.gaps ++ [c] }

def next (st : Listening) : (o : ServerOp) → ServerOp.Res o → Listening
  | .inr (.subscribe c), n => { st with rx := Function.update st.rx c (some ⟨n, n, []⟩) }
  | .inr (.recv c _), some (r, n) => st.given c r n
  | .inr (.select _ _), some ⟨c, r, n⟩ => (st.given c r n).pick c r
  | .inr (.yieldItem item), some () => { st with yielded := st.yielded ++ [item] }
  | .inr (.yieldItem item), none => { st with yielded := st.yielded ++ [item], gone := true }
  | .inr (.recv _ _), none | .inr (.select _ _), none => { st with gone := true }
  | .inl (.inl .isLeader), leader => { st with leads := st.leads ++ [leader] }
  | .inl (.inl (.storage (.storeEvent e))), _ => { st with stored := st.stored ++ [e] }
  | _, _ => st

/-- A task asks its receivers from where they are. -/
def asks (st : Listening) : ServerOp → Prop
  | .inr (.recv c next) => ∃ x, st.rx c = some x ∧ x.next = next
  | .inr (.select next _) => ∀ c, ∃ x, st.rx c = some x ∧ x.next = next c
  | _ => True

/-- A task that has been dropped does nothing. -/
def allow (st : Listening) (o : ServerOp) : Prop := st.gone = false ∧ st.asks o

/-- The receivers are where the channels say. -/
def Owns (st : Listening) (bus : EventBus) : Prop :=
  ∀ c x, st.rx c = some x → Heard EventBus.bufferSize (bus c) x.start x.next x.got

end Listening

/-- What a task does on its own. -/
def listening : Monitor ServerOp ServerOp.Res Listening where
  allow := Listening.allow
  expect _ _ := True
  next := Listening.next

/-- The events the handlers have published. -/
def PublishedNodeEvent.fromHandler : PublishedNodeEvent → Option NodeEvent
  | handled e => some e
  | heartbeatStale _ _ _ _ => none

/-- The bus has what the handlers have published. -/
structure OnBus {σ : Type} (w : World σ) (bus : EventBus) : Prop where
  fsm : bus .fsm = w.fsmEvents
  node : (bus .node).filterMap PublishedNodeEvent.fromHandler = w.nodeEvents

/-- What a task has of the bus. -/
def listeningOwnership (σ : Type) : Ownership Listening (World σ × EventBus) where
  invariant s := OnBus s.1 s.2
  owns st s := st.Owns s.2
  apart _ _ := True

/-! ## Steps -/

namespace Listening

variable {st : Listening} {bus bus' : EventBus} {c : Channel}

theorem Owns.mono (h : st.Owns bus) (hbus : ∀ c, bus c <+: bus' c) : st.Owns bus' := by
  intro c x hx
  obtain ⟨later, hlater⟩ := hbus c
  rw [← hlater]
  exact (h c x hx).send later

/-- Only the receivers matter. -/
theorem Owns.congr {st' : Listening} (h : st.Owns bus) (hrx : st'.rx = st.rx) : st'.Owns bus := by
  intro c x hx
  rw [hrx] at hx
  exact h c x hx

theorem Owns.subscribe (h : st.Owns bus) (c : Channel) :
    Listening.Owns { st with
      rx := Function.update st.rx c (some ⟨(bus c).length, (bus c).length, []⟩) } bus := by
  intro d x hx
  by_cases hd : d = c
  · subst hd
    simp only [Function.update_self] at hx
    cases hx
    exact Heard.subscribe _ _
  · simp only [Function.update_of_ne hd] at hx
    exact h d x hx

theorem Owns.given (h : st.Owns bus) {x : Receiver c.Event} (hx : st.rx c = some x)
    {r : Received c.Event} {next : Nat}
    (hr : recv EventBus.bufferSize (bus c) x.next = some (r, next)) :
    (st.given c r next).Owns bus := by
  intro d y hy
  by_cases hd : d = c
  · subst hd
    simp only [Listening.given, Function.update_self, hx, Option.map_some,
      Option.some.injEq] at hy
    subst hy
    exact (h d x hx).recv hr
  · simp only [Listening.given, Function.update_of_ne hd] at hy
    exact h d y hy

/-- What is told of anything but the bus leaves the receivers alone. -/
theorem next_inl (st : Listening) (o : CountingOp) (r : ServerOp.Res (.inl o)) :
    (st.next (.inl o) r).rx = st.rx := by
  rcases o with o | o
  · cases o with
    | storage c => cases c <;> rfl
    | _ => rfl
  · cases o <;> rfl

/-- A task that is answered on the bus has its part of the bus then. -/
theorem own_bus {x : BusExt} {o : BusOp} {r : o.Res} (hst : st.Owns bus)
    (hallow : st.asks (.inr o)) (hx : o.exec x bus = some (r, bus')) :
    (st.next (.inr o) r).Owns bus' ∧ ∀ c, bus c <+: bus' c := by
  cases o with
  | subscribe c =>
    cases hx
    exact ⟨hst.subscribe c, fun d => List.prefix_refl _⟩
  | recv c next =>
    simp only [BusOp.exec] at hx
    split at hx
    · cases hx
      exact ⟨hst.congr rfl, fun d => List.prefix_refl _⟩
    obtain ⟨⟨got, n⟩, hgot, heq⟩ := Option.map_eq_some_iff.1 hx
    cases heq
    obtain ⟨y, hy, rfl⟩ := hallow
    exact ⟨hst.given hy hgot, fun d => List.prefix_refl _⟩
  | select next enabled =>
    simp only [BusOp.exec] at hx
    split at hx
    · cases hx
      exact ⟨hst.congr rfl, fun d => List.prefix_refl _⟩
    split at hx
    · obtain ⟨⟨got, n⟩, hgot, heq⟩ := Option.map_eq_some_iff.1 hx
      cases heq
      obtain ⟨y, hy, hnext⟩ := hallow x.polled
      rw [← hnext] at hgot
      exact ⟨(hst.given hy hgot).congr rfl, fun d => List.prefix_refl _⟩
    · cases hx
  | emitStale nodeId hostname labels timestamp =>
    cases hx
    exact ⟨hst.mono (bus.prefix_emit .node _), bus.prefix_emit .node _⟩
  | yieldItem item =>
    cases hx
    refine ⟨?_, fun d => List.prefix_refl _⟩
    split <;> exact hst.congr rfl

/-- What is published is put at the end of its channel. -/
theorem prefix_published (o : CountingOp) (bus : EventBus) (c : Channel) :
    bus c <+: published o bus c := by
  rcases o with o | o
  · cases o with
    | emitFsm e => exact bus.prefix_emit .fsm e c
    | emitNode e => exact bus.prefix_emit .node (.handled e) c
    | _ => exact List.prefix_refl _
  · cases o with
    | emitCounter e => exact bus.prefix_emit .counter e c
    | _ => exact List.prefix_refl _

end Listening

/-! ## Receivers -/

theorem given_rx {st : Listening} {c : Channel} {x : Receiver c.Event} (hx : st.rx c = some x)
    (r : Received c.Event) (next : Nat) :
    (st.given c r next).rx c = some ⟨x.start, next, x.got ++ [r]⟩ := by
  simp [Listening.given, hx]

/-- A receiver keeps where it has subscribed. -/
theorem given_start {st : Listening} {c d : Channel} {r : Received d.Event} {next : Nat}
    {x : Receiver c.Event} (hx : (st.given d r next).rx c = some x) :
    ∃ y, st.rx c = some y ∧ y.start = x.start := by
  by_cases hd : c = d
  · subst hd
    simp only [Listening.given, Function.update_self] at hx
    obtain ⟨y, hy, rfl⟩ := Option.map_eq_some_iff.1 hx
    exact ⟨y, hy, rfl⟩
  · simp only [Listening.given, Function.update_of_ne hd] at hx
    exact ⟨x, hx, rfl⟩

theorem next_start {st : Listening} {c : Channel} {x : Receiver c.Event} {o : ServerOp}
    {r : ServerOp.Res o} (hx : (st.next o r).rx c = some x) :
    (⟨o, r⟩ : (o : ServerOp) × ServerOp.Res o) = ⟨.inr (.subscribe c), x.start⟩ ∨
      ∃ y, st.rx c = some y ∧ y.start = x.start := by
  rcases o with o | o
  · rw [Listening.next_inl] at hx
    exact .inr ⟨x, hx, rfl⟩
  cases o with
  | subscribe d =>
    by_cases hd : c = d
    · subst hd
      simp only [Listening.next, Function.update_self, Option.some.injEq] at hx
      subst hx
      exact .inl rfl
    · simp only [Listening.next, Function.update_of_ne hd] at hx
      exact .inr ⟨x, hx, rfl⟩
  | recv d next =>
    rcases r with _ | ⟨r, n⟩
    · exact .inr ⟨x, hx, rfl⟩
    · exact .inr (given_start hx)
  | select next enabled =>
    rcases r with _ | ⟨d, r, n⟩
    · exact .inr ⟨x, hx, rfl⟩
    · exact .inr (@given_start st c d r n x hx)
  | emitStale => exact .inr ⟨x, hx, rfl⟩
  | yieldItem => cases r <;> exact .inr ⟨x, hx, rfl⟩

/-- A receiver is one that the task has subscribed. -/
theorem subscribe_mem {trace : List ((o : ServerOp) × ServerOp.Res o)} {c : Channel}
    {x : Receiver c.Event} (hx : (listening.after .start trace).rx c = some x) :
    ⟨.inr (.subscribe c), x.start⟩ ∈ trace := by
  induction trace using List.reverseRecOn generalizing x with
  | nil => exact nomatch hx
  | append_singleton trace e ih =>
    rw [Monitor.after_snoc] at hx
    rcases next_start hx with heq | ⟨y, hy, hstart⟩
    · exact List.mem_append_right _ (List.mem_singleton.2 heq.symm)
    · rw [← hstart]
      exact List.mem_append_left _ (ih hy)

/-- A task was told whether the process leads when it asked. -/
theorem isLeader_mem {trace : List ((o : ServerOp) × ServerOp.Res o)} {leader : Bool}
    (h : leader ∈ (listening.after .start trace).leads) :
    ⟨.inl (.inl .isLeader), leader⟩ ∈ trace := by
  induction trace using List.reverseRecOn with
  | nil => exact absurd h List.not_mem_nil
  | append_singleton trace e ih =>
    rw [Monitor.after_snoc] at h
    have hbefore (hmem : leader ∈ (listening.after .start trace).leads) :
        ⟨.inl (.inl .isLeader), leader⟩ ∈ trace ++ [e] := List.mem_append_left _ (ih hmem)
    rcases e with ⟨(o | o) | o, r⟩
    · cases o with
      | isLeader =>
        rcases List.mem_append.1 h with hmem | hmem
        · exact hbefore hmem
        · obtain rfl := List.mem_singleton.1 hmem
          exact List.mem_append_right _ (List.mem_singleton.2 rfl)
      | storage call => cases call <;> exact hbefore h
      | _ => exact hbefore h
    · cases o <;> exact hbefore h
    · cases o with
      | recv c next => rcases r with _ | ⟨r, n⟩ <;> exact hbefore h
      | select next enabled => rcases r with _ | ⟨c, r, n⟩ <;> exact hbefore h
      | yieldItem item => cases r <;> exact hbefore h
      | _ => exact hbefore h

section Events

variable {σ : Type} [Extern] [Storage σ]

/-- The node event an operation publishes. -/
def World.nodeEventsOf : Op → List NodeEvent
  | .emitNode e => [e]
  | _ => []

/-- The FSM event an operation publishes. -/
def World.fsmEventsOf : Op → List FsmEvent
  | .emitFsm e => [e]
  | _ => []

/-- What every operation of the controller publishes. -/
theorem World.events_of_exec {x : Ext} {o : Op} {w w' : World σ} {r : o.Res}
    {new : List Request} (h : exec x o w = some (r, w', new)) :
    w'.fsmEvents = w.fsmEvents ++ fsmEventsOf o ∧
      w'.nodeEvents = w.nodeEvents ++ nodeEventsOf o := by
  cases o with
  | deployRules addr req =>
    have hstrand (reached : Bool) : ((w.send addr req).strand addr req reached).fsmEvents =
        w.fsmEvents ∧ ((w.send addr req).strand addr req reached).nodeEvents = w.nodeEvents := by
      cases reached <;> exact ⟨rfl, rfl⟩
    have hnone : fsmEventsOf (.deployRules addr req) = [] ∧
        nodeEventsOf (.deployRules addr req) = [] := ⟨rfl, rfl⟩
    rw [hnone.1, hnone.2, List.append_nil, List.append_nil]
    simp only [exec] at h
    split at h
    · split at h
      · exact absurd h (by simp)
      · cases h
        exact ⟨rfl, rfl⟩
    · cases h
      exact hstrand _
    · cases h
      exact hstrand _
  | uuid =>
    simp only [exec] at h
    split at h
    · exact absurd h (by simp)
    · cases h
      exact ⟨(List.append_nil _).symm, (List.append_nil _).symm⟩
  | joinSetNext joinSet =>
    simp only [exec] at h
    split at h
    · exact absurd h (by simp)
    · split at h
      · cases h
        exact ⟨(List.append_nil _).symm, (List.append_nil _).symm⟩
      · exact absurd h (by simp)
      · cases h
        exact ⟨(List.append_nil _).symm, (List.append_nil _).symm⟩
  | emitFsm e =>
    cases h
    exact ⟨rfl, (List.append_nil _).symm⟩
  | emitNode e =>
    cases h
    exact ⟨(List.append_nil _).symm, rfl⟩
  | _ =>
    cases h
    exact ⟨(List.append_nil _).symm, (List.append_nil _).symm⟩

/-- The bus keeps what the handlers publish. -/
theorem OnBus.of_exec {w w' : World σ} {bus : EventBus} (h : OnBus w bus) {x : Ext} {o : Op}
    {r : o.Res} {new : List Request} (hx : World.exec x o w = some (r, w', new)) :
    OnBus w' (published (.inl o) bus) := by
  obtain ⟨hfsm, hnode⟩ := World.events_of_exec hx
  refine ⟨?_, ?_⟩
  · rw [hfsm, ← h.fsm]
    cases o with
    | emitFsm e => exact EventBus.emit_self bus .fsm e
    | emitNode e => exact (EventBus.emit_ne bus _ (by decide)).trans (List.append_nil _).symm
    | _ => exact (List.append_nil _).symm
  · rw [hnode, ← h.node]
    cases o with
    | emitFsm e =>
      rw [published, EventBus.emit_ne bus _ (by decide)]
      exact (List.append_nil _).symm
    | emitNode e =>
      rw [published, EventBus.emit_self, List.filterMap_append]
      rfl
    | _ => exact (List.append_nil _).symm

omit [Extern] [Storage σ] in
/-- The operations around counters publish no other events. -/
theorem OnBus.of_counter {w w' : World σ} {bus : EventBus} (h : OnBus w bus)
    {cacheCfg : CacheConfig} {x : Ext} {o : CounterOp} {r : o.Res}
    (hx : o.exec cacheCfg x w = some (r, w')) : OnBus w' (published (.inr o) bus) := by
  cases o with
  | emitCounter e =>
    cases hx
    refine ⟨?_, ?_⟩
    · rw [published, EventBus.emit_ne bus _ (by decide)]
      exact h.fsm
    · rw [published, EventBus.emit_ne bus _ (by decide)]
      exact h.node
  | _ =>
    cases hx
    exact ⟨h.fsm, h.node⟩

omit [Extern] [Storage σ] in
/-- What a task of the process publishes itself is a stale node. -/
theorem OnBus.of_bus {w : World σ} {bus bus' : EventBus} (h : OnBus w bus) {x : BusExt} {o : BusOp}
    {r : o.Res} (hx : o.exec x bus = some (r, bus')) : OnBus w bus' := by
  cases o with
  | emitStale nodeId hostname labels timestamp =>
    cases hx
    refine ⟨?_, ?_⟩
    · rw [EventBus.emit_ne bus _ (by decide)]
      exact h.fsm
    · rw [EventBus.emit_self, List.filterMap_append, ← h.node]
      exact List.append_nil _
  | recv c next =>
    simp only [BusOp.exec] at hx
    split at hx
    · cases hx
      exact h
    · obtain ⟨_, _, heq⟩ := Option.map_eq_some_iff.1 hx
      cases heq
      exact h
  | select next enabled =>
    simp only [BusOp.exec] at hx
    split at hx
    · cases hx
      exact h
    split at hx
    · obtain ⟨_, _, heq⟩ := Option.map_eq_some_iff.1 hx
      cases heq
      exact h
    · cases hx
  | subscribe c =>
    cases hx
    exact h
  | yieldItem item =>
    cases hx
    exact h

end Events

end PaciNet

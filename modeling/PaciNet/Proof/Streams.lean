import PaciNet.Proof.Listening

/-!
# What is streamed and what is logged

Six streams and the event log read the channels of the event bus, while the handlers publish. A
channel keeps 256 events, and whoever is further behind than that has missed some.

* **A stream yields what its client asked for, of what it was given, which covers what was published
  since it subscribed** (`streams_deliver`): every event once and in the order of its channel, but
  for the gaps it was told of, of which there is none as long as no more than 256 events were
  published since.
* **The event log has each event of a channel once, in the order of the channel**
  (`events_logged`), and all of them as long as the process leads and no more than 256 were
  published. The task that writes it ends by itself when it has been told of a gap on all three
  channels with no event between, and nothing is logged from then on.
-/

set_option autoImplicit false

namespace PaciNet

open Lib Lib.Broadcast

/-! ## Streams -/

section Streams

variable {st : Listening} {Q : Listening → Unit → Prop}

/-- A stream has yielded what is wanted of what its receiver has given, and if it has ended, it has
    had its turns or its client has gone. -/
def Told {c : Channel} (s : EventStream c) (turns : Nat) (st : Listening) : Prop :=
  ∃ x, st.rx c = some x ∧ st.yielded = (events x.got).filterMap s.yields ∧
    (st.gone = true ∨ x.got.length = turns)

/-- What a stream has been given it may still have to yield. -/
theorem filterMap_events_snoc {c : Channel} (s : EventStream c) (got : List (Received c.Event))
    (r : Received c.Event) :
    (events (got ++ [r])).filterMap s.yields =
      (events got).filterMap s.yields ++ (r.value.bind s.yields).toList := by
  rw [events_snoc, List.filterMap_append]
  cases r with
  | lagged n => rfl
  | event a =>
    show _ ++ [a].filterMap s.yields = _ ++ (s.yields a).toList
    cases h : s.yields a <;> simp [h]

/-- What is yielded is yielded before the stream goes on, or its client has gone. -/
theorem yieldThen_wp {item : Option Streamed} {rest : ServerProc Unit} (hgone : st.gone = false)
    (hdropped : Q { st with yielded := st.yielded ++ item.toList, gone := true } ())
    (hrest : rest.wp listening Q { st with yielded := st.yielded ++ item.toList }) :
    (yieldThen item rest).wp listening Q st := by
  cases item with
  | none =>
    rw [Option.toList, List.append_nil] at hrest
    exact hrest
  | some item =>
    refine ⟨⟨hgone, trivial⟩, fun answer _ => ?_⟩
    cases answer with
    | none => exact hdropped
    | some _ => exact hrest

theorem readStream_wp {c : Channel} {s : EventStream c} {x : Receiver c.Event} {total : Nat}
    (turns : Nat) (hgone : st.gone = false) (hx : st.rx c = some x)
    (hyielded : st.yielded = (events x.got).filterMap s.yields)
    (htotal : x.got.length + turns = total) :
    (readStream s turns x.next).wp listening (fun st' _ => Told s total st') st := by
  induction turns generalizing st x with
  | zero => exact ⟨x, hx, hyielded, .inr htotal⟩
  | succ turns ih =>
    refine ⟨⟨hgone, x, hx, rfl⟩, fun answer _ => ?_⟩
    rcases answer with _ | ⟨r, next⟩
    · -- the client has gone
      exact ⟨x, hx, hyielded, .inl rfl⟩
    have hrx := given_rx hx r next
    have hlength : (x.got ++ [r]).length + turns = total := by
      rw [List.length_append, List.length_singleton]
      omega
    have hgiven := filterMap_events_snoc s x.got r
    rw [← hyielded] at hgiven
    cases r with
    | event e =>
      refine yieldThen_wp hgone ⟨_, hrx, hgiven.symm, .inl rfl⟩ ?_
      exact @ih _ ⟨x.start, next, x.got ++ [Received.event e]⟩ hgone hrx hgiven.symm hlength
    | lagged n =>
      refine @ih (st.given c (.lagged n) next) _ hgone hrx ?_ hlength
      rw [hgiven]
      exact (List.append_nil _).symm

/-- A stream that starts has nothing to yield yet. -/
theorem serveStream_wp {c : Channel} {s : EventStream c} {turns : Nat} :
    (serveStream s turns).wp listening (fun st' _ => Told s turns st') .start := by
  refine ⟨⟨rfl, trivial⟩, fun start _ => ?_⟩
  refine readStream_wp (x := ⟨start, start, []⟩) turns rfl ?_ rfl (Nat.zero_add turns)
  exact Function.update_self _ _ _

end Streams

/-! ## The event log -/

section EventLog

variable [WriteJson] {st : Listening} {persistCounterEvents : Bool}

/-- The task is to write the event to the log. -/
def Tagged.wanted (persistCounterEvents : Bool) (e : Tagged) : Bool :=
  e.1 != .counter || persistCounterEvents

omit [WriteJson] in
/-- What is to be written of the events on a channel is all or nothing. -/
theorem filterMap_wanted {c : Channel}
    (h : c = .counter → persistCounterEvents = true) (picked : List Tagged) :
    (picked.filter (Tagged.wanted persistCounterEvents)).filterMap (Tagged.onChannel c) =
      picked.filterMap (Tagged.onChannel c) := by
  rw [List.filterMap_filter]
  refine List.filterMap_congr fun e _ => ?_
  by_cases hc : e.1 = c
  · have hwanted : Tagged.wanted persistCounterEvents e = true := by
      by_cases hcounter : c = .counter
      · simp [Tagged.wanted, h hcounter]
      · simp [Tagged.wanted, hc, hcounter]
    rw [if_pos hwanted]
  · have hnone : Tagged.onChannel c e = none := Tagged.onChannel_ne e.2 hc
    rw [hnone, ite_self]

omit [WriteJson] in
theorem filterMap_unwanted (picked : List Tagged) :
    (picked.filter (Tagged.wanted false)).filterMap (Tagged.onChannel .counter) = [] := by
  refine List.filterMap_eq_nil_iff.2 fun e he => ?_
  have hwanted := (List.mem_filter.1 he).2
  refine Tagged.onChannel_ne e.2 fun hc => ?_
  simp [Tagged.wanted, hc] at hwanted

/-- An entry of the event log is that of an event. -/
def EntryOf (entry : PersistentEvent) (e : Tagged) : Prop :=
  ∃ id, entry = toPersistent e.1 e.2 id

/-- What a task has picked of its channels is what they have given, and a gap it counts is one. -/
structure HasPicked (st : Listening) : Prop where
  rx : ∀ c, ∃ x, st.rx c = some x ∧ events x.got = st.picked.filterMap (Tagged.onChannel c)
  gaps : ∀ c ∈ st.gaps, ∀ x, st.rx c = some x → ∃ n, .lagged n ∈ x.got

/-- The events for which the task was told that the process leads. -/
def asLeader (asked : List Tagged) (leads : List Bool) : List Tagged :=
  ((asked.zip leads).filter Prod.snd).map Prod.fst

omit [WriteJson] in
theorem asLeader_snoc {asked : List Tagged} {leads : List Bool}
    (h : leads.length = asked.length) (e : Tagged) (leader : Bool) :
    asLeader (asked ++ [e]) (leads ++ [leader]) =
      asLeader asked leads ++ if leader then [e] else [] := by
  unfold asLeader
  rw [List.zip_append h.symm, List.filter_append, List.map_append]
  cases leader <;> rfl

omit [WriteJson] in
theorem asLeader_sublist {asked : List Tagged} {leads : List Bool}
    (h : leads.length = asked.length) : (asLeader asked leads).Sublist asked := by
  have hall : (asked.zip leads).map Prod.fst = asked := List.map_fst_zip h.ge
  calc (asLeader asked leads).Sublist ((asked.zip leads).map Prod.fst) :=
        List.filter_sublist.map Prod.fst
    _ = asked := hall

omit [WriteJson] in
theorem asLeader_of_leads {asked : List Tagged} {leads : List Bool}
    (h : leads.length = asked.length) (hleads : ∀ leader ∈ leads, leader = true) :
    asLeader asked leads = asked := by
  have hall : (asked.zip leads).filter Prod.snd = asked.zip leads :=
    List.filter_eq_self.2 fun _ hp => hleads _ (List.of_mem_zip hp).2
  rw [asLeader, hall]
  exact List.map_fst_zip h.ge

/-- Of what was picked, the task has asked for each event it may have to write whether the process
    leads, and has written the entries of those for which it does. -/
structure HasLogged (persistCounterEvents : Bool) (picked : List Tagged) (st : Listening) :
    Prop where
  asked : st.leads.length = (picked.filter (Tagged.wanted persistCounterEvents)).length
  stored : List.Forall₂ EntryOf st.stored
    (asLeader (picked.filter (Tagged.wanted persistCounterEvents)) st.leads)

/-- The receivers are at the given positions. -/
def PicksFrom (next : Channel → Nat) (st : Listening) : Prop :=
  ∀ c, ∃ x, st.rx c = some x ∧ x.next = next c

omit [WriteJson] in
/-- A receiver that has given something has moved, and the others have not. -/
theorem PicksFrom.given {next : Channel → Nat} (h : PicksFrom next st) {c : Channel}
    (r : Received c.Event) (n : Nat) :
    PicksFrom (advance next c n) ((st.given c r n).pick c r) := by
  intro d
  by_cases hd : d = c
  · subst hd
    obtain ⟨x, hx, -⟩ := h d
    exact ⟨_, given_rx hx r n, by simp [advance]⟩
  · obtain ⟨x, hx, hnext⟩ := h d
    refine ⟨x, ?_, ?_⟩
    · show Function.update st.rx c _ d = _
      rw [Function.update_of_ne hd, hx]
    · rw [advance, if_neg hd, hnext]

omit [WriteJson] in
theorem HasPicked.given (h : HasPicked st) {c : Channel} (r : Received c.Event) (n : Nat) :
    HasPicked ((st.given c r n).pick c r) := by
  obtain ⟨x, hx, hevents⟩ := h.rx c
  have hrx : ((st.given c r n).pick c r).rx c = some ⟨x.start, n, x.got ++ [r]⟩ :=
    given_rx hx r n
  have hother {d : Channel} (hd : d ≠ c) : ((st.given c r n).pick c r).rx d = st.rx d :=
    Function.update_of_ne hd _ _
  have hpicked (d : Channel) : ((st.given c r n).pick c r).picked.filterMap (Tagged.onChannel d) =
      st.picked.filterMap (Tagged.onChannel d) ++
        (r.value.toList.map (Sigma.mk c)).filterMap (Tagged.onChannel d) :=
    List.filterMap_append
  refine ⟨fun d => ?_, fun d hd y hy => ?_⟩
  · rw [hpicked]
    by_cases hd : d = c
    · subst hd
      refine ⟨_, hrx, ?_⟩
      rw [events_snoc, hevents]
      cases r <;> simp [Received.value]
    · obtain ⟨y, hy, hevents⟩ := h.rx d
      refine ⟨y, (hother hd).trans hy, ?_⟩
      rw [hevents]
      cases r <;> simp [Received.value, Tagged.onChannel_ne _ (Ne.symm hd)]
  · cases r with
    | event e => exact absurd hd List.not_mem_nil
    | lagged m =>
      by_cases hdc : d = c
      · subst hdc
        rw [hrx] at hy
        cases hy
        exact ⟨m, List.mem_append_right _ (List.mem_singleton.2 rfl)⟩
      · rw [hother hdc] at hy
        rcases List.mem_append.1 hd with hd | hd
        · exact h.gaps d hd y hy
        · exact absurd (List.mem_singleton.1 hd) hdc

omit [WriteJson] in
theorem HasPicked.congr (h : HasPicked st) {st' : Listening} (hrx : st'.rx = st.rx)
    (hpicked : st'.picked = st.picked) (hgaps : st'.gaps = st.gaps) : HasPicked st' := by
  refine ⟨?_, ?_⟩
  · rw [hrx, hpicked]
    exact h.rx
  · rw [hrx, hgaps]
    exact h.gaps

/-- Only what was answered and stored matters. -/
theorem HasLogged.congr {picked : List Tagged} (h : HasLogged persistCounterEvents picked st)
    {st' : Listening} (hleads : st'.leads = st.leads) (hstored : st'.stored = st.stored) :
    HasLogged persistCounterEvents picked st' := by
  refine ⟨?_, ?_⟩
  · rw [hleads]
    exact h.asked
  · rw [hleads, hstored]
    exact h.stored

/-- What a task has heard is what it had heard. -/
structure HearsNothing (st st' : Listening) : Prop where
  rx : st'.rx = st.rx
  heard : st'.heard = st.heard
  picked : st'.picked = st.picked
  gaps : st'.gaps = st.gaps
  gone : st'.gone = st.gone

/-- The task deals with an event that it has just picked. -/
theorem persistEvent_wp {c : Channel} {e : c.Event} {before : List Tagged}
    (h : HasLogged persistCounterEvents before st) (hpicked : st.picked = before ++ [⟨c, e⟩])
    (hgone : st.gone = false) :
    (persistEvent persistCounterEvents c e).wp listening (fun st' _ => HearsNothing st st' ∧
      HasLogged persistCounterEvents st.picked st') st := by
  have hfilter : st.picked.filter (Tagged.wanted persistCounterEvents) =
      before.filter (Tagged.wanted persistCounterEvents) ++
        if Tagged.wanted persistCounterEvents ⟨c, e⟩ then [⟨c, e⟩] else [] := by
    rw [hpicked, List.filter_append, List.filter_singleton]
    cases Tagged.wanted persistCounterEvents ⟨c, e⟩ <;> rfl
  have hsame : HearsNothing st st := ⟨rfl, rfl, rfl, rfl, rfl⟩
  unfold persistEvent
  split
  · rename_i hunwanted
    have hnot : Tagged.wanted persistCounterEvents ⟨c, e⟩ = false := by
      simpa [Tagged.wanted] using hunwanted
    rw [hnot, if_neg Bool.false_ne_true, List.append_nil] at hfilter
    refine ⟨hsame, ?_, ?_⟩
    · rw [hfilter]
      exact h.asked
    · rw [hfilter]
      exact h.stored
  rename_i hwanted
  have hwant : Tagged.wanted persistCounterEvents ⟨c, e⟩ = true := by
    simpa [Tagged.wanted, or_iff_not_imp_left] using hwanted
  rw [hwant, if_pos rfl] at hfilter
  have hasked (leader : Bool) : (st.leads ++ [leader]).length =
      (st.picked.filter (Tagged.wanted persistCounterEvents)).length := by
    rw [hfilter, List.length_append, List.length_append, h.asked]
    rfl
  refine ⟨⟨hgone, trivial⟩, fun leader _ => ?_⟩
  cases leader with
  | false =>
    refine ⟨⟨rfl, rfl, rfl, rfl, rfl⟩, hasked false, ?_⟩
    show List.Forall₂ EntryOf st.stored (asLeader _ (st.leads ++ [false]))
    rw [hfilter, asLeader_snoc h.asked]
    exact (List.append_nil (asLeader _ st.leads)).symm ▸ h.stored
  | true =>
    refine ⟨⟨hgone, trivial⟩, fun id _ => ⟨⟨hgone, trivial⟩, fun _ _ =>
      ⟨⟨rfl, rfl, rfl, rfl, rfl⟩, hasked true, ?_⟩⟩⟩
    show List.Forall₂ EntryOf (st.stored ++ [toPersistent c e id])
      (asLeader _ (st.leads ++ [true]))
    rw [hfilter, asLeader_snoc h.asked]
    exact List.rel_append h.stored (.cons ⟨id, rfl⟩ .nil)

/-- What the task has done when it waits for the next event, or has ended. -/
structure Logged (persistCounterEvents : Bool) (st : Listening) : Prop where
  reads : HasPicked st
  writes : HasLogged persistCounterEvents st.picked st

omit [WriteJson] in
theorem HasPicked.gone (h : HasPicked st) : HasPicked { st with gone := true } := h.congr rfl rfl rfl

theorem Logged.gone (h : Logged persistCounterEvents st) :
    Logged persistCounterEvents { st with gone := true } :=
  ⟨h.reads.gone, h.writes.congr rfl rfl⟩

/-- The task has ended with the answer, and why: there was a gap on every channel, or it has had its
    turns, or it was dropped. -/
structure HasEnded (turns : Nat) (left : Bool) (st : Listening) : Prop where
  gaps : left = true → ∀ c, c ∈ st.gaps
  turns : left = false → st.gone = true ∨ st.heard = turns

theorem persistLoop_wp {total : Nat} (turns : Nat) {next : Channel → Nat}
    {enabled : Channel → Bool} (h : Logged persistCounterEvents st) (hnext : PicksFrom next st)
    (henabled : ∀ c, enabled c = false → c ∈ st.gaps) (hgone : st.gone = false)
    (htotal : st.heard + turns = total) :
    (persistLoop persistCounterEvents turns next enabled).wp listening
      (fun st' left => Logged persistCounterEvents st' ∧ HasEnded total left st') st := by
  induction turns generalizing st next enabled with
  | zero => exact ⟨h, fun hleft => (nomatch hleft), fun _ => .inr htotal⟩
  | succ turns ih =>
    unfold persistLoop
    split
    · refine ⟨⟨hgone, hnext⟩, fun answer _ => ?_⟩
      rcases answer with _ | ⟨c, r, n⟩
      · exact ⟨h.gone, fun hleft => (nomatch hleft), fun _ => .inl rfl⟩
      have hreads := h.reads.given r n
      have hfrom := hnext.given r n
      have hheard : st.heard + 1 + turns = total := by omega
      cases r with
      | lagged m =>
        have hwrites : HasLogged persistCounterEvents ((st.given c (.lagged m) n).pick c
            (.lagged m)).picked ((st.given c (.lagged m) n).pick c (.lagged m)) := by
          rw [show ((st.given c (.lagged m) n).pick c (.lagged m)).picked = st.picked from
            List.append_nil _]
          exact h.writes.congr rfl rfl
        refine ih ⟨hreads, hwrites⟩ hfrom (fun d hd => ?_) hgone hheard
        show d ∈ st.gaps ++ [c]
        by_cases hdc : d = c
        · exact List.mem_append_right _ (List.mem_singleton.2 hdc)
        · refine List.mem_append_left _ (henabled d ?_)
          simpa [disable, hdc] using hd
      | event e =>
        show ((persistEvent persistCounterEvents c e).bind fun _ => persistLoop persistCounterEvents
          turns (advance next c n) allEnabled).wp _ _ _
        refine Prog.wp_bind.2 ?_
        have hwrites : HasLogged persistCounterEvents st.picked
            ((st.given c (.event e) n).pick c (.event e)) := h.writes.congr rfl rfl
        refine (persistEvent_wp hwrites rfl hgone).mono fun st' _ hst' => ?_
        obtain ⟨hsame, hwrites⟩ := hst'
        rw [← hsame.picked] at hwrites
        refine ih ⟨hreads.congr hsame.rx hsame.picked hsame.gaps, hwrites⟩ (fun d => ?_)
          (fun _ h => nomatch h) (hsame.gone.trans hgone) ?_
        · rw [hsame.rx]
          exact hfrom d
        · rw [hsame.heard]
          exact hheard
    · rename_i hnone
      refine ⟨h, fun _ c => henabled c ?_, fun hleft => nomatch hleft⟩
      cases c <;> simp_all

/-- The task begins with a receiver on each channel. -/
theorem persistEvents_wp {turns : Nat} :
    (persistEvents persistCounterEvents turns).wp listening
      (fun st' left => Logged persistCounterEvents st' ∧ HasEnded turns left st') .start := by
  refine ⟨⟨rfl, trivial⟩, fun fsm _ => ⟨⟨rfl, trivial⟩, fun counter _ =>
    ⟨⟨rfl, trivial⟩, fun node _ => ?_⟩⟩⟩
  have hrx (c : Channel) : (listening.next (listening.next (listening.next .start
      (.inr (.subscribe .fsm)) fsm) (.inr (.subscribe .counter)) counter)
        (.inr (.subscribe .node)) node).rx c =
          some ⟨receivers fsm counter node c, receivers fsm counter node c, []⟩ := by
    cases c <;> rfl
  refine persistLoop_wp turns ⟨⟨fun c => ⟨_, hrx c, rfl⟩, fun _ h => nomatch h⟩, rfl, .nil⟩
    (fun c => ⟨_, hrx c, rfl⟩) (fun _ h => nomatch h) rfl (Nat.zero_add turns)

end EventLog

/-! ## The process -/

section Process

variable [Extern] [FromTimestamp] [WriteJson] {cfg : ControllerConfig} {cacheCfg : CacheConfig}
  {σ : Type} [Storage σ]

omit [Extern] [FromTimestamp] [WriteJson] [Storage σ] in
/-- An operation that asks nothing of a receiver and cannot be dropped. -/
def NeverDropped (o : ServerOp) : Prop :=
  ∀ st : Listening, st.gone = false →
    listening.allow st o ∧ ∀ r, (listening.next st o r).gone = false

omit [Extern] [FromTimestamp] [WriteJson] [Storage σ] in
theorem neverDropped_inl (o : CountingOp) : NeverDropped (.inl o) := by
  intro st hst
  refine ⟨⟨hst, trivial⟩, fun r => ?_⟩
  rcases o with o | o
  · cases o with
    | isLeader => cases r <;> exact hst
    | storage call => cases call <;> exact hst
    | _ => exact hst
  · cases o <;> exact hst

omit [Extern] [FromTimestamp] [WriteJson] [Storage σ] in
theorem neverDropped_emitStale {nodeId hostname : String} {labels : Labels} {timestamp : DateTime} :
    NeverDropped (.inr (.emitStale nodeId hostname labels timestamp)) :=
  fun _ hst => ⟨⟨hst, trivial⟩, fun _ => hst⟩

omit [Extern] [FromTimestamp] [WriteJson] [Storage σ] in
/-- The reaper has no receivers. -/
theorem reaperTick_calls (reaperCfg : ReaperConfig) :
    (reaperTick reaperCfg).Calls NeverDropped := by
  have hstale (id : String) : (emitStale id).Calls NeverDropped := by
    refine ⟨neverDropped_inl _, fun node => ?_⟩
    rcases node with e | (_ | node)
    · exact trivial
    · exact trivial
    · exact ⟨neverDropped_inl _, fun _ => ⟨neverDropped_emitStale, fun _ => trivial⟩⟩
  have hall (ids : List String) : (emitAllStale ids).Calls NeverDropped := by
    induction ids with
    | nil => exact trivial
    | cons id ids ih => exact (hstale id).bind fun _ => ih
  refine ⟨neverDropped_inl _, fun _ => ⟨neverDropped_inl _, fun leader => ?_⟩⟩
  cases leader with
  | false => exact trivial
  | true =>
    refine ⟨neverDropped_inl _, fun _ => ⟨neverDropped_inl _, fun marked => ?_⟩⟩
    show ((emitMarked marked).bind fun _ => pruneOld _).Calls _
    refine Prog.Calls.bind ?_ fun _ => ?_
    · cases marked with
      | ok ids => exact hall ids
      | error e => exact trivial
    · unfold pruneOld
      split
      · exact ⟨neverDropped_inl _, fun _ => ⟨neverDropped_inl _, fun _ => trivial⟩⟩
      · exact trivial

/-- What a task of the process has done in the end. -/
def Listened (cfg : ControllerConfig) : ServerTask → Listening → ServerResult → Prop
  | .inr (.stream q turns), st, _ => q.available cfg → Told q.stream turns st
  | .inr (.persistEvents persistCounterEvents turns), st, reply =>
    Logged persistCounterEvents st ∧
      ∃ left, reply = .inr (.persistEvents left) ∧ HasEnded turns left st
  | _, _, _ => True

theorem listening_tended : (server cfg cacheCfg σ).Tended listening .start (Listened cfg)
    (listeningOwnership σ) where
  prog q := by
    rcases q with q | q
    · exact Prog.wp_bind.2 (Prog.wp_of_allowed (fun _ _ => trivial)
        (Prog.extend_calls neverDropped_inl _) rfl)
    · refine Prog.wp_bind.2 ?_
      cases q with
      | stream q turns =>
        refine Prog.wp_bind.2 ?_
        unfold serveStreamRequest
        split
        · exact Prog.wp_bind.2 (serveStream_wp.mono fun _ _ htold _ => htold)
        · rename_i hnot
          exact fun havailable => absurd havailable hnot
      | persistEvents persistCounterEvents turns =>
        exact Prog.wp_bind.2 (persistEvents_wp.mono fun st left h => ⟨h.1, left, rfl, h.2⟩)
      | reaperTick reaperCfg =>
        exact Prog.wp_bind.2 (Prog.wp_of_allowed (fun _ _ => trivial) (reaperTick_calls reaperCfg)
          rfl)
  symm _ _ _ := trivial
  start s := ⟨fun _ _ h => (nomatch h), fun _ => trivial⟩
  own {st x o s r s' new} hinv howns hallow hx := by
    rcases o with o | o
    · obtain ⟨⟨new', hbase⟩, hbus⟩ := System.host_exec_inl hx
      refine ⟨?_, ?_, trivial⟩
      · show OnBus s'.1 s'.2
        rw [hbus]
        rcases o with o | o
        · obtain ⟨new'', hexec⟩ := System.extend_exec_inl hbase
          exact OnBus.of_exec hinv hexec
        · exact OnBus.of_counter hinv (System.extend_exec_inr hbase)
      · show Listening.Owns _ s'.2
        rw [hbus]
        exact (howns.mono (Listening.prefix_published o s.2)).congr (Listening.next_inl st o r)
    · obtain ⟨hbus, hworld⟩ := System.host_exec_inr hx
      refine ⟨?_, (Listening.own_bus howns hallow.2 hbus).1, trivial⟩
      show OnBus s'.1 s'.2
      rw [hworld]
      exact OnBus.of_bus hinv hbus
  other {st su x o s r s' new} hinv howns hother hapart hallow hx := by
    refine ⟨?_, trivial⟩
    rcases o with o | o
    · obtain ⟨-, hbus⟩ := System.host_exec_inl hx
      show su.Owns s'.2
      rw [hbus]
      exact hother.mono (Listening.prefix_published o s.2)
    · obtain ⟨hbus, -⟩ := System.host_exec_inr hx
      exact hother.mono (Listening.own_bus howns hallow.2 hbus).2

end Process

/-! ## Runs -/

/-- A task of the process. -/
abbrev ServerThread := Thread ServerOp ServerOp.Res ServerTask ServerResult

/-- The process, with what it runs at a time. -/
abbrev ServerPool (σ : Type) :=
  Config ServerOp ServerOp.Res (World σ × EventBus) ServerTask ServerResult

/-- A step of the process. -/
abbrev ServerLabel (σ : Type) := Label (World σ × EventBus) (Ext × BusExt) ServerTask

/-- What goes on outside the process publishes nothing. -/
def SparesBus {σ : Type} (c : ServerPool σ) : ServerLabel σ → Prop
  | .env s => s.2 = c.shared.2 ∧ s.1.fsmEvents = c.shared.1.fsmEvents ∧
    s.1.nodeEvents = c.shared.1.nodeEvents
  | _ => True

/-- What a task has heard and done. -/
def heardBy (t : ServerThread) : Listening := System.stageOf listening .start t

/-- A task waits for an event, or has ended. -/
inductive Rests (t : ServerThread) : Prop where
  | done (reply : ServerResult) (h : t.prog = .done reply)
  | recv (c : Channel) (next : Nat) (k : BusOp.Res (.recv c next) → ServerProc _)
      (h : t.prog = .call (.inr (.recv c next)) k)
  | select (next : Channel → Nat) (enabled : Channel → Bool)
      (k : BusOp.Res (.select next enabled) → ServerProc _)
      (h : t.prog = .call (.inr (.select next enabled)) k)

/-- A task that has been dropped is at its end. -/
theorem done_of_gone {α : Type} {p : ServerProc α} {Q : Listening → α → Prop} {st : Listening}
    (hgone : st.gone = true) (h : p.wp listening Q st) : ∃ a, p = .done a ∧ Q st a := by
  cases p with
  | done a => exact ⟨a, rfl, h⟩
  | call o k => exact absurd (hgone.symm.trans h.1.1) (by simp)

section Runs

variable [WriteJson] {cfg : ControllerConfig}

/-- A task that rests could end where it is. -/
theorem Rests.listened {t : ServerThread} (hrests : Rests t)
    (h : System.Watched listening .start (Listened cfg) t) :
    ∃ gone reply, Listened cfg t.req { heardBy t with gone := gone } reply ∧
      ∀ r, t.prog = .done r → r = reply ∧ gone = (heardBy t).gone := by
  cases hrests with
  | done reply hprog =>
    rw [System.Watched, hprog] at h
    refine ⟨_, reply, h, fun r hr => ?_⟩
    exact ⟨(Prog.done.inj (hprog.symm.trans hr)).symm, rfl⟩
  | recv c next k hprog =>
    rw [System.Watched, hprog] at h
    obtain ⟨reply, -, hreply⟩ := done_of_gone rfl (h.2 none trivial)
    refine ⟨true, reply, hreply, fun r hr => ?_⟩
    exact absurd (hprog.symm.trans hr) (by simp)
  | select next enabled k hprog =>
    rw [System.Watched, hprog] at h
    obtain ⟨reply, -, hreply⟩ := done_of_gone rfl (h.2 none trivial)
    refine ⟨true, reply, hreply, fun r hr => ?_⟩
    exact absurd (hprog.symm.trans hr) (by simp)

/-- What the receiver of a task has given it, against what was sent on its channel. -/
structure Subscribed (c : Channel) (bus : EventBus) (t : ServerThread) (x : Receiver c.Event) :
    Prop where
  rx : (heardBy t).rx c = some x
  subscribed : ⟨.inr (.subscribe c), x.start⟩ ∈ t.trace
  heard : Heard EventBus.bufferSize (bus c) x.start x.next x.got

variable [Extern] [FromTimestamp] {cacheCfg : CacheConfig} {σ : Type} [Storage σ] {storage : σ}
  {d : ServerPool σ}

theorem listening_settled
    (h : (server cfg cacheCfg σ).Steps SparesBus ⟨(.init storage, .new), []⟩ d) :
    System.Settled listening .start (Listened cfg) (listeningOwnership σ) d := by
  refine System.Steps.settled listening_tended ?_ h rfl ⟨rfl, rfl⟩
  intro c s henv hinv
  obtain ⟨hbus, hfsm, hnode⟩ := henv
  have hon : OnBus c.shared.1 c.shared.2 := hinv
  refine ⟨⟨?_, ?_⟩, fun st hst => ?_⟩
  · rw [hbus, hfsm]
    exact hon.fsm
  · rw [hbus, hnode]
    exact hon.node
  · show st.Owns s.2
    rw [hbus]
    exact hst

omit [Extern] [FromTimestamp] [Storage σ] in
/-- A receiver of a task. -/
theorem Subscribed.of_settled
    (h : System.Settled listening .start (Listened cfg) (listeningOwnership σ) d)
    {t : ServerThread} (ht : t ∈ d.threads) {c : Channel} {x : Receiver c.Event}
    (hx : (heardBy t).rx c = some x) : Subscribed c d.shared.2 t x :=
  ⟨hx, subscribe_mem hx, h.owns t ht c x hx⟩

/-- What the task that writes the event log is to ask about: the events it has picked, but counter
    events only if they are to be persisted. -/
def askedBy (persistCounterEvents : Bool) (t : ServerThread) : List Tagged :=
  (heardBy t).picked.filter (Tagged.wanted persistCounterEvents)

/-- The events it has logged: those for which it was told that the process leads. -/
def loggedBy (persistCounterEvents : Bool) (t : ServerThread) : List Tagged :=
  asLeader (askedBy persistCounterEvents t) (heardBy t).leads

/-- What the task that writes the event log has done. It picks what its receivers give it, asks for
    every event that may have to be written whether the process leads, and has written one entry for
    each of those for which it does. -/
structure Logs (persistCounterEvents : Bool) (turns : Nat) (bus : EventBus) (t : ServerThread)
    (x : (c : Channel) → Receiver c.Event) : Prop where
  subscribed : ∀ c, Subscribed c bus t (x c)
  picked : ∀ c, (heardBy t).picked.filterMap (Tagged.onChannel c) = events (x c).got
  asked : (heardBy t).leads.length = (askedBy persistCounterEvents t).length
  entries : List.Forall₂ EntryOf (heardBy t).stored (loggedBy persistCounterEvents t)
  inOrder : ∀ c, ((loggedBy persistCounterEvents t).filterMap (Tagged.onChannel c)).Sublist
    ((bus c).drop (x c).start)
  leading : ⟨.inl (.inl .isLeader), false⟩ ∉ t.trace →
    ∀ c, (c = .counter → persistCounterEvents = true) →
      (loggedBy persistCounterEvents t).filterMap (Tagged.onChannel c) = events (x c).got
  counters : persistCounterEvents = false →
    (loggedBy persistCounterEvents t).filterMap (Tagged.onChannel .counter) = []
  left : t.prog = .done (.inr (.persistEvents true)) →
    ∀ c, c ∈ (heardBy t).gaps ∧ (x c).start + EventBus.bufferSize < (bus c).length
  ended : t.prog = .done (.inr (.persistEvents false)) →
    (heardBy t).gone = true ∨ (heardBy t).heard = turns

/-- **In every run of the process, the event log has each event of a channel once and in the order
    of the channel**, all of them as long as the process leads and the log is not too far behind. -/
theorem events_logged
    (h : (server cfg cacheCfg σ).Steps SparesBus ⟨(.init storage, .new), []⟩ d) :
    ∀ t ∈ d.threads, ∀ persistCounterEvents turns,
      t.req = .inr (.persistEvents persistCounterEvents turns) → Rests t →
        ∃ x, Logs persistCounterEvents turns d.shared.2 t x := by
  intro t ht persistCounterEvents turns hq hrests
  have hsettled := listening_settled h
  obtain ⟨gone, reply, hlistened, hreply⟩ := hrests.listened (hsettled.watched t ht)
  rw [hq] at hlistened
  obtain ⟨⟨hreads, hwrites⟩, left, rfl, hended⟩ := hlistened
  choose x hx hevents using hreads.rx
  have hsubscribed (c : Channel) : Subscribed c d.shared.2 t (x c) :=
    Subscribed.of_settled hsettled ht (hx c)
  have hpicked (c : Channel) :
      (heardBy t).picked.filterMap (Tagged.onChannel c) = events (x c).got := (hevents c).symm
  have hwrites : HasLogged persistCounterEvents (heardBy t).picked (heardBy t) :=
    hwrites.congr rfl rfl
  have hlogged : (loggedBy persistCounterEvents t).Sublist (askedBy persistCounterEvents t) :=
    asLeader_sublist hwrites.asked
  refine ⟨x, hsubscribed, hpicked, hwrites.asked, hwrites.stored, fun c => ?_,
    fun hlead c hc => ?_, fun hcounter => ?_, fun hdone c => ?_, fun hdone => ?_⟩
  · refine (hlogged.filterMap _).trans ((List.filter_sublist.filterMap _).trans ?_)
    rw [hpicked c]
    exact (hsubscribed c).heard.sublist
  · have hleads : ∀ leader ∈ (heardBy t).leads, leader = true := by
      intro leader hmem
      cases leader with
      | true => rfl
      | false => exact absurd (isLeader_mem hmem) hlead
    have hall : loggedBy persistCounterEvents t = askedBy persistCounterEvents t :=
      asLeader_of_leads hwrites.asked hleads
    rw [hall, ← hpicked c]
    exact filterMap_wanted hc _
  · subst hcounter
    have hnone := hlogged.filterMap (Tagged.onChannel .counter)
    rw [askedBy, filterMap_unwanted] at hnone
    exact List.sublist_nil.1 hnone
  · obtain ⟨heq, -⟩ := hreply _ hdone
    cases heq
    have hgap := hended.gaps rfl c
    obtain ⟨n, hn⟩ := hreads.gaps c hgap (x c) (hx c)
    exact ⟨hgap, (hsubscribed c).heard.lagged n hn⟩
  · obtain ⟨heq, hgone⟩ := hreply _ hdone
    cases heq
    exact hgone ▸ hended.turns rfl

end Runs

/-! ## A run -/

/-- Whether a task rests. -/
def Rests.check (t : ServerThread) : Bool :=
  match t.prog with
  | .done _ | .call (.inr (.recv _ _)) _ | .call (.inr (.select _ _)) _ => true
  | _ => false

theorem Rests.of_check {t : ServerThread} (h : Rests.check t = true) : Rests t := by
  cases hprog : t.prog with
  | done reply => exact .done reply hprog
  | call o k =>
    rw [Rests.check, hprog] at h
    rcases o with o | o
    · exact absurd h Bool.false_ne_true
    cases o with
    | recv c next => exact .recv c next k hprog
    | select next enabled => exact .select next enabled k hprog
    | _ => exact absurd h Bool.false_ne_true

/-- A client asks for the node events, the event log is opened, and a node registers. -/
def registrationStreamed : List (ServerLabel MemoryStorage) :=
  [.arrive (.inr (.stream (.sseNodeEvents none) 5)),
    .arrive (.inr (.persistEvents false 5)),
    .arrive (.inl (.inl (.registerNode ⟨"host", "10.0.0.1:50052", ∅, "1.0", ∅⟩)))] ++
  Label.turns 0 1 (.quiet 1 "n", ⟨false, .node⟩) ++
  Label.turns 1 3 (.quiet 1 "n", ⟨false, .node⟩) ++
  Label.turns 2 5 (.quiet 1 "n", ⟨false, .node⟩) ++
  Label.turns 0 2 (.quiet 1 "n", ⟨false, .node⟩) ++
  Label.turns 1 4 (.quiet 2 "e", ⟨false, .node⟩)

/-- A controller with an event bus. -/
def streamingConfig : ControllerConfig := ⟨30, false, true⟩

/-- Nothing goes on outside the process. -/
def insideOnly (_ : ServerPool MemoryStorage) : ServerLabel MemoryStorage → Bool
  | .env _ => false
  | _ => true

theorem insideOnly_sound (c : ServerPool MemoryStorage) (l : ServerLabel MemoryStorage)
    (h : insideOnly c l = true) : SparesBus c l := by
  cases l with
  | env s => exact absurd h Bool.false_ne_true
  | arrive q => exact trivial
  | run i x => exact trivial

/-- Some task that rests, has the given request and passes a check. -/
def someTask (q : ServerRequest) (P : Listening → Bool) (d : ServerPool MemoryStorage) : Bool :=
  d.threads.any fun t => Rests.check t && decide (t.req.getRight? = some q) && P (heardBy t)

theorem exists_of_someTask {q : ServerRequest} {P : Listening → Bool}
    {d : ServerPool MemoryStorage} (h : someTask q P d = true) :
    ∃ t ∈ d.threads, t.req = .inr q ∧ Rests t ∧ P (heardBy t) = true := by
  obtain ⟨t, ht, hcheck⟩ := List.any_eq_true.1 h
  rw [Bool.and_eq_true, Bool.and_eq_true, decide_eq_true_iff] at hcheck
  exact ⟨t, ht, Sum.getRight?_eq_some_iff.1 hcheck.1.2, .of_check hcheck.1.1, hcheck.2⟩

theorem events_logged_registration : ∃ d : ServerPool MemoryStorage, ∃ t ∈ d.threads,
    ∃ x, (heardBy t).stored.map (·.eventType) = ["node.registered"] ∧
      @Logs .sample false 5 d.shared.2 t x := by
  obtain ⟨d, _, hrun, -, hd⟩ := System.steps_of_runs
    (@server .sample .sample streamingConfig .sample ⟨0, 1⟩ MemoryStorage _)
    ⟨(.init .new, .new), []⟩ insideOnly_sound registrationStreamed []
    (fun d _ => someTask (.persistEvents false 5)
      (fun st => decide (st.stored.map (·.eventType) = ["node.registered"])) d) (by decide +kernel)
  obtain ⟨t, ht, hreq, hrests, hstored⟩ := exists_of_someTask hd
  obtain ⟨x, h⟩ := @events_logged .sample streamingConfig .sample .sample ⟨0, 1⟩ _ _ _ d hrun t ht
    false 5 hreq hrests
  exact ⟨d, t, ht, x, of_decide_eq_true hstored, h⟩

end PaciNet

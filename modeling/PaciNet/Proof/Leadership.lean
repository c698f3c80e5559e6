import Mathlib.Data.List.Induction
import PaciNet.Lib.Steps
import PaciNet.Proof.LeaseExclusion
import PaciNet.Server.Leader

/-!
# Who leads

A controller's `is_leader` flag is a copy of the lease, made at its last renewal tick that did not
fail. The copy is not looked at again when the lease runs out.

**At most one controller takes itself for the leader** while the clock lets no lease run out that a
flag has been set for, or is about to be set for. And the flag that gates a controller's writes is
not this one: `main` makes one flag for the configuration and the election another, and nothing
copies one to the other (`configIsLeader_eq_iff`).
-/

set_option autoImplicit false

namespace PaciNet

open Lib

/-! ## At most one leader -/

/-- The flag is set and the lease names the controller and has not run out. -/
def Cluster.Leads (s : Cluster) (c : HaController) : Prop :=
  ∃ row, s.lease.get? 1 = some row ∧ row.controllerId = c.id ∧ s.clock ≤ row.leaseExpiresAt

/-- Every controller has just been started. -/
def Cluster.Started (s : Cluster) : Prop :=
  ∀ c ∈ s.controllers.rows, ∃ clusterId leaseDuration, c = .start clusterId leaseDuration

/-- **A flag is set only while the lease is its controller's**, so at most one is. -/
def AtMostOneLeader (C : Cluster → ClusterLabel → Prop) : Prop :=
  ∀ s₀ s, Cluster.Started s₀ → Steps Cluster.step C s₀ s → ∀ c ∈ s.controllers.rows,
    c.electionIsLeader → s.Leads c ∧ ∀ c' ∈ s.controllers.rows, c'.electionIsLeader → c' = c

/-- A renewal tick of the controller was granted the lease, and its flag has not been set yet. -/
def HaController.granted (c : HaController) : Prop := c.tick = some (.ok true)

instance (c : HaController) : Decidable c.granted := inferInstanceAs (Decidable (_ = _))

/-- The clock stops at the end of a lease whose holder has its flag set or is about to set it, and
    no lease ends before it begins. -/
def Timely (s : Cluster) : ClusterLabel → Prop
  | .advance now => ∀ c ∈ s.controllers.rows, c.electionIsLeader ∨ c.granted →
      ∀ row ∈ s.lease.get? 1, row.controllerId = c.id → now ≤ row.leaseExpiresAt
  | .acquire id _ => ∀ c ∈ s.controllers.get? id, 0 ≤ asI64 c.leader.leaseDuration
  -- a flag may be set at any time
  | .settle _ => True

theorem Cluster.leads_iff {s : Cluster} {c : HaController} :
    s.Leads c ↔ Lease.HeldUntil s.lease.lease c.id s.clock := by
  constructor
  · rintro ⟨row, hrow, hid, hclock⟩
    refine ⟨row.leaseExpiresAt, ?_, hclock⟩
    rw [LeaseTable.lease, hrow, ← hid]
    rfl
  · rintro ⟨expiry, hlease, hclock⟩
    obtain ⟨row, hrow, heq⟩ := Option.map_eq_some_iff.1 hlease
    obtain ⟨hid, hexpiry⟩ := Lease.mk.inj heq
    exact ⟨row, hrow, hid, hexpiry ▸ hclock⟩

/-- A flag that is set after a tick was set before, or the tick was granted the lease; the tick is
    over. -/
theorem HaController.settle_electionIsLeader {c : HaController}
    (h : c.settle.electionIsLeader ∨ c.settle.granted) : c.electionIsLeader ∨ c.granted := by
  unfold settle at h
  split at h
  · exact h
  · rename_i result htick
    rcases h with hflag | hgranted
    · cases result with
      | error e => exact .inl hflag
      | ok acquired =>
        cases acquired with
        | true => exact .inr htick
        | false =>
          -- a flag that was cleared is not set
          refine absurd hflag ?_
          simp only [electionIsLeader, LeaderElection.settle, Flags.load, Flags.store,
            List.getD_eq_getElem?_getD, List.getElem?_set_self']
          cases c.flags[c.leader.isLeader]? <;> simp
    · cases hgranted

/-- The invariant: every flag that is set, or about to be set, is true. -/
def Cluster.FlagsTrue (s : Cluster) : Prop :=
  ∀ c ∈ s.controllers.rows, c.electionIsLeader ∨ c.granted → s.Leads c

theorem LeaderElection.acquire_step {leader : LeaderElection} {now : DateTime}
    {failure : Option PaciNetError} {t t' : LeaseTable} {r : StorageResult Bool}
    (h : leader.acquire now failure t = some (r, t')) :
    Lease.Step t.lease ⟨leader.controllerId, now, now + asI64 leader.leaseDuration * second⟩
      (isGranted r) t'.lease := by
  cases failure with
  | some e =>
    cases h
    exact .refused
  | none => exact tryAcquireLease_step h

/-- The clock goes on. -/
theorem Cluster.FlagsTrue.advance {s : Cluster} {now : DateTime} (h : s.FlagsTrue)
    (hl : Timely s (.advance now)) : Cluster.FlagsTrue { s with clock := now } := by
  intro c hc hflag
  obtain ⟨row, hrow, hid, -⟩ := h c hc hflag
  exact ⟨row, hrow, hid, hl c hc hflag row hrow hid⟩

/-- A lease that is granted runs from now on. -/
theorem LeaderElection.leads_of_granted {leader : LeaderElection} {now : DateTime}
    {failure : Option PaciNetError} {t t' : LeaseTable}
    (h : leader.acquire now failure t = some (.ok true, t'))
    (hduration : 0 ≤ asI64 leader.leaseDuration) :
    Lease.HeldUntil t'.lease leader.controllerId now := by
  have hsecond : (0 : Int) ≤ second := by decide
  refine ⟨_, (LeaderElection.acquire_step h).of_granted, ?_⟩
  exact Int.le_add_of_nonneg_right (Int.mul_nonneg hduration hsecond)

/-- The storage call of a tick: the controller that makes it may be granted the lease, and nobody
    else loses one. -/
theorem Cluster.FlagsTrue.acquire {s : Cluster} {id : String} {failure : Option PaciNetError}
    {a : HaController} {result : StorageResult Bool} {lease : LeaseTable} (h : s.FlagsTrue)
    (ha : s.controllers.get? id = some a) (hduration : 0 ≤ asI64 a.leader.leaseDuration)
    (hacquire : a.leader.acquire s.clock failure s.lease = some (result, lease)) :
    Cluster.FlagsTrue { s with
      lease := lease
      controllers := s.controllers.modify id (fun c => { c with tick := some result })
        fun _ => rfl } := by
  have hkept {c : HaController} (hc : c ∈ s.controllers.rows)
      (hflag : c.electionIsLeader ∨ c.granted) : Lease.HeldUntil lease.lease c.id s.clock := by
    have hheld := Cluster.leads_iff.1 (h c hc hflag)
    refine hheld.step (LeaderElection.acquire_step hacquire) le_rfl fun _ _ => ?_
    have hsecond : (0 : Int) ≤ second := by decide
    exact Int.le_add_of_nonneg_right (Int.mul_nonneg hduration hsecond)
  intro c hc hflag
  refine Cluster.leads_iff.2 ?_
  obtain ⟨c₀, hc₀, rfl⟩ := List.mem_map.1 hc
  by_cases hid : c₀.id = id
  · have hca : c₀ = a := Option.some.inj ((Table.get?_eq_some.2 ⟨hc₀, hid⟩).symm.trans ha)
    subst hca
    rw [if_pos hid] at hflag ⊢
    rcases hflag with hflag | hgranted
    · exact hkept (c := c₀) hc₀ (.inl hflag)
    · -- the flag is still to be set, for the lease that has just been granted
      obtain rfl : result = .ok true := Option.some.inj hgranted
      exact LeaderElection.leads_of_granted hacquire hduration
  · rw [if_neg hid] at hflag ⊢
    exact hkept hc₀ hflag

/-- The end of a tick. -/
theorem Cluster.FlagsTrue.settle {s : Cluster} {id : String} (h : s.FlagsTrue) :
    Cluster.FlagsTrue { s with
      controllers := s.controllers.modify id HaController.settle HaController.settle_id } := by
  intro c hc hflag
  obtain ⟨c₀, hc₀, rfl⟩ := List.mem_map.1 hc
  by_cases hid : c₀.id = id
  · rw [if_pos hid] at hflag ⊢
    obtain ⟨row, hrow, hname, hclock⟩ := h c₀ hc₀ (HaController.settle_electionIsLeader hflag)
    exact ⟨row, hrow, hname.trans (HaController.settle_id c₀).symm, hclock⟩
  · rw [if_neg hid] at hflag ⊢
    exact h c₀ hc₀ hflag

/-- **Every step keeps the flags true**, under the condition. -/
theorem Cluster.FlagsTrue.step {s s' : Cluster} {l : ClusterLabel} (h : s.FlagsTrue)
    (hl : Timely s l) (hs : s.step l = some s') : s'.FlagsTrue := by
  cases l with
  | advance now =>
    simp only [Cluster.step, Option.ite_none_right_eq_some] at hs
    obtain ⟨-, hs⟩ := hs
    cases hs
    exact h.advance hl
  | acquire id failure =>
    simp only [Cluster.step] at hs
    split at hs
    · cases hs
    · rename_i a ha
      split at hs
      · cases hs
      · split at hs
        · cases hs
          exact h
        · rename_i result lease hacquire
          cases hs
          exact h.acquire ha (hl a ha) hacquire
  | settle id =>
    simp only [Cluster.step] at hs
    split at hs
    · cases hs
    · cases hs
      exact h.settle

/-- At most one controller's flag is true. -/
theorem Cluster.FlagsTrue.unique {s : Cluster} (h : s.FlagsTrue) {c c' : HaController}
    (hc : c ∈ s.controllers.rows) (hc' : c' ∈ s.controllers.rows) (hflag : c.electionIsLeader)
    (hflag' : c'.electionIsLeader) : c' = c := by
  obtain ⟨row, hrow, hid, -⟩ := h c hc (.inl hflag)
  obtain ⟨row', hrow', hid', -⟩ := h c' hc' (.inl hflag')
  obtain rfl := Option.some.inj (hrow.symm.trans hrow')
  exact List.inj_on_of_nodup_map s.controllers.nodup hc' hc (hid'.symm.trans hid)

/-- **In every run that is timely, at most one controller's flag is set**, and its lease is its
    own. -/
theorem atMostOneLeader {s₀ s : Cluster} (hstarted : s₀.Started)
    (hrun : Steps Cluster.step Timely s₀ s) {c : HaController} (hc : c ∈ s.controllers.rows)
    (hflag : c.electionIsLeader) :
    s.Leads c ∧ ∀ c' ∈ s.controllers.rows, c'.electionIsLeader → c' = c := by
  have htrue : s.FlagsTrue := by
    refine Steps.invariant (fun s l s' hl hs h => h.step hl hs) hrun fun c hc hflag => ?_
    -- no flag is set at first, and no tick has begun
    obtain ⟨clusterId, leaseDuration, rfl⟩ := hstarted c hc
    refine absurd hflag ?_
    simp [HaController.start, HaController.electionIsLeader, HaController.granted,
      LeaderElection.new, Flags.alloc, Flags.store, Flags.load]
  exact ⟨htrue c hc (.inl hflag), fun c' hc' hflag' => htrue.unique hc hc' hflag hflag'⟩

instance (s : Cluster) (c : HaController) : Decidable (s.Leads c) :=
  inferInstanceAs (Decidable (∃ row ∈ s.lease.get? 1, _))

instance (s : Cluster) (l : ClusterLabel) : Decidable (Timely s l) :=
  match l with
  | .advance _ => inferInstanceAs (Decidable (∀ c ∈ s.controllers.rows, _))
  | .acquire id _ => inferInstanceAs (Decidable (∀ c ∈ s.controllers.get? id, _))
  | .settle _ => .isTrue trivial

/-- Two controllers that have just been started, with leases of 30 seconds. -/
def Cluster.pair : Cluster where
  clock := 0
  lease := .empty
  controllers := (Table.empty.insert (.start "a" 30)).insert (.start "b" 30)

theorem Cluster.pair_started : Cluster.pair.Started := by
  intro c hc
  rcases Table.mem_rows_insert.1 hc with rfl | ⟨hc, -⟩
  · exact ⟨"b", 30, rfl⟩
  · rcases Table.mem_rows_insert.1 hc with rfl | ⟨hc, -⟩
    · exact ⟨"a", 30, rfl⟩
    · exact absurd hc List.not_mem_nil

/-- A tick of a controller with nothing in between. -/
def ClusterLabel.tick (id : String) : List ClusterLabel := [.acquire id none, .settle id]

/-- "a" acquires the lease, sets its flag late and renews it in time, and "b" stays a standby. -/
theorem atMostOneLeader_renewed : ∃ s, Steps Cluster.step Timely .pair s ∧
    ∃ c ∈ s.controllers.rows, c.electionIsLeader ∧ s.Leads c ∧
      ∀ c' ∈ s.controllers.rows, c'.electionIsLeader → c' = c := by
  have hrun : (runSteps Cluster.step Timely (.acquire "a" none :: .advance (10 * second) ::
      .settle "a" :: ClusterLabel.tick "b" ++ .advance (15 * second) :: ClusterLabel.tick "a" ++
        .advance (40 * second) :: ClusterLabel.tick "b") .pair).any
      fun s => s.controllers.rows.any fun c => c.electionIsLeader := by decide +kernel
  obtain ⟨s, hs, hany⟩ := (Option.any_eq_true _ _).1 hrun
  obtain ⟨c, hc, hflag⟩ := List.any_eq_true.1 hany
  have hsteps := steps_of_runSteps hs
  exact ⟨s, hsteps, c, hc, hflag,
    atMostOneLeader Cluster.pair_started hsteps hc hflag⟩

/-- "a" acquires the lease and its next tick is late: when "b" takes over, both flags are set. -/
theorem not_atMostOneLeader : ¬ AtMostOneLeader fun _ _ => True := by
  intro h
  have hrun : (runSteps Cluster.step (fun _ _ => True) (ClusterLabel.tick "a" ++
      .advance (31 * second) :: ClusterLabel.tick "b") .pair).any
      fun s => (s.controllers.get? "a").any (·.electionIsLeader) &&
        (s.controllers.get? "b").any (·.electionIsLeader) := by decide +kernel
  obtain ⟨s, hs, hboth⟩ := (Option.any_eq_true _ _).1 hrun
  obtain ⟨ha, hb⟩ := Bool.and_eq_true_iff.1 hboth
  obtain ⟨a, ha, haflag⟩ := (Option.any_eq_true _ _).1 ha
  obtain ⟨b, hb, hbflag⟩ := (Option.any_eq_true _ _).1 hb
  obtain ⟨hamem, haid⟩ := Table.get?_eq_some.1 ha
  obtain ⟨hbmem, hbid⟩ := Table.get?_eq_some.1 hb
  have hsame : b = a :=
    (h Cluster.pair s Cluster.pair_started (steps_of_runSteps hs) a hamem haflag).2 b hbmem hbflag
  exact absurd (haid.symm.trans (congrArg HaController.id hsame.symm |>.trans hbid)) (by decide)

/-! ## The flag that counts -/

/-- What one renewal tick meets: the clock, the table of leases as the other controllers left it,
    and a failure of the database. -/
structure TickInput where
  now : DateTime
  lease : LeaseTable
  failure : Option PaciNetError

/-- One renewal tick, from its storage call to the flag. -/
def HaController.runTick (c : HaController) (x : TickInput) : HaController :=
  { c with tick := (c.leader.acquire x.now x.failure x.lease).map Prod.fst }.settle

namespace TickInput

variable (clusterId : String) (leaseDuration : Nat) (x : TickInput)

/-- The end of the lease that is asked for, if there is such an instant. -/
def expiry : Option DateTime := (durationSeconds (asI64 leaseDuration)).bind (addDuration x.now)

/-- The call is answered, and nobody else holds the lease. -/
def Grants : Prop :=
  x.failure = none ∧ (x.expiry leaseDuration).isSome ∧
    ∀ row ∈ x.lease.get? 1, row.controllerId = clusterId ∨
      isRfc3339 row.leaseExpiresAt ∧ row.leaseExpiresAt < x.now

/-- The call is not answered: the database fails, there is no such instant, or the end of the
    other controller's lease does not read back. -/
def Fails : Prop :=
  x.failure ≠ none ∨ x.expiry leaseDuration = none ∨
    ∃ row ∈ x.lease.get? 1, row.controllerId ≠ clusterId ∧ isRfc3339 row.leaseExpiresAt = false

end TickInput

/-- The last renewal tick that was answered was granted the lease. -/
def LastGranted (clusterId : String) (leaseDuration : Nat) (ticks : List TickInput) : Prop :=
  ∃ before x after, ticks = before ++ x :: after ∧ x.Grants clusterId leaseDuration ∧
    ∀ y ∈ after, y.Fails clusterId leaseDuration

/-- The controller between its renewal ticks: the election's flag is some value, and the
    configuration's is what `main` set it to. -/
def HaController.running (clusterId : String) (leaseDuration : Nat) (leads : Bool) : HaController :=
  ⟨[false, leads], 0, ⟨clusterId, leaseDuration, 1⟩, none⟩

section Ticks

variable (clusterId : String) (leaseDuration : Nat)

/-- What the storage call of a tick returns. -/
theorem acquire_cases (x : TickInput) (flag : FlagRef) :
    let result := ((LeaderElection.mk clusterId leaseDuration flag).acquire x.now x.failure
      x.lease).map Prod.fst
    (x.Grants clusterId leaseDuration ∧ result = some (.ok true)) ∨
      (x.Fails clusterId leaseDuration ∧ ¬ x.Grants clusterId leaseDuration ∧
        (result = none ∨ ∃ e, result = some (.error e))) ∨
      (¬ x.Fails clusterId leaseDuration ∧ ¬ x.Grants clusterId leaseDuration ∧
        result = some (.ok false)) := by
  obtain ⟨now, lease, failure⟩ := x
  intro result
  cases failure with
  | some e =>
    refine .inr (.inl ⟨.inl (by simp), fun h => absurd h.1 (by simp), .inr ⟨e, rfl⟩⟩)
  | none =>
    have hresult : result = (tryAcquireLease now clusterId leaseDuration lease).map Prod.fst := rfl
    simp only [tryAcquireLease, Option.bind_eq_bind, ← Option.bind_assoc] at hresult
    simp only [TickInput.Grants, TickInput.Fails, TickInput.expiry, ne_eq, not_true_eq_false,
      false_or, true_and]
    cases hexpiry : (durationSeconds (asI64 leaseDuration)).bind (addDuration now) with
    | none =>
      rw [hexpiry] at hresult
      exact .inr (.inl ⟨.inl rfl, fun h => absurd h.1 (by simp), .inl hresult⟩)
    | some expiresAt =>
      rw [hexpiry, Option.bind_some] at hresult
      simp only [reduceCtorEq, false_or, Option.isSome_some, true_and]
      cases hrow : lease.get? 1 with
      | none =>
        rw [hrow] at hresult
        exact .inl ⟨fun row h => absurd h (by simp), hresult⟩
      | some existing =>
        simp only [hrow] at hresult
        simp only [Option.mem_def, Option.some.injEq, forall_eq', exists_eq_left']
        by_cases hid : existing.controllerId = clusterId
        · rw [if_pos hid] at hresult
          exact .inl ⟨.inl hid, hresult⟩
        · rw [if_neg hid] at hresult
          by_cases hread : isRfc3339 existing.leaseExpiresAt = true
          · simp only [parseFromRfc3339, hread, if_pos] at hresult
            by_cases hlate : now > existing.leaseExpiresAt
            · rw [if_pos hlate] at hresult
              exact .inl ⟨.inr ⟨hread, hlate⟩, hresult⟩
            · rw [if_neg hlate] at hresult
              refine .inr (.inr ⟨fun h => ?_, fun h => ?_, hresult⟩)
              · exact absurd h.2 (by simp [hread])
              · exact h.elim hid fun h => hlate h.2
          · simp only [parseFromRfc3339, hread] at hresult
            refine .inr (.inl ⟨⟨hid, by simpa using hread⟩, fun h => ?_, .inr ⟨_, hresult⟩⟩)
            exact h.elim hid fun h => hread h.1

/-- What a tick makes of the flags: the election's follows the answer, the configuration's stays. -/
theorem runTick_running (x : TickInput) (leads : Bool) :
    ∃ leads', (HaController.running clusterId leaseDuration leads).runTick x =
        .running clusterId leaseDuration leads' ∧
      (leads' = true ↔ x.Grants clusterId leaseDuration ∨
        x.Fails clusterId leaseDuration ∧ leads = true) := by
  have hcases := acquire_cases clusterId leaseDuration x 1
  simp only [HaController.runTick, HaController.running] at hcases ⊢
  rcases hcases with ⟨hgrants, hresult⟩ | ⟨hfails, hgrants, hresult | ⟨e, hresult⟩⟩ |
    ⟨hfails, hgrants, hresult⟩
  · rw [hresult]
    exact ⟨true, rfl, by simp [hgrants]⟩
  · rw [hresult]
    exact ⟨leads, rfl, by simp [hgrants, hfails]⟩
  · rw [hresult]
    exact ⟨leads, rfl, by simp [hgrants, hfails]⟩
  · rw [hresult]
    exact ⟨false, rfl, by simp [hgrants, hfails]⟩

/-- The last answered tick of a run with one tick more. -/
theorem lastGranted_append {ticks : List TickInput} {x : TickInput} :
    LastGranted clusterId leaseDuration (ticks ++ [x]) ↔ x.Grants clusterId leaseDuration ∨
      x.Fails clusterId leaseDuration ∧ LastGranted clusterId leaseDuration ticks := by
  constructor
  · rintro ⟨before, y, after, heq, hgrants, hfails⟩
    rcases List.eq_nil_or_concat after with rfl | ⟨rest, z, rfl⟩
    · obtain ⟨-, hxy⟩ := List.append_inj' heq rfl
      exact .inl ((List.singleton_inj.1 hxy) ▸ hgrants)
    · simp only [List.concat_eq_append] at heq hfails
      rw [← List.cons_append, ← List.append_assoc] at heq
      obtain ⟨hticks, hxz⟩ := List.append_inj' heq rfl
      obtain rfl := List.singleton_inj.1 hxz
      exact .inr ⟨hfails x (by simp), before, y, rest, hticks, hgrants,
        fun w hw => hfails w (by simp [hw])⟩
  · rintro (hgrants | ⟨hfail, before, y, after, rfl, hgrants, hfails⟩)
    · exact ⟨ticks, x, [], rfl, hgrants, fun _ h => absurd h List.not_mem_nil⟩
    · refine ⟨before, y, after ++ [x], by simp, hgrants, fun w hw => ?_⟩
      rcases List.mem_append.1 hw with hw | hw
      · exact hfails w hw
      · exact List.mem_singleton.1 hw ▸ hfail

/-- The election's flag says whether the last answered tick was granted the lease, and the
    configuration's flag is never set. -/
theorem runTicks (ticks : List TickInput) :
    ∃ leads, ticks.foldl HaController.runTick (.start clusterId leaseDuration) =
        .running clusterId leaseDuration leads ∧
      (leads = true ↔ LastGranted clusterId leaseDuration ticks) := by
  induction ticks using List.reverseRecOn with
  | nil =>
    refine ⟨false, rfl, by simp [LastGranted]⟩
  | append_singleton ticks x ih =>
    obtain ⟨leads, hrun, hleads⟩ := ih
    obtain ⟨leads', hstep, hleads'⟩ :=
      runTick_running clusterId leaseDuration x leads
    refine ⟨leads', ?_, ?_⟩
    · rw [List.foldl_append, hrun]
      exact hstep
    · rw [hleads', lastGranted_append, hleads]

end Ticks

/-- **The configuration's flag agrees with the election's exactly when the last renewal tick that
    was answered was refused**, or none was: after every run of ticks of a controller started in
    HA mode. -/
theorem configIsLeader_eq_iff (clusterId : String) (leaseDuration : Nat) (ticks : List TickInput) :
    (ticks.foldl HaController.runTick (.start clusterId leaseDuration)).configIsLeader =
        (ticks.foldl HaController.runTick (.start clusterId leaseDuration)).electionIsLeader ↔
      ¬ LastGranted clusterId leaseDuration ticks := by
  obtain ⟨leads, hrun, hleads⟩ :=
    runTicks clusterId leaseDuration ticks
  rw [hrun, ← hleads]
  show false = leads ↔ ¬ leads = true
  cases leads <;> simp

/-- A single controller acquires the lease, and goes on as a standby. -/
theorem not_configIsLeader_eq : ¬ ∀ clusterId leaseDuration (ticks : List TickInput),
    (ticks.foldl HaController.runTick (.start clusterId leaseDuration)).configIsLeader =
      (ticks.foldl HaController.runTick (.start clusterId leaseDuration)).electionIsLeader := by
  intro h
  exact absurd (h "a" 30 [⟨0, .empty, none⟩]) (by decide)

end PaciNet

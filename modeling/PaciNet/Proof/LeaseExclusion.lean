import Mathlib.Data.Int.Order.Basic
import PaciNet.Lib.Lease
import PaciNet.Storage.Sqlite

/-!
# The lease keeps controllers apart

Runs of `try_acquire_lease` by any number of controllers on one database, as they are serialized
by `BEGIN IMMEDIATE`, from a database with the empty table. `try_acquire_lease` is a step of
`Lib.Lease` (`tryAcquireLease_step`), so what is proved there of leases holds here.

**While a lease has not run out, it is granted to nobody else.** A lease runs out when its
holder's last renewal says so: with a shorter duration the holder can give it up early, and a
number of seconds that is negative as an `i64` is over when it begins.
-/

set_option autoImplicit false

namespace PaciNet

open Lib

/-- A call of `try_acquire_lease`. -/
structure LeaseCall where
  controllerId : String
  now : DateTime
  durationSecs : Nat
  deriving DecidableEq

/-- The result is `Ok(true)`. -/
def isGranted : StorageResult Bool → Bool
  | .ok granted => granted
  | .error _ => false

namespace LeaseCall

/-- What the call returns, and the table it leaves. -/
def run (call : LeaseCall) (t : LeaseTable) : Option (StorageResult Bool × LeaseTable) :=
  tryAcquireLease call.now call.controllerId call.durationSecs t

/-- The call returned `Ok(true)`. -/
def grantedIn (call : LeaseCall) (t : LeaseTable) : Bool :=
  (call.run t).any fun r => isGranted r.1

/-- The table after the call; one that panics leaves it alone. -/
def after (call : LeaseCall) (t : LeaseTable) : LeaseTable :=
  ((call.run t).map Prod.snd).getD t

/-- The end of the lease the call asks for. -/
def until_ (call : LeaseCall) : DateTime := call.now + asI64 call.durationSecs * second

/-- The call as one for a lease. -/
def ask (call : LeaseCall) : Lease.Ask String DateTime :=
  ⟨call.controllerId, call.now, call.until_⟩

end LeaseCall

/-- The table after the calls. -/
def leaseTable (calls : List LeaseCall) : LeaseTable :=
  calls.foldl (fun t call => call.after t) .empty

/-- The calls as asks for the lease, with their answers. -/
def leaseTrace : LeaseTable → List LeaseCall → List (Lease.Ask String DateTime × Bool)
  | _, [] => []
  | t, call :: calls => (call.ask, call.grantedIn t) :: leaseTrace (call.after t) calls

/-- The lease a table holds. -/
def LeaseTable.lease (t : LeaseTable) : Option (Lease String DateTime) :=
  (t.get? 1).map fun row => ⟨row.controllerId, row.leaseExpiresAt⟩

/-- Nobody but its first row is in the table. -/
def LeaseTable.Single (t : LeaseTable) : Prop := ∀ row ∈ t.rows, row.id = 1

/-! ## One call -/

theorem expiry_eq {now expiresAt : DateTime} {durationSecs : Nat}
    (h : (durationSeconds (asI64 durationSecs)).bind (addDuration now) = some expiresAt) :
    expiresAt = now + asI64 durationSecs * second := by
  obtain ⟨duration, hduration, hadd⟩ := Option.bind_eq_some_iff.1 h
  simp only [durationSeconds, Option.ite_none_right_eq_some] at hduration
  simp only [addDuration, Option.ite_none_right_eq_some] at hadd
  rw [← Option.some.inj hadd.2, ← Option.some.inj hduration.2]

theorem LeaseTable.lease_update {t : LeaseTable} {row : LeaderLease}
    {f : LeaderLease → LeaderLease} {hf : ∀ row, (f row).id = row.id} (h : t.get? 1 = some row) :
    (t.update f hf).lease = some ⟨(f row).controllerId, (f row).leaseExpiresAt⟩ := by
  simp [lease, update, h]

/-- **`try_acquire_lease` is a step of the lease.** -/
theorem tryAcquireLease_step {now : DateTime} {controllerId : String} {durationSecs : Nat}
    {t t' : LeaseTable} {r : StorageResult Bool}
    (h : tryAcquireLease now controllerId durationSecs t = some (r, t')) :
    Lease.Step t.lease ⟨controllerId, now, now + asI64 durationSecs * second⟩
      (isGranted r) t'.lease := by
  simp only [tryAcquireLease, Option.bind_eq_bind, ← Option.bind_assoc] at h
  obtain ⟨expiresAt, hexpires, h⟩ := Option.bind_eq_some_iff.1 h
  rw [← expiry_eq hexpires]
  split at h
  · rename_i hnone
    cases h
    have hopen : Lease.Open t.lease controllerId now := by
      intro x hx
      rw [LeaseTable.lease, hnone] at hx
      cases hx
    have hlease : LeaseTable.lease (t.insert ⟨1, controllerId, expiresAt, now⟩) =
        some ⟨controllerId, expiresAt⟩ := by
      rw [LeaseTable.lease, Table.get?_insert_self t ⟨1, controllerId, expiresAt, now⟩]
      rfl
    rw [hlease]
    exact .granted hopen
  · rename_i existing hsome
    have hmem : ∀ x ∈ t.lease, x = ⟨existing.controllerId, existing.leaseExpiresAt⟩ := by
      intro x hx
      rw [LeaseTable.lease, hsome] at hx
      exact (Option.some.inj hx).symm
    split at h
    · -- a renewal
      rename_i hid
      cases h
      rw [LeaseTable.lease_update hsome, hid]
      exact .granted fun x hx => .inl (hmem x hx ▸ hid)
    · split at h
      · cases h
        exact .refused
      · rename_i leaseExpires hparse
        split at h
        · -- a takeover
          rename_i hlate
          cases h
          rw [LeaseTable.lease_update hsome]
          refine .granted fun x hx => .inr ?_
          simp only [parseFromRfc3339] at hparse
          split at hparse
          · cases hparse
            exact hmem x hx ▸ hlate
          · cases hparse
        · cases h
          exact .refused

/-- The table has the row of the lease, and no other. -/
theorem tryAcquireLease_single {now : DateTime} {controllerId : String} {durationSecs : Nat}
    {t t' : LeaseTable} {r : StorageResult Bool}
    (h : tryAcquireLease now controllerId durationSecs t = some (r, t')) (hsingle : t.Single) :
    t'.Single ∧ t'.lease.isSome := by
  have hupdate : ∀ {row : LeaderLease} {f : LeaderLease → LeaderLease}
      {hf : ∀ row, (f row).id = row.id}, t.get? 1 = some row →
      (t.update f hf).Single ∧ (t.update f hf).lease.isSome := by
    intro row f hf hrow
    refine ⟨fun v hv => ?_, by rw [LeaseTable.lease_update hrow]; rfl⟩
    obtain ⟨u, hu, rfl⟩ := List.mem_map.1 hv
    split
    · exact (hf u).trans (hsingle u hu)
    · exact hsingle u hu
  simp only [tryAcquireLease, Option.bind_eq_bind, ← Option.bind_assoc] at h
  obtain ⟨expiresAt, -, h⟩ := Option.bind_eq_some_iff.1 h
  split at h
  · cases h
    refine ⟨fun v hv => ?_, ?_⟩
    · rcases Table.mem_rows_insert.1 hv with rfl | ⟨hv, -⟩
      · rfl
      · exact hsingle v hv
    · rw [LeaseTable.lease, Table.get?_insert_self t ⟨1, controllerId, expiresAt, now⟩]
      rfl
  · rename_i existing hsome
    have hsame : t.Single ∧ t.lease.isSome := ⟨hsingle, by rw [LeaseTable.lease, hsome]; rfl⟩
    split at h
    · cases h
      exact hupdate hsome
    · split at h
      · cases h
        exact hsame
      · split at h
        · cases h
          exact hupdate hsome
        · cases h
          exact hsame

/-! ## All calls -/

theorem LeaseCall.step (call : LeaseCall) (t : LeaseTable) :
    Lease.Step t.lease call.ask (call.grantedIn t) (call.after t).lease := by
  unfold grantedIn after
  cases hrun : call.run t with
  | none => exact .refused
  | some r => exact tryAcquireLease_step hrun

theorem leaseTrace_run (calls : List LeaseCall) (t : LeaseTable) :
    Lease.Run t.lease (leaseTrace t calls) (calls.foldl (fun t call => call.after t) t).lease := by
  induction calls generalizing t with
  | nil => exact .nil _
  | cons call calls ih =>
    rw [leaseTrace, List.foldl_cons]
    exact .cons (call.step t) (ih (call.after t))

theorem mem_leaseTrace {calls : List LeaseCall} {t : LeaseTable}
    {x : Lease.Ask String DateTime × Bool} (h : x ∈ leaseTrace t calls) :
    ∃ call ∈ calls, x.1 = call.ask := by
  induction calls generalizing t with
  | nil => exact absurd h List.not_mem_nil
  | cons call calls ih =>
    rcases List.mem_cons.1 h with rfl | h
    · exact ⟨call, List.mem_cons_self .., rfl⟩
    · obtain ⟨c, hc, hx⟩ := ih h
      exact ⟨c, List.mem_cons_of_mem _ hc, hx⟩

theorem leaseTable_append (calls calls' : List LeaseCall) :
    leaseTable (calls ++ calls') =
      calls'.foldl (fun t call => call.after t) (leaseTable calls) := List.foldl_append

theorem leaseTable_single (calls : List LeaseCall) : (leaseTable calls).Single := by
  refine List.foldlRecOn calls _ (motive := LeaseTable.Single) (fun v hv => ?_) fun t ht call _ => ?_
  · exact absurd hv List.not_mem_nil
  · unfold LeaseCall.after
    cases hrun : call.run t with
    | none => exact ht
    | some r => exact (tryAcquireLease_single hrun ht).1

/-- A single row is all there is. -/
theorem LeaseTable.Single.rows_eq {t : LeaseTable} {row : LeaderLease} (h : t.Single)
    (hrow : t.get? 1 = some row) : t.rows = [row] := by
  obtain ⟨hmem, -⟩ := Table.get?_eq_some.1 hrow
  have hall : ∀ v ∈ t.rows, v = row := fun v hv =>
    List.inj_on_of_nodup_map t.nodup hv hmem ((h v hv).trans (h row hmem).symm)
  have hnodup : t.rows.Nodup := t.nodup.of_map _
  exact List.perm_singleton.1 ((List.perm_ext_iff_of_nodup hnodup (by simp)).2 fun v =>
    ⟨fun hv => List.mem_singleton.2 (hall v hv), fun hv => List.mem_singleton.1 hv ▸ hmem⟩)

/-- After a call that returns, the table has one row, and it names the controller whose call
    returned `Ok(true)` last. -/
def RowNamesHolder : Prop :=
  ∀ calls call, (call.run (leaseTable calls)).isSome →
    ∃ row, (leaseTable (calls ++ [call])).rows = [row] ∧
      Lease.lastGranted (leaseTrace .empty (calls ++ [call])) = some row.controllerId

theorem rowNamesHolder : RowNamesHolder := by
  intro calls call h
  obtain ⟨r, hrun⟩ := Option.isSome_iff_exists.1 h
  have hafter : leaseTable (calls ++ [call]) = r.2 := by
    rw [leaseTable_append]
    simp [LeaseCall.after, hrun]
  obtain ⟨hsingle, hlease⟩ := tryAcquireLease_single hrun (leaseTable_single calls)
  obtain ⟨lease, hlease⟩ := Option.isSome_iff_exists.1 hlease
  obtain ⟨row, hrow, rfl⟩ := Option.map_eq_some_iff.1 hlease
  refine ⟨row, hafter ▸ hsingle.rows_eq hrow, ?_⟩
  -- at first nobody holds the lease, so who holds it was granted it
  have hholder := (leaseTrace_run (calls ++ [call]) .empty).holder
  have hend : (leaseTable (calls ++ [call])).lease = some ⟨row.controllerId, row.leaseExpiresAt⟩ := by
    rw [hafter]
    exact hlease
  have hempty : LeaseTable.lease .empty = none := rfl
  rw [hempty, Option.map_none, Option.or_none] at hholder
  rw [← hholder]
  exact congrArg (Option.map Lease.holder) hend

/-! ## Exclusion -/

/-- A call that was granted is followed by others, and then by one of somebody else. -/
structure Contended (before : List LeaseCall) (a : LeaseCall) (between : List LeaseCall)
    (b : LeaseCall) : Prop where
  clock : (before ++ a :: between ++ [b]).Pairwise fun c d => c.now ≤ d.now
  granted : a.grantedIn (leaseTable before)
  other : b.controllerId ≠ a.controllerId
  within : b.now ≤ a.now + a.durationSecs * second

/-- **A lease is granted to nobody else while it has not run out**, and the table always has one
    row, that of the controller whose call was granted last. Durations are less than `2 ^ 63`
    seconds, and the holder has not renewed the lease to end before. -/
theorem lease_exclusive :
    (∀ before a between b, Contended before a between b →
      (∀ c ∈ a :: between, c.controllerId = a.controllerId →
        c.durationSecs < 2 ^ 63 ∧ b.now ≤ c.now + c.durationSecs * second) →
      b.grantedIn (leaseTable (before ++ a :: between)) = false) ∧
    RowNamesHolder := by
  refine ⟨fun before a between b h hkept => ?_, rowNamesHolder⟩
  have huntil : ∀ c ∈ a :: between, c.controllerId = a.controllerId → b.now ≤ c.until_ := by
    intro c hc hid
    obtain ⟨hlt, hle⟩ := hkept c hc hid
    rw [LeaseCall.until_, asI64_of_lt hlt]
    exact hle
  -- the lease the first call was granted
  have hheld : Lease.HeldUntil (a.after (leaseTable before)).lease a.controllerId b.now := by
    have hstep := a.step (leaseTable before)
    rw [h.granted] at hstep
    exact ⟨a.until_, hstep.of_granted, huntil a (List.mem_cons_self ..) rfl⟩
  have htable : leaseTable (before ++ a :: between) =
      between.foldl (fun t call => call.after t) (a.after (leaseTable before)) := by
    rw [leaseTable_append, List.foldl_cons]
  have hclock : ∀ c ∈ between, c.now ≤ b.now := by
    intro c hc
    have hpair := List.pairwise_append.1 h.clock
    exact hpair.2.2 c (by simp [hc]) b (List.mem_singleton_self b)
  have hend := hheld.run (leaseTrace_run between _)
    (fun x hx => by
      obtain ⟨c, hc, hxc⟩ := mem_leaseTrace hx
      rw [hxc]
      exact hclock c hc)
    fun x hx _ hid => by
      obtain ⟨c, hc, hxc⟩ := mem_leaseTrace hx
      rw [hxc] at hid ⊢
      exact huntil c (List.mem_cons_of_mem _ hc) hid
  rw [htable]
  exact hend.exclusive (b.step _) h.other le_rfl

/-- The lease "a" acquires for 30 seconds and renews is not granted to "b". -/
theorem lease_exclusive_renewed :
    (LeaseCall.mk "b" (40 * second) 30).grantedIn
      (leaseTable ([] ++ ⟨"a", 15 * second, 30⟩ :: [⟨"a", 30 * second, 30⟩])) = false := by
  refine lease_exclusive.1 [] _ _ _ ⟨by decide, by decide, by decide, by decide⟩ ?_
  intro c hc _
  rcases List.mem_cons.1 hc with rfl | hc
  · exact ⟨by decide, by decide⟩
  · obtain rfl := List.mem_singleton.1 hc
    exact ⟨by decide, by decide⟩

/-- "a" acquires the lease for 100 seconds and renews it for one: two seconds after that it is
    granted to "b". -/
theorem not_lease_exclusive :
    ¬ ((∀ before a between b, Contended before a between b →
        b.grantedIn (leaseTable (before ++ a :: between)) = false) ∧ RowNamesHolder) := by
  rintro ⟨h, -⟩
  have hgranted := h [] ⟨"a", 0, 100⟩ [⟨"a", 1 * second, 1⟩] ⟨"b", 3 * second, 30⟩
    ⟨by decide, by decide, by decide, by decide⟩
  exact absurd hgranted (by decide)

end PaciNet

import PaciNet.Lib.Guard

/-!
# Threads that are dropped

A thread that waits for the answer of an operation may never be resumed: whoever wanted its result
has gone, and the thread goes with it. The operation it was waiting for may be carried out all the
same, with nobody left to take note of the answer.

A guard that is released by hand is then left behind. **If no thread is dropped that holds a guard
or waits for one, a thread that is still there is at work under every guard that is held**, unless
it was held at the start.
-/

set_option autoImplicit false

namespace Lib

/-- A pool, the threads that have been dropped, by their indices, and the operations some of them
    were waiting for that go on without them. -/
structure DropConfig (Op : Type) (Res : Op → Type) (σ Req ρ : Type) where
  pool : Config Op Res σ Req ρ
  gone : List Nat
  orphans : List Op

/-- A step of the pool, the end of a thread, or that of an operation nobody waits for. -/
inductive DropLabel (σ Ext Req : Type) where
  | pool (l : Label σ Ext Req)
  | drop (i : Nat) (goesOn : Bool)
  | orphan (k : Nat) (x : Ext)

variable {Op : Type} {Res : Op → Type} {σ Ext Req ρ K : Type}

/-- A pool of which nothing has been dropped. -/
def Config.whole (c : Config Op Res σ Req ρ) : DropConfig Op Res σ Req ρ := ⟨c, [], []⟩

/-- The thread is there. -/
def DropConfig.Live (c : DropConfig Op Res σ Req ρ) (i : Nat) (t : Thread Op Res Req ρ) : Prop :=
  c.pool.threads[i]? = some t ∧ i ∉ c.gone

/-- The step would be one of a thread that has been dropped. -/
def Label.isOf : Label σ Ext Req → List Nat → Bool
  | .run i _, gone => decide (i ∈ gone)
  | _, _ => false

namespace System

section Step

variable (Y : System Op Res σ Ext Req ρ) (awaits : Op → Bool)

/-- One step of a pool whose threads can be dropped where they wait for an operation. -/
def dropStep (c : DropConfig Op Res σ Req ρ) :
    DropLabel σ Ext Req → Option (DropConfig Op Res σ Req ρ)
  | .pool l =>
    if l.isOf c.gone then none else (Y.step c.pool l).map fun pool => { c with pool := pool }
  | .drop i goesOn =>
    match c.pool.threads[i]? with
    | none => none
    | some t =>
      match t.prog with
      | .done _ => none
      | .call o _ =>
        if i ∈ c.gone ∨ awaits o = false then none
        else some { c with
          gone := i :: c.gone
          orphans := if goesOn then c.orphans ++ [o] else c.orphans }
  | .orphan k x =>
    match c.orphans[k]? with
    | none => none
    | some o =>
      match Y.exec x o c.pool.shared with
      | none => none
      | some (_, s, new) => some { c with
          pool := ⟨s, c.pool.threads ++ new.map Y.start⟩
          orphans := c.orphans.eraseIdx k }

/-- Any number of such steps, each acceptable to `C`. -/
def DropSteps (C : DropConfig Op Res σ Req ρ → DropLabel σ Ext Req → Prop) :
    DropConfig Op Res σ Req ρ → DropConfig Op Res σ Req ρ → Prop :=
  Relation.ReflTransGen fun c c' => ∃ l, C c l ∧ Y.dropStep awaits c l = some c'

/-- Follow a schedule as long as its labels pass a check. -/
def dropRun (ok : DropConfig Op Res σ Req ρ → DropLabel σ Ext Req → Bool)
    (c : DropConfig Op Res σ Req ρ) :
    List (DropLabel σ Ext Req) → Option (DropConfig Op Res σ Req ρ)
  | [] => some c
  | l :: ls => if ok c l then (Y.dropStep awaits c l).bind fun c' => dropRun ok c' ls else none

end Step

variable {Y : System Op Res σ Ext Req ρ} {awaits : Op → Bool}
  {C : DropConfig Op Res σ Req ρ → DropLabel σ Ext Req → Prop} {c c' : DropConfig Op Res σ Req ρ}

/-- A schedule that passes a check for `C` is a run. -/
theorem exists_dropSteps (Y : System Op Res σ Ext Req ρ) (awaits : Op → Bool)
    (c : DropConfig Op Res σ Req ρ) {ok : DropConfig Op Res σ Req ρ → DropLabel σ Ext Req → Bool}
    (hok : ∀ c l, ok c l → C c l) (ls : List (DropLabel σ Ext Req))
    (P : DropConfig Op Res σ Req ρ → Bool) (h : (Y.dropRun awaits ok c ls).any P) :
    ∃ c', Y.DropSteps awaits C c c' ∧ P c' := by
  induction ls generalizing c with
  | nil => exact ⟨c, .refl, h⟩
  | cons l ls ih =>
    simp only [dropRun] at h
    split at h
    · rename_i hl
      obtain ⟨c₂, hrest, hP⟩ := (Option.any_eq_true _ _).1 h
      obtain ⟨c₁, hstep, hrest⟩ := Option.bind_eq_some_iff.1 hrest
      obtain ⟨c', hrun, hP'⟩ := ih c₁ (by rw [hrest]; exact hP)
      exact ⟨c', .head ⟨l, hok c l hl, hstep⟩ hrun, hP'⟩
    · exact absurd h (by simp)

theorem DropSteps.mono {C' : DropConfig Op Res σ Req ρ → DropLabel σ Ext Req → Prop}
    (hC : ∀ c l, C c l → C' c l) (h : Y.DropSteps awaits C c c') : Y.DropSteps awaits C' c c' := by
  induction h with
  | refl => exact .refl
  | tail _ hs ih =>
    obtain ⟨l, hl, hstep⟩ := hs
    exact ih.tail ⟨l, hC _ l hl, hstep⟩

/-- Everything the end of a thread can be. -/
theorem dropStep_drop {i : Nat} {goesOn : Bool}
    (h : Y.dropStep awaits c (.drop i goesOn) = some c') :
    ∃ t o k, c.Live i t ∧ t.prog = .call o k ∧
      c' = { c with
        gone := i :: c.gone
        orphans := if goesOn then c.orphans ++ [o] else c.orphans } := by
  simp only [dropStep] at h
  split at h
  · cases h
  · rename_i t ht
    split at h
    · cases h
    · rename_i o k hprog
      split at h
      · cases h
      · rename_i hlive
        exact ⟨t, o, k, ⟨ht, fun hgone => hlive (.inl hgone)⟩, hprog, (Option.some.inj h).symm⟩

/-- Everything an operation can do that nobody waits for. -/
theorem dropStep_orphan {k : Nat} {x : Ext} (h : Y.dropStep awaits c (.orphan k x) = some c') :
    ∃ o r s new, c.orphans[k]? = some o ∧ Y.exec x o c.pool.shared = some (r, s, new) ∧
      c' = { c with
        pool := ⟨s, c.pool.threads ++ new.map Y.start⟩
        orphans := c.orphans.eraseIdx k } := by
  simp only [dropStep] at h
  split at h
  · cases h
  · rename_i o ho
    split at h
    · cases h
    · rename_i r s new hx
      exact ⟨o, r, s, new, ho, hx, (Option.some.inj h).symm⟩

theorem dropStep_pool {l : Label σ Ext Req} (h : Y.dropStep awaits c (.pool l) = some c') :
    l.isOf c.gone = false ∧ ∃ pool, Y.step c.pool l = some pool ∧ c' = { c with pool := pool } := by
  simp only [dropStep] at h
  split at h
  · cases h
  · rename_i hlive
    obtain ⟨pool, hstep, rfl⟩ := Option.map_eq_some_iff.1 h
    exact ⟨Bool.eq_false_iff.2 hlive, pool, hstep, rfl⟩

end System

/-! ## Guards -/

namespace Guard

variable (G : Guard Op Res σ K) {Sys : System Op Res σ Ext Req ρ} {awaits : Op → Bool}
  {Ok : Req → Prop} {c c' : DropConfig Op Res σ Req ρ}

/-- No thread is dropped that holds a guard or waits for one, requests in `Ok` arrive, and guards
    are held by nobody else. -/
def Gentle (Ok : Req → Prop) (c : DropConfig Op Res σ Req ρ) : DropLabel σ Ext Req → Prop
  | .pool (.arrive q) => Ok q
  | .pool (.env s) => ∀ k, G.held s k → G.held c.pool.shared k
  | .drop i _ => ∀ t, c.pool.threads[i]? = some t → (G.stage t).holds = none ∧
      ∀ o kont, t.prog = .call o kont → ∀ k, G.kind o ≠ .take k
  | _ => True

/-- The decidable part of `Gentle`: without the environment. -/
def gentle (Ok : Req → Prop) [DecidablePred Ok] (c : DropConfig Op Res σ Req ρ) :
    DropLabel σ Ext Req → Bool
  | .pool (.arrive q) => decide (Ok q)
  | .pool (.env _) => false
  | .drop i _ => (c.pool.threads[i]?).all fun t => (G.stage t).holds.isNone &&
      match t.prog with
      | .done _ => true
      | .call o _ => match G.kind o with
        | .take _ => false
        | _ => true
  | _ => true

theorem gentle_sound [DecidablePred Ok] {c : DropConfig Op Res σ Req ρ} {l : DropLabel σ Ext Req}
    (h : G.gentle Ok c l) : G.Gentle Ok c l := by
  cases l with
  | pool l =>
    cases l with
    | arrive q =>
      show Ok q
      simpa [gentle] using h
    | env s => exact absurd h (by simp [gentle])
    | _ => trivial
  | drop i goesOn =>
    intro t ht
    simp only [gentle, ht, Option.all_some, Bool.and_eq_true, Option.isNone_iff_eq_none] at h
    refine ⟨h.1, fun o kont hprog k hkind => ?_⟩
    have htake := h.2
    simp only [hprog, hkind, Bool.false_eq_true] at htake
  | orphan k x => trivial

/-- Every guard that is held was held in `s`, or is held by a thread that is there. -/
def LiveAccounted (s : σ) (c : DropConfig Op Res σ Req ρ) : Prop :=
  ∀ k, G.held c.pool.shared k → G.held s k ∨ ∃ i t, c.Live i t ∧ (G.stage t).holds = some k

/-- What holds in every configuration of a gentle run. -/
structure Tended (s : σ) (c : DropConfig Op Res σ Req ρ) : Prop where
  kept : G.Kept c.pool
  accounted : G.Accounted s c.pool
  gone : ∀ i ∈ c.gone, ∃ t, c.pool.threads[i]? = some t ∧ (G.stage t).holds = none
  orphans : ∀ o ∈ c.orphans, (∃ st, G.monitor.allow st o) ∧ ∀ k, G.kind o ≠ .take k

variable {G} {s₀ : σ}

theorem Tended.live (h : G.Tended s₀ c) : G.LiveAccounted s₀ c := by
  intro k hk
  refine (h.accounted k hk).imp_right ?_
  rintro ⟨t, ht, htk⟩
  obtain ⟨i, hi⟩ := List.getElem?_of_mem ht
  refine ⟨i, t, ⟨hi, fun hgone => ?_⟩, htk⟩
  obtain ⟨u, hu, hnone⟩ := h.gone i hgone
  rw [hi] at hu
  rw [Option.some.inj hu, hnone] at htk
  cases htk

/-- New threads hold nothing, and hide none that does. -/
theorem Accounted.append {s s' : σ} {ts new : List (Thread Op Res Req ρ)}
    (h : G.Accounted s₀ ⟨s, ts⟩) (hheld : ∀ k, G.held s' k → G.held s k) :
    G.Accounted s₀ ⟨s', ts ++ new⟩ := by
  intro k hk
  refine (h k (hheld k hk)).imp_right ?_
  rintro ⟨t, ht, htk⟩
  exact ⟨t, List.mem_append_left _ ht, htk⟩

variable [DecidableEq K]

/-- What takes no guard leaves no more of them held. -/
theorem Lawful.held_of_not_take (hG : G.Lawful Sys.toMachine) {x : Ext} {o : Op} {s s' : σ}
    {r : Res o} {new : List Req} (hx : Sys.exec x o s = some (r, s', new))
    (ho : ∀ k, G.kind o ≠ .take k) {k : K} (hk : G.held s' k) : G.held s k := by
  rw [hG.held hx, heldAfter] at hk
  split at hk
  · rename_i k' hkind
    exact absurd hkind (ho k')
  · exact (Bool.and_eq_true_iff.1 hk).2
  · exact (Bool.and_eq_true_iff.1 hk).2
  · exact hk
  · exact hk
  · exact hk
  · exact hk

omit [DecidableEq K] in
/-- Threads keep their index when others are added. -/
theorem Tended.gone_append (h : G.Tended s₀ c) (new : List (Thread Op Res Req ρ)) :
    ∀ i ∈ c.gone, ∃ t, (c.pool.threads ++ new)[i]? = some t ∧ (G.stage t).holds = none := by
  intro i hi
  obtain ⟨t, ht, hnone⟩ := h.gone i hi
  have hlt : i < c.pool.threads.length := (List.getElem?_eq_some_iff.1 ht).1
  exact ⟨t, by rw [List.getElem?_append_left hlt, ht], hnone⟩

/-- A step of the pool, of a thread that has not been dropped. -/
theorem Lawful.tended_pool (hG : G.Lawful Sys.toMachine) (hD : G.Disciplined Sys Ok)
    {l : Label σ Ext Req} (hl : G.Gentle Ok c (.pool l))
    (h : Sys.dropStep awaits c (.pool l) = some c') (hc : G.Tended s₀ c) : G.Tended s₀ c' := by
  obtain ⟨hlive, pool, hstep, rfl⟩ := System.dropStep_pool h
  have hkept : G.Kept pool := hD.step (fun q hq => by subst hq; exact hl) hstep hc.kept
  cases l with
  | arrive q =>
    cases hstep
    exact ⟨hkept, hc.accounted.append fun _ hk => hk, hc.gone_append _, hc.orphans⟩
  | env s =>
    cases hstep
    refine ⟨hkept, fun k hk => ?_, hc.gone, hc.orphans⟩
    exact hc.accounted k (hl k hk)
  | run i x =>
    refine ⟨hkept, hG.accounted_run hD hstep hc.kept hc.accounted, fun j hj => ?_, hc.orphans⟩
    obtain ⟨t, o, kont, r, s, new, ht, hprog, hx, rfl⟩ := System.step_run hstep
    obtain ⟨u, hu, hnone⟩ := hc.gone j hj
    -- the thread that moved is there, so it is not the one at `j`
    have hij : i ≠ j := by
      rintro rfl
      exact absurd hlive (by simp [Label.isOf, hj])
    have hlt : j < c.pool.threads.length := (List.getElem?_eq_some_iff.1 hu).1
    refine ⟨u, ?_, hnone⟩
    rw [List.getElem?_append_left (by simpa using hlt), List.getElem?_set_ne hij, hu]

theorem Lawful.tended_step (hG : G.Lawful Sys.toMachine) (hD : G.Disciplined Sys Ok)
    {l : DropLabel σ Ext Req} (hl : G.Gentle Ok c l) (h : Sys.dropStep awaits c l = some c')
    (hc : G.Tended s₀ c) : G.Tended s₀ c' := by
  cases l with
  | pool l => exact hG.tended_pool hD hl h hc
  | drop i goesOn =>
    obtain ⟨t, o, kont, ⟨ht, -⟩, hprog, rfl⟩ := System.dropStep_drop h
    obtain ⟨hnone, htake⟩ := hl t ht
    refine ⟨hc.kept, hc.accounted, fun j hj => ?_, fun o' ho' => ?_⟩
    · rcases List.mem_cons.1 hj with rfl | hj
      · exact ⟨t, ht, hnone⟩
      · exact hc.gone j hj
    · dsimp only at ho'
      split at ho'
      · rcases List.mem_append.1 ho' with ho' | ho'
        · exact hc.orphans o' ho'
        · rw [List.mem_singleton.1 ho']
          have hw := hc.kept.2 t (List.mem_of_getElem? ht)
          rw [System.Watched, hprog] at hw
          exact ⟨⟨G.stage t, hw.1⟩, htake o kont hprog⟩
      · exact hc.orphans o' ho'
  | orphan k x =>
    obtain ⟨o, r, s, new, ho, hx, rfl⟩ := System.dropStep_orphan h
    obtain ⟨⟨st, hallow⟩, htake⟩ := hc.orphans o (List.mem_of_getElem? ho)
    obtain ⟨-, -, hnew⟩ := System.Guarantee.exec hD st x o _ r s new trivial hallow hx
    refine ⟨⟨trivial, fun t ht => ?_⟩, ?_, hc.gone_append _, fun o' ho' => ?_⟩
    · rcases List.mem_append.1 ht with ht | ht
      · exact hc.kept.2 t ht
      · obtain ⟨q, hq, rfl⟩ := List.mem_map.1 ht
        exact System.Guarantee.start hD (hnew q hq)
    · exact hc.accounted.append fun _ hk => hG.held_of_not_take hx htake hk
    · exact hc.orphans o' (List.mem_of_mem_eraseIdx ho')

theorem Lawful.tended (hG : G.Lawful Sys.toMachine) (hD : G.Disciplined Sys Ok)
    {p : Config Op Res σ Req ρ} (hidle : p.threads = [])
    (h : Sys.DropSteps awaits (G.Gentle Ok) p.whole c) : G.Tended p.shared c := by
  have hstart : G.Tended p.shared p.whole :=
    ⟨System.allWatched_of_idle trivial hidle, fun k hk => .inl hk,
      fun i hi => absurd hi List.not_mem_nil, fun o ho => absurd ho List.not_mem_nil⟩
  induction h with
  | refl => exact hstart
  | tail _ hs ih =>
    obtain ⟨l, hl, hstep⟩ := hs
    exact hG.tended_step hD hl hstep ih

/-- **In a gentle run every guard that is held was held at the start, or a thread that is there is
    at work under it.** -/
theorem Lawful.liveAccounted (hG : G.Lawful Sys.toMachine) (hD : G.Disciplined Sys Ok)
    {p : Config Op Res σ Req ρ} (hidle : p.threads = [])
    (h : Sys.DropSteps awaits (G.Gentle Ok) p.whole c) {k : K} (hk : G.held c.pool.shared k) :
    G.held p.shared k ∨ ∃ i t, c.Live i t ∧ G.AtWork t k := by
  have htended := hG.tended hD hidle h
  refine (htended.live k hk).imp_right ?_
  rintro ⟨i, t, hlive, htk⟩
  exact ⟨i, t, hlive, htended.kept.atWork (List.mem_of_getElem? hlive.1) htk⟩

end Guard

end Lib

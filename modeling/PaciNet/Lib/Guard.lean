import Mathlib.Data.List.Basic
import PaciNet.Lib.Pool

/-!
# Guards that are taken and released by hand

A set of guards in the shared state, and threads that take the guard of a key, work on what it
protects, and release it. Nothing ties the work to the guard: a thread may turn to a key and work
on it without the guard, and anybody may clear a guard.

The stage of a thread, which guard it holds and what it works on, is a function of its trace. A
discipline is proved of the programs, once: a thread works on a key under its guard unless it has
turned to the key without it. **As long as a guard is cleared only when nobody holds it, is taken
only when nobody works on its key without it, and a thread without the guard starts to work only
when nobody is engaged with the key, at most one thread is engaged with each key.** Threads that
use the guards owe nothing.
-/

namespace Lib

/-- What an operation has to do with the guards. To approach a key is to turn to it without its
    guard. -/
inductive GuardOp (K : Type) where
  | take (k : K)
  | free (k : K)
  | clear (k : K)
  | approach (k : K)
  | enter (k : K)
  | leave (k : K)
  | none

/-- How operations use guards with keys `K`: `took` says that a guard was really taken, `expect`
    what is known of the answers, and `starts` that the threads an operation starts keep to the
    guards themselves. -/
structure Guard (Op : Type) (Res : Op → Type) (σ K : Type) where
  held : σ → K → Bool
  kind : Op → GuardOp K
  took : (o : Op) → Res o → Bool
  expect : (o : Op) → Res o → Prop
  starts : Op → Prop

/-- The guard a thread holds, the key it has turned to without its guard, and the key it works
    on. -/
structure Stage (K : Type) where
  holds : Option K
  near : Option K
  inside : Option K
  deriving DecidableEq

namespace Stage

variable {K : Type}

/-- Where a thread starts. -/
def out : Stage K := ⟨none, none, none⟩

def step (st : Stage K) : GuardOp K → Bool → Stage K
  | .take k, true => { st with holds := some k, near := none }
  | .free _, _ => { st with holds := none }
  | .approach k, _ => { st with near := some k }
  | .enter k, _ => { st with inside := some k }
  | .leave _, _ => { st with inside := none, near := none }
  | _, _ => st

/-- The thread holds the guard of the key or works on it. -/
def Engaged (st : Stage K) (k : K) : Prop := st.holds = some k ∨ st.inside = some k

/-- The thread works on the key without its guard. -/
def Astray (st : Stage K) (k : K) : Prop := st.inside = some k ∧ st.holds ≠ some k

/-- The thread holds no guard and works on nothing, as in the beginning and, if it is well behaved,
    in the end. -/
def Idle (st : Stage K) : Prop := st.holds = none ∧ st.inside = none

instance [DecidableEq K] (st : Stage K) (k : K) : Decidable (st.Engaged k) := by
  unfold Engaged
  infer_instance

instance [DecidableEq K] (st : Stage K) (k : K) : Decidable (st.Astray k) := by
  unfold Astray
  infer_instance

theorem idle_out : (out : Stage K).Idle := ⟨rfl, rfl⟩

theorem Idle.not_engaged {st : Stage K} (h : st.Idle) (k : K) : ¬ st.Engaged k := by
  simp [Engaged, h.1, h.2]

end Stage

namespace Guard

variable {Op : Type} {Res : Op → Type} {σ Ext Req ρ K : Type}

section Monitor

variable (G : Guard Op Res σ K)

/-- A thread takes one guard at a time and does nothing under it but work on its key; it works on
    one key at a time, under the guard or after it has turned to the key without it. -/
def monitor : Monitor Op Res (Stage K) where
  allow st o := G.starts o ∧ match G.kind o with
    | .take _ | .approach _ | .clear _ => st.Idle
    | .free k => st.holds = some k ∧ st.inside = none
    | .enter k => st.inside = none ∧ (st.holds = some k ∨ st.holds = none ∧ st.near = some k)
    | .leave k => st.inside = some k ∧ (st.holds = none ∨ st.holds = some k)
    | .none => st.holds = none ∨ st.inside = st.holds
  expect := G.expect
  next st o r := st.step (G.kind o) (G.took o r)

/-- What the guards are after an operation. -/
def heldAfter [DecidableEq K] (s : σ) (o : Op) (took : Bool) (k : K) : Bool :=
  match G.kind o with
  | .take k' => (took && decide (k = k')) || G.held s k
  | .free k' | .clear k' => decide (k ≠ k') && G.held s k
  | .approach _ | .enter _ | .leave _ | .none => G.held s k

/-- The guards are changed by these operations only, and no guard is taken twice. -/
structure Lawful [DecidableEq K] (M : Machine Op Res σ Ext Req) : Prop where
  held : ∀ {x o s r s' new}, M.exec x o s = some (r, s', new) →
    ∀ k, G.held s' k = G.heldAfter s o (G.took o r) k
  fresh : ∀ {x o s r s' new k}, M.exec x o s = some (r, s', new) → G.kind o = .take k →
    G.took o r → G.held s k = false

/-- The stage a thread has reached. -/
def stage (t : Thread Op Res Req ρ) : Stage K := G.monitor.after .out t.trace

/-- The thread works on the key, or it holds the guard and is about to start to work or to release
    it. -/
def AtWork (t : Thread Op Res Req ρ) (k : K) : Prop :=
  (G.stage t).inside = some k ∨
    (G.stage t).holds = some k ∧ ∃ o kont, t.prog = .call o kont ∧
      (G.kind o = .enter k ∨ G.kind o = .free k)

/-- Nobody is engaged with the key. -/
def Alone (c : Config Op Res σ Req ρ) (k : K) : Prop := ∀ t ∈ c.threads, ¬ (G.stage t).Engaged k

/-- The condition under which a thread may take its next step. A thread that holds the guard of
    the key it works on meets it. -/
def MayMove (c : Config Op Res σ Req ρ) (t : Thread Op Res Req ρ) : Prop :=
  match t.prog with
  | .done _ => True
  | .call o _ =>
    match G.kind o with
    | .take k => G.held c.shared k ∨ ∀ u ∈ c.threads, ¬ (G.stage u).Astray k
    | .enter k => (G.stage t).near = some k → G.Alone c k
    | .clear k => ∀ u ∈ c.threads, (G.stage u).holds ≠ some k
    | _ => True

/-- Every step may be taken, requests in `Ok` arrive, and the environment takes no guard away. -/
def Respectful (Ok : Req → Prop) (c : Config Op Res σ Req ρ) : Label σ Ext Req → Prop
  | .arrive q => Ok q
  | .env s => ∀ k, G.held c.shared k → G.held s k
  | .run i _ => ∀ t, c.threads[i]? = some t → G.MayMove c t

section Check

variable [DecidableEq K]

instance (c : Config Op Res σ Req ρ) (k : K) : Decidable (G.Alone c k) := by
  unfold Alone
  infer_instance

instance (c : Config Op Res σ Req ρ) (t : Thread Op Res Req ρ) : Decidable (G.MayMove c t) := by
  unfold MayMove
  split
  · infer_instance
  · split <;> infer_instance

variable (Ok : Req → Prop) [DecidablePred Ok]

/-- The decidable part of `Respectful`: without the environment. -/
def respectful (c : Config Op Res σ Req ρ) : Label σ Ext Req → Bool
  | .arrive q => decide (Ok q)
  | .env _ => false
  | .run i _ => c.threads[i]?.all fun t => decide (G.MayMove c t)

theorem respectful_sound (c : Config Op Res σ Req ρ) (l : Label σ Ext Req)
    (h : G.respectful Ok c l) : G.Respectful Ok c l := by
  cases l with
  | arrive q =>
    show Ok q
    simpa [respectful] using h
  | env s => exact absurd h (by simp [respectful])
  | run i x =>
    intro t ht
    simpa [respectful, ht] using h

end Check

end Monitor

variable {G : Guard Op Res σ K} {Sys : System Op Res σ Ext Req ρ}
  {c c' : Config Op Res σ Req ρ}

theorem stage_snoc (t : Thread Op Res Req ρ) (p : Prog Op Res ρ) (o : Op) (r : Res o) :
    G.stage ⟨t.req, p, t.trace ++ [⟨o, r⟩]⟩ = (G.stage t).step (G.kind o) (G.took o r) := by
  simp only [stage, Monitor.after_snoc]
  rfl

/-- Every thread has kept to the guards and will go on doing so, and holds none in the end. -/
abbrev Kept (G : Guard Op Res σ K) (c : Config Op Res σ Req ρ) : Prop :=
  System.AllWatched G.monitor .out (fun _ st _ => st.Idle) (fun _ => True) c

/-- The programs that serve requests in `Ok` keep to the guards. -/
def Disciplined (G : Guard Op Res σ K) (Sys : System Op Res σ Ext Req ρ) (Ok : Req → Prop) :
    Prop :=
  Sys.Guarantee G.monitor .out (fun _ st _ => st.Idle) (fun _ => True) Ok

theorem Disciplined.step {Ok : Req → Prop} (hD : G.Disciplined Sys Ok) {l : Label σ Ext Req}
    (hl : ∀ q, l = .arrive q → Ok q) (h : Sys.step c l = some c') (hc : G.Kept c) : G.Kept c' :=
  System.Guarantee.step (C := fun _ l => ∀ q, l = .arrive q → Ok q) hD
    ⟨fun _ q hq => hq q rfl, fun _ _ _ _ => trivial⟩ hl h hc

/-- **A thread that holds a guard is at work under it.** In particular it has not finished. -/
theorem Kept.atWork (hc : G.Kept c) {t : Thread Op Res Req ρ} (ht : t ∈ c.threads) {k : K}
    (hk : (G.stage t).holds = some k) : G.AtWork t k := by
  have hw := hc.2 t ht
  rw [System.Watched] at hw
  cases hprog : t.prog with
  | done a =>
    rw [hprog] at hw
    have hidle : (G.stage t).Idle := hw
    exact absurd (hk.symm.trans hidle.1) (by simp)
  | call o kont =>
    rw [hprog] at hw
    have hallow : G.monitor.allow (G.stage t) o := hw.1
    have hkey := hallow.2
    cases hkind : G.kind o with
    | take k' | approach k' | clear k' =>
      simp only [hkind] at hkey
      exact absurd (hk.symm.trans hkey.1) (by simp)
    | free k' =>
      simp only [hkind] at hkey
      obtain rfl : k' = k := Option.some.inj (hkey.1.symm.trans hk)
      exact .inr ⟨hk, o, kont, hprog, .inr hkind⟩
    | enter k' =>
      simp only [hkind] at hkey
      rcases hkey.2 with hk' | ⟨hk', -⟩
      · obtain rfl : k' = k := Option.some.inj (hk'.symm.trans hk)
        exact .inr ⟨hk, o, kont, hprog, .inl hkind⟩
      · exact absurd (hk'.symm.trans hk) (by simp)
    | leave k' =>
      simp only [hkind] at hkey
      rcases hkey.2 with hk' | hk'
      · exact absurd (hk'.symm.trans hk) (by simp)
      · obtain rfl : k' = k := Option.some.inj (hk'.symm.trans hk)
        exact .inl hkey.1
    | none =>
      simp only [hkind] at hkey
      rcases hkey with hk' | hk'
      · exact absurd (hk'.symm.trans hk) (by simp)
      · exact .inl (hk'.trans hk)

/-- At most one thread is engaged with each key. -/
def Exclusive (G : Guard Op Res σ K) (c : Config Op Res σ Req ρ) : Prop :=
  ∀ {i j : Nat} {t u : Thread Op Res Req ρ} {k : K}, c.threads[i]? = some t →
    c.threads[j]? = some u → (G.stage t).Engaged k → (G.stage u).Engaged k → i = j

/-- What holds in every configuration of a respectful run. -/
structure Sound (G : Guard Op Res σ K) (c : Config Op Res σ Req ρ) : Prop where
  kept : G.Kept c
  held : ∀ {t : Thread Op Res Req ρ} {k : K}, t ∈ c.threads → (G.stage t).holds = some k →
    G.held c.shared k
  exclusive : G.Exclusive c

section Step

/-- What a thread becomes engaged with by one step, it was engaged with before, or nobody was. -/
theorem engaged_step {t : Thread Op Res Req ρ} {o : Op} {kont : Res o → Prog Op Res ρ} {r : Res o}
    (hc : G.Sound c) (hprog : t.prog = .call o kont) (hallow : G.monitor.allow (G.stage t) o)
    (hmay : G.MayMove c t)
    (hfresh : ∀ k, G.kind o = .take k → G.took o r → G.held c.shared k = false) {k : K}
    (h : ((G.stage t).step (G.kind o) (G.took o r)).Engaged k) :
    (G.stage t).Engaged k ∨ G.Alone c k := by
  simp only [MayMove, hprog] at hmay
  have hkey := hallow.2
  cases hkind : G.kind o with
  | take k' =>
    simp only [hkind] at hmay h
    cases htook : G.took o r with
    | false =>
      rw [htook] at h
      exact .inl h
    | true =>
      rw [htook] at h
      rcases h with h | h
      · -- the guard was free, so nobody held it; and nobody was at work without it
        obtain rfl : k' = k := Option.some.inj h
        have hfree := hfresh k' hkind htook
        have hastray : ∀ u ∈ c.threads, ¬ (G.stage u).Astray k' := by simpa [hfree] using hmay
        refine .inr fun u hu hengaged => ?_
        have hnot : (G.stage u).holds ≠ some k' := fun hk => by simp [hc.held hu hk] at hfree
        exact hastray u hu ⟨hengaged.resolve_left hnot, hnot⟩
      · exact .inl (.inr h)
  | enter k' =>
    simp only [hkind] at hkey hmay h
    rcases h with h | h
    · exact .inl (.inl h)
    · obtain rfl : k' = k := Option.some.inj h
      exact hkey.2.imp .inl fun hnear => hmay hnear.2
  | free k' =>
    rw [hkind] at h
    exact h.elim (fun h => absurd h (by simp [Stage.step])) fun h => .inl (.inr h)
  | leave k' =>
    rw [hkind] at h
    exact h.elim (fun h => .inl (.inl h)) fun h => absurd h (by simp [Stage.step])
  | approach k' =>
    rw [hkind] at h
    exact .inl h
  | clear k' =>
    rw [hkind] at h
    exact .inl h
  | none =>
    rw [hkind] at h
    exact .inl h

/-- The guard a thread holds after its step is held. -/
theorem held_self [DecidableEq K] {t : Thread Op Res Req ρ} {s : σ} {o : Op}
    {kont : Res o → Prog Op Res ρ} {took : Bool} (hc : G.Sound c) (ht : t ∈ c.threads)
    (hprog : t.prog = .call o kont) (hmay : G.MayMove c t)
    (hheld : ∀ k, G.held s k = G.heldAfter c.shared o took k) {k : K}
    (h : ((G.stage t).step (G.kind o) took).holds = some k) : G.held s k := by
  rw [hheld]
  simp only [MayMove, hprog] at hmay
  cases hkind : G.kind o with
  | take k' =>
    simp only [hkind, heldAfter] at h ⊢
    cases took with
    | false => simpa using hc.held ht h
    | true => simp [show k' = k from Option.some.inj h]
  | free k' =>
    rw [hkind] at h
    exact absurd h (by simp [Stage.step])
  | clear k' =>
    simp only [hkind, heldAfter] at h hmay ⊢
    have hne : k ≠ k' := fun hk => hmay t ht (hk ▸ h)
    simpa [hne] using hc.held ht h
  | approach k' =>
    simp only [hkind, heldAfter] at h ⊢
    exact hc.held ht h
  | enter k' =>
    simp only [hkind, heldAfter] at h ⊢
    exact hc.held ht h
  | leave k' =>
    simp only [hkind, heldAfter] at h ⊢
    exact hc.held ht h
  | none =>
    simp only [hkind, heldAfter] at h ⊢
    exact hc.held ht h

/-- A guard that another thread holds is still held after the step. -/
theorem held_other [DecidableEq K] {i : Nat} {t u : Thread Op Res Req ρ} {s : σ} {o : Op}
    {kont : Res o → Prog Op Res ρ} {took : Bool} (hc : G.Sound c) (ht : c.threads[i]? = some t)
    (hprog : t.prog = .call o kont) (hmay : G.MayMove c t)
    (hallow : G.monitor.allow (G.stage t) o)
    (hheld : ∀ k, G.held s k = G.heldAfter c.shared o took k) {j : Nat} (hji : j ≠ i) {k : K}
    (hu : c.threads[j]? = some u) (h : (G.stage u).holds = some k) : G.held s k := by
  have hmem := List.mem_of_getElem? hu
  have hbefore := hc.held hmem h
  rw [hheld]
  simp only [MayMove, hprog] at hmay
  have hkey := hallow.2
  cases hkind : G.kind o with
  | take k' => simp [heldAfter, hkind, hbefore]
  | free k' =>
    -- the guard that is released is held by `t`, so it is not the one `u` holds
    simp only [hkind] at hkey
    have hne : k ≠ k' := fun hk => hji (hc.exclusive hu ht (.inl h) (.inl (hk ▸ hkey.1)))
    simp [heldAfter, hkind, hbefore, hne]
  | clear k' =>
    simp only [hkind] at hmay
    have hne : k ≠ k' := fun hk => hmay u hmem (hk ▸ h)
    simp [heldAfter, hkind, hbefore, hne]
  | approach k' => simp [heldAfter, hkind, hbefore]
  | enter k' => simp [heldAfter, hkind, hbefore]
  | leave k' => simp [heldAfter, hkind, hbefore]
  | none => simp [heldAfter, hkind, hbefore]

end Step

variable [DecidableEq K] {Ok : Req → Prop}

/-- One respectful step of a thread. -/
theorem Lawful.run (hG : G.Lawful Sys.toMachine) (hD : G.Disciplined Sys Ok) {i : Nat} {x : Ext}
    (hl : G.Respectful Ok c (.run i x : Label σ Ext Req)) (h : Sys.step c (.run i x) = some c')
    (hc : G.Sound c) (hkept : G.Kept c') : G.Sound c' := by
  obtain ⟨t, o, kont, r, s, new, ht, hprog, hx, rfl⟩ := System.step_run h
  have hmay := hl t ht
  have hallow := (System.Guarantee.acts hD hc.kept ht hprog hx).allowed
  have hheld := hG.held hx
  have hfresh : ∀ k, G.kind o = .take k → G.took o r → G.held c.shared k = false :=
    fun k hk htook => hG.fresh hx hk htook
  refine ⟨hkept, fun {u k} hu hk => ?_, fun {a b u v k} hu hv hku hkv => ?_⟩
  · -- guards that are held
    obtain ⟨j, hj⟩ := List.getElem?_of_mem hu
    rcases System.getElem?_after hj with ⟨-, rfl⟩ | ⟨hji, hj⟩ | ⟨q, -, rfl⟩
    · rw [stage_snoc] at hk
      exact held_self hc (List.mem_of_getElem? ht) hprog hmay hheld hk
    · exact held_other hc ht hprog hmay hallow hheld hji hj hk
    · exact absurd hk (by simp [stage, System.start, Stage.out])
  · -- the thread that moved is not engaged with what another is engaged with
    have alone : ∀ {j u}, j ≠ i → c.threads[j]? = some u → (G.stage u).Engaged k →
        ¬ ((G.stage t).step (G.kind o) (G.took o r)).Engaged k := by
      intro j u hji hj hu ht'
      rcases engaged_step hc hprog hallow hmay hfresh ht' with ht' | halone
      · exact hji (hc.exclusive hj ht hu ht')
      · exact halone u (List.mem_of_getElem? hj) hu
    have idle : ∀ q, ¬ (G.stage (Sys.start q)).Engaged k :=
      fun q => Stage.idle_out.not_engaged k
    rcases System.getElem?_after hu with ⟨rfl, rfl⟩ | ⟨hai, hu'⟩ | ⟨q, -, rfl⟩
    · rcases System.getElem?_after hv with ⟨rfl, -⟩ | ⟨hbi, hv'⟩ | ⟨q, -, rfl⟩
      · rfl
      · exact absurd (stage_snoc t _ o r ▸ hku) (alone hbi hv' hkv)
      · exact absurd hkv (idle q)
    · rcases System.getElem?_after hv with ⟨rfl, rfl⟩ | ⟨hbi, hv'⟩ | ⟨q, -, rfl⟩
      · exact absurd (stage_snoc t _ o r ▸ hkv) (alone hai hu' hku)
      · exact hc.exclusive hu' hv' hku hkv
      · exact absurd hkv (idle q)
    · exact absurd hku (idle q)

/-- One respectful step keeps everything in order. -/
theorem Lawful.step (hG : G.Lawful Sys.toMachine) (hD : G.Disciplined Sys Ok)
    {l : Label σ Ext Req} (hl : G.Respectful Ok c l) (h : Sys.step c l = some c')
    (hc : G.Sound c) : G.Sound c' := by
  have hkept : G.Kept c' := hD.step (fun q hq => by subst hq; exact hl) h hc.kept
  cases l with
  | arrive q =>
    cases h
    refine ⟨hkept, fun {t k} ht hk => ?_, fun {i j t u k} ht hu hkt hku => ?_⟩
    · rcases List.mem_append.1 ht with ht | ht
      · exact hc.held ht hk
      · rw [List.mem_singleton.1 ht] at hk
        exact absurd hk (by simp [stage, System.start, Stage.out])
    · -- the new thread is engaged with nothing
      have old : ∀ {i : Nat} {t : Thread Op Res Req ρ}, (c.threads ++ [Sys.start q])[i]? = some t →
          (G.stage t).Engaged k → c.threads[i]? = some t := by
        intro i t ht hkt
        rw [List.getElem?_append] at ht
        split at ht
        · exact ht
        · rw [List.mem_singleton.1 (List.mem_of_getElem? ht)] at hkt
          exact absurd hkt (Stage.idle_out.not_engaged k)
      exact hc.exclusive (old ht hkt) (old hu hku) hkt hku
  | env s =>
    cases h
    exact ⟨hkept, fun ht hk => hl _ (hc.held ht hk), hc.exclusive⟩
  | run i x => exact hG.run hD hl h hc hkept

/-- **In a respectful run at most one thread is engaged with each key.** -/
theorem Lawful.sound (hG : G.Lawful Sys.toMachine) (hD : G.Disciplined Sys Ok)
    (h : Sys.Steps (G.Respectful Ok) c c') (hc : c.threads = []) : G.Sound c' := by
  refine h.invariant G.Sound (fun _ _ _ hl hs hd => hG.step hD hl hs hd) ?_
  refine ⟨System.allWatched_of_idle trivial hc, ?_, ?_⟩
  · intro t k ht
    exact absurd ht (by simp [hc])
  · intro i j t u k ht
    exact absurd ht (by simp [hc])

/-! ## What is held, and by whom -/

/-- Every guard that is held was held in `s`, or is held by a thread. -/
def Accounted (G : Guard Op Res σ K) (s : σ) (c : Config Op Res σ Req ρ) : Prop :=
  ∀ k, G.held c.shared k → G.held s k ∨ ∃ t ∈ c.threads, (G.stage t).holds = some k

/-- A step of a thread keeps account of the guards. -/
theorem Lawful.accounted_run (hG : G.Lawful Sys.toMachine) (hD : G.Disciplined Sys Ok) {s₀ : σ}
    {i : Nat} {x : Ext} (h : Sys.step c (.run i x) = some c') (hkept : G.Kept c)
    (hc : G.Accounted s₀ c) : G.Accounted s₀ c' := by
  obtain ⟨t, o, kont, r, s, new, ht, hprog, hx, rfl⟩ := System.step_run h
  have hkey := (System.Guarantee.acts hD hkept ht hprog hx).allowed.2
  have hlt : i < c.threads.length := (List.getElem?_eq_some_iff.1 ht).1
  -- the thread that moved, and the others, are among the threads after the step
  let t' : Thread Op Res Req ρ := ⟨t.req, kont r, t.trace ++ [⟨o, r⟩]⟩
  have self : t' ∈ c.threads.set i t' ++ new.map Sys.start :=
    List.mem_append_left _ (List.mem_set hlt t')
  have other : ∀ u ∈ c.threads, u ≠ t → u ∈ c.threads.set i t' ++ new.map Sys.start := by
    intro u hu hne
    obtain ⟨j, hj⟩ := List.getElem?_of_mem hu
    have hji : i ≠ j := by
      rintro rfl
      exact hne (Option.some.inj (hj.symm.trans ht))
    exact List.mem_append_left _ (List.mem_of_getElem? (by rw [List.getElem?_set_ne hji, hj]))
  have stage' : G.stage t' = (G.stage t).step (G.kind o) (G.took o r) := stage_snoc t _ o r
  -- a guard that was held before, and is still held, is accounted for by the same thread
  have old : ∀ k, G.held c.shared k → (∀ k', G.kind o = .free k' → k ≠ k') →
      G.held s₀ k ∨ ∃ u ∈ c.threads.set i t' ++ new.map Sys.start, (G.stage u).holds = some k := by
    intro k hk hfree
    refine (hc k hk).imp_right ?_
    rintro ⟨u, hu, huk⟩
    by_cases hut : u = t
    · subst hut
      refine ⟨t', self, ?_⟩
      rw [stage']
      cases hkind : G.kind o with
      | take k' =>
        simp only [hkind] at hkey
        exact absurd (hkey.1.symm.trans huk) (by simp)
      | free k' =>
        simp only [hkind] at hkey
        exact absurd (Option.some.inj (huk.symm.trans hkey.1)) (hfree k' hkind)
      | _ => exact huk
    · exact ⟨u, other u hu hut, huk⟩
  intro k hk
  have hk' := hG.held hx k ▸ hk
  cases hkind : G.kind o with
  | take k' =>
    simp only [heldAfter, hkind, Bool.or_eq_true, Bool.and_eq_true, decide_eq_true_eq] at hk'
    rcases hk' with ⟨htook, rfl⟩ | hk'
    · refine .inr ⟨t', self, ?_⟩
      rw [stage', hkind, htook]
      rfl
    · exact old k hk' fun k'' hk'' => absurd (hkind.symm.trans hk'') (by simp)
  | free k' =>
    simp only [heldAfter, hkind, Bool.and_eq_true, decide_eq_true_eq] at hk'
    refine old k hk'.2 fun k'' hk'' => ?_
    obtain rfl : k' = k'' := GuardOp.free.inj (hkind.symm.trans hk'')
    exact hk'.1
  | clear k' =>
    simp only [heldAfter, hkind, Bool.and_eq_true] at hk'
    exact old k hk'.2 fun k'' hk'' => absurd (hkind.symm.trans hk'') (by simp)
  | _ =>
    simp only [heldAfter, hkind] at hk'
    exact old k hk' fun k'' hk'' => absurd (hkind.symm.trans hk'') (by simp)

omit [DecidableEq K] in
/-- **Where every thread has finished, no guard is held that was not held at the start.** -/
theorem Accounted.finished {s : σ} (hc : G.Accounted s c) (hkept : G.Kept c)
    (hdone : ∀ t ∈ c.threads, ∃ a, t.prog = .done a) {k : K} (hk : G.held c.shared k) :
    G.held s k := by
  rcases hc k hk with hk | ⟨t, ht, htk⟩
  · exact hk
  · obtain ⟨a, ha⟩ := hdone t ht
    have hpost := hkept.2 t ht
    rw [System.Watched, ha] at hpost
    have hidle : (G.stage t).Idle := hpost
    exact absurd htk (by simp [hidle.1])

end Guard

end Lib

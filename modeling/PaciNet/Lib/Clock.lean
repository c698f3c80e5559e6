import Mathlib.Data.List.Induction
import Mathlib.Order.Defs.PartialOrder
import PaciNet.Lib.Pool

/-!
# Runs under a clock that does not go back

Every step of a pool is taken at some time, which the operations can read. In a timed run the times
of the steps do not decrease; so **what one thread reads does not decrease either**, however many
steps of other threads come in between.

The rule is `Timed.shared`. A program is shown correct under a monitor that owes nothing once the
clock has been seen to go back (`Clock.monitor`), each request on its own; then the shared invariant
holds in every state a timed run reaches.
-/

set_option autoImplicit false

namespace Lib

variable {Op : Type} {Res : Op → Type} {σ Ext Req ρ τ : Type}

/-- When a step is taken, and what an answer tells of it. -/
structure Clock (Op : Type) (Res : Op → Type) (Ext τ : Type) where
  now : Ext → τ
  reading : (o : Op) → Res o → Option τ

namespace Clock

variable (K : Clock Op Res Ext τ)

/-- What the operations of a trace have read. -/
def readings (trace : List ((o : Op) × Res o)) : List τ :=
  trace.filterMap fun e => K.reading e.1 e.2

theorem readings_snoc (trace : List ((o : Op) × Res o)) (o : Op) (r : Res o) :
    K.readings (trace ++ [⟨o, r⟩]) = K.readings trace ++ (K.reading o r).toList := by
  rw [readings, List.filterMap_append, readings]
  cases h : K.reading o r with
  | none => simp [h]
  | some t => simp [h]

/-- The clock that is read is that of the machine. -/
def Lawful (M : Machine Op Res σ Ext Req) : Prop :=
  ∀ x o s r s' new t, M.exec x o s = some (r, s', new) → K.reading o r = some t → t = K.now x

/-- The time after a step. -/
def tick (t : τ) : Label σ Ext Req → τ
  | .run _ x => K.now x
  | .arrive _ | .env _ => t

section Monitor

variable [LE τ]

/-- The monitor that forbids an operation only as long as the clock has not gone back. Its state is
    what has been read. -/
def monitor (allow : Op → Prop) (expect : (o : Op) → Res o → Prop) : Monitor Op Res (List τ) where
  allow seen o := seen.Pairwise (· ≤ ·) → allow o
  expect := expect
  next seen o r := seen ++ (K.reading o r).toList

/-- A run of a pool whose steps are taken at times that do not decrease, from the first time to the
    last. -/
def Timed (Y : System Op Res σ Ext Req ρ)
    (C : Config Op Res σ Req ρ → Label σ Ext Req → Prop) :
    τ × Config Op Res σ Req ρ → τ × Config Op Res σ Req ρ → Prop :=
  Relation.ReflTransGen fun a b =>
    ∃ l, C a.2 l ∧ a.1 ≤ K.tick a.1 l ∧ b.1 = K.tick a.1 l ∧ Y.step a.2 l = some b.2

variable {K} {allow : Op → Prop} {expect : (o : Op) → Res o → Prop}

theorem monitor_after (trace : List ((o : Op) × Res o)) :
    (K.monitor allow expect).after [] trace = K.readings trace := by
  induction trace using List.reverseRecOn with
  | nil => rfl
  | append_singleton trace e ih =>
    rw [Monitor.after_snoc, ih]
    exact (K.readings_snoc trace e.1 e.2).symm

/-! ## Programs -/

variable {α : Type} {Q : List τ → α → Prop} {seen : List τ}

/-- An operation that reads no clock leaves what has been read as it was. -/
theorem wp_quiet {o : Op} {k : Res o → Prog Op Res α} (hread : ∀ r, K.reading o r = none)
    (hallow : seen.Pairwise (· ≤ ·) → allow o)
    (hk : ∀ r, expect o r → (k r).wp (K.monitor allow expect) Q seen) :
    (Prog.call o k).wp (K.monitor allow expect) Q seen := by
  refine ⟨hallow, fun r hr => ?_⟩
  have hnext : (K.monitor allow expect).next seen o r = seen := by
    show seen ++ (K.reading o r).toList = seen
    rw [hread r, Option.toList_none, List.append_nil]
  rw [hnext]
  exact hk r hr

/-- A program whose operations are allowed whatever it has read. -/
theorem wp_of_calls {p : Prog Op Res α} (hp : p.Calls allow)
    (hQ : ∀ later a, seen <+: later → Q later a) : p.wp (K.monitor allow expect) Q seen := by
  induction p generalizing seen with
  | done a => exact hQ seen a List.prefix_rfl
  | call o k ih =>
    refine ⟨fun _ => hp.1, fun r _ => ih r (hp.2 r) fun later a hlater => ?_⟩
    exact hQ later a ((List.prefix_append seen _).trans hlater)

end Monitor

/-! ## Threads -/

section Threads

variable {K} [Preorder τ] {Y : System Op Res σ Ext Req ρ}
  {C : Config Op Res σ Req ρ → Label σ Ext Req → Prop}
  {allow : Op → Prop} {expect : (o : Op) → Res o → Prop} {Post : Req → List τ → ρ → Prop}
  {J : σ → Prop}

/-- The thread is watched, and has read times in order, up to the present one. -/
structure OnTime (K : Clock Op Res Ext τ) (allow : Op → Prop) (expect : (o : Op) → Res o → Prop)
    (Post : Req → List τ → ρ → Prop) (t : τ) (th : Thread Op Res Req ρ) : Prop where
  watched : System.Watched (K.monitor allow expect) [] Post th
  ordered : (K.readings th.trace).Pairwise (· ≤ ·)
  past : ∀ u ∈ K.readings th.trace, u ≤ t

theorem OnTime.later {t t' : τ} {th : Thread Op Res Req ρ} (h : OnTime K allow expect Post t th)
    (ht : t ≤ t') : OnTime K allow expect Post t' th :=
  ⟨h.watched, h.ordered, fun u hu => le_trans (h.past u hu) ht⟩

theorem OnTime.start (hprog : ∀ q, (Y.prog q).wp (K.monitor allow expect) (Post q) []) (t : τ)
    (q : Req) : OnTime K allow expect Post t (Y.start q) :=
  ⟨hprog q, List.Pairwise.nil, fun _ hu => absurd hu List.not_mem_nil⟩

/-- The operation a thread performs is allowed, and after it the thread is on time again. -/
theorem OnTime.step (hK : K.Lawful Y.toMachine) {t : τ} {th : Thread Op Res Req ρ}
    (h : OnTime K allow expect Post t th) {x : Ext} {o : Op} {k : Res o → Prog Op Res ρ}
    {r : Res o} {s s' : σ} {new : List Req} (hprog : th.prog = .call o k)
    (hx : Y.exec x o s = some (r, s', new)) (ht : t ≤ K.now x) :
    allow o ∧ (expect o r →
      OnTime K allow expect Post (K.now x) ⟨th.req, k r, th.trace ++ [⟨o, r⟩]⟩) := by
  have hw := h.watched
  rw [System.Watched, hprog, monitor_after] at hw
  refine ⟨hw.1 h.ordered, fun hexpect => ?_⟩
  have hread : ∀ u ∈ (K.reading o r).toList, u = K.now x := fun u hu =>
    hK x o s r s' new u hx (Option.mem_toList.mp hu)
  refine ⟨?_, ?_, ?_⟩
  · rw [System.Watched, Monitor.after_snoc, monitor_after]
    exact hw.2 r hexpect
  · rw [readings_snoc, List.pairwise_append]
    refine ⟨h.ordered, ?_, fun u hu v hv => ?_⟩
    · cases K.reading o r with
      | none => exact List.Pairwise.nil
      | some v => exact List.pairwise_singleton _ v
    · rw [hread v hv]
      exact le_trans (h.past u hu) ht
  · intro u hu
    rw [readings_snoc] at hu
    rcases List.mem_append.mp hu with hold | hnew
    · exact le_trans (h.past u hold) ht
    · exact le_of_eq (hread u hnew)

/-- **What the monitor keeps holds throughout every timed run** that begins without threads. -/
theorem Timed.shared (hK : K.Lawful Y.toMachine)
    (hprog : ∀ q, (Y.prog q).wp (K.monitor allow expect) (Post q) [])
    (hexec : ∀ (c : Config Op Res σ Req ρ) i x th o k r s new, C c (.run i x) →
      c.threads[i]? = some th → th.prog = .call o k → J c.shared → allow o →
      Y.exec x o c.shared = some (r, s, new) → J s ∧ expect o r)
    (henv : ∀ c s, C c (.env s) → J c.shared → J s)
    {a b : τ × Config Op Res σ Req ρ} (h : K.Timed Y C a b) (hidle : a.2.threads = [])
    (hJ : J a.2.shared) : J b.2.shared := by
  suffices hall : J b.2.shared ∧ ∀ th ∈ b.2.threads, OnTime K allow expect Post b.1 th from hall.1
  induction h with
  | refl =>
    refine ⟨hJ, fun th hth => ?_⟩
    rw [hidle] at hth
    cases hth
  | @tail b c _ hstep ih =>
    obtain ⟨hshared, hthreads⟩ := ih
    obtain ⟨l, hC, hle, htime, hl⟩ := hstep
    rw [htime]
    have hlater : ∀ th ∈ b.2.threads, OnTime K allow expect Post (K.tick b.1 l) th :=
      fun th hth => (hthreads th hth).later hle
    cases l with
    | arrive q =>
      rw [← Option.some.inj hl]
      refine ⟨hshared, fun th hth => ?_⟩
      rcases List.mem_append.mp hth with hold | hnew
      · exact hlater th hold
      · rw [List.mem_singleton.mp hnew]
        exact .start hprog _ q
    | env s =>
      rw [← Option.some.inj hl]
      exact ⟨henv b.2 s hC hshared, hlater⟩
    | run i x =>
      obtain ⟨th, o, k, r, s, new, hth, hcall, hx, hc⟩ := System.step_run hl
      obtain ⟨hallowed, hnext⟩ := (hthreads th (List.mem_of_getElem? hth)).step hK hcall hx hle
      obtain ⟨hkept, hexpected⟩ := hexec b.2 i x th o k r s new hC hth hcall hshared hallowed hx
      rw [hc]
      refine ⟨hkept, fun u hu => ?_⟩
      rcases List.mem_append.mp hu with hold | hnew
      · rcases List.mem_or_eq_of_mem_set hold with hother | rfl
        · exact hlater u hother
        · exact hnext hexpected
      · obtain ⟨q, -, rfl⟩ := List.mem_map.mp hnew
        exact .start hprog _ q

/-- A schedule all of whose steps are taken at one time, not before the first. -/
theorem timed_of_run {ok : Config Op Res σ Req ρ → Label σ Ext Req → Bool} {t : τ}
    (hok : ∀ c l, ok c l → C c l ∧ ∀ i x, l = .run i x → K.now x = t)
    {c c' : Config Op Res σ Req ρ} {ls : List (Label σ Ext Req)} (h : Y.run ok c ls = some c')
    {t₀ : τ} (ht : t₀ ≤ t) : ∃ t₁, t₁ ≤ t ∧ K.Timed Y C (t₀, c) (t₁, c') := by
  induction ls generalizing c t₀ with
  | nil =>
    cases h
    exact ⟨t₀, ht, .refl⟩
  | cons l ls ih =>
    simp only [System.run] at h
    split at h
    · rename_i hl
      obtain ⟨c₁, hstep, hrest⟩ := Option.bind_eq_some_iff.mp h
      obtain ⟨hC, hnow⟩ := hok c l hl
      have hbetween : t₀ ≤ K.tick t₀ l ∧ K.tick t₀ l ≤ t := by
        cases l with
        | run i x =>
          have heq : K.tick t₀ (.run i x : Label σ Ext Req) = t := hnow i x rfl
          rw [heq]
          exact ⟨ht, le_refl t⟩
        | arrive q => exact ⟨le_refl t₀, ht⟩
        | env s => exact ⟨le_refl t₀, ht⟩
      obtain ⟨t₁, ht₁, hrun⟩ := ih hrest hbetween.2
      exact ⟨t₁, ht₁, .head ⟨l, hC, hbetween.1, rfl, hstep⟩ hrun⟩
    · cases h

end Threads

end Clock

end Lib

import Mathlib.Logic.Relation
import PaciNet.Lib.Machine

/-!
# Pools of threads

A `System` is a machine together with the program each request runs. A pool is a shared state
and the threads serving the requests that have arrived; a step lets one thread perform one
operation, lets a request arrive, or lets the environment change the shared state. The threads
keep the trace of their answered operations, so everything a proof needs to know about the past
of a thread is a function of its trace.

The rule that carries the proofs is `Steps.watched`. Watch every thread with one monitor: if
every request's program is correct under the monitor *on its own*, and the shared state gives
only the answers the monitor relies on, then in every state the pool reaches **every thread is
still correct under the monitor from where its trace has brought it**. In particular the
operation a thread is about to perform is one the monitor allows.
-/

namespace Lib

/-- A machine, and the program each request runs. Tasks started by an operation are requests. -/
structure System (Op : Type) (Res : Op → Type) (σ Ext Req ρ : Type)
    extends Machine Op Res σ Ext Req where
  prog : Req → Prog Op Res ρ

/-- A thread: the request it serves, what it still has to do, and what it did. -/
structure Thread (Op : Type) (Res : Op → Type) (Req ρ : Type) where
  req : Req
  prog : Prog Op Res ρ
  trace : List ((o : Op) × Res o)

/-- The shared state and the threads. A thread keeps its index for ever. -/
structure Config (Op : Type) (Res : Op → Type) (σ Req ρ : Type) where
  shared : σ
  threads : List (Thread Op Res Req ρ)

/-- What one step of the pool is about. -/
inductive Label (σ Ext Req : Type) where
  | arrive (q : Req)
  | run (i : Nat) (x : Ext)
  | env (s : σ)

/-- A number of steps of one thread. -/
def Label.turns {σ Ext Req : Type} (i n : Nat) (x : Ext) : List (Label σ Ext Req) :=
  List.replicate n (.run i x)

namespace System

variable {Op : Type} {Res : Op → Type} {σ Ext Req ρ : Type}

section Step

variable (Y : System Op Res σ Ext Req ρ)

/-- A thread that has not done anything yet. -/
def start (q : Req) : Thread Op Res Req ρ := ⟨q, Y.prog q, []⟩

/-- One step of the pool; `none` when the label names no step that can be taken. -/
def step (c : Config Op Res σ Req ρ) : Label σ Ext Req → Option (Config Op Res σ Req ρ)
  | .arrive q => some { c with threads := c.threads ++ [Y.start q] }
  | .env s => some { c with shared := s }
  | .run i x =>
    match c.threads[i]? with
    | none => none
    | some t =>
      match t.prog with
      | .done _ => none
      | .call o k =>
        match Y.exec x o c.shared with
        | none => none
        | some (r, s, new) => some
            { shared := s
              threads := c.threads.set i ⟨t.req, k r, t.trace ++ [⟨o, r⟩]⟩ ++ new.map Y.start }

/-- A step whose label is acceptable to `C` where it is taken. -/
def StepIf (C : Config Op Res σ Req ρ → Label σ Ext Req → Prop)
    (c c' : Config Op Res σ Req ρ) : Prop :=
  ∃ l, C c l ∧ Y.step c l = some c'

/-- Any number of steps, each acceptable to `C`. -/
def Steps (C : Config Op Res σ Req ρ → Label σ Ext Req → Prop) :
    Config Op Res σ Req ρ → Config Op Res σ Req ρ → Prop :=
  Relation.ReflTransGen (Y.StepIf C)

/-- Follow a schedule as long as its labels pass a check. -/
def run (ok : Config Op Res σ Req ρ → Label σ Ext Req → Bool) (c : Config Op Res σ Req ρ) :
    List (Label σ Ext Req) → Option (Config Op Res σ Req ρ)
  | [] => some c
  | l :: ls => if ok c l then (Y.step c l).bind fun c' => run ok c' ls else none

end Step

variable {Y : System Op Res σ Ext Req ρ}
  {C : Config Op Res σ Req ρ → Label σ Ext Req → Prop} {c c' : Config Op Res σ Req ρ}

/-- Everything a thread step can do. -/
theorem step_run {i : Nat} {x : Ext} (h : Y.step c (.run i x) = some c') :
    ∃ t o k r s new, c.threads[i]? = some t ∧ t.prog = .call o k ∧
      Y.exec x o c.shared = some (r, s, new) ∧
      c' = ⟨s, c.threads.set i ⟨t.req, k r, t.trace ++ [⟨o, r⟩]⟩ ++ new.map Y.start⟩ := by
  simp only [step] at h
  split at h
  · exact absurd h (by simp)
  · rename_i t ht
    split at h
    · exact absurd h (by simp)
    · rename_i o k hk
      split at h
      · exact absurd h (by simp)
      · rename_i r s new hx
        exact ⟨t, o, k, r, s, new, ht, hk, hx, (Option.some.inj h).symm⟩

/-- A thread whose operation is answered takes its step. -/
theorem step_of_exec {i : Nat} {x : Ext} {t : Thread Op Res Req ρ} {o : Op}
    {k : Res o → Prog Op Res ρ} {r : Res o} {s : σ} {new : List Req}
    (ht : c.threads[i]? = some t) (hk : t.prog = .call o k)
    (hx : Y.exec x o c.shared = some (r, s, new)) :
    Y.step c (.run i x) =
      some ⟨s, c.threads.set i ⟨t.req, k r, t.trace ++ [⟨o, r⟩]⟩ ++ new.map Y.start⟩ := by
  simp only [step, ht, hk, hx]

/-- A schedule that passes a check for `C` is a run. -/
theorem steps_of_run {ok : Config Op Res σ Req ρ → Label σ Ext Req → Bool}
    (hok : ∀ c l, ok c l → C c l) {ls : List (Label σ Ext Req)} (h : Y.run ok c ls = some c') :
    Y.Steps C c c' := by
  induction ls generalizing c with
  | nil => exact Option.some.inj h ▸ .refl
  | cons l ls ih =>
    simp only [run] at h
    split at h
    · rename_i hl
      obtain ⟨c₁, h₁, h⟩ := Option.bind_eq_some_iff.1 h
      exact .head ⟨l, hok c l hl, h₁⟩ (ih h)
    · exact absurd h (by simp)

/-- Two schedules, one after the other, that lead through configurations with a given property
    are two runs. -/
theorem steps_of_runs (Y : System Op Res σ Ext Req ρ) (c : Config Op Res σ Req ρ)
    {ok : Config Op Res σ Req ρ → Label σ Ext Req → Bool} (hok : ∀ c l, ok c l → C c l)
    (ls ls' : List (Label σ Ext Req)) (P : Config Op Res σ Req ρ → Config Op Res σ Req ρ → Bool)
    (h : (Y.run ok c ls).any fun c₁ => (Y.run ok c₁ ls').any (P c₁)) :
    ∃ c₁ c₂, Y.Steps C c c₁ ∧ Y.Steps C c₁ c₂ ∧ P c₁ c₂ := by
  obtain ⟨c₁, h₁, h⟩ := Option.any_eq_true _ _ |>.1 h
  obtain ⟨c₂, h₂, hP⟩ := Option.any_eq_true _ _ |>.1 h
  exact ⟨c₁, c₂, steps_of_run hok h₁, steps_of_run hok h₂, hP⟩

/-- What a thread reaches on its own, the pool reaches by running it. -/
theorem steps_of_reach {p p' : Prog Op Res ρ} {s s' : σ} (h : Y.toMachine.Reach p s p' s')
    (hC : ∀ c i x, C c (.run i x)) {i : Nat} {t : Thread Op Res Req ρ}
    (ht : c.threads[i]? = some t) (hp : t.prog = p) (hs : c.shared = s) :
    ∃ c' t', Y.Steps C c c' ∧ c'.threads[i]? = some t' ∧ t'.prog = p' ∧ c'.shared = s' := by
  induction h generalizing c t with
  | refl => exact ⟨c, t, .refl, ht, hp, hs⟩
  | @step o k _ s s₁ s' r x hx _ ih =>
    subst hs
    -- the step of thread `i`, after which it is still thread `i`
    let t' : Thread Op Res Req ρ := ⟨t.req, k r, t.trace ++ [⟨o, r⟩]⟩
    let c₁ : Config Op Res σ Req ρ := ⟨s₁, c.threads.set i t' ++ [].map Y.start⟩
    have hstep : Y.step c (.run i x) = some c₁ := step_of_exec ht hp hx
    have hlt : i < c.threads.length := (List.getElem?_eq_some_iff.1 ht).1
    have ht' : c₁.threads[i]? = some t' := by simp [c₁, hlt]
    obtain ⟨c', u, hrun, hu⟩ := ih ht' rfl rfl
    exact ⟨c', u, .head ⟨_, hC c i x, hstep⟩ hrun, hu⟩

/-- A thread that runs alone stays alone as long as it starts no task. -/
theorem steps_of_reach_alone {p p' : Prog Op Res ρ} {s s' : σ}
    (h : Y.toMachine.Reach p s p' s') (hC : ∀ c i x, C c (.run i x)) {t : Thread Op Res Req ρ}
    (hp : t.prog = p) : ∃ t', Y.Steps C ⟨s, [t]⟩ ⟨s', [t']⟩ ∧ t'.prog = p' := by
  induction h generalizing t with
  | refl => exact ⟨t, .refl, hp⟩
  | @step o k _ s s₁ s' r x hx _ ih =>
    have hstep : Y.step ⟨s, [t]⟩ (.run 0 x) = some ⟨s₁, [⟨t.req, k r, t.trace ++ [⟨o, r⟩]⟩]⟩ :=
      step_of_exec (c := ⟨s, [t]⟩) (i := 0) rfl hp hx
    obtain ⟨t', hrun, hp'⟩ := ih (t := ⟨t.req, k r, t.trace ++ [⟨o, r⟩]⟩) rfl
    exact ⟨t', .head ⟨_, hC _ 0 x, hstep⟩ hrun, hp'⟩

theorem steps_of_can {Q : σ → Prop} {p : Prog Op Res ρ} {s : σ} (h : Y.toMachine.Can Q p s)
    (hC : ∀ c i x, C c (.run i x)) {i : Nat} {t : Thread Op Res Req ρ}
    (ht : c.threads[i]? = some t) (hp : t.prog = p) (hs : c.shared = s) :
    ∃ c', Y.Steps C c c' ∧ Q c'.shared := by
  obtain ⟨p', s', hr, hQ⟩ := h
  obtain ⟨c', t', hrun, -, -, rfl⟩ := steps_of_reach hr hC ht hp hs
  exact ⟨c', hrun, hQ⟩

/-- The induction over a run, once. -/
theorem Steps.invariant (h : Y.Steps C c c') (I : Config Op Res σ Req ρ → Prop)
    (hstep : ∀ c l c', C c l → Y.step c l = some c' → I c → I c') (hc : I c) : I c' := by
  induction h with
  | refl => exact hc
  | tail _ hs ih =>
    obtain ⟨l, hC, hl⟩ := hs
    exact hstep _ l _ hC hl ih

theorem Steps.weaken {C' : Config Op Res σ Req ρ → Label σ Ext Req → Prop} (h : Y.Steps C c c')
    (hC : ∀ c l, C c l → C' c l) : Y.Steps C' c c' := by
  refine Relation.ReflTransGen.mono ?_ _ _ h
  rintro d d' ⟨l, hl, hs⟩
  exact ⟨l, hC d l hl, hs⟩

/-- The steps of a run are taken where the invariant holds. -/
theorem Steps.along (h : Y.Steps C c c') (I : Config Op Res σ Req ρ → Prop)
    (hstep : ∀ c l c', C c l → Y.step c l = some c' → I c → I c') (hc : I c) :
    Y.Steps (fun c l => C c l ∧ I c) c c' := by
  refine (h.invariant (fun d => Y.Steps (fun c l => C c l ∧ I c) c d ∧ I d) ?_ ⟨.refl, hc⟩).1
  rintro d l d' hl hs ⟨hrun, hd⟩
  exact ⟨hrun.tail ⟨l, ⟨hl, hd⟩, hs⟩, hstep d l d' hl hs hd⟩

/-- A property of the shared state that every operation keeps where it is performed. -/
theorem Steps.shared_invariant (h : Y.Steps C c c') (J : σ → Prop)
    (hrun : ∀ (c : Config Op Res σ Req ρ) (i : Nat) (t : Thread Op Res Req ρ) (o : Op)
      (k : Res o → Prog Op Res ρ) (x : Ext) (r : Res o) (s : σ) (new : List Req),
      C c (.run i x) → c.threads[i]? = some t → t.prog = .call o k →
      Y.exec x o c.shared = some (r, s, new) → J c.shared → J s)
    (henv : ∀ c s, C c (.env s) → J c.shared → J s) (hc : J c.shared) : J c'.shared := by
  refine h.invariant (fun c => J c.shared) (fun c l c' hl hstep hJ => ?_) hc
  cases l with
  | arrive q =>
    cases hstep
    exact hJ
  | env s =>
    cases hstep
    exact henv c s hl hJ
  | run i x =>
    obtain ⟨t, o, k, r, s, new, ht, hk, hx, rfl⟩ := step_run hstep
    exact hrun c i t o k x r s new hl ht hk hx hJ

/-! ## Watching every thread -/

variable {S : Type}

/-- The thread is correct under the monitor from where its trace has brought it. -/
def Watched (M : Monitor Op Res S) (s₀ : S) (Post : Req → S → ρ → Prop)
    (t : Thread Op Res Req ρ) : Prop :=
  t.prog.wp M (Post t.req) (M.after s₀ t.trace)

/-- What a monitor needs of the system: requests are correct on their own, and an allowed
    operation is answered as the monitor relies on, keeping the shared invariant. -/
structure Guarantee (Y : System Op Res σ Ext Req ρ) (M : Monitor Op Res S) (s₀ : S)
    (Post : Req → S → ρ → Prop) (J : σ → Prop) (Ok : Req → Prop) : Prop where
  prog : ∀ q, Ok q → (Y.prog q).wp M (Post q) s₀
  exec : ∀ st x o s r s' new, J s → M.allow st o → Y.exec x o s = some (r, s', new) →
    J s' ∧ M.expect o r ∧ ∀ q ∈ new, Ok q

/-- What the monitor needs of the steps: acceptable requests arrive, and the environment keeps
    the shared invariant. -/
def Relies (C : Config Op Res σ Req ρ → Label σ Ext Req → Prop) (J : σ → Prop)
    (Ok : Req → Prop) : Prop :=
  (∀ c q, C c (.arrive q) → Ok q) ∧ ∀ c s, C c (.env s) → J c.shared → J s

variable {M : Monitor Op Res S} {s₀ : S} {Post : Req → S → ρ → Prop} {J : σ → Prop}
  {Ok : Req → Prop}

/-- The shared invariant holds and every thread is watched. -/
def AllWatched (M : Monitor Op Res S) (s₀ : S) (Post : Req → S → ρ → Prop) (J : σ → Prop)
    (c : Config Op Res σ Req ρ) : Prop :=
  J c.shared ∧ ∀ t ∈ c.threads, Watched M s₀ Post t

theorem Guarantee.start (G : Y.Guarantee M s₀ Post J Ok) {q : Req} (hq : Ok q) :
    Watched M s₀ Post (Y.start q) :=
  G.prog q hq

/-- What the monitor says where a thread performs an operation. -/
structure Guarantee.Acts (Y : System Op Res σ Ext Req ρ) (M : Monitor Op Res S) (s₀ : S)
    (t : Thread Op Res Req ρ) (o : Op) (r : Res o) : Prop where
  allowed : M.allow (M.after s₀ t.trace) o
  expected : M.expect o r

/-- The operation a watched thread performs is allowed and its answer is expected. -/
theorem Guarantee.acts (G : Y.Guarantee M s₀ Post J Ok) (hc : AllWatched M s₀ Post J c)
    {i : Nat} {x : Ext} {t : Thread Op Res Req ρ} {o : Op} {k : Res o → Prog Op Res ρ}
    {r : Res o} {s : σ} {new : List Req} (ht : c.threads[i]? = some t) (hk : t.prog = .call o k)
    (hx : Y.exec x o c.shared = some (r, s, new)) : Guarantee.Acts Y M s₀ t o r := by
  have hw := hc.2 t (List.mem_of_getElem? ht)
  rw [Watched, hk] at hw
  exact ⟨hw.1, (G.exec _ x o _ r s new hc.1 hw.1 hx).2.1⟩

/-- One step keeps every thread watched. -/
theorem Guarantee.step (G : Y.Guarantee M s₀ Post J Ok) (hC : Relies C J Ok)
    {l : Label σ Ext Req} (hl : C c l) (h : Y.step c l = some c')
    (hc : AllWatched M s₀ Post J c) : AllWatched M s₀ Post J c' := by
  cases l with
  | arrive q =>
    cases h
    refine ⟨hc.1, fun t ht => ?_⟩
    rcases List.mem_append.1 ht with ht | ht
    · exact hc.2 t ht
    · rw [List.mem_singleton.1 ht]
      exact G.start (hC.1 c q hl)
  | env s =>
    cases h
    exact ⟨hC.2 c s hl hc.1, hc.2⟩
  | run i x =>
    obtain ⟨t, o, k, r, s, new, ht, hk, hx, rfl⟩ := step_run h
    have hw := hc.2 t (List.mem_of_getElem? ht)
    rw [Watched, hk] at hw
    obtain ⟨hJ, hexp, hnew⟩ := G.exec _ x o _ r s new hc.1 hw.1 hx
    refine ⟨hJ, fun u hu => ?_⟩
    rcases List.mem_append.1 hu with hu | hu
    · rcases List.mem_or_eq_of_mem_set hu with hu | rfl
      · exact hc.2 u hu
      · simpa only [Watched, Monitor.after_snoc] using hw.2 r hexp
    · obtain ⟨q, hq, rfl⟩ := List.mem_map.1 hu
      exact G.start (hnew q hq)

/-- **A monitor that accepts every request on its own watches every thread of every run.** -/
theorem Steps.watched (G : Y.Guarantee M s₀ Post J Ok) (hC : Relies C J Ok)
    (h : Y.Steps C c c') (hc : AllWatched M s₀ Post J c) : AllWatched M s₀ Post J c' :=
  h.invariant _ (fun _ _ _ hl hs hd => G.step hC hl hs hd) hc

/-- Every thread of a run serves an acceptable request. -/
theorem Steps.served (G : Y.Guarantee M s₀ Post J Ok) (hC : Relies C J Ok) (h : Y.Steps C c c')
    (hc : AllWatched M s₀ Post J c) (hok : ∀ t ∈ c.threads, Ok t.req) :
    ∀ t ∈ c'.threads, Ok t.req := by
  refine (h.invariant (fun c => AllWatched M s₀ Post J c ∧ ∀ t ∈ c.threads, Ok t.req) ?_
    ⟨hc, hok⟩).2
  rintro c l c' hl hstep ⟨hc, hok⟩
  refine ⟨G.step hC hl hstep hc, ?_⟩
  cases l with
  | arrive q =>
    cases hstep
    intro t ht
    rcases List.mem_append.1 ht with ht | ht
    · exact hok t ht
    · rw [List.mem_singleton.1 ht]
      exact hC.1 c q hl
  | env s =>
    cases hstep
    exact hok
  | run i x =>
    obtain ⟨t, o, k, r, s, new, ht, hk, hx, rfl⟩ := step_run hstep
    have hw := hc.2 t (List.mem_of_getElem? ht)
    rw [Watched, hk] at hw
    obtain ⟨-, -, hnew⟩ := G.exec _ x o _ r s new hc.1 hw.1 hx
    intro u hu
    rcases List.mem_append.1 hu with hu | hu
    · rcases List.mem_or_eq_of_mem_set hu with hu | rfl
      · exact hok u hu
      · exact hok t (List.mem_of_getElem? ht)
    · obtain ⟨q, hq, rfl⟩ := List.mem_map.1 hu
      exact hnew q hq

/-- A pool without threads is watched. -/
theorem allWatched_of_idle (hJ : J c.shared) (hc : c.threads = []) :
    AllWatched M s₀ Post J c :=
  ⟨hJ, by simp [hc]⟩

/-! ## Threads after a step -/

/-- The thread at an index after a step of thread `i`: it is the one that moved, one that stood
    still, or one that was just started. -/
theorem getElem?_after {ts : List (Thread Op Res Req ρ)} {i j : Nat}
    {t' u : Thread Op Res Req ρ} {new : List Req}
    (h : (ts.set i t' ++ new.map Y.start)[j]? = some u) :
    (j = i ∧ u = t') ∨ (j ≠ i ∧ ts[j]? = some u) ∨ ∃ q ∈ new, u = Y.start q := by
  rw [List.getElem?_append] at h
  split at h
  · rename_i hlt
    by_cases hji : i = j
    · subst hji
      rw [List.getElem?_set_self (by simpa using hlt)] at h
      exact .inl ⟨rfl, (Option.some.inj h).symm⟩
    · rw [List.getElem?_set_ne hji] at h
      exact .inr (.inl ⟨Ne.symm hji, h⟩)
  · obtain ⟨q, hq, rfl⟩ := List.mem_map.1 (List.mem_of_getElem? h)
    exact .inr (.inr ⟨q, hq, rfl⟩)

/-- A thread after a step of thread `i` was there before, or moved, or was just started. -/
theorem mem_after {ts : List (Thread Op Res Req ρ)} {i : Nat} {t' u : Thread Op Res Req ρ}
    {new : List Req} (h : u ∈ ts.set i t' ++ new.map Y.start) :
    u ∈ ts ∨ u = t' ∨ ∃ q ∈ new, u = Y.start q := by
  rcases List.mem_append.1 h with hu | hu
  · rcases List.mem_or_eq_of_mem_set hu with hold | hmoved
    · exact .inl hold
    · exact .inr (.inl hmoved)
  · obtain ⟨q, hq, rfl⟩ := List.mem_map.1 hu
    exact .inr (.inr ⟨q, hq, rfl⟩)

/-- **What the threads of a run were answered is what the monitor expects.** -/
theorem Steps.expected (G : Y.Guarantee M s₀ Post J Ok) (hC : Relies C J Ok) (h : Y.Steps C c c')
    (hJ : J c.shared) (hidle : c.threads = []) :
    ∀ t ∈ c'.threads, ∀ e ∈ t.trace, M.expect e.1 e.2 := by
  refine (h.invariant (fun d => AllWatched M s₀ Post J d ∧
    ∀ t ∈ d.threads, ∀ e ∈ t.trace, M.expect e.1 e.2) ?_
      ⟨allWatched_of_idle hJ hidle, by simp [hidle]⟩).2
  rintro d l d' hl hstep ⟨hd, hexpected⟩
  refine ⟨G.step hC hl hstep hd, ?_⟩
  cases l with
  | arrive q =>
    cases hstep
    intro t ht e he
    rcases List.mem_append.1 ht with ht | ht
    · exact hexpected t ht e he
    · rw [List.mem_singleton.1 ht] at he
      exact absurd he List.not_mem_nil
  | env s =>
    cases hstep
    exact hexpected
  | run i x =>
    obtain ⟨t, o, k, r, s, new, ht, hk, hx, rfl⟩ := step_run hstep
    intro u hu e he
    rcases mem_after hu with hu | rfl | ⟨q, -, rfl⟩
    · exact hexpected u hu e he
    · rcases List.mem_append.1 he with he | he
      · exact hexpected t (List.mem_of_getElem? ht) e he
      · obtain rfl := List.mem_singleton.1 he
        exact (G.acts hd ht hk hx).expected
    · exact absurd he List.not_mem_nil

/-- A thread that was there is still there, or it is the one that moved. -/
theorem mem_after_of_mem {ts new : List (Thread Op Res Req ρ)} {i : Nat}
    {t t' u : Thread Op Res Req ρ} (ht : ts[i]? = some t) (hu : u ∈ ts) :
    u ∈ ts.set i t' ++ new ∨ u = t ∧ t' ∈ ts.set i t' ++ new := by
  obtain ⟨j, hj⟩ := List.mem_iff_getElem?.1 hu
  by_cases hij : i = j
  · subst hij
    have hlt : i < ts.length := (List.getElem?_eq_some_iff.1 ht).1
    exact .inr ⟨Option.some.inj (hj.symm.trans ht), List.mem_append_left _ (List.mem_set hlt _)⟩
  · refine .inl (List.mem_append_left _ (List.mem_of_getElem? (i := j) ?_))
    rw [List.getElem?_set_ne hij]
    exact hj

end System

end Lib

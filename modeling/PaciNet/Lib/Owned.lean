import PaciNet.Lib.Pool

/-!
# What the threads of a pool own

A monitor sees one thread, and an invariant of the shared state sees no thread. Between the two
stands what a thread may rely on about the part of the shared state that is its own: a file under
a name it has drawn, a lock it holds. It is said of a stage of the monitor and the shared state
(`owns`), and holds because two threads are never in stages whose parts meet (`apart`).

**If an operation that the monitor allows keeps the invariant, brings its own thread to a stage
whose part is there, and leaves the parts of the others alone, every thread of every run has its
part** (`Steps.settled`).

What is there without an owner has been left behind. `Steps.accounted` says that nothing is, as
long as a thread gives up only what it removes.
-/

set_option autoImplicit false

namespace Lib

variable {Op : Type} {Res : Op → Type} {σ Ext Req ρ S K : Type}

/-- What holds of the shared state, what a thread in a stage owns of it, and which stages do not
    get in each other's way. -/
structure Ownership (S σ : Type) where
  invariant : σ → Prop
  owns : S → σ → Prop
  apart : S → S → Prop

namespace System

/-- What is asked of the programs and of the operations of a system. -/
structure Tended (Y : System Op Res σ Ext Req ρ) (M : Monitor Op Res S) (s₀ : S)
    (Post : Req → S → ρ → Prop) (O : Ownership S σ) : Prop where
  prog : ∀ q, (Y.prog q).wp M (Post q) s₀
  symm : ∀ st su, O.apart st su → O.apart su st
  start : ∀ s, O.owns s₀ s ∧ ∀ st, O.apart s₀ st
  own : ∀ {st x o s r s' new}, O.invariant s → O.owns st s → M.allow st o →
    Y.exec x o s = some (r, s', new) → O.invariant s' ∧ O.owns (M.next st o r) s' ∧ M.expect o r
  other : ∀ {st su x o s r s' new}, O.invariant s → O.owns st s → O.owns su s → O.apart st su →
    M.allow st o → Y.exec x o s = some (r, s', new) → O.owns su s' ∧ O.apart (M.next st o r) su

/-- The stage a thread has reached. -/
def stageOf (M : Monitor Op Res S) (s₀ : S) (t : Thread Op Res Req ρ) : S := M.after s₀ t.trace

/-- Every thread is watched, has its part, and is apart from the others. -/
structure Settled (M : Monitor Op Res S) (s₀ : S) (Post : Req → S → ρ → Prop) (O : Ownership S σ)
    (c : Config Op Res σ Req ρ) : Prop where
  invariant : O.invariant c.shared
  watched : ∀ t ∈ c.threads, Watched M s₀ Post t
  owns : ∀ t ∈ c.threads, O.owns (stageOf M s₀ t) c.shared
  apart : ∀ {i j : Nat} {t u : Thread Op Res Req ρ}, i ≠ j → c.threads[i]? = some t →
    c.threads[j]? = some u → O.apart (stageOf M s₀ t) (stageOf M s₀ u)

variable {Y : System Op Res σ Ext Req ρ} {M : Monitor Op Res S} {s₀ : S}
  {Post : Req → S → ρ → Prop} {O : Ownership S σ} {c c' : Config Op Res σ Req ρ}
  {C : Config Op Res σ Req ρ → Label σ Ext Req → Prop}

/-- The environment keeps the invariant and takes from nobody what they own. -/
def Undisturbed (O : Ownership S σ) (C : Config Op Res σ Req ρ → Label σ Ext Req → Prop) : Prop :=
  ∀ c s, C c (.env s) → O.invariant c.shared →
    O.invariant s ∧ ∀ st, O.owns st c.shared → O.owns st s

/-- The environment leaves the shared state alone. -/
def Closed (C : Config Op Res σ Req ρ → Label σ Ext Req → Prop) : Prop :=
  ∀ c s, ¬ C c (.env s)

theorem Closed.undisturbed (hC : Closed C) : Undisturbed O C :=
  fun c s henv => absurd henv (hC c s)

/-- A thread is one of the old ones, under its index, or has just been started. -/
theorem getElem?_started {ts : List (Thread Op Res Req ρ)} {new : List Req} {j : Nat}
    {u : Thread Op Res Req ρ} (h : (ts ++ new.map Y.start)[j]? = some u) :
    ts[j]? = some u ∨ ∃ q, u = Y.start q := by
  rw [List.getElem?_append] at h
  split at h
  · exact .inl h
  · obtain ⟨q, -, rfl⟩ := List.mem_map.1 (List.mem_of_getElem? h)
    exact .inr ⟨q, rfl⟩

/-- Threads that are started do not disturb the others. -/
theorem Tended.started (T : Y.Tended M s₀ Post O) (h : Settled M s₀ Post O c) (new : List Req) :
    Settled M s₀ Post O { c with threads := c.threads ++ new.map Y.start } := by
  have hstart := T.start c.shared
  refine ⟨h.invariant, fun t ht => ?_, fun t ht => ?_, fun {i j t u} hij ht hu => ?_⟩
  · rcases List.mem_append.1 ht with ht | ht
    · exact h.watched t ht
    · obtain ⟨q, -, rfl⟩ := List.mem_map.1 ht
      exact T.prog q
  · rcases List.mem_append.1 ht with ht | ht
    · exact h.owns t ht
    · obtain ⟨q, -, rfl⟩ := List.mem_map.1 ht
      exact hstart.1
  · rcases getElem?_started ht with ht | ⟨q, rfl⟩
    · rcases getElem?_started hu with hu | ⟨q, rfl⟩
      · exact h.apart hij ht hu
      · exact T.symm _ _ (hstart.2 _)
    · exact hstart.2 _

/-- The thread at an index after thread `i` has moved. -/
theorem getElem?_moved {ts : List (Thread Op Res Req ρ)} {i j : Nat}
    {t' u : Thread Op Res Req ρ} (h : (ts.set i t')[j]? = some u) :
    (j = i ∧ u = t') ∨ (j ≠ i ∧ ts[j]? = some u) := by
  by_cases hij : i = j
  · subst hij
    rw [List.getElem?_set_self'] at h
    obtain ⟨_, -, hu⟩ := Option.map_eq_some_iff.1 h
    exact .inl ⟨rfl, hu.symm⟩
  · rw [List.getElem?_set_ne hij] at h
    exact .inr ⟨Ne.symm hij, h⟩

/-- The turn of one thread. -/
theorem Tended.moved (T : Y.Tended M s₀ Post O) (h : Settled M s₀ Post O c) {i : Nat} {x : Ext}
    {t : Thread Op Res Req ρ} {o : Op} {k : Res o → Prog Op Res ρ} {r : Res o} {s : σ}
    {new : List Req} (ht : c.threads[i]? = some t) (hk : t.prog = .call o k)
    (hx : Y.exec x o c.shared = some (r, s, new)) :
    Settled M s₀ Post O ⟨s, c.threads.set i ⟨t.req, k r, t.trace ++ [⟨o, r⟩]⟩⟩ := by
  have hmem := List.mem_of_getElem? ht
  have hwatched := h.watched t hmem
  rw [Watched, hk] at hwatched
  have hallow : M.allow (stageOf M s₀ t) o := hwatched.1
  obtain ⟨hinv, hown, hexpect⟩ := T.own h.invariant (h.owns t hmem) hallow hx
  have hstage (p : Prog Op Res ρ) : stageOf M s₀ ⟨t.req, p, t.trace ++ [⟨o, r⟩]⟩ =
      M.next (stageOf M s₀ t) o r := Monitor.after_snoc M s₀ _ _
  -- what the turn means for a thread that did not move
  have hother {j : Nat} {u : Thread Op Res Req ρ} (hj : j ≠ i) (hu : c.threads[j]? = some u) :
      O.owns (stageOf M s₀ u) s ∧ O.apart (M.next (stageOf M s₀ t) o r) (stageOf M s₀ u) :=
    T.other h.invariant (h.owns t hmem) (h.owns u (List.mem_of_getElem? hu))
      (h.apart (Ne.symm hj) ht hu) hallow hx
  refine ⟨hinv, fun u hu => ?_, fun u hu => ?_, fun {a b u v} hab hu hv => ?_⟩
  · rcases List.mem_or_eq_of_mem_set hu with hu | rfl
    · exact h.watched u hu
    · rw [Watched, Monitor.after_snoc]
      exact hwatched.2 r hexpect
  · obtain ⟨j, hj⟩ := List.getElem?_of_mem hu
    rcases getElem?_moved hj with ⟨-, rfl⟩ | ⟨hji, hj⟩
    · rw [hstage]
      exact hown
    · exact (hother hji hj).1
  · rcases getElem?_moved hu with ⟨rfl, rfl⟩ | ⟨hai, hu'⟩
    · rcases getElem?_moved hv with ⟨rfl, -⟩ | ⟨hbi, hv'⟩
      · exact absurd rfl hab
      · rw [hstage]
        exact (hother hbi hv').2
    · rcases getElem?_moved hv with ⟨rfl, rfl⟩ | ⟨hbi, hv'⟩
      · rw [hstage]
        exact T.symm _ _ (hother hai hu').2
      · exact h.apart hab hu' hv'

theorem Tended.step (T : Y.Tended M s₀ Post O) (hC : Undisturbed O C) {l : Label σ Ext Req}
    (hl : C c l) (hstep : Y.step c l = some c') (h : Settled M s₀ Post O c) :
    Settled M s₀ Post O c' := by
  cases l with
  | arrive q =>
    cases hstep
    exact T.started h [q]
  | env s =>
    cases hstep
    obtain ⟨hinv, howns⟩ := hC c s hl h.invariant
    exact ⟨hinv, h.watched, fun t ht => howns _ (h.owns t ht), h.apart⟩
  | run i x =>
    obtain ⟨t, o, k, r, s, new, ht, hk, hx, rfl⟩ := step_run hstep
    exact T.started (T.moved h ht hk hx) new

/-- **Every thread of every run has its part.** -/
theorem Steps.settled (T : Y.Tended M s₀ Post O) (hC : Undisturbed O C) (h : Y.Steps C c c')
    (hc : c.threads = []) (hs : O.invariant c.shared) : Settled M s₀ Post O c' := by
  refine h.invariant (Settled M s₀ Post O) (fun _ _ _ hl hstep hd => T.step hC hl hstep hd) ?_
  refine ⟨hs, ?_, ?_, fun {i j t u} _ ht => ?_⟩
  · simp [hc]
  · simp [hc]
  · simp [hc] at ht

/-! ## What is left behind -/

/-- Everything that is present in the shared state is claimed by a thread. -/
def Accounted (M : Monitor Op Res S) (s₀ : S) (present : σ → K → Prop) (claimed : S → K → Prop)
    (c : Config Op Res σ Req ρ) : Prop :=
  ∀ k, present c.shared k → ∃ t ∈ c.threads, claimed (stageOf M s₀ t) k

/-- A thread claims what it brings in, and gives up only what it has removed. -/
def GivesUp (Y : System Op Res σ Ext Req ρ) (M : Monitor Op Res S) (O : Ownership S σ)
    (present : σ → K → Prop) (claimed : S → K → Prop) : Prop :=
  ∀ {st x o s r s' new}, O.owns st s → M.allow st o → Y.exec x o s = some (r, s', new) →
    ∀ k, present s' k → claimed (M.next st o r) k ∨ (present s k ∧ ¬ claimed st k)

variable {present : σ → K → Prop} {claimed : S → K → Prop}

/-- The turn of one thread keeps account. -/
theorem GivesUp.moved (hY : GivesUp Y M O present claimed) (h : Settled M s₀ Post O c)
    (hc : Accounted M s₀ present claimed c) {i : Nat} {x : Ext}
    {t : Thread Op Res Req ρ} {o : Op} {k : Res o → Prog Op Res ρ} {r : Res o} {s : σ}
    {new : List Req} (ht : c.threads[i]? = some t) (hk : t.prog = .call o k)
    (hx : Y.exec x o c.shared = some (r, s, new)) :
    Accounted M s₀ present claimed ⟨s, c.threads.set i ⟨t.req, k r, t.trace ++ [⟨o, r⟩]⟩⟩ := by
  have hmem := List.mem_of_getElem? ht
  have hlt : i < c.threads.length := (List.getElem?_eq_some_iff.1 ht).1
  have hwatched := h.watched t hmem
  rw [Watched, hk] at hwatched
  intro key hpresent
  have hself : ⟨t.req, k r, t.trace ++ [⟨o, r⟩]⟩ ∈
      c.threads.set i ⟨t.req, k r, t.trace ++ [⟨o, r⟩]⟩ := List.mem_set hlt _
  rcases hY (h.owns t hmem) hwatched.1 hx key hpresent with hclaimed | ⟨hbefore, hnot⟩
  · refine ⟨_, hself, ?_⟩
    rw [stageOf, Monitor.after_snoc]
    exact hclaimed
  · -- another thread claims it, and that has not moved
    obtain ⟨u, hu, hclaimed⟩ := hc key hbefore
    obtain ⟨j, hj⟩ := List.getElem?_of_mem hu
    have hji : i ≠ j := by
      rintro rfl
      rw [Option.some.inj (hj.symm.trans ht)] at hclaimed
      exact hnot hclaimed
    exact ⟨u, List.mem_of_getElem? (by rw [List.getElem?_set_ne hji, hj]), hclaimed⟩

/-- **In every run, what is present is claimed.** -/
theorem Steps.accounted (T : Y.Tended M s₀ Post O) (hY : GivesUp Y M O present claimed)
    (hC : Closed C) (h : Y.Steps C c c') (hc : c.threads = []) (hs : O.invariant c.shared)
    (hpresent : ∀ k, ¬ present c.shared k) : Accounted M s₀ present claimed c' := by
  refine (h.invariant (fun d => Settled M s₀ Post O d ∧ Accounted M s₀ present claimed d)
    (fun d l d' hl hstep hd => ?_)
    ⟨Steps.settled (Y := Y) (C := C) T hC.undisturbed .refl hc hs, fun k hk => absurd hk (hpresent k)⟩).2
  refine ⟨T.step hC.undisturbed hl hstep hd.1, ?_⟩
  cases l with
  | arrive q =>
    cases hstep
    intro k hk
    obtain ⟨t, ht, hclaimed⟩ := hd.2 k hk
    exact ⟨t, List.mem_append_left _ ht, hclaimed⟩
  | env s => exact absurd hl (hC d s)
  | run i x =>
    obtain ⟨t, o, k, r, s, new, ht, hk, hx, rfl⟩ := step_run hstep
    intro key hkey
    obtain ⟨u, hu, hclaimed⟩ := hY.moved hd.1 hd.2 ht hk hx key hkey
    exact ⟨u, List.mem_append_left _ hu, hclaimed⟩

/-! ## What is handed over -/

/-- What each thread has handed over. -/
def handed (M : Monitor Op Res S) (s₀ : S) (given : S → Option K)
    (ts : List (Thread Op Res Req ρ)) : List K :=
  ts.filterMap fun t => given (stageOf M s₀ t)

/-- A thread hands over one thing at most, which is then put at the end of what there is. -/
def HandsOver (Y : System Op Res σ Ext Req ρ) (M : Monitor Op Res S) (gathered : σ → List K)
    (given : S → Option K) : Prop :=
  ∀ {st x o s r s' new}, M.allow st o → Y.exec x o s = some (r, s', new) →
    given (M.next st o r) = given st ∧ gathered s' = gathered s ∨
      ∃ k, given st = none ∧ given (M.next st o r) = some k ∧ gathered s' = gathered s ++ [k]

/-- One element more is seen when one of a list is replaced. -/
theorem filterMap_set_perm {α β : Type} {f : α → Option β} {as : List α} {i : Nat} {a a' : α}
    {b : β} (ha : as[i]? = some a) (hnone : f a = none) (hsome : f a' = some b) :
    (as.filterMap f ++ [b]).Perm ((as.set i a').filterMap f) := by
  obtain ⟨hlt, rfl⟩ := List.getElem?_eq_some_iff.1 ha
  obtain ⟨l₁, l₂, has, -, hset⟩ : ∃ l₁ l₂, as = l₁ ++ as[i] :: l₂ ∧ l₁.length = i ∧
    as.set i a' = l₁ ++ a' :: l₂ := List.exists_of_set hlt
  rw [hset, has, List.filterMap_append, List.filterMap_append, List.filterMap_cons_none hnone,
    List.filterMap_cons_some hsome, List.append_assoc]
  exact List.Perm.append_left _ (List.perm_append_singleton b _)

theorem filterMap_set_eq {α β : Type} {f : α → Option β} {as : List α} {i : Nat} {a a' : α}
    (ha : as[i]? = some a) (h : f a' = f a) : (as.set i a').filterMap f = as.filterMap f := by
  obtain ⟨hlt, rfl⟩ := List.getElem?_eq_some_iff.1 ha
  obtain ⟨l₁, l₂, has, -, hset⟩ : ∃ l₁ l₂, as = l₁ ++ as[i] :: l₂ ∧ l₁.length = i ∧
    as.set i a' = l₁ ++ a' :: l₂ := List.exists_of_set hlt
  have hbefore : as.filterMap f = (l₁ ++ as[i] :: l₂).filterMap f := congrArg _ has
  rw [hbefore, hset, List.filterMap_append, List.filterMap_append, List.filterMap_cons,
    List.filterMap_cons, h]

variable {given : S → Option K}

/-- **What has been gathered is what the threads have handed over**, each thing once. -/
theorem Steps.handedOver {gathered : σ → List K} (T : Y.Tended M s₀ Post O)
    (hY : HandsOver Y M gathered given) (hC : Closed C) (h : Y.Steps C c c')
    (hc : c.threads = []) (hs : O.invariant c.shared)
    (hnone : given s₀ = none) (hempty : gathered c.shared = []) :
    (gathered c'.shared).Perm (handed M s₀ given c'.threads) := by
  have hstarted (new : List Req) (ts : List (Thread Op Res Req ρ)) :
      handed M s₀ given (ts ++ new.map Y.start) = handed M s₀ given ts := by
    have hnew : (new.map Y.start).filterMap (fun t => given (stageOf M s₀ t)) = [] := by
      refine List.filterMap_eq_nil_iff.2 fun t ht => ?_
      obtain ⟨q, -, rfl⟩ := List.mem_map.1 ht
      exact hnone
    rw [handed, List.filterMap_append, hnew, List.append_nil]
    rfl
  refine (h.invariant (fun d => Settled M s₀ Post O d ∧
    (gathered d.shared).Perm (handed M s₀ given d.threads)) (fun d l d' hl hstep hd => ?_)
    ⟨Steps.settled (Y := Y) (C := C) T hC.undisturbed .refl hc hs, ?_⟩).2
  · refine ⟨T.step hC.undisturbed hl hstep hd.1, ?_⟩
    cases l with
    | arrive q =>
      cases hstep
      rw [show d.threads ++ [Y.start q] = d.threads ++ [q].map Y.start from rfl, hstarted]
      exact hd.2
    | env s => exact absurd hl (hC d s)
    | run i x =>
      obtain ⟨t, o, k, r, s, new, ht, hk, hx, rfl⟩ := step_run hstep
      have hwatched := hd.1.watched t (List.mem_of_getElem? ht)
      rw [Watched, hk] at hwatched
      have hstage : stageOf M s₀ ⟨t.req, k r, t.trace ++ [⟨o, r⟩]⟩ = M.next (stageOf M s₀ t) o r :=
        Monitor.after_snoc M s₀ _ _
      rw [hstarted]
      rcases hY hwatched.1 hx with ⟨hsame, hgathered⟩ | ⟨key, hbefore, hafter, hgathered⟩
      · rw [hgathered, handed, filterMap_set_eq ht (by rw [hstage]; exact hsame)]
        exact hd.2
      · rw [hgathered, handed]
        exact (hd.2.append_right _).trans
          (filterMap_set_perm ht hbefore (by rw [hstage]; exact hafter))
  · rw [hempty, hc]
    exact List.Perm.refl _

end System

end Lib

import PaciNet.Lib.Prog

/-!
# Machines, and a program running on one

A machine says what one operation does to the shared state. Whatever the outside world decides
(a clock reading, a network outcome) is read off an explicit `Ext`, so a step is a function and
a run is a computation; quantifying over every `Ext` gives back the nondeterminism.

`Machine.Exec R p s a s'` runs `p` from `s` to completion while *something else* may change the
state between any two operations, within the relation `R`. With `R` equality nothing else
moves, and this is the ordinary big-step run.

`Machine.Ensures` is the demonic weakest precondition of that run. Its two rules, `ensures_bind`
and `Exec.ensures`, are all a proof about a sequential program uses.
-/

namespace Lib

/-- What one operation does. `none` means it has to wait; the list holds the tasks it starts. -/
structure Machine (Op : Type) (Res : Op → Type) (σ Ext Task : Type) where
  exec : Ext → (o : Op) → σ → Option (Res o × σ × List Task)

namespace Machine

variable {Op : Type} {Res : Op → Type} {σ Ext Task α β : Type}

/-- A complete run of a program that starts no task, under the interference `R`. -/
inductive Exec (M : Machine Op Res σ Ext Task) (R : σ → σ → Prop) :
    Prog Op Res α → σ → α → σ → Prop
  | done (a : α) (s : σ) : Exec M R (.done a) s a s
  | call {o : Op} {k : Res o → Prog Op Res α} {s s₁ s₂ s' : σ} {r : Res o} {a : α} (x : Ext)
      (interfere : R s s₁) (step : M.exec x o s₁ = some (r, s₂, []))
      (rest : Exec M R (k r) s₂ a s') : Exec M R (.call o k) s a s'

/-- Every complete run of the program ends in `Q`. -/
def Ensures (M : Machine Op Res σ Ext Task) (R : σ → σ → Prop) :
    Prog Op Res α → (α → σ → Prop) → σ → Prop
  | .done a, Q, s => Q a s
  | .call o k, Q, s =>
      ∀ s₁, R s s₁ → ∀ x r s₂, M.exec x o s₁ = some (r, s₂, []) → Ensures M R (k r) Q s₂

variable {M : Machine Op Res σ Ext Task} {R : σ → σ → Prop}

@[simp] theorem ensures_done {Q : α → σ → Prop} {a : α} {s : σ} :
    M.Ensures R (.done a : Prog Op Res α) Q s ↔ Q a s := Iff.rfl

@[simp] theorem ensures_call {Q : α → σ → Prop} {o : Op} {k : Res o → Prog Op Res α} {s : σ} :
    M.Ensures R (.call o k) Q s ↔ ∀ s₁, R s s₁ → ∀ x r s₂,
      M.exec x o s₁ = some (r, s₂, []) → M.Ensures R (k r) Q s₂ := Iff.rfl

@[simp] theorem ensures_bind {p : Prog Op Res α} {f : α → Prog Op Res β} {Q : β → σ → Prop}
    {s : σ} :
    M.Ensures R (p.bind f) Q s ↔ M.Ensures R p (fun a s => M.Ensures R (f a) Q s) s := by
  induction p generalizing s with
  | done a => rfl
  | call o k ih => simp only [Prog.call_bind, ensures_call, ih]

theorem Ensures.mono {p : Prog Op Res α} {Q Q' : α → σ → Prop} {s : σ}
    (h : M.Ensures R p Q s) (hQ : ∀ a s, Q a s → Q' a s) : M.Ensures R p Q' s := by
  induction p generalizing s with
  | done a => exact hQ a s h
  | call o k ih => exact fun s₁ hR x r s₂ hx => ih r (h s₁ hR x r s₂ hx)

/-- What holds of every result and state holds at the end. -/
theorem ensures_of_forall {p : Prog Op Res α} {Q : α → σ → Prop} {s : σ} (hQ : ∀ a s, Q a s) :
    M.Ensures R p Q s := by
  induction p generalizing s with
  | done a => exact hQ a s
  | call o k ih => exact fun s₁ _ x r s₂ _ => ih r

/-- What `Ensures` says holds at the end of every run. -/
theorem Exec.ensures {p : Prog Op Res α} {Q : α → σ → Prop} {s s' : σ} {a : α}
    (he : M.Exec R p s a s') (h : M.Ensures R p Q s) : Q a s' := by
  induction he with
  | done a s => exact h
  | call x hR hx _ ih => exact ih (h _ hR x _ _ hx)

/-- A state property the interference and every operation of `p` keep holds throughout. -/
theorem ensures_of_invariant {I : σ → Prop} (hR : ∀ s s', R s s' → I s → I s')
    {P : Op → Prop} (hP : ∀ o, P o → ∀ x s r s', M.exec x o s = some (r, s', []) → I s → I s')
    {p : Prog Op Res α} (hp : p.Calls P) {s : σ} (hs : I s) :
    M.Ensures R p (fun _ s => I s) s := by
  induction p generalizing s with
  | done a => exact hs
  | call o k ih =>
    intro s₁ hs₁ x r s₂ hx
    exact ih r (hp.2 r) (hP o hp.1 x s₁ r s₂ hx (hR s s₁ hs₁ hs))

/-- **A run of a program that is correct under a monitor keeps what the machine keeps** for the
    operations the monitor allows, if the interference keeps it too. -/
theorem Exec.monitored {S : Type} {Mon : Monitor Op Res S} {J : σ → Prop}
    (hR : ∀ s s', R s s' → J s → J s')
    (hM : ∀ st x o s r s', J s → Mon.allow st o → M.exec x o s = some (r, s', []) →
      J s' ∧ Mon.expect o r)
    {p : Prog Op Res α} {s s' : σ} {a : α} (he : M.Exec R p s a s') {Q : S → α → Prop} {st : S}
    (hp : p.wp Mon Q st) (hs : J s) : J s' ∧ ∃ st', Q st' a := by
  induction he generalizing st with
  | done a s => exact ⟨hs, st, hp⟩
  | call x hint hx _ ih =>
    obtain ⟨hnext, hexpect⟩ := hM _ x _ _ _ _ (hR _ _ hint hs) hp.1 hx
    exact ih (hp.2 _ hexpect) hnext

/-- The program comes from `p` in `s` to `p'` in `s'`, with nothing else going on. -/
inductive Reach (M : Machine Op Res σ Ext Task) :
    Prog Op Res α → σ → Prog Op Res α → σ → Prop
  | refl {p : Prog Op Res α} {s : σ} : Reach M p s p s
  | step {o : Op} {k : Res o → Prog Op Res α} {p' : Prog Op Res α} {s s₁ s' : σ} {r : Res o}
      (x : Ext) (hx : M.exec x o s = some (r, s₁, [])) (rest : Reach M (k r) s₁ p' s') :
      Reach M (.call o k) s p' s'

namespace Reach

variable {s s₁ s' : σ}

theorem perform {o : Op} {f : Res o → Prog Op Res α} {p' : Prog Op Res α} {r : Res o} (x : Ext)
    (hx : M.exec x o s = some (r, s₁, [])) (h : M.Reach (f r) s₁ p' s') :
    M.Reach ((Prog.perform o).bind f) s p' s' := .step x hx h

theorem trans {p p' p'' : Prog Op Res α} {s s' s'' : σ} (h : M.Reach p s p' s')
    (h' : M.Reach p' s' p'' s'') : M.Reach p s p'' s'' := by
  induction h with
  | refl => exact h'
  | step x hx _ ih => exact .step x hx (ih h')

theorem bind {p p' : Prog Op Res α} {f : α → Prog Op Res β} (h : M.Reach p s p' s') :
    M.Reach (p.bind f) s (p'.bind f) s' := by
  induction h with
  | refl => exact .refl
  | step x hx _ ih => exact .step x hx ih

/-- It has not left yet, or the operation was answered and it comes on from there. -/
theorem call_inv {o : Op} {k : Res o → Prog Op Res α} {p' : Prog Op Res α}
    (h : M.Reach (.call o k) s p' s') :
    p' = .call o k ∨ ∃ x r s₁, M.exec x o s = some (r, s₁, []) ∧ M.Reach (k r) s₁ p' s' := by
  cases h with
  | refl => exact .inl rfl
  | step x hx rest => exact .inr ⟨x, _, _, hx, rest⟩

/-- A program that has finished comes no further. -/
theorem done_inv {a : α} {p' : Prog Op Res α} (h : M.Reach (.done a) s p' s') : p' = .done a := by
  cases h
  rfl

end Reach

/-- Some run of the program, with nothing else going on, passes through a state in `Q`. -/
def Can (M : Machine Op Res σ Ext Task) (Q : σ → Prop) (p : Prog Op Res α) (s : σ) : Prop :=
  ∃ p' s', M.Reach p s p' s' ∧ Q s'

namespace Can

variable {Q : σ → Prop} {s s₁ : σ}

theorem here {p : Prog Op Res α} (h : Q s) : M.Can Q p s := ⟨p, s, .refl, h⟩

theorem perform {o : Op} {f : Res o → Prog Op Res α} {r : Res o} (x : Ext)
    (hx : M.exec x o s = some (r, s₁, [])) (h : M.Can Q (f r) s₁) :
    M.Can Q ((Prog.perform o).bind f) s := by
  obtain ⟨p', s', hr, hQ⟩ := h
  exact ⟨p', s', .perform x hx hr, hQ⟩

theorem bind {p : Prog Op Res α} {f : α → Prog Op Res β} (h : M.Can Q p s) :
    M.Can Q (p.bind f) s := by
  obtain ⟨p', s', hr, hQ⟩ := h
  exact ⟨p'.bind f, s', hr.bind, hQ⟩

end Can

/-- What another machine can do at least as well is a run of it too. -/
theorem Reach.of_exec {Task' : Type} {N : Machine Op Res σ Ext Task'} {p p' : Prog Op Res α}
    {s s' : σ} (hN : ∀ x o s r s', M.exec x o s = some (r, s', []) → N.exec x o s = some (r, s', []))
    (h : M.Reach p s p' s') : N.Reach p s p' s' := by
  induction h with
  | refl => exact .refl
  | step x hx _ ih => exact .step x (hN _ _ _ _ _ hx) ih

/-- Some run of the program, with nothing else going on, finishes in `Q`. -/
def Finishes (M : Machine Op Res σ Ext Task) (Q : α → σ → Prop) (p : Prog Op Res α) (s : σ) :
    Prop :=
  ∃ a s', M.Reach p s (.done a) s' ∧ Q a s'

namespace Finishes

variable {s s₁ : σ}

theorem done {Q : α → σ → Prop} {a : α} (h : Q a s) : M.Finishes Q (.done a) s := ⟨a, s, .refl, h⟩

theorem perform {Q : α → σ → Prop} {o : Op} {f : Res o → Prog Op Res α} {r : Res o} (x : Ext)
    (hx : M.exec x o s = some (r, s₁, [])) (h : M.Finishes Q (f r) s₁) :
    M.Finishes Q ((Prog.perform o).bind f) s := by
  obtain ⟨a, s', hr, hQ⟩ := h
  exact ⟨a, s', .perform x hx hr, hQ⟩

theorem bind {Q : β → σ → Prop} {p : Prog Op Res α} {f : α → Prog Op Res β}
    (h : M.Finishes (fun a s => M.Finishes Q (f a) s) p s) : M.Finishes Q (p.bind f) s := by
  obtain ⟨a, s₁, hr, b, s', hr', hQ⟩ := h
  exact ⟨b, s', hr.bind.trans hr', hQ⟩

theorem mono {Q Q' : α → σ → Prop} {p : Prog Op Res α} (h : M.Finishes Q p s)
    (hQ : ∀ a s, Q a s → Q' a s) : M.Finishes Q' p s := by
  obtain ⟨a, s', hr, h⟩ := h
  exact ⟨a, s', hr, hQ a s' h⟩

end Finishes

/-- Run a program on a given list of outside choices, one per operation. -/
def eval (M : Machine Op Res σ Ext Task) : List Ext → Prog Op Res α → σ → Option (α × σ)
  | [], .done a, s => some (a, s)
  | x :: xs, .call o k, s =>
      match M.exec x o s with
      | some (r, s', []) => eval M xs (k r) s'
      | _ => none
  | _, _, _ => none

/-- What `eval` computes is a run. -/
theorem exec_of_eval (hR : ∀ s, R s s) {xs : List Ext} {p : Prog Op Res α} {s s' : σ} {a : α}
    (h : M.eval xs p s = some (a, s')) : M.Exec R p s a s' := by
  induction xs generalizing p s with
  | nil =>
    cases p with
    | done b =>
      simp only [eval, Option.some.injEq, Prod.mk.injEq] at h
      obtain ⟨rfl, rfl⟩ := h
      exact .done _ _
    | call o k => simp [eval] at h
  | cons x xs ih =>
    cases p with
    | done b => simp [eval] at h
    | call o k =>
      simp only [eval] at h
      split at h
      · rename_i r s₂ hx
        exact .call x (hR s) hx (ih h)
      · exact absurd h (by simp)

end Machine

end Lib

import PaciNet.Lib.Serial

/-!
# Threads that keep out of each other's way

Each thread of a pool has a part of the shared state that only its own operations change: a
relation says, for each thread, that its part is as it was. What a program ensures while nothing
happens to that part, its thread ensures in every interleaving.

The answers some operations get are decided outside. A machine that answers only as told
(`Machine.restrict`) ensures what the machine does when it is so answered, and the traces say
which threads were.
-/

set_option autoImplicit false

namespace Lib

variable {Op : Type} {Res : Op → Type} {σ Ext Req ρ α : Type}

namespace Machine

variable {M : Machine Op Res σ Ext Req} {ok : (o : Op) → Res o → Bool} {R : σ → σ → Prop}

/-- The machine, as far as it answers as told. -/
def restrict (M : Machine Op Res σ Ext Req) (ok : (o : Op) → Res o → Bool) :
    Machine Op Res σ Ext Req where
  exec x o s := (M.exec x o s).filter fun res => ok o res.1

theorem restrict_exec {x : Ext} {o : Op} {s s' : σ} {r : Res o} {new : List Req} :
    (M.restrict ok).exec x o s = some (r, s', new) ↔
      M.exec x o s = some (r, s', new) ∧ ok o r = true := by
  simp only [restrict, Option.filter_eq_some_iff]

/-- What is performed with answers as told is performed by the machine that gives no others. -/
theorem Performs.restrict {es : List ((o : Op) × Res o)} {s s' : σ} (h : M.Performs es s s')
    (hok : ∀ e ∈ es, ok e.1 e.2 = true) : (M.restrict ok).Performs es s s' := by
  induction es generalizing s with
  | nil => exact h
  | cons e es ih =>
    obtain ⟨x, s₁, new, hx, hrest⟩ := h
    refine ⟨x, s₁, new, restrict_exec.2 ⟨hx, hok e List.mem_cons_self⟩, ?_⟩
    exact ih hrest fun e' he' => hok e' (List.mem_cons_of_mem _ he')

/-- What every operation of a trace keeps, the trace keeps. -/
theorem Performs.keeps {es : List ((o : Op) × Res o)} {s s' : σ} (h : M.Performs es s s')
    {P : Op → Prop} (hP : ∀ e ∈ es, P e.1) {I : σ → Prop}
    (hI : ∀ o, P o → ∀ x s r s' new, M.exec x o s = some (r, s', new) → I s → I s') (hs : I s) :
    I s' := by
  induction es generalizing s with
  | nil => exact h ▸ hs
  | cons e es ih =>
    obtain ⟨x, s₁, new, hx, hrest⟩ := h
    refine ih hrest (fun e' he' => hP e' (List.mem_cons_of_mem _ he')) ?_
    exact hI e.1 (hP e List.mem_cons_self) x s e.2 s₁ new hx hs

theorem Ensures.and {Q Q' : α → σ → Prop} {p : Prog Op Res α} {s : σ} (h : M.Ensures R p Q s)
    (h' : M.Ensures R p Q' s) : M.Ensures R p (fun a s => Q a s ∧ Q' a s) s := by
  induction p generalizing s with
  | done a => exact ⟨h, h'⟩
  | call o k ih => exact fun s₁ hs₁ x r s₂ hx => ih r (h s₁ hs₁ x r s₂ hx) (h' s₁ hs₁ x r s₂ hx)

/-- A program ensures what it did also after something else has happened. -/
theorem Ensures.after (htrans : ∀ s s' s'', R s s' → R s' s'' → R s s'') {Q : α → σ → Prop}
    (hQ : ∀ a s s', R s s' → Q a s → Q a s') {p : Prog Op Res α} {s s' : σ}
    (h : M.Ensures R p Q s) (hR : R s s') : M.Ensures R p Q s' := by
  cases p with
  | done a => exact hQ a s s' hR h
  | call o k => exact fun s₁ hs₁ => h s₁ (htrans _ _ _ hR hs₁)

end Machine

namespace System

/-- The operations of each thread, and the relation that says its part is as it was: no other
    thread changes it, and none starts a task. -/
structure Apart (Y : System Op Res σ Ext Req ρ) (P : Nat → Op → Prop)
    (R : Nat → σ → σ → Prop) : Prop where
  refl : ∀ i s, R i s s
  trans : ∀ i s s' s'', R i s s' → R i s' s'' → R i s s''
  alone : ∀ i o, P i o → ∀ x s r s' new, Y.exec x o s = some (r, s', new) → new = []
  other : ∀ i j o, i ≠ j → P j o → ∀ x s r s' new, Y.exec x o s = some (r, s', new) → R i s s'

variable {Y : System Op Res σ Ext Req ρ} {P : Nat → Op → Prop} {R : Nat → σ → σ → Prop}
  {C : Config Op Res σ Req ρ → Label σ Ext Req → Prop} {c c' : Config Op Res σ Req ρ}

/-- What the steps are: turns of the threads, and others that leave every part alone. -/
def Apart.Admits (_ : Y.Apart P R) (C : Config Op Res σ Req ρ → Label σ Ext Req → Prop) : Prop :=
  ∀ c l, C c l → match l with
    | .arrive _ => False
    | .run _ _ => True
    | .env s => ∀ i, R i c.shared s

/-- Every thread makes its own calls only. -/
def EachCalls (P : Nat → Op → Prop) (c : Config Op Res σ Req ρ) : Prop :=
  ∀ (i : Nat) (t : Thread Op Res Req ρ), c.threads[i]? = some t → t.prog.Calls (P i)

/-- A turn of a thread, as the others see it. -/
theorem Apart.step (A : Y.Apart P R) (hC : A.Admits C) {l : Label σ Ext Req} (hl : C c l)
    (h : Y.step c l = some c') (hc : EachCalls P c) :
    (∃ s, c' = ⟨s, c.threads⟩ ∧ ∀ i, R i c.shared s) ∨
      ∃ (i : Nat) (x : Ext) (t : Thread Op Res Req ρ) (o : Op) (k : Res o → Prog Op Res ρ)
        (r : Res o) (s : σ), c.threads[i]? = some t ∧ t.prog = .call o k ∧ P i o ∧
          Y.exec x o c.shared = some (r, s, []) ∧
          c' = ⟨s, c.threads.set i ⟨t.req, k r, t.trace ++ [⟨o, r⟩]⟩⟩ := by
  have hadmits := hC c l hl
  cases l with
  | arrive q => exact hadmits.elim
  | env s =>
    cases h
    exact .inl ⟨s, rfl, hadmits⟩
  | run i x =>
    obtain ⟨t, o, k, r, s, new, ht, hk, hx, rfl⟩ := step_run h
    have hcalls := hc i t ht
    rw [hk] at hcalls
    obtain rfl := A.alone i o hcalls.1 x _ r s new hx
    refine .inr ⟨i, x, t, o, k, r, s, ht, hk, hcalls.1, hx, ?_⟩
    rw [List.map_nil, List.append_nil]

theorem Apart.eachCalls (A : Y.Apart P R) (hC : A.Admits C) (h : Y.Steps C c c')
    (hc : EachCalls P c) : EachCalls P c' := by
  refine h.invariant (EachCalls P) ?_ hc
  intro c l c' hl hstep hc
  rcases A.step hC hl hstep hc with ⟨s, rfl, -⟩ | ⟨i, x, t, o, k, r, s, ht, hk, -, -, rfl⟩
  · exact hc
  · intro j u hu
    by_cases hij : i = j
    · subst hij
      rw [List.getElem?_set_self (List.getElem?_eq_some_iff.1 ht).1] at hu
      obtain rfl := Option.some.inj hu
      have hcalls := hc i t ht
      rw [hk] at hcalls
      exact hcalls.2 r
    · rw [List.getElem?_set_ne hij] at hu
      exact hc j u hu

/-- The threads stay the same ones. -/
theorem Apart.length_eq (A : Y.Apart P R) (hC : A.Admits C) (h : Y.Steps C c c')
    (hc : EachCalls P c) : c'.threads.length = c.threads.length := by
  refine (h.invariant (fun d => EachCalls P d ∧ d.threads.length = c.threads.length) ?_
    ⟨hc, rfl⟩).2
  rintro d l d' hl hstep ⟨hd, hlength⟩
  refine ⟨A.eachCalls hC (.single ⟨l, hl, hstep⟩) hd, ?_⟩
  rcases A.step hC hl hstep hd with ⟨s, rfl, -⟩ | ⟨i, x, t, o, k, r, s, ht, hk, -, -, rfl⟩
  · exact hlength
  · rw [List.length_set]
    exact hlength

/-- What every thread's operations keep, and what the others do keeps, is kept. -/
theorem Apart.keeps (A : Y.Apart P R) (hC : A.Admits C) (h : Y.Steps C c c') (hc : EachCalls P c)
    {I : σ → Prop} (henv : ∀ c s, C c (.env s) → I c.shared → I s)
    (hI : ∀ i o, P i o → ∀ x s r s' new, Y.exec x o s = some (r, s', new) → I s → I s')
    (hs : I c.shared) : I c'.shared := by
  refine (h.invariant (fun c => EachCalls P c ∧ I c.shared) ?_ ⟨hc, hs⟩).2
  rintro c l c' hl hstep ⟨hc, hs⟩
  refine ⟨A.eachCalls hC (.single ⟨l, hl, hstep⟩) hc, ?_⟩
  cases l with
  | arrive q => exact (hC c _ hl).elim
  | env s =>
    cases hstep
    exact henv c s hl hs
  | run i x =>
    obtain ⟨t, o, k, r, s, new, ht, hk, hx, rfl⟩ := step_run hstep
    have hcalls := hc i t ht
    rw [hk] at hcalls
    exact hI i o hcalls.1 x _ r s new hx hs

/-- **What a program ensures among others that leave its part alone, its thread ensures in every
    interleaving** in which it is answered as told. -/
theorem Apart.ensures (A : Y.Apart P R) (hC : A.Admits C) (h : Y.Steps C c c')
    (hc : EachCalls P c) {ok : Nat → (o : Op) → Res o → Bool} {Q : Nat → ρ → σ → Prop}
    (hQ : ∀ i a s s', R i s s' → Q i a s → Q i a s')
    (hstart : ∀ (i : Nat) (t : Thread Op Res Req ρ), c.threads[i]? = some t →
      (Y.toMachine.restrict (ok i)).Ensures (R i) t.prog (Q i) c.shared)
    {i : Nat} {t : Thread Op Res Req ρ} (ht : c'.threads[i]? = some t)
    (hok : ∀ e ∈ t.trace, ok i e.1 e.2 = true) :
    (Y.toMachine.restrict (ok i)).Ensures (R i) t.prog (Q i) c'.shared := by
  refine (h.invariant (fun c => EachCalls P c ∧
    ∀ (i : Nat) (t : Thread Op Res Req ρ), c.threads[i]? = some t →
      (∀ e ∈ t.trace, ok i e.1 e.2 = true) →
      (Y.toMachine.restrict (ok i)).Ensures (R i) t.prog (Q i) c.shared) ?_
    ⟨hc, fun i t ht _ => hstart i t ht⟩).2 i t ht hok
  rintro c l c' hl hstep ⟨hc, hensures⟩
  refine ⟨A.eachCalls hC (.single ⟨l, hl, hstep⟩) hc, ?_⟩
  rcases A.step hC hl hstep hc with
    ⟨s, rfl, hsame⟩ | ⟨j, x, u, o, k, r, s, hu, hk, hP, hx, rfl⟩
  · intro i t ht hok
    exact (hensures i t ht hok).after (A.trans i) (hQ i) (hsame i)
  · intro i t ht hok
    by_cases hij : j = i
    · subst hij
      rw [List.getElem?_set_self (List.getElem?_eq_some_iff.1 hu).1] at ht
      obtain rfl := Option.some.inj ht
      have hbefore := hensures j u hu fun e he => hok e (List.mem_append_left _ he)
      rw [hk] at hbefore
      have hanswer : ok j o r = true :=
        hok ⟨o, r⟩ (List.mem_append_right _ (List.mem_singleton_self _))
      exact hbefore _ (A.refl j _) x r s (Machine.restrict_exec.2 ⟨hx, hanswer⟩)
    · rw [List.getElem?_set_ne hij] at ht
      exact (hensures i t ht hok).after (A.trans i) (hQ i)
        (A.other i j o (Ne.symm hij) hP x _ r s [] hx)

end System

end Lib

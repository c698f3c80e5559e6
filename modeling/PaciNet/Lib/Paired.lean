import PaciNet.Lib.Pool

/-!
# Pools side by side

Two systems may serve the same requests with the same programs, over different shared states. If
every operation that a step performs is answered alike where the shared states correspond, and the
states correspond after it, then **each run of the one is a run of the other, thread by thread**
(`Steps.paired`): the threads of both have the same requests behind them, the same programs before
them, and the same answers in their traces.
-/

set_option autoImplicit false

namespace Lib

namespace System

variable {Op : Type} {Res : Op → Type} {σ τ Ext Req ρ : Type}

/-- The threads are the same, and the shared states correspond. -/
structure Paired (Sim : σ → τ → Prop) (c : Config Op Res σ Req ρ) (d : Config Op Res τ Req ρ) :
    Prop where
  threads : c.threads = d.threads
  shared : Sim c.shared d.shared

/-- The thread with this index is about to perform the operation. -/
def Performs (c : Config Op Res σ Req ρ) (i : Nat) (o : Op) : Prop :=
  ∃ t ∈ c.threads[i]?, ∃ k, t.prog = .call o k

/-- What two systems are to agree on where the steps of the first satisfy a condition. -/
structure Agree (Y : System Op Res σ Ext Req ρ) (Z : System Op Res τ Ext Req ρ)
    (Sim : σ → τ → Prop) (C : Config Op Res σ Req ρ → Label σ Ext Req → Prop)
    (D : Config Op Res τ Req ρ → Label τ Ext Req → Prop) : Prop where
  prog : Y.prog = Z.prog
  exec : ∀ c d i x o r s new, Paired Sim c d → C c (.run i x) → Performs c i o →
    Y.exec x o c.shared = some (r, s, new) →
      D d (.run i x) ∧ ∃ s', Z.exec x o d.shared = some (r, s', new) ∧ Sim s s'
  arrive : ∀ c d q, C c (.arrive q) → D d (.arrive q)
  env : ∀ c d s, Paired Sim c d → C c (.env s) → ∃ s', D d (.env s') ∧ Sim s s'

variable {Y : System Op Res σ Ext Req ρ} {Z : System Op Res τ Ext Req ρ} {Sim : σ → τ → Prop}
  {C : Config Op Res σ Req ρ → Label σ Ext Req → Prop}
  {D : Config Op Res τ Req ρ → Label τ Ext Req → Prop}
  {c c' : Config Op Res σ Req ρ} {d : Config Op Res τ Req ρ}

/-- One step of the one is one of the other. -/
theorem Agree.step (h : Agree Y Z Sim C D) (hcd : Paired Sim c d) {l : Label σ Ext Req}
    (hl : C c l) (hstep : Y.step c l = some c') : ∃ d', Z.StepIf D d d' ∧ Paired Sim c' d' := by
  cases l with
  | arrive q =>
    cases hstep
    refine ⟨_, ⟨.arrive q, h.arrive c d q hl, rfl⟩, ?_, hcd.shared⟩
    show c.threads ++ [Y.start q] = d.threads ++ [Z.start q]
    rw [hcd.threads, start, start, h.prog]
  | env s =>
    cases hstep
    obtain ⟨s', hs', hsim⟩ := h.env c d s hcd hl
    exact ⟨_, ⟨.env s', hs', rfl⟩, hcd.threads, hsim⟩
  | run i x =>
    obtain ⟨t, o, k, r, s, new, ht, hk, hx, rfl⟩ := step_run hstep
    obtain ⟨hD, s', hx', hsim⟩ := h.exec c d i x o r s new hcd hl ⟨t, ht, k, hk⟩ hx
    have ht' : d.threads[i]? = some t := hcd.threads ▸ ht
    refine ⟨_, ⟨.run i x, hD, step_of_exec ht' hk hx'⟩, ?_, hsim⟩
    show c.threads.set i _ ++ new.map Y.start = d.threads.set i _ ++ new.map Z.start
    rw [hcd.threads]
    refine congrArg _ (List.map_congr_left fun q _ => ?_)
    rw [start, start, h.prog]

end System

end Lib

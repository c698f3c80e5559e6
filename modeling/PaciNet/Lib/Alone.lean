import PaciNet.Lib.Machine

/-!
# Programs that run alone to their end

`Machine.Exec` is a run under interference of a program that starts no task. Here nothing else
moves, and the tasks a program starts are left for later. **A sequence is run by running its
first part and then its second** (`runsTo_bind`), in both directions, so that a run can be taken
apart and a run can be put together by the same rules.
-/

set_option autoImplicit false

namespace Lib

namespace Machine

variable {Op : Type} {Res : Op → Type} {σ Ext Task α β : Type}

/-- The program, run alone from `s`, comes to its end with `b` in `s'`. -/
def RunsTo (M : Machine Op Res σ Ext Task) : Prog Op Res α → σ → α → σ → Prop
  | .done a, s, b, s' => b = a ∧ s' = s
  | .call o k, s, b, s' =>
      ∃ x r s₁ new, M.exec x o s = some (r, s₁, new) ∧ RunsTo M (k r) s₁ b s'

variable {M : Machine Op Res σ Ext Task} {s s' : σ}

@[simp] theorem runsTo_done {a b : α} :
    M.RunsTo (.done a : Prog Op Res α) s b s' ↔ b = a ∧ s' = s := Iff.rfl

@[simp] theorem runsTo_call {o : Op} {k : Res o → Prog Op Res α} {b : α} :
    M.RunsTo (.call o k) s b s' ↔
      ∃ x r s₁ new, M.exec x o s = some (r, s₁, new) ∧ M.RunsTo (k r) s₁ b s' := Iff.rfl

theorem runsTo_bind {p : Prog Op Res α} {f : α → Prog Op Res β} {b : β} :
    M.RunsTo (p.bind f) s b s' ↔ ∃ a s₁, M.RunsTo p s a s₁ ∧ M.RunsTo (f a) s₁ b s' := by
  induction p generalizing s with
  | done a =>
    constructor
    · intro h
      exact ⟨a, s, ⟨rfl, rfl⟩, h⟩
    · intro h
      obtain ⟨a', s₁, ⟨rfl, rfl⟩, hf⟩ := h
      exact hf
  | call o k ih =>
    simp only [Prog.call_bind, runsTo_call, ih]
    constructor
    · intro h
      obtain ⟨x, r, s₁, new, hx, a, s₂, hk, hf⟩ := h
      exact ⟨a, s₂, ⟨x, r, s₁, new, hx, hk⟩, hf⟩
    · intro h
      obtain ⟨a, s₂, ⟨x, r, s₁, new, hx, hk⟩, hf⟩ := h
      exact ⟨x, r, s₁, new, hx, a, s₂, hk, hf⟩

/-- What `eval` computes is such a run. -/
theorem runsTo_of_eval {xs : List Ext} {p : Prog Op Res α} {a : α}
    (h : M.eval xs p s = some (a, s')) : M.RunsTo p s a s' := by
  induction xs generalizing p s with
  | nil =>
    cases p with
    | done b =>
      obtain ⟨rfl, rfl⟩ := Prod.mk.inj (Option.some.inj h)
      exact ⟨rfl, rfl⟩
    | call o k => cases h
  | cons x xs ih =>
    cases p with
    | done b => cases h
    | call o k =>
      rw [eval] at h
      split at h
      · rename_i r s₁ hx
        exact ⟨x, r, s₁, [], hx, ih h⟩
      · cases h

/-- The operation can be performed in every state. -/
def Enabled (M : Machine Op Res σ Ext Task) (o : Op) : Prop :=
  ∀ s, ∃ x r s₁ new, M.exec x o s = some (r, s₁, new)

/-- A program whose operations can always be performed comes to its end. -/
theorem exists_runsTo {p : Prog Op Res α} (hp : p.Calls M.Enabled) (s : σ) :
    ∃ a s', M.RunsTo p s a s' := by
  induction p generalizing s with
  | done a => exact ⟨a, s, rfl, rfl⟩
  | call o k ih =>
    obtain ⟨x, r, s₁, new, hx⟩ := hp.1 s
    obtain ⟨a, s', hk⟩ := ih r (hp.2 r) s₁
    exact ⟨a, s', x, r, s₁, new, hx, hk⟩

/-- What every operation of the program keeps the program keeps. -/
theorem RunsTo.keeps {I : σ → Prop} {P : Op → Prop}
    (hP : ∀ o, P o → ∀ x s r s' new, M.exec x o s = some (r, s', new) → I s → I s')
    {p : Prog Op Res α} (hp : p.Calls P) {a : α} (h : M.RunsTo p s a s') (hs : I s) : I s' := by
  induction p generalizing s with
  | done b =>
    obtain ⟨-, rfl⟩ := h
    exact hs
  | call o k ih =>
    obtain ⟨x, r, s₁, new, hx, hk⟩ := h
    exact ih r (hp.2 r) hk (hP o hp.1 x s r s₁ new hx hs)

end Machine

end Lib

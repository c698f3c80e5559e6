import PaciNet.Lib.Machine

/-!
# Runs with the interference spelled out

`Machine.Exec` says only that something may happen between two operations. Here it is a list of
events, each a function on the states, and a run carries its trace: the operations it performed,
each with the events that happened just before it.

The rule is `Traced.view`: **what the events and the operations do to a part of the state, the run
does to it, one after the other**.
-/

set_option autoImplicit false

namespace Lib.Machine

variable {Op : Type} {Res : Op → Type} {σ Ext Task ε α β γ : Type}

/-- A complete run of a program that starts no task, with its trace. `act` is what an event does. -/
inductive Traced (M : Machine Op Res σ Ext Task) (act : ε → σ → σ) :
    Prog Op Res α → σ → List (List ε × Op) → α → σ → Prop
  | done (a : α) (s : σ) : Traced M act (.done a) s [] a s
  | call {o : Op} {k : Res o → Prog Op Res α} {s s₂ s' : σ} {r : Res o} {a : α}
      {t : List (List ε × Op)} (es : List ε) (x : Ext)
      (step : M.exec x o (es.foldl (fun s e => act e s) s) = some (r, s₂, []))
      (rest : Traced M act (k r) s₂ t a s') : Traced M act (.call o k) s ((es, o) :: t) a s'

/-- Events and an operation after them. -/
def along (event : ε → γ → γ) (operation : Op → γ → γ) (t : List (List ε × Op)) (v : γ) : γ :=
  t.foldl (fun v e => operation e.2 (e.1.foldl (fun v e => event e v) v)) v

@[simp] theorem along_nil (event : ε → γ → γ) (operation : Op → γ → γ) (v : γ) :
    along event operation [] v = v := rfl

@[simp] theorem along_cons (event : ε → γ → γ) (operation : Op → γ → γ) (e : List ε × Op)
    (t : List (List ε × Op)) (v : γ) : along event operation (e :: t) v =
      along event operation t (operation e.2 (e.1.foldl (fun v e => event e v) v)) := rfl

@[simp] theorem along_append (event : ε → γ → γ) (operation : Op → γ → γ)
    (t u : List (List ε × Op)) (v : γ) : along event operation (t ++ u) v =
      along event operation u (along event operation t v) := by
  simp [along]

/-- What is there stays there. -/
theorem along_some (event : ε → γ → γ) (operation : Op → γ → γ) (t : List (List ε × Op)) (v : γ) :
    along (fun e => Option.map (event e)) (fun o => Option.map (operation o)) t (some v) =
      some (along event operation t v) := by
  have hevents : ∀ (es : List ε) (v : γ), es.foldl (fun b e => Option.map (event e) b) (some v) =
      some (es.foldl (fun b e => event e b) v) := by
    intro es
    induction es with
    | nil => exact fun v => rfl
    | cons e es ih => exact fun v => ih (event e v)
  induction t generalizing v with
  | nil => rfl
  | cons e t ih => rw [along_cons, hevents, Option.map_some, ih, along_cons]

namespace Traced

variable {M : Machine Op Res σ Ext Task} {act : ε → σ → σ} {s s' : σ} {t : List (List ε × Op)}

theorem done_inv {a b : α} (h : M.Traced act (.done a : Prog Op Res α) s t b s') :
    t = [] ∧ b = a ∧ s' = s := by
  cases h
  exact ⟨rfl, rfl, rfl⟩

theorem call_inv {o : Op} {k : Res o → Prog Op Res α} {a : α}
    (h : M.Traced act (.call o k) s t a s') :
    ∃ es x r s₂ u, t = (es, o) :: u ∧
      M.exec x o (es.foldl (fun s e => act e s) s) = some (r, s₂, []) ∧
      M.Traced act (k r) s₂ u a s' := by
  cases h with
  | call es x step rest => exact ⟨es, x, _, _, _, rfl, step, rest⟩

/-- A run of a sequence is a run of each part. -/
theorem bind_inv {p : Prog Op Res α} {f : α → Prog Op Res β} {b : β}
    (h : M.Traced act (p.bind f) s t b s') :
    ∃ t₁ t₂ a s₁, t = t₁ ++ t₂ ∧ M.Traced act p s t₁ a s₁ ∧ M.Traced act (f a) s₁ t₂ b s' := by
  induction p generalizing s t with
  | done a => exact ⟨[], t, a, s, rfl, .done a s, h⟩
  | call o k ih =>
    obtain ⟨es, x, r, s₂, u, rfl, hstep, hrest⟩ := call_inv h
    obtain ⟨t₁, t₂, a, s₁, rfl, h₁, h₂⟩ := ih r hrest
    exact ⟨(es, o) :: t₁, t₂, a, s₁, rfl, .call es x hstep h₁, h₂⟩

/-- **A part of the state changes along the trace** as the events and operations change it. -/
theorem view (v : σ → γ) (event : ε → γ → γ) (operation : Op → γ → γ) {P : Op → Prop}
    (hevent : ∀ e s, v (act e s) = event e (v s))
    (hop : ∀ o, P o → ∀ x s r s₂, M.exec x o s = some (r, s₂, []) → v s₂ = operation o (v s))
    {p : Prog Op Res α} (hp : p.Calls P) {a : α} (h : M.Traced act p s t a s') :
    v s' = along event operation t (v s) := by
  have hevents : ∀ (es : List ε) (s : σ),
      v (es.foldl (fun s e => act e s) s) = es.foldl (fun b e => event e b) (v s) := by
    intro es
    induction es with
    | nil => exact fun s => rfl
    | cons e es ih => exact fun s => by rw [List.foldl_cons, List.foldl_cons, ih, hevent]
  induction h with
  | done a s => rfl
  | call es x step rest ih =>
    rw [along_cons, ih (hp.2 _), hop _ hp.1 x _ _ _ step, hevents]

end Traced

/-- Run a program on a given list of events and outside choices, one entry for each operation. -/
def evalTraced (M : Machine Op Res σ Ext Task) (act : ε → σ → σ) :
    List (List ε × Ext) → Prog Op Res α → σ → Option (List (List ε × Op) × α × σ)
  | [], .done a, s => some ([], a, s)
  | (es, x) :: xs, .call o k, s =>
      match M.exec x o (es.foldl (fun s e => act e s) s) with
      | some (r, s', []) =>
        (evalTraced M act xs (k r) s').map fun res => ((es, o) :: res.1, res.2)
      | _ => none
  | _, _, _ => none

/-- What `evalTraced` computes is a run. -/
theorem traced_of_evalTraced {M : Machine Op Res σ Ext Task} {act : ε → σ → σ}
    {xs : List (List ε × Ext)} {p : Prog Op Res α} {s s' : σ} {t : List (List ε × Op)} {a : α}
    (h : M.evalTraced act xs p s = some (t, a, s')) : M.Traced act p s t a s' := by
  induction xs generalizing p s t with
  | nil =>
    cases p with
    | done b =>
      simp only [evalTraced, Option.some.injEq, Prod.mk.injEq] at h
      obtain ⟨rfl, rfl, rfl⟩ := h
      exact .done _ _
    | call o k => simp [evalTraced] at h
  | cons x xs ih =>
    cases p with
    | done b => simp [evalTraced] at h
    | call o k =>
      simp only [evalTraced] at h
      split at h
      · rename_i r s₂ hx
        obtain ⟨⟨u, b, s₃⟩, hres, heq⟩ := Option.map_eq_some_iff.1 h
        simp only [Prod.mk.injEq] at heq
        obtain ⟨rfl, rfl, rfl⟩ := heq
        exact .call x.1 x.2 hx (ih hres)
      · exact absurd h (by simp)

/-- A run that can be computed and passes a check. -/
theorem exists_traced (M : Machine Op Res σ Ext Task) (act : ε → σ → σ)
    (xs : List (List ε × Ext)) (p : Prog Op Res α) (s : σ)
    (P : List (List ε × Op) × α × σ → Bool) (h : (M.evalTraced act xs p s).any P) :
    ∃ t a s', M.Traced act p s t a s' ∧ P (t, a, s') := by
  obtain ⟨⟨t, a, s'⟩, hres, hP⟩ := (Option.any_eq_true _ _).1 h
  exact ⟨t, a, s', traced_of_evalTraced hres, hP⟩

end Lib.Machine

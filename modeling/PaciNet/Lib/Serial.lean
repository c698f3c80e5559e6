import Mathlib.Data.List.Nodup
import PaciNet.Lib.Pool

/-!
# Serial runs

A thread that runs alone performs the operations of its trace one after the other, and what is
left of its program is what the answers leave of it. Threads run serially when each runs alone
from where the one before has left the shared state.

Some operations draw an id that has not been drawn before (`Draws`). Whatever the order in which
the threads of a pool are put, their traces draw no id twice (`Fresh.nodup_flatMap`), so ids never
stand in the way of running them in that order.
-/

set_option autoImplicit false

namespace Lib

variable {Op : Type} {Res : Op → Type} {σ Ext Req ρ α : Type}

/-- What a trace leaves of a program. -/
inductive Prog.Unfolds : Prog Op Res α → List ((o : Op) × Res o) → Prog Op Res α → Prop
  | refl (p : Prog Op Res α) : Unfolds p [] p
  | step {o : Op} {k : Res o → Prog Op Res α} {r : Res o} {es : List ((o : Op) × Res o)}
      {p' : Prog Op Res α} (rest : Unfolds (k r) es p') : Unfolds (.call o k) (⟨o, r⟩ :: es) p'

theorem Prog.Unfolds.snoc {p : Prog Op Res α} {es : List ((o : Op) × Res o)} {o : Op}
    {k : Res o → Prog Op Res α} (h : Unfolds p es (.call o k)) (r : Res o) :
    Unfolds p (es ++ [⟨o, r⟩]) (k r) := by
  generalize hq : Prog.call o k = q at h
  induction h with
  | refl p =>
    subst hq
    exact .step (.refl _)
  | step _ ih => exact .step (ih hq)

theorem Prog.Unfolds.calls {P : Op → Prop} {p p' : Prog Op Res α} {es : List ((o : Op) × Res o)}
    (h : p.Unfolds es p') (hp : p.Calls P) : ∀ e ∈ es, P e.1 := by
  induction h with
  | refl p =>
    intro e he
    exact nomatch he
  | step _ ih =>
    intro e he
    rcases List.mem_cons.1 he with rfl | he
    · exact hp.1
    · exact ih (hp.2 _) e he

theorem Prog.Unfolds.done_inv {a : α} {es : List ((o : Op) × Res o)} {p : Prog Op Res α}
    (h : (Prog.done a).Unfolds es p) : es = [] ∧ p = .done a := by
  cases h
  exact ⟨rfl, rfl⟩

theorem Prog.Unfolds.call_inv {o : Op} {k : Res o → Prog Op Res α}
    {es : List ((o : Op) × Res o)} {a : α} (h : (Prog.call o k).Unfolds es (.done a)) :
    ∃ r es', es = ⟨o, r⟩ :: es' ∧ (k r).Unfolds es' (.done a) := by
  cases h with
  | step rest => exact ⟨_, _, rfl, rest⟩

/-- A program of silent operations leaves the monitor where it was, and what it returns it returns
    on some trace. -/
theorem Prog.wp_of_unfolds {S : Type} {M : Monitor Op Res S} {p : Prog Op Res α}
    {Q : S → α → Prop} {st : S} (hp : p.Calls M.Silent)
    (hQ : ∀ es a, p.Unfolds es (.done a) → Q st a) : p.wp M Q st := by
  induction p with
  | done a => exact hQ [] a (.refl _)
  | call o k ih =>
    exact Prog.wp_of_silent hp.1 fun r => ih r (hp.2 r) fun es a h => hQ _ a (.step h)

/-- The trace of a sequence is that of its first part and then that of the second. -/
theorem Prog.unfolds_bind {β : Type} {p : Prog Op Res α} {f : α → Prog Op Res β}
    {es : List ((o : Op) × Res o)} {b : β} : (p.bind f).Unfolds es (.done b) ↔
      ∃ es₁ es₂ a, es = es₁ ++ es₂ ∧ p.Unfolds es₁ (.done a) ∧ (f a).Unfolds es₂ (.done b) := by
  constructor
  · intro h
    induction p generalizing es with
    | done a => exact ⟨[], es, a, rfl, .refl _, h⟩
    | call o k ih =>
      obtain ⟨r, es', rfl, hk⟩ := h.call_inv
      obtain ⟨es₁, es₂, a, rfl, h₁, h₂⟩ := ih r hk
      exact ⟨⟨o, r⟩ :: es₁, es₂, a, rfl, .step h₁, h₂⟩
  · rintro ⟨es₁, es₂, a, rfl, h₁, h₂⟩
    induction p generalizing es₁ with
    | done c =>
      obtain ⟨rfl, heq⟩ := h₁.done_inv
      cases heq
      exact h₂
    | call o k ih =>
      obtain ⟨r, es', rfl, hk⟩ := h₁.call_inv
      exact .step (ih r es' hk)

/-- What is computed from the result adds nothing to the trace. -/
theorem Prog.unfolds_map {β : Type} {p : Prog Op Res α} {g : α → β}
    {es : List ((o : Op) × Res o)} {b : β} :
    (p.bind fun a => .done (g a)).Unfolds es (.done b) ↔
      ∃ a, p.Unfolds es (.done a) ∧ g a = b := by
  rw [unfolds_bind]
  constructor
  · rintro ⟨es₁, es₂, a, rfl, h, hg⟩
    obtain ⟨rfl, heq⟩ := hg.done_inv
    rw [List.append_nil]
    exact ⟨a, h, (Prog.done.inj heq).symm⟩
  · rintro ⟨a, h, rfl⟩
    exact ⟨es, [], a, (List.append_nil es).symm, h, .refl _⟩

/-- Whatever is answered, a program comes to its end. -/
theorem Prog.exists_unfolds (hRes : ∀ o, Nonempty (Res o)) (p : Prog Op Res α) :
    ∃ es a, p.Unfolds es (.done a) := by
  induction p with
  | done a => exact ⟨[], a, .refl _⟩
  | call o k ih =>
    obtain ⟨r⟩ := hRes o
    obtain ⟨es, a, h⟩ := ih r
    exact ⟨⟨o, r⟩ :: es, a, .step h⟩

/-- A program comes to its end, whatever the answer to its first operation. -/
theorem Prog.exists_unfolds_call (hRes : ∀ o, Nonempty (Res o)) {o : Op}
    {k : Res o → Prog Op Res α} (r : Res o) :
    ∃ es a, (Prog.call o k).Unfolds (⟨o, r⟩ :: es) (.done a) := by
  obtain ⟨es, a, h⟩ := exists_unfolds hRes (k r)
  exact ⟨es, a, .step h⟩

/-- What a program can perform it performs on some trace. -/
theorem Prog.calls_iff_unfolds (hRes : ∀ o, Nonempty (Res o)) {P : Op → Prop}
    {p : Prog Op Res α} :
    p.Calls P ↔ ∀ es a, p.Unfolds es (.done a) → ∀ e ∈ es, P e.1 := by
  constructor
  · intro hp es a h
    exact h.calls hp
  · intro h
    induction p with
    | done a => exact trivial
    | call o k ih =>
      refine ⟨?_, fun r => ih r fun es a hk e he => ?_⟩
      · obtain ⟨es, a, hes⟩ := Prog.exists_unfolds hRes (.call o k)
        obtain ⟨r, es', rfl, -⟩ := hes.call_inv
        exact h _ a hes _ List.mem_cons_self
      · exact h (⟨o, r⟩ :: es) a (.step hk) e (List.mem_cons_of_mem _ he)

/-- The operations are performed one after the other, with these answers. Tasks that are started
    are left out. -/
def Machine.Performs (M : Machine Op Res σ Ext Req) : List ((o : Op) × Res o) → σ → σ → Prop
  | [], s, s' => s' = s
  | e :: es, s, s' => ∃ x s₁ new, M.exec x e.1 s = some (e.2, s₁, new) ∧ M.Performs es s₁ s'

theorem Machine.performs_append {M : Machine Op Res σ Ext Req}
    {es es' : List ((o : Op) × Res o)} {s s' : σ} :
    M.Performs (es ++ es') s s' ↔ ∃ s₁, M.Performs es s s₁ ∧ M.Performs es' s₁ s' := by
  induction es generalizing s with
  | nil => simp [Performs]
  | cons e es ih =>
    simp only [List.cons_append, Performs, ih]
    constructor
    · rintro ⟨x, s₁, new, hx, s₂, h, h'⟩
      exact ⟨s₂, ⟨x, s₁, new, hx, h⟩, h'⟩
    · rintro ⟨s₂, ⟨x, s₁, new, hx, h⟩, h'⟩
      exact ⟨x, s₁, new, hx, s₂, h, h'⟩

/-- A program that starts no task and is performed to its end is a run of its own. -/
theorem Machine.Exec.of_performs {M : Machine Op Res σ Ext Req} {p : Prog Op Res α}
    (hp : p.Calls fun o => ∀ x s r s' new, M.exec x o s = some (r, s', new) → new = [])
    {es : List ((o : Op) × Res o)} {a : α} (h : p.Unfolds es (.done a)) {s s' : σ}
    (hs : M.Performs es s s') : M.Exec Eq p s a s' := by
  generalize hq : (Prog.done a : Prog Op Res α) = q at h
  induction h generalizing s with
  | refl p =>
    subst hq
    obtain rfl : s' = s := hs
    exact .done a s'
  | step _ ih =>
    obtain ⟨x, s₁, new, hx, hs⟩ := hs
    obtain rfl := hp.1 x s _ s₁ new hx
    exact .call x rfl hx (ih (hp.2 _) hs hq)

/-- Run a program alone on a given list of outside choices, one for each operation. -/
def Machine.evalAnswers (M : Machine Op Res σ Ext Req) :
    List Ext → Prog Op Res α → σ → Option (List ((o : Op) × Res o) × α × σ)
  | [], .done a, s => some ([], a, s)
  | x :: xs, .call o k, s =>
      match M.exec x o s with
      | some (r, s', []) => (M.evalAnswers xs (k r) s').map fun res => (⟨o, r⟩ :: res.1, res.2)
      | _ => none
  | _, _, _ => none

/-- A run unfolds its program. -/
theorem Machine.Exec.unfolds {M : Machine Op Res σ Ext Req} {R : σ → σ → Prop}
    {p : Prog Op Res α} {s s' : σ} {a : α} (h : M.Exec R p s a s') :
    ∃ es, p.Unfolds es (.done a) := by
  induction h with
  | done a s => exact ⟨[], .refl _⟩
  | call x interfere step rest ih =>
    obtain ⟨es, hes⟩ := ih
    exact ⟨_, .step hes⟩

/-- What `evalAnswers` computes is the trace of a run. -/
theorem Machine.unfolds_of_evalAnswers {M : Machine Op Res σ Ext Req} {xs : List Ext}
    {p : Prog Op Res α} {s s' : σ} {es : List ((o : Op) × Res o)} {a : α}
    (h : M.evalAnswers xs p s = some (es, a, s')) :
    p.Unfolds es (.done a) ∧ M.Performs es s s' := by
  induction xs generalizing p s es with
  | nil =>
    cases p with
    | done b =>
      cases h
      exact ⟨.refl _, rfl⟩
    | call o k => simp [evalAnswers] at h
  | cons x xs ih =>
    cases p with
    | done b => simp [evalAnswers] at h
    | call o k =>
      simp only [evalAnswers] at h
      split at h
      · rename_i r s₁ hx
        obtain ⟨⟨es', b, s₂⟩, hres, heq⟩ := Option.map_eq_some_iff.1 h
        cases heq
        obtain ⟨hunfolds, hperforms⟩ := ih hres
        exact ⟨.step hunfolds, x, s₁, [], hx, hperforms⟩
      · exact absurd h (by simp)

/-- A run that can be computed and passes a check. -/
theorem Machine.exists_unfolds (M : Machine Op Res σ Ext Req) (xs : List Ext)
    (p : Prog Op Res α) (s : σ) (P : α → σ → Bool)
    (h : (M.evalAnswers xs p s).any fun r => P r.2.1 r.2.2) :
    ∃ es a s', p.Unfolds es (.done a) ∧ M.Performs es s s' ∧ P a s' := by
  obtain ⟨⟨es, a, s'⟩, hres, hP⟩ := (Option.any_eq_true _ _).1 h
  obtain ⟨hunfolds, hperforms⟩ := unfolds_of_evalAnswers hres
  exact ⟨es, a, s', hunfolds, hperforms, hP⟩

namespace System

/-- The trace of a thread, by its index. -/
def traceAt (c : Config Op Res σ Req ρ) (i : Nat) : List ((o : Op) × Res o) :=
  ((c.threads[i]?).map Thread.trace).getD []

/-- The threads ran one after the other, each from its start to where it is. -/
def SerialRun (Y : System Op Res σ Ext Req ρ) : List (Thread Op Res Req ρ) → σ → σ → Prop
  | [], s, s' => s' = s
  | t :: ts, s, s' => (Y.prog t.req).Unfolds t.trace t.prog ∧
      ∃ s₁, Y.toMachine.Performs t.trace s s₁ ∧ Y.SerialRun ts s₁ s'

variable {Y : System Op Res σ Ext Req ρ} {C : Config Op Res σ Req ρ → Label σ Ext Req → Prop}
  {c c' : Config Op Res σ Req ρ}

theorem traceAt_of_getElem? {i : Nat} {t : Thread Op Res Req ρ} (ht : c.threads[i]? = some t) :
    traceAt c i = t.trace := by
  rw [traceAt, ht]
  rfl

/-- Every thread of a pool is where its trace has brought it. -/
theorem Steps.unfolds (h : Y.Steps C c c') (hidle : c.threads = []) :
    ∀ t ∈ c'.threads, (Y.prog t.req).Unfolds t.trace t.prog := by
  refine h.invariant (fun c => ∀ t ∈ c.threads, (Y.prog t.req).Unfolds t.trace t.prog) ?_
    (by simp [hidle])
  intro c l c' _ hstep hc
  cases l with
  | arrive q =>
    cases hstep
    intro t ht
    rcases List.mem_append.1 ht with ht | ht
    · exact hc t ht
    · rw [List.mem_singleton.1 ht]
      exact .refl _
  | env s =>
    cases hstep
    exact hc
  | run i x =>
    obtain ⟨t, o, k, r, s, new, ht, hk, hx, rfl⟩ := step_run hstep
    have hold := hc t (List.mem_of_getElem? ht)
    intro u hu
    rcases List.mem_append.1 hu with hu | hu
    · rcases List.mem_or_eq_of_mem_set hu with hu | rfl
      · exact hc u hu
      · rw [hk] at hold
        exact hold.snoc r
    · obtain ⟨q, -, rfl⟩ := List.mem_map.1 hu
      exact .refl _

/-- Threads whose traces are performed one after the other run serially. -/
theorem serialRun_of_performs {order : List Nat} {s s' : σ}
    (hthreads : ∀ i ∈ order, ∃ t, c.threads[i]? = some t ∧ (Y.prog t.req).Unfolds t.trace t.prog)
    (h : Y.toMachine.Performs (order.flatMap (traceAt c)) s s') :
    ∃ us, Y.SerialRun us s s' ∧ List.Forall₂ (fun i u => c.threads[i]? = some u) order us := by
  induction order generalizing s with
  | nil => exact ⟨[], h, .nil⟩
  | cons i order ih =>
    obtain ⟨t, ht, hunfolds⟩ := hthreads i List.mem_cons_self
    rw [List.flatMap_cons, traceAt_of_getElem? ht] at h
    obtain ⟨s₁, h, hrest⟩ := Machine.performs_append.1 h
    obtain ⟨us, hus, hall⟩ := ih (fun j hj => hthreads j (List.mem_cons_of_mem _ hj)) hrest
    exact ⟨t :: us, ⟨hunfolds, s₁, h, hus⟩, .cons ht hall⟩

end System

/-! ## Ids that are drawn once -/

/-- The ids the operations draw, and those that have been drawn. -/
structure Draws (Op : Type) (Res : Op → Type) (σ ι : Type) where
  drawn : (o : Op) → Res o → Option ι
  issued : σ → List ι

namespace Draws

variable {ι : Type} (D : Draws Op Res σ ι)

/-- An id that is drawn has not been drawn before. -/
def Lawful (M : Machine Op Res σ Ext Req) : Prop :=
  ∀ {x o s r s' new}, M.exec x o s = some (r, s', new) →
    (∀ u ∈ D.drawn o r, u ∉ D.issued s) ∧ D.issued s' = (D.drawn o r).toList ++ D.issued s

/-- The ids of a trace. -/
def ids (trace : List ((o : Op) × Res o)) : List ι := trace.filterMap fun e => D.drawn e.1 e.2

/-- No two threads have drawn one id, and none was there at the start. -/
structure Fresh (s₀ : σ) (c : Config Op Res σ Req ρ) : Prop where
  once : ∀ (i : Nat) (t : Thread Op Res Req ρ), c.threads[i]? = some t → (D.ids t.trace).Nodup
  apart : ∀ (i j : Nat) (t u : Thread Op Res Req ρ), c.threads[i]? = some t →
    c.threads[j]? = some u → i ≠ j → List.Disjoint (D.ids t.trace) (D.ids u.trace)
  issued : ∀ t ∈ c.threads, ∀ u ∈ D.ids t.trace, u ∈ D.issued c.shared ∧ u ∉ D.issued s₀
  kept : ∀ u ∈ D.issued s₀, u ∈ D.issued c.shared

variable {D} {Y : System Op Res σ Ext Req ρ} {s₀ : σ} {c c' : Config Op Res σ Req ρ}
  {C : Config Op Res σ Req ρ → Label σ Ext Req → Prop}

/-- A thread that has drawn nothing yet is added. -/
theorem Fresh.of_threads (h : D.Fresh s₀ c) {d : Config Op Res σ Req ρ}
    (hissued : D.issued d.shared = D.issued c.shared)
    (hthreads : ∀ (j : Nat) (u : Thread Op Res Req ρ), d.threads[j]? = some u →
      c.threads[j]? = some u ∨ u.trace = []) : D.Fresh s₀ d := by
  refine ⟨fun i t ht => ?_, fun i j t u ht hu hij => ?_, fun t ht u hu => ?_, fun u hu => ?_⟩
  · rcases hthreads i t ht with ht | ht
    · exact h.once i t ht
    · rw [ht]
      exact List.nodup_nil
  · rcases hthreads i t ht with ht | ht
    · rcases hthreads j u hu with hu | hu
      · exact h.apart i j t u ht hu hij
      · rw [hu]
        exact List.disjoint_nil_right _
    · rw [ht]
      exact List.disjoint_nil_left _
  · obtain ⟨j, hj⟩ := List.getElem?_of_mem ht
    rw [hissued]
    rcases hthreads j t hj with hj | hj
    · exact h.issued t (List.mem_of_getElem? hj) u hu
    · rw [hj] at hu
      exact nomatch hu
  · rw [hissued]
    exact h.kept u hu

/-- An operation of a thread draws a new id or none. -/
theorem Lawful.fresh_run (hD : D.Lawful Y.toMachine) (h : D.Fresh s₀ c) {i : Nat} {x : Ext}
    (hstep : Y.step c (.run i x) = some c') : D.Fresh s₀ c' := by
  obtain ⟨t, o, k, r, s, new, ht, hk, hx, rfl⟩ := System.step_run hstep
  obtain ⟨hnew, hissued⟩ := hD hx
  have hids : D.ids (t.trace ++ [⟨o, r⟩]) = D.ids t.trace ++ (D.drawn o r).toList := by
    rw [ids, List.filterMap_append]
    show _ ++ List.filterMap _ [_] = _
    cases hdrawn : D.drawn o r <;> simp [ids, hdrawn]
  -- an id that has been drawn is not the one that is drawn now
  have hother : ∀ u ∈ c.threads, ∀ v ∈ D.ids u.trace, v ∉ D.drawn o r := by
    intro u hu v hv hdrawn
    exact hnew v hdrawn (h.issued u hu v hv).1
  have htm := List.mem_of_getElem? ht
  have hmoved : ∀ (j : Nat) (u : Thread Op Res Req ρ), j ≠ i → c.threads[j]? = some u →
      List.Disjoint (D.ids u.trace) (D.ids (t.trace ++ [⟨o, r⟩])) := by
    intro j u hj hu v hv hv'
    rw [hids, List.mem_append, Option.mem_toList] at hv'
    rcases hv' with hv' | hv'
    · exact h.apart j i u t hu ht hj hv hv'
    · exact hother u (List.mem_of_getElem? hu) v hv hv'
  refine ⟨fun j u hu => ?_, fun j l u v hu hv hjl => ?_, fun u hu v hv => ?_, fun v hv => ?_⟩
  · rcases System.getElem?_after hu with ⟨-, rfl⟩ | ⟨-, hu⟩ | ⟨q, -, rfl⟩
    · rw [hids, List.nodup_append]
      refine ⟨h.once i t ht, by cases D.drawn o r <;> simp, fun a ha b hb hab => ?_⟩
      rw [Option.mem_toList] at hb
      exact hother t htm a ha (hab ▸ hb)
    · exact h.once j u hu
    · exact List.nodup_nil
  · rcases System.getElem?_after hu with ⟨rfl, rfl⟩ | ⟨hj, hu'⟩ | ⟨q, -, rfl⟩
    · rcases System.getElem?_after hv with ⟨rfl, -⟩ | ⟨hl, hv⟩ | ⟨q, -, rfl⟩
      · exact absurd rfl hjl
      · exact fun w hw hw' => hmoved l v hl hv hw' hw
      · exact List.disjoint_nil_right _
    · rcases System.getElem?_after hv with ⟨-, rfl⟩ | ⟨-, hv⟩ | ⟨q, -, rfl⟩
      · exact hmoved j u hj hu'
      · exact h.apart j l u v hu' hv hjl
      · exact List.disjoint_nil_right _
    · exact List.disjoint_nil_left _
  · show v ∈ D.issued s ∧ _
    rw [hissued, List.mem_append, Option.mem_toList]
    rcases List.mem_append.1 hu with hu | hu
    · rcases List.mem_or_eq_of_mem_set hu with hu | rfl
      · obtain ⟨hv, hv₀⟩ := h.issued u hu v hv
        exact ⟨.inr hv, hv₀⟩
      · rw [hids, List.mem_append, Option.mem_toList] at hv
        rcases hv with hv | hv
        · obtain ⟨hv, hv₀⟩ := h.issued t htm v hv
          exact ⟨.inr hv, hv₀⟩
        · exact ⟨.inl hv, fun hv₀ => hnew v hv (h.kept v hv₀)⟩
    · obtain ⟨q, -, rfl⟩ := List.mem_map.1 hu
      exact nomatch hv
  · show v ∈ D.issued s
    rw [hissued, List.mem_append]
    exact .inr (h.kept v hv)

/-- **No id is drawn twice in a run.** -/
theorem Lawful.fresh (hD : D.Lawful Y.toMachine)
    (hC : ∀ c s, C c (.env s) → D.issued s = D.issued c.shared) (h : Y.Steps C c c')
    (hidle : c.threads = []) : D.Fresh c.shared c' := by
  refine h.invariant (fun c' => D.Fresh c.shared c') ?_
    ⟨by simp [hidle], by simp [hidle], by simp [hidle], fun u hu => hu⟩
  intro c₁ l c₂ hl hstep hfresh
  cases l with
  | arrive q =>
    cases hstep
    refine hfresh.of_threads rfl fun j u hu => ?_
    rw [List.getElem?_append] at hu
    split at hu
    · exact .inl hu
    · rw [List.mem_singleton.1 (List.mem_of_getElem? hu)]
      exact .inr rfl
  | env s =>
    cases hstep
    exact hfresh.of_threads (hC _ _ hl) fun j u hu => .inl hu
  | run i x => exact hD.fresh_run hfresh hstep

theorem mem_ids {u : ι} {trace : List ((o : Op) × Res o)} {o : Op} {r : Res o}
    (hmem : ⟨o, r⟩ ∈ trace) (hu : D.drawn o r = some u) : u ∈ D.ids trace :=
  List.mem_filterMap.2 ⟨_, hmem, hu⟩

/-- An id belongs to the thread that has drawn it. -/
theorem Fresh.thread_unique (h : D.Fresh s₀ c) {t t' : Thread Op Res Req ρ} (ht : t ∈ c.threads)
    (ht' : t' ∈ c.threads) {u : ι} (hu : u ∈ D.ids t.trace) (hu' : u ∈ D.ids t'.trace) :
    t' = t := by
  obtain ⟨i, hi⟩ := List.getElem?_of_mem ht
  obtain ⟨j, hj⟩ := List.getElem?_of_mem ht'
  by_cases hij : i = j
  · subst hij
    exact Option.some.inj (hj.symm.trans hi)
  · exact absurd hu' (h.apart i j t t' hi hj hij hu)

/-- The traces of different threads, put one after the other, draw no id twice. -/
theorem Fresh.nodup_flatMap (h : D.Fresh s₀ c) {order : List Nat} (hnd : order.Nodup)
    (hthreads : ∀ i ∈ order, ∃ t, c.threads[i]? = some t) :
    (D.ids (order.flatMap (System.traceAt c))).Nodup ∧
      ∀ u ∈ D.ids (order.flatMap (System.traceAt c)), u ∉ D.issued s₀ := by
  rw [ids, List.filterMap_flatMap]
  refine ⟨List.nodup_flatMap.2 ⟨fun i hi => ?_, ?_⟩, fun u hu => ?_⟩
  · obtain ⟨t, ht⟩ := hthreads i hi
    rw [System.traceAt_of_getElem? ht]
    exact h.once i t ht
  · refine hnd.imp_of_mem fun {i j} hi hj hij => ?_
    obtain ⟨t, ht⟩ := hthreads i hi
    obtain ⟨u, hu⟩ := hthreads j hj
    show List.Disjoint (D.ids (System.traceAt c i)) (D.ids (System.traceAt c j))
    rw [System.traceAt_of_getElem? ht, System.traceAt_of_getElem? hu]
    exact h.apart i j t u ht hu hij
  · obtain ⟨i, hi, hu⟩ := List.mem_flatMap.1 hu
    obtain ⟨t, ht⟩ := hthreads i hi
    rw [System.traceAt_of_getElem? ht] at hu
    exact (h.issued t (List.mem_of_getElem? ht) u hu).2

end Draws

end Lib

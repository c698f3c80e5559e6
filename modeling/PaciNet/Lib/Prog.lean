import Mathlib.Logic.Basic

/-!
# Effectful programs and what a monitor may say about them

A `Prog` is a piece of sequential code cut at its effects: it is either finished, or it
performs one operation and continues with whatever answer comes back. Nothing here says what
an operation *does*. That is left to a machine (`Lib/Machine.lean`), so the same program can be
run alone, run under interference, or run as one thread of many.

Two ways of speaking about a program without running it are enough for everything built on
top:

* `Prog.Calls P p`: every operation `p` can ever perform satisfies `P`.
* `Prog.wp M Q s p`: under the monitor `M`, started in the monitor state `s`, every operation
  of `p` is allowed and `p` finishes in a state `Q` accepts.

A monitor is an automaton over operations and their answers. Because it sees nothing else, its
state is a function of the trace of a thread, which is what lets `Lib/Pool.lean` attach one to
each thread of an interleaving.
-/

namespace Lib

/-- Sequential code over the operations `Op`; an operation `o` is answered in `Res o`. -/
inductive Prog (Op : Type) (Res : Op → Type) (α : Type) : Type where
  | done (a : α)
  | call (o : Op) (k : Res o → Prog Op Res α)

namespace Prog

variable {Op : Type} {Res : Op → Type} {α β γ ε : Type}

/-- Sequencing: `f` takes over where the program finishes. -/
protected def bind : Prog Op Res α → (α → Prog Op Res β) → Prog Op Res β
  | .done a, f => f a
  | .call o k, f => .call o fun r => (k r).bind f

instance : Monad (Prog Op Res) where
  pure := .done
  bind := Prog.bind

/-- Perform one operation and return its answer. -/
def perform (o : Op) : Prog Op Res (Res o) := .call o .done

/-- Early return on an error, continue on a value. -/
def orReturn (p : Prog Op Res (Except ε α)) (f : α → Prog Op Res (Except ε β)) :
    Prog Op Res (Except ε β) :=
  p.bind fun
    | .error e => .done (.error e)
    | .ok a => f a

@[simp] theorem pure_eq (a : α) : (pure a : Prog Op Res α) = .done a := rfl

@[simp] theorem bind_eq (p : Prog Op Res α) (f : α → Prog Op Res β) : p >>= f = p.bind f := rfl

@[simp] theorem done_bind (a : α) (f : α → Prog Op Res β) : (Prog.done a).bind f = f a := rfl

@[simp] theorem call_bind (o : Op) (k : Res o → Prog Op Res α) (f : α → Prog Op Res β) :
    (Prog.call o k).bind f = .call o fun r => (k r).bind f := rfl

@[simp] theorem perform_bind (o : Op) (f : Res o → Prog Op Res β) :
    (perform o).bind f = .call o f := rfl

theorem bind_done (p : Prog Op Res α) : p.bind .done = p := by
  induction p with
  | done a => rfl
  | call o k ih => simp only [call_bind, ih]

theorem bind_assoc (p : Prog Op Res α) (f : α → Prog Op Res β) (g : β → Prog Op Res γ) :
    (p.bind f).bind g = p.bind fun a => (f a).bind g := by
  induction p with
  | done a => rfl
  | call o k ih => simp only [call_bind, ih]

/-! ## The operations a program can perform -/

/-- Every operation on every path of the program satisfies `P`. -/
def Calls (P : Op → Prop) : Prog Op Res α → Prop
  | .done _ => True
  | .call o k => P o ∧ ∀ r, (k r).Calls P

@[simp] theorem calls_done (P : Op → Prop) (a : α) : (Prog.done a : Prog Op Res α).Calls P :=
  trivial

@[simp] theorem calls_call {P : Op → Prop} {o : Op} {k : Res o → Prog Op Res α} :
    (Prog.call o k).Calls P ↔ P o ∧ ∀ r, (k r).Calls P := Iff.rfl

@[simp] theorem calls_perform {P : Op → Prop} {o : Op} :
    (perform o : Prog Op Res (Res o)).Calls P ↔ P o := by
  simp [perform]

theorem Calls.bind {P : Op → Prop} {p : Prog Op Res α} {f : α → Prog Op Res β}
    (hp : p.Calls P) (hf : ∀ a, (f a).Calls P) : (p.bind f).Calls P := by
  induction p with
  | done a => exact hf a
  | call o k ih => exact ⟨hp.1, fun r => ih r (hp.2 r)⟩

/-- What a sequence performs its first part performs. -/
theorem Calls.of_bind {P : Op → Prop} {p : Prog Op Res α} {f : α → Prog Op Res β}
    (h : (p.bind f).Calls P) : p.Calls P := by
  induction p with
  | done a => exact trivial
  | call o k ih => exact ⟨h.1, fun r => ih r (h.2 r)⟩

theorem Calls.orReturn {P : Op → Prop} {p : Prog Op Res (Except ε α)}
    {f : α → Prog Op Res (Except ε β)} (hp : p.Calls P) (hf : ∀ a, (f a).Calls P) :
    (p.orReturn f).Calls P := by
  refine hp.bind fun r => ?_
  cases r with
  | error e => exact trivial
  | ok a => exact hf a

theorem Calls.mono {P P' : Op → Prop} (h : ∀ o, P o → P' o) {p : Prog Op Res α}
    (hp : p.Calls P) : p.Calls P' := by
  induction p with
  | done a => exact trivial
  | call o k ih => exact ⟨h o hp.1, fun r => ih r (hp.2 r)⟩

theorem Calls.and {P P' : Op → Prop} {p : Prog Op Res α} (h : p.Calls P) (h' : p.Calls P') :
    p.Calls fun o => P o ∧ P' o := by
  induction p with
  | done a => exact trivial
  | call o k ih => exact ⟨⟨h.1, h'.1⟩, fun r => ih r (h.2 r) (h'.2 r)⟩

end Prog

/-! ## Monitors -/

/-- An automaton over operations and answers. `allow` is what the program owes, `expect` is what
    it may rely on about the answers it gets. -/
structure Monitor (Op : Type) (Res : Op → Type) (S : Type) where
  allow : S → Op → Prop
  expect : (o : Op) → Res o → Prop
  next : S → (o : Op) → Res o → S

namespace Monitor

variable {Op : Type} {Res : Op → Type} {S : Type}

/-- The monitor state after a trace of answered operations. -/
def after (M : Monitor Op Res S) (s : S) (trace : List ((o : Op) × Res o)) : S :=
  trace.foldl (fun s e => M.next s e.1 e.2) s

@[simp] theorem after_nil (M : Monitor Op Res S) (s : S) : M.after s [] = s := rfl

@[simp] theorem after_snoc (M : Monitor Op Res S) (s : S) (trace : List ((o : Op) × Res o))
    (e : (o : Op) × Res o) : M.after s (trace ++ [e]) = M.next (M.after s trace) e.1 e.2 := by
  simp [after]

/-- An operation the monitor always allows and never reacts to. -/
def Silent (M : Monitor Op Res S) (o : Op) : Prop :=
  ∀ s, M.allow s o ∧ ∀ r, M.next s o r = s

/-- An operation the monitor allows wherever it is in `I`, and with which it stays there. -/
def Keeps (M : Monitor Op Res S) (I : S → Prop) (o : Op) : Prop :=
  ∀ s, I s → M.allow s o ∧ ∀ r, M.expect o r → I (M.next s o r)

theorem Silent.keeps {M : Monitor Op Res S} {o : Op} (h : M.Silent o) (I : S → Prop) :
    M.Keeps I o := by
  intro s hs
  refine ⟨(h s).1, fun r _ => ?_⟩
  rw [(h s).2 r]
  exact hs

end Monitor

namespace Prog

variable {Op : Type} {Res : Op → Type} {S α β ε : Type}

/-- Weakest precondition under a monitor: every operation is allowed where it is performed, and
    the program finishes with `Q`, whatever expected answers it gets. -/
def wp (M : Monitor Op Res S) : Prog Op Res α → (S → α → Prop) → S → Prop
  | .done a, Q, s => Q s a
  | .call o k, Q, s => M.allow s o ∧ ∀ r, M.expect o r → (k r).wp M Q (M.next s o r)

variable {M : Monitor Op Res S}

@[simp] theorem wp_done {Q : S → α → Prop} {s : S} {a : α} :
    (Prog.done a : Prog Op Res α).wp M Q s ↔ Q s a := Iff.rfl

@[simp] theorem wp_call {Q : S → α → Prop} {s : S} {o : Op} {k : Res o → Prog Op Res α} :
    (Prog.call o k).wp M Q s ↔
      M.allow s o ∧ ∀ r, M.expect o r → (k r).wp M Q (M.next s o r) := Iff.rfl

@[simp] theorem wp_bind {p : Prog Op Res α} {f : α → Prog Op Res β} {Q : S → β → Prop} {s : S} :
    (p.bind f).wp M Q s ↔ p.wp M (fun s a => (f a).wp M Q s) s := by
  induction p generalizing s with
  | done a => rfl
  | call o k ih => simp only [call_bind, wp_call, ih]

theorem wp.mono {p : Prog Op Res α} {Q Q' : S → α → Prop} {s : S}
    (h : p.wp M Q s) (hQ : ∀ s a, Q s a → Q' s a) : p.wp M Q' s := by
  induction p generalizing s with
  | done a => exact hQ s a h
  | call o k ih => exact ⟨h.1, fun r hr => ih r (h.2 r hr)⟩

/-- What no operation takes from the monitor it still has afterwards. -/
theorem wp.stable {p : Prog Op Res α} {Q : S → α → Prop} {I : S → Prop} {s : S}
    (h : p.wp M Q s) (hI : ∀ s o r, I s → I (M.next s o r)) (hs : I s) :
    p.wp M (fun s a => Q s a ∧ I s) s := by
  induction p generalizing s with
  | done a => exact ⟨h, hs⟩
  | call o k ih => exact ⟨h.1, fun r hr => ih r (h.2 r hr) (hI s o r hs)⟩

/-- A silent operation can be stepped over. -/
theorem wp_of_silent {Q : S → α → Prop} {s : S} {o : Op} {k : Res o → Prog Op Res α}
    (ho : M.Silent o) (hk : ∀ r, (k r).wp M Q s) : (Prog.call o k).wp M Q s := by
  refine ⟨(ho s).1, fun r _ => ?_⟩
  rw [(ho s).2 r]
  exact hk r

/-- **A program of silent operations leaves the monitor where it was**, so only its result
    matters. This is what keeps a monitor's proofs away from the code it does not watch. -/
theorem wp_of_calls {p : Prog Op Res α} {Q : S → α → Prop} {s : S}
    (hp : p.Calls M.Silent) (hQ : ∀ a, Q s a) : p.wp M Q s := by
  induction p with
  | done a => exact hQ a
  | call o k ih => exact wp_of_silent hp.1 fun r => ih r (hp.2 r)

/-! ## Programs that keep a monitor where it is -/

/-- Wherever the monitor is in `I`, the program is allowed all it does and leaves it in `I`. -/
def Keeps (M : Monitor Op Res S) (I : S → Prop) (p : Prog Op Res α) : Prop :=
  ∀ s, I s → p.wp M (fun s' _ => I s') s

namespace Keeps

variable {I : S → Prop}

theorem done (a : α) : Keeps M I (.done a : Prog Op Res α) := fun _ hs => hs

/-- After an operation only the expected answers count. -/
theorem call {o : Op} {k : Res o → Prog Op Res α} (ho : M.Keeps I o)
    (hk : ∀ r, M.expect o r → Keeps M I (k r)) : Keeps M I (.call o k) := by
  intro s hs
  refine ⟨(ho s hs).1, fun r hr => ?_⟩
  exact hk r hr _ ((ho s hs).2 r hr)

theorem perform {o : Op} {f : Res o → Prog Op Res α} (ho : M.Keeps I o)
    (hf : ∀ r, M.expect o r → Keeps M I (f r)) : Keeps M I ((Prog.perform o).bind f) :=
  .call ho hf

theorem bind {p : Prog Op Res α} {f : α → Prog Op Res β} (hp : Keeps M I p)
    (hf : ∀ a, Keeps M I (f a)) : Keeps M I (p.bind f) :=
  fun s hs => wp_bind.2 ((hp s hs).mono fun s' a hs' => hf a s' hs')

theorem orReturn {p : Prog Op Res (Except ε α)} {f : α → Prog Op Res (Except ε β)}
    (hp : Keeps M I p) (hf : ∀ a, Keeps M I (f a)) : Keeps M I (p.orReturn f) := by
  refine hp.bind fun r => ?_
  cases r with
  | error e => exact .done _
  | ok a => exact hf a

/-- A program of operations that keep the monitor in `I` does so. -/
theorem of_calls {p : Prog Op Res α} (h : p.Calls (M.Keeps I)) : Keeps M I p := by
  induction p with
  | done a => exact .done a
  | call o k ih => exact .call h.1 fun r _ => ih r (h.2 r)

end Keeps

/-! ## Programs built from blocks -/

/-- The program is built from operations that satisfy `P` and from blocks in `B`, in sequence
    and with branches on their answers. What is known of the blocks is then known of it. -/
inductive Built (P : Op → Prop) (B : (β : Type) → Prog Op Res β → Prop) :
    {α : Type} → Prog Op Res α → Prop
  | done {α : Type} (a : α) : Built P B (.done a)
  | call {α : Type} {o : Op} {k : Res o → Prog Op Res α} (ho : P o) (hk : ∀ r, Built P B (k r)) :
      Built P B (.call o k)
  | block {α β : Type} {p : Prog Op Res β} {f : β → Prog Op Res α} (hp : B β p)
      (hf : ∀ b, Built P B (f b)) : Built P B (p.bind f)

namespace Built

variable {P P' : Op → Prop} {B : (β : Type) → Prog Op Res β → Prop}

theorem bind {p : Prog Op Res α} {f : α → Prog Op Res β} (hp : Built P B p)
    (hf : ∀ a, Built P B (f a)) : Built P B (p.bind f) := by
  induction hp with
  | done a => exact hf a
  | call ho _ ih => exact .call ho ih
  | block hb _ ih =>
    rw [bind_assoc]
    exact .block hb ih

theorem perform {o : Op} {f : Res o → Prog Op Res α} (ho : P o) (hf : ∀ r, Built P B (f r)) :
    Built P B ((Prog.perform o).bind f) := .call ho hf

theorem orReturn {p : Prog Op Res (Except ε α)} {f : α → Prog Op Res (Except ε β)}
    (hp : Built P B p) (hf : ∀ a, Built P B (f a)) : Built P B (p.orReturn f) := by
  refine hp.bind fun r => ?_
  cases r with
  | error e => exact .done _
  | ok a => exact hf a

theorem mono (h : ∀ o, P o → P' o) {p : Prog Op Res α} (hp : Built P B p) : Built P' B p := by
  induction hp with
  | done a => exact .done a
  | call ho _ ih => exact .call (h _ ho) ih
  | block hb _ ih => exact .block hb ih

/-- A program of blocks that are built from smaller ones is built from the smaller ones. -/
theorem trans {B' : (β : Type) → Prog Op Res β → Prop} (h : ∀ o, P o → P' o)
    (hB : ∀ (β : Type) (p : Prog Op Res β), B β p → Built P' B' p) {p : Prog Op Res α}
    (hp : Built P B p) : Built P' B' p := by
  induction hp with
  | done a => exact .done a
  | call ho _ ih => exact .call (h _ ho) ih
  | block hb _ ih => exact (hB _ _ hb).bind ih

/-- If the blocks call only operations in `P'`, so does the program. -/
theorem calls (h : ∀ o, P o → P' o) (hB : ∀ (β : Type) (p : Prog Op Res β), B β p → p.Calls P')
    {p : Prog Op Res α} (hp : Built P B p) : p.Calls P' := by
  induction hp with
  | done a => trivial
  | call ho _ ih => exact ⟨h _ ho, ih⟩
  | block hb _ ih => exact (hB _ _ hb).bind ih

/-- A program of operations alone is built from them. -/
theorem of_calls {p : Prog Op Res α} (h : p.Calls P) : Built P B p := by
  induction p with
  | done a => exact .done a
  | call o k ih => exact .call h.1 fun r => ih r (h.2 r)

/-- **If the operations and the blocks keep a monitor in `I`, the program does.** -/
theorem keeps {I : S → Prop} (h : ∀ o, P o → M.Keeps I o)
    (hB : ∀ (β : Type) (p : Prog Op Res β), B β p → Keeps M I p) {p : Prog Op Res α}
    (hp : Built P B p) : Keeps M I p := by
  induction hp with
  | done a => exact .done a
  | call ho _ ih => exact .call (h _ ho) fun r _ => ih r
  | block hb _ ih => exact (hB _ _ hb).bind ih

end Built

end Prog

end Lib

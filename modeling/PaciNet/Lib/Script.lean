import PaciNet.Lib.Prog

/-!
# Scripts of statements, any of which may fail

A script is a program over the statements of an engine. The engine keeps some data and runs one
statement at a time: it answers and leaves new data, or it fails and leaves the data alone. There
is no transaction around a script. A statement that fails ends it, and what the earlier ones wrote
stays.

Which statements fail is decided outside, by a sequence of faults: the statement performed as the
`i`-th meets with the `i`-th fault. Quantifying over the sequence is quantifying over every way a
script can go wrong.

A script is `AllOrNothing` when it leaves the data alone wherever it returns an error. The two
rules cover what can be said of its shape: reading comes first, **and of the statements that write
there is at most one, the last**.
-/

set_option autoImplicit false

namespace Lib

/-- What a statement answers and leaves, given what it meets with. -/
structure Engine (Op : Type) (Res : Op → Type) (δ ε Fault : Type) where
  exec : Fault → (o : Op) → δ → Except ε (Res o × δ)

namespace Engine

variable {Op : Type} {Res : Op → Type} {δ ε Fault α : Type} (E : Engine Op Res δ ε Fault)

/-- The faults the rest of a script meets with. -/
def later (faults : Nat → Fault) : Nat → Fault := fun i => faults (i + 1)

/-- Run a script. A statement that fails returns its error from it. -/
def run : Prog Op Res (Except ε α) → (Nat → Fault) → δ → Except ε α × δ
  | .done r, _, d => (r, d)
  | .call o k, faults, d =>
    match E.exec (faults 0) o d with
    | .error e => (.error e, d)
    | .ok (r, d') => run (k r) (later faults) d'

@[simp] theorem run_done (r : Except ε α) (faults : Nat → Fault) (d : δ) :
    E.run (.done r) faults d = (r, d) := rfl

variable {E}

theorem run_call_of_error {o : Op} {k : Res o → Prog Op Res (Except ε α)} {faults : Nat → Fault}
    {d : δ} {e : ε} (h : E.exec (faults 0) o d = .error e) :
    E.run (.call o k) faults d = (.error e, d) := by
  rw [run, h]

theorem run_call_of_ok {o : Op} {k : Res o → Prog Op Res (Except ε α)} {faults : Nat → Fault}
    {d d' : δ} {r : Res o} (h : E.exec (faults 0) o d = .ok (r, d')) :
    E.run (.call o k) faults d = E.run (k r) (later faults) d' := by
  rw [run, h]

variable (E)

/-- The statement writes nothing. -/
def Reads (o : Op) : Prop := ∀ x d r d', E.exec x o d = .ok (r, d') → d' = d

/-- Where the script returns an error, it leaves the data alone. -/
def AllOrNothing (p : Prog Op Res (Except ε α)) : Prop :=
  ∀ faults d e, (E.run p faults d).1 = .error e → (E.run p faults d).2 = d

variable {E}

theorem allOrNothing_done (r : Except ε α) : E.AllOrNothing (.done r) := by
  intro faults d e _
  rfl

/-- Reading first changes nothing about it. -/
theorem allOrNothing_read {o : Op} {k : Res o → Prog Op Res (Except ε α)} (ho : E.Reads o)
    (hk : ∀ r, E.AllOrNothing (k r)) : E.AllOrNothing (.call o k) := by
  intro faults d e h
  cases hx : E.exec (faults 0) o d with
  | error e' =>
    rw [run_call_of_error hx]
  | ok rd =>
    obtain ⟨r, d'⟩ := rd
    obtain rfl := ho _ _ _ _ hx
    rw [run_call_of_ok hx] at h ⊢
    exact hk r _ _ _ h

/-- A statement after which the script succeeds may write. -/
theorem allOrNothing_last {o : Op} {k : Res o → Prog Op Res (Except ε α)}
    (hk : ∀ r, ∃ a, k r = .done (.ok a)) : E.AllOrNothing (.call o k) := by
  intro faults d e h
  cases hx : E.exec (faults 0) o d with
  | error e' =>
    rw [run_call_of_error hx]
  | ok rd =>
    obtain ⟨r, d'⟩ := rd
    obtain ⟨a, ha⟩ := hk r
    rw [run_call_of_ok hx, ha] at h
    cases h

/-! ## The same statement for each of a list -/

/-- Perform a statement for each element, in order. -/
def forEach {β : Type} (o : β → Op) (k : Prog Op Res (Except ε α)) :
    List β → Prog Op Res (Except ε α)
  | [] => k
  | b :: bs => .call (o b) fun _ => forEach o k bs

variable {β : Type} {o : β → Op}

/-- What every statement of a loop keeps, the loop keeps. -/
theorem run_forEach_keeps {a : α} {I : δ → Prop}
    (ho : ∀ b x d r d', E.exec x (o b) d = .ok (r, d') → I d → I d') (bs : List β)
    (faults : Nat → Fault) (d : δ) (hd : I d) :
    I (E.run (forEach o (.done (.ok a)) bs) faults d).2 := by
  induction bs generalizing faults d with
  | nil => exact hd
  | cons b bs ih =>
    rw [forEach]
    cases hx : E.exec (faults 0) (o b) d with
    | error e =>
      rw [run_call_of_error hx]
      exact hd
    | ok rd =>
      rw [run_call_of_ok hx]
      exact ih _ _ (ho b _ _ _ _ hx hd)

/-- A loop fails where one of its statements does. -/
theorem run_forEach_error_iff {a : α} {Fails : Fault → Prop}
    (ho : ∀ b x d, (∃ e, E.exec x (o b) d = .error e) ↔ Fails x) (bs : List β)
    (faults : Nat → Fault) (d : δ) :
    (∃ e, (E.run (forEach o (.done (.ok a)) bs) faults d).1 = .error e) ↔
      ∃ i < bs.length, Fails (faults i) := by
  induction bs generalizing faults d with
  | nil => simp [forEach]
  | cons b bs ih =>
    rw [forEach]
    cases hx : E.exec (faults 0) (o b) d with
    | error e =>
      rw [run_call_of_error hx]
      constructor
      · intro _
        exact ⟨0, Nat.succ_pos _, (ho b _ d).1 ⟨e, hx⟩⟩
      · intro _
        exact ⟨e, rfl⟩
    | ok rd =>
      have hfirst : ¬ Fails (faults 0) := by
        intro hf
        obtain ⟨e, he⟩ := (ho b _ d).2 hf
        rw [hx] at he
        cases he
      rw [run_call_of_ok hx, ih]
      constructor
      · rintro ⟨i, hi, hf⟩
        exact ⟨i + 1, Nat.succ_lt_succ hi, hf⟩
      · rintro ⟨i, hi, hf⟩
        cases i with
        | zero => exact absurd hf hfirst
        | succ i => exact ⟨i, Nat.lt_of_succ_lt_succ hi, hf⟩

end Engine

end Lib

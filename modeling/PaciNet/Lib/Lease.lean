import Mathlib.Order.Lattice
import Mathlib.Data.List.Basic

/-!
# Leases

A lease names its holder and the last moment at which it holds. Somebody who asks for it is
granted it when nobody holds it, when it is theirs already, or when it has run out; a grant
replaces the lease, and with it the moment it runs out. Anybody may be refused at any time.

**A lease that is held is not granted to anybody else**, whatever is asked in between, up to the
moment the holder's own renewals leave it with.
-/

set_option autoImplicit false

namespace Lib

structure Lease (κ T : Type) where
  holder : κ
  expiry : T

namespace Lease

variable {κ T : Type} [LinearOrder T]

/-- Somebody asks for the lease at a moment, to hold it until another. -/
structure Ask (κ T : Type) where
  id : κ
  now : T
  expiry : T

/-- The lease may be granted: nobody else holds it any more. -/
def Open (l : Option (Lease κ T)) (id : κ) (now : T) : Prop :=
  ∀ x ∈ l, x.holder = id ∨ x.expiry < now

/-- The answer to one ask, and the lease it leaves. -/
inductive Step (l : Option (Lease κ T)) (ask : Ask κ T) : Bool → Option (Lease κ T) → Prop
  | granted (h : Open l ask.id ask.now) : Step l ask true (some ⟨ask.id, ask.expiry⟩)
  | refused : Step l ask false l

/-- Asks with their answers, one after the other. -/
inductive Run : Option (Lease κ T) → List (Ask κ T × Bool) → Option (Lease κ T) → Prop
  | nil (l : Option (Lease κ T)) : Run l [] l
  | cons {l l₁ l' : Option (Lease κ T)} {ask : Ask κ T} {answer : Bool}
      {rest : List (Ask κ T × Bool)} (step : Step l ask answer l₁) (run : Run l₁ rest l') :
      Run l ((ask, answer) :: rest) l'

/-- Held by somebody for at least as long as `t`. -/
def HeldUntil (l : Option (Lease κ T)) (id : κ) (t : T) : Prop :=
  ∃ expiry, l = some ⟨id, expiry⟩ ∧ t ≤ expiry

variable {l l' : Option (Lease κ T)} {id : κ} {t : T}

theorem Step.of_granted {ask : Ask κ T} (h : Step l ask true l') :
    l' = some ⟨ask.id, ask.expiry⟩ := by
  cases h
  rfl

/-- Nobody else is granted a lease that is held. -/
theorem HeldUntil.exclusive {ask : Ask κ T} {answer : Bool} (h : HeldUntil l id t)
    (hstep : Step l ask answer l') (hid : ask.id ≠ id) (hnow : ask.now ≤ t) : answer = false := by
  obtain ⟨expiry, rfl, hexpiry⟩ := h
  cases hstep with
  | refused => rfl
  | granted hopen =>
    rcases hopen _ rfl with hholder | hout
    · exact absurd hholder.symm hid
    · exact absurd (le_trans hnow hexpiry) (not_le_of_gt hout)

/-- An ask leaves the lease held, unless its holder gives it away. -/
theorem HeldUntil.step {ask : Ask κ T} {answer : Bool} (h : HeldUntil l id t)
    (hstep : Step l ask answer l') (hnow : ask.now ≤ t)
    (hkept : answer = true → ask.id = id → t ≤ ask.expiry) : HeldUntil l' id t := by
  by_cases hid : ask.id = id
  · cases hstep with
    | refused => exact h
    | granted hopen =>
      subst hid
      exact ⟨ask.expiry, rfl, hkept rfl rfl⟩
  · obtain rfl := h.exclusive hstep hid hnow
    cases hstep
    exact h

/-- **A lease stays held** over a run up to `t`, unless its holder gives it away. -/
theorem HeldUntil.run {asks : List (Ask κ T × Bool)} (hrun : Run l asks l')
    (h : HeldUntil l id t) (hnow : ∀ a ∈ asks, a.1.now ≤ t)
    (hkept : ∀ a ∈ asks, a.2 = true → a.1.id = id → t ≤ a.1.expiry) : HeldUntil l' id t := by
  induction hrun with
  | nil => exact h
  | cons hstep _ ih =>
    have hnext := h.step hstep (hnow _ (List.mem_cons_self ..)) (hkept _ (List.mem_cons_self ..))
    exact ih hnext (fun a ha => hnow a (List.mem_cons_of_mem _ ha))
      fun a ha => hkept a (List.mem_cons_of_mem _ ha)

/-- Who was granted the lease last. -/
def lastGranted (asks : List (Ask κ T × Bool)) : Option κ :=
  ((asks.filter fun a => a.2).getLast?).map fun a => a.1.id

/-- The holder is who was granted the lease last. -/
theorem Run.holder {asks : List (Ask κ T × Bool)} (hrun : Run l asks l') :
    l'.map holder = (lastGranted asks).or (l.map holder) := by
  induction hrun with
  | nil => rfl
  | @cons l l₁ l' ask answer rest hstep _ ih =>
    rw [ih]
    cases hstep with
    | refused => simp [lastGranted]
    | granted hopen =>
      simp only [lastGranted, List.filter_cons_of_pos, List.getLast?_cons, Option.map_some]
      cases (List.filter (fun a => a.2) rest).getLast? <;> rfl

end Lease

end Lib

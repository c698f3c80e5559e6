import Mathlib.Logic.Function.Basic
import Mathlib.Logic.Relation

/-!
# Mirrors

A mirror is what one party believes of others it cannot see into: for some of its keys, a place
and the value it takes that place to have. The places have values of their own.

A belief is formed three ways only: it is given up, it is confirmed by a look at the place, or
the place changes under it. **A mirror that moves this way stays coherent**, provided no place
changes away from what some key believes of it.
-/

set_option autoImplicit false

namespace Lib

/-- Keys that believe something of a place, and the places as they are. -/
@[ext] structure Mirror (κ ι V : Type) where
  believed : κ → Option (ι × V)
  actual : ι → Option V

namespace Mirror

variable {κ ι V : Type}

/-- What is believed is so. -/
def Coherent (m : Mirror κ ι V) : Prop :=
  ∀ k i v, m.believed k = some (i, v) → m.actual i = some v

/-- Nothing is believed of the place but that it has the value. -/
def Unopposed (m : Mirror κ ι V) (i : ι) (v : Option V) : Prop :=
  ∀ k u, m.believed k = some (i, u) → v = some u

variable [DecidableEq κ] [DecidableEq ι]

/-- One move. -/
inductive Step (m : Mirror κ ι V) : Mirror κ ι V → Prop
  | forget (k : κ) : Step m ⟨Function.update m.believed k none, m.actual⟩
  | confirm (k : κ) {i : ι} {v : V} (h : m.actual i = some v) :
      Step m ⟨Function.update m.believed k (some (i, v)), m.actual⟩
  | replace {i : ι} {v : Option V} (h : m.Unopposed i v) :
      Step m ⟨m.believed, Function.update m.actual i v⟩

/-- Any number of moves. -/
abbrev Steps : Mirror κ ι V → Mirror κ ι V → Prop := Relation.ReflTransGen Step

variable {m m' : Mirror κ ι V}

theorem Step.coherent (h : m.Step m') (hm : m.Coherent) : m'.Coherent := by
  intro l j u hl
  cases h with
  | forget k =>
    by_cases hk : l = k
    · subst hk
      exact absurd hl (by simp)
    · exact hm l j u (by simpa [hk] using hl)
  | confirm k hv =>
    by_cases hk : l = k
    · subst hk
      simp only [Function.update_self, Option.some.injEq, Prod.mk.injEq] at hl
      obtain ⟨rfl, rfl⟩ := hl
      exact hv
    · exact hm l j u (by simpa [hk] using hl)
  | @replace i v hv =>
    show Function.update m.actual i v j = some u
    by_cases hj : j = i
    · subst hj
      rw [Function.update_self]
      exact hv l u hl
    · rw [Function.update_of_ne hj]
      exact hm l j u hl

/-- **Coherence is kept by every run of moves.** -/
theorem Steps.coherent (h : m.Steps m') (hm : m.Coherent) : m'.Coherent := by
  induction h with
  | refl => exact hm
  | tail _ hstep ih => exact hstep.coherent ih

/-! ## Moves given by what they change -/

/-- Only what `k` believes has changed, and it has given its belief up. -/
theorem Steps.forgetting {k : κ} (hk : m'.believed k = none)
    (hrest : ∀ l, l ≠ k → m'.believed l = m.believed l) (hactual : m'.actual = m.actual) :
    m.Steps m' := by
  have heq : m' = ⟨Function.update m.believed k none, m.actual⟩ :=
    Mirror.ext (Function.eq_update_iff.2 ⟨hk, hrest⟩) hactual
  rw [heq]
  exact .single (.forget k)

/-- Only what `k` believes has changed, and it is so. -/
theorem Steps.confirming {k : κ} {i : ι} {v : V} (hk : m'.believed k = some (i, v))
    (hrest : ∀ l, l ≠ k → m'.believed l = m.believed l) (hactual : m'.actual = m.actual)
    (hv : m.actual i = some v) : m.Steps m' := by
  have heq : m' = ⟨Function.update m.believed k (some (i, v)), m.actual⟩ :=
    Mirror.ext (Function.eq_update_iff.2 ⟨hk, hrest⟩) hactual
  rw [heq]
  exact .single (.confirm k hv)

/-- Only one place has changed, and nothing else was believed of it. -/
theorem Steps.replacing {i : ι} {v : Option V} (hbelieved : m'.believed = m.believed)
    (hactual : m'.actual = Function.update m.actual i v) (h : m.Unopposed i v) : m.Steps m' := by
  have heq : m' = ⟨m.believed, Function.update m.actual i v⟩ := Mirror.ext hbelieved hactual
  rw [heq]
  exact .single (.replace h)

/-- `k` brings about what it believes from now on: it gives its belief up, changes the place, and
    looks. Whoever else believes something of the place believes the same. -/
theorem Steps.deploying {k : κ} {i : ι} {v : V}
    (hk : m'.believed k = none ∨ m'.believed k = some (i, v))
    (hrest : ∀ l, l ≠ k → m'.believed l = m.believed l)
    (hactual : m'.actual = Function.update m.actual i (some v))
    (h : ∀ l u, l ≠ k → m.believed l = some (i, u) → u = v) : m.Steps m' := by
  -- the mirror with the belief given up, and then with the place changed
  let m₁ : Mirror κ ι V := ⟨Function.update m.believed k none, m.actual⟩
  let m₂ : Mirror κ ι V := ⟨m₁.believed, Function.update m.actual i (some v)⟩
  have hunopposed : m₁.Unopposed i (some v) := by
    intro l u hl
    by_cases hkl : l = k
    · subst hkl
      exact absurd hl (by simp [m₁])
    · rw [h l u hkl (by simpa [m₁, hkl] using hl)]
  have hsteps : m.Steps m₂ := (Relation.ReflTransGen.single (.forget k)).tail (.replace hunopposed)
  have hrest₂ : ∀ l, l ≠ k → m'.believed l = m₂.believed l := by
    intro l hl
    rw [hrest l hl]
    exact (Function.update_of_ne hl _ _).symm
  rcases hk with hk | hk
  · exact hsteps.trans (Steps.forgetting hk hrest₂ hactual)
  · exact hsteps.trans (Steps.confirming hk hrest₂ hactual (Function.update_self ..))

end Mirror

end Lib

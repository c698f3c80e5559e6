import Mathlib.Data.Int.Log
import Mathlib.Data.Rat.Floor
import Mathlib.Tactic.Linarith
import Mathlib.Tactic.Ring

/-!
# Rounding to double precision

A positive number is rounded to 53 binary digits, to the nearest and of two equally near ones to
the one that ends in zero; numbers so small or so large that the exponent no longer fits are left
out. **A natural number below `2 ^ 53` is not changed (`round_natCast`), and rounding a quotient of
two of them does not take it to the next integer or past it (`ceil_round_div`).**
-/

set_option autoImplicit false

namespace Lib.Binary64

/-- The nearest integer, the even one of two. -/
def nearest (x : ℚ) : ℤ :=
  if 2 * (x - ⌊x⌋) < 1 ∨ 2 * (x - ⌊x⌋) = 1 ∧ Even ⌊x⌋ then ⌊x⌋ else ⌊x⌋ + 1

/-- The unit in the last of 53 binary digits. -/
def ulp (q : ℚ) : ℚ := 2 ^ (Int.log 2 q - 52)

/-- A number that is not negative, in double precision. -/
def round (q : ℚ) : ℚ := if q = 0 then 0 else nearest (q / ulp q) * ulp q

theorem nearest_intCast {z : ℤ} : nearest z = z := by
  simp [nearest]

theorem abs_nearest_sub_le {x : ℚ} : |nearest x - x| ≤ 1 / 2 := by
  have hlow := Int.floor_le x
  have hhigh := Int.lt_floor_add_one x
  rw [nearest, abs_le]
  by_cases h : 2 * (x - ⌊x⌋) < 1 ∨ 2 * (x - ⌊x⌋) = 1 ∧ Even ⌊x⌋
  · rw [if_pos h]
    have hhalf : 2 * (x - ⌊x⌋) ≤ 1 := by
      rcases h with h | h
      · exact h.le
      · exact h.1.le
    constructor <;> linarith
  · rw [if_neg h]
    have hhalf : 1 ≤ 2 * (x - ⌊x⌋) := by
      by_contra hlt
      exact h (.inl (not_le.1 hlt))
    push_cast
    constructor <;> linarith

variable {q : ℚ}

theorem ulp_pos : 0 < ulp q := zpow_pos two_pos _

/-- The last digit is small beside the number. -/
theorem ulp_le (h : 0 < q) : ulp q * 2 ^ 52 ≤ q := by
  have hpow := Int.zpow_log_le_self (b := 2) one_lt_two h
  have hsplit : ulp q * 2 ^ 52 = (2 : ℚ) ^ Int.log 2 q := by
    rw [ulp, ← zpow_natCast, ← zpow_add₀ two_ne_zero]
    congr 1
    omega
  rw [hsplit]
  exact_mod_cast hpow

/-- Rounding changes a number by no more than half of its last digit. -/
theorem abs_round_sub_le (h : 0 < q) : |round q - q| ≤ ulp q / 2 := by
  have hu := ulp_pos (q := q)
  have hscaled : round q - q = (nearest (q / ulp q) - q / ulp q) * ulp q := by
    rw [round, if_neg h.ne', sub_mul, div_mul_cancel₀ _ hu.ne']
  rw [hscaled, abs_mul, abs_of_pos hu]
  have hhalf := mul_le_mul_of_nonneg_right (abs_nearest_sub_le (x := q / ulp q)) hu.le
  linarith

theorem round_natCast {n : ℕ} (h : n < 2 ^ 53) : round n = n := by
  rcases Nat.eq_zero_or_pos n with rfl | hpos
  · simp [round]
  · have hlog : Nat.log 2 n ≤ 52 := by
      have hlt := Nat.log_lt_of_lt_pow hpos.ne' h
      omega
    have hu : ulp (n : ℚ) * 2 ^ (52 - Nat.log 2 n) = 1 := by
      rw [ulp, Int.log_natCast, ← zpow_natCast, ← zpow_add₀ two_ne_zero]
      have hexp : (Nat.log 2 n : ℤ) - 52 + ((52 - Nat.log 2 n : ℕ) : ℤ) = 0 := by omega
      rw [hexp, zpow_zero]
    have hne : ulp (n : ℚ) ≠ 0 := ulp_pos.ne'
    -- in units of the last digit the number is an integer
    have hint : (n : ℚ) / ulp n = ((n * 2 ^ (52 - Nat.log 2 n) : ℕ) : ℤ) := by
      rw [div_eq_iff hne]
      push_cast
      rw [mul_assoc, mul_comm _ (ulp _), hu, mul_one]
    have hzero : (n : ℚ) ≠ 0 := by exact_mod_cast hpos.ne'
    rw [round, if_neg hzero, hint, nearest_intCast, ← hint, div_mul_cancel₀ _ hne]

/-- **Rounding a quotient keeps the integer above it.** -/
theorem ceil_round_div {m d : ℕ} (hm : m < 2 ^ 53) (hd : 0 < d) :
    ⌈round ((m : ℚ) / d)⌉ = ⌈(m : ℚ) / d⌉ := by
  have hd' : (0 : ℚ) < d := by exact_mod_cast hd
  by_cases hdvd : d ∣ m
  · obtain ⟨k, rfl⟩ := hdvd
    have hk : ((d * k : ℕ) : ℚ) / d = (k : ℕ) := by
      push_cast
      rw [mul_div_cancel_left₀ _ hd'.ne']
    have hle : k ≤ d * k := Nat.le_mul_of_pos_left k hd
    rw [hk, round_natCast (by omega)]
  · have hmpos : 0 < m := by
      rcases Nat.eq_zero_or_pos m with rfl | h
      · exact absurd (dvd_zero d) hdvd
      · exact h
    have hm' : (0 : ℚ) < m := by exact_mod_cast hmpos
    have hq : 0 < (m : ℚ) / d := div_pos hm' hd'
    -- the quotient stays one `d`-th away from the integers around it
    have herror : |round ((m : ℚ) / d) - m / d| < 1 / d := by
      have hulp := ulp_le hq
      have hhalf := abs_round_sub_le hq
      have hsmall : (m : ℚ) / d < 2 ^ 53 / d := by
        apply div_lt_div_of_pos_right _ hd'
        exact_mod_cast hm
      have hpow : (2 : ℚ) ^ 53 / d = 2 ^ 53 * (1 / d) := by ring
      rw [hpow] at hsmall
      linarith
    rw [abs_lt] at herror
    have hlow : ((⌈(m : ℚ) / d⌉ - 1 : ℤ) : ℚ) + 1 / d ≤ m / d := by
      have hlt : ((⌈(m : ℚ) / d⌉ - 1 : ℤ) : ℚ) < m / d := by
        have := Int.ceil_lt_add_one ((m : ℚ) / d)
        push_cast
        linarith
      rw [lt_div_iff₀ hd'] at hlt
      have hnat : (⌈(m : ℚ) / d⌉ - 1) * (d : ℤ) + 1 ≤ m := by
        have hlt' : (⌈(m : ℚ) / d⌉ - 1) * (d : ℤ) < m := by exact_mod_cast hlt
        omega
      rw [le_div_iff₀ hd', add_mul, one_div_mul_cancel hd'.ne']
      exact_mod_cast hnat
    have hhigh : (m : ℚ) / d + 1 / d ≤ ⌈(m : ℚ) / d⌉ := by
      have hle := Int.le_ceil ((m : ℚ) / d)
      rw [div_le_iff₀ hd'] at hle
      have hnat : (m : ℤ) + 1 ≤ ⌈(m : ℚ) / d⌉ * d := by
        have hle' : (m : ℤ) ≤ ⌈(m : ℚ) / d⌉ * d := by exact_mod_cast hle
        have hne : (m : ℤ) ≠ ⌈(m : ℚ) / d⌉ * d := by
          intro heq
          apply hdvd
          have hz : (d : ℤ) ∣ m := ⟨_, by rw [heq, mul_comm]⟩
          exact_mod_cast hz
        omega
      rw [← add_div, div_le_iff₀ hd']
      exact_mod_cast hnat
    rw [Int.ceil_eq_iff]
    push_cast at hlow
    constructor <;> linarith

end Lib.Binary64

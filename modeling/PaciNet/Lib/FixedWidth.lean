import Mathlib.Data.List.Basic
import Mathlib.Algebra.Ring.Nat
import Mathlib.Data.Char
import Mathlib.Tactic.Tauto

/-!
# Numbers of a fixed width

Texts are compared character by character. Numbers written with leading zeros to the same width
compare as texts as they do as numbers (`digits_lt_iff`), and so do texts that start with fields of
fixed widths, field by field (`field_lt_iff`).

What comes last may have one of several widths. **A fraction written in as few groups of three
digits as it needs compares as the number does**, if what ends the text comes before the point and
the digits (`fraction_lt_iff`).
-/

set_option autoImplicit false

namespace Lib

/-! ## Digits -/

/-- A digit below ten. -/
def digit (n : Nat) : Char := Char.ofNat (48 + n)

/-- The last `width` decimal digits. -/
def digits : (width n : Nat) → List Char
  | 0, _ => []
  | width + 1, n => digits width (n / 10) ++ [digit (n % 10)]

@[simp] theorem length_digits (width n : Nat) : (digits width n).length = width := by
  induction width generalizing n with
  | zero => rfl
  | succ width ih => simp [digits, ih]

theorem digit_lt_iff : ∀ m < 10, ∀ n < 10, (digit m < digit n ↔ m < n) := by
  decide

theorem digit_inj : ∀ m < 10, ∀ n < 10, (digit m = digit n ↔ m = n) := by
  decide

/-! ## Texts that start with the same number of characters -/

theorem append_lt_append_iff {l l' r r' : List Char} (h : l.length = l'.length) :
    l ++ r < l' ++ r' ↔ l < l' ∨ l = l' ∧ r < r' := by
  induction l generalizing l' with
  | nil =>
    rw [List.eq_nil_of_length_eq_zero h.symm]
    simp
  | cons c l ih =>
    cases l' with
    | nil => simp at h
    | cons c' l' =>
      rw [List.cons_append, List.cons_append, List.cons_lt_cons_iff, List.cons_lt_cons_iff,
        ih (by simpa using h), List.cons.injEq]
      tauto

theorem digits_inj {width m n : Nat} (hm : m < 10 ^ width) (hn : n < 10 ^ width) :
    digits width m = digits width n ↔ m = n := by
  refine ⟨fun h => ?_, fun h => by rw [h]⟩
  induction width generalizing m n with
  | zero => omega
  | succ width ih =>
    unfold digits at h
    obtain ⟨hfirst, hlast⟩ := List.append_inj h (by simp)
    have hdiv := ih (by omega) (by omega) hfirst
    have hmod := (digit_inj (m % 10) (by omega) (n % 10) (by omega)).mp (by simpa using hlast)
    omega

/-- **Numbers of one width compare as texts as they do as numbers.** -/
theorem digits_lt_iff {width m n : Nat} (hm : m < 10 ^ width) (hn : n < 10 ^ width) :
    digits width m < digits width n ↔ m < n := by
  induction width generalizing m n with
  | zero =>
    have h : m = n := by omega
    simp [h]
  | succ width ih =>
    unfold digits
    rw [append_lt_append_iff (by simp), ih (by omega) (by omega),
      digits_inj (by omega) (by omega), List.cons_lt_cons_iff,
      digit_lt_iff _ (by omega) _ (by omega)]
    simp only [List.not_lt_nil, and_false, or_false]
    omega

/-- **A field of fixed width comes before what follows it.** -/
theorem field_lt_iff {width m n : Nat} {r r' : List Char} (hm : m < 10 ^ width)
    (hn : n < 10 ^ width) :
    digits width m ++ r < digits width n ++ r' ↔ m < n ∨ m = n ∧ r < r' := by
  rw [append_lt_append_iff (by simp), digits_lt_iff hm hn, digits_inj hm hn]

theorem cons_lt_cons_same {c : Char} {r r' : List Char} : c :: r < c :: r' ↔ r < r' := by
  rw [List.cons_lt_cons_iff]
  simp

/-! ## Fractions -/

theorem digits_add (a b n : Nat) : digits (a + b) n = digits a (n / 10 ^ b) ++ digits b n := by
  induction b generalizing n with
  | zero => simp [digits]
  | succ b ih =>
    show digits (a + b) (n / 10) ++ _ = _ ++ (digits b (n / 10) ++ _)
    rw [ih, Nat.div_div_eq_div_mul, Nat.pow_succ', List.append_assoc]

/-- A fraction of so many billionths: nothing, or a point and three, six or nine digits, as few as
    are exact. -/
def fraction (nanos : Nat) : List Char :=
  if nanos = 0 then []
  else if nanos % 1000000 = 0 then '.' :: digits 3 (nanos / 1000000)
  else if nanos % 1000 = 0 then '.' :: digits 6 (nanos / 1000)
  else '.' :: digits 9 nanos

/-- The groups of three digits, without the zeros at the end. -/
def groups (nanos : Nat) : List Nat :=
  if nanos = 0 then []
  else if nanos % 1000000 = 0 then [nanos / 1000000]
  else if nanos % 1000 = 0 then [nanos / 1000000, nanos / 1000 % 1000]
  else [nanos / 1000000, nanos / 1000 % 1000, nanos % 1000]

/-- The last digits are those of the remainder. -/
theorem digits_mod (width n : Nat) : digits width (n % 10 ^ width) = digits width n := by
  induction width generalizing n with
  | zero => rfl
  | succ width ih =>
    have hdiv : n % 10 ^ (width + 1) / 10 = n / 10 % 10 ^ width := by
      rw [Nat.pow_succ', Nat.mod_mul_right_div_self]
    have hmod : n % 10 ^ (width + 1) % 10 = n % 10 := by
      rw [Nat.pow_succ', Nat.mod_mul_right_mod]
    unfold digits
    rw [hdiv, hmod, ih]

theorem groups_cases (n : Nat) :
    (n = 0 ∧ groups n = []) ∨
    (n ≠ 0 ∧ n % 1000000 = 0 ∧ groups n = [n / 1000000]) ∨
    (n % 1000000 ≠ 0 ∧ n % 1000 = 0 ∧ groups n = [n / 1000000, n / 1000 % 1000]) ∨
    (n % 1000 ≠ 0 ∧ groups n = [n / 1000000, n / 1000 % 1000, n % 1000]) := by
  unfold groups
  by_cases h0 : n = 0
  · left
    exact ⟨h0, if_pos h0⟩
  · right
    rw [if_neg h0]
    by_cases h6 : n % 1000000 = 0
    · left
      exact ⟨h0, h6, if_pos h6⟩
    · right
      rw [if_neg h6]
      by_cases h3 : n % 1000 = 0
      · left
        exact ⟨h6, h3, if_pos h3⟩
      · right
        exact ⟨h3, if_neg h3⟩

/-- Of two numbers that start alike, the one with fewer groups is the smaller. -/
theorem groups_lt_iff {m n : Nat} : groups m < groups n ↔ m < n := by
  rcases groups_cases m with ⟨hm, e⟩ | ⟨hm, hm', e⟩ | ⟨hm, hm', e⟩ | ⟨hm, e⟩ <;>
    rcases groups_cases n with ⟨hn, e'⟩ | ⟨hn, hn', e'⟩ | ⟨hn, hn', e'⟩ | ⟨hn, e'⟩ <;>
    rw [e, e'] <;>
    simp only [List.cons_lt_cons_iff, List.not_lt_nil, List.nil_lt_cons, and_true, and_false,
      or_false, true_iff, false_iff] <;>
    omega

theorem groups_lt {n : Nat} (h : n < 1000000000) : ∀ g ∈ groups n, g < 1000 := by
  intro g hg
  rcases groups_cases n with ⟨-, e⟩ | ⟨-, -, e⟩ | ⟨-, -, e⟩ | ⟨-, e⟩ <;> rw [e] at hg <;>
    simp only [List.mem_cons, List.not_mem_nil, or_false] at hg <;> omega

/-- A fraction is a point and its groups. -/
theorem fraction_eq {n : Nat} :
    fraction n = if groups n = [] then [] else '.' :: (groups n).flatMap (digits 3) := by
  have hthree (m : Nat) : digits 3 (m % 1000) = digits 3 m := digits_mod 3 m
  have hsplit (width m : Nat) : digits (width + 3) m = digits width (m / 1000) ++ digits 3 m :=
    digits_add width 3 m
  have hsix : digits 6 (n / 1000) = digits 3 (n / 1000000) ++ digits 3 (n / 1000 % 1000) := by
    rw [hthree, hsplit 3, Nat.div_div_eq_div_mul]
  have hnine : digits 9 n =
      digits 3 (n / 1000000) ++ (digits 3 (n / 1000 % 1000) ++ digits 3 (n % 1000)) := by
    rw [hsplit 6, hsix, hthree n, List.append_assoc]
  unfold fraction groups
  rw [hsix, hnine]
  split
  · rfl
  · split
    · simp
    · split <;> simp

theorem lt_digit {e : Char} (he : e < '0') : ∀ n < 10, e < digit n := by
  intro n hn
  have h : ∀ n < 10, '0' ≤ digit n := by decide
  exact lt_of_lt_of_le he (h n hn)

/-- What ends the text comes before every group. -/
theorem end_lt_group {e : Char} (he : e < '0') (g : Nat) (r r' : List Char) :
    e :: r < digits 3 g ++ r' := by
  show e :: r < digit (g / 10 / 10 % 10) :: _
  rw [List.cons_lt_cons_iff]
  exact Or.inl (lt_digit he _ (by omega))

theorem flatMap_digits_lt_iff {e : Char} (he : e < '0') {r : List Char} {gs gs' : List Nat}
    (h : ∀ g ∈ gs, g < 1000) (h' : ∀ g ∈ gs', g < 1000) :
    gs.flatMap (digits 3) ++ e :: r < gs'.flatMap (digits 3) ++ e :: r ↔ gs < gs' := by
  induction gs generalizing gs' with
  | nil =>
    cases gs' with
    | nil => simp
    | cons g' gs' =>
      refine iff_of_true ?_ (List.nil_lt_cons _ _)
      rw [List.flatMap_cons, List.append_assoc]
      exact end_lt_group he _ _ _
  | cons g gs ih =>
    cases gs' with
    | nil =>
      refine iff_of_false ?_ (List.not_lt_nil _)
      rw [List.flatMap_cons, List.append_assoc]
      exact List.lt_asymm (end_lt_group he _ _ _)
    | cons g' gs' =>
      rw [List.forall_mem_cons] at h h'
      rw [List.flatMap_cons, List.flatMap_cons, List.append_assoc, List.append_assoc,
        field_lt_iff h.1 h'.1, ih h.2 h'.2, List.cons_lt_cons_iff]

/-- **Fractions compare as numbers do**, whatever their widths. -/
theorem fraction_lt_iff {e : Char} (he : e < '.') {r : List Char} {m n : Nat} (hm : m < 1000000000)
    (hn : n < 1000000000) : fraction m ++ e :: r < fraction n ++ e :: r ↔ m < n := by
  have hpoint : '.' < '0' := by decide
  have hgroups :=
    flatMap_digits_lt_iff (Char.lt_trans he hpoint) (r := r) (groups_lt hm) (groups_lt hn)
  rw [← groups_lt_iff (m := m), ← hgroups, fraction_eq, fraction_eq]
  by_cases h : groups m = [] <;> by_cases h' : groups n = []
  · rw [if_pos h, if_pos h', h, h']
    rfl
  · rw [if_pos h, if_neg h', hgroups, h]
    refine iff_of_true (List.cons_lt_cons_iff.mpr (Or.inl he)) ?_
    obtain ⟨g, gs, hgs⟩ := List.exists_cons_of_ne_nil h'
    rw [hgs]
    exact List.nil_lt_cons _ _
  · rw [if_neg h, if_pos h', hgroups, h']
    refine iff_of_false ?_ (List.not_lt_nil _)
    exact List.lt_asymm (List.cons_lt_cons_iff.mpr (Or.inl he))
  · rw [if_neg h, if_neg h', List.cons_append, List.cons_append]
    exact cons_lt_cons_same

end Lib

import Mathlib.Data.String.Basic

/-!
# Cutting a text at a byte

A text is stored in UTF-8, so a place in it counted in bytes may lie inside a character, and a
slice up to such a place is no text. **A text can be cut at byte `n` unless one of its characters
begins before `n` and ends after it (`slice_isSome_iff`).**
-/

set_option autoImplicit false

namespace Lib.ByteSlice

open String

variable {n : Nat} {s : List Char}

/-- The first `n` bytes of a text, where they are a text. -/
def slice : Nat → List Char → Option (List Char)
  | 0, _ => some []
  | _ + 1, [] => none
  | n + 1, c :: s =>
    if c.utf8Size ≤ n + 1 then (slice (n + 1 - c.utf8Size) s).map (c :: ·) else none

/-- A character begins before byte `n` and ends after it. -/
def Straddles (n : Nat) (s : List Char) : Prop :=
  ∃ l c r, s = l ++ c :: r ∧ utf8Len l < n ∧ n < utf8Len l + c.utf8Size

@[simp] theorem not_straddles_nil : ¬ Straddles n [] := by
  rintro ⟨l, c, r, h, -⟩
  simp at h

theorem straddles_cons {c : Char} :
    Straddles n (c :: s) ↔
      (0 < n ∧ n < c.utf8Size) ∨ (c.utf8Size ≤ n ∧ Straddles (n - c.utf8Size) s) := by
  constructor
  · rintro ⟨l, d, r, h, hl, hr⟩
    cases l with
    | nil =>
      obtain ⟨rfl, rfl⟩ := List.cons.inj h
      exact .inl ⟨hl, by simpa using hr⟩
    | cons c' l =>
      obtain ⟨rfl, rfl⟩ := List.cons.inj h
      rw [utf8Len_cons] at hl hr
      exact .inr ⟨by omega, l, d, r, rfl, by omega, by omega⟩
  · rintro (⟨hn, hc⟩ | ⟨hc, l, d, r, rfl, hl, hr⟩)
    · exact ⟨[], c, s, rfl, hn, by simpa using hc⟩
    · refine ⟨c :: l, d, r, rfl, ?_, ?_⟩ <;> rw [utf8Len_cons] <;> omega

/-- No character straddles a place past the end. -/
theorem not_straddles_of_le (h : utf8Len s ≤ n) : ¬ Straddles n s := by
  rintro ⟨l, c, r, rfl, hl, hr⟩
  simp only [utf8Len_append, utf8Len_cons] at h
  omega

theorem slice_isSome_iff (h : n ≤ utf8Len s) : (slice n s).isSome ↔ ¬ Straddles n s := by
  fun_induction slice n s with
  | case1 s =>
    have hzero : ¬ Straddles 0 s := by
      rintro ⟨l, c, r, -, hl, -⟩
      omega
    simp [hzero]
  | case2 n => simp at h
  | case3 n c s hc ih =>
    rw [Option.isSome_map, ih (by rw [utf8Len_cons] at h; omega), straddles_cons]
    have hle : ¬ n + 1 < c.utf8Size := by omega
    simp [hc, hle]
  | case4 n c s hc =>
    rw [straddles_cons]
    simp
    omega

end Lib.ByteSlice

import Mathlib.Data.List.DropRight

/-!
# Trimming a list that is written out

The elements of a list are written out as lists, each as one or more letters, and what is written is
trimmed of the letters with a property at one or both ends. **If all letters of an element agree on
the property, trimming and writing out can be exchanged** (`dropWhile_flatMap`), and the less is
trimmed, the more is left.
-/

set_option autoImplicit false

open scoped List

namespace Lib.Trimming

variable {α β : Type} {p p' : α → Bool} {q : β → Bool} {f : α → List β} {xs ys : List α}

/-- Trim both ends. -/
def trim (p : α → Bool) (xs : List α) : List α := (xs.dropWhile p).rdropWhile p

/-! ## Writing out -/

section Written

variable (hletters : ∀ x, ∀ y ∈ f x, q y = p x) (hne : ∀ x, f x ≠ [])
include hletters hne

theorem dropWhile_flatMap (xs : List α) :
    (xs.flatMap f).dropWhile q = (xs.dropWhile p).flatMap f := by
  induction xs with
  | nil => rfl
  | cons x xs ih =>
    rw [List.flatMap_cons]
    cases hx : p x with
    | true =>
      rw [List.dropWhile_append_of_pos fun y hy => (hletters x y hy).trans hx, ih,
        List.dropWhile_cons_of_pos hx]
    | false =>
      obtain ⟨y, letters, hf⟩ := List.exists_cons_of_ne_nil (hne x)
      have hy : q y = false := (hletters x y (by rw [hf]; exact List.mem_cons_self)).trans hx
      rw [List.dropWhile_cons_of_neg (by simp [hx]), List.flatMap_cons, hf, List.cons_append,
        List.dropWhile_cons_of_neg (by simp [hy])]

theorem rdropWhile_flatMap (xs : List α) :
    (xs.flatMap f).rdropWhile q = (xs.rdropWhile p).flatMap f := by
  have hreversed := dropWhile_flatMap (p := p) (q := q) (f := List.reverse ∘ f)
    (fun x y hy => hletters x y (List.mem_reverse.mp hy))
    (fun x => by simpa using hne x) xs.reverse
  rw [List.rdropWhile, List.reverse_flatMap, hreversed, List.reverse_flatMap, List.rdropWhile]
  congr 1
  funext x
  exact List.reverse_reverse (f x)

theorem trim_flatMap (xs : List α) : trim q (xs.flatMap f) = (trim p xs).flatMap f := by
  rw [trim, dropWhile_flatMap hletters hne, rdropWhile_flatMap hletters hne, trim]

omit hletters in
theorem length_le_flatMap (xs : List α) : xs.length ≤ (xs.flatMap f).length := by
  induction xs with
  | nil => exact Nat.le_refl _
  | cons x xs ih =>
    have hx : 0 < (f x).length := List.length_pos_of_ne_nil (hne x)
    rw [List.flatMap_cons, List.length_append, List.length_cons]
    omega

omit hletters in
/-- An element of two letters makes what is written longer. -/
theorem length_lt_flatMap {x : α} (hx : x ∈ xs) (htwo : 1 < (f x).length) :
    xs.length < (xs.flatMap f).length := by
  obtain ⟨l, r, rfl⟩ := List.append_of_mem hx
  have hl := length_le_flatMap hne l
  have hr := length_le_flatMap hne r
  simp only [List.flatMap_append, List.flatMap_cons, List.length_append, List.length_cons]
  omega

end Written

/-! ## Trimming less -/

theorem dropWhile_sublist_dropWhile (h : ∀ x, p' x = true → p x = true) (xs : List α) :
    xs.dropWhile p <+ xs.dropWhile p' := by
  induction xs with
  | nil => exact List.Sublist.refl _
  | cons x xs ih =>
    cases hx : p' x with
    | true =>
      rw [List.dropWhile_cons_of_pos hx, List.dropWhile_cons_of_pos (h x hx)]
      exact ih
    | false =>
      rw [List.dropWhile_cons_of_neg (p := p') (by simp [hx])]
      exact List.dropWhile_sublist _

theorem sublist_dropWhile (h : xs <+ ys) : xs.dropWhile p <+ ys.dropWhile p := by
  induction h with
  | slnil => exact List.Sublist.refl _
  | @cons xs ys y hsub ih =>
    cases hy : p y with
    | true =>
      rw [List.dropWhile_cons_of_pos hy]
      exact ih
    | false =>
      rw [List.dropWhile_cons_of_neg (by simp [hy])]
      exact (List.dropWhile_sublist _).trans (hsub.cons y)
  | @cons_cons xs ys y hsub ih =>
    cases hy : p y with
    | true =>
      rw [List.dropWhile_cons_of_pos hy, List.dropWhile_cons_of_pos hy]
      exact ih
    | false =>
      rw [List.dropWhile_cons_of_neg (by simp [hy]), List.dropWhile_cons_of_neg (by simp [hy])]
      exact hsub.cons_cons y

theorem trim_sublist_trim (h : ∀ x, p' x = true → p x = true) (xs : List α) :
    trim p xs <+ trim p' xs := by
  refine List.Sublist.reverse ?_
  refine (sublist_dropWhile ?_).trans (dropWhile_sublist_dropWhile h _)
  exact (dropWhile_sublist_dropWhile h xs).reverse

theorem mem_dropWhile {x : α} (hx : x ∈ xs) (h : p x = false) : x ∈ xs.dropWhile p := by
  rw [← List.takeWhile_append_dropWhile (p := p) (l := xs)] at hx
  rcases List.mem_append.mp hx with hx | hx
  · rw [List.mem_takeWhile_imp hx] at h
    cases h
  · exact hx

/-- What does not have the property stays. -/
theorem mem_trim {x : α} (hx : x ∈ xs) (h : p x = false) : x ∈ trim p xs :=
  List.mem_reverse.mpr (mem_dropWhile (List.mem_reverse.mpr (mem_dropWhile hx h)) h)

/-- A first element without the property stays the first. -/
theorem trim_cons {x : α} (h : p x = false) : ∃ ys, trim p (x :: xs) = x :: ys := by
  have hdrop : (x :: xs).dropWhile p = x :: xs := List.dropWhile_cons_of_neg (by simp [h])
  have hkept : x ∈ trim p (x :: xs) := mem_trim List.mem_cons_self h
  obtain ⟨rest, hrest⟩ : trim p (x :: xs) <+: x :: xs := by
    rw [trim, hdrop]
    exact List.rdropWhile_prefix p _
  cases htrim : trim p (x :: xs) with
  | nil =>
    rw [htrim] at hkept
    cases hkept
  | cons y ys =>
    rw [htrim, List.cons_append] at hrest
    exact ⟨ys, by rw [(List.cons.inj hrest).1]⟩

end Lib.Trimming

import Mathlib.Data.String.Basic

/-!
# Splitting a text at a character

The library knows how a list is split at an element, and how a text is split where a predicate
holds of a character. **Splitting a text at a separator of one character splits the list of its
characters (`splitOn_singleton`)**, and from it splitting undoes joining and joining splitting.
-/

set_option autoImplicit false

namespace Lib.Splitting

open String

variable {c : Char}

/-! ## The scan -/

/-- The scan with `l` behind the current part, `m` read of that part and `r` still to read. -/
theorem splitOnAux_singleton (l m r : List Char) (acc : List String) :
    splitOnAux (ofList (l ++ m ++ r)) (singleton c) ⟨utf8Len l⟩ ⟨utf8Len l + utf8Len m⟩ 0 acc =
      acc.reverse ++ (List.splitOnPPrepend (· == c) r m.reverse).map ofList := by
  induction r generalizing l m acc with
  | nil =>
    have hext := extract_of_valid l m []
    have hat : Pos.Raw.atEnd (ofList (l ++ m ++ [])) ⟨utf8Len l + utf8Len m⟩ := by
      rw [← utf8Len_append]
      exact (atEnd_of_valid (l ++ m) []).2 rfl
    rw [splitOnAux, if_pos hat, hext]
    simp
  | cons d r ih =>
    have hext := extract_of_valid l m (d :: r)
    have hat : ¬ Pos.Raw.atEnd (ofList (l ++ m ++ d :: r)) ⟨utf8Len l + utf8Len m⟩ := by
      rw [← utf8Len_append, atEnd_of_valid (l ++ m) (d :: r)]
      simp
    have hget : Pos.Raw.get (ofList (l ++ m ++ d :: r)) ⟨utf8Len l + utf8Len m⟩ = d := by
      simpa [-ofList_append] using get_of_valid (l ++ m) (d :: r)
    have hnext : Pos.Raw.next (ofList (l ++ m ++ d :: r)) ⟨utf8Len l + utf8Len m⟩ =
        ⟨utf8Len l + utf8Len m + d.utf8Size⟩ := by
      simpa [-ofList_append] using next_of_valid (l ++ m) d r
    -- the separator is read in one step
    have hsep : Pos.Raw.get (singleton c) 0 = c := by
      simpa using get_of_valid [] [c]
    have hstep : Pos.Raw.next (singleton c) 0 = ⟨c.utf8Size⟩ := by
      simpa using next_of_valid [] c []
    have hover : Pos.Raw.atEnd (singleton c) ⟨c.utf8Size⟩ = true := by
      simpa using atEnd_of_valid [c] []
    rw [splitOnAux, if_neg hat, hget, hsep]
    by_cases hd : d = c
    · have hback : Pos.Raw.unoffsetBy ⟨utf8Len l + utf8Len m + c.utf8Size⟩ ⟨c.utf8Size⟩ =
          ⟨utf8Len l + utf8Len m⟩ := by
        simp [Pos.Raw.unoffsetBy]
      have hrest := ih (l ++ m ++ [d]) [] (ofList m :: acc)
      rw [hd] at hext hnext hrest ⊢
      simp only [beq_self_eq_true, if_true, hnext, hstep, hover, hback, hext]
      simpa [-ofList_append, List.splitOnPPrepend_cons_eq_if, Nat.add_assoc] using hrest
    · have hstay : Pos.Raw.unoffsetBy ⟨utf8Len l + utf8Len m⟩ 0 = ⟨utf8Len l + utf8Len m⟩ := by
        simp [Pos.Raw.unoffsetBy]
      have hrest := ih l (m ++ [d]) acc
      rw [if_neg (by simpa using hd), hstay, hnext]
      simpa [-ofList_append, List.splitOnPPrepend_cons_eq_if, hd, Nat.add_assoc] using hrest

theorem splitOn_singleton {s : String} :
    s.splitOn (singleton c) = (s.toList.splitOn c).map ofList := by
  have hne : (singleton c == "") = false := by simp [← toList_inj]
  have hscan := splitOnAux_singleton (c := c) [] [] s.toList []
  rw [splitOn, hne, List.splitOn_eq_splitOnP]
  simpa using hscan

/-! ## What splitting undoes -/

theorem splitOn_ne_nil {s : String} : s.splitOn (singleton c) ≠ [] := by
  rw [splitOn_singleton]
  simp [List.splitOn_ne_nil]

/-- A text without the separator is one part. -/
theorem splitOn_of_not_mem {s : String} (h : c ∉ s.toList) : s.splitOn (singleton c) = [s] := by
  rw [splitOn_singleton, List.splitOn_eq_singleton h]
  simp

/-- The first part ends at the first separator. -/
theorem splitOn_append {s t : String} (h : c ∉ s.toList) :
    (s ++ singleton c ++ t).splitOn (singleton c) = s :: t.splitOn (singleton c) := by
  simp only [splitOn_singleton, toList_append, toList_singleton, List.append_assoc,
    List.singleton_append]
  rw [List.splitOn_append_cons_self_of_not_mem h]
  simp

theorem intercalate_splitOn {s : String} :
    (singleton c).intercalate (s.splitOn (singleton c)) = s := by
  rw [← toList_inj, toList_intercalate, splitOn_singleton, List.map_map]
  simp

theorem splitOn_intercalate {parts : List String} (h : ∀ p ∈ parts, c ∉ p.toList)
    (hne : parts ≠ []) :
    ((singleton c).intercalate parts).splitOn (singleton c) = parts := by
  have hparts : ∀ l ∈ parts.map String.toList, c ∉ l := by
    intro l hl
    obtain ⟨p, hp, rfl⟩ := List.mem_map.1 hl
    exact h p hp
  rw [splitOn_singleton, toList_intercalate, toList_singleton,
    List.splitOn_intercalate _ hparts (by simpa using hne), List.map_map]
  simp

/-! ## Parts of a list -/

section Lists

variable {α β : Type} {p : α → Bool} {xs ys : List α}

/-- What stands before the first separator goes to the first part. -/
theorem splitOnP_append_of_forall (h : ∀ x ∈ xs, p x = false) :
    (xs ++ ys).splitOnP p = (ys.splitOnP p).modifyHead (xs ++ ·) := by
  induction xs with
  | nil =>
    obtain ⟨part, parts, hys⟩ := List.exists_cons_of_ne_nil (List.splitOnP_ne_nil p ys)
    rw [List.nil_append, hys]
    rfl
  | cons x xs ih =>
    have hx : p x = false := h x List.mem_cons_self
    rw [List.cons_append, List.splitOnP_cons_eq_if_modifyHead, hx,
      ih fun x' hx' => h x' (List.mem_cons_of_mem _ hx')]
    obtain ⟨part, parts, hys⟩ := List.exists_cons_of_ne_nil (List.splitOnP_ne_nil p ys)
    rw [hys]
    rfl

/-- A longer list has the parts of its beginning, the last of which goes on. -/
theorem splitOnP_append :
    (xs ++ ys).splitOnP p =
      (xs.splitOnP p).dropLast ++ ((xs.splitOnP p).getLastD [] ++ ys).splitOnP p := by
  induction xs with
  | nil => simp
  | cons x xs ih =>
    obtain ⟨part, parts, hxs⟩ := List.exists_cons_of_ne_nil (List.splitOnP_ne_nil p xs)
    rw [List.cons_append, List.splitOnP_cons_eq_if_modifyHead, List.splitOnP_cons_eq_if_modifyHead,
      ih, hxs]
    cases hx : p x with
    | true => simp
    | false =>
      cases parts with
      | nil => simp [List.splitOnP_cons_eq_if_modifyHead, hx]
      | cons part' parts => simp

/-- A part has no separator. -/
theorem forall_of_mem_splitOnP {part : List α} (h : part ∈ xs.splitOnP p) :
    ∀ x ∈ part, p x = false := by
  induction xs generalizing part with
  | nil =>
    rw [List.splitOnP_nil, List.mem_singleton] at h
    simp [h]
  | cons x xs ih =>
    rw [List.splitOnP_cons_eq_if_modifyHead] at h
    cases hx : p x with
    | true =>
      rw [hx, if_pos rfl] at h
      rcases List.mem_cons.mp h with rfl | h
      · simp
      · exact ih h
    | false =>
      obtain ⟨first, parts, hxs⟩ := List.exists_cons_of_ne_nil (List.splitOnP_ne_nil p xs)
      rw [hxs] at h ih
      rcases List.mem_cons.mp (by simpa [hx] using h) with rfl | h
      · intro y hy
        rcases List.mem_cons.mp hy with rfl | hy
        · exact hx
        · exact ih List.mem_cons_self y hy
      · exact ih (List.mem_cons_of_mem _ h)

/-- **The parts can be taken before or after each element is written out**, if the separators are
    written as separators and nothing else has one in it. -/
theorem splitOnP_flatMap {f : α → List β} {q : β → Bool}
    (hsep : ∀ x, p x = true → ∃ y, f x = [y] ∧ q y = true)
    (hother : ∀ x, p x = false → ∀ y ∈ f x, q y = false) (xs : List α) :
    (xs.flatMap f).splitOnP q = (xs.splitOnP p).map (List.flatMap f) := by
  induction xs with
  | nil => simp
  | cons x xs ih =>
    rw [List.flatMap_cons, List.splitOnP_cons_eq_if_modifyHead]
    cases hx : p x with
    | true =>
      obtain ⟨y, hy, hq⟩ := hsep x hx
      rw [hy, List.singleton_append, List.splitOnP_cons_eq_if_modifyHead, hq, ih]
      rfl
    | false =>
      obtain ⟨part, parts, hxs⟩ := List.exists_cons_of_ne_nil (List.splitOnP_ne_nil p xs)
      rw [splitOnP_append_of_forall (hother x hx), ih, hxs]
      rfl

theorem splitOnP_map {f : α → β} {q : β → Bool} (xs : List α) :
    (xs.map f).splitOnP q = (xs.splitOnP fun x => q (f x)).map (List.map f) := by
  have hsplit := splitOnP_flatMap (p := fun x => q (f x)) (f := fun x => [f x]) (q := q)
    (fun x hx => ⟨f x, rfl, hx⟩) (fun x hx y hy => by rw [List.mem_singleton.mp hy]; exact hx) xs
  have hmap : (List.flatMap fun x => [f x]) = List.map f := by
    funext xs
    exact List.map_eq_flatMap.symm
  rwa [hmap] at hsplit

end Lists

/-! ## Parts in lines of their own -/

section Joins

variable {α : Type} {sep : α} {parts : List (List α)}

/-- Parts joined and closed with a separator are parts that each have theirs. -/
theorem intercalate_append_separator (h : parts ≠ []) :
    [sep].intercalate parts ++ [sep] = parts.flatMap (· ++ [sep]) := by
  induction parts with
  | nil => exact absurd rfl h
  | cons part parts ih =>
    by_cases hparts : parts = []
    · rw [hparts]
      simp
    · rw [List.intercalate_cons_of_ne_nil hparts, List.append_assoc, ih hparts]
      simp

/-- Parts that are joined first. -/
theorem intercalate_map_intercalate {groups : List (List (List α))} (h : ∀ g ∈ groups, g ≠ []) :
    (groups.map [sep].intercalate).flatMap (· ++ [sep]) = groups.flatten.flatMap (· ++ [sep]) := by
  induction groups with
  | nil => rfl
  | cons g groups ih =>
    rw [List.map_cons, List.flatMap_cons, List.flatten_cons, List.flatMap_append,
      intercalate_append_separator (h g List.mem_cons_self),
      ih fun g' hg' => h g' (List.mem_cons_of_mem _ hg')]

end Joins

end Lib.Splitting

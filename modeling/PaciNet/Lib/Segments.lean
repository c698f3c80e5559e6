import Mathlib.Data.List.Nodup

/-!
# Lists of optional segments

A list that is made of segments in a fixed order. A segment is left out, or begins with a keyword of
its own and has a fixed number of items. A reader goes from left to right, and finds a segment where
its keyword is next.

**What is written is read back** (`read_write`), whatever the items are. An item may look like a
keyword: the reader is past it before it looks for one.
-/

set_option autoImplicit false

namespace Lib

/-- A keyword, and what follows it if the segment is there. -/
structure Segment (α : Type) where
  keyword : α
  items : Option (List α)

namespace Segment

variable {α : Type}

def write (s : Segment α) : List α := s.items.elim [] fun items => s.keyword :: items

/-- The segment has the keyword and, if it is there, the number of items. -/
def Fits (s : Segment α) (shape : α × Nat) : Prop :=
  s.keyword = shape.1 ∧ ∀ items, s.items = some items → items.length = shape.2

/-- A list begins with a segment that is there. -/
theorem head?_flatMap_write {segments : List (Segment α)} {a : α}
    (h : (segments.flatMap write).head? = some a) : a ∈ segments.map keyword := by
  induction segments with
  | nil => exact nomatch h
  | cons s segments ih =>
    rw [List.flatMap_cons] at h
    rw [List.map_cons]
    cases hs : s.items with
    | none =>
      rw [write, hs] at h
      exact List.mem_cons_of_mem _ (ih h)
    | some items =>
      rw [write, hs] at h
      rw [← Option.some.inj h]
      exact List.mem_cons_self

section Read

variable [DecidableEq α]

/-- What follows each keyword, for the keywords that are there. -/
def read : List (α × Nat) → List α → Option (List (Option (List α)))
  | [], [] => some []
  | [], _ :: _ => none
  | (keyword, n) :: shapes, as =>
    if as.head? = some keyword then
      if n ≤ as.tail.length then
        (read shapes (as.tail.drop n)).map fun rest => some (as.tail.take n) :: rest
      else none
    else (read shapes as).map fun rest => none :: rest

/-- **What is written is read back.** -/
theorem read_write {segments : List (Segment α)} {shapes : List (α × Nat)}
    (h : List.Forall₂ Fits segments shapes) (hkeywords : (shapes.map Prod.fst).Nodup) :
    read shapes (segments.flatMap write) = some (segments.map items) := by
  have hsame {segments : List (Segment α)} {shapes : List (α × Nat)}
      (h : List.Forall₂ Fits segments shapes) : segments.map keyword = shapes.map Prod.fst := by
    induction h with
    | nil => rfl
    | cons hfits _ ih => rw [List.map_cons, List.map_cons, ih, hfits.1]
  induction h with
  | nil => rfl
  | @cons s shape segments shapes hfits hrest ih =>
    obtain ⟨hkeyword, hlength⟩ := hfits
    rw [List.map_cons, List.nodup_cons] at hkeywords
    obtain ⟨hnot, hnodup⟩ := hkeywords
    rw [List.flatMap_cons, List.map_cons, read]
    cases hs : s.items with
    | none =>
      have hwrite : s.write = [] := by rw [write, hs]; rfl
      rw [hwrite, List.nil_append, if_neg, ih hnodup]
      · rfl
      · -- the next keyword is another one
        intro hhead
        rw [← hsame hrest] at hnot
        exact hnot (head?_flatMap_write hhead)
    | some items =>
      have hwrite : s.write = shape.1 :: items := by rw [write, hs, hkeyword]; rfl
      have hn := hlength items hs
      rw [hwrite, List.cons_append, List.head?_cons, if_pos rfl, List.tail_cons,
        if_pos (by simp [hn]), ← hn, List.drop_left, List.take_left, ih hnodup]
      rfl

end Read

end Segment

end Lib

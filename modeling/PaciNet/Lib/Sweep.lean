import Mathlib.Data.List.MinMax

/-!
# Working off a list that is computed anew

A list is worked off in batches that share a cursor and nothing else: each batch takes the items
of the list, *as it is computed for that batch*, from the cursor up to an end of its own. Whether
the list is still the one the cursor was an index into, nobody looks.

A `Sweep` is what can be said of such work at one moment: the lists that were computed, the
batches that have ended, and the items that were passed on. **An item that was on every list and
stood before the end of a batch has been passed on** is an invariant (`Covered`) as long as every
batch begins where it may: behind items that stood before the end of an earlier one (`Kept`).
Batches may overlap, run side by side and start over.
-/

set_option autoImplicit false

namespace Lib

/-- One batch: the list that was computed for it, and the part of the list that it takes. -/
structure Batch (α : Type) where
  items : List α
  start : Nat
  stop : Nat
  deriving DecidableEq

namespace Batch

variable {α : Type}

/-- The items that stand before the end of the batch. -/
def before (b : Batch α) : List α := b.items.take b.stop

/-- The items the batch takes. -/
def taken (b : Batch α) : List α := b.before.drop b.start

/-- What stands before the end of a batch is taken by it, or was behind the cursor already. -/
theorem mem_before {b : Batch α} {x : α} (h : x ∈ b.before) :
    x ∈ b.items.take b.start ∨ x ∈ b.taken := by
  rw [← List.take_append_drop b.start b.before, List.mem_append] at h
  refine h.imp_left fun hx => ?_
  rw [before, List.take_take] at hx
  exact List.take_subset_take_left b.items (Nat.min_le_left _ _) hx

end Batch

/-- A list being worked off. -/
structure Sweep (α : Type) where
  lists : List (List α)
  batches : List (Batch α)
  passed : List α

namespace Sweep

variable {α : Type} {s s' : Sweep α} {items : List α} {cursor : Nat} {x : α}

/-- The item was on every list. -/
def Throughout (s : Sweep α) (x : α) : Prop := ∀ l ∈ s.lists, x ∈ l

/-- A batch may begin at the cursor: what stands behind it stood before the end of a batch. -/
def Kept (s : Sweep α) (items : List α) (cursor : Nat) : Prop :=
  ∀ x ∈ items.take cursor, s.Throughout x → ∃ b ∈ s.batches, x ∈ b.before

instance [DecidableEq α] (s : Sweep α) (items : List α) (cursor : Nat) :
    Decidable (s.Kept items cursor) :=
  inferInstanceAs (Decidable (∀ x ∈ items.take cursor, (∀ l ∈ s.lists, x ∈ l) →
    ∃ b ∈ s.batches, x ∈ b.items.take b.stop))

/-- The list has not moved: what was on every list and stood beyond the end of a batch that reached
    farthest does not stand before it now. -/
def Unshifted (s : Sweep α) (items : List α) : Prop :=
  ∀ b ∈ s.batches, (∀ b' ∈ s.batches, b'.stop ≤ b.stop) →
    ∀ x ∈ b.items.drop b.stop, s.Throughout x → x ∉ items.take b.stop

instance [DecidableEq α] (s : Sweep α) (items : List α) : Decidable (s.Unshifted items) :=
  inferInstanceAs (Decidable (∀ b ∈ s.batches, (∀ b' ∈ s.batches, b'.stop ≤ b.stop) →
    ∀ x ∈ b.items.drop b.stop, (∀ l ∈ s.lists, x ∈ l) → x ∉ items.take b.stop))

/-- What stands behind the cursor has been passed on. -/
def Behind (s : Sweep α) (items : List α) (cursor : Nat) : Prop :=
  ∀ x ∈ items.take cursor, s.Throughout x → x ∈ s.passed

/-- What stands before the end of a batch has been passed on. -/
structure Covered (s : Sweep α) : Prop where
  listed : ∀ b ∈ s.batches, b.items ∈ s.lists
  passed : ∀ b ∈ s.batches, ∀ x ∈ b.before, s.Throughout x → x ∈ s.passed

theorem Throughout.mono (hl : s.lists ⊆ s'.lists) (h : s'.Throughout x) : s.Throughout x :=
  fun l hl' => h l (hl hl')

theorem Behind.mono (hl : s.lists ⊆ s'.lists) (hp : s.passed ⊆ s'.passed)
    (h : s.Behind items cursor) : s'.Behind items cursor :=
  fun x hx ht => hp (h x hx (ht.mono hl))

/-- A batch that begins at the cursor leaves what stands before its end passed on. -/
theorem Behind.before {b : Batch α} (h : s.Behind b.items b.start) (ht : b.taken ⊆ s.passed)
    (hx : x ∈ b.before) (hthrough : s.Throughout x) : x ∈ s.passed := by
  rcases Batch.mem_before hx with hbehind | htaken
  · exact h x hbehind hthrough
  · exact ht htaken

/-- **A cursor at the end of the list has everything behind it.** -/
theorem Behind.all (h : s.Behind items cursor) (hend : items.length ≤ cursor) (hx : x ∈ items)
    (hthrough : s.Throughout x) : x ∈ s.passed := by
  refine h x ?_ hthrough
  rwa [List.take_of_length_le hend]

theorem Covered.behind (h : s.Covered) (hk : s.Kept items cursor) : s.Behind items cursor := by
  intro x hx hthrough
  obtain ⟨b, hb, hbefore⟩ := hk x hx hthrough
  exact h.passed b hb x hbefore hthrough

/-- More lists and more items passed on leave the sweep covered, if every batch that has ended
    since passed on what it had to. -/
theorem Covered.mono (h : s.Covered) (hl : s.lists ⊆ s'.lists) (hp : s.passed ⊆ s'.passed)
    (hb : ∀ b ∈ s'.batches, b ∈ s.batches ∨
      b.items ∈ s'.lists ∧ s'.Behind b.items b.start ∧ b.taken ⊆ s'.passed) : s'.Covered where
  listed b hmem := by
    rcases hb b hmem with hold | ⟨hlisted, -, -⟩
    · exact hl (h.listed b hold)
    · exact hlisted
  passed b hmem x hx hthrough := by
    rcases hb b hmem with hold | ⟨-, hbehind, htaken⟩
    · exact hp (h.passed b hold x hx (hthrough.mono hl))
    · exact hbehind.before htaken hx hthrough

/-- Where the list never changes, a batch may begin anywhere up to the end of an earlier one. -/
theorem kept_of_same (hsame : ∀ b ∈ s.batches, b.items = items)
    (hcursor : cursor = 0 ∨ ∃ b ∈ s.batches, min cursor items.length ≤ b.stop) :
    s.Kept items cursor := by
  intro x hx _
  rcases hcursor with rfl | ⟨b, hb, hstop⟩
  · cases hx
  · refine ⟨b, hb, ?_⟩
    rw [Batch.before, hsame b hb]
    rw [List.take_eq_take_min] at hx
    exact List.take_subset_take_left items hstop hx

/-- A list that never changes has not moved. -/
theorem unshifted_of_same (hsame : ∀ b ∈ s.batches, b.items = items) (hnodup : items.Nodup) :
    s.Unshifted items := by
  intro b hb _ x hbeyond _ hnow
  rw [hsame b hb] at hbeyond
  exact List.disjoint_take_drop hnodup le_rfl hnow hbeyond

/-- One of the batches reached farthest. -/
theorem exists_farthest {b : Batch α} (hb : b ∈ s.batches) :
    ∃ b' ∈ s.batches, ∀ b'' ∈ s.batches, b''.stop ≤ b'.stop := by
  cases hmax : s.batches.argmax Batch.stop with
  | none =>
    rw [List.argmax_eq_none.1 hmax] at hb
    cases hb
  | some b' =>
    exact ⟨b', List.argmax_mem hmax, fun b'' hb'' => List.le_of_mem_argmax hb'' hmax⟩

/-- **Where the list has not moved, a batch may begin anywhere up to the end of an earlier one.**
    What stands behind the cursor was listed for the batch that reached farthest, and not beyond
    its end. -/
theorem Covered.kept_of_unshifted (h : s.Covered) (hsteady : s.Unshifted items)
    (hcursor : cursor = 0 ∨ ∃ b ∈ s.batches, cursor ≤ b.stop) : s.Kept items cursor := by
  intro x hx hthrough
  rcases hcursor with rfl | ⟨b, hb, hstop⟩
  · cases hx
  · obtain ⟨b', hb', hfarthest⟩ := exists_farthest hb
    have hle : cursor ≤ b'.stop := hstop.trans (hfarthest b hb)
    have hnow : x ∈ items.take b'.stop := List.take_subset_take_left items hle hx
    have hlisted : x ∈ b'.items := hthrough _ (h.listed b' hb')
    rw [← List.take_append_drop b'.stop b'.items, List.mem_append] at hlisted
    rcases hlisted with hbefore | hbeyond
    · exact ⟨b', hb', hbefore⟩
    · exact absurd hnow (hsteady b' hb' hfarthest x hbeyond hthrough)

end Sweep

end Lib

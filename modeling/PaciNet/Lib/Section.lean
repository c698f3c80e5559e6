import Mathlib.Data.List.Induction
import PaciNet.Lib.Serial

/-!
# Threads with one exclusive section

Threads that read, then enter a section only one of them can be in, work there, leave it, and do
something that does not matter. What matters of the shared state is its view.

**If what a thread has read before is what it would read when it enters, the threads are
serializable**: their traces, one after the other in the order in which they entered, are a run
that starts and ends where the interleaving does (`Ordered.serialRun`). What is done after the
section fits anywhere, and is moved up to the section in that run.
-/

set_option autoImplicit false

namespace Lib

/-- Where a thread is with respect to its section. -/
inductive Phase where
  | before
  | inside
  | after
  deriving DecidableEq

/-- A section of the operations: how it is entered and left, and what is done where. -/
structure Section (Op : Type) (Res : Op → Type) (σ ν : Type) where
  view : σ → ν
  /-- Somebody is in the section. -/
  busy : ν → Bool
  takes : Op → Bool
  granted : (o : Op) → Res o → Bool
  leaves : Op → Bool
  reads : Op → Prop
  works : Op → Prop
  trails : Op → Prop

namespace Section

variable {Op : Type} {Res : Op → Type} {σ Ext Req ρ ν : Type}

section Defs

variable (S : Section Op Res σ ν)

def next : Phase → (o : Op) → Res o → Phase
  | .before, o, r => if S.takes o && S.granted o r then .inside else .before
  | .inside, o, _ => if S.leaves o then .after else .inside
  | .after, _, _ => .after

/-- A thread that does in each phase what belongs there. -/
def monitor (expect : (o : Op) → Res o → Prop) : Monitor Op Res Phase where
  allow p o := match p with
    | .before => S.reads o ∨ S.takes o = true
    | .inside => S.works o ∨ S.leaves o = true
    | .after => S.trails o
  expect := expect
  next p o r := S.next p o r

/-- The phase a trace leads to. -/
def phase (trace : List ((o : Op) × Res o)) : Phase :=
  trace.foldl (fun p e => S.next p e.1 e.2) .before

@[simp] theorem phase_snoc (trace : List ((o : Op) × Res o)) (e : (o : Op) × Res o) :
    S.phase (trace ++ [e]) = S.next (S.phase trace) e.1 e.2 := by
  simp [phase]

variable (M : Machine Op Res σ Ext Req)

/-- The operation belongs somewhere. -/
def Covers (o : Op) : Prop :=
  S.reads o ∨ S.takes o = true ∨ S.works o ∨ S.leaves o = true ∨ S.trails o

/-- In some state with the one view the operation is answered so and leads to the other view. -/
def Fits (e : (o : Op) × Res o) (v v' : ν) : Prop :=
  S.Covers e.1 ∧ ∃ x s s' new, M.exec x e.1 s = some (e.2, s', new) ∧ S.view s = v ∧ S.view s' = v'

/-- A sequence of operations leads from one view to another. -/
def FitsAll : List ((o : Op) × Res o) → ν → ν → Prop
  | [], v, v' => v' = v
  | e :: es, v, v' => ∃ v₁, S.Fits M e v v₁ ∧ FitsAll es v₁ v'

/-- The view changes in the section only, and only one thread can be there. -/
structure Lawful : Prop where
  quiet : ∀ {x o s r s' new}, M.exec x o s = some (r, s', new) → S.reads o ∨ S.trails o →
    S.view s' = S.view s
  taken : ∀ {x o s r s' new}, M.exec x o s = some (r, s', new) → S.takes o = true →
    S.granted o r = !S.busy (S.view s) ∧ S.busy (S.view s') = true
  works : ∀ {x o s r s' new}, M.exec x o s = some (r, s', new) → S.works o →
    S.busy (S.view s) = true → S.busy (S.view s') = true
  trailing : ∀ {x o s r s' new}, M.exec x o s = some (r, s', new) → S.trails o →
    ∀ u, S.Fits M ⟨o, r⟩ (S.view u) (S.view u)

/-- A thread that is about to enter and finds nobody there has read what it would read now. -/
def UpToDate (expect : (o : Op) → Res o → Prop) (s : σ) (t : Thread Op Res Req ρ) : Prop :=
  match t.prog with
  | .done _ => True
  | .call o _ => S.takes o = true → S.busy (S.view s) = false →
      ∀ e ∈ t.trace, S.reads e.1 → expect e.1 e.2 → S.Fits M e (S.view s) (S.view s)

/-- The thread was refused the section. -/
def Refused (t : Thread Op Res Req ρ) : Prop :=
  ∃ e ∈ t.trace, S.takes e.1 = true ∧ S.granted e.1 e.2 = false

/-- Every thread enters with up-to-date readings, and nothing from outside changes the view. -/
def Validated (expect : (o : Op) → Res o → Prop) (c : Config Op Res σ Req ρ) :
    Label σ Ext Req → Prop
  | .arrive _ => True
  | .run i _ => ∀ t ∈ c.threads[i]?, S.UpToDate M expect c.shared t
  | .env s => S.view s = S.view c.shared

/-- The threads that have entered, in the order they have, are a serial run up to here. -/
structure Ordered (expect : (o : Op) → Res o → Prop) (s₀ : σ) (c : Config Op Res σ Req ρ)
    (order : List Nat) : Prop where
  nodup : order.Nodup
  entered : ∀ i, i ∈ order ↔ ∃ t, c.threads[i]? = some t ∧ S.phase t.trace ≠ .before
  fits : S.FitsAll M (order.flatMap (System.traceAt c)) (S.view s₀) (S.view c.shared)
  inside : ∀ (i : Nat) (t : Thread Op Res Req ρ), c.threads[i]? = some t →
    S.phase t.trace = .inside → order.getLast? = some i ∧ S.busy (S.view c.shared) = true
  reads : ∀ (i : Nat) (t : Thread Op Res Req ρ), c.threads[i]? = some t →
    S.phase t.trace = .before → ∀ e ∈ t.trace, S.reads e.1 ∧ expect e.1 e.2

end Defs

variable {S : Section Op Res σ ν} {M : Machine Op Res σ Ext Req}

theorem covers_of_allow {expect : (o : Op) → Res o → Prop} {p : Phase} {o : Op}
    (h : (S.monitor expect).allow p o) : S.Covers o := by
  cases p with
  | before => exact h.elim .inl fun h => .inr (.inl h)
  | inside => exact h.elim (fun h => .inr (.inr (.inl h))) fun h => .inr (.inr (.inr (.inl h)))
  | after => exact .inr (.inr (.inr (.inr h)))

/-- A thread that was granted the section has entered it. -/
theorem phase_ne_before {trace : List ((o : Op) × Res o)} {e : (o : Op) × Res o} (he : e ∈ trace)
    (htakes : S.takes e.1 = true) (hgranted : S.granted e.1 e.2 = true) :
    S.phase trace ≠ .before := by
  induction trace using List.reverseRecOn with
  | nil => exact nomatch he
  | append_singleton trace e' ih =>
    rw [phase_snoc]
    cases hphase : S.phase trace with
    | before =>
      rcases List.mem_append.1 he with he | he
      · exact absurd hphase (ih he)
      · rw [← List.mem_singleton.1 he, next, if_pos (by simp [htakes, hgranted])]
        simp
    | inside =>
      rw [next]
      split <;> simp
    | after => simp [next]

/-- A thread that has not asked for the section has not entered it. -/
theorem phase_eq_before {trace : List ((o : Op) × Res o)}
    (h : ∀ e ∈ trace, S.takes e.1 = false) : S.phase trace = .before := by
  induction trace using List.reverseRecOn with
  | nil => rfl
  | append_singleton trace e ih =>
    rw [phase_snoc, ih fun e' he' => h e' (List.mem_append_left _ he'), next,
      h e (List.mem_append_right _ (List.mem_singleton.2 rfl))]
    rfl

/-- What a thread does in its section keeps it there until it leaves. -/
theorem wp_inside {expect : (o : Op) → Res o → Prop} {α : Type} {p : Prog Op Res α}
    {Q : Phase → α → Prop} (hp : p.Calls fun o => S.works o ∧ S.leaves o = false)
    (hQ : ∀ a, Q .inside a) : p.wp (S.monitor expect) Q .inside := by
  induction p with
  | done a => exact hQ a
  | call o k ih =>
    refine ⟨.inl hp.1.1, fun r _ => ?_⟩
    have hnext : S.next .inside o r = .inside := by
      rw [next, hp.1.2]
      rfl
    show (k r).wp _ Q (S.next .inside o r)
    rw [hnext]
    exact ih r (hp.2 r)

theorem fitsAll_append {es es' : List ((o : Op) × Res o)} {v v' : ν} :
    S.FitsAll M (es ++ es') v v' ↔ ∃ v₁, S.FitsAll M es v v₁ ∧ S.FitsAll M es' v₁ v' := by
  induction es generalizing v with
  | nil => simp [FitsAll]
  | cons e es ih =>
    simp only [List.cons_append, FitsAll, ih]
    constructor
    · rintro ⟨v₁, he, v₂, h, h'⟩
      exact ⟨v₂, ⟨v₁, he, h⟩, h'⟩
    · rintro ⟨v₂, ⟨v₁, he, h⟩, h'⟩
      exact ⟨v₁, he, v₂, h, h'⟩

/-- What leads somewhere from the view of a state leads to the view of a state. -/
theorem FitsAll.exists_view {es : List ((o : Op) × Res o)} {s : σ} {v' : ν}
    (h : S.FitsAll M es (S.view s) v') : ∃ s', S.view s' = v' := by
  induction es generalizing s with
  | nil => exact ⟨s, h.symm⟩
  | cons e es ih =>
    obtain ⟨v₁, ⟨-, x, u, u', new, -, -, rfl⟩, h⟩ := h
    exact ih h

/-- Readings that all fit one view are a run that stays there. -/
theorem fitsAll_of_forall {es : List ((o : Op) × Res o)} {v : ν} (h : ∀ e ∈ es, S.Fits M e v v) :
    S.FitsAll M es v v := by
  induction es with
  | nil => rfl
  | cons e es ih =>
    exact ⟨v, h e List.mem_cons_self, ih fun e' he' => h e' (List.mem_cons_of_mem _ he')⟩

section Step

variable {Y : System Op Res σ Ext Req ρ} {s₀ s : σ} {c : Config Op Res σ Req ρ}
  {order : List Nat} {i : Nat} {x : Ext} {t t' : Thread Op Res Req ρ} {o : Op} {r : Res o}
  {new : List Req} {expect : (o : Op) → Res o → Prop}

/-- The configuration after a step of thread `i`. -/
def moved (Y : System Op Res σ Ext Req ρ) (c : Config Op Res σ Req ρ) (i : Nat) (s : σ)
    (t' : Thread Op Res Req ρ) (new : List Req) : Config Op Res σ Req ρ :=
  ⟨s, c.threads.set i t' ++ new.map Y.start⟩

theorem moved_self (ht : c.threads[i]? = some t) :
    (moved Y c i s t' new).threads[i]? = some t' := by
  have hlt : i < c.threads.length := (List.getElem?_eq_some_iff.1 ht).1
  rw [moved, List.getElem?_append_left (by simpa using hlt), List.getElem?_set_self hlt]

/-- A thread that was there and did not move is as it was. -/
theorem moved_other {j : Nat} {u : Thread Op Res Req ρ} (hj : j ≠ i) (hu : c.threads[j]? = some u) :
    (moved Y c i s t' new).threads[j]? = some u := by
  have hlt : j < c.threads.length := (List.getElem?_eq_some_iff.1 hu).1
  rw [moved, List.getElem?_append_left (by simpa using hlt), List.getElem?_set_ne (Ne.symm hj), hu]

/-- The threads that have entered are those that had, and the one that moved if it has now. -/
theorem Ordered.entered_moved (h : S.Ordered M expect s₀ c order) (ht : c.threads[i]? = some t)
    (j : Nat) : (∃ u, (moved Y c i s t' new).threads[j]? = some u ∧ S.phase u.trace ≠ .before) ↔
      (j = i ∧ S.phase t'.trace ≠ .before) ∨ (j ≠ i ∧ j ∈ order) := by
  constructor
  · rintro ⟨u, hu, hphase⟩
    rcases System.getElem?_after hu with ⟨rfl, rfl⟩ | ⟨hj, hu⟩ | ⟨q, -, rfl⟩
    · exact .inl ⟨rfl, hphase⟩
    · exact .inr ⟨hj, (h.entered j).2 ⟨u, hu, hphase⟩⟩
    · exact absurd rfl hphase
  · rintro (⟨rfl, hphase⟩ | ⟨hj, hmem⟩)
    · exact ⟨t', moved_self ht, hphase⟩
    · obtain ⟨u, hu, hphase⟩ := (h.entered j).1 hmem
      exact ⟨u, moved_other hj hu, hphase⟩

/-- The traces of the others that have entered are as they were. -/
theorem Ordered.traceAt_moved (h : S.Ordered M expect s₀ c order) {j : Nat} (hj : j ≠ i)
    (hmem : j ∈ order) : System.traceAt (moved Y c i s t' new) j = System.traceAt c j := by
  obtain ⟨u, hu, -⟩ := (h.entered j).1 hmem
  rw [System.traceAt_of_getElem? hu, System.traceAt_of_getElem? (moved_other hj hu)]

theorem Ordered.flatMap_moved (h : S.Ordered M expect s₀ c order) {js : List Nat}
    (hjs : ∀ j ∈ js, j ≠ i ∧ j ∈ order) :
    js.flatMap (System.traceAt (moved Y c i s t' new)) = js.flatMap (System.traceAt c) := by
  induction js with
  | nil => rfl
  | cons j js ih =>
    obtain ⟨hj, hmem⟩ := hjs j List.mem_cons_self
    rw [List.flatMap_cons, List.flatMap_cons, h.traceAt_moved hj hmem,
      ih fun k hk => hjs k (List.mem_cons_of_mem _ hk)]

/-- A thread after the step that is in the section is the one that moved, or was there before. -/
theorem inside_moved {j : Nat} {u : Thread Op Res Req ρ}
    (hu : (moved Y c i s t' new).threads[j]? = some u) (hin : S.phase u.trace = .inside) :
    (j = i ∧ u = t') ∨ (j ≠ i ∧ c.threads[j]? = some u) := by
  rcases System.getElem?_after hu with h | h | ⟨q, -, rfl⟩
  · exact .inl h
  · exact .inr h
  · exact absurd hin (by simp [System.start, phase])

/-- What the threads that have not entered have done. -/
theorem Ordered.reads_moved (h : S.Ordered M expect s₀ c order)
    (hreads : S.phase t'.trace = .before → ∀ e ∈ t'.trace, S.reads e.1 ∧ expect e.1 e.2) (j : Nat)
    (u : Thread Op Res Req ρ) (hu : (moved Y c i s t' new).threads[j]? = some u)
    (hbefore : S.phase u.trace = .before) : ∀ e ∈ u.trace, S.reads e.1 ∧ expect e.1 e.2 := by
  rcases System.getElem?_after hu with ⟨-, rfl⟩ | ⟨-, hu⟩ | ⟨q, -, rfl⟩
  · exact hreads hbefore
  · exact h.reads j u hu hbefore
  · intro e he
    cases he

/-- A thread that has not entered reads. -/
theorem Ordered.stay (h : S.Ordered M expect s₀ c order) (ht : c.threads[i]? = some t)
    (hbefore : S.phase t.trace = .before) (hstays : S.phase t'.trace = .before)
    (hreads : ∀ e ∈ t'.trace, S.reads e.1 ∧ expect e.1 e.2)
    (hview : S.view s = S.view c.shared) : S.Ordered M expect s₀ (moved Y c i s t' new) order := by
  have hi : i ∉ order := by
    intro hmem
    obtain ⟨u, hu, hphase⟩ := (h.entered i).1 hmem
    obtain rfl := Option.some.inj (ht.symm.trans hu)
    exact hphase hbefore
  have hne : ∀ j ∈ order, j ≠ i ∧ j ∈ order := fun j hj => ⟨fun hji => hi (hji ▸ hj), hj⟩
  refine ⟨h.nodup, fun j => ?_, ?_, ?_, ?_⟩
  · rw [h.entered_moved ht, hstays]
    exact ⟨fun hj => .inr (hne j hj), fun hj => (hj.resolve_left (by simp)).2⟩
  · rw [h.flatMap_moved hne]
    show S.FitsAll M _ _ (S.view s)
    rw [hview]
    exact h.fits
  · intro j u hu hin
    show _ ∧ S.busy (S.view s) = true
    rw [hview]
    rcases inside_moved hu hin with ⟨-, rfl⟩ | ⟨-, hu⟩
    · exact absurd (hstays.symm.trans hin) (by simp)
    · exact h.inside j u hu hin
  · exact h.reads_moved fun _ => hreads

/-- A thread that enters comes last, and nobody is there before it. -/
theorem Ordered.enter (h : S.Ordered M expect s₀ c order) (ht : c.threads[i]? = some t)
    (hbefore : S.phase t.trace = .before) (htrace : t'.trace = t.trace ++ [⟨o, r⟩])
    (henters : S.phase t'.trace = .inside)
    (hread : ∀ e ∈ t.trace, S.Fits M e (S.view c.shared) (S.view c.shared))
    (hfits : S.Fits M ⟨o, r⟩ (S.view c.shared) (S.view s))
    (hbusy : S.busy (S.view c.shared) = false) (hbusy' : S.busy (S.view s) = true) :
    S.Ordered M expect s₀ (moved Y c i s t' new) (order ++ [i]) := by
  have hi : i ∉ order := by
    intro hmem
    obtain ⟨u, hu, hphase⟩ := (h.entered i).1 hmem
    obtain rfl := Option.some.inj (ht.symm.trans hu)
    exact hphase hbefore
  have hne : ∀ j ∈ order, j ≠ i ∧ j ∈ order := fun j hj => ⟨fun hji => hi (hji ▸ hj), hj⟩
  refine ⟨?_, fun j => ?_, ?_, ?_, ?_⟩
  · exact List.nodup_append.2 ⟨h.nodup, List.nodup_singleton i, fun a ha b hb hab =>
      hi (List.mem_singleton.1 hb ▸ hab ▸ ha)⟩
  · rw [h.entered_moved ht, henters, List.mem_append, List.mem_singleton]
    constructor
    · rintro (hj | rfl)
      · exact .inr (hne j hj)
      · exact .inl ⟨rfl, by simp⟩
    · rintro (⟨rfl, -⟩ | ⟨-, hj⟩)
      · exact .inr rfl
      · exact .inl hj
  · rw [List.flatMap_append, h.flatMap_moved hne, List.flatMap_singleton,
      System.traceAt_of_getElem? (moved_self ht), htrace]
    exact fitsAll_append.2 ⟨_, h.fits, fitsAll_append.2
      ⟨_, fitsAll_of_forall hread, _, hfits, rfl⟩⟩
  · intro j u hu hin
    rcases inside_moved hu hin with ⟨rfl, -⟩ | ⟨-, hu⟩
    · exact ⟨List.getLast?_concat, hbusy'⟩
    · exact absurd (h.inside j u hu hin).2 (by simp [hbusy])
  · exact h.reads_moved fun hstays => absurd (henters.symm.trans hstays) (by simp)

/-- The thread in the section is the last that has entered, and goes on. -/
theorem Ordered.work (h : S.Ordered M expect s₀ c order) (ht : c.threads[i]? = some t)
    (hin : S.phase t.trace = .inside) (htrace : t'.trace = t.trace ++ [⟨o, r⟩])
    (hentered : S.phase t'.trace ≠ .before)
    (hfits : S.Fits M ⟨o, r⟩ (S.view c.shared) (S.view s))
    (hbusy : S.phase t'.trace = .inside → S.busy (S.view s) = true) :
    S.Ordered M expect s₀ (moved Y c i s t' new) order := by
  have hlast := (h.inside i t ht hin).1
  have hmem : i ∈ order := List.mem_of_getLast? hlast
  obtain ⟨init, horder⟩ : ∃ init, order = init ++ [i] := List.getLast?_eq_some_iff.1 hlast
  have hi : i ∉ init := by
    have hnd := h.nodup
    rw [horder, List.nodup_append] at hnd
    exact fun hi => hnd.2.2 i hi i (List.mem_singleton.2 rfl) rfl
  have hne : ∀ j ∈ init, j ≠ i ∧ j ∈ order := fun j hj =>
    ⟨fun hji => hi (hji ▸ hj), horder ▸ List.mem_append_left _ hj⟩
  refine ⟨h.nodup, fun j => ?_, ?_, ?_, ?_⟩
  · rw [h.entered_moved ht]
    by_cases hj : j = i
    · simp [hj, hmem, hentered]
    · simp [hj]
  · have hold := h.fits
    rw [horder, List.flatMap_append, List.flatMap_singleton, System.traceAt_of_getElem? ht] at hold
    rw [horder, List.flatMap_append, h.flatMap_moved hne, List.flatMap_singleton,
      System.traceAt_of_getElem? (moved_self ht), htrace, ← List.append_assoc]
    exact fitsAll_append.2 ⟨_, hold, _, hfits, rfl⟩
  · intro j u hu hin'
    rcases inside_moved hu hin' with ⟨rfl, rfl⟩ | ⟨hj, hu⟩
    · exact ⟨hlast, hbusy hin'⟩
    · exact absurd (Option.some.inj ((h.inside j u hu hin').1.symm.trans hlast)) hj
  · exact h.reads_moved fun hbefore => absurd hbefore hentered

/-- What a thread does after its section is moved up to it. -/
theorem Ordered.trail (h : S.Ordered M expect s₀ c order) (ht : c.threads[i]? = some t)
    (hafter : S.phase t.trace = .after) (htrace : t'.trace = t.trace ++ [⟨o, r⟩])
    (hafter' : S.phase t'.trace = .after)
    (hfits : ∀ u, S.Fits M ⟨o, r⟩ (S.view u) (S.view u))
    (hview : S.view s = S.view c.shared) : S.Ordered M expect s₀ (moved Y c i s t' new) order := by
  have hmem : i ∈ order := (h.entered i).2 ⟨t, ht, by simp [hafter]⟩
  obtain ⟨pre, post, horder⟩ := List.append_of_mem hmem
  have hnd := h.nodup
  rw [horder, List.nodup_append, List.nodup_cons] at hnd
  have hpre : ∀ j ∈ pre, j ≠ i ∧ j ∈ order := fun j hj =>
    ⟨hnd.2.2 j hj i List.mem_cons_self, horder ▸ List.mem_append_left _ hj⟩
  have hpost : ∀ j ∈ post, j ≠ i ∧ j ∈ order := fun j hj =>
    ⟨fun hji => hnd.2.1.1 (hji ▸ hj),
      horder ▸ List.mem_append_right _ (List.mem_cons_of_mem _ hj)⟩
  refine ⟨h.nodup, fun j => ?_, ?_, ?_, ?_⟩
  · rw [h.entered_moved ht]
    by_cases hj : j = i
    · simp [hj, hmem, hafter']
    · simp [hj]
  · have hold := h.fits
    rw [horder, List.flatMap_append, List.flatMap_cons, System.traceAt_of_getElem? ht,
      ← List.append_assoc] at hold
    rw [horder, List.flatMap_append, List.flatMap_cons, h.flatMap_moved hpre,
      h.flatMap_moved hpost, System.traceAt_of_getElem? (moved_self ht), htrace, ← List.append_assoc,
      ← List.append_assoc]
    show S.FitsAll M _ _ (S.view s)
    rw [hview]
    obtain ⟨v₁, hold, hrest⟩ := fitsAll_append.1 hold
    obtain ⟨u, rfl⟩ := hold.exists_view
    exact fitsAll_append.2 ⟨_, fitsAll_append.2 ⟨_, hold, _, hfits u, rfl⟩, hrest⟩
  · intro j u hu hin
    show _ ∧ S.busy (S.view s) = true
    rw [hview]
    rcases inside_moved hu hin with ⟨-, rfl⟩ | ⟨-, hu⟩
    · exact absurd (hafter'.symm.trans hin) (by simp)
    · exact h.inside j u hu hin
  · exact h.reads_moved fun hbefore => absurd (hafter'.symm.trans hbefore) (by simp)

end Step

section Run

variable {Y : System Op Res σ Ext Req ρ} {C : Config Op Res σ Req ρ → Label σ Ext Req → Prop}
  {c c' : Config Op Res σ Req ρ} {expect : (o : Op) → Res o → Prop}
  {Post : Req → Phase → ρ → Prop} {J : σ → Prop} {Ok : Req → Prop} {s₀ : σ}

/-- A thread that was refused stays so. -/
theorem refused_step {l : Label σ Ext Req} (h : Y.step c l = some c')
    (hrefused : ∃ t ∈ c.threads, S.Refused t) : ∃ t ∈ c'.threads, S.Refused t := by
  obtain ⟨t, ht, e, he, hrefused⟩ := hrefused
  cases l with
  | arrive q =>
    cases h
    exact ⟨t, List.mem_append_left _ ht, e, he, hrefused⟩
  | env s =>
    cases h
    exact ⟨t, ht, e, he, hrefused⟩
  | run i x =>
    obtain ⟨u, o, k, r, s, new, hu, -, -, rfl⟩ := System.step_run h
    obtain ⟨j, hj⟩ := List.getElem?_of_mem ht
    by_cases hji : j = i
    · subst hji
      obtain rfl := Option.some.inj (hu.symm.trans hj)
      exact ⟨_, List.mem_of_getElem? (moved_self hu), e, List.mem_append_left _ he, hrefused⟩
    · exact ⟨t, List.mem_of_getElem? (moved_other hji hj), e, he, hrefused⟩

/-- One step of the pool keeps the order, or puts the thread that enters at its end, unless a
    thread is refused. -/
theorem Lawful.step (hS : S.Lawful Y.toMachine)
    (G : Y.Guarantee (S.monitor expect) .before Post J Ok) {l : Label σ Ext Req}
    (hl : S.Validated Y.toMachine expect c l) (h : Y.step c l = some c')
    (hc : System.AllWatched (S.monitor expect) .before Post J c)
    (horder : (∃ t ∈ c.threads, S.Refused t) ∨ ∃ order, S.Ordered Y.toMachine expect s₀ c order) :
    (∃ t ∈ c'.threads, S.Refused t) ∨ ∃ order, S.Ordered Y.toMachine expect s₀ c' order := by
  rcases horder with hrefused | ⟨order, horder⟩
  · exact .inl (refused_step h hrefused)
  cases l with
  | arrive q =>
    cases h
    -- a thread that has just arrived has not entered
    have hnew : ∀ (j : Nat) (u : Thread Op Res Req ρ), (c.threads ++ [Y.start q])[j]? = some u →
        c.threads[j]? = some u ∨ S.phase u.trace = .before := by
      intro j u hu
      rw [List.getElem?_append] at hu
      split at hu
      · exact .inl hu
      · exact .inr (by rw [List.mem_singleton.1 (List.mem_of_getElem? hu)]; rfl)
    have hold : ∀ (j : Nat) (u : Thread Op Res Req ρ), c.threads[j]? = some u →
        (c.threads ++ [Y.start q])[j]? = some u := by
      intro j u hu
      rw [List.getElem?_append_left (List.getElem?_eq_some_iff.1 hu).1]
      exact hu
    refine .inr ⟨order, horder.nodup, fun j => (horder.entered j).trans ?_, ?_, ?_, ?_⟩
    · constructor
      · rintro ⟨u, hu, hphase⟩
        exact ⟨u, hold j u hu, hphase⟩
      · rintro ⟨u, hu, hphase⟩
        exact ⟨u, (hnew j u hu).resolve_right hphase, hphase⟩
    · have htrace : order.flatMap (System.traceAt ⟨c.shared, c.threads ++ [Y.start q]⟩) =
          order.flatMap (System.traceAt c) := by
        refine List.flatMap_congr fun j hj => ?_
        obtain ⟨u, hu, -⟩ := (horder.entered j).1 hj
        rw [System.traceAt_of_getElem? hu, System.traceAt_of_getElem? (hold j u hu)]
      rw [htrace]
      exact horder.fits
    · intro j u hu hin
      exact horder.inside j u ((hnew j u hu).resolve_right (by simp [hin])) hin
    · intro j u hu hbefore
      rw [List.getElem?_append] at hu
      split at hu
      · exact horder.reads j u hu hbefore
      · rw [List.mem_singleton.1 (List.mem_of_getElem? hu)]
        intro e he
        cases he
  | env s =>
    cases h
    have hview : S.view s = S.view c.shared := hl
    exact .inr ⟨order, horder.nodup, horder.entered, hview ▸ horder.fits, hview ▸ horder.inside,
      horder.reads⟩
  | run i x =>
    obtain ⟨t, o, k, r, s, new, ht, hk, hx, rfl⟩ := System.step_run h
    have hacts := G.acts hc ht hk hx
    have hallowed : (S.monitor expect).allow (S.phase t.trace) o := hacts.allowed
    have hcovers : S.Covers o := covers_of_allow hallowed
    have hfits : S.Fits Y.toMachine ⟨o, r⟩ (S.view c.shared) (S.view s) :=
      ⟨hcovers, x, _, _, new, hx, rfl, rfl⟩
    have hsnoc := S.phase_snoc t.trace ⟨o, r⟩
    cases hphase : S.phase t.trace with
    | before =>
      rw [hphase] at hallowed hsnoc
      have hread : S.UpToDate Y.toMachine expect c.shared t := hl t ht
      rw [UpToDate, hk] at hread
      by_cases htakes : S.takes o = true
      · obtain ⟨hgranted, hbusy'⟩ := hS.taken hx htakes
        cases hbusy : S.busy (S.view c.shared) with
        | true =>
          refine .inl ⟨_, List.mem_of_getElem? (moved_self ht), ⟨o, r⟩, ?_, htakes, ?_⟩
          · exact List.mem_append_right _ (List.mem_singleton.2 rfl)
          · rw [hgranted, hbusy]
            rfl
        | false =>
          have hread := hread htakes hbusy
          rw [hbusy] at hgranted
          refine .inr ⟨order ++ [i],
            horder.enter ht hphase rfl ?_ (fun e he => ?_) hfits hbusy hbusy'⟩
          · rw [hsnoc, next, if_pos (by simp [htakes, hgranted])]
          · obtain ⟨hreads, hexpect⟩ := horder.reads i t ht hphase e he
            exact hread e he hreads hexpect
      · have hstays : S.phase (t.trace ++ [⟨o, r⟩]) = .before := by
          rw [hsnoc, next, if_neg (by simp [htakes])]
        have hreads := hallowed.resolve_right htakes
        refine .inr ⟨order,
          horder.stay ht hphase hstays (fun e he => ?_) (hS.quiet hx (.inl hreads))⟩
        rcases List.mem_append.1 he with he | he
        · exact horder.reads i t ht hphase e he
        · rw [List.mem_singleton.1 he]
          exact ⟨hreads, hacts.expected⟩
    | inside =>
      rw [hphase] at hallowed hsnoc
      refine .inr ⟨order, horder.work ht hphase rfl ?_ hfits ?_⟩
      · rw [hsnoc, next]
        split <;> simp
      · intro hin
        rw [hsnoc, next] at hin
        have hleaves : ¬ S.leaves o = true := by
          intro hleaves
          simp [hleaves] at hin
        exact hS.works hx (hallowed.resolve_right hleaves) (horder.inside i t ht hphase).2
    | after =>
      rw [hphase] at hallowed hsnoc
      exact .inr ⟨order, horder.trail ht hphase rfl hsnoc (hS.trailing hx hallowed)
        (hS.quiet hx (.inr hallowed))⟩

/-- **Validated threads are serializable**: if none was refused, the traces of those that have
    entered, in the order they have, lead from the view at the start to the view now. -/
theorem Lawful.ordered (hS : S.Lawful Y.toMachine)
    (G : Y.Guarantee (S.monitor expect) .before Post J Ok) (hC : System.Relies C J Ok)
    (hvalid : ∀ c l, J c.shared → C c l → S.Validated Y.toMachine expect c l) (h : Y.Steps C c c')
    (hJ : J c.shared) (hidle : c.threads = []) (hnone : ∀ t ∈ c'.threads, ¬ S.Refused t) :
    ∃ order, S.Ordered Y.toMachine expect c.shared c' order := by
  have hstart : System.AllWatched (S.monitor expect) .before Post J c ∧
      ((∃ t ∈ c.threads, S.Refused t) ∨ ∃ order, S.Ordered Y.toMachine expect c.shared c order) :=
    ⟨System.allWatched_of_idle hJ hidle, .inr ⟨[], List.nodup_nil, by simp [hidle], rfl,
      by simp [hidle], by simp [hidle]⟩⟩
  have hrun := (h.invariant (fun c' => System.AllWatched (S.monitor expect) .before Post J c' ∧
    ((∃ t ∈ c'.threads, S.Refused t) ∨
      ∃ order, S.Ordered Y.toMachine expect c.shared c' order)) ?_ hstart).2
  · refine hrun.resolve_left ?_
    rintro ⟨t, ht, hrefused⟩
    exact hnone t ht hrefused
  rintro c₁ l c₂ hl hstep ⟨hwatched, horder⟩
  exact ⟨G.step hC hl hstep hwatched, hS.step G (hvalid c₁ l hwatched.1 hl) hstep hwatched horder⟩

end Run

/-! ## The serial run -/

section Replay

variable {ι : Type} {D : Draws Op Res σ ι}

/-- What fits the view of a state can be done there, if the id it draws is new. -/
def Replays (S : Section Op Res σ ν) (M : Machine Op Res σ Ext Req) (D : Draws Op Res σ ι) : Prop :=
  ∀ (e : (o : Op) × Res o) (s : σ) (v' : ν), (∀ u ∈ D.drawn e.1 e.2, u ∉ D.issued s) →
    S.Fits M e (S.view s) v' → ∃ x s' new, M.exec x e.1 s = some (e.2, s', new) ∧ S.view s' = v'

theorem Replays.performs (hR : S.Replays M D) (hD : D.Lawful M) {es : List ((o : Op) × Res o)}
    {s : σ} {v' : ν} (hnd : (D.ids es).Nodup) (hnew : ∀ u ∈ D.ids es, u ∉ D.issued s)
    (h : S.FitsAll M es (S.view s) v') : ∃ s', M.Performs es s s' ∧ S.view s' = v' := by
  induction es generalizing s with
  | nil => exact ⟨s, rfl, h.symm⟩
  | cons e es ih =>
    obtain ⟨v₁, he, hrest⟩ := h
    have hcons : D.ids (e :: es) = (D.drawn e.1 e.2).toList ++ D.ids es := by
      cases hdrawn : D.drawn e.1 e.2 <;> simp [Draws.ids, hdrawn]
    rw [hcons, List.nodup_append] at hnd
    rw [hcons] at hnew
    obtain ⟨x, s₁, new, hx, rfl⟩ := hR e s v₁
      (fun u hu => hnew u (List.mem_append_left _ (Option.mem_toList.2 hu))) he
    have hnew' : ∀ u ∈ D.ids es, u ∉ D.issued s₁ := by
      intro u hu hissued
      rw [(hD hx).2, List.mem_append] at hissued
      rcases hissued with hissued | hissued
      · exact hnd.2.2 u hissued u hu rfl
      · exact hnew u (List.mem_append_right _ hu) hissued
    obtain ⟨s', hperforms, hview⟩ := ih hnd.2.1 hnew' hrest
    exact ⟨s', ⟨x, s₁, new, hx, hperforms⟩, hview⟩

/-- **The threads that have entered can run one after the other**, from where the interleaving
    started to where it is, as far as the view tells. -/
theorem Ordered.serialRun {Y : System Op Res σ Ext Req ρ} {c : Config Op Res σ Req ρ} {s₀ : σ}
    {order : List Nat} {expect : (o : Op) → Res o → Prop}
    (h : S.Ordered Y.toMachine expect s₀ c order) (hR : S.Replays Y.toMachine D)
    (hD : D.Lawful Y.toMachine) (hfresh : D.Fresh s₀ c)
    (hunfolds : ∀ t ∈ c.threads, (Y.prog t.req).Unfolds t.trace t.prog) :
    ∃ us s', Y.SerialRun us s₀ s' ∧ S.view s' = S.view c.shared ∧
      List.Forall₂ (fun i u => c.threads[i]? = some u) order us := by
  have hthreads : ∀ i ∈ order, ∃ t, c.threads[i]? = some t := by
    intro i hi
    obtain ⟨t, ht, -⟩ := (h.entered i).1 hi
    exact ⟨t, ht⟩
  obtain ⟨hnd, hnew⟩ := hfresh.nodup_flatMap h.nodup hthreads
  obtain ⟨s', hperforms, hview⟩ := hR.performs hD hnd hnew h.fits
  obtain ⟨us, hus, hall⟩ := System.serialRun_of_performs (Y := Y) (fun i hi => by
    obtain ⟨t, ht⟩ := hthreads i hi
    exact ⟨t, ht, hunfolds t (List.mem_of_getElem? ht)⟩) hperforms
  exact ⟨us, s', hus, hview, hall⟩

end Replay

end Section

end Lib

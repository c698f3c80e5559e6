import Mathlib.Data.List.Basic
import PaciNet.Lib.Pool

/-!
# Threads that write back what they read

A store of keyed records, and threads that read a record, work on the copy for as long as they
like, act on its behalf, and write the whole copy back. Nothing compares the write with what is
stored by then.

Two things are asked of each thread on its own: of a record it has seen, it writes back only an
extension, and it writes or acts for it only if it has seen it live. They are what the monitor
`Store.monitor` checks, and a sequential reading of the code is enough to establish them.

Whether that is worth anything depends on the schedule. A step is `Undisturbed` when the record
it writes or acts for is still stored, where the step is taken, in the version its thread has
seen, and not stored if the thread has seen none. **In a run of undisturbed steps a stored record
is only ever replaced by an extension of itself, and a record that is not live any more stays as
it is, with nothing done on its behalf.** Nothing of this survives a single disturbed write.
-/

namespace Lib

/-- How operations use a store of records `V` under keys `K`. `log` is what has been done on
    behalf of a key. -/
structure Store (Op : Type) (Res : Op → Type) (σ K V L : Type) where
  stored : σ → K → Option V
  key : V → K
  /-- the records an answer hands out -/
  reads : (o : Op) → Res o → List V
  /-- the record an operation writes -/
  writes : Op → Option V
  /-- the answer says the write was made -/
  wrote : (o : Op) → Res o → Bool
  /-- the key an operation acts for -/
  acts : Op → Option K
  log : σ → K → L

/-- What of a record its readers rely on, which versions of it may still change, and how. -/
structure Lifecycle (V W : Type) where
  version : V → W
  Live : W → Prop
  Extends : W → W → Prop

/-- The records a thread has seen, latest first, and those it has written. -/
structure View (V : Type) where
  seen : List V
  written : List V

namespace Lifecycle

variable {V W : Type} (Y : Lifecycle V W)

/-- Any number of extensions, each of a live version. -/
def Later : W → W → Prop := Relation.ReflTransGen fun u v => Y.Live u ∧ Y.Extends u v

variable {Y}

/-- A version that is not live has no later one but itself. -/
theorem Later.eq_of_not_live {u v : W} (h : Y.Later u v) (hu : ¬ Y.Live u) : v = u := by
  rcases h.cases_head with rfl | ⟨w, hw, -⟩
  · rfl
  · exact absurd hw.1 hu

/-- If extending is a preorder, later versions extend earlier ones. -/
theorem Later.extends (hrefl : ∀ u, Y.Extends u u)
    (htrans : ∀ u v w, Y.Extends u v → Y.Extends v w → Y.Extends u w) {u v : W}
    (h : Y.Later u v) : Y.Extends u v := by
  induction h with
  | refl => exact hrefl u
  | tail _ hs ih => exact htrans _ _ _ ih hs.2

end Lifecycle

namespace Store

variable {Op : Type} {Res : Op → Type} {σ Ext Req ρ K V W L : Type} [DecidableEq K]

section Monitor

variable (D : Store Op Res σ K V L) (Y : Lifecycle V W)

/-- The record a thread has seen last under a key. -/
def lookup (w : View V) (k : K) : Option V := w.seen.find? fun v => D.key v = k

/-- The keys of the records an operation writes or acts for. -/
def concerned (o : Op) : List K := ((D.writes o).map D.key).toList ++ (D.acts o).toList

/-- What a thread has seen and written after one more answer. -/
def observe (w : View V) (o : Op) (r : Res o) : View V where
  seen := (D.writes o).toList ++ D.reads o r ++ w.seen
  written := if D.wrote o r then (D.writes o).toList ++ w.written else w.written

/-- A thread may write an extension of the live record it has seen, and act for it. -/
def monitor (expect : (o : Op) → Res o → Prop) : Monitor Op Res (View V) where
  allow w o := ∀ k ∈ D.concerned o, ∀ u, D.lookup w k = some u → Y.Live (Y.version u) ∧
    ∀ v, D.writes o = some v → Y.Extends (Y.version u) (Y.version v)
  expect := expect
  next := D.observe

/-- The store is changed by the writes of its operations only, and the log by their acts. -/
structure Lawful (D : Store Op Res σ K V L) (M : Machine Op Res σ Ext Req) : Prop where
  frame : ∀ {x o s r s' new k}, M.exec x o s = some (r, s', new) →
    (∀ v, D.writes o = some v → D.key v ≠ k) → D.stored s' k = D.stored s k
  write : ∀ {x o s r s' new v}, M.exec x o s = some (r, s', new) → D.writes o = some v →
    D.stored s' (D.key v) = if D.wrote o r then some v else D.stored s (D.key v)
  quiet : ∀ {x o s r s' new k}, M.exec x o s = some (r, s', new) → D.acts o ≠ some k →
    D.log s' k = D.log s k

/-- What a thread has seen and written. -/
def view (t : Thread Op Res Req ρ) : View V :=
  t.trace.foldl (fun w e => D.observe w e.1 e.2) ⟨[], []⟩

/-- The records the thread is about to write or to act for are stored in the versions the thread
    has seen last. -/
def UpToDate (s : σ) (t : Thread Op Res Req ρ) : Prop :=
  match t.prog with
  | .done _ => True
  | .call o _ => ∀ k ∈ D.concerned o,
      (D.stored s k).map Y.version = (D.lookup (D.view t) k).map Y.version

instance [DecidableEq W] (s : σ) (t : Thread Op Res Req ρ) : Decidable (D.UpToDate Y s t) :=
  match h : t.prog with
  | .done _ => .isTrue (by simp only [UpToDate, h])
  | .call o _ => decidable_of_iff
      (∀ k ∈ D.concerned o, (D.stored s k).map Y.version = (D.lookup (D.view t) k).map Y.version)
      (by simp only [UpToDate, h])

/-- A thread moves only while it is up to date, and the environment leaves the records that are
    stored alone. -/
def Undisturbed (c : Config Op Res σ Req ρ) : Label σ Ext Req → Prop
  | .arrive _ => True
  | .env s => ∀ k v, D.stored c.shared k = some v →
      D.stored s k = some v ∧ D.log s k = D.log c.shared k
  | .run i _ => ∀ t, c.threads[i]? = some t → D.UpToDate Y c.shared t

/-- The decidable part of `Undisturbed`: without the environment. -/
def undisturbed [DecidableEq W] (c : Config Op Res σ Req ρ) : Label σ Ext Req → Bool
  | .arrive _ => true
  | .env _ => false
  | .run i _ => c.threads[i]?.all fun t => decide (D.UpToDate Y c.shared t)

end Monitor

variable {D : Store Op Res σ K V L} {Y : Lifecycle V W} {expect : (o : Op) → Res o → Prop}
  {Sys : System Op Res σ Ext Req ρ} {Post : Req → View V → ρ → Prop}
  {c c' : Config Op Res σ Req ρ}

theorem undisturbed_sound [DecidableEq W] (D : Store Op Res σ K V L) (Y : Lifecycle V W)
    (c : Config Op Res σ Req ρ) (l : Label σ Ext Req) (h : D.undisturbed Y c l) :
    D.Undisturbed Y c l := by
  cases l with
  | arrive q => trivial
  | env s => exact absurd h (by simp [undisturbed])
  | run i x =>
    intro t ht
    simpa [undisturbed, ht] using h

/-- What a system needs for the rest of the section: every request behaves on its own. -/
def Behaves (D : Store Op Res σ K V L) (Y : Lifecycle V W) (expect : (o : Op) → Res o → Prop)
    (Sys : System Op Res σ Ext Req ρ) (Post : Req → View V → ρ → Prop) : Prop :=
  Sys.Guarantee (D.monitor Y expect) ⟨[], []⟩ Post (fun _ => True) (fun _ => True)

/-- Every thread is watched. -/
def Behaving (D : Store Op Res σ K V L) (Y : Lifecycle V W) (expect : (o : Op) → Res o → Prop)
    (Post : Req → View V → ρ → Prop) (c : Config Op Res σ Req ρ) : Prop :=
  System.AllWatched (D.monitor Y expect) ⟨[], []⟩ Post (fun _ => True) c

theorem Behaves.step (G : D.Behaves Y expect Sys Post) {l : Label σ Ext Req}
    (h : Sys.step c l = some c') (hc : D.Behaving Y expect Post c) : D.Behaving Y expect Post c' :=
  System.Guarantee.step (C := fun _ _ => True) G ⟨fun _ _ _ => trivial, fun _ _ _ _ => trivial⟩
    trivial h hc

theorem Behaves.run (G : D.Behaves Y expect Sys Post) (h : Sys.Steps (D.Undisturbed Y) c c')
    (hc : D.Behaving Y expect Post c) : D.Behaving Y expect Post c' :=
  h.invariant _ (fun _ _ _ _ hs hd => G.step hs hd) hc

/-- An operation that concerns no record and hands none out does not matter to the monitor. -/
theorem silent {o : Op} (hc : D.concerned o = []) (hr : ∀ r, D.reads o r = []) :
    (D.monitor Y expect).Silent o := by
  intro w
  refine ⟨fun k hk => by simp [hc] at hk, fun r => ?_⟩
  have hw : D.writes o = none := by simpa using (List.append_eq_nil_iff.1 hc).1
  simp [monitor, observe, hw, hr]

/-- What a record may have become: a later version, and the very same record with nothing done
    for it if it was not live. -/
structure Evolves (D : Store Op Res σ K V L) (Y : Lifecycle V W) (s s' : σ) (k : K) (u v : V) :
    Prop where
  stored : D.stored s' k = some v
  later : Y.Later (Y.version u) (Y.version v)
  final : ¬ Y.Live (Y.version u) → v = u ∧ D.log s' k = D.log s k

omit [DecidableEq K] in
theorem Evolves.trans {s₁ s₂ s₃ : σ} {k : K} {u v w : V} (h₁ : D.Evolves Y s₁ s₂ k u v)
    (h₂ : D.Evolves Y s₂ s₃ k v w) : D.Evolves Y s₁ s₃ k u w where
  stored := h₂.stored
  later := h₁.later.trans h₂.later
  final hu := by
    obtain ⟨rfl, hlog⟩ := h₁.final hu
    obtain ⟨hw, hlog'⟩ := h₂.final hu
    exact ⟨hw, hlog'.trans hlog⟩

/-- One undisturbed step replaces a stored record by an extension of it at most. -/
theorem Lawful.step (hD : D.Lawful Sys.toMachine) (G : D.Behaves Y expect Sys Post)
    (hc : D.Behaving Y expect Post c) {l : Label σ Ext Req} (hl : D.Undisturbed Y c l)
    (h : Sys.step c l = some c') {k : K} {u : V} (hu : D.stored c.shared k = some u) :
    ∃ v, D.Evolves Y c.shared c'.shared k u v := by
  cases l with
  | arrive q =>
    cases h
    exact ⟨u, hu, .refl, fun _ => ⟨rfl, rfl⟩⟩
  | env s =>
    cases h
    exact ⟨u, (hl k u hu).1, .refl, fun _ => ⟨rfl, (hl k u hu).2⟩⟩
  | run i x =>
    obtain ⟨t, o, kont, r, s, new, ht, hk, hx, rfl⟩ := System.step_run h
    have hallow := (G.acts hc ht hk hx).allowed
    have hl := hl t ht
    simp only [UpToDate, hk] at hl
    by_cases hcon : k ∈ D.concerned o
    · -- the thread has seen this version, so it was live then and is live now
      have hseen := hl k hcon
      rw [hu, Option.map_some, eq_comm, Option.map_eq_some_iff] at hseen
      obtain ⟨u', hu', hver⟩ := hseen
      obtain ⟨hlive, hext⟩ := hallow k hcon u' hu'
      rw [hver] at hlive hext
      cases hw : D.writes o with
      | none =>
        exact ⟨u, (hD.frame hx (by simp [hw])).trans hu, .refl, fun h => absurd hlive h⟩
      | some v =>
        by_cases hkv : D.key v = k
        · subst hkv
          cases hwr : D.wrote o r with
          | true =>
            exact ⟨v, by simp [hD.write hx hw, hwr], .single ⟨hlive, hext v hw⟩,
              fun h => absurd hlive h⟩
          | false =>
            exact ⟨u, by simp [hD.write hx hw, hwr, hu], .refl, fun h => absurd hlive h⟩
        · refine ⟨u, (hD.frame hx fun v' hv' => ?_).trans hu, .refl, fun h => absurd hlive h⟩
          rw [hw] at hv'
          exact Option.some.inj hv' ▸ hkv
    · have hacts : D.acts o ≠ some k := fun h => hcon (by simp [concerned, h])
      have hwrites : ∀ v, D.writes o = some v → D.key v ≠ k := fun v hv hkv =>
        hcon (by simp [concerned, hv, hkv])
      exact ⟨u, (hD.frame hx hwrites).trans hu, .refl, fun _ => ⟨rfl, hD.quiet hx hacts⟩⟩

/-- **A stored record is only replaced by extensions of itself, while it is live.** -/
theorem Lawful.evolves (hD : D.Lawful Sys.toMachine) (G : D.Behaves Y expect Sys Post)
    (hc : D.Behaving Y expect Post c) (h : Sys.Steps (D.Undisturbed Y) c c') {k : K} {u : V}
    (hu : D.stored c.shared k = some u) : ∃ v, D.Evolves Y c.shared c'.shared k u v := by
  induction h with
  | refl => exact ⟨u, hu, .refl, fun _ => ⟨rfl, rfl⟩⟩
  | tail h hs ih =>
    obtain ⟨l, hl, hs⟩ := hs
    obtain ⟨v, hv⟩ := ih
    obtain ⟨w, hw⟩ := hD.step G (G.run h hc) hl hs hv.stored
    exact ⟨w, hv.trans hw⟩

/-- Every record a thread has written is stored, or a later version of it is. -/
def Kept (D : Store Op Res σ K V L) (Y : Lifecycle V W) (c : Config Op Res σ Req ρ) : Prop :=
  ∀ t ∈ c.threads, ∀ v ∈ (D.view t).written,
    ∃ w, D.stored c.shared (D.key v) = some w ∧ Y.Later (Y.version v) (Y.version w)

omit [DecidableEq K] in
theorem view_snoc (t : Thread Op Res Req ρ) (p : Prog Op Res ρ) (o : Op) (r : Res o) :
    D.view ⟨t.req, p, t.trace ++ [⟨o, r⟩]⟩ = D.observe (D.view t) o r := by
  simp [view]

/-- **No write is lost**: what a thread has written stays stored, up to later versions. -/
theorem Lawful.kept (hD : D.Lawful Sys.toMachine) (G : D.Behaves Y expect Sys Post)
    (hc : D.Behaving Y expect Post c) (h : Sys.Steps (D.Undisturbed Y) c c') (hk : D.Kept Y c) :
    D.Kept Y c' := by
  refine (h.invariant (fun d => D.Behaving Y expect Post d ∧ D.Kept Y d) ?_ ⟨hc, hk⟩).2
  rintro d l d' hl hs ⟨hd, hkd⟩
  refine ⟨G.step hs hd, ?_⟩
  -- what was stored before the step evolves, whoever wrote it
  have hold : ∀ t ∈ d.threads, ∀ v ∈ (D.view t).written, ∃ w,
      D.stored d'.shared (D.key v) = some w ∧ Y.Later (Y.version v) (Y.version w) := by
    intro t ht v hv
    obtain ⟨w, hw, hvw⟩ := hkd t ht v hv
    obtain ⟨w', hw'⟩ := hD.step G hd hl hs hw
    exact ⟨w', hw'.stored, hvw.trans hw'.later⟩
  cases l with
  | arrive q =>
    cases hs
    intro t ht
    rcases List.mem_append.1 ht with ht | ht
    · exact hold t ht
    · rw [List.mem_singleton.1 ht]
      exact fun v hv => absurd hv (by simp [view, System.start])
  | env s =>
    cases hs
    exact hold
  | run i x =>
    obtain ⟨t, o, kont, r, s, new, ht, hkont, hx, rfl⟩ := System.step_run hs
    intro t' ht'
    rcases List.mem_append.1 ht' with ht' | ht'
    · rcases List.mem_or_eq_of_mem_set ht' with ht' | rfl
      · exact hold t' ht'
      · intro v hv
        rw [view_snoc] at hv
        simp only [observe] at hv
        split at hv
        · rename_i hwr
          rcases List.mem_append.1 hv with hv | hv
          · have hw : D.writes o = some v := by simpa using hv
            exact ⟨v, by simp [hD.write hx hw, hwr], .refl⟩
          · exact hold t (List.mem_of_getElem? ht) v hv
        · exact hold t (List.mem_of_getElem? ht) v hv
    · obtain ⟨q, -, rfl⟩ := List.mem_map.1 ht'
      exact fun v hv => absurd hv (by simp [view, System.start])

end Store

end Lib

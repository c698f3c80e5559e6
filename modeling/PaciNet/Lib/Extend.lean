import PaciNet.Lib.Pool

/-!
# More operations and requests

A system with the operations and requests of another one and some more of its own. The programs of
the old requests are as they were, and the old operations do what they did. So a part of a system
that was left out can be put beside it without a change to what is there.
-/

set_option autoImplicit false

namespace Lib

variable {Op Op' : Type} {Res : Op → Type} {Res' : Op' → Type} {σ Ext Req Req' ρ ρ' α : Type}

/-- The answers to operations of two kinds. -/
@[reducible] def BothRes (Res : Op → Type) (Res' : Op' → Type) : Op ⊕ Op' → Type
  | .inl o => Res o
  | .inr o => Res' o

/-- A program among more operations. -/
def Prog.extend : Prog Op Res α → Prog (Op ⊕ Op') (BothRes Res Res') α
  | .done a => .done a
  | .call o k => .call (.inl o) fun r => (k r).extend

/-- A machine with more operations, which start no tasks. -/
def Machine.extend (M : Machine Op Res σ Ext Req)
    (exec' : Ext → (o : Op') → σ → Option (Res' o × σ)) :
    Machine (Op ⊕ Op') (BothRes Res Res') σ Ext (Req ⊕ Req') where
  exec x
    | .inl o, s => (M.exec x o s).map fun out => (out.1, out.2.1, out.2.2.map .inl)
    | .inr o, s => (exec' x o s).map fun out => (out.1, out.2, [])

/-- A system with more operations and requests. -/
def System.extend (Y : System Op Res σ Ext Req ρ)
    (exec' : Ext → (o : Op') → σ → Option (Res' o × σ))
    (prog' : Req' → Prog (Op ⊕ Op') (BothRes Res Res') ρ') :
    System (Op ⊕ Op') (BothRes Res Res') σ Ext (Req ⊕ Req') (ρ ⊕ ρ') where
  toMachine := Y.toMachine.extend exec'
  prog
    | .inl q => (Y.prog q).extend.bind fun a => .done (.inl a)
    | .inr q => (prog' q).bind fun a => .done (.inr a)

namespace System

variable {Y : System Op Res σ Ext Req ρ} {exec' : Ext → (o : Op') → σ → Option (Res' o × σ)}
  {prog' : Req' → Prog (Op ⊕ Op') (BothRes Res Res') ρ'} {x : Ext} {s s' : σ}
  {new : List (Req ⊕ Req')}

theorem extend_exec_inl {o : Op} {r : Res o}
    (h : (Y.extend exec' prog').exec x (.inl o) s = some (r, s', new)) :
    ∃ new', Y.exec x o s = some (r, s', new') := by
  obtain ⟨⟨r', s₁, new'⟩, hx, heq⟩ := Option.map_eq_some_iff.1 h
  cases heq
  exact ⟨new', hx⟩

theorem extend_exec_inr {o : Op'} {r : Res' o}
    (h : (Y.extend exec' prog').exec x (.inr o) s = some (r, s', new)) :
    exec' x o s = some (r, s') := by
  obtain ⟨⟨r', s₁⟩, hx, heq⟩ := Option.map_eq_some_iff.1 h
  cases heq
  exact hx

end System

/-! ## A larger state -/

section Host

variable {τ Ext' : Type}

/-- A system with more operations and requests, in a larger state. The old operations see their
    part of the state only, and the rest takes note of them; the new ones act on the rest. -/
def System.host (Y : System Op Res σ Ext Req ρ) (note : Op → τ → τ)
    (exec' : Ext' → (o : Op') → τ → Option (Res' o × τ))
    (prog' : Req' → Prog (Op ⊕ Op') (BothRes Res Res') ρ') :
    System (Op ⊕ Op') (BothRes Res Res') (σ × τ) (Ext × Ext') (Req ⊕ Req') (ρ ⊕ ρ') where
  exec x
    | .inl o, s =>
      (Y.exec x.1 o s.1).map fun out => (out.1, (out.2.1, note o s.2), out.2.2.map .inl)
    | .inr o, s => (exec' x.2 o s.2).map fun out => (out.1, (s.1, out.2), [])
  prog
    | .inl q => (Y.prog q).extend.bind fun a => .done (.inl a)
    | .inr q => (prog' q).bind fun a => .done (.inr a)

namespace System

variable {Y : System Op Res σ Ext Req ρ} {note : Op → τ → τ}
  {exec' : Ext' → (o : Op') → τ → Option (Res' o × τ)}
  {prog' : Req' → Prog (Op ⊕ Op') (BothRes Res Res') ρ'} {x : Ext × Ext'} {s s' : σ × τ}
  {new : List (Req ⊕ Req')}

theorem host_exec_inl {o : Op} {r : Res o}
    (h : (Y.host note exec' prog').exec x (.inl o) s = some (r, s', new)) :
    (∃ new', Y.exec x.1 o s.1 = some (r, s'.1, new')) ∧ s'.2 = note o s.2 := by
  obtain ⟨⟨r', s₁, new'⟩, hx, heq⟩ := Option.map_eq_some_iff.1 h
  cases heq
  exact ⟨⟨new', hx⟩, rfl⟩

theorem host_exec_inr {o : Op'} {r : Res' o}
    (h : (Y.host note exec' prog').exec x (.inr o) s = some (r, s', new)) :
    exec' x.2 o s.2 = some (r, s'.2) ∧ s'.1 = s.1 := by
  obtain ⟨⟨r', t⟩, hx, heq⟩ := Option.map_eq_some_iff.1 h
  cases heq
  exact ⟨hx, rfl⟩

end System

/-- What a program that stays among the old operations performs. -/
theorem Prog.extend_calls {P : Op ⊕ Op' → Prop} (hP : ∀ o, P (.inl o)) (p : Prog Op Res α) :
    (p.extend : Prog (Op ⊕ Op') (BothRes Res Res') α).Calls P := by
  induction p with
  | done a => exact trivial
  | call o k ih => exact ⟨hP _, ih⟩

/-- A program whose operations are allowed as long as the monitor is in `I`, where they keep it. -/
theorem Prog.wp_of_allowed {S : Type} {M : Monitor Op Res S} {I : S → Prop} {Q : S → α → Prop}
    (hQ : ∀ s a, Q s a) {p : Prog Op Res α}
    (hp : p.Calls fun o => ∀ s, I s → M.allow s o ∧ ∀ r, I (M.next s o r)) {s : S} (hs : I s) :
    p.wp M Q s := by
  induction p generalizing s with
  | done a => exact hQ s a
  | call o k ih =>
    obtain ⟨hallow, hnext⟩ := hp.1 s hs
    exact ⟨hallow, fun r _ => ih r (hp.2 r) (hnext r)⟩

end Host

end Lib

import PaciNet.Core.Fsm.Parse
import PaciNet.Server.Conditions

/-!
# What is read of a condition that was written

The fields of a simple condition may all be missing, and a field it does not know is passed over.
So whatever mapping has none of its three keys reads as a simple condition without a field, and
`Simple` is tried before `Compound`.

**A condition survives exactly if it is not compound.** What a compound one is read as never
fires (`evaluateCondition_ofContent_compound`).
-/

set_option autoImplicit false

namespace PaciNet

open Lib

/-! ## Simple conditions -/

namespace SimpleCondition

theorem nodup_toFields (s : SimpleCondition) : (s.toFields.map Prod.fst).Nodup :=
  show names.Nodup by decide

theorem ofContent_toContent (nulls : Bool) (s : SimpleCondition) :
    ofContent (s.toContent nulls) = some s := by
  have hbool (k : String) (o : Option Bool) (hk : (k, o.map .bool) ∈ s.toFields) :
      Content.optional readBool ((s.toContent nulls).get names k) = some o :=
    Content.optional_get_struct s.nodup_toFields hk names (fun _ _ => rfl) (by simp)
  rw [ofContent, hbool "all_succeeded" s.allSucceeded (by simp [toFields]),
    hbool "any_failed" s.anyFailed (by simp [toFields]),
    hbool "manual" s.manual (by simp [toFields]), toContent,
    Content.fields_struct s.nodup_toFields]
  rfl

/-- A mapping with none of the three keys reads as a condition with no field. -/
theorem ofContent_of_get_eq_none {c : Content F64} {es : List (String × Content F64)}
    (hfields : c.fields names = some es) (h : ∀ k ∈ names, c.get names k = none) :
    ofContent c = some ⟨none, none, none⟩ := by
  rw [ofContent, hfields, h "all_succeeded" (by simp [names]), h "any_failed" (by simp [names]),
    h "manual" (by simp [names])]
  rfl

end SimpleCondition

/-! ## Counter conditions -/

theorem readF64_writeF64 {x : F64} (h : x.isFinite = true) : readF64 (writeF64 x) = some x := by
  rw [writeF64, if_pos h]
  rfl

theorem writeF64_ne_null {x : F64} (h : x.isFinite = true) : writeF64 x ≠ .null := by
  rw [writeF64, if_pos h]
  simp

theorem readU64_writeU64 (n : Nat) : readU64 (writeU64 n) = some n := by
  rw [writeU64, readU64, if_pos (Int.natCast_nonneg n), Int.toNat_natCast]

namespace CounterCondition

theorem nodup_toFields (cc : CounterCondition) : (cc.toFields.map Prod.fst).Nodup :=
  show names.Nodup by decide

/-- The fields with a text. -/
theorem get_text {nulls : Bool} {cc : CounterCondition} {k : String} {o : Option String}
    (hk : (k, o.map .str) ∈ cc.toFields) :
    Content.optional readString ((cc.toContent nulls).get names k) = some o :=
  Content.optional_get_struct cc.nodup_toFields hk names (fun _ _ => rfl) (by simp)

/-- The fields with a threshold of a rate. -/
theorem get_threshold {nulls : Bool} {cc : CounterCondition} {k : String} {o : Option F64}
    (hk : (k, o.map writeF64) ∈ cc.toFields) (ho : ∀ x ∈ o, x.isFinite = true) :
    Content.optional readF64 ((cc.toContent nulls).get names k) = some o :=
  Content.optional_get_struct cc.nodup_toFields hk names
    (fun x hx => readF64_writeF64 (ho x hx)) fun x hx => writeF64_ne_null (ho x hx)

theorem ofContent_toContent (nulls : Bool) {cc : CounterCondition} (h : cc.IsFinite) :
    ofContent (cc.toContent nulls) = some cc := by
  have hcounter : (cc.toContent nulls).get names "counter" = some (.str cc.counter) :=
    Content.get_struct_some cc.nodup_toFields (by simp [toFields]) names
  have htotal : Content.optional readU64 ((cc.toContent nulls).get names "total_above") =
      some cc.totalAbove :=
    have hk : ("total_above", cc.totalAbove.map writeU64) ∈ cc.toFields := by simp [toFields]
    Content.optional_get_struct cc.nodup_toFields hk names (fun n _ => readU64_writeU64 n)
      (by simp [writeU64])
  rw [ofContent, hcounter, htotal, get_threshold (o := cc.rateAbove) (by simp [toFields]) h.1,
    get_threshold (o := cc.rateBelow) (by simp [toFields]) h.2,
    get_text (o := cc.forDuration) (by simp [toFields]),
    get_text (o := cc.aggregate) (by simp [toFields]),
    get_text (o := cc.field) (by simp [toFields]), toContent,
    Content.fields_struct cc.nodup_toFields]
  rfl

/-- Without a counter it is no counter condition. -/
theorem ofContent_of_get_eq_none {c : Content F64} (h : c.get names "counter" = none) :
    ofContent c = none := by
  rw [ofContent, h]
  cases c.fields names <;> rfl

end CounterCondition

/-! ## Conditions -/

namespace ConditionDefinition

theorem ofContent_counter (nulls : Bool) {cc : CounterCondition} (h : cc.IsFinite) :
    ofContent ((counter cc).toContent nulls) = some (.counter cc) := by
  rw [toContent, ofContent, CounterCondition.ofContent_toContent nulls h]
  rfl

theorem ofContent_simple (nulls : Bool) (s : SimpleCondition) :
    ofContent ((simple s).toContent nulls) = some (.simple s) := by
  have hcounter : CounterCondition.ofContent (s.toContent nulls) = none :=
    CounterCondition.ofContent_of_get_eq_none <|
      Content.get_struct_of_notMem s.nodup_toFields (by simp [SimpleCondition.toFields]) _
  rw [toContent, ofContent, hcounter, SimpleCondition.ofContent_toContent]
  rfl

/-- A mapping with the keys of a compound condition reads as a simple one without a field,
    whatever stands there. -/
theorem ofContent_compoundKeys (nulls : Bool) (o₁ o₂ o₃ : Option (Content F64)) :
    ofContent (.struct nulls [("and", o₁), ("or", o₂), ("not", o₃)]) =
      some (.simple ⟨none, none, none⟩) := by
  have hnd : (([("and", o₁), ("or", o₂), ("not", o₃)] : List (String × Option (Content F64))).map
      Prod.fst).Nodup :=
    show compoundNames.Nodup by decide
  have hcounter : CounterCondition.ofContent
      (.struct nulls [("and", o₁), ("or", o₂), ("not", o₃)]) = none :=
    CounterCondition.ofContent_of_get_eq_none (Content.get_struct_of_notMem hnd (by simp) _)
  have hsimple : SimpleCondition.ofContent
      (.struct nulls [("and", o₁), ("or", o₂), ("not", o₃)]) = some ⟨none, none, none⟩ := by
    refine SimpleCondition.ofContent_of_get_eq_none (Content.fields_struct hnd _) fun k hk => ?_
    -- no key of a compound condition is one of a simple condition
    refine Content.get_struct_of_notMem hnd (fun hmem => ?_) _
    have hdisj : ∀ k ∈ SimpleCondition.names, k ∉ compoundNames := by decide
    exact hdisj k hk hmem
  rw [ofContent, hcounter, hsimple]
  rfl

/-- A compound condition is written with these keys. -/
theorem exists_toContent_compound (nulls : Bool) (and or : Option (List ConditionDefinition))
    (not : Option ConditionDefinition) : ∃ o₁ o₂ o₃, (compound and or not).toContent nulls =
      .struct nulls [("and", o₁), ("or", o₂), ("not", o₃)] :=
  ⟨_, _, _, toContent.eq_def _ _⟩

theorem ofContent_compound (nulls : Bool) (and or : Option (List ConditionDefinition))
    (not : Option ConditionDefinition) :
    ofContent ((compound and or not).toContent nulls) = some (.simple ⟨none, none, none⟩) := by
  obtain ⟨o₁, o₂, o₃, h⟩ := exists_toContent_compound nulls and or not
  rw [h, ofContent_compoundKeys]

/-- What a compound condition is read as never fires, and leaves the context alone. -/
theorem evaluateCondition_ofContent_compound (obs : Observation) (currentState : String)
    (transitionIdx : Nat) (context : FsmContext) (nulls : Bool)
    (and or : Option (List ConditionDefinition)) (not : Option ConditionDefinition) :
    (ofContent ((compound and or not).toContent nulls)).map
      (fun c => evaluateCondition obs currentState transitionIdx c context) =
        some (false, context) := by
  rw [ofContent_compound, Option.map_some, evaluateCondition]
  rfl

end ConditionDefinition

/-! ## The round trip -/

/-- **The conditions that survive** being written and read, with null for a field without a value
    or without it. -/
theorem conditionSurvives_iff (c : ConditionDefinition) (hfinite : c.IsFinite) (nulls : Bool) :
    ConditionDefinition.ofContent (c.toContent nulls) = some c ↔ c.isCompound = false := by
  cases c with
  | counter cc => exact iff_of_true (ConditionDefinition.ofContent_counter nulls hfinite) rfl
  | simple s => exact iff_of_true (ConditionDefinition.ofContent_simple nulls s) rfl
  | compound and or not =>
    rw [ConditionDefinition.ofContent_compound]
    exact iff_of_false (by simp) (by simp [ConditionDefinition.isCompound])

/-- More than a hundred matches a second, for half a minute. -/
def tooManyMatches : CounterCondition :=
  ⟨"syn_flood", some (.finite 100), none, none, some "30s", none, none⟩

theorem conditionSurvives_tooManyMatches :
    ConditionDefinition.ofContent
      ((ConditionDefinition.counter tooManyMatches).toContent false) =
        some (.counter tooManyMatches) := by
  refine (conditionSurvives_iff (.counter tooManyMatches) ?_ false).2 rfl
  exact ⟨by simp [tooManyMatches, F64.isFinite], by simp [tooManyMatches]⟩

/-- `not: {any_failed: true}`. -/
def notAnyFailed : ConditionDefinition :=
  .compound none none (some (.simple ⟨none, some true, none⟩))

theorem not_conditionSurvives :
    ConditionDefinition.ofContent (notAnyFailed.toContent false) ≠ some notAnyFailed := by
  rw [notAnyFailed, ConditionDefinition.ofContent_compound]
  simp

end PaciNet

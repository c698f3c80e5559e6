import PaciNet.Server.Conditions

/-!
# Aggregates over nodes

A counter condition compares totals or rates of the nodes it looks at with its thresholds, in one
of three ways. A node may have no snapshot, or none with the rule in it, or no two with time
between them, and the totals and the rates do not treat such a node alike.

**All rates means all there are** (`allRates_iff`): a node without a rate is passed over as long
as some node has one, where a node without a total is one that does not exceed the threshold
(`checkTotalAbove_all`).

**A sum of totals is exact as long as it is less than 2^64** (`sumExact_iff`).
-/

set_option autoImplicit false

namespace PaciNet

variable {cache : CounterCache} {ruleName : String} {useBytes : Bool} {nodes : List String}

/-! ## All rates -/

/-- All totals are those of all nodes, and all of them exceed the threshold. -/
theorem checkTotalAbove_all {threshold : Nat} :
    checkTotalAbove cache ruleName threshold useBytes nodes .all = true ↔
      ∀ n ∈ nodes, ∃ total, nodeTotal cache ruleName useBytes n = some total ∧
        threshold < total := by
  simp [checkTotalAbove, Option.any_eq_true]

/-- A rate condition about all nodes is met only if all of them have a rate, and it satisfies the
    thresholds. -/
def AllRates (cache : CounterCache) (ruleName : String) (rateAbove rateBelow : Option F64)
    (useBytes : Bool) (nodes : List String) : Prop :=
  checkRateThreshold cache ruleName rateAbove rateBelow useBytes nodes .all = true →
    ∀ n ∈ nodes, ∃ rate, nodeRate cache ruleName useBytes n = some rate ∧
      rateMatches rate rateAbove rateBelow = true

/-- Some nodes have no rate, others have one, and those that have one satisfy the thresholds. -/
def SomeRates (cache : CounterCache) (ruleName : String) (rateAbove rateBelow : Option F64)
    (useBytes : Bool) (nodes : List String) : Prop :=
  (∃ n ∈ nodes, nodeRate cache ruleName useBytes n = none) ∧
    (∃ n ∈ nodes, (nodeRate cache ruleName useBytes n).isSome = true) ∧
    ∀ n ∈ nodes, ∀ rate, nodeRate cache ruleName useBytes n = some rate →
      rateMatches rate rateAbove rateBelow = true

theorem checkRateThreshold_all {rateAbove rateBelow : Option F64} :
    checkRateThreshold cache ruleName rateAbove rateBelow useBytes nodes .all = true ↔
      (∃ n ∈ nodes, (nodeRate cache ruleName useBytes n).isSome = true) ∧
        ∀ n ∈ nodes, ∀ rate, nodeRate cache ruleName useBytes n = some rate →
          rateMatches rate rateAbove rateBelow = true := by
  unfold checkRateThreshold
  simp only
  split
  · next hempty =>
    have hnone : ∀ n ∈ nodes, nodeRate cache ruleName useBytes n = none :=
      List.filterMap_eq_nil_iff.mp hempty
    constructor
    · intro h
      cases h
    · rintro ⟨⟨n, hn, hsome⟩, -⟩
      rw [hnone n hn] at hsome
      cases hsome
  · next hne =>
    have hsome : ∃ n ∈ nodes, (nodeRate cache ruleName useBytes n).isSome = true := by
      obtain ⟨rate, hrate⟩ := List.exists_mem_of_ne_nil _ hne
      obtain ⟨n, hn, heq⟩ := List.mem_filterMap.mp hrate
      exact ⟨n, hn, by rw [heq]; rfl⟩
    rw [List.all_eq_true]
    constructor
    · intro h
      exact ⟨hsome, fun n hn rate hrate => h rate (List.mem_filterMap.mpr ⟨n, hn, hrate⟩)⟩
    · rintro ⟨-, h⟩ rate hrate
      obtain ⟨n, hn, heq⟩ := List.mem_filterMap.mp hrate
      exact h n hn rate heq

/-- **All rates are asked for unless only some nodes have one.** -/
theorem allRates_iff (cache : CounterCache) (ruleName : String) (rateAbove rateBelow : Option F64)
    (useBytes : Bool) (nodes : List String) :
    AllRates cache ruleName rateAbove rateBelow useBytes nodes ↔
      ¬ SomeRates cache ruleName rateAbove rateBelow useBytes nodes := by
  rw [AllRates, checkRateThreshold_all]
  constructor
  · rintro h ⟨⟨n, hn, hnone⟩, hsome, hall⟩
    obtain ⟨rate, hrate, -⟩ := h ⟨hsome, hall⟩ n hn
    rw [hnone] at hrate
    cases hrate
  · rintro h ⟨hsome, hall⟩ n hn
    cases hrate : nodeRate cache ruleName useBytes n with
    | none => exact absurd ⟨⟨n, hn, hrate⟩, hsome, hall⟩ h
    | some rate => exact ⟨rate, rfl, hall n hn rate hrate⟩

/-- Two reports of one node, ten seconds apart, and none of the other. -/
def oneReports : CounterCache :=
  (∅ : CounterCache).insert "n1"
    [⟨"n1", 0, [⟨"drop_all", 0, 0⟩]⟩, ⟨"n1", 10 * 10 ^ 9, [⟨"drop_all", 100, 100⟩]⟩]

/-- A node that never reported does not count, neither for the rate nor against it. -/
theorem not_allRates :
    checkTotalAbove oneReports "drop_all" 5 false ["n1", "n2"] .all = false ∧
      ¬ ∀ cache ruleName rateAbove rateBelow useBytes nodes,
        AllRates cache ruleName rateAbove rateBelow useBytes nodes := by
  refine ⟨by decide, fun h => ?_⟩
  have hmet : checkRateThreshold oneReports "drop_all" (some (.finite 5)) none false
      ["n1", "n2"] .all = true := by decide +kernel
  obtain ⟨rate, hrate, -⟩ := h _ _ _ _ _ _ hmet "n2" (by simp)
  have hnone : nodeRate oneReports "drop_all" false "n2" = none := rfl
  rw [hnone] at hrate
  cases hrate

/-! ## Sums -/

theorem foldlM_checkedU64 {total : Nat} (values : List Nat) (h : total < 2 ^ 64) :
    values.foldlM (fun total value => checkedU64 (total + value)) total =
      checkedU64 (total + values.sum) := by
  induction values generalizing total with
  | nil => rw [List.sum_nil, Nat.add_zero, checkedU64, if_pos h]; rfl
  | cons value values ih =>
    rw [List.foldlM_cons, List.sum_cons]
    by_cases hsum : total + value < 2 ^ 64
    · rw [checkedU64, if_pos hsum]
      show List.foldlM _ (total + value) values = _
      rw [ih hsum, Nat.add_assoc]
    · have hover : ¬ total + (value + values.sum) < 2 ^ 64 := by omega
      rw [checkedU64, if_neg hsum, checkedU64, if_neg hover]
      rfl

theorem checkedSum_eq (values : List Nat) : checkedSum values = checkedU64 values.sum := by
  rw [checkedSum, foldlM_checkedU64 values (by simp), Nat.zero_add]

/-- The sum of the latest values of the rule, over the nodes that have it. -/
def sumOfTotals (cache : CounterCache) (ruleName : String) (useBytes : Bool)
    (nodes : List String) : Nat :=
  (nodes.filterMap (nodeTotal cache ruleName useBytes)).sum

/-- The sum is compared with the threshold as it is, in either build, and nothing panics. -/
structure SumExact (cache : CounterCache) (ruleName : String) (threshold : Nat)
    (useBytes : Bool) (nodes : List String) : Prop where
  release : checkTotalAbove cache ruleName threshold useBytes nodes .sum = true ↔
    threshold < sumOfTotals cache ruleName useBytes nodes
  debug : ∃ b, checkTotalAboveDebug cache ruleName threshold useBytes nodes .sum = some b ∧
    (b = true ↔ threshold < sumOfTotals cache ruleName useBytes nodes)

/-- **The sum is exact as long as a `u64` has room for it.** -/
theorem sumExact_iff (cache : CounterCache) (ruleName : String) (threshold : Nat)
    (useBytes : Bool) (nodes : List String) :
    SumExact cache ruleName threshold useBytes nodes ↔
      sumOfTotals cache ruleName useBytes nodes < 2 ^ 64 := by
  have hdebug : checkTotalAboveDebug cache ruleName threshold useBytes nodes .sum =
      (checkedU64 (sumOfTotals cache ruleName useBytes nodes)).map
        fun total => decide (total > threshold) := by
    rw [checkTotalAboveDebug.eq_def, checkedSum_eq, sumOfTotals]
  constructor
  · intro h
    obtain ⟨b, hb, -⟩ := h.debug
    by_contra hover
    rw [hdebug, checkedU64, if_neg hover] at hb
    cases hb
  · intro hfits
    refine ⟨?_, decide (sumOfTotals cache ruleName useBytes nodes > threshold), ?_, by simp⟩
    · rw [checkTotalAbove, asU64, ← sumOfTotals, Nat.mod_eq_of_lt hfits]
      simp
    · rw [hdebug, checkedU64, if_pos hfits]
      rfl

/-- A counter near its limit and one more. -/
def nearLimit : CounterCache :=
  ((∅ : CounterCache).insert "n1" [⟨"n1", 0, [⟨"drop_all", 2 ^ 64 - 1, 0⟩]⟩]).insert "n2"
    [⟨"n2", 0, [⟨"drop_all", 1, 0⟩]⟩]

/-- Their sum reads as zero in the release build, and the debug build panics. -/
theorem not_sumExact :
    checkTotalAbove nearLimit "drop_all" 1000 false ["n1", "n2"] .sum = false ∧
      checkTotalAboveDebug nearLimit "drop_all" 1000 false ["n1", "n2"] .sum = none ∧
      ¬ ∀ cache ruleName threshold useBytes nodes,
        SumExact cache ruleName threshold useBytes nodes := by
  have hpanic : checkTotalAboveDebug nearLimit "drop_all" 1000 false ["n1", "n2"] .sum = none := by
    decide +kernel
  refine ⟨by decide +kernel, hpanic, fun h => ?_⟩
  obtain ⟨b, hb, -⟩ := (h nearLimit "drop_all" 1000 false ["n1", "n2"]).debug
  rw [hpanic] at hb
  cases hb

end PaciNet

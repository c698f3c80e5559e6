import PaciNet.Server.World

/-!
# Evaluating conditions

The verdict of a transition's condition over what one evaluation observes. Evaluating a
condition writes to one part of the instance only, the map of first-true times, so it is a
function from the context to a verdict and a context.

`all` and `any` stop at the first child that decides them, and a child that is not evaluated
does not touch the map.
-/

set_option autoImplicit false

namespace PaciNet

/-! ## The counter cache -/

namespace CounterCache

def latest (cache : CounterCache) (nodeId : String) : Option CounterSnapshot :=
  (cache.lookup nodeId).bind List.getLast?

/-- The two most recent snapshots of a node, older first. -/
def latestPair (cache : CounterCache) (nodeId : String) :
    Option (CounterSnapshot × CounterSnapshot) :=
  (cache.lookup nodeId).bind fun deque =>
    match deque.reverse with
    | newer :: older :: _ => some (older, newer)
    | _ => none

def nodeIds (cache : CounterCache) : List String := cache.keys

end CounterCache

/-! ## Rates and totals -/

inductive AggregateMode where
  | any
  | all
  | sum
  deriving DecidableEq, Repr

def parseAggregateMode (s : String) : AggregateMode :=
  match asciiLowercase s with
  | "all" => .all
  | "sum" => .sum
  | _ => .any

structure CounterRate where
  matchesPerSecond : F64
  bytesPerSecond : F64

def findCounter (snapshot : CounterSnapshot) (ruleName : String) : Option RuleCounter :=
  snapshot.counters.find? fun c => c.ruleName == ruleName

/-- `calculate_rate`; the delta of a counter that went back is zero. -/
def calculateRate (older newer : CounterSnapshot) (ruleName : String) : Option CounterRate :=
  (findCounter older ruleName).bind fun olderCounter =>
    (findCounter newer ruleName).bind fun newerCounter =>
      let elapsed : Rat := (newer.collectedAt - older.collectedAt).tdiv (10 ^ 6) / 1000
      if elapsed ≤ 0 then none
      else
        let delta (old new : Nat) : Rat := (new - old : Nat)
        some {
          matchesPerSecond :=
            .finite (delta olderCounter.matchCount newerCounter.matchCount / elapsed)
          bytesPerSecond :=
            .finite (delta olderCounter.byteCount newerCounter.byteCount / elapsed) }

/-- `get_counter_total`. -/
def getCounterTotal (snapshot : CounterSnapshot) (ruleName : String) : Option (Nat × Nat) :=
  (findCounter snapshot ruleName).map fun c => (c.matchCount, c.byteCount)

/-- Check if a rate meets the given thresholds. -/
def rateMatches (rate : F64) (above below : Option F64) : Bool :=
  !(above.any fun threshold => rate.le threshold) &&
    !(below.any fun threshold => threshold.le rate)

/-- The counter of a node that a total threshold is compared with. -/
def nodeTotal (cache : CounterCache) (ruleName : String) (useBytes : Bool) (nodeId : String) :
    Option Nat :=
  ((cache.latest nodeId).bind fun s => getCounterTotal s ruleName).map fun mb =>
    if useBytes then mb.2 else mb.1

def checkTotalAbove (cache : CounterCache) (ruleName : String) (threshold : Nat)
    (useBytes : Bool) (nodes : List String) : AggregateMode → Bool
  | .any => nodes.any fun nid => (nodeTotal cache ruleName useBytes nid).any (· > threshold)
  | .all => nodes.all fun nid => (nodeTotal cache ruleName useBytes nid).any (· > threshold)
  | .sum => asU64 (nodes.filterMap (nodeTotal cache ruleName useBytes)).sum > threshold

/-- `Iterator::sum` over `u64` in the debug build, which panics where the release build wraps. -/
def checkedSum (values : List Nat) : Option Nat :=
  values.foldlM (fun total value => checkedU64 (total + value)) 0

/-- `check_total_above` in the debug build. -/
def checkTotalAboveDebug (cache : CounterCache) (ruleName : String) (threshold : Nat)
    (useBytes : Bool) (nodes : List String) : AggregateMode → Option Bool
  | .sum => (checkedSum (nodes.filterMap (nodeTotal cache ruleName useBytes))).map (· > threshold)
  | aggregate => some (checkTotalAbove cache ruleName threshold useBytes nodes aggregate)

/-- The rate of a node that the rate thresholds are compared with. -/
def nodeRate (cache : CounterCache) (ruleName : String) (useBytes : Bool) (nodeId : String) :
    Option F64 :=
  (cache.latestPair nodeId).bind fun pair =>
    (calculateRate pair.1 pair.2 ruleName).map fun rate =>
      if useBytes then rate.bytesPerSecond else rate.matchesPerSecond

def checkRateThreshold (cache : CounterCache) (ruleName : String)
    (rateAbove rateBelow : Option F64) (useBytes : Bool) (nodes : List String)
    (aggregate : AggregateMode) : Bool :=
  let rates := nodes.filterMap (nodeRate cache ruleName useBytes)
  if rates = [] then false
  else
    match aggregate with
    | .any => rates.any fun r => rateMatches r rateAbove rateBelow
    | .all => rates.all fun r => rateMatches r rateAbove rateBelow
    | .sum => rateMatches (rates.foldl F64.add (.finite 0)) rateAbove rateBelow

/-! ## Conditions -/

/-- The key of a condition in the map of first-true times. -/
def conditionKey (currentState : String) (transitionIdx : Nat) : String :=
  currentState ++ ":" ++ toString transitionIdx

/-- The nodes a counter condition looks at. -/
def nodesToCheck (cache : CounterCache) (context : FsmContext) : List String :=
  if context.targetNodes = [] then
    if context.deployedNodes = [] then cache.nodeIds else context.deployedNodes
  else context.targetNodes

/-- The end of `evaluate_counter_condition`: the thresholds are met, and what is left is how
    long they have been. -/
def sustained (cc : CounterCondition) (now : DateTime) (key : String) (context : FsmContext) :
    Bool × FsmContext :=
  match cc.forDuration with
  | none => (true, context)
  | some dur =>
    match parseDuration dur with
    | .error _ => (false, context)
    | .ok required =>
      match context.counterConditionFirstTrue.lookup key with
      | some firstTrue => (!(now - firstTrue < durationFromSecs required), context)
      | none =>
        (!(now - now < durationFromSecs required),
          context.setFirstTrue (context.counterConditionFirstTrue.insert key now))

def evaluateCounterCondition (obs : Observation) (cc : CounterCondition) (currentState : String)
    (transitionIdx : Nat) (context : FsmContext) : Bool × FsmContext :=
  let key := conditionKey currentState transitionIdx
  let aggregateMode := (cc.aggregate.map parseAggregateMode).getD .any
  let useBytes := cc.field == some "bytes"
  let nodes := nodesToCheck obs.cache context
  let notMet := (false, context.setFirstTrue (context.counterConditionFirstTrue.erase key))
  if nodes = [] then (false, context)
  else if cc.totalAbove.any fun threshold =>
      !checkTotalAbove obs.cache cc.counter threshold useBytes nodes aggregateMode then notMet
  else if (cc.rateAbove.isSome || cc.rateBelow.isSome) &&
      !checkRateThreshold obs.cache cc.counter cc.rateAbove cc.rateBelow useBytes nodes
        aggregateMode then notMet
  else sustained cc obs.now key context

/-- The `Simple` case of `evaluate_condition`. -/
def evaluateSimple (simple : SimpleCondition) (context : FsmContext) : Bool :=
  if simple.allSucceeded == some true then
    context.lastActionResult.any fun result => result.failed == 0 && result.succeeded > 0
  else if simple.anyFailed == some true then
    context.lastActionResult.any fun result => result.failed > 0
  else false

mutual

/-- `evaluate_condition`. -/
def evaluateCondition (obs : Observation) (currentState : String) (transitionIdx : Nat) :
    ConditionDefinition → FsmContext → Bool × FsmContext
  | .simple simple, context => (evaluateSimple simple context, context)
  | .counter cc, context => evaluateCounterCondition obs cc currentState transitionIdx context
  | .compound (some conditions) _ _, context =>
    evaluateAllOf obs currentState transitionIdx conditions context
  | .compound none (some conditions) _, context =>
    evaluateAnyOf obs currentState transitionIdx conditions context
  | .compound none none (some inner), context =>
    let (b, context) := evaluateCondition obs currentState transitionIdx inner context
    (!b, context)
  | .compound none none none, context => (false, context)

/-- `conditions.iter().all(..)`. -/
def evaluateAllOf (obs : Observation) (currentState : String) (transitionIdx : Nat) :
    List ConditionDefinition → FsmContext → Bool × FsmContext
  | [], context => (true, context)
  | c :: cs, context =>
    match evaluateCondition obs currentState transitionIdx c context with
    | (true, context) => evaluateAllOf obs currentState transitionIdx cs context
    | (false, context) => (false, context)

/-- `conditions.iter().any(..)`. -/
def evaluateAnyOf (obs : Observation) (currentState : String) (transitionIdx : Nat) :
    List ConditionDefinition → FsmContext → Bool × FsmContext
  | [], context => (false, context)
  | c :: cs, context =>
    match evaluateCondition obs currentState transitionIdx c context with
    | (true, context) => (true, context)
    | (false, context) => evaluateAnyOf obs currentState transitionIdx cs context

end

/-! ## Evaluation keeps the rest of the context -/

/-- The contexts differ at most in the map of first-true times. -/
def SameButFirstTrue (context context' : FsmContext) : Prop :=
  ∃ m, context' = context.setFirstTrue m

theorem SameButFirstTrue.refl (context : FsmContext) : SameButFirstTrue context context :=
  ⟨context.counterConditionFirstTrue, rfl⟩

theorem SameButFirstTrue.trans {a b c : FsmContext} (h₁ : SameButFirstTrue a b)
    (h₂ : SameButFirstTrue b c) : SameButFirstTrue a c := by
  obtain ⟨m₁, rfl⟩ := h₁
  obtain ⟨m₂, rfl⟩ := h₂
  exact ⟨m₂, rfl⟩

theorem evaluateCounterCondition_same (obs : Observation) (cc : CounterCondition)
    (currentState : String) (transitionIdx : Nat) (context : FsmContext) :
    SameButFirstTrue context
      (evaluateCounterCondition obs cc currentState transitionIdx context).2 := by
  simp only [evaluateCounterCondition]
  split
  · exact .refl _
  · split
    · exact ⟨_, rfl⟩
    · split
      · exact ⟨_, rfl⟩
      · simp only [sustained]
        split
        · exact .refl _
        · split
          · exact .refl _
          · split
            · exact .refl _
            · exact ⟨_, rfl⟩

mutual

/-- **Evaluating a condition changes nothing but the first-true times.** -/
theorem evaluateCondition_same (obs : Observation) (currentState : String) (transitionIdx : Nat) :
    ∀ (c : ConditionDefinition) (context : FsmContext), SameButFirstTrue context
      (evaluateCondition obs currentState transitionIdx c context).2
  | .simple _, _ => .refl _
  | .counter cc, context => evaluateCounterCondition_same obs cc currentState transitionIdx context
  | .compound (some conditions) _ _, context =>
    evaluateAllOf_same obs currentState transitionIdx conditions context
  | .compound none (some conditions) _, context =>
    evaluateAnyOf_same obs currentState transitionIdx conditions context
  | .compound none none (some inner), context =>
    evaluateCondition_same obs currentState transitionIdx inner context
  | .compound none none none, _ => .refl _

theorem evaluateAllOf_same (obs : Observation) (currentState : String) (transitionIdx : Nat) :
    ∀ (cs : List ConditionDefinition) (context : FsmContext), SameButFirstTrue context
      (evaluateAllOf obs currentState transitionIdx cs context).2
  | [], _ => .refl _
  | c :: cs, context => by
    have hc := evaluateCondition_same obs currentState transitionIdx c context
    simp only [evaluateAllOf]
    split
    · rename_i context' h
      exact (h ▸ hc).trans (evaluateAllOf_same obs currentState transitionIdx cs context')
    · rename_i context' h
      exact h ▸ hc

theorem evaluateAnyOf_same (obs : Observation) (currentState : String) (transitionIdx : Nat) :
    ∀ (cs : List ConditionDefinition) (context : FsmContext), SameButFirstTrue context
      (evaluateAnyOf obs currentState transitionIdx cs context).2
  | [], _ => .refl _
  | c :: cs, context => by
    have hc := evaluateCondition_same obs currentState transitionIdx c context
    simp only [evaluateAnyOf]
    split
    · rename_i context' h
      exact h ▸ hc
    · rename_i context' h
      exact (h ▸ hc).trans (evaluateAnyOf_same obs currentState transitionIdx cs context')

end

end PaciNet

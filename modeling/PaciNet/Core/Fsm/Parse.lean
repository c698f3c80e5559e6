import PaciNet.Core.Fsm.Definition
import PaciNet.Lib.Content

/-!
# Conditions in a document

What the derived `Serialize` and `Deserialize` of a condition do. `ConditionDefinition` is untagged:
a document is read as the first of `Counter`, `Simple` and `Compound` it can be read as.

A number is written as JSON has it, so a threshold that is not finite is written as null. Text that
is no number, and an integer beyond the 53 bits of a threshold, are not looked at here.
-/

set_option autoImplicit false

namespace PaciNet

open Lib

/-! ## Values -/

def readBool : Content F64 → Option Bool
  | .bool b => some b
  | _ => none

def readString : Content F64 → Option String
  | .str s => some s
  | _ => none

/-- An `f64` is also read from an integer. -/
def readF64 : Content F64 → Option F64
  | .float x => some x
  | .int n => some (.finite n)
  | _ => none

def readU64 : Content F64 → Option Nat
  | .int n => if 0 ≤ n then some n.toNat else none
  | _ => none

def writeF64 (x : F64) : Content F64 := if x.isFinite then .float x else .null

def writeU64 (n : Nat) : Content F64 := .int n

/-! ## Simple conditions -/

namespace SimpleCondition

def names : List String := ["all_succeeded", "any_failed", "manual"]

def ofContent (c : Content F64) : Option SimpleCondition := do
  let _ ← c.fields names
  let allSucceeded ← Content.optional readBool (c.get names "all_succeeded")
  let anyFailed ← Content.optional readBool (c.get names "any_failed")
  let manual ← Content.optional readBool (c.get names "manual")
  pure ⟨allSucceeded, anyFailed, manual⟩

def toFields (s : SimpleCondition) : List (String × Option (Content F64)) :=
  [("all_succeeded", s.allSucceeded.map .bool),
   ("any_failed", s.anyFailed.map .bool),
   ("manual", s.manual.map .bool)]

/-- `nulls` says whether a field without a value is written. -/
def toContent (nulls : Bool) (s : SimpleCondition) : Content F64 := .struct nulls s.toFields

end SimpleCondition

/-! ## Counter conditions -/

namespace CounterCondition

def names : List String :=
  ["counter", "rate_above", "rate_below", "total_above", "for", "aggregate", "field"]

/-- The one field without a default is `counter`. -/
def ofContent (c : Content F64) : Option CounterCondition := do
  let _ ← c.fields names
  let counter ← (c.get names "counter").bind readString
  let rateAbove ← Content.optional readF64 (c.get names "rate_above")
  let rateBelow ← Content.optional readF64 (c.get names "rate_below")
  let totalAbove ← Content.optional readU64 (c.get names "total_above")
  let forDuration ← Content.optional readString (c.get names "for")
  let aggregate ← Content.optional readString (c.get names "aggregate")
  let field ← Content.optional readString (c.get names "field")
  pure ⟨counter, rateAbove, rateBelow, totalAbove, forDuration, aggregate, field⟩

def toFields (cc : CounterCondition) : List (String × Option (Content F64)) :=
  [("counter", some (.str cc.counter)),
   ("rate_above", cc.rateAbove.map writeF64),
   ("rate_below", cc.rateBelow.map writeF64),
   ("total_above", cc.totalAbove.map writeU64),
   ("for", cc.forDuration.map .str),
   ("aggregate", cc.aggregate.map .str),
   ("field", cc.field.map .str)]

def toContent (nulls : Bool) (cc : CounterCondition) : Content F64 := .struct nulls cc.toFields

/-- The thresholds are finite. -/
def IsFinite (cc : CounterCondition) : Prop :=
  (∀ x ∈ cc.rateAbove, x.isFinite = true) ∧ ∀ x ∈ cc.rateBelow, x.isFinite = true

end CounterCondition

/-! ## Conditions -/

/-- The fields of `CompoundCondition`. -/
def compoundNames : List String := ["and", "or", "not"]

namespace ConditionDefinition

/-- The variants are tried in the order of their declaration. -/
def ofContent (c : Content F64) : Option ConditionDefinition :=
  (CounterCondition.ofContent c).map .counter <|>
  (SimpleCondition.ofContent c).map .simple <|> do
    let _ ← c.fields compoundNames
    let and ← Content.optionalOf (c.get compoundNames "and") fun v hv =>
      v.listOf fun w _ =>
        have := Content.sizeOf_get hv
        ofContent w
    let or ← Content.optionalOf (c.get compoundNames "or") fun v hv =>
      v.listOf fun w _ =>
        have := Content.sizeOf_get hv
        ofContent w
    let not ← Content.optionalOf (c.get compoundNames "not") fun v hv =>
      have := Content.sizeOf_get hv
      ofContent v
    pure (.compound and or not)
termination_by sizeOf c
decreasing_by all_goals omega

mutual

def toContent (nulls : Bool) : ConditionDefinition → Content F64
  | .counter cc => cc.toContent nulls
  | .simple s => s.toContent nulls
  | .compound and or not =>
    .struct nulls
      [("and", match and with
        | some conditions => some (.seq (listToContent nulls conditions))
        | none => none),
       ("or", match or with
        | some conditions => some (.seq (listToContent nulls conditions))
        | none => none),
       ("not", match not with
        | some inner => some (toContent nulls inner)
        | none => none)]

def listToContent (nulls : Bool) : List ConditionDefinition → List (Content F64)
  | [] => []
  | c :: cs => toContent nulls c :: listToContent nulls cs

end

/-- The variant is `Compound`. -/
def isCompound : ConditionDefinition → Bool
  | .compound _ _ _ => true
  | _ => false

/-- The thresholds of the condition itself are finite. -/
def IsFinite : ConditionDefinition → Prop
  | .counter cc => cc.IsFinite
  | _ => True

end ConditionDefinition

end PaciNet

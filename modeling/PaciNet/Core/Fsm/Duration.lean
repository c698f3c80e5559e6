import PaciNet.Core.Model

/-!
# `parse_duration`

A duration text is a sequence of numbers, each followed by its unit. The parser is a loop over
the characters with the total so far and the digits of the number being read; it is written
here as the recursion over the remaining characters.

The total is a `u64` and the release build wraps, both where a number is scaled by its unit and
where it is added. The debug build panics there: its parser is written beside the other, and
answers nothing where it panics.
-/

set_option autoImplicit false

namespace PaciNet

/-- The characters `char::is_whitespace` accepts, which `str::trim` removes. -/
def isWhitespace (c : Char) : Bool :=
  let n := c.toNat
  (0x9 ≤ n && n ≤ 0xD) || n == 0x20 || n == 0x85 || n == 0xA0 || n == 0x1680 ||
    (0x2000 ≤ n && n ≤ 0x200A) || n == 0x2028 || n == 0x2029 || n == 0x202F || n == 0x205F ||
    n == 0x3000

/-- `str::trim`, on the characters. -/
def trim (s : List Char) : List Char :=
  ((s.dropWhile isWhitespace).reverse.dropWhile isWhitespace).reverse

/-- `u64` arithmetic of the release build. -/
def asU64 (n : Nat) : Nat := n % 2 ^ 64

/-- `u64` arithmetic of the debug build, which panics where the release build wraps. -/
def checkedU64 (n : Nat) : Option Nat := if n < 2 ^ 64 then some n else none

/-- The number written by ASCII digits. -/
def digitsValue (ds : List Char) : Nat :=
  ds.foldl (fun n d => 10 * n + (d.toNat - '0'.toNat)) 0

/-- `str::parse::<u64>` on a non-empty text of ASCII digits. -/
def parseU64 (ds : List Char) : Except String Nat :=
  if digitsValue ds < 2 ^ 64 then .ok (digitsValue ds)
  else .error "number too large to fit in target type"

/-- The seconds in one unit. -/
def unitSeconds : Char → Option Nat
  | 's' => some 1
  | 'm' => some 60
  | 'h' => some 3600
  | 'd' => some 86400
  | _ => none

/-- The loop of `parse_duration` and the checks after it. -/
def parseDurationLoop (totalSecs : Nat) (currentNum : List Char) :
    List Char → Except String Nat
  | [] =>
    if currentNum ≠ [] then
      .error ("missing duration unit for '" ++ .ofList currentNum ++ "' (use s/m/h/d)")
    else if totalSecs = 0 then .error "duration must be greater than 0"
    else .ok totalSecs
  | ch :: rest =>
    if ch.isDigit then parseDurationLoop totalSecs (currentNum ++ [ch]) rest
    else if currentNum = [] then
      .error ("unexpected '" ++ String.singleton ch ++ "' without number")
    else
      match parseU64 currentNum with
      | .error e => .error ("invalid number: " ++ e)
      | .ok n =>
        match unitSeconds ch with
        | some unit => parseDurationLoop (asU64 (totalSecs + asU64 (n * unit))) [] rest
        | none => .error ("unknown duration unit: '" ++ String.singleton ch ++ "'")

/-- `parse_duration`, in seconds. -/
def parseDuration (s : String) : Except String Nat :=
  let s := trim s.toList
  if s = [] then .error "empty duration string" else parseDurationLoop 0 [] s

/-- The loop of `parse_duration` in the debug build. -/
def parseDurationLoopDebug (totalSecs : Nat) (currentNum : List Char) :
    List Char → Option (Except String Nat)
  | [] =>
    if currentNum ≠ [] then
      some (.error ("missing duration unit for '" ++ .ofList currentNum ++ "' (use s/m/h/d)"))
    else if totalSecs = 0 then some (.error "duration must be greater than 0")
    else some (.ok totalSecs)
  | ch :: rest =>
    if ch.isDigit then parseDurationLoopDebug totalSecs (currentNum ++ [ch]) rest
    else if currentNum = [] then
      some (.error ("unexpected '" ++ String.singleton ch ++ "' without number"))
    else
      match parseU64 currentNum with
      | .error e => some (.error ("invalid number: " ++ e))
      | .ok n =>
        match unitSeconds ch with
        | some unit =>
          (checkedU64 (n * unit)).bind fun secs =>
            (checkedU64 (totalSecs + secs)).bind fun total =>
              parseDurationLoopDebug total [] rest
        | none => some (.error ("unknown duration unit: '" ++ String.singleton ch ++ "'"))

/-- `parse_duration` in the debug build. -/
def parseDurationDebug (s : String) : Option (Except String Nat) :=
  let s := trim s.toList
  if s = [] then some (.error "empty duration string") else parseDurationLoopDebug 0 [] s

example : parseDuration " 1h30m" = .ok 5400 := by decide +kernel
example : parseDuration "5" = .error "missing duration unit for '5' (use s/m/h/d)" := by decide +kernel

/-- `chrono::Duration::MAX`. -/
def durationMax : Int := (2 ^ 63 - 1) * 10 ^ 6

/-- `chrono::Duration::from_std(d).unwrap_or(chrono::Duration::MAX)` for a whole number of
    seconds. -/
def durationFromSecs (secs : Nat) : Int :=
  if secs ≤ (2 ^ 63 - 1) / 1000 then secs * 10 ^ 9 else durationMax

end PaciNet

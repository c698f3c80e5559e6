import Mathlib
import PaciNet.Agent.Runner
import PaciNet.Lib.Segments
import PaciNet.Server.Deploy

/-!
# What the command lines tell

`pacgate` is told what to lint and what to compile on two command lines, which the agent builds from
the options of a deploy. The options say more than matters: some have defaults, some are turned on
by others, and some mean nothing without others. What matters is collected as `CompileSettings`.

**The command line of the compiler tells the settings, no more and no less**
(`commandLine_eq_iff`), whatever the text of the target is. **The linter is told those settings that
are about it, and the same as the compiler** (`commandLines_tell`).
-/

set_option autoImplicit false

namespace PaciNet

open Lib

/-! ## Settings -/

/-- What `pacgate` is told to lint: for a feature that has a number, the number if it is on. -/
structure LintSettings where
  dynamicEntries : Option Nat
  width : Option Nat
  target : Option String
  ptp : Bool
  rssQueues : Option Nat
  intSwitchId : Option Nat
  deriving DecidableEq, Repr

/-- What `pacgate` is told to compile. More than one port is asked for, or none is. -/
structure CompileSettings where
  counters : Bool
  rateLimit : Bool
  conntrack : Bool
  axi : Bool
  ports : Option Nat
  lint : LintSettings
  deriving DecidableEq, Repr

/-- What the options mean to the linter. -/
def CompileOptions.lintSettings (o : CompileOptions) : LintSettings where
  dynamicEntries := if o.dynamic then some (max o.dynamicEntries 1) else none
  width := if o.width > 0 then some o.width else none
  target := if o.target != "" then some o.target else none
  ptp := o.ptp
  rssQueues := if o.rss || o.rssQueues != 4 then some (max o.rssQueues 1) else none
  intSwitchId := if o.intEnabled || o.intSwitchId != 0 then some o.intSwitchId else none

/-- What the options mean to the compiler. -/
def CompileOptions.settings (o : CompileOptions) : CompileSettings where
  counters := o.counters
  rateLimit := o.rateLimit
  conntrack := o.conntrack
  axi := o.axi
  ports := if max o.ports 1 > 1 then some (max o.ports 1) else none
  lint := o.lintSettings

/-! ## Segments -/

/-- A flag without a value. -/
def flagSegment (name : String) (on : Bool) : Segment String :=
  ⟨name, if on then some [] else none⟩

/-- A flag with a value. -/
def valueSegment (name : String) (value : Option String) : Segment String :=
  ⟨name, value.map fun v => [v]⟩

/-- A flag, and another one with a number. -/
def numberSegment (name parameter : String) (n : Option Nat) : Segment String :=
  ⟨name, n.map fun n => [parameter, toString n]⟩

/-- The segments of the command line of the linter. -/
def LintSettings.segments (s : LintSettings) : List (Segment String) :=
  [numberSegment "--dynamic" "--dynamic-entries" s.dynamicEntries,
    valueSegment "--width" (s.width.map toString), valueSegment "--target" s.target,
    flagSegment "--ptp" s.ptp, numberSegment "--rss" "--rss-queues" s.rssQueues,
    numberSegment "--int" "--int-switch-id" s.intSwitchId]

/-- The segments of the command line of the compiler. -/
def CompileSettings.segments (s : CompileSettings) : List (Segment String) :=
  [flagSegment "--counters" s.counters, flagSegment "--rate-limit" s.rateLimit,
    flagSegment "--conntrack" s.conntrack, flagSegment "--axi" s.axi,
    valueSegment "--ports" (s.ports.map toString), valueSegment "--target" s.lint.target,
    numberSegment "--dynamic" "--dynamic-entries" s.lint.dynamicEntries,
    valueSegment "--width" (s.lint.width.map toString), flagSegment "--ptp" s.lint.ptp,
    numberSegment "--rss" "--rss-queues" s.lint.rssQueues,
    numberSegment "--int" "--int-switch-id" s.lint.intSwitchId]

theorem commandLine_append (fs gs : List CommandFlag) :
    commandLine (fs ++ gs) = commandLine fs ++ commandLine gs := List.flatMap_append

section Conditions

variable {p : Prop} [Decidable p]

/-- Flags that are there under a condition. -/
theorem commandLine_ite (fs : List CommandFlag) :
    commandLine (if p then fs else []) = if p then commandLine fs else [] := by
  split <;> rfl

theorem write_valueSegment (name value : String) :
    (valueSegment name (if p then some value else none)).write =
      if p then [name, value] else [] := by
  split <;> rfl

theorem write_valueSegment_nat (name : String) (n : Nat) :
    (valueSegment name ((if p then some n else none).map toString)).write =
      if p then [name, toString n] else [] := by
  split <;> rfl

theorem write_numberSegment (name parameter : String) (n : Nat) :
    (numberSegment name parameter (if p then some n else none)).write =
      if p then [name, parameter, toString n] else [] := by
  split <;> rfl

end Conditions

theorem write_flagSegment (name : String) (on : Bool) :
    (flagSegment name on).write = if on then [name] else [] := by
  cases on <;> rfl

/-- The command line of the compiler is that of the settings. -/
theorem commandLine_compile (o : CompileOptions) :
    commandLine (applyCompileFlags o) = o.settings.segments.flatMap Segment.write := by
  simp only [applyCompileFlags, commandLine_append, commandLine_ite, CompileSettings.segments,
    CompileOptions.settings, CompileOptions.lintSettings, List.flatMap_cons, List.flatMap_nil,
    write_flagSegment, write_valueSegment, write_valueSegment_nat, write_numberSegment,
    List.append_nil, List.append_assoc]
  rfl

/-- The command line of the linter is that of its settings. -/
theorem commandLine_lint (o : CompileOptions) :
    commandLine (applyLintFlags o) = o.lintSettings.segments.flatMap Segment.write := by
  simp only [applyLintFlags, commandLine_append, commandLine_ite, LintSettings.segments,
    CompileOptions.lintSettings, List.flatMap_cons, List.flatMap_nil,
    write_flagSegment, write_valueSegment, write_valueSegment_nat, write_numberSegment,
    List.append_nil, List.append_assoc]
  rfl

/-! ## Reading -/

/-- The keywords of the linter, and how many words follow each. -/
def lintShapes : List (String × Nat) :=
  [("--dynamic", 2), ("--width", 1), ("--target", 1), ("--ptp", 0), ("--rss", 2), ("--int", 2)]

/-- The keywords of the compiler, and how many words follow each. -/
def compileShapes : List (String × Nat) :=
  [("--counters", 0), ("--rate-limit", 0), ("--conntrack", 0), ("--axi", 0), ("--ports", 1),
    ("--target", 1), ("--dynamic", 2), ("--width", 1), ("--ptp", 0), ("--rss", 2), ("--int", 2)]

/-- The number a flag was given. -/
def numberOf (words : Option (List String)) : Option Nat :=
  words.bind fun ws => ws.getLast?.bind String.toNat?

/-- The settings that words after the keywords tell. -/
def LintSettings.ofWords : List (Option (List String)) → Option LintSettings
  | [dynamic, width, target, ptp, rss, int] => some
      { dynamicEntries := numberOf dynamic
        width := numberOf width
        target := target.bind List.getLast?
        ptp := ptp.isSome
        rssQueues := numberOf rss
        intSwitchId := numberOf int }
  | _ => none

def CompileSettings.ofWords : List (Option (List String)) → Option CompileSettings
  | [counters, rateLimit, conntrack, axi, ports, target, dynamic, width, ptp, rss, int] =>
    (LintSettings.ofWords [dynamic, width, target, ptp, rss, int]).map fun lint =>
      { counters := counters.isSome
        rateLimit := rateLimit.isSome
        conntrack := conntrack.isSome
        axi := axi.isSome
        ports := numberOf ports
        lint := lint }
  | _ => none

/-- Read a command line of the linter: the file and the settings. -/
def readLintArgs : List String → Option (String × LintSettings)
  | "lint" :: path :: "--json" :: args =>
    ((Segment.read lintShapes args).bind LintSettings.ofWords).map (path, ·)
  | _ => none

/-- Read a command line of the compiler: the file and the settings. -/
def readCompileArgs : List String → Option (String × CompileSettings)
  | "compile" :: path :: "--json" :: args =>
    ((Segment.read compileShapes args).bind CompileSettings.ofWords).map (path, ·)
  | _ => none

theorem isSome_flagSegment (name : String) (on : Bool) :
    (flagSegment name on).items.isSome = on := by
  cases on <;> rfl

theorem getLast?_valueSegment (name : String) (value : Option String) :
    (valueSegment name value).items.bind List.getLast? = value := by
  cases value <;> rfl

theorem numberOf_valueSegment (name : String) (n : Option Nat) :
    numberOf (valueSegment name (n.map toString)).items = n := by
  cases n with
  | none => rfl
  | some n => exact Nat.toNat?_repr n

theorem numberOf_numberSegment (name parameter : String) (n : Option Nat) :
    numberOf (numberSegment name parameter n).items = n := by
  cases n with
  | none => rfl
  | some n => exact Nat.toNat?_repr n

theorem fits_flagSegment (name : String) (on : Bool) : (flagSegment name on).Fits (name, 0) := by
  refine ⟨rfl, fun items h => ?_⟩
  cases on with
  | false => exact nomatch h
  | true =>
    cases h
    rfl

theorem fits_valueSegment (name : String) (value : Option String) :
    (valueSegment name value).Fits (name, 1) := by
  refine ⟨rfl, fun items h => ?_⟩
  obtain ⟨v, -, rfl⟩ := Option.map_eq_some_iff.1 h
  rfl

theorem fits_numberSegment (name parameter : String) (n : Option Nat) :
    (numberSegment name parameter n).Fits (name, 2) := by
  refine ⟨rfl, fun items h => ?_⟩
  obtain ⟨v, -, rfl⟩ := Option.map_eq_some_iff.1 h
  rfl

/-- The words of the settings tell the settings. -/
theorem LintSettings.ofWords_segments (s : LintSettings) :
    ofWords (s.segments.map Segment.items) = some s := by
  simp only [segments, List.map_cons, List.map_nil, ofWords, numberOf_numberSegment,
    numberOf_valueSegment, getLast?_valueSegment, isSome_flagSegment]

theorem CompileSettings.ofWords_segments (s : CompileSettings) :
    ofWords (s.segments.map Segment.items) = some s := by
  simp only [segments, List.map_cons, List.map_nil, ofWords, LintSettings.ofWords,
    numberOf_numberSegment, numberOf_valueSegment, getLast?_valueSegment, isSome_flagSegment,
    Option.map_some]

theorem LintSettings.fits (s : LintSettings) :
    List.Forall₂ Segment.Fits s.segments lintShapes :=
  .cons (fits_numberSegment _ _ _) <| .cons (fits_valueSegment _ _) <|
    .cons (fits_valueSegment _ _) <| .cons (fits_flagSegment _ _) <|
    .cons (fits_numberSegment _ _ _) <| .cons (fits_numberSegment _ _ _) .nil

theorem CompileSettings.fits (s : CompileSettings) :
    List.Forall₂ Segment.Fits s.segments compileShapes :=
  .cons (fits_flagSegment _ _) <| .cons (fits_flagSegment _ _) <| .cons (fits_flagSegment _ _) <|
    .cons (fits_flagSegment _ _) <| .cons (fits_valueSegment _ _) <|
    .cons (fits_valueSegment _ _) <| .cons (fits_numberSegment _ _ _) <|
    .cons (fits_valueSegment _ _) <| .cons (fits_flagSegment _ _) <|
    .cons (fits_numberSegment _ _ _) <| .cons (fits_numberSegment _ _ _) .nil

theorem readLintArgs_lintArgs (path : String) (o : CompileOptions) :
    readLintArgs (lintArgs path o) = some (path, o.lintSettings) := by
  show ((Segment.read lintShapes (commandLine (applyLintFlags o))).bind _).map _ = _
  rw [commandLine_lint, Segment.read_write o.lintSettings.fits (by decide), Option.bind_some,
    LintSettings.ofWords_segments]
  rfl

theorem readCompileArgs_compileArgs (path : String) (o : CompileOptions) :
    readCompileArgs (compileArgs path o) = some (path, o.settings) := by
  show ((Segment.read compileShapes (commandLine (applyCompileFlags o))).bind _).map _ = _
  rw [commandLine_compile, Segment.read_write o.settings.fits (by decide), Option.bind_some,
    CompileSettings.ofWords_segments]
  rfl

/-- **The command line of the compiler tells the settings, no more and no less.** -/
theorem commandLine_eq_iff {o o' : CompileOptions} :
    commandLine (applyCompileFlags o) = commandLine (applyCompileFlags o') ↔
      o.settings = o'.settings := by
  refine ⟨fun h => ?_, fun h => by rw [commandLine_compile, commandLine_compile, h]⟩
  have hread := readCompileArgs_compileArgs "" o
  rw [compileArgs, h] at hread
  exact (Prod.mk.inj (Option.some.inj (hread.symm.trans
    (readCompileArgs_compileArgs "" o')))).2

/-- **What the agent runs tells what was asked for.** Both command lines are read back to the file
    and the settings, the linter is told the compiler's, and only options with the same settings
    are compiled alike. -/
theorem commandLines_tell (path : String) (o : CompileOptions) :
    readCompileArgs (compileArgs path o) = some (path, o.settings) ∧
      readLintArgs (lintArgs path o) = some (path, o.settings.lint) ∧
      ∀ path' o', compileArgs path o = compileArgs path' o' ↔
        path = path' ∧ o.settings = o'.settings := by
  refine ⟨readCompileArgs_compileArgs path o, readLintArgs_lintArgs path o, fun path' o' => ?_⟩
  simp only [compileArgs, List.cons_append, List.nil_append, List.cons.injEq, true_and,
    commandLine_eq_iff]

/-! ## Defaults -/

theorem normalize_ports (n : Nat) : max (if n = 0 then 1 else n) 1 = max n 1 := by
  split <;> omega

theorem normalize_dynamic (on : Bool) (n : Nat) :
    (if on then some (max (if n = 0 then 16 else n) 1) else none) =
        (if on then some (max n 1) else none) ↔ (on = true → n ≠ 0) := by
  by_cases hn : n = 0
  · cases on <;> simp [hn]
  · simp [hn]

theorem normalize_width (n : Nat) :
    (if (if n = 0 then 8 else n) > 0 then some (if n = 0 then 8 else n) else none) =
        (if n > 0 then some n else none) ↔ n ≠ 0 := by
  by_cases hn : n = 0 <;> simp [hn]

theorem normalize_target (target : String) :
    (if (if target = "" then "standalone" else target) != "" then
        some (if target = "" then "standalone" else target) else none) =
      (if target != "" then some target else none) ↔ target ≠ "" := by
  by_cases ht : target = "" <;> simp [ht]

/-- No queues turn RSS on, with one; the default is four, which do not. -/
theorem normalize_rss (on : Bool) (n : Nat) :
    (if on || (if n = 0 then 4 else n) != 4 then some (max (if n = 0 then 4 else n) 1) else none) =
        (if on || n != 4 then some (max n 1) else none) ↔ n ≠ 0 := by
  by_cases hn : n = 0
  · cases on <;> simp [hn]
  · simp [hn]

/-- Normalizing the options changes what `pacgate` is told unless they leave no default to fill
    in. -/
theorem settings_normalizeOptions_iff (o : CompileOptions) :
    (normalizeOptions o).settings = o.settings ↔
      (o.dynamic = true → o.dynamicEntries ≠ 0) ∧ o.width ≠ 0 ∧ o.target ≠ "" ∧
        o.rssQueues ≠ 0 := by
  simp only [CompileOptions.settings, CompileOptions.lintSettings, normalizeOptions,
    CompileSettings.mk.injEq, LintSettings.mk.injEq, normalize_ports, true_and]
  exact and_congr (normalize_dynamic _ _) (and_congr (normalize_width _)
    (and_congr (normalize_target _) ((and_iff_left rfl).trans (normalize_rss _ _))))

end PaciNet
